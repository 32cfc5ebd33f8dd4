import Mathlib.Algebra.Group.Nat.Defs
import Mathlib.Data.List.Basic
import Mathlib.Data.List.Pairwise
import Mathlib.Tactic.SplitIfs
import Mathlib.Tactic.Common

/-!
# Column nodes and the column list of a user key

A `UserKey` keeps, for each column, a linked list of `ColumnNode`s from the newest
to the oldest version and a pointer to the latest one.  This module transcribes
`ColumnNode`, `UserKey::GetColumnNode`, `UserKey::UpdateColumn` and
`UserKey::InsertColumnNode`, and states what a well-formed column list is.

Sequence numbers, internal keys, times and column ids are natural numbers.  A node
is designated by its begin sequence number, which no other node of its list
has; this is how the `latest_col_node_` pointer and the pointer a request keeps to
its node are represented.
-/

namespace InsDb

open List

/-- `ULONG_MAX`: the open end of a version, the sequence number of a read without a
snapshot, and the internal key of a node that was merged into a newer one. -/
def ulongMax : Nat := 18446744073709551615

/-- Internal keys below this one are worker ids: the node is being submitted. -/
def kUnusedNextInternalKey : Nat := 1088

def expiry (ts ttl : Nat) : Nat := (ts + ttl) % 2 ^ 64

inductive RequestType where
  | put
  | del
deriving DecidableEq, Repr

structure ColumnNode (V : Type) where
  requestType : RequestType
  beginSeq : Nat
  endSeq : Nat := ulongMax
  /-- `ttl_`: the time of the write, 0 when TTL is disabled for the column. -/
  ts : Nat := 0
  /-- 0 while pending, a worker id while being submitted, `ulongMax` once merged. -/
  ikeySeq : Nat := 0
  kbOffset : Nat := 0
  ivalueSize : Nat := 0
  userValue : Option V := none
  transaction : Bool := false
  dropped : Bool := false
  holdingIter : Bool := false
  recentColNodeDeleted : Bool := false
  trxnCommitted : Bool := false
  tgidSplit : Bool := false
deriving DecidableEq, Repr

/-- Where a stored value is: still attached to its node, or in a key block. -/
inductive Designator (V : Type) where
  | inMemory (value : V)
  | keyBlock (ikeySeq kbOffset : Nat)
deriving DecidableEq, Repr

variable {V : Type}

namespace ColumnNode

/-- `ColumnNode(seq, ttl, ikey_seq, ivalue_size, offset)`: a column fetched from a
device row. -/
def fetched (seq ttl ikeySeq ivalueSize offset : Nat) : ColumnNode V :=
  { requestType := .put
    beginSeq := seq
    ts := ttl
    ikeySeq := ikeySeq
    kbOffset := offset
    ivalueSize := ivalueSize
    trxnCommitted := true }

def designator (node : ColumnNode V) : Designator V :=
  match node.userValue with
  | some value => .inMemory value
  | none => .keyBlock node.ikeySeq node.kbOffset

/-- The test by which `GetColumnNode` stops at a node. -/
def covers (seq : Nat) (node : ColumnNode V) : Bool :=
  decide (node.beginSeq ≤ seq) &&
    (decide (node.endSeq = ulongMax) || decide (seq < node.endSeq) ||
      decide (node.requestType = .del))

def hidden (curTime ttl : Nat) (node : ColumnNode V) : Bool :=
  node.dropped || (decide (ttl ≠ 0) && decide (expiry node.ts ttl < curTime)) ||
    decide (node.requestType = .del)

def closeDelete (node : ColumnNode V) : ColumnNode V :=
  if node.requestType = .del then { node with endSeq := node.beginSeq } else node

theorem covers_iff {seq : Nat} {node : ColumnNode V} : node.covers seq = true ↔
      node.beginSeq ≤ seq ∧
        (node.endSeq = ulongMax ∨ seq < node.endSeq ∨ node.requestType = .del) := by
  simp [covers, or_assoc]

theorem hidden_of_del {curTime ttl : Nat} {node : ColumnNode V}
    (isDel : node.requestType = .del) : node.hidden curTime ttl = true := by
  simp [hidden, isDel]

@[simp] theorem closeDelete_beginSeq (node : ColumnNode V) :
    node.closeDelete.beginSeq = node.beginSeq := by
  unfold closeDelete
  split_ifs <;> rfl

@[simp] theorem closeDelete_requestType (node : ColumnNode V) :
    node.closeDelete.requestType = node.requestType := by
  unfold closeDelete
  split_ifs <;> rfl

end ColumnNode

theorem find_congr {Item : Type} {items : List Item} {first second : Item → Bool}
    (same : ∀ item ∈ items, first item = second item) : items.find? first = items.find? second := by
  induction items with
  | nil => rfl
  | cons item rest ih =>
    rw [find?_cons, find?_cons, same item mem_cons_self,
      ih fun other mem => same other (mem_cons_of_mem _ mem)]

/-- What `GetColumnNode` returns: a node, a null pointer with `deleted` set, or a
null pointer. -/
inductive ColumnLookup (Node : Type) where
  | found (node : Node)
  | deleted
  | absent
deriving DecidableEq, Repr

def ColumnLookup.map {Node View : Type} (view : Node → View) :
    ColumnLookup Node → ColumnLookup View
  | .found node => .found (view node)
  | .deleted => .deleted
  | .absent => .absent

structure ColumnData (V : Type) where
  /-- Newest first. -/
  colList : List (ColumnNode V) := []
  latestColNode : Option Nat := none
  lastTGID : Nat := 0
  requestNode : Option Nat := none
deriving DecidableEq, Repr

namespace ColumnData

/-- The node `latest_col_node_` points to. -/
def latestNode (data : ColumnData V) : Option (ColumnNode V) :=
  data.latestColNode.bind fun designated =>
    data.colList.find? (fun node => node.beginSeq = designated)

end ColumnData

def ColumnNode.answer (curTime ttl : Nat) (node : ColumnNode V) :
    ColumnLookup (ColumnNode V) :=
  if node.hidden curTime ttl then .deleted else .found node

/-- The first node of a newest-first list that covers `seqNum` answers. -/
def lookupIn (nodes : List (ColumnNode V)) (curTime : Nat) (seq : Nat)
    (ttl : Nat) : ColumnLookup (ColumnNode V) :=
  match nodes.find? (ColumnNode.covers seq) with
  | some node => node.answer curTime ttl
  | none => .absent

theorem lookupIn_append (front back : List (ColumnNode V)) (curTime seq ttl : Nat) :
    lookupIn (front ++ back) curTime seq ttl =
      match front.find? (ColumnNode.covers seq) with
      | some node => node.answer curTime ttl
      | none => lookupIn back curTime seq ttl := by
  unfold lookupIn
  rw [find?_append]
  cases front.find? (ColumnNode.covers seq) <;> rfl

structure ColumnNode.SameView (left right : ColumnNode V) : Prop where
  requestType : left.requestType = right.requestType
  beginSeq : left.beginSeq = right.beginSeq
  endSeq : left.endSeq = right.endSeq
  ts : left.ts = right.ts
  dropped : left.dropped = right.dropped
  designator : left.designator = right.designator

def ColumnNode.view (node : ColumnNode V) : Designator V × Nat :=
  (node.designator, node.beginSeq)

namespace ColumnNode.SameView

variable {left right : ColumnNode V}

theorem refl (node : ColumnNode V) : node.SameView node := ⟨rfl, rfl, rfl, rfl, rfl, rfl⟩

theorem covers (same : left.SameView right) (seq : Nat) :
    left.covers seq = right.covers seq := by
  simp [ColumnNode.covers, same.beginSeq, same.endSeq, same.requestType]

theorem answer (same : left.SameView right) (curTime ttl : Nat) :
    (left.answer curTime ttl).map ColumnNode.view =
      (right.answer curTime ttl).map ColumnNode.view := by
  have hiddenSame : left.hidden curTime ttl = right.hidden curTime ttl := by
    simp [ColumnNode.hidden, same.dropped, same.ts, same.requestType]
  unfold ColumnNode.answer
  rw [hiddenSame]
  split_ifs
  · rfl
  · simp [ColumnLookup.map, ColumnNode.view, same.designator, same.beginSeq]

theorem lookup_cons (same : left.SameView right) (older : List (ColumnNode V))
    (curTime seq ttl : Nat) :
    (lookupIn (left :: older) curTime seq ttl).map ColumnNode.view =
      (lookupIn (right :: older) curTime seq ttl).map ColumnNode.view := by
  by_cases cover : right.covers seq = true
  · have sameCovering : left.covers seq = true := by rw [same.covers, cover]
    simp only [lookupIn, find?_cons_of_pos cover, find?_cons_of_pos sameCovering]
    exact same.answer curTime ttl
  have sameCovering : ¬ left.covers seq = true := by rw [same.covers]; exact cover
  simp only [lookupIn, find?_cons_of_neg cover, find?_cons_of_neg sameCovering]

end ColumnNode.SameView

/-- `UserKey::GetColumnNode`: the latest node first, then the rest of the list. -/
def ColumnData.getColumnNode (data : ColumnData V) (curTime : Nat)
    (seq : Nat) (ttl : Nat) : ColumnLookup (ColumnNode V) :=
  match data.latestNode with
  | none => .absent
  | some latest =>
    if latest.covers seq then
      latest.answer curTime ttl
    else
      lookupIn data.colList.tail curTime seq ttl

/-- The node at which `GetColumnNode` stops. -/
def ColumnData.stopNode (data : ColumnData V) (seq : Nat) : Option (ColumnNode V) :=
  match data.latestNode with
  | none => none
  | some latest =>
    if latest.covers seq then
      some latest
    else
      data.colList.tail.find? (ColumnNode.covers seq)

theorem ColumnData.getColumnNode_of_stopNode (data : ColumnData V) (curTime seq ttl : Nat) :
    data.getColumnNode curTime seq ttl =
      match data.stopNode seq with
      | some node => node.answer curTime ttl
      | none => .absent := by
  unfold ColumnData.getColumnNode ColumnData.stopNode lookupIn
  cases data.latestNode with
  | none => rfl
  | some latest => by_cases cover : latest.covers seq = true <;> simp [cover]

inductive InsertColumnNodeStatus where
  | failInsert
  | successInsert
  | insertedToLast
  | needToSchedule
  | hasBeenScheduled
deriving DecidableEq, Repr

/-- The new request joins the pending one of the previous newest node, if that node
is still pending. -/
def scheduleStatus (old : ColumnNode V) : InsertColumnNodeStatus :=
  if old.ikeySeq = 0 then .hasBeenScheduled else .needToSchedule

/-- `UserKey::UpdateColumn`.  The dirty mark of the key is left to the caller. -/
def ColumnData.updateColumn (data : ColumnData V) (newColNode : ColumnNode V)
    (force : Bool) : InsertColumnNodeStatus × ColumnData V :=
  match data.colList with
  | [] => (.needToSchedule, { data with colList := [newColNode.closeDelete] })
  | old :: older =>
    if old.requestType = .put ∧ old.endSeq = ulongMax then
      (scheduleStatus old,
        { data with
          colList :=
            newColNode.closeDelete :: { old with endSeq := newColNode.beginSeq } :: older })
    else if newColNode.requestType = .del ∧ old.requestType = .del ∧ force = false then
      (.failInsert, data)
    else
      (scheduleStatus old,
        { data with colList := newColNode.closeDelete :: old :: older })

/-- `UserKey::InsertColumnNode`: a node fetched from the device goes to the back. -/
def ColumnData.insertColumnNode (data : ColumnData V) (newColNode : ColumnNode V) :
    InsertColumnNodeStatus × ColumnData V :=
  match data.colList.getLast? with
  | some oldest =>
    if oldest.ikeySeq = newColNode.ikeySeq ∧ oldest.kbOffset = newColNode.kbOffset then
      (.failInsert, data)
    else
      (.insertedToLast,
        { data with
          colList := data.colList ++ [{ newColNode with endSeq := oldest.beginSeq }] })
  | none =>
    (.successInsert,
      { data with
        colList := [newColNode]
        latestColNode := some newColNode.beginSeq })

/-- A newer version begins after an older one and not before the older one ends. -/
def ColumnNode.supersedes (newer older : ColumnNode V) : Prop :=
  older.beginSeq < newer.beginSeq ∧ older.endSeq ≤ newer.beginSeq

def ColumnNode.interval (node : ColumnNode V) : Nat × Nat :=
  (node.beginSeq, node.endSeq)

structure ColumnNode.WellFormed (node : ColumnNode V) : Prop where
  begin_lt_max : node.beginSeq < ulongMax
  begin_le_end : node.beginSeq ≤ node.endSeq
  del_ends : node.requestType = .del → node.endSeq = node.beginSeq
  pending_value : node.requestType = .put → node.ikeySeq = 0 → node.userValue.isSome = true

structure Chain (nodes : List (ColumnNode V)) : Prop where
  wellFormed : ∀ node ∈ nodes, node.WellFormed
  ordered : nodes.Pairwise ColumnNode.supersedes

structure ColumnData.WellFormed (data : ColumnData V) : Prop where
  chain : Chain data.colList
  latest : data.latestColNode = data.colList.head?.map ColumnNode.beginSeq

namespace Chain

variable {node newer older : ColumnNode V} {nodes : List (ColumnNode V)}
  {seq : Nat}

theorem nil : Chain ([] : List (ColumnNode V)) := ⟨by simp, List.Pairwise.nil⟩

theorem head (chain : Chain (node :: nodes)) : node.WellFormed :=
  chain.wellFormed node mem_cons_self

theorem tail (chain : Chain (node :: nodes)) : Chain nodes :=
  ⟨fun other mem => chain.wellFormed other (mem_cons_of_mem _ mem),
    (pairwise_cons.mp chain.ordered).2⟩

theorem head_supersedes (chain : Chain (newer :: nodes)) (mem : older ∈ nodes) :
    newer.supersedes older :=
  (pairwise_cons.mp chain.ordered).1 older mem

theorem cons (chain : Chain nodes) (wellFormed : node.WellFormed)
    (above : ∀ older ∈ nodes, node.supersedes older) : Chain (node :: nodes) := by
  refine ⟨?_, pairwise_cons.mpr ⟨above, chain.ordered⟩⟩
  intro other mem
  rcases mem_cons.mp mem with rfl | later
  · exact wellFormed
  · exact chain.wellFormed other later

theorem sublist {kept : List (ColumnNode V)} (chain : Chain nodes)
    (removed : kept.Sublist nodes) : Chain kept :=
  ⟨fun other mem => chain.wellFormed other (removed.subset mem), chain.ordered.sublist removed⟩

theorem of_intervals {kept : List (ColumnNode V)} (chain : Chain nodes)
    (wellFormed : ∀ node ∈ kept, node.WellFormed)
    (intervals : (kept.map ColumnNode.interval).Sublist (nodes.map ColumnNode.interval)) :
    Chain kept := by
  refine ⟨wellFormed, ?_⟩
  have ordered : (nodes.map ColumnNode.interval).Pairwise
      (fun newer older => older.1 < newer.1 ∧ older.2 ≤ newer.1) := by
    rw [pairwise_map]
    exact chain.ordered
  have keptOrdered := ordered.sublist intervals
  rw [pairwise_map] at keptOrdered
  exact keptOrdered

theorem older_end_ne_max (wellFormed : newer.WellFormed) (above : newer.supersedes older) :
    older.endSeq ≠ ulongMax := by
  intro _
  have bound := wellFormed.begin_lt_max
  have ends := above.2
  omega

theorem older_put_not_covers (wellFormed : newer.WellFormed)
    (above : newer.supersedes older) (begun : newer.beginSeq ≤ seq)
    (isPut : older.requestType = .put) : older.covers seq = false := by
  have closed := older_end_ne_max wellFormed above
  have ended : ¬ seq < older.endSeq := by
    have ends := above.2
    omega
  simp [ColumnNode.covers, closed, ended, isPut]

end Chain

namespace ColumnData.WellFormed

variable {data : ColumnData V}

theorem latestNode_eq_head (wellFormed : data.WellFormed) :
    data.latestNode = data.colList.head? := by
  unfold ColumnData.latestNode
  rw [wellFormed.latest]
  cases data.colList with
  | nil => rfl
  | cons => simp

theorem getColumnNode_eq (wellFormed : data.WellFormed) (curTime : Nat) (seq : Nat) (ttl : Nat) :
    data.getColumnNode curTime seq ttl = lookupIn data.colList curTime seq ttl := by
  unfold ColumnData.getColumnNode
  rw [wellFormed.latestNode_eq_head]
  cases listed : data.colList with
  | nil => rfl
  | cons node =>
    by_cases cover : node.covers seq = true
    · simp [lookupIn, cover]
    · simp [lookupIn, cover]

end ColumnData.WellFormed

/-- No node of the list has begun or ended after `bound`, open ends aside. -/
def ColumnData.Below (data : ColumnData V) (bound : Nat) : Prop :=
  ∀ node ∈ data.colList,
    node.beginSeq ≤ bound ∧ (node.endSeq = ulongMax ∨ node.endSeq ≤ bound)

theorem ColumnData.Below.mono {data : ColumnData V} {bound larger : Nat}
    (below : data.Below bound) (grows : bound ≤ larger) : data.Below larger := by
  intro node mem
  obtain ⟨_, _⟩ := below node mem
  exact ⟨by omega, by omega⟩

/-- The newest version, if it is a Put with an open end, ends at `seqNum`. -/
def closeNewest (seq : Nat) : List (ColumnNode V) → List (ColumnNode V)
  | [] => []
  | old :: older =>
    (if old.requestType = .put ∧ old.endSeq = ulongMax then
      { old with endSeq := seq }
    else old) :: older

def ColumnData.cancels (data : ColumnData V) (newColNode : ColumnNode V)
    (force : Bool) : Prop :=
  newColNode.requestType = .del ∧ force = false ∧
    ∃ old, data.colList.head? = some old ∧ old.requestType = .del

theorem ColumnData.updateColumn_of_cancels {data : ColumnData V}
    {newNode : ColumnNode V} {force : Bool} (cancelled : data.cancels newNode force) :
    data.updateColumn newNode force = (.failInsert, data) := by
  obtain ⟨newDel, notForced, old, newest, oldDel⟩ := cancelled
  unfold ColumnData.updateColumn
  cases listed : data.colList with
  | nil => simp [listed] at newest
  | cons first =>
    obtain rfl : first = old := by simpa [listed] using newest
    simp [oldDel, newDel, notForced]

theorem ColumnData.updateColumn_of_not_cancels {data : ColumnData V}
    {newNode : ColumnNode V} {force : Bool} (accepted : ¬ data.cancels newNode force) :
    data.updateColumn newNode force = (match data.colList.head? with
        | some old => scheduleStatus old
        | none => .needToSchedule,
      { data with
        colList := newNode.closeDelete :: closeNewest newNode.beginSeq data.colList }) := by
  unfold ColumnData.updateColumn
  cases listed : data.colList with
  | nil => rfl
  | cons old =>
    by_cases openPut : old.requestType = .put ∧ old.endSeq = ulongMax
    · simp [openPut, closeNewest]
    have notCancelled :
        ¬ (newNode.requestType = .del ∧ old.requestType = .del ∧ force = false) := by
      rintro ⟨newDel, oldDel, notForced⟩
      exact accepted ⟨newDel, notForced, old, by simp [listed], oldDel⟩
    simp [closeNewest, if_neg openPut, if_neg notCancelled]

theorem Chain.closeNewest {nodes : List (ColumnNode V)} {seq : Nat}
    (chain : Chain nodes) (begun : ∀ node ∈ nodes, node.beginSeq ≤ seq) :
    Chain (closeNewest seq nodes) := by
  cases nodes with
  | nil => exact Chain.nil
  | cons old =>
    refine Chain.cons chain.tail ?_ ?_
    · split_ifs with openPut
      · refine ⟨chain.head.begin_lt_max, begun old mem_cons_self, ?_, chain.head.pending_value⟩
        intro isDel
        rw [openPut.1] at isDel
        cases isDel
      · exact chain.head
    intro _ mem
    have above := chain.head_supersedes mem
    split_ifs
    · exact above
    · exact above

theorem Chain.closeNewest_ended {nodes : List (ColumnNode V)} {bound seq : Nat}
    (chain : Chain nodes) (below : ∀ node ∈ nodes,
      node.beginSeq ≤ bound ∧ (node.endSeq = ulongMax ∨ node.endSeq ≤ bound))
    (fresh : bound < seq) :
    ∀ node ∈ InsDb.closeNewest seq nodes, node.beginSeq ≤ bound ∧ node.endSeq ≤ seq := by
  cases nodes with
  | nil => simp [InsDb.closeNewest]
  | cons old =>
    intro node mem
    rcases mem_cons.mp mem with rfl | later
    · obtain ⟨begun, ended⟩ := below old mem_cons_self
      split_ifs with openPut
      · exact ⟨begun, Nat.le_refl _⟩
      refine ⟨begun, ?_⟩
      rcases ended with openEnd | ended
      · cases kind : old.requestType with
        | put => exact absurd ⟨kind, openEnd⟩ openPut
        | del =>
          have ends := chain.head.del_ends kind
          omega
      · omega
    · obtain ⟨begun, _⟩ := below node (mem_cons_of_mem _ later)
      have closed := older_end_ne_max chain.head (chain.head_supersedes later)
      exact ⟨begun, by omega⟩

theorem Chain.update {nodes : List (ColumnNode V)} {newNode : ColumnNode V}
    {bound : Nat} (chain : Chain nodes) (below : ∀ node ∈ nodes,
      node.beginSeq ≤ bound ∧ (node.endSeq = ulongMax ∨ node.endSeq ≤ bound))
    (fresh : bound < newNode.beginSeq) (small : newNode.beginSeq < ulongMax)
    (openEnd : newNode.endSeq = ulongMax)
    (valued : newNode.requestType = .put → newNode.userValue.isSome = true) :
    Chain (newNode.closeDelete :: InsDb.closeNewest newNode.beginSeq nodes) := by
  have closed : Chain (InsDb.closeNewest newNode.beginSeq nodes) := by
    apply chain.closeNewest
    intro node mem
    have begun := (below node mem).1
    omega
  refine Chain.cons closed ?_ ?_
  · unfold ColumnNode.closeDelete
    split_ifs with isDel
    · exact ⟨small, Nat.le_refl _, fun _ => rfl, fun isPut _ => valued isPut⟩
    · exact ⟨small, by omega, fun del => absurd del isDel, fun isPut _ => valued isPut⟩
  intro node mem
  obtain ⟨_, ended⟩ := chain.closeNewest_ended below fresh node mem
  exact ⟨by rw [ColumnNode.closeDelete_beginSeq]; omega,
    by rw [ColumnNode.closeDelete_beginSeq]; exact ended⟩

theorem Chain.oldest_le {nodes : List (ColumnNode V)} {oldest node : ColumnNode V}
    (chain : Chain nodes) (last : nodes.getLast? = some oldest) (mem : node ∈ nodes) :
    oldest.beginSeq ≤ node.beginSeq := by
  obtain ⟨_, rfl⟩ := getLast?_eq_some_iff.mp last
  rcases mem_append.mp mem with inFront | isLast
  · have above := (pairwise_append.mp chain.ordered).2.2 node inFront oldest (mem_singleton.mpr rfl)
    exact Nat.le_of_lt above.1
  obtain rfl := mem_singleton.mp isLast
  exact Nat.le_refl _

theorem Chain.append_oldest {nodes : List (ColumnNode V)}
    {oldest newNode : ColumnNode V} (chain : Chain nodes)
    (last : nodes.getLast? = some oldest) (older : newNode.beginSeq < oldest.beginSeq)
    (isPut : newNode.requestType = .put) (stored : newNode.ikeySeq ≠ 0) :
    Chain (nodes ++ [{ newNode with endSeq := oldest.beginSeq }]) := by
  have oldestMem : oldest ∈ nodes := mem_of_getLast? last
  have oldestSmall := (chain.wellFormed oldest oldestMem).begin_lt_max
  refine ⟨?_, ?_⟩
  · intro node mem
    rcases mem_append.mp mem with inList | added
    · exact chain.wellFormed node inList
    obtain rfl := mem_singleton.mp added
    refine ⟨by simp; omega, by simp; omega, ?_, fun _ pending => absurd pending stored⟩
    intro isDel
    rw [isPut] at isDel
    cases isDel
  rw [pairwise_append]
  refine ⟨chain.ordered, pairwise_singleton _ _, ?_⟩
  intro _ mem _ addedMember
  obtain rfl := mem_singleton.mp addedMember
  have notBelow := chain.oldest_le last mem
  exact ⟨by simp; omega, by simp; omega⟩

end InsDb
