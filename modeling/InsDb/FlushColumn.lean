import InsDb.VerticalMerge

/-!
# One column in a flush

`DeviceFormatBuilder` walks the list of a column from the newest to the oldest node and
decides for each node whether it is written to the row, stays in memory for a live
snapshot, stays because it is not submitted or not committed, or is deleted.  At most one
node of a column is written.  When the table has no room left, the walk ends at the node
that would be written, and the key begins the next table.
-/

namespace InsDb

open InsDb.Library.Sweep List Option ColumnNode

variable {V : Type}

/-- The part of `SKTableDFBuilderInfo` that the walk over the columns reads. -/
structure BuilderInfo (V : Type) where
  -- The sequence numbers of the live snapshots, newest first.
  snapshots : List Nat
  curTime : Nat
  ttlList : Nat → Nat
  kMaxColumnCount : Nat
  -- `IsTrxnGroupCompleted` for the group that the key-block log has for the node.
  trxnGroupCompleted : ColumnNode V → Bool

inductive ColumnStatus where
  | validColumn
  | iterColumn
  | invalidColumn
deriving DecidableEq, Repr

variable (info : BuilderInfo V)

variable (col : Nat)

/-- `SKTableMem::CheckColumnStatus`, with the value it leaves in `drop_col_node`. -/
def checkColumnStatus (node : ColumnNode V)
    (iter dropColNode : Bool) : ColumnStatus × Bool :=
  let invalid := if iter then ColumnStatus.iterColumn else .invalidColumn
  if dropColNode = false ∧ node.ikeySeq ≠ ulongMax then
    if node.requestType = .put ∧ node.recentColNodeDeleted = false ∧
        (info.ttlList col ≠ 0 → info.curTime ≤ expiry node.ts (info.ttlList col)) then
      (.validColumn, true)
    else
      (invalid, true)
  else
    (invalid, dropColNode)

structure ColumnWalk where
  snapshots : List Nat
  recentColNodeDeleted : Bool := false
  dropColNode : Bool := false

variable (node : ColumnNode V)

def ColumnNode.setRecentColNodeDeleted (recent : Bool) :
    ColumnNode V :=
  { node with recentColNodeDeleted := node.recentColNodeDeleted || recent }

def ColumnNode.setTRXNCommitted : ColumnNode V :=
  { node with trxnCommitted := true }

def ColumnNode.setHoldingIter : ColumnNode V :=
  { node with holdingIter := node.holdingIter || decide (node.ikeySeq ≠ ulongMax) }

variable (walk : ColumnWalk)

variable (node : ColumnNode V)

/-- Whether a snapshot sees the node, and the snapshots that older nodes may be seen by. -/
def ColumnWalk.checkIterator : Bool × List Nat :=
  let swept := stab node.beginSeq node.endSeq (if node.dropped then [] else walk.snapshots)
  (swept.1 && decide (node.requestType = .put), swept.2)

def ColumnWalk.enter : ColumnWalk :=
  { snapshots := (walk.checkIterator node).2
    recentColNodeDeleted := walk.recentColNodeDeleted
    dropColNode := walk.dropColNode || walk.recentColNodeDeleted || node.dropped }

structure ColumnRun (V : Type) where
  nodes : List (ColumnNode V) := []
  valid : Option (ColumnNode V) := none
  dirty : Bool := false
  latest : Option Nat := none
  -- The walk ended at a node that has no room in the table.
  stopped : Bool := false

def ColumnRun.keep (run : ColumnRun V) (node : ColumnNode V) : ColumnRun V :=
  { run with nodes := node :: run.nodes, dirty := true }

def ColumnRun.write (run : ColumnRun V) (node : ColumnNode V) : ColumnRun V :=
  { run with nodes := node :: run.nodes, valid := some node }

/-- The pending, the submitted and the committed nodes of a column.  `split` is
`need_to_split`; `latest` is the latest pointer, which moves on when its node is
deleted. -/
def flushNodes (info : BuilderInfo V) (col : Nat) (split : Bool) :
    ColumnWalk → Option Nat → List (ColumnNode V) → ColumnRun V
  | _, latest, [] => { latest := latest }
  | walk, latest, node :: older =>
    let iter := (walk.checkIterator node).1
    let entered := walk.enter node
    let marked := node.setRecentColNodeDeleted walk.recentColNodeDeleted
    if node.ikeySeq < kUnusedNextInternalKey then
      (flushNodes info col split entered latest older).keep marked
    else if node.trxnCommitted = true ∨ node.transaction = false ∨
        info.trxnGroupCompleted node = true then
      match checkColumnStatus info col marked iter entered.dropColNode with
      | (.validColumn, dropColNode) =>
        if split then
          { nodes := marked :: older, latest := latest, stopped := true }
        else
          (flushNodes info col split { entered with dropColNode := dropColNode } latest
            older).write marked.setTRXNCommitted
      | (.iterColumn, dropColNode) =>
        (flushNodes info col split { entered with dropColNode := dropColNode } latest
          older).keep marked.setHoldingIter.setTRXNCommitted
      | (.invalidColumn, dropColNode) =>
        flushNodes info col split
          { entered with dropColNode := dropColNode, recentColNodeDeleted := true }
          (if latest = some node.beginSeq then older.head?.map ColumnNode.beginSeq else latest)
          older
    else
      (flushNodes info col split entered latest older).keep marked

def flushColumn (split : Bool)
    (data : ColumnData V) : ColumnRun V :=
  flushNodes info col split { snapshots := info.snapshots } data.latestColNode data.colList

/-- The node with other flags.  A flush changes nothing else in a node. -/
def ColumnNode.flagged (recent holding committed : Bool) :
    ColumnNode V :=
  { node with
    recentColNodeDeleted := recent
    holdingIter := holding
    trxnCommitted := committed }

/-- The first submitted and committed Put of a column that nothing speaks against. -/
structure Writable (info : BuilderInfo V) (col : Nat) (walk : ColumnWalk)
    (node : ColumnNode V) : Prop where
  first : walk.dropColNode = false
  noneDeleted : walk.recentColNodeDeleted = false
  notDropped : node.dropped = false
  submitted : kUnusedNextInternalKey ≤ node.ikeySeq
  notMerged : node.ikeySeq ≠ ulongMax
  isPut : node.requestType = .put
  notSuperseded : node.recentColNodeDeleted = false
  notExpired : info.ttlList col ≠ 0 → info.curTime ≤ expiry node.ts (info.ttlList col)

structure Follows (walk : ColumnWalk) (node : ColumnNode V) (next : ColumnWalk) : Prop where
  snapshots : next.snapshots = (walk.checkIterator node).2
  recent : next.recentColNodeDeleted = walk.recentColNodeDeleted
  drops : walk.dropColNode = true → next.dropColNode = true

inductive NodeFate (info : BuilderInfo V) (col : Nat) (split : Bool) (walk : ColumnWalk)
    (latest : Option Nat) (node : ColumnNode V) (older : List (ColumnNode V)) :
    ColumnRun V → Prop
  | kept (next : ColumnWalk) (holding committed : Bool) (follows : Follows walk node next) :
      NodeFate info col split walk latest node older
        ((flushNodes info col split next latest older).keep
          (node.flagged (node.recentColNodeDeleted || walk.recentColNodeDeleted) holding committed))
  | written (next : ColumnWalk) (noSplit : split = false)
      (writable : Writable info col walk node) (follows : Follows walk node next)
      (last : next.dropColNode = true) :
      NodeFate info col split walk latest node older
        ((flushNodes info col split next latest older).write
          (node.flagged false node.holdingIter true))
  | stopped (isSplit : split = true) (writable : Writable info col walk node) :
      NodeFate info col split walk latest node older
        { nodes := node :: older, latest := latest, stopped := true }
  | deleted (next : ColumnWalk) (notWritable : ¬ Writable info col walk node)
      (unseen : (walk.checkIterator node).1 = false)
      (submitted : kUnusedNextInternalKey ≤ node.ikeySeq)
      (snapshots : next.snapshots = (walk.checkIterator node).2)
      (recent : next.recentColNodeDeleted = true) :
      NodeFate info col split walk latest node older
        (flushNodes info col split next
          (if latest = some node.beginSeq then older.head?.map ColumnNode.beginSeq else latest)
          older)

theorem follows_enter (dropColNode : Bool) (drops : walk.dropColNode = true → dropColNode = true) :
    Follows walk node { walk.enter node with dropColNode := dropColNode } :=
  ⟨rfl, rfl, drops⟩

theorem enter_dropColNode : (walk.enter node).dropColNode = false ↔
      walk.dropColNode = false ∧ walk.recentColNodeDeleted = false ∧ node.dropped = false := by
  simp [ColumnWalk.enter, and_assoc]

variable {node : ColumnNode V}

theorem checkColumnStatus_cases (walk : ColumnWalk)
    (iter : Bool) (sent : kUnusedNextInternalKey ≤ node.ikeySeq) :
    let checked := checkColumnStatus info col
      (node.setRecentColNodeDeleted walk.recentColNodeDeleted) iter (walk.enter node).dropColNode
    (walk.dropColNode = true → checked.2 = true) ∧
      ((checked.1 = .validColumn ∧ Writable info col walk node ∧ checked.2 = true) ∨
        (checked.1 ≠ .validColumn ∧ ¬ Writable info col walk node ∧
          (checked.1 = .iterColumn ↔ iter = true))) := by
  intro checked
  have dropped : walk.dropColNode = true → (walk.enter node).dropColNode = true := by
    intro drop
    simp [ColumnWalk.enter, drop]
  have invalid : ∀ drop : Bool,
      (if iter = true then ColumnStatus.iterColumn else .invalidColumn, drop).1 ≠
        ColumnStatus.validColumn := by
    intro _
    cases iter <;> simp
  by_cases free : (walk.enter node).dropColNode = false ∧ node.ikeySeq ≠ ulongMax
  · obtain ⟨first, noneDeleted, notDropped⟩ := (enter_dropColNode walk node).mp free.1
    by_cases fits : node.requestType = .put ∧ node.recentColNodeDeleted = false ∧
        (info.ttlList col ≠ 0 → info.curTime ≤ expiry node.ts (info.ttlList col))
    · have isChecked : checked = (.validColumn, true) := by
        simp [checked, checkColumnStatus, setRecentColNodeDeleted, noneDeleted, if_pos free, if_pos
          fits]
      rw [isChecked]
      exact ⟨fun _ => rfl, Or.inl ⟨rfl, ⟨first, noneDeleted, notDropped, sent, free.2,
        fits.1, fits.2.1, fits.2.2⟩, rfl⟩⟩
    have isChecked : checked = (if iter = true then .iterColumn else .invalidColumn, true) := by
      simp [checked, checkColumnStatus, setRecentColNodeDeleted, noneDeleted, if_pos free, if_neg
        fits]
    rw [isChecked]
    refine ⟨fun _ => rfl, Or.inr ⟨invalid _, ?_, by cases iter <;> simp⟩⟩
    intro writable
    exact fits ⟨writable.isPut, writable.notSuperseded, writable.notExpired⟩
  · have isChecked : checked = (if iter = true then .iterColumn else .invalidColumn,
        (walk.enter node).dropColNode) := if_neg free
    rw [isChecked]
    refine ⟨dropped, Or.inr ⟨invalid _, ?_, by cases iter <;> simp⟩⟩
    intro writable
    exact free ⟨(enter_dropColNode walk node).mpr ⟨writable.first, writable.noneDeleted,
      writable.notDropped⟩, writable.notMerged⟩

theorem nodeFate (split : Bool) (walk : ColumnWalk)
    (latest : Option Nat) (node : ColumnNode V) (older : List (ColumnNode V)) :
    NodeFate info col split walk latest node older
      (flushNodes info col split walk latest (node :: older)) := by
  have entered : Follows walk node (walk.enter node) :=
    ⟨rfl, rfl, fun drop => by simp [ColumnWalk.enter, drop]⟩
  simp only [flushNodes]
  by_cases waiting : node.ikeySeq < kUnusedNextInternalKey
  · rw [if_pos waiting]
    exact .kept (walk.enter node) node.holdingIter node.trxnCommitted entered
  rw [if_neg waiting]
  by_cases settled : node.trxnCommitted = true ∨ node.transaction = false ∨
      info.trxnGroupCompleted node = true
  · rw [if_pos settled]
    have sent := Nat.not_lt.mp waiting
    obtain ⟨drops, status⟩ := checkColumnStatus_cases info col walk
      (walk.checkIterator node).1 sent
    cases checked : checkColumnStatus info col
        (node.setRecentColNodeDeleted walk.recentColNodeDeleted) (walk.checkIterator node).1
        (walk.enter node).dropColNode with
    | mk kind dropColNode =>
      rw [checked] at drops status
      cases kind with
      | validColumn =>
        obtain ⟨-, writable, last⟩ | ⟨notValid, -⟩ := status
        · have unmarked : node.setRecentColNodeDeleted walk.recentColNodeDeleted = node := by
            simp [setRecentColNodeDeleted, writable.noneDeleted]
          have written : node.setTRXNCommitted = node.flagged false node.holdingIter true := by
            simp [setTRXNCommitted, flagged, writable.notSuperseded]
          simp only [unmarked, written]
          by_cases isSplit : split = true
          · rw [if_pos isSplit]
            exact .stopped isSplit writable
          rw [if_neg isSplit]
          exact .written { walk.enter node with dropColNode := dropColNode }
            (Bool.eq_false_iff.mpr isSplit) writable (follows_enter walk node _ drops) last
        · exact absurd rfl notValid
      | iterColumn =>
        exact .kept { walk.enter node with dropColNode := dropColNode } _ true
          (follows_enter walk node _ drops)
      | invalidColumn =>
        obtain ⟨isValid, -⟩ | ⟨-, notWritable, seen⟩ := status
        · cases isValid
        refine .deleted { walk.enter node with
          dropColNode := dropColNode, recentColNodeDeleted := true } notWritable ?_ sent
          rfl rfl
        simpa using seen
  · rw [if_neg settled]
    exact .kept (walk.enter node) node.holdingIter node.trxnCommitted entered

theorem ColumnNode.flagged_sameView (recent holding committed : Bool) :
    (node.flagged recent holding committed).SameView node :=
  ⟨rfl, rfl, rfl, rfl, rfl, rfl⟩

/-- A list from which nodes were taken out and in which only flags were changed. -/
inductive Trimmed : List (ColumnNode V) → List (ColumnNode V) → Prop
  | nil : Trimmed [] []
  | keep {node : ColumnNode V} {older kept : List (ColumnNode V)}
      (recent holding committed : Bool) (rest : Trimmed older kept) :
      Trimmed (node :: older) (node.flagged recent holding committed :: kept)
  | delete {node : ColumnNode V} {older kept : List (ColumnNode V)}
      (rest : Trimmed older kept) : Trimmed (node :: older) kept

namespace Trimmed

variable {nodes kept : List (ColumnNode V)}

theorem refl (nodes : List (ColumnNode V)) : Trimmed nodes nodes := by
  induction nodes with
  | nil => exact .nil
  | cons node older ih =>
    exact .keep node.recentColNodeDeleted node.holdingIter node.trxnCommitted ih

theorem exists_of_mem (trimmed : Trimmed nodes kept) {node : ColumnNode V} (mem : node ∈ kept) :
    ∃ old ∈ nodes, ∃ recent holding committed, node = old.flagged recent holding committed := by
  induction trimmed with
  | nil => simp at mem
  | keep recent holding committed rest ih =>
    rcases mem_cons.mp mem with rfl | later
    · exact ⟨_, mem_cons_self, recent, holding, committed, rfl⟩
    obtain ⟨old, inOlder, flags⟩ := ih later
    exact ⟨old, mem_cons_of_mem _ inOlder, flags⟩
  | delete rest ih =>
    obtain ⟨old, inOlder, flags⟩ := ih mem
    exact ⟨old, mem_cons_of_mem _ inOlder, flags⟩

theorem intervals (trimmed : Trimmed nodes kept) :
    (kept.map ColumnNode.interval).Sublist (nodes.map ColumnNode.interval) := by
  induction trimmed with
  | nil => exact List.Sublist.refl _
  | keep recent holding committed rest ih => exact ih.cons_cons _
  | delete rest ih => exact ih.cons _

theorem chain (trimmed : Trimmed nodes kept) (chain : Chain nodes) : Chain kept := by
  refine Chain.of_intervals chain ?_ trimmed.intervals
  intro _ mem
  obtain ⟨old, inNodes, _, _, _, rfl⟩ := trimmed.exists_of_mem mem
  have wellFormed := chain.wellFormed old inNodes
  exact ⟨wellFormed.begin_lt_max, wellFormed.begin_le_end, wellFormed.del_ends,
    wellFormed.pending_value⟩

theorem forall_mem (trimmed : Trimmed nodes kept) {property : ColumnNode V → Prop}
    (flagless : ∀ node recent holding committed, property node →
      property (node.flagged recent holding committed))
    (all : ∀ node ∈ nodes, property node) : ∀ node ∈ kept, property node := by
  intro _ mem
  obtain ⟨old, inNodes, recent, holding, committed, rfl⟩ := trimmed.exists_of_mem mem
  exact flagless old recent holding committed (all old inNodes)

end Trimmed

theorem trimmed_flushNodes (split : Bool)
    (walk : ColumnWalk) (latest : Option Nat) (nodes : List (ColumnNode V)) :
    Trimmed nodes (flushNodes info col split walk latest nodes).nodes := by
  induction nodes generalizing walk latest with
  | nil => exact .nil
  | cons node older ih =>
    have fate := nodeFate info col split walk latest node older
    generalize flushNodes info col split walk latest (node :: older) = run at fate
    cases fate with
    | kept next => exact .keep _ _ _ (ih next latest)
    | written next => exact .keep _ _ _ (ih next latest)
    | stopped => exact Trimmed.refl _
    | deleted next => exact .delete (ih next _)

def putSeen (nodes : List (ColumnNode V)) (seq : Nat) : Option (Designator V × Nat) :=
  ((nodes.find? (ColumnNode.covers seq)).filter fun node => node.requestType = .put).map
    ColumnNode.view

theorem putSeen_cons_of_not_covers {seq : Nat} (notCovering : ¬ node.covers seq = true)
    (older : List (ColumnNode V)) :
    putSeen (node :: older) seq = putSeen older seq := by
  simp only [putSeen, find?_cons_of_neg notCovering]

theorem putSeen_keep {older kept : List (ColumnNode V)} {seq : Nat}
    (recent holding committed : Bool) (rest : putSeen kept seq = putSeen older seq) :
    putSeen (node.flagged recent holding committed :: kept) seq =
      putSeen (node :: older) seq := by
  have same := node.flagged_sameView recent holding committed
  by_cases cover : node.covers seq = true
  · have sameCovering : (node.flagged recent holding committed).covers seq = true := by
      rw [same.covers]
      exact cover
    simp only [putSeen, find?_cons_of_pos cover, find?_cons_of_pos sameCovering,
      filter_some, same.requestType]
    split_ifs
    · simp [view, same.designator, same.beginSeq]
    · rfl
  · rw [putSeen_cons_of_not_covers cover, putSeen_cons_of_not_covers, rest]
    rw [same.covers]
    exact cover

theorem putSeen_older {newer : ColumnNode V} {nodes : List (ColumnNode V)} {seq : Nat}
    (chain : Chain (newer :: nodes)) (begun : newer.beginSeq ≤ seq) :
    putSeen nodes seq = none := by
  unfold putSeen
  rw [map_eq_none_iff, filter_eq_none_iff]
  intro _ isFound isPut
  have mem := mem_of_find?_eq_some isFound
  have cover := find?_some isFound
  rw [Chain.older_put_not_covers chain.head (chain.head_supersedes mem) begun
    (of_decide_eq_true isPut)] at cover
  cases cover

theorem putSeen_delete {older kept : List (ColumnNode V)} {seq : Nat}
    (chain : Chain (node :: older)) (unseen : node.covers seq = true → node.requestType = .del)
    (rest : putSeen kept seq = putSeen older seq) :
    putSeen kept seq = putSeen (node :: older) seq := by
  rw [rest]
  by_cases cover : node.covers seq = true
  · have isDel := unseen cover
    rw [putSeen_older chain (covers_iff.mp cover).1]
    simp [putSeen, find?_cons_of_pos cover, isDel]
  · rw [putSeen_cons_of_not_covers cover]

section Seen

variable {info : BuilderInfo V} {col : Nat} {split : Bool} {walk : ColumnWalk}
  {bound seq : Nat} (descending : Descending info.snapshots)
  (live : LiveAt info.snapshots seq)

include descending live

theorem checkIterator_of_covers {node : ColumnNode V}
    (consumed : Consumed info.snapshots bound walk.snapshots) (ends : node.endSeq ≤ bound)
    (closed : node.endSeq < ulongMax) (notDropped : node.dropped = false)
    (isPut : node.requestType = .put) (cover : node.covers seq = true) :
    (walk.checkIterator node).1 = true := by
  have hit := stab_hit_of_consumed node.beginSeq node.endSeq descending consumed ends
  have held := hit.mpr (covering_put_is_held live (Nat.le_refl _) closed isPut cover)
  simp [ColumnWalk.checkIterator, notDropped, held, isPut]

theorem putSeen_flushNodes {nodes : List (ColumnNode V)} {latest : Option Nat}
    (consumed : Consumed info.snapshots bound walk.snapshots) (chain : Chain nodes)
    (plain : ∀ node ∈ nodes, node.dropped = false)
    (ends : ∀ node ∈ nodes, node.endSeq ≤ bound) (small : bound < ulongMax) :
    putSeen (flushNodes info col split walk latest nodes).nodes seq =
      putSeen nodes seq := by
  induction nodes generalizing walk latest bound with
  | nil => rfl
  | cons node older ih =>
    have nodeEnds := ends node mem_cons_self
    have notDropped := plain node mem_cons_self
    have nodeBegins := chain.head.begin_le_end
    have passed : Consumed info.snapshots node.beginSeq (walk.checkIterator node).2 := by
      simp only [ColumnWalk.checkIterator, notDropped, Bool.false_eq_true, if_false]
      exact consumed_stab node.beginSeq node.endSeq descending consumed (by omega)
    have rest : ∀ next : ColumnWalk, next.snapshots = (walk.checkIterator node).2 → ∀ latest,
        putSeen (flushNodes info col split next latest older).nodes seq =
          putSeen older seq := by
      intro next snaps latest
      apply ih (snaps ▸ passed) chain.tail
        (fun other mem => plain other (mem_cons_of_mem _ mem))
        (fun other mem => (chain.head_supersedes mem).2)
      omega
    have fate := nodeFate info col split walk latest node older
    generalize flushNodes info col split walk latest (node :: older) = run at fate
    cases fate with
    | kept next holding committed follows =>
      exact putSeen_keep _ _ _ (rest next follows.snapshots latest)
    | written next noSplit writable follows =>
      exact putSeen_keep _ _ _ (rest next follows.snapshots latest)
    | stopped => rfl
    | deleted next notWritable unseen sent snaps =>
      refine putSeen_delete chain ?_ (rest next snaps _)
      intro cover
      cases kind : node.requestType with
      | del => rfl
      | put =>
        rw [checkIterator_of_covers descending live consumed nodeEnds (by omega) notDropped
          kind cover] at unseen
        cases unseen

end Seen

structure ColumnNode.InKeyBlock (node : ColumnNode V) : Prop where
  noUserValue : node.userValue = none
  ikeySeq_lt : node.ikeySeq < 2 ^ 64
  kbOffset_lt : node.kbOffset < 64
  ivalueSize_lt : node.ivalueSize < 2 ^ 32
  begun : 0 < node.beginSeq

/-- A well-formed column without TTL and without dropped nodes.  The newest version is
open unless a newer one was deleted, and only older versions are merged ones. -/
structure ColumnData.Flushable (data : ColumnData V) (bound : Nat) : Prop where
  wellFormed : data.WellFormed
  below : data.Below bound
  plain : ∀ node ∈ data.colList, node.dropped = false ∧ node.ts = 0
  newest : ∀ node, data.colList.head? = some node → node.requestType = .put →
    (node.endSeq = ulongMax → node.ikeySeq ≠ ulongMax) ∧
      (node.recentColNodeDeleted = true ↔ node.endSeq ≠ ulongMax)
  stored : ∀ node ∈ data.colList, node.requestType = .put →
    kUnusedNextInternalKey ≤ node.ikeySeq → node.ikeySeq ≠ ulongMax → node.InKeyBlock

def ColumnRun.column (run : ColumnRun V) (data : ColumnData V) : ColumnData V :=
  { data with colList := run.nodes, latestColNode := run.latest }

section Walk

variable (info : BuilderInfo V) (col : Nat) (split : Bool)

variable {latest : Option Nat}

theorem recent_of_mem_flushNodes {walk : ColumnWalk} {nodes : List (ColumnNode V)}
    (deletedBefore : walk.recentColNodeDeleted = true) {node : ColumnNode V}
    (mem : node ∈ (flushNodes info col split walk latest nodes).nodes) :
    node.recentColNodeDeleted = true := by
  induction nodes generalizing walk latest with
  | nil => simp [flushNodes] at mem
  | cons first older ih =>
    have fate := nodeFate info col split walk latest first older
    generalize flushNodes info col split walk latest (first :: older) = run at fate mem
    cases fate with
    | kept next holding committed follows =>
      rcases mem_cons.mp mem with rfl | later
      · simp [flagged, deletedBefore]
      · exact ih (follows.recent.trans deletedBefore) later
    | written next noSplit writable =>
      rw [writable.noneDeleted] at deletedBefore
      cases deletedBefore
    | stopped isSplit writable =>
      rw [writable.noneDeleted] at deletedBefore
      cases deletedBefore
    | deleted next notWritable unseen sent snaps recent => exact ih recent mem

theorem valid_eq_none_of_drop {walk : ColumnWalk} {nodes : List (ColumnNode V)}
    (drops : walk.dropColNode = true ∨ walk.recentColNodeDeleted = true) :
    (flushNodes info col split walk latest nodes).valid = none := by
  induction nodes generalizing walk latest with
  | nil => rfl
  | cons node older ih =>
    have fate := nodeFate info col split walk latest node older
    generalize flushNodes info col split walk latest (node :: older) = run at fate
    cases fate with
    | kept next holding committed follows =>
      exact ih (drops.imp follows.drops follows.recent.trans)
    | written next noSplit writable => simp [writable.first, writable.noneDeleted] at drops
    | stopped => rfl
    | deleted next notWritable unseen sent snaps recent => exact ih (Or.inr recent)

theorem nodes_eq_valid_of_clean {walk : ColumnWalk} {nodes : List (ColumnNode V)}
    (clean : (flushNodes info col split walk latest nodes).dirty = false)
    (complete : (flushNodes info col split walk latest nodes).stopped = false) :
    (flushNodes info col split walk latest nodes).nodes =
      (flushNodes info col split walk latest nodes).valid.toList := by
  induction nodes generalizing walk latest with
  | nil => rfl
  | cons node older ih =>
    have fate := nodeFate info col split walk latest node older
    generalize flushNodes info col split walk latest (node :: older) = run at fate clean complete
    cases fate with
    | kept => simp [ColumnRun.keep] at clean
    | written next noSplit writable follows last =>
      have rest := ih clean complete
      rw [valid_eq_none_of_drop info col split (Or.inl last), toList_none] at rest
      simp [ColumnRun.write, rest]
    | stopped => cases complete
    | deleted => exact ih clean complete

theorem valid_mem {walk : ColumnWalk} {nodes : List (ColumnNode V)} {valid : ColumnNode V}
    (written : (flushNodes info col split walk latest nodes).valid = some valid) :
    valid ∈ (flushNodes info col split walk latest nodes).nodes ∧ valid.requestType = .put ∧
      kUnusedNextInternalKey ≤ valid.ikeySeq ∧ valid.ikeySeq ≠ ulongMax ∧
      valid.recentColNodeDeleted = false := by
  induction nodes generalizing walk latest with
  | nil => cases written
  | cons node older ih =>
    have fate := nodeFate info col split walk latest node older
    generalize flushNodes info col split walk latest (node :: older) = run at fate written
    cases fate with
    | kept =>
      obtain ⟨mem, facts⟩ := ih written
      exact ⟨mem_cons_of_mem _ mem, facts⟩
    | written next noSplit writable =>
      obtain rfl := some.inj written
      exact ⟨mem_cons_self, writable.isPut, writable.submitted, writable.notMerged, rfl⟩
    | stopped => cases written
    | deleted => exact ih written

theorem latest_of_apart {walk : ColumnWalk} {nodes : List (ColumnNode V)}
    (apart : ∀ node ∈ nodes, latest ≠ some node.beginSeq) :
    (flushNodes info col split walk latest nodes).latest = latest := by
  induction nodes generalizing walk with
  | nil => rfl
  | cons node older ih =>
    have olderApart : ∀ other ∈ older, latest ≠ some other.beginSeq :=
      fun other mem => apart other (mem_cons_of_mem _ mem)
    have fate := nodeFate info col split walk latest node older
    generalize flushNodes info col split walk latest (node :: older) = run at fate
    cases fate with
    | kept => exact ih olderApart
    | written => exact ih olderApart
    | stopped => rfl
    | deleted =>
      rw [if_neg (apart node mem_cons_self)]
      exact ih olderApart

theorem latest_flushNodes (walk : ColumnWalk) {nodes : List (ColumnNode V)} (chain : Chain nodes) :
    (flushNodes info col split walk (nodes.head?.map ColumnNode.beginSeq) nodes).latest =
      (flushNodes info col split walk (nodes.head?.map ColumnNode.beginSeq) nodes).nodes.head?.map
        ColumnNode.beginSeq := by
  induction nodes generalizing walk with
  | nil => rfl
  | cons node older ih =>
    have apart : ∀ other ∈ older, some node.beginSeq ≠ some other.beginSeq := by
      intro _ mem same
      have above := (chain.head_supersedes mem).1
      rw [some.injEq] at same
      omega
    have fate := nodeFate info col split walk (some node.beginSeq) node older
    simp only [head?_cons, map_some]
    generalize flushNodes info col split walk (some node.beginSeq) (node :: older) = run at fate
    cases fate with
    | kept => exact latest_of_apart info col split apart
    | written => exact latest_of_apart info col split apart
    | stopped => rfl
    | deleted next =>
      rw [if_pos rfl]
      exact ih next chain.tail

end Walk

section Column

variable {info : BuilderInfo V} {col : Nat} {split : Bool} {data : ColumnData V}
  {bound : Nat}

theorem newest_unseen_of_deleted {node : ColumnNode V} {older : List (ColumnNode V)}
    {seq : Nat} (flushable : data.Flushable bound) (small : bound < ulongMax)
    (descending : Descending info.snapshots) (past : ∀ point ∈ info.snapshots, point < ulongMax)
    (noTtl : info.ttlList col = 0) (live : LiveAt info.snapshots seq)
    (listed : data.colList = node :: older)
    (notWritable : ¬ Writable info col { snapshots := info.snapshots } node)
    (unseen : (ColumnWalk.checkIterator { snapshots := info.snapshots } node).1 = false)
    (sent : kUnusedNextInternalKey ≤ node.ikeySeq) (cover : node.covers seq = true) :
    node.requestType = .del := by
  have mem : node ∈ data.colList := by simp [listed]
  have notDropped := (flushable.plain node mem).1
  cases kind : node.requestType with
  | del => rfl
  | put =>
    obtain ⟨notMerged, marked⟩ := flushable.newest node (by simp [listed]) kind
    by_cases isOpen : node.endSeq = ulongMax
    · have unmarked : node.recentColNodeDeleted = false := by
        simpa [isOpen] using marked
      exact absurd ⟨rfl, rfl, notDropped, sent, notMerged isOpen, kind, unmarked,
        fun enabled => absurd noTtl enabled⟩ notWritable
    have closed : node.endSeq < ulongMax := by
      have ends := ((flushable.below node mem).2).resolve_left isOpen
      omega
    have consumed := consumed_all past
    rw [checkIterator_of_covers descending live consumed (Nat.le_of_lt closed) closed
      notDropped kind cover] at unseen
    cases unseen

theorem putSeen_flushColumn (flushable : data.Flushable bound) (small : bound < ulongMax)
    (descending : Descending info.snapshots) (past : ∀ point ∈ info.snapshots, point < ulongMax)
    (noTtl : info.ttlList col = 0) {seq : Nat} (live : LiveAt info.snapshots seq) :
    putSeen (flushColumn info col split data).nodes seq = putSeen data.colList seq := by
  unfold flushColumn
  cases listed : data.colList with
  | nil => rfl
  | cons node older =>
    have mem : node ∈ data.colList := by simp [listed]
    have chain : Chain (node :: older) := listed ▸ flushable.wellFormed.chain
    have notDropped := (flushable.plain node mem).1
    have passed : Consumed info.snapshots node.beginSeq
        (ColumnWalk.checkIterator { snapshots := info.snapshots } node).2 := by
      simp only [ColumnWalk.checkIterator, notDropped, Bool.false_eq_true, if_false]
      exact consumed_stab node.beginSeq node.endSeq descending (consumed_all past)
        (Nat.le_of_lt chain.head.begin_lt_max)
    have rest : ∀ next : ColumnWalk, next.snapshots =
        (ColumnWalk.checkIterator { snapshots := info.snapshots } node).2 → ∀ latest,
        putSeen (flushNodes info col split next latest older).nodes seq =
          putSeen older seq := by
      intro next snaps _
      apply putSeen_flushNodes descending live (snaps ▸ passed) chain.tail
      · intro other later
        exact (flushable.plain other (by simp [listed, later])).1
      · exact fun other later => (chain.head_supersedes later).2
      · exact chain.head.begin_lt_max
    have fate := nodeFate info col split { snapshots := info.snapshots } data.latestColNode
      node older
    generalize flushNodes info col split { snapshots := info.snapshots } data.latestColNode
      (node :: older) = run at fate
    cases fate with
    | kept next holding committed follows =>
      exact putSeen_keep _ _ _ (rest next follows.snapshots _)
    | written next noSplit writable follows =>
      exact putSeen_keep _ _ _ (rest next follows.snapshots _)
    | stopped => rfl
    | deleted next notWritable unseen sent snaps =>
      apply putSeen_delete chain _ (rest next snaps _)
      exact newest_unseen_of_deleted flushable small descending past noTtl live listed
        notWritable unseen sent

theorem newest_flushColumn (flushable : data.Flushable bound) {node : ColumnNode V}
    (isHead : (flushColumn info col split data).nodes.head? = some node)
    (isPut : node.requestType = .put) :
    (node.endSeq = ulongMax → node.ikeySeq ≠ ulongMax) ∧
      (node.recentColNodeDeleted = true ↔ node.endSeq ≠ ulongMax) := by
  unfold flushColumn at isHead
  cases listed : data.colList with
  | nil => simp [listed, flushNodes] at isHead
  | cons head older =>
    have chain : Chain (head :: older) := listed ▸ flushable.wellFormed.chain
    have newest := flushable.newest head (by simp [listed])
    have fate := nodeFate info col split { snapshots := info.snapshots } data.latestColNode
      head older
    rw [listed] at isHead
    generalize flushNodes info col split { snapshots := info.snapshots } data.latestColNode
      (head :: older) = run at fate isHead
    cases fate with
    | kept =>
      obtain rfl := some.inj isHead
      simpa [flagged] using newest isPut
    | written next noSplit writable =>
      obtain rfl := some.inj isHead
      simpa [flagged, writable.notSuperseded] using newest isPut
    | stopped =>
      obtain rfl := some.inj isHead
      exact newest isPut
    | deleted next notWritable unseen sent snaps recent =>
      have mem := mem_of_head? isHead
      have marked := recent_of_mem_flushNodes info col split recent mem
      obtain ⟨_, inOlder, _, _, _, rfl⟩ :=
        (trimmed_flushNodes info col split next _ older).exists_of_mem mem
      have closed := Chain.older_end_ne_max chain.head (chain.head_supersedes inOlder)
      exact ⟨fun isOpen => absurd isOpen closed, fun _ => closed, fun _ => marked⟩

theorem ColumnData.Flushable.flushColumn (flushable : data.Flushable bound) :
    ((flushColumn info col split data).column data).Flushable bound := by
  have trimmed : Trimmed data.colList (InsDb.flushColumn info col split data).nodes :=
    trimmed_flushNodes info col split _ _ _
  refine ⟨⟨trimmed.chain flushable.wellFormed.chain, ?_⟩, ?_, ?_, ?_, ?_⟩
  · have latest := latest_flushNodes info col split { snapshots := info.snapshots }
      flushable.wellFormed.chain
    rw [← flushable.wellFormed.latest] at latest
    exact latest
  · exact trimmed.forall_mem (fun node _ _ _ below => below) flushable.below
  · exact trimmed.forall_mem (fun node _ _ _ plain => plain) flushable.plain
  · intro _ isHead isPut
    exact newest_flushColumn flushable isHead isPut
  apply trimmed.forall_mem _ flushable.stored
  intro _ _ _ _ stored isPut sent notMerged
  have block := stored isPut sent notMerged
  exact ⟨block.noUserValue, block.ikeySeq_lt, block.kbOffset_lt, block.ivalueSize_lt, block.begun⟩

structure ColumnNode.Written (node : ColumnNode V) : Prop where
  isPut : node.requestType = .put
  submitted : kUnusedNextInternalKey ≤ node.ikeySeq
  notMerged : node.ikeySeq ≠ ulongMax
  isOpen : node.endSeq = ulongMax
  notDropped : node.dropped = false
  noTs : node.ts = 0
  block : node.InKeyBlock

theorem clean_flushColumn (flushable : data.Flushable bound)
    (clean : (flushColumn info col split data).dirty = false)
    (complete : (flushColumn info col split data).stopped = false) :
    (flushColumn info col split data).nodes = (flushColumn info col split data).valid.toList ∧
      ∀ node, (flushColumn info col split data).valid = some node → node.Written := by
  have listed : (flushColumn info col split data).nodes =
      (flushColumn info col split data).valid.toList :=
    nodes_eq_valid_of_clean info col split clean complete
  refine ⟨listed, ?_⟩
  intro node isValid
  have post : ((flushColumn info col split data).column data).Flushable bound :=
    flushable.flushColumn
  obtain ⟨mem, isPut, sent, notMerged, unmarked⟩ := valid_mem info col split isValid
  have isHead : (flushColumn info col split data).nodes.head? = some node := by
    rw [listed, isValid]
    rfl
  have newest := newest_flushColumn flushable isHead isPut
  have plain := post.plain node mem
  refine ⟨isPut, sent, notMerged, ?_, plain.1, plain.2,
    post.stored node mem isPut sent notMerged⟩
  simpa [unmarked] using newest.2

end Column

end InsDb
