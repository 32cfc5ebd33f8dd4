import Mathlib.Data.List.TakeWhile
import InsDb.Library.Sweep
import InsDb.Transaction
import InsDb.UserKey

/-!
# Vertical merge

When a worker submits the node of a request, `UserKey::DoVerticalMerge` walks the older
nodes that are still pending and belong to the same transaction group.
-/

namespace InsDb

open InsDb.Library.Sweep List ColumnNode

variable {V : Type}

structure TrxnInfo where
  head : Transaction
  merged : List Transaction
  smallestTrxnId : Nat
deriving DecidableEq, Repr

/-- One transaction is taken for each visited node that belongs to one. -/
def mergedTrxns : List (ColumnNode V) → List Transaction → List Transaction
  | [], _ => []
  | node :: older, trxnDeque =>
    if node.transaction then
      (getTrxn trxnDeque).1 :: mergedTrxns older (getTrxn trxnDeque).2
    else
      mergedTrxns older trxnDeque

def smallerTrxnId (smallest : Nat) (trxn : Transaction) : Nat :=
  if smallest = 0 ∨ trxn.id < smallest then trxn.id else smallest

/-- The log entry of a submitted node and the older nodes merged into it. -/
def trxnInfo (head : ColumnNode V) (visited : List (ColumnNode V))
    (trxnDeque : List Transaction) : TrxnInfo :=
  let taken := if head.transaction then getTrxn trxnDeque else ({}, trxnDeque)
  let merged := mergedTrxns visited taken.2
  { head := taken.1
    merged := merged
    smallestTrxnId := merged.foldl smallerTrxnId taken.1.id }

variable (node : ColumnNode V)

/-- A node that has not been submitted, in the group of the node above it. -/
def mergeable : Bool :=
  decide (node.ikeySeq = 0) && !node.tgidSplit

def ColumnNode.clearTransaction : ColumnNode V :=
  { node with transaction := false }

def ColumnNode.clearTGIDSplit : ColumnNode V :=
  { node with tgidSplit := false }

def ColumnNode.heldForSnapshot : ColumnNode V :=
  { node with
    ikeySeq := ulongMax
    transaction := false
    trxnCommitted := true }

def mergeVisited : List Nat → List (ColumnNode V) → List (ColumnNode V)
  | _, [] => []
  | snaps, node :: older =>
    let swept := stab node.beginSeq node.endSeq snaps
    if swept.1 = true ∧ node.requestType = .put then
      node.heldForSnapshot :: mergeVisited swept.2 older
    else
      mergeVisited swept.2 older

def stopAt : List (ColumnNode V) → List (ColumnNode V)
  | [] => []
  | node :: older => node.clearTGIDSplit :: older

def splitAtNode (designated : Nat) (nodes : List (ColumnNode V)) :
    List (ColumnNode V) × List (ColumnNode V) :=
  (nodes.takeWhile (fun node => node.beginSeq ≠ designated),
    nodes.dropWhile (fun node => node.beginSeq ≠ designated))

variable (snaps : List Nat)

/-- The column list `DoVerticalMerge` leaves; `designated` names the submitted node
and `snapshots` are the live sequence numbers, newest first. -/
def mergeList (designated : Nat) (nodes : List (ColumnNode V)) :
    List (ColumnNode V) :=
  match splitAtNode designated nodes with
  | (_, []) => nodes
  | (newer, head :: older) =>
    newer ++ head.clearTransaction ::
      (mergeVisited (stab head.beginSeq head.endSeq snaps).2 (older.takeWhile mergeable) ++
        stopAt (older.dropWhile mergeable))

/-- `UserKey::DoVerticalMerge` on one column. -/
def ColumnData.doVerticalMerge (data : ColumnData V) (snaps : List Nat)
    (designated : Nat) : ColumnData V :=
  { data with colList := mergeList snaps designated data.colList }

def UserKey.doVerticalMerge (user : UserKey V) (col : Nat) (snaps : List Nat)
    (designated : Nat) : UserKey V :=
  user.setColumn col ((user.columns col).doVerticalMerge snaps designated)

/-- The sequence numbers reads may use: those of the live snapshots, and the largest
one for a read without a snapshot. -/
def LiveAt (seq : Nat) : Prop :=
  seq ∈ snaps ∨ seq = ulongMax

theorem covers_heldForSnapshot (seq : Nat) :
    node.heldForSnapshot.covers seq = node.covers seq := rfl

theorem heldForSnapshot_sameView {node : ColumnNode V}
    (valued : node.userValue.isSome = true) : node.heldForSnapshot.SameView node := by
  refine ⟨rfl, rfl, rfl, rfl, rfl, ?_⟩
  cases attached : node.userValue with
  | none => simp [attached] at valued
  | some => simp [designator, heldForSnapshot, attached]

theorem mem_mergeVisited {snaps : List Nat} {visited : List (ColumnNode V)}
    {node : ColumnNode V} (mem : node ∈ mergeVisited snaps visited) :
    ∃ old ∈ visited, old.requestType = .put ∧ node = old.heldForSnapshot := by
  induction visited generalizing snaps with
  | nil => simp [mergeVisited] at mem
  | cons first older ih =>
    simp only [mergeVisited] at mem
    split_ifs at mem with held
    · rcases mem_cons.mp mem with rfl | later
      · exact ⟨first, mem_cons_self, held.2, rfl⟩
      obtain ⟨old, oldMem, isPut, same⟩ := ih later
      exact ⟨old, mem_cons_of_mem _ oldMem, isPut, same⟩
    obtain ⟨old, oldMem, isPut, same⟩ := ih mem
    exact ⟨old, mem_cons_of_mem _ oldMem, isPut, same⟩

theorem covering_put_is_held {snaps : List Nat} {node : ColumnNode V}
    {bound seq : Nat} (live : LiveAt snaps seq) (ends : node.endSeq ≤ bound)
    (small : bound < ulongMax) (isPut : node.requestType = .put)
    (cover : node.covers seq = true) :
    ∃ snap ∈ snaps, node.beginSeq ≤ snap ∧ snap < node.endSeq := by
  obtain ⟨begun, _ | notEnded | isDel⟩ := covers_iff.mp cover
  · omega
  · rcases live with snap | latest
    · exact ⟨seq, snap, begun, notEnded⟩
    · omega
  rw [isPut] at isDel
  cases isDel

theorem find_mergeVisited {snaps cursor : List Nat} {visited : List (ColumnNode V)}
    {bound seq : Nat} (descending : Descending snaps)
    (consumed : Consumed snaps bound cursor) (chain : Chain visited)
    (ends : ∀ node ∈ visited, node.endSeq ≤ bound) (small : bound < ulongMax)
    (live : LiveAt snaps seq) :
    (mergeVisited cursor visited).find? (ColumnNode.covers seq) =
      ((visited.find? (ColumnNode.covers seq)).filter
        (fun node => node.requestType = .put)).map ColumnNode.heldForSnapshot := by
  induction visited generalizing cursor bound with
  | nil => rfl
  | cons node older ih =>
    have nodeEnds := ends node mem_cons_self
    have nodeBegins := chain.head.begin_le_end
    have rest := ih (consumed_stab node.beginSeq node.endSeq descending consumed (by omega))
      chain.tail (fun other mem => (chain.head_supersedes mem).2) (by omega)
    have hit := stab_hit_of_consumed node.beginSeq node.endSeq descending consumed nodeEnds
    simp only [mergeVisited]
    by_cases cover : node.covers seq = true
    · rw [find?_cons_of_pos cover]
      cases kind : node.requestType with
      | put =>
        have held := hit.mpr (covering_put_is_held live nodeEnds small kind cover)
        rw [if_pos ⟨held, rfl⟩, find?_cons_of_pos (by exact cover)]
        simp [kind]
      | del =>
        -- Nothing older covers the sequence number once the delete has begun.
        have begun := (covers_iff.mp cover).1
        rw [if_neg (by simp)]
        have uncovered : (mergeVisited (stab node.beginSeq node.endSeq cursor).2 older).find?
            (covers seq) = none := by
          rw [find?_eq_none]
          intro _ mem
          obtain ⟨_, oldMem, isPut, rfl⟩ := mem_mergeVisited mem
          rw [covers_heldForSnapshot, Chain.older_put_not_covers chain.head
            (chain.head_supersedes oldMem) begun isPut]
          simp
        simp [uncovered, kind]
    · rw [find?_cons_of_neg cover]
      split_ifs with held
      · rw [find?_cons_of_neg (by exact cover)]
        exact rest
      · exact rest

theorem clearTransaction_sameView : node.clearTransaction.SameView node :=
  ⟨rfl, rfl, rfl, rfl, rfl, rfl⟩

theorem clearTGIDSplit_sameView : node.clearTGIDSplit.SameView node :=
  ⟨rfl, rfl, rfl, rfl, rfl, rfl⟩

theorem lookup_stopAt (nodes : List (ColumnNode V)) (curTime seq ttl : Nat) :
    (lookupIn (stopAt nodes) curTime seq ttl).map ColumnNode.view =
      (lookupIn nodes curTime seq ttl).map ColumnNode.view := by
  cases nodes with
  | nil => rfl
  | cons node older => exact (clearTGIDSplit_sameView node).lookup_cons older curTime seq ttl

theorem find_stopAt_eq_none {nodes : List (ColumnNode V)} {seq : Nat}
    (nothing : nodes.find? (ColumnNode.covers seq) = none) :
    (stopAt nodes).find? (ColumnNode.covers seq) = none := by
  cases nodes with
  | nil => rfl
  | cons node =>
    rw [find?_eq_none] at nothing ⊢
    intro other mem
    rcases mem_cons.mp mem with rfl | later
    · rw [(clearTGIDSplit_sameView node).covers]
      exact nothing node mem_cons_self
    · exact nothing other (mem_cons_of_mem _ later)

/-- The newest version begun at `seqNum` is a pending delete that the merge drops,
and no version below the merged ones covers the sequence number. -/
def ColumnData.mergeUncovers (data : ColumnData V) (designated seq : Nat) : Prop :=
  ∃ newer head older, splitAtNode designated data.colList = (newer, head :: older) ∧
    (newer ++ [head]).find? (ColumnNode.covers seq) = none ∧
    (∃ dropped, (older.takeWhile mergeable).find? (ColumnNode.covers seq) = some dropped ∧
      dropped.requestType = .del) ∧
    (older.dropWhile mergeable).find? (ColumnNode.covers seq) = none

theorem splitAtNode_append (designated : Nat) (nodes : List (ColumnNode V)) :
    (splitAtNode designated nodes).1 ++ (splitAtNode designated nodes).2 = nodes :=
  takeWhile_append_dropWhile

/-- The pieces a merge works on: the nodes above the submitted one, that node, the
pending nodes it visits and the ones it does not reach. -/
structure MergePieces (nodes newer visited rest : List (ColumnNode V))
    (head : ColumnNode V) : Prop where
  whole : nodes = newer ++ head :: (visited ++ rest)
  pending : ∀ node ∈ visited, node.ikeySeq = 0
  chain : Chain (visited ++ rest)
  headWellFormed : head.WellFormed
  above : ∀ node ∈ visited ++ rest, head.supersedes node

theorem mergePieces_of_split {nodes newer older : List (ColumnNode V)}
    {head : ColumnNode V} {designated : Nat} (chain : Chain nodes)
    (split : splitAtNode designated nodes = (newer, head :: older)) :
    MergePieces nodes newer (older.takeWhile mergeable) (older.dropWhile mergeable) head := by
  have whole : nodes = newer ++ head :: older := by
    have joined := splitAtNode_append designated nodes
    rw [split] at joined
    exact joined.symm
  have lower : Chain (head :: older) := by
    apply chain.sublist
    rw [whole]
    exact sublist_append_right _ _
  refine ⟨?_, ?_, ?_, lower.head, ?_⟩
  · rw [takeWhile_append_dropWhile]
    exact whole
  · intro _ mem
    have holds := mem_takeWhile_imp mem
    simp only [mergeable, Bool.and_eq_true, decide_eq_true_eq] at holds
    exact holds.1
  · rw [takeWhile_append_dropWhile]
    exact lower.tail
  intro _ mem
  rw [takeWhile_append_dropWhile] at mem
  exact lower.head_supersedes mem

section Lookup

variable {nodes newer visited rest : List (ColumnNode V)} {head : ColumnNode V}
  {snaps : List Nat} {seq : Nat}

theorem lookup_below_head (pieces : MergePieces nodes newer visited rest head)
    (descending : Descending snaps) (live : LiveAt snaps seq) (curTime ttl : Nat)
    (kept : ∀ dropped, visited.find? (ColumnNode.covers seq) = some dropped →
      dropped.requestType = .del → rest.find? (ColumnNode.covers seq) ≠ none) :
    (lookupIn (mergeVisited (stab head.beginSeq head.endSeq snaps).2 visited ++
        stopAt rest) curTime seq ttl).map ColumnNode.view =
      (lookupIn (visited ++ rest) curTime seq ttl).map ColumnNode.view := by
  have chainVisited : Chain visited := pieces.chain.sublist (sublist_append_left _ _)
  have found := find_mergeVisited descending
    (stab_remaining head.beginSeq head.endSeq snaps descending) chainVisited
    (fun node mem => (pieces.above node (mem_append_left _ mem)).2)
    pieces.headWellFormed.begin_lt_max live
  rw [lookupIn_append, lookupIn_append, found]
  cases first : visited.find? (covers seq) with
  | none => exact lookup_stopAt rest curTime seq ttl
  | some node =>
    have mem : node ∈ visited := mem_of_find?_eq_some first
    cases kind : node.requestType with
    | put =>
      have valued := (chainVisited.wellFormed node mem).pending_value kind (pieces.pending node mem)
      simp only [Option.filter_some, kind, decide_true, if_true, Option.map_some]
      exact (heldForSnapshot_sameView valued).answer curTime ttl
    | del =>
      -- A version below the merged ones that still covers the number is a delete.
      simp only [kind, Option.filter_some, reduceCtorEq, decide_false, Bool.false_eq_true,
        if_false, Option.map_none]
      rw [lookup_stopAt]
      cases below : rest.find? (covers seq) with
      | none => exact absurd below (kept node first kind)
      | some older =>
        have begun := (covers_iff.mp (find?_some first)).1
        have olderMem : older ∈ rest := mem_of_find?_eq_some below
        have above := (pairwise_append.mp pieces.chain.ordered).2.2 node mem older olderMem
        have olderDel : older.requestType = .del := by
          cases olderKind : older.requestType with
          | del => rfl
          | put =>
            have uncovered := Chain.older_put_not_covers
              (chainVisited.wellFormed node mem) above begun olderKind
            rw [find?_some below] at uncovered
            cases uncovered
        simp [lookupIn, below, answer, hidden_of_del kind, hidden_of_del olderDel]

end Lookup

section

variable {data : ColumnData V} {snaps : List Nat} {designated seq : Nat}
  (chain : Chain data.colList) (descending : Descending snaps) (live : LiveAt snaps seq)

include chain descending live

theorem lookup_mergeList (covered : ¬ data.mergeUncovers designated seq) (curTime ttl : Nat) :
    (lookupIn (mergeList snaps designated data.colList) curTime seq ttl).map
        ColumnNode.view =
      (lookupIn data.colList curTime seq ttl).map ColumnNode.view := by
  rcases split : splitAtNode designated data.colList with ⟨newer, below⟩
  cases below with
  | nil => simp only [mergeList, split]
  | cons head older =>
    have pieces := mergePieces_of_split chain split
    have kept : ∀ dropped, (older.takeWhile mergeable).find? (covers seq) = some dropped →
        dropped.requestType = .del →
        (newer ++ [head]).find? (covers seq) = none →
        (older.dropWhile mergeable).find? (covers seq) ≠ none := by
      intro dropped first isDel nothingAbove nothingBelow
      exact covered ⟨newer, head, older, split, nothingAbove, ⟨dropped, first, isDel⟩, nothingBelow⟩
    simp only [mergeList, split]
    rw [pieces.whole, lookupIn_append, lookupIn_append]
    cases inNewer : newer.find? (covers seq) with
    | some => rfl
    | none =>
      by_cases headCovers : head.covers seq = true
      · rw [(clearTransaction_sameView head).lookup_cons]
        simp only [lookupIn, find?_cons_of_pos headCovers]
      have nothingAbove : (newer ++ [head]).find? (covers seq) = none := by
        rw [find?_append, inNewer, find?_cons_of_neg headCovers]
        rfl
      have lower := lookup_below_head pieces descending live curTime ttl
        (fun dropped first isDel => kept dropped first isDel nothingAbove)
      rw [(clearTransaction_sameView head).lookup_cons]
      simp only [lookupIn, find?_cons_of_neg headCovers] at lower ⊢
      exact lower

theorem lookup_of_mergeUncovers (uncovers : data.mergeUncovers designated seq)
    (curTime ttl : Nat) :
    lookupIn data.colList curTime seq ttl = .deleted ∧
      lookupIn (mergeList snaps designated data.colList) curTime seq ttl = .absent := by
  obtain ⟨newer, head, older, split, nothingAbove, ⟨_, first, isDel⟩, nothingBelow⟩ := uncovers
  have pieces := mergePieces_of_split chain split
  obtain ⟨inNewer, headNot⟩ : newer.find? (covers seq) = none ∧ head.covers seq = false := by
    simpa [find?_append] using nothingAbove
  have found := find_mergeVisited descending
    (stab_remaining head.beginSeq head.endSeq snaps descending)
    (pieces.chain.sublist (sublist_append_left _ _))
    (fun node mem => (pieces.above node (mem_append_left _ mem)).2)
    pieces.headWellFormed.begin_lt_max live
  have nothingKept : (mergeVisited (stab head.beginSeq head.endSeq snaps).2
      (older.takeWhile mergeable)).find? (covers seq) = none := by
    rw [found, first]
    simp [Option.filter_some, isDel]
  have headStill : head.clearTransaction.covers seq = false := headNot
  have stopped := find_stopAt_eq_none nothingBelow
  constructor
  · rw [pieces.whole]
    simp [lookupIn, find?_append, -takeWhile_append_dropWhile, inNewer, headNot, first,
      answer, hidden_of_del isDel]
  · simp [mergeList, split, lookupIn, find?_append, inNewer, headStill, nothingKept, stopped]

end

theorem mergeVisited_intervals (visited : List (ColumnNode V)) :
    ((mergeVisited snaps visited).map ColumnNode.interval).Sublist
      (visited.map ColumnNode.interval) := by
  induction visited generalizing snaps with
  | nil => exact List.Sublist.refl _
  | cons node older ih =>
    simp only [mergeVisited]
    split_ifs
    · exact (ih _).cons_cons _
    · exact (ih _).cons _

theorem stopAt_intervals (nodes : List (ColumnNode V)) :
    (stopAt nodes).map ColumnNode.interval = nodes.map ColumnNode.interval := by
  cases nodes <;> rfl

theorem mem_stopAt_wellFormed {nodes : List (ColumnNode V)}
    (wellFormed : ∀ node ∈ nodes, node.WellFormed) :
    ∀ node ∈ stopAt nodes, node.WellFormed := by
  cases nodes with
  | nil => exact wellFormed
  | cons first =>
    intro node mem
    rcases mem_cons.mp mem with rfl | later
    · have firstWellFormed := wellFormed first mem_cons_self
      exact ⟨firstWellFormed.begin_lt_max, firstWellFormed.begin_le_end,
        firstWellFormed.del_ends, firstWellFormed.pending_value⟩
    · exact wellFormed node (mem_cons_of_mem _ later)

theorem mergeList_intervals {nodes : List (ColumnNode V)} (chain : Chain nodes)
    (snaps : List Nat) (designated : Nat) :
    ((mergeList snaps designated nodes).map ColumnNode.interval).Sublist
      (nodes.map ColumnNode.interval) := by
  rcases split : splitAtNode designated nodes with ⟨_, below⟩
  cases below with
  | nil => simp [mergeList, split]
  | cons =>
    have pieces := mergePieces_of_split chain split
    simp only [mergeList, split]
    rw [pieces.whole]
    simp only [map_append, map_cons, stopAt_intervals]
    exact (List.Sublist.refl _).append
      (((mergeVisited_intervals _ _).append (List.Sublist.refl _)).cons_cons _)

theorem chain_mergeList {nodes : List (ColumnNode V)} (chain : Chain nodes)
    (snaps : List Nat) (designated : Nat) :
    Chain (mergeList snaps designated nodes) := by
  rcases split : splitAtNode designated nodes with ⟨_, below⟩
  cases below with
  | nil =>
    simp only [mergeList, split]
    exact chain
  | cons =>
    have pieces := mergePieces_of_split chain split
    have wellFormed := chain.wellFormed
    rw [pieces.whole] at wellFormed
    apply chain.of_intervals _ (mergeList_intervals chain snaps designated)
    simp only [mergeList, split]
    intro node mem
    rcases mem_append.mp mem with inNewer | lower
    · exact wellFormed node (mem_append_left _ inNewer)
    rcases mem_cons.mp lower with rfl | merged
    · have headWellFormed := pieces.headWellFormed
      exact ⟨headWellFormed.begin_lt_max, headWellFormed.begin_le_end,
        headWellFormed.del_ends, headWellFormed.pending_value⟩
    rcases mem_append.mp merged with held | unreached
    · obtain ⟨old, oldMem, _, rfl⟩ := mem_mergeVisited held
      have oldWellFormed := pieces.chain.wellFormed old (mem_append_left _ oldMem)
      exact ⟨oldWellFormed.begin_lt_max, oldWellFormed.begin_le_end, oldWellFormed.del_ends,
        fun _ pending => absurd pending (by simp [heldForSnapshot, ulongMax])⟩
    exact mem_stopAt_wellFormed (fun other otherMem => pieces.chain.wellFormed other
        (mem_append_right _ otherMem)) node unreached

theorem head_mergeList (designated : Nat) (nodes : List (ColumnNode V)) :
    (mergeList snaps designated nodes).head?.map ColumnNode.beginSeq =
      nodes.head?.map ColumnNode.beginSeq := by
  have joined := splitAtNode_append designated nodes
  rcases split : splitAtNode designated nodes with ⟨newer, below⟩
  rw [split] at joined
  cases below with
  | nil => simp only [mergeList, split]
  | cons =>
    simp only [mergeList, split]
    rw [← joined]
    cases newer <;> rfl

theorem ColumnData.WellFormed.doVerticalMerge {data : ColumnData V}
    (wellFormed : data.WellFormed) (snaps : List Nat) (designated : Nat) :
    (data.doVerticalMerge snaps designated).WellFormed :=
  ⟨chain_mergeList wellFormed.chain snaps designated, by
    rw [ColumnData.doVerticalMerge, head_mergeList]
    exact wellFormed.latest⟩

section Reads

variable {user : UserKey V} {col designated : Nat} {snaps : List Nat}
  {point : ReadPoint}

@[simp] theorem UserKey.doVerticalMerge_fetched (user : UserKey V) (col : Nat)
    (snaps : List Nat) (designated : Nat) :
    (user.doVerticalMerge col snaps designated).fetched = user.fetched := rfl

theorem getColumnNode_doVerticalMerge (snaps : List Nat) (designated : Nat)
    (point : ReadPoint) (wellFormed : (user.columns col).WellFormed) :
    (user.doVerticalMerge col snaps designated).getColumnNode col point =
      lookupIn (mergeList snaps designated (user.columns col).colList)
        point.curTime point.seqNum point.ttl := by
  have merged := wellFormed.doVerticalMerge snaps designated
  simp only [UserKey.getColumnNode, UserKey.doVerticalMerge, UserKey.setColumn,
    Function.update_self]
  exact merged.getColumnNode_eq point.curTime point.seqNum point.ttl

section

variable (row : DeviceRow) (wellFormed : (user.columns col).WellFormed)
  (descending : Descending snaps) (live : LiveAt snaps point.seqNum)

include row wellFormed descending live

theorem getRead_doVerticalMerge :
    getRead (some (user.doVerticalMerge col snaps designated)) row col point =
      getRead (some user) row col point := by
  have post := getColumnNode_doVerticalMerge snaps designated point wellFormed
  have pre := wellFormed.getColumnNode_eq point.curTime point.seqNum point.ttl
  by_cases uncovers : (user.columns col).mergeUncovers designated point.seqNum
  · obtain ⟨deleted, absent⟩ := lookup_of_mergeUncovers wellFormed.chain descending live
      uncovers point.curTime point.ttl
    apply getRead_congr_of_not_found (user.doVerticalMerge_fetched ..)
    · intro _ found
      rw [UserKey.getColumnNode, pre, deleted] at found
      cases found
    intro _ found
    rw [post, absent] at found
    cases found
  · apply getRead_congr (user.doVerticalMerge_fetched ..)
    rw [post, UserKey.getColumnNode, pre]
    exact lookup_mergeList wellFormed.chain descending live uncovers point.curTime point.ttl

theorem padRead_doVerticalMerge_iff :
    padRead (some (user.doVerticalMerge col snaps designated)) row col point =
        padRead (some user) row col point ↔
      ((user.columns col).mergeUncovers designated point.seqNum →
        user.fetched = true ∨ row.visible col point = false) := by
  have post := getColumnNode_doVerticalMerge snaps designated { point with ttl := 0 }
    wellFormed
  have pre := wellFormed.getColumnNode_eq point.curTime point.seqNum 0
  by_cases uncovers : (user.columns col).mergeUncovers designated point.seqNum
  · obtain ⟨deleted, absent⟩ := lookup_of_mergeUncovers wellFormed.chain descending live
      uncovers point.curTime 0
    have beforeNone : padRead (some user) row col point = none := by
      simp only [padRead, UserKey.getColumnNode, pre, deleted]
    have afterRow : padRead (some (user.doVerticalMerge col snaps designated)) row col
        point = if user.fetched then none else row.padEntry col point := by
      simp only [padRead, post, absent, UserKey.doVerticalMerge_fetched]
      rfl
    rw [beforeNone, afterRow]
    cases fetched : user.fetched with
    | true => simp
    | false => simp [uncovers, DeviceRow.padEntry_eq_none_iff]
  · simp only [uncovers, false_implies, iff_true]
    apply padRead_congr (user.doVerticalMerge_fetched ..)
    rw [post, UserKey.getColumnNode, pre]
    exact lookup_mergeList wellFormed.chain descending live uncovers point.curTime 0

end

end Reads

/-- A key evicted after its row was written at 10, deleted at 20 and put again at 30,
with the delete and the put still pending. -/
def deletedThenPut : UserKey Nat :=
  UserKey.setColumn { dirty := true } 0
    { colList :=
        [{ requestType := .put, beginSeq := 30, ikeySeq := 1, userValue := some 7 },
         { requestType := .del, beginSeq := 20, endSeq := 20 }]
      latestColNode := some 30 }

def rowWrittenAtTen : DeviceRow :=
  { columns :=
      [{ colId := 0
         offset := 3
         ikeySeq := 2000
         ivalueSize := 64
         seq := some 10
         ts := none }] }

theorem deletedThenPut_wellFormed : (deletedThenPut.columns 0).WellFormed := by
  refine ⟨⟨?_, ?_⟩, rfl⟩
  · intro _ mem
    simp only [deletedThenPut, UserKey.setColumn, Function.update_self, mem_cons,
      not_mem_nil, or_false] at mem
    rcases mem with rfl | rfl
    · exact ⟨by decide, by decide, by simp, by simp⟩
    · exact ⟨by decide, by decide, by simp, by simp⟩
  · simp [deletedThenPut, UserKey.setColumn, supersedes]

/-- Running the merge leaves every live read unchanged exactly when no dropped delete
hides, at a live sequence number, the row of a key that is not fetched. -/
theorem vertical_merge_preserves_reads_iff (user : UserKey V) (row : DeviceRow)
    (col designated : Nat) (snaps : List Nat)
    (wellFormed : (user.columns col).WellFormed) (descending : Descending snaps) :
    (∀ point : ReadPoint, LiveAt snaps point.seqNum →
      getRead (some (user.doVerticalMerge col snaps designated)) row col point =
          getRead (some user) row col point ∧
        padRead (some (user.doVerticalMerge col snaps designated)) row col point =
          padRead (some user) row col point) ↔
      ∀ point : ReadPoint, LiveAt snaps point.seqNum →
        (user.columns col).mergeUncovers designated point.seqNum →
        user.fetched = true ∨ row.visible col point = false := by
  constructor
  · intro unchanged point live
    exact (padRead_doVerticalMerge_iff row wellFormed descending live).mp (unchanged point live).2
  intro covered point live
  exact ⟨getRead_doVerticalMerge row wellFormed descending live,
    (padRead_doVerticalMerge_iff row wellFormed descending live).mpr (covered point live)⟩

/-- The same key once its row is fetched: the delete hides nothing any more. -/
theorem vertical_merge_preserves_reads_of_fetched_key :
    (deletedThenPut.columns 0).WellFormed ∧ Descending [25] ∧
      ∀ point : ReadPoint, LiveAt [25] point.seqNum →
        getRead (some (UserKey.doVerticalMerge { deletedThenPut with fetched := true } 0 [25] 30))
              rowWrittenAtTen 0 point =
            getRead (some { deletedThenPut with fetched := true }) rowWrittenAtTen 0 point ∧
          padRead (some (UserKey.doVerticalMerge { deletedThenPut with fetched := true } 0 [25] 30))
              rowWrittenAtTen 0 point =
            padRead (some { deletedThenPut with fetched := true }) rowWrittenAtTen 0 point :=
  ⟨deletedThenPut_wellFormed, pairwise_singleton _ _,
    (vertical_merge_preserves_reads_iff { deletedThenPut with fetched := true } rowWrittenAtTen
      0 30 [25] deletedThenPut_wellFormed (pairwise_singleton _ _)).mpr
      fun _ _ _ => Or.inl rfl⟩

/-- With a snapshot at 25 the merge drops the delete at 20, and an iterator of that
snapshot then finds the deleted value in the row. -/
theorem vertical_merge_exposes_deleted_row :
    (deletedThenPut.columns 0).WellFormed ∧ Descending [25] ∧
      ¬ ∀ point : ReadPoint, LiveAt [25] point.seqNum →
        getRead (some (deletedThenPut.doVerticalMerge 0 [25] 30)) rowWrittenAtTen 0 point =
            getRead (some deletedThenPut) rowWrittenAtTen 0 point ∧
          padRead (some (deletedThenPut.doVerticalMerge 0 [25] 30)) rowWrittenAtTen 0 point =
            padRead (some deletedThenPut) rowWrittenAtTen 0 point := by
  refine ⟨deletedThenPut_wellFormed, pairwise_singleton _ _, ?_⟩
  intro unchanged
  have atSnapshot := (unchanged { seqNum := 25, curTime := 100, ttl := 0 } (Or.inl (by simp))).2
  revert atSnapshot
  decide

end InsDb
