import Mathlib.Order.CompletePartialOrder
import Mathlib.Order.Interval.Set.Disjoint
import InsDb.Expiry
import InsDb.Submission
import InsDb.Library.Run

/-!
# The column lists of a key over time

Four parts of the program change the column lists of a `UserKey`: `Store` adds a version at
the front, `InsertColumnNode` adds one from a device row at the back, a worker merges
pending versions into the one it submits, and a flush takes versions out.
-/

namespace InsDb

open InsDb.Library List ColumnNode

variable {V : Type}

structure KeyColumns (V : Type) where
  user : UserKey V := .empty
  sequenceNumber : Nat

inductive ColumnOp (V : Type) where
  -- A write to another key takes the next sequence number.
  | otherKey
  -- `UpdateColumn`, and what `Store` does under the lock of the column after it.
  | updateColumn (colId ts : Nat) (update : Update V) (force : Bool) (trxn : Transaction)
      (freshRequest : Nat)
  | insertColumnNode (colId seq ttl ikeySeq ivalueSize offset : Nat)
  | beginSubmit (colId colNode workerId : Nat)
  | doVerticalMerge (colId : Nat) (snapshots : List Nat) (colNode : Nat)
  | updateColumnNode (colId colNode ikeySeq kbOffset ivalueSize : Nat)
  | dropColumnNode (colId colNode : Nat)
  -- The walk of a flush over one column, with the removals that `CheckColumnStatus` asks for.
  | flushColumn (colId : Nat) (info : BuilderInfo V) (split : Bool)

/-- `ColumnNode::DropColumnNode`. -/
def ColumnNode.dropColumnNode (node : ColumnNode V) : ColumnNode V :=
  { node with dropped := true }

/-- An update of a column and the rest of `Store`. -/
def UserKey.updateColumn (user : UserKey V) (colId : Nat) (node : ColumnNode V)
    (force : Bool) (trxn : Transaction) (freshRequest : Nat) : UserKey V :=
  match (user.columns colId).updateColumn node force with
  | (.failInsert, _) => user
  | (status, data) =>
    { user.setColumn colId
        (data.record node.beginSeq trxn freshRequest (data.scheduling status trxn.group)) with
      dirty := true }

namespace KeyColumns

variable (s : KeyColumns V)

def modifyColumn (colId : Nat) (change : ColumnData V → ColumnData V) :
    KeyColumns V :=
  { s with user := s.user.setColumn colId (change (s.user.columns colId)) }

/-- One operation.  Workers have ids from 1 on, and `InsertColumnNode` asserts that the node has
an internal key. -/
def step : ColumnOp V → Option (KeyColumns V)
  | .otherKey => some { s with sequenceNumber := s.sequenceNumber + 1 }
  | .updateColumn colId ts update force trxn freshRequest =>
    some
      { user := s.user.updateColumn colId (update.node ts (s.sequenceNumber + 1)) force
          trxn freshRequest
        sequenceNumber := s.sequenceNumber + 1 }
  | .insertColumnNode colId seq ttl ikeySeq ivalueSize offset =>
    if ikeySeq = 0 then
      none
    else
      some (s.modifyColumn colId fun data =>
        (data.insertColumnNode (ColumnNode.fetched seq ttl ikeySeq ivalueSize offset)).2)
  | .beginSubmit colId colNode workerId =>
    if workerId = 0 then
      none
    else
      some (s.modifyColumn colId fun data =>
        data.modifyNode colNode (ColumnNode.beginSubmit workerId))
  | .doVerticalMerge colId snapshots colNode =>
    some (s.modifyColumn colId fun data => data.doVerticalMerge snapshots colNode)
  | .updateColumnNode colId colNode ikeySeq kbOffset ivalueSize =>
    if ikeySeq = 0 then
      none
    else
      some (s.modifyColumn colId fun data =>
        data.modifyNode colNode (ColumnNode.updateColumnNode ikeySeq kbOffset ivalueSize))
  | .dropColumnNode colId colNode =>
    some (s.modifyColumn colId fun data =>
      data.modifyNode colNode ColumnNode.dropColumnNode)
  | .flushColumn colId info split =>
    some (s.modifyColumn colId fun data =>
      (InsDb.flushColumn info colId split data).column data)

/-- The sequence numbers last, and a fetched column carries one that was given before those of all
versions in memory.  A column at the place of the oldest version is not inserted. -/
def Ordinary : ColumnOp V → Prop
  | .otherKey => s.sequenceNumber + 1 < ulongMax
  | .updateColumn .. => s.sequenceNumber + 1 < ulongMax
  | .insertColumnNode colId seq _ ikeySeq _ offset =>
    ((s.user.columns colId).colList.isEmpty = true → seq ≤ s.sequenceNumber) ∧
      ∀ oldest ∈ (s.user.columns colId).colList.getLast?,
        oldest.ikeySeq = ikeySeq ∧ oldest.kbOffset = offset ∨ seq < oldest.beginSeq
  | _ => True

instance : ∀ op : ColumnOp V, Decidable (s.Ordinary op)
  | .otherKey => inferInstanceAs (Decidable (_ < _))
  | .updateColumn .. => inferInstanceAs (Decidable (_ < _))
  | .insertColumnNode .. => inferInstanceAs (Decidable (_ ∧ _))
  | .beginSubmit .. => isTrue trivial
  | .doVerticalMerge .. => isTrue trivial
  | .updateColumnNode .. => isTrue trivial
  | .dropColumnNode .. => isTrue trivial
  | .flushColumn .. => isTrue trivial

end KeyColumns

structure ColumnData.VersionsOrdered (data : ColumnData V) : Prop where
  descending : data.colList.Pairwise fun newer older => older.beginSeq < newer.beginSeq
  disjoint : (data.colList.filter fun node => node.requestType = .put).Pairwise fun newer older =>
    Disjoint (Set.Ico newer.beginSeq newer.endSeq) (Set.Ico older.beginSeq older.endSeq)
  latest : data.latestColNode = data.colList.head?.map ColumnNode.beginSeq
  newestFirst : ∀ curTime seqNum ttl node, data.getColumnNode curTime seqNum ttl = .found node →
    ∀ newer ∈ data.colList, node.beginSeq < newer.beginSeq → seqNum < newer.beginSeq

theorem Chain.supersedes_of_lt {nodes : List (ColumnNode V)} {newer older : ColumnNode V}
    (chain : Chain nodes) (newerMem : newer ∈ nodes) (olderMem : older ∈ nodes)
    (begins : older.beginSeq < newer.beginSeq) : newer.supersedes older := by
  induction nodes with
  | nil => cases newerMem
  | cons first rest ih =>
    rcases mem_cons.mp newerMem with isFirst | newerLater
    · rcases mem_cons.mp olderMem with alsoFirst | olderLater
      · rw [isFirst, alsoFirst] at begins
        exact absurd begins (Nat.lt_irrefl _)
      rw [isFirst]
      exact chain.head_supersedes olderLater
    rcases mem_cons.mp olderMem with isFirst | olderLater
    · have above := (chain.head_supersedes newerLater).1
      rw [isFirst] at begins
      omega
    · exact ih chain.tail newerLater olderLater

theorem found_of_lookupIn {nodes : List (ColumnNode V)} {node : ColumnNode V}
    {curTime seq ttl : Nat} (found : lookupIn nodes curTime seq ttl = .found node) :
    node ∈ nodes ∧ node.requestType = .put ∧ node.covers seq = true := by
  unfold lookupIn at found
  cases first : nodes.find? (covers seq) with
  | none =>
    rw [first] at found
    cases found
  | some stop =>
    rw [first] at found
    simp only [answer] at found
    split_ifs at found with isHidden
    have isNode : stop = node := ColumnLookup.found.inj found
    rw [← isNode]
    refine ⟨mem_of_find?_eq_some first, ?_, find?_some first⟩
    cases kind : stop.requestType with
    | put => rfl
    | del => exact absurd (hidden_of_del kind) isHidden

theorem ColumnData.WellFormed.versionsOrdered {data : ColumnData V}
    (wellFormed : data.WellFormed) : data.VersionsOrdered := by
  refine ⟨?_, ?_, wellFormed.latest, ?_⟩
  · exact wellFormed.chain.ordered.imp fun above => above.1
  · apply (wellFormed.chain.ordered.sublist filter_sublist).imp
    intro newer _ above
    rw [Set.disjoint_left]
    intro _ inNewer inOlder
    have ended := above.2
    have begun := inNewer.1
    have notEnded := inOlder.2
    omega
  intro _ _ _ _ found newer newerMem begins
  rw [wellFormed.getColumnNode_eq] at found
  obtain ⟨mem, isPut, cover⟩ := found_of_lookupIn found
  by_contra begun
  have superseded := wellFormed.chain.supersedes_of_lt newerMem mem begins
  have notCovering := Chain.older_put_not_covers
    (wellFormed.chain.wellFormed newer newerMem) superseded (Nat.le_of_not_lt begun) isPut
  rw [notCovering] at cover
  cases cover

/-- The invariant of a run: every column is a chain of versions up to the last sequence number. -/
structure KeyColumns.Valid (s : KeyColumns V) : Prop where
  wellFormed : s.user.WellFormed s.sequenceNumber
  small : s.sequenceNumber < ulongMax

theorem UserKey.updated_updateColumn (user : UserKey V) (col : Nat)
    (node : ColumnNode V) (force : Bool) (trxn : Transaction) (fresh : Nat) :
    user.Updated (user.updateColumn col node force trxn fresh) col node := by
  unfold UserKey.updateColumn
  by_cases cancelled : (user.columns col).cancels node force
  · rw [ColumnData.updateColumn_of_cancels cancelled]
    exact user.updated_refl col node
  rw [ColumnData.updateColumn_of_not_cancels cancelled]
  cases newest : (user.columns col).colList.head? with
  | none => exact user.updated_setColumn (ColumnData.extended_record rfl trxn fresh _)
  | some old =>
    have scheduled : scheduleStatus old ≠ .failInsert := by
      unfold scheduleStatus
      split_ifs <;> simp
    simp only
    exact user.updated_setColumn (ColumnData.extended_record rfl trxn fresh _)

namespace KeyColumns

variable {s : KeyColumns V}

theorem Valid.modifyColumn (valid : s.Valid) (col : Nat) {change : ColumnData V → ColumnData V}
    (wellFormed : (change (s.user.columns col)).WellFormed)
    (below : (change (s.user.columns col)).Below s.sequenceNumber) :
    (s.modifyColumn col change).Valid := by
  refine ⟨?_, valid.small⟩
  intro other
  simp only [KeyColumns.modifyColumn, UserKey.setColumn_columns]
  split_ifs with isCol
  · exact ⟨wellFormed, below⟩
  · exact valid.wellFormed other

end KeyColumns

theorem ColumnData.Below.of_intervals {data changed : ColumnData V} {bound : Nat}
    (below : data.Below bound) (intervals : (changed.colList.map ColumnNode.interval).Sublist
      (data.colList.map ColumnNode.interval)) : changed.Below bound := by
  intro node mem
  have kept := intervals.subset (mem_map_of_mem mem)
  obtain ⟨old, oldMem, same⟩ := mem_map.mp kept
  obtain ⟨begins, ends⟩ := Prod.mk.inj same
  rw [← begins, ← ends]
  exact below old oldMem

section Changes

variable {data : ColumnData V} {bound : Nat}

structure KeepsInterval (change : ColumnNode V → ColumnNode V) : Prop where
  interval : ∀ node, (change node).interval = node.interval
  requestType : ∀ node, (change node).requestType = node.requestType
  valued : ∀ node, node.WellFormed → (change node).requestType = .put →
    (change node).ikeySeq = 0 → (change node).userValue.isSome = true

variable {change : ColumnNode V → ColumnNode V}

theorem KeepsInterval.wellFormed (keeps : KeepsInterval change) {node : ColumnNode V}
    (wellFormed : node.WellFormed) :
    (change node).WellFormed := by
  obtain ⟨begins, ends⟩ := Prod.mk.inj (keeps.interval node)
  refine ⟨?_, ?_, ?_, keeps.valued node wellFormed⟩
  · rw [begins]
    exact wellFormed.begin_lt_max
  · rw [begins, ends]
    exact wellFormed.begin_le_end
  rw [begins, ends, keeps.requestType]
  exact wellFormed.del_ends

theorem modifyNode_intervals (keeps : KeepsInterval change) (data : ColumnData V) (colNode : Nat) :
    (data.modifyNode colNode change).colList.map ColumnNode.interval =
      data.colList.map ColumnNode.interval := by
  simp only [ColumnData.modifyNode, map_map]
  apply map_congr_left
  intro node _
  simp only [Function.comp_apply]
  split_ifs
  · exact keeps.interval node
  · rfl

theorem wellFormed_modifyNode (keeps : KeepsInterval change) (wellFormed : data.WellFormed)
    (colNode : Nat) :
    (data.modifyNode colNode change).WellFormed := by
  have intervals := modifyNode_intervals keeps data colNode
  refine ⟨wellFormed.chain.of_intervals ?_ (by rw [intervals]), ?_⟩
  · intro _ mem
    obtain ⟨old, oldMem, same⟩ := mem_map.mp mem
    rw [← same]
    split_ifs
    · exact keeps.wellFormed (wellFormed.chain.wellFormed old oldMem)
    · exact wellFormed.chain.wellFormed old oldMem
  have begins := congrArg (map Prod.fst) intervals
  simp only [map_map] at begins
  have heads := congrArg head? begins
  rw [head?_map, head?_map] at heads
  exact wellFormed.latest.trans heads.symm

theorem keepsInterval_beginSubmit {workerId : Nat} (working : workerId ≠ 0) :
    KeepsInterval (ColumnNode.beginSubmit workerId : ColumnNode V → _) :=
  ⟨fun _ => rfl, fun _ => rfl, fun _ _ _ pending => absurd pending working⟩

theorem keepsInterval_updateColumnNode {ikeySeq : Nat} (sent : ikeySeq ≠ 0)
    (kbOffset ivalueSize : Nat) :
    KeepsInterval (ColumnNode.updateColumnNode ikeySeq kbOffset ivalueSize : ColumnNode V → _) :=
  ⟨fun _ => rfl, fun _ => rfl, fun _ _ _ pending => absurd pending sent⟩

theorem keepsInterval_dropColumnNode :
    KeepsInterval (ColumnNode.dropColumnNode : ColumnNode V → _) :=
  ⟨fun _ => rfl, fun _ => rfl, fun _ wellFormed => wellFormed.pending_value⟩

theorem below_doVerticalMerge (below : data.Below bound) (chain : Chain data.colList)
    (snaps : List Nat) (colNode : Nat) :
    (data.doVerticalMerge snaps colNode).Below bound := by
  exact below.of_intervals (mergeList_intervals chain snaps colNode)

theorem wellFormed_flushColumn (wellFormed : data.WellFormed) (info : BuilderInfo V)
    (col : Nat) (split : Bool) :
    ((flushColumn info col split data).column data).WellFormed := by
  refine ⟨(trimmed_flushNodes info col split _ _ _).chain wellFormed.chain, ?_⟩
  have latest := latest_flushNodes info col split { snapshots := info.snapshots } wellFormed.chain
  rw [← wellFormed.latest] at latest
  exact latest

theorem KeyColumns.Valid.modifyNode {s : KeyColumns V} (valid : s.Valid)
    (keeps : KeepsInterval change) (col colNode : Nat) :
    (s.modifyColumn col fun data => data.modifyNode colNode change).Valid := by
  obtain ⟨wellFormed, below⟩ := valid.wellFormed col
  apply valid.modifyColumn col (wellFormed_modifyNode keeps wellFormed colNode)
  apply below.of_intervals
  rw [modifyNode_intervals keeps]

theorem wellFormed_insertColumnNode (ttl ivalueSize : Nat) {seq ikeySeq offset : Nat}
    (wellFormed : data.WellFormed) (below : data.Below bound) (small : bound < ulongMax)
    (stored : ikeySeq ≠ 0) (first : data.colList.isEmpty = true → seq ≤ bound)
    (later : ∀ oldest ∈ data.colList.getLast?,
      oldest.ikeySeq = ikeySeq ∧ oldest.kbOffset = offset ∨ seq < oldest.beginSeq) :
    (data.insertColumnNode (.fetched seq ttl ikeySeq ivalueSize offset)).2.WellFormed ∧
      (data.insertColumnNode (.fetched seq ttl ikeySeq ivalueSize offset)).2.Below bound := by
  unfold ColumnData.insertColumnNode
  cases last : data.colList.getLast? with
  | none =>
    have isEmpty : data.colList.isEmpty = true := by
      rw [getLast?_eq_none_iff.mp last]
      rfl
    have begins : seq ≤ bound := first isEmpty
    have closed : (fetched seq ttl ikeySeq ivalueSize offset : ColumnNode V).WellFormed := by
      refine ⟨?_, ?_, ?_, fun _ pending => absurd pending stored⟩
      · change seq < ulongMax
        omega
      · change seq ≤ ulongMax
        omega
      intro isDel
      cases isDel
    refine ⟨⟨Chain.nil.cons closed (by simp), rfl⟩, ?_⟩
    intro node mem
    rw [mem_singleton.mp mem]
    exact ⟨begins, Or.inl rfl⟩
  | some oldest =>
    simp only
    split_ifs with samePlace
    · exact ⟨wellFormed, below⟩
    have older : seq < oldest.beginSeq :=
      (later oldest (by rw [last]; exact Option.mem_some_self oldest)).resolve_left samePlace
    have oldestBelow := (below oldest (mem_of_getLast? last)).1
    refine ⟨⟨wellFormed.chain.append_oldest last older rfl stored, ?_⟩, ?_⟩
    · rw [wellFormed.latest]
      cases listed : data.colList with
      | nil => simp [listed] at last
      | cons => rfl
    intro node mem
    rcases mem_append.mp mem with inList | added
    · exact below node inList
    rw [mem_singleton.mp added]
    refine ⟨?_, Or.inr oldestBelow⟩
    change seq ≤ bound
    omega

end Changes

theorem KeyColumns.Valid.step {s next : KeyColumns V} {op : ColumnOp V}
    (valid : s.Valid) (taken : s.step op = some next) (ordinary : s.Ordinary op) :
    next.Valid := by
  cases op with
  | otherKey =>
    rw [← Option.some.inj taken]
    exact ⟨valid.wellFormed.mono (Nat.le_succ _), ordinary⟩
  | updateColumn col ts update force trxn fresh =>
    rw [← Option.some.inj taken]
    refine ⟨?_, ordinary⟩
    have updated := s.user.updated_updateColumn col
      (update.node ts (s.sequenceNumber + 1)) force trxn fresh
    have begins := update.node_beginSeq ts (s.sequenceNumber + 1)
    have kept := updated.wellFormed valid.wellFormed (by rw [begins]; omega)
      (by rw [begins]; exact ordinary) (update.node_endSeq ts _) (update.node_valued ts _)
    rw [begins] at kept
    exact kept
  | insertColumnNode col seq ttl ikeySeq ivalueSize =>
    simp only [KeyColumns.step] at taken
    split_ifs at taken with unstored
    rw [← Option.some.inj taken]
    obtain ⟨first, later⟩ := ordinary
    obtain ⟨wellFormed, below⟩ := valid.wellFormed col
    obtain ⟨inserted, insertedBelow⟩ := wellFormed_insertColumnNode ttl ivalueSize wellFormed
      below valid.small unstored first later
    exact valid.modifyColumn col inserted insertedBelow
  | beginSubmit col colNode =>
    simp only [KeyColumns.step] at taken
    split_ifs at taken with idle
    rw [← Option.some.inj taken]
    exact valid.modifyNode (keepsInterval_beginSubmit idle) col colNode
  | doVerticalMerge col snaps colNode =>
    rw [← Option.some.inj taken]
    obtain ⟨wellFormed, below⟩ := valid.wellFormed col
    exact valid.modifyColumn col (wellFormed.doVerticalMerge snaps colNode)
      (below_doVerticalMerge below wellFormed.chain snaps colNode)
  | updateColumnNode col colNode ikeySeq kbOffset ivalueSize =>
    simp only [KeyColumns.step] at taken
    split_ifs at taken with unsubmitted
    rw [← Option.some.inj taken]
    exact valid.modifyNode (keepsInterval_updateColumnNode unsubmitted kbOffset ivalueSize) col
      colNode
  | dropColumnNode col colNode =>
    rw [← Option.some.inj taken]
    exact valid.modifyNode keepsInterval_dropColumnNode col colNode
  | flushColumn col info split =>
    rw [← Option.some.inj taken]
    obtain ⟨wellFormed, below⟩ := valid.wellFormed col
    exact valid.modifyColumn col (wellFormed_flushColumn wellFormed info col split)
      (below.of_intervals (trimmed_flushNodes info col split _ _ _).intervals)

def KeyColumns.VersionsOrdered (s : KeyColumns V) : Prop :=
  ∀ colId, (s.user.columns colId).VersionsOrdered

/-- A `UserKey` as `AllocUserKey` hands it out.  `UserKeyCleanup` deletes the nodes and leaves the
pointers to the latest ones, and `InitUserKey` does not look at them. -/
def UserKey.allocated (left : Nat → Option Nat) : UserKey V :=
  { (.empty : UserKey V) with columns := fun colId => { latestColNode := left colId } }

/-- In every run on a new key without pointers whose fetched columns carry numbers that this run
gave before those of the versions in memory, every column is ordered in every state. -/
theorem versionsOrdered_of_ordinary {ops : List (ColumnOp V)} {start : Nat}
    {left : Nat → Option Nat} (small : start < ulongMax) (clean : ∀ colId, left colId = none)
    (ordinary : Run.AllMeet KeyColumns.step KeyColumns.Ordinary ops
      { user := .allocated left, sequenceNumber := start }) :
    Run.AllHold KeyColumns.step KeyColumns.VersionsOrdered ops
      { user := .allocated left, sequenceNumber := start } := by
  have isEmpty : (UserKey.allocated left : UserKey V) = .empty := by
    rw [funext clean]
    rfl
  rw [isEmpty] at ordinary ⊢
  apply Run.allHold_of_allMeet KeyColumns.Valid
  · intro _ valid colId
    exact (valid.wellFormed colId).1.versionsOrdered
  · intro _ _ _ valid taken meets
    exact valid.step taken meets
  · exact ⟨UserKey.wellFormed_empty start, small⟩
  · exact ordinary

/-- A put, the fetch of an older version, a delete, the submission of both, and a flush. -/
def fetchedBelowPut : List (ColumnOp Nat) :=
  [.updateColumn 0 0 (.put 7) false {} 0, .insertColumnNode 0 1 0 1088 8 0,
    .updateColumn 0 0 .del false {} 0, .beginSubmit 0 12 1, .doVerticalMerge 0 [11] 12,
    .updateColumnNode 0 12 1089 0 0, .flushColumn 0 (tenSecondTtl 0) false]

theorem fetchedBelowPut_versionsOrdered :
    Run.AllMeet KeyColumns.step KeyColumns.Ordinary fetchedBelowPut
        { user := .allocated fun _ => none, sequenceNumber := 10 } ∧
      Run.AllHold KeyColumns.step KeyColumns.VersionsOrdered fetchedBelowPut
        { user := .allocated fun _ => none, sequenceNumber := 10 } :=
  ⟨by decide +kernel, versionsOrdered_of_ordinary (by decide) (fun _ => rfl) (by decide +kernel)⟩

/-- The first put of a run that began at the number of the last clean close, and then the fetch of
the row below it, which a later run wrote before it crashed and a flush of this run has copied. -/
def fetchedAfterCrash : List (ColumnOp Nat) :=
  [.updateColumn 0 0 (.put 7) false {} 0, .insertColumnNode 0 1000 0 1088 8 0]

/-- The row goes to the back of the list with a number above that of the put.  And on a key from
the pool the pointer of another column is not null, although its list is empty. -/
theorem fetchedAfterCrash_disordered :
    ((Run.exec KeyColumns.step fetchedAfterCrash { sequenceNumber := 10 }).map
        (fun s => (s.user.columns 0).colList.map ColumnNode.interval) =
      some [(11, ulongMax), (1000, 11)] ∧
    ¬ Run.AllHold KeyColumns.step KeyColumns.VersionsOrdered fetchedAfterCrash
        { sequenceNumber := 10 }) ∧
    (Run.exec KeyColumns.step [.updateColumn 0 0 (.put 7) false {} 0]
        { user := .allocated fun _ => some 5, sequenceNumber := 10 }).map
        (fun s => ((s.user.columns 1).colList.isEmpty, (s.user.columns 1).latestColNode)) =
      some (true, some 5) := by
  have lists : (Run.exec KeyColumns.step fetchedAfterCrash { sequenceNumber := 10 }).map
      (fun s => (s.user.columns 0).colList.map interval) = some [(11, ulongMax), (1000, 11)] := by
    decide +kernel
  refine ⟨⟨lists, ?_⟩, by decide +kernel⟩
  intro ordered
  obtain ⟨final, runs, list⟩ := Option.map_eq_some_iff.mp lists
  have descending := ((ordered.final runs) 0).descending
  have begins : (final.user.columns 0).colList.map interval |>.Pairwise
      fun newer older => older.1 < newer.1 := by
    rw [pairwise_map]
    exact descending
  rw [list] at begins
  exact absurd begins (by decide)

end InsDb
