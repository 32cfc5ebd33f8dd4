import Mathlib.Data.List.Nodup
import Mathlib.Data.List.Perm.Basic
import InsDb.Db
import InsDb.Library.Run

/-!
# The list of snapshots

`__CreateSnapshot` shares the newest snapshot if nothing was written since, and puts a new one in
front of the list otherwise.  It holds the lock of the list, but writers do not take that lock, so
the number it compares and the number it gives to the new snapshot can differ.  A snapshot leaves
the list when its last reference is released; a client has one reference for each handle, and each
iterator has one.  Iterators come and go without the lock.
-/

namespace InsDb

open InsDb.Library List

structure SnapshotImpl where
  -- Which object it is.
  id : Nat
  sequence : Nat
  curTime : Nat
  refcount : Int
  -- `iterators_.size()`.
  iterators : Nat
deriving DecidableEq, Repr

inductive RefPhase where
  -- A client has the snapshot.
  | handle
  -- The iterator has counted its reference and is not in `iterators_` yet.
  | opening
  | iterating
  -- The destructor of the iterator has left `iterators_` and not disconnected yet.
  | closing
deriving DecidableEq, Repr

def RefPhase.requested (iterator : Bool) : RefPhase :=
  if iterator then .opening else .handle

theorem RefPhase.requested_ne_iterating (iterator : Bool) :
    RefPhase.requested iterator ≠ .iterating := by
  cases iterator <;> decide

structure SnapshotRef where
  snapshot : Nat
  phase : RefPhase
  sequence : Nat
deriving DecidableEq, Repr

structure SnapInfo where
  cseq : Nat
  exp : Nat
deriving DecidableEq, Repr

structure SnapshotList where
  sequenceNumber : Nat
  -- Newest first.
  snapshots : List SnapshotImpl := []
  -- A thread has the lock of the list and is about to make a new snapshot, for an iterator or not.
  creating : Option Bool := none
  nextId : Nat := 0
  refs : List SnapshotRef := []
deriving DecidableEq, Repr

inductive SnapshotStep where
  -- `GenerateSequenceNumber`.
  | write
  -- `__CreateSnapshot` up to the first read of the sequence number, for a client or an iterator.
  | createSnapshot (iterator : Bool)
  -- The rest, from the second read on.
  | finishCreate (now : Nat)
  -- An iterator on the snapshot of a client.
  | incRefCount (ref : SnapshotRef)
  | pushIterator (ref : SnapshotRef)
  | removeIterator (ref : SnapshotRef)
  -- `__DisconnectSnapshot`.
  | disconnect (ref : SnapshotRef)
deriving DecidableEq, Repr

def SnapshotImpl.addRef (snapshot : SnapshotImpl) (count : Int) : SnapshotImpl :=
  { snapshot with refcount := snapshot.refcount + count }

namespace SnapshotList

variable (s : SnapshotList)

def modify (id : Nat) (change : SnapshotImpl → SnapshotImpl) : List SnapshotImpl :=
  s.snapshots.map fun snapshot => if snapshot.id = id then change snapshot else snapshot

def replaceRef (ref : SnapshotRef) (phase : RefPhase) : List SnapshotRef :=
  { ref with phase := phase } :: s.refs.erase ref

/-- One step.  The lock of the list is free unless a thread is making a snapshot. -/
def step : SnapshotStep → Option SnapshotList
  | .write => some { s with sequenceNumber := s.sequenceNumber + 1 }
  | .createSnapshot iterator =>
    if s.creating.isSome then
      none
    else
      match s.snapshots.head? with
      | some newest =>
        if newest.sequence = s.sequenceNumber then
          some { s with
            snapshots := s.modify newest.id (·.addRef 1)
            refs := ⟨newest.id, .requested iterator, newest.sequence⟩ :: s.refs }
        else
          some { s with creating := some iterator }
      | none => some { s with creating := some iterator }
  | .finishCreate now =>
    match s.creating with
    | some iterator =>
      some { s with
        snapshots := ⟨s.nextId, s.sequenceNumber, now, 1, 0⟩ :: s.snapshots
        creating := none
        nextId := s.nextId + 1
        refs := ⟨s.nextId, .requested iterator, s.sequenceNumber⟩ :: s.refs }
    | none => none
  | .incRefCount ref =>
    if ref ∈ s.refs ∧ ref.phase = .handle then
      some { s with
        snapshots := s.modify ref.snapshot (·.addRef 1)
        refs := { ref with phase := .opening } :: s.refs }
    else
      none
  | .pushIterator ref =>
    if ref ∈ s.refs ∧ ref.phase = .opening then
      some { s with
        snapshots := s.modify ref.snapshot fun snapshot =>
          { snapshot with iterators := snapshot.iterators + 1 }
        refs := s.replaceRef ref .iterating }
    else
      none
  | .removeIterator ref =>
    if ref ∈ s.refs ∧ ref.phase = .iterating then
      some { s with
        snapshots := s.modify ref.snapshot fun snapshot =>
          { snapshot with iterators := snapshot.iterators - 1 }
        refs := s.replaceRef ref .closing }
    else
      none
  | .disconnect ref =>
    if s.creating = none ∧ ref ∈ s.refs ∧
        (ref.phase = .handle ∨ ref.phase = .closing) then
      let released := s.modify ref.snapshot (·.addRef (-1))
      some { s with
        snapshots := released.filter fun snapshot =>
          ¬ (snapshot.id = ref.snapshot ∧ snapshot.refcount ≤ 0 ∧ snapshot.iterators = 0)
        refs := s.refs.erase ref }
    else
      none

/-- `Manifest::GetSnapshotInfo`. -/
def getSnapshotInfo : List SnapInfo :=
  s.snapshots.map fun snapshot => ⟨snapshot.sequence, snapshot.curTime⟩

structure Ordered : Prop where
  descending : s.snapshots.Pairwise fun newer older => older.sequence < newer.sequence
  -- Requests that were answered at one sequence number share an object.
  shared : ∀ first ∈ s.refs, ∀ second ∈ s.refs, first.sequence = second.sequence →
    first.snapshot = second.snapshot
  -- A snapshot is in the list as long as it has a reference, and no longer.
  live : ∀ id, (∃ snapshot ∈ s.snapshots, snapshot.id = id) ↔
    ∃ ref ∈ s.refs, ref.snapshot = id
  info : ∀ seqNum, seqNum ∈ s.getSnapshotInfo.map SnapInfo.cseq ↔
    ∃ ref ∈ s.refs, ref.sequence = seqNum

end SnapshotList

variable (refs : List SnapshotRef)

def refsOf (id : Nat) : Nat :=
  refs.countP fun ref => ref.snapshot = id

def iteratorsOf (id : Nat) : Nat :=
  refs.countP fun ref => ref.snapshot = id ∧ ref.phase = .iterating

structure SnapshotList.Listed (s : SnapshotList) : Prop where
  descending : s.snapshots.Pairwise fun newer older => older.sequence < newer.sequence
  below : ∀ snapshot ∈ s.snapshots, snapshot.sequence ≤ s.sequenceNumber
  -- The thread that makes a snapshot has seen a larger number than that of the newest one.
  passed : s.creating.isSome = true → ∀ snapshot ∈ s.snapshots,
    snapshot.sequence < s.sequenceNumber
  distinct : (s.snapshots.map SnapshotImpl.id).Nodup
  fresh : ∀ snapshot ∈ s.snapshots, snapshot.id < s.nextId
  counted : ∀ snapshot ∈ s.snapshots, snapshot.refcount = refsOf s.refs snapshot.id ∧
    snapshot.iterators = iteratorsOf s.refs snapshot.id

structure SnapshotList.Valid (s : SnapshotList) : Prop extends s.Listed where
  held : ∀ snapshot ∈ s.snapshots, 0 < refsOf s.refs snapshot.id
  known : ∀ ref ∈ s.refs, ∃ snapshot ∈ s.snapshots,
    snapshot.id = ref.snapshot ∧ snapshot.sequence = ref.sequence

theorem exists_of_refsOf {refs : List SnapshotRef} {id : Nat} (some : 0 < refsOf refs id) :
    ∃ ref ∈ refs, ref.snapshot = id := by
  obtain ⟨ref, mem, isRef⟩ := countP_pos_iff.mp some
  exact ⟨ref, mem, of_decide_eq_true isRef⟩

theorem refsOf_pos {refs : List SnapshotRef} {ref : SnapshotRef} (mem : ref ∈ refs) :
    0 < refsOf refs ref.snapshot :=
  countP_pos_iff.mpr ⟨ref, mem, by simp⟩

theorem iteratorsOf_le (id : Nat) : iteratorsOf refs id ≤ refsOf refs id := by
  apply countP_mono_left
  intro _ _ both
  simp only [decide_eq_true_eq] at both ⊢
  exact both.1

namespace SnapshotList

variable {s : SnapshotList}

section

variable (listed : s.Listed) {first second : SnapshotImpl}
  (firstMember : first ∈ s.snapshots) (secondMember : second ∈ s.snapshots)

include listed firstMember secondMember

theorem Listed.eq_of_id (same : first.id = second.id) : first = second :=
  inj_on_of_nodup_map listed.distinct firstMember secondMember same

theorem Listed.eq_of_sequence (same : first.sequence = second.sequence) : first = second := by
  have nodup : (s.snapshots.map SnapshotImpl.sequence).Nodup := by
    rw [List.Nodup, pairwise_map]
    exact listed.descending.imp fun above => Nat.ne_of_gt above
  exact inj_on_of_nodup_map nodup firstMember secondMember same

end

theorem Listed.le_newest (listed : s.Listed) {newest snap : SnapshotImpl}
    (isNewest : s.snapshots.head? = some newest) (mem : snap ∈ s.snapshots) :
    snap.sequence ≤ newest.sequence := by
  obtain ⟨_, list⟩ := head?_eq_some_iff.mp isNewest
  have desc := listed.descending
  rw [list] at mem desc
  rcases mem_cons.mp mem with isFirst | isOlder
  · rw [isFirst]
  · exact Nat.le_of_lt ((pairwise_cons.mp desc).1 snap isOlder)

theorem Valid.ordered (valid : s.Valid) : s.Ordered := by
  refine ⟨valid.descending, ?_, ?_, ?_⟩
  · intro first firstMember second secondMember same
    obtain ⟨left, leftMember, leftId, leftSequence⟩ := valid.known first firstMember
    obtain ⟨right, rightMember, rightId, rightSequence⟩ := valid.known second secondMember
    have sameSnapshot : left = right := by
      apply valid.eq_of_sequence leftMember rightMember
      rw [leftSequence, rightSequence, same]
    rw [← leftId, ← rightId, sameSnapshot]
  · intro _
    constructor
    · intro listed
      obtain ⟨snap, mem, isId⟩ := listed
      rw [← isId]
      exact exists_of_refsOf (valid.held snap mem)
    intro referenced
    obtain ⟨ref, mem, isId⟩ := referenced
    obtain ⟨snap, snapMem, sameId, _⟩ := valid.known ref mem
    exact ⟨snap, snapMem, sameId.trans isId⟩
  intro _
  simp only [getSnapshotInfo, map_map, mem_map, Function.comp_apply]
  constructor
  · intro listed
    obtain ⟨snap, mem, isSeq⟩ := listed
    obtain ⟨ref, refMember, isRef⟩ := exists_of_refsOf (valid.held snap mem)
    obtain ⟨_, otherMem, sameId, sameSequence⟩ := valid.known ref refMember
    have same := valid.eq_of_id otherMem mem (sameId.trans isRef)
    refine ⟨ref, refMember, ?_⟩
    rw [← sameSequence, same]
    exact isSeq
  · intro referenced
    obtain ⟨ref, mem, isSeq⟩ := referenced
    obtain ⟨snap, snapMem, _, sameSequence⟩ := valid.known ref mem
    exact ⟨snap, snapMem, sameSequence.trans isSeq⟩

structure Exchange (pre post : List SnapshotRef) (id : Nat)
    (removed added kept : List SnapshotRef) : Prop where
  before : pre.Perm (removed ++ kept)
  after : post.Perm (added ++ kept)
  removed : ∀ ref ∈ removed, ref.snapshot = id
  added : ∀ ref ∈ added, ref.snapshot = id

section Exchange

variable {pre post removed added kept : List SnapshotRef} {id : Nat}

section

variable (exchange : Exchange pre post id removed added kept)

include exchange

theorem Exchange.refsOf_same :
    refsOf post id + removed.length = refsOf pre id + added.length := by
  have all : ∀ refs : List SnapshotRef, (∀ ref ∈ refs, ref.snapshot = id) →
      refs.countP (fun ref => ref.snapshot = id) = refs.length := by
    intro _ same
    rw [countP_eq_length]
    intro ref mem
    exact decide_eq_true (same ref mem)
  have afterCount := exchange.after.countP_eq fun ref => ref.snapshot = id
  have beforeCount := exchange.before.countP_eq fun ref => ref.snapshot = id
  rw [countP_append, all added exchange.added] at afterCount
  rw [countP_append, all removed exchange.removed] at beforeCount
  unfold refsOf
  omega

theorem Exchange.iteratorsOf_same :
    iteratorsOf post id + removed.countP (fun ref => ref.phase = .iterating) =
      iteratorsOf pre id + added.countP fun ref => ref.phase = .iterating := by
  have all : ∀ refs : List SnapshotRef, (∀ ref ∈ refs, ref.snapshot = id) →
      refs.countP (fun ref => ref.snapshot = id ∧ ref.phase = .iterating) =
        refs.countP fun ref => ref.phase = .iterating := by
    intro _ same
    apply countP_congr
    intro ref mem
    simp [same ref mem]
  have afterCount := exchange.after.countP_eq fun ref =>
    ref.snapshot = id ∧ ref.phase = .iterating
  have beforeCount := exchange.before.countP_eq fun ref =>
    ref.snapshot = id ∧ ref.phase = .iterating
  rw [countP_append, all added exchange.added] at afterCount
  rw [countP_append, all removed exchange.removed] at beforeCount
  unfold iteratorsOf
  omega

theorem Exchange.other {other : Nat} (differs : other ≠ id) :
    refsOf post other = refsOf pre other ∧
      iteratorsOf post other = iteratorsOf pre other := by
  have none : ∀ refs : List SnapshotRef, (∀ ref ∈ refs, ref.snapshot = id) →
      refsOf refs other = 0 := by
    intro refs same
    apply countP_eq_zero.mpr
    intro ref mem
    simp [same ref mem, Ne.symm differs]
  have noIterator : ∀ refs : List SnapshotRef, (∀ ref ∈ refs, ref.snapshot = id) →
      iteratorsOf refs other = 0 := by
    intro refs same
    have bounded := iteratorsOf_le refs other
    rw [none refs same] at bounded
    omega
  constructor
  · have afterCount := exchange.after.countP_eq fun ref => ref.snapshot = other
    have beforeCount := exchange.before.countP_eq fun ref => ref.snapshot = other
    have noneAdded := none added exchange.added
    have noneRemoved := none removed exchange.removed
    rw [countP_append] at afterCount beforeCount
    unfold refsOf at noneAdded noneRemoved ⊢
    omega
  have afterCount := exchange.after.countP_eq fun ref =>
    ref.snapshot = other ∧ ref.phase = .iterating
  have beforeCount := exchange.before.countP_eq fun ref =>
    ref.snapshot = other ∧ ref.phase = .iterating
  have noneAdded := noIterator added exchange.added
  have noneRemoved := noIterator removed exchange.removed
  rw [countP_append] at afterCount beforeCount
  unfold iteratorsOf at noneAdded noneRemoved ⊢
  omega

end

end Exchange

structure Recounts (id : Nat) (removed added : List SnapshotRef)
    (change : SnapshotImpl → SnapshotImpl) (snapshots : List SnapshotImpl) : Prop where
  sameId : ∀ snapshot, (change snapshot).id = snapshot.id
  sameSequence : ∀ snapshot, (change snapshot).sequence = snapshot.sequence
  refcount : ∀ snapshot ∈ snapshots, snapshot.id = id →
    (change snapshot).refcount + removed.length = snapshot.refcount + added.length
  iterators : ∀ snapshot ∈ snapshots, snapshot.id = id →
    (change snapshot).iterators + removed.countP (fun ref => ref.phase = .iterating) =
      snapshot.iterators + added.countP fun ref => ref.phase = .iterating

theorem Listed.sublist (listed : s.Listed) {snaps : List SnapshotImpl}
    (shorter : snaps.Sublist s.snapshots) :
    ({ s with snapshots := snaps } : SnapshotList).Listed :=
  ⟨listed.descending.sublist shorter, fun snap mem => listed.below snap
      (shorter.subset mem),
    fun creating snap mem => listed.passed creating snap (shorter.subset mem),
    listed.distinct.sublist (shorter.map _),
    fun snap mem => listed.fresh snap (shorter.subset mem),
    fun snap mem => listed.counted snap (shorter.subset mem)⟩

section Rework

variable {refs removed added kept : List SnapshotRef} {id : Nat}
  {change : SnapshotImpl → SnapshotImpl}
  (exchange : Exchange s.refs refs id removed added kept)
  (recounts : Recounts id removed added change s.snapshots)

theorem modify_map {Field : Type} {field : SnapshotImpl → Field}
    (kept : ∀ snap, field (change snap) = field snap) :
    (s.modify id change).map field = s.snapshots.map field := by
  unfold modify
  rw [map_map]
  apply map_congr_left
  intro snap _
  simp only [Function.comp_apply]
  split_ifs
  · exact kept snap
  · rfl

include exchange recounts

theorem Listed.rework (listed : s.Listed) :
    ({ s with snapshots := s.modify id change, refs := refs } : SnapshotList).Listed := by
  have sequences := @modify_map s id change Nat SnapshotImpl.sequence recounts.sameSequence
  have ids := @modify_map s id change Nat SnapshotImpl.id recounts.sameId
  have bounded : ∀ bound, (∀ snap ∈ s.snapshots, snap.sequence ≤ bound) →
      ∀ snap ∈ s.modify id change, snap.sequence ≤ bound := by
    intro _ all snap mem
    have inSequences : snap.sequence ∈ s.snapshots.map SnapshotImpl.sequence := by
      rw [← sequences]
      exact mem_map_of_mem mem
    obtain ⟨old, oldMem, same⟩ := mem_map.mp inSequences
    rw [← same]
    exact all old oldMem
  refine ⟨?_, bounded _ listed.below, ?_, ?_, ?_, ?_⟩
  · have ordered : (s.snapshots.map SnapshotImpl.sequence).Pairwise (· > ·) := by
      rw [pairwise_map]
      exact listed.descending
    rw [← sequences, pairwise_map] at ordered
    exact ordered
  · intro creating snap mem
    have above := listed.passed creating
    have positive : ∀ old ∈ s.snapshots, old.sequence ≤ s.sequenceNumber - 1 := by
      intro old oldMem
      have strictly := above old oldMem
      omega
    have atMost := bounded _ positive snap mem
    obtain ⟨old, oldMem, _⟩ := mem_map.mp mem
    have strictly := above old oldMem
    change snap.sequence < s.sequenceNumber
    omega
  · rw [ids]
    exact listed.distinct
  · intro _ mem
    obtain ⟨old, oldMem, same⟩ := mem_map.mp mem
    rw [← same]
    split_ifs
    · rw [recounts.sameId]
      exact listed.fresh old oldMem
    · exact listed.fresh old oldMem
  · intro _ mem
    obtain ⟨old, oldMem, same⟩ := mem_map.mp mem
    obtain ⟨refcount, iterators⟩ := listed.counted old oldMem
    rw [← same]
    split_ifs with isId
    · have refsSame := exchange.refsOf_same
      have iteratorsSame := exchange.iteratorsOf_same
      have countChange := recounts.refcount old oldMem isId
      have iteratorChange := recounts.iterators old oldMem isId
      rw [recounts.sameId]
      rw [isId] at refcount iterators ⊢
      constructor
      · change (change old).refcount = refsOf refs id
        omega
      change (change old).iterators = iteratorsOf refs id
      omega
    · obtain ⟨sameRefs, sameIterators⟩ := exchange.other isId
      exact ⟨refcount.trans (congrArg Int.ofNat sameRefs.symm), iterators.trans sameIterators.symm⟩

theorem Valid.known_kept (valid : s.Valid) {ref : SnapshotRef} (mem : ref ∈ kept) :
    ∃ snap ∈ s.modify id change,
      snap.id = ref.snapshot ∧ snap.sequence = ref.sequence := by
  have inRefs : ref ∈ s.refs := exchange.before.mem_iff.mpr (mem_append_right _ mem)
  obtain ⟨_, snapMem, sameId, sameSequence⟩ := valid.known ref inRefs
  refine ⟨_, mem_map_of_mem snapMem, ?_⟩
  split_ifs
  · rw [recounts.sameId, recounts.sameSequence]
    exact ⟨sameId, sameSequence⟩
  · exact ⟨sameId, sameSequence⟩

theorem Valid.rework (valid : s.Valid) (held : 0 < refsOf refs id)
    (known : ∀ ref ∈ added, ∃ snap ∈ s.snapshots,
      snap.id = id ∧ snap.sequence = ref.sequence) :
    ({ s with snapshots := s.modify id change, refs := refs } : SnapshotList).Valid := by
  refine ⟨valid.toListed.rework exchange recounts, ?_, ?_⟩
  · intro snap mem
    obtain ⟨old, oldMem, same⟩ := mem_map.mp mem
    rw [← same]
    split_ifs with isId
    · rw [recounts.sameId, isId]
      exact held
    rw [(exchange.other isId).1]
    exact valid.held old oldMem
  intro ref mem
  rcases mem_append.mp (exchange.after.mem_iff.mp mem) with isAdded | isKept
  · obtain ⟨snap, snapMem, isId, sameSequence⟩ := known ref isAdded
    refine ⟨change snap, ?_, ?_, ?_⟩
    · refine mem_map.mpr ⟨snap, snapMem, ?_⟩
      rw [if_pos isId]
    · rw [recounts.sameId, isId, exchange.added ref isAdded]
    · rw [recounts.sameSequence, sameSequence]
  · exact valid.known_kept exchange recounts isKept

end Rework

theorem Valid.addRef (valid : s.Valid) {snap : SnapshotImpl}
    (mem : snap ∈ s.snapshots) {phase : RefPhase} (notIterating : phase ≠ .iterating) :
    ({ s with
      snapshots := s.modify snap.id (·.addRef 1)
      refs := ⟨snap.id, phase, snap.sequence⟩ :: s.refs } : SnapshotList).Valid := by
  have exchange : Exchange s.refs (⟨snap.id, phase, snap.sequence⟩ :: s.refs)
      snap.id [] [⟨snap.id, phase, snap.sequence⟩] s.refs :=
    ⟨List.Perm.refl _, List.Perm.refl _, by simp, by simp⟩
  apply valid.rework exchange
  · refine ⟨fun _ => rfl, fun _ => rfl, ?_, ?_⟩
    · intro _ _ _
      simp [SnapshotImpl.addRef]
    intro _ _ _
    simp [SnapshotImpl.addRef, notIterating]
  · exact refsOf_pos mem_cons_self
  intro _ isRef
  rw [mem_singleton.mp isRef]
  exact ⟨snap, mem, rfl, rfl⟩

section

variable (valid : s.Valid) {ref : SnapshotRef} (mem : ref ∈ s.refs)

include valid mem

theorem Valid.replaceRef {phase : RefPhase} {change : SnapshotImpl → SnapshotImpl}
    (recounts : Recounts ref.snapshot [ref] [{ ref with phase := phase }] change s.snapshots) :
    ({ s with
      snapshots := s.modify ref.snapshot change
      refs := s.replaceRef ref phase } : SnapshotList).Valid := by
  have exchange : Exchange s.refs (s.replaceRef ref phase) ref.snapshot [ref]
      [{ ref with phase := phase }] (s.refs.erase ref) :=
    ⟨perm_cons_erase mem, List.Perm.refl _, by simp, by simp⟩
  apply valid.rework exchange recounts
  · exact @refsOf_pos (s.replaceRef ref phase) { ref with phase := phase } mem_cons_self
  intro _ isOther
  rw [mem_singleton.mp isOther]
  exact valid.known ref mem

theorem Valid.pushIterator (opening : ref.phase = .opening) : ({ s with
      snapshots := s.modify ref.snapshot fun snap =>
        { snap with iterators := snap.iterators + 1 }
      refs := s.replaceRef ref .iterating } : SnapshotList).Valid := by
  apply valid.replaceRef mem
  refine ⟨fun _ => rfl, fun _ => rfl, ?_, ?_⟩
  · intro _ _ _
    simp
  intro _ _ _
  simp [opening]

theorem Valid.removeIterator (iterating : ref.phase = .iterating) : ({ s with
      snapshots := s.modify ref.snapshot fun snap =>
        { snap with iterators := snap.iterators - 1 }
      refs := s.replaceRef ref .closing } : SnapshotList).Valid := by
  apply valid.replaceRef mem
  refine ⟨fun _ => rfl, fun _ => rfl, ?_, ?_⟩
  · intro snap _ _
    simp
  intro snap snapMem isId
  have counted := (valid.counted snap snapMem).2
  have positive : 0 < iteratorsOf s.refs snap.id :=
    countP_pos_iff.mpr ⟨ref, mem, by simp [isId, iterating]⟩
  simp only [iterating, countP_singleton, decide_true, if_true, reduceCtorEq, decide_false,
    Bool.false_eq_true, if_false]
  omega

theorem Valid.disconnect (notIterating : ref.phase ≠ .iterating) : ({ s with
      snapshots := (s.modify ref.snapshot (·.addRef (-1))).filter fun snap =>
        ¬ (snap.id = ref.snapshot ∧ snap.refcount ≤ 0 ∧ snap.iterators = 0)
      refs := s.refs.erase ref } : SnapshotList).Valid := by
  have exchange : Exchange s.refs (s.refs.erase ref) ref.snapshot [ref] [] (s.refs.erase ref) :=
    ⟨perm_cons_erase mem, List.Perm.refl _, by simp, by simp⟩
  have recounts : Recounts ref.snapshot [ref] [] (·.addRef (-1)) s.snapshots := by
    refine ⟨fun _ => rfl, fun _ => rfl, ?_, ?_⟩
    · intro snap _ _
      simp [SnapshotImpl.addRef]
    intro snap _ _
    simp [SnapshotImpl.addRef, notIterating]
  have released := valid.toListed.rework exchange recounts
  -- The test of `__DisconnectSnapshot` says that no reference is left.
  have unreferenced : ∀ snap ∈ s.modify ref.snapshot (·.addRef (-1)),
      (snap.refcount ≤ 0 ∧ snap.iterators = 0) ↔
        refsOf (s.refs.erase ref) snap.id = 0 := by
    intro snap inList
    obtain ⟨refcount, iterators⟩ := released.counted snap inList
    change snap.refcount = (refsOf (s.refs.erase ref) snap.id : Int) at refcount
    change snap.iterators = iteratorsOf (s.refs.erase ref) snap.id at iterators
    have bounded := iteratorsOf_le (s.refs.erase ref) snap.id
    omega
  refine ⟨released.sublist filter_sublist, ?_, ?_⟩
  · intro snap inList
    obtain ⟨inModified, stays⟩ := mem_filter.mp inList
    obtain ⟨old, oldMem, same⟩ := mem_map.mp inModified
    by_cases isId : snap.id = ref.snapshot
    · rw [Nat.pos_iff_ne_zero, Ne, ← unreferenced snap inModified]
      intro last
      rw [decide_eq_true_eq] at stays
      exact stays ⟨isId, last⟩
    rw [(exchange.other isId).1]
    have sameId : snap.id = old.id := by
      rw [← same]
      split_ifs <;> rfl
    rw [sameId]
    exact valid.held old oldMem
  · intro _ otherMem
    obtain ⟨snap, inModified, sameId, sameSequence⟩ :=
      valid.known_kept exchange recounts otherMem
    refine ⟨snap, mem_filter.mpr ⟨inModified, ?_⟩, sameId, sameSequence⟩
    rw [decide_eq_true_eq]
    intro last
    have positive := refsOf_pos otherMem
    rw [← sameId, (unreferenced snap inModified).mp last.2] at positive
    exact absurd positive (Nat.lt_irrefl 0)

end

theorem Valid.finishCreate (valid : s.Valid) (creating : s.creating.isSome = true)
    {phase : RefPhase} (notIterating : phase ≠ .iterating) (now : Nat) :
    ({ s with
      snapshots := ⟨s.nextId, s.sequenceNumber, now, 1, 0⟩ :: s.snapshots
      creating := none
      nextId := s.nextId + 1
      refs := ⟨s.nextId, phase, s.sequenceNumber⟩ :: s.refs } :
      SnapshotList).Valid := by
  have unknown : ∀ ref ∈ s.refs, ref.snapshot ≠ s.nextId := by
    intro ref mem isNew
    obtain ⟨snap, snapMem, sameId, _⟩ := valid.known ref mem
    have older := valid.fresh snap snapMem
    omega
  have noneBefore : refsOf s.refs s.nextId = 0 := by
    apply countP_eq_zero.mpr
    intro ref mem
    simp [unknown ref mem]
  have noIterator : iteratorsOf s.refs s.nextId = 0 := by
    have bounded := iteratorsOf_le s.refs s.nextId
    omega
  have exchange : Exchange s.refs (⟨s.nextId, phase, s.sequenceNumber⟩ :: s.refs) s.nextId []
      [⟨s.nextId, phase, s.sequenceNumber⟩] s.refs :=
    ⟨List.Perm.refl _, List.Perm.refl _, by simp, by simp⟩
  have others : ∀ snap ∈ s.snapshots, snap.id ≠ s.nextId := by
    intro snap mem
    exact Nat.ne_of_lt (valid.fresh snap mem)
  refine ⟨⟨?_, ?_, ?_, ?_, ?_, ?_⟩, ?_, ?_⟩
  · exact pairwise_cons.mpr ⟨valid.passed creating, valid.descending⟩
  · intro snap mem
    rcases mem_cons.mp mem with isNew | isOld
    · rw [isNew]
    · exact valid.below snap isOld
  · intro none
    cases none
  · refine nodup_cons.mpr ⟨?_, valid.distinct⟩
    intro mem
    obtain ⟨snap, snapMem, sameId⟩ := mem_map.mp mem
    exact others snap snapMem sameId
  · intro snap mem
    rcases mem_cons.mp mem with isNew | isOld
    · rw [isNew]
      exact Nat.lt_succ_self _
    · exact Nat.lt_succ_of_lt (valid.fresh snap isOld)
  · intro snap mem
    rcases mem_cons.mp mem with isNew | isOld
    · have refsSame := exchange.refsOf_same
      have iteratorsSame := exchange.iteratorsOf_same
      simp only [length_nil, length_cons, countP_nil, countP_singleton,
        notIterating, decide_false, Bool.false_eq_true, if_false] at refsSame iteratorsSame
      rw [isNew]
      constructor
      · change (1 : Int) = refsOf (⟨s.nextId, phase, s.sequenceNumber⟩ :: s.refs) s.nextId
        omega
      change 0 = iteratorsOf (⟨s.nextId, phase, s.sequenceNumber⟩ :: s.refs) s.nextId
      omega
    · obtain ⟨refcount, iterators⟩ := valid.counted snap isOld
      obtain ⟨sameRefs, sameIterators⟩ := exchange.other (others snap isOld)
      exact ⟨refcount.trans (congrArg Int.ofNat sameRefs.symm), iterators.trans sameIterators.symm⟩
  · intro snap mem
    rcases mem_cons.mp mem with isNew | isOld
    · rw [isNew]
      exact refsOf_pos mem_cons_self
    rw [(exchange.other (others snap isOld)).1]
    exact valid.held snap isOld
  · intro ref mem
    rcases mem_cons.mp mem with isNew | isOld
    · rw [isNew]
      exact ⟨_, mem_cons_self, rfl, rfl⟩
    obtain ⟨snap, snapMem, known⟩ := valid.known ref isOld
    exact ⟨snap, mem_cons_of_mem _ snapMem, known⟩

theorem Valid.step {next : SnapshotList} {action : SnapshotStep} (valid : s.Valid)
    (taken : s.step action = some next) : next.Valid := by
  cases action with
  | write =>
    rw [← Option.some.inj taken]
    refine ⟨⟨valid.descending, ?_, ?_, valid.distinct, valid.fresh, valid.counted⟩, valid.held,
      valid.known⟩
    · intro snap mem
      exact Nat.le_succ_of_le (valid.below snap mem)
    intro creating snap mem
    exact Nat.lt_succ_of_lt (valid.passed creating snap mem)
  | createSnapshot iterator =>
    simp only [SnapshotList.step] at taken
    split_ifs at taken with locked
    cases newest : s.snapshots.head? with
    | none =>
      simp only [newest] at taken
      rw [← Option.some.inj taken]
      refine ⟨⟨valid.descending, valid.below, ?_, valid.distinct, valid.fresh, valid.counted⟩,
        valid.held, valid.known⟩
      intro _ snap mem
      rw [head?_eq_none_iff.mp newest] at mem
      cases mem
    | some snap =>
      have mem := mem_of_head? newest
      simp only [newest] at taken
      split_ifs at taken with same
      · rw [← Option.some.inj taken]
        exact valid.addRef mem (RefPhase.requested_ne_iterating iterator)
      rw [← Option.some.inj taken]
      refine ⟨⟨valid.descending, valid.below, ?_, valid.distinct, valid.fresh,
        valid.counted⟩, valid.held, valid.known⟩
      intro _ other otherMem
      have belowNewest := valid.le_newest newest otherMem
      have below := valid.below snap mem
      change other.sequence < s.sequenceNumber
      omega
  | finishCreate now =>
    simp only [SnapshotList.step] at taken
    cases creating : s.creating with
    | none =>
      rw [creating] at taken
      cases taken
    | some iterator =>
      simp only [creating] at taken
      rw [← Option.some.inj taken]
      exact valid.finishCreate (by rw [creating]; rfl)
        (RefPhase.requested_ne_iterating iterator) now
  | incRefCount ref =>
    simp only [SnapshotList.step] at taken
    split_ifs at taken with accepted
    rw [← Option.some.inj taken]
    obtain ⟨_, mem, sameId, sameSequence⟩ := valid.known ref accepted.1
    have added := valid.addRef mem (RefPhase.requested_ne_iterating true)
    rw [sameId, sameSequence] at added
    exact added
  | pushIterator =>
    simp only [SnapshotList.step] at taken
    split_ifs at taken with accepted
    rw [← Option.some.inj taken]
    exact valid.pushIterator accepted.1 accepted.2
  | removeIterator =>
    simp only [SnapshotList.step] at taken
    split_ifs at taken with accepted
    rw [← Option.some.inj taken]
    exact valid.removeIterator accepted.1 accepted.2
  | disconnect =>
    simp only [SnapshotList.step] at taken
    split_ifs at taken with accepted
    obtain ⟨_, mem, phase⟩ := accepted
    rw [← Option.some.inj taken]
    apply valid.disconnect mem
    intro iterating
    rw [iterating] at phase
    rcases phase with isHandle | isClosing
    · cases isHandle
    · cases isClosing

end SnapshotList

def Snapshot.info (snapshot : Snapshot) : SnapInfo :=
  ⟨snapshot.seqNum, snapshot.time⟩

theorem createSnapshot_info {K V : Type} {s : SnapshotList} {db : Db K V}
    (sameInfo : s.getSnapshotInfo = db.snapshots.map Snapshot.info)
    (sameSequence : s.sequenceNumber = db.sequenceNumber) (unlocked : s.creating = none)
    (iterator : Bool) :
    ∃ rq, (rq = [.createSnapshot iterator] ∨
        rq = [.createSnapshot iterator, .finishCreate db.now]) ∧
      (Run.exec SnapshotList.step rq s).map SnapshotList.getSnapshotInfo =
        some (db.createSnapshot.2.snapshots.map Snapshot.info) := by
  unfold SnapshotList.getSnapshotInfo at sameInfo
  cases newest : s.snapshots with
  | nil =>
    have noSnapshot : db.snapshots = [] := by
      rw [newest] at sameInfo
      exact map_eq_nil_iff.mp sameInfo.symm
    refine ⟨_, Or.inr rfl, ?_⟩
    simp [Run.exec, SnapshotList.step, unlocked, newest, SnapshotList.getSnapshotInfo,
      Db.createSnapshot, noSnapshot, Snapshot.info, sameSequence]
  | cons first =>
    rw [newest, map_cons] at sameInfo
    obtain ⟨snap, _, list, isFirst, isRest⟩ := map_eq_cons_iff.mp sameInfo.symm
    have sameFirst : snap.seqNum = first.sequence := congrArg SnapInfo.cseq isFirst
    by_cases current : first.sequence = s.sequenceNumber
    · refine ⟨_, Or.inl rfl, ?_⟩
      have shared : snap.seqNum = db.sequenceNumber := by
        rw [sameFirst, current, sameSequence]
      have views : ∀ snaps : List SnapshotImpl, (snaps.map fun other =>
          if other.id = first.id then other.addRef 1 else other).map
            (fun other => (⟨other.sequence, other.curTime⟩ : SnapInfo)) =
          snaps.map fun other => ⟨other.sequence, other.curTime⟩ := by
        intro _
        rw [map_map]
        apply map_congr_left
        intro _ _
        simp only [Function.comp_apply]
        split_ifs <;> rfl
      simp only [Run.exec, SnapshotList.step, unlocked, newest, current, Option.isSome_none,
        Bool.false_eq_true, if_false, head?_cons, if_true, Option.bind_some,
        Option.map_some, SnapshotList.getSnapshotInfo, SnapshotList.modify, views,
        Db.createSnapshot, list, shared]
      rw [map_cons, map_cons, isFirst, isRest]
    · refine ⟨_, Or.inr rfl, ?_⟩
      have stale : ¬ snap.seqNum = db.sequenceNumber := by
        rw [sameFirst, ← sameSequence]
        exact current
      simp only [Run.exec, SnapshotList.step, unlocked, newest, current, Option.isSome_none,
        Bool.false_eq_true, if_false, head?_cons, Option.bind_some, Option.map_some,
        SnapshotList.getSnapshotInfo, Db.createSnapshot, list, stale, map_cons]
      rw [isFirst, isRest, sameSequence]
      rfl

/-- In every interleaving of requests, releases and writes, the list is in order, requests at one
sequence number share a snapshot, a snapshot is listed exactly as long as it has a reference, and
`GetSnapshotInfo` lists the numbers of the live snapshots. -/
theorem snapshotList_ordered (start : Nat) (actions : List SnapshotStep) :
    Run.AllHold SnapshotList.step SnapshotList.Ordered actions { sequenceNumber := start } := by
  apply Run.allHold_of_invariant SnapshotList.Valid
  · intro _ valid
    exact valid.ordered
  · intro _ _ _ valid taken
    exact valid.step taken
  refine ⟨⟨List.Pairwise.nil, ?_, ?_, nodup_nil, ?_, ?_⟩, ?_, ?_⟩
  · intro snapshot member
    cases member
  · intro creating
    cases creating
  · intro snapshot member
    cases member
  · intro _ member
    cases member
  · intro _ member
    cases member
  intro _ member
  cases member

end InsDb
