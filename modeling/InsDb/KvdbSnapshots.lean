import InsDb.Library.Run
import Mathlib.Data.Finset.Lattice.Fold
import Mathlib.Data.List.TakeWhile
import Mathlib.Order.Fin.Basic

/-!
# The snapshot list of kvdb

`GetSnapshotImpl` takes the snapshot of insdb before it locks the mutex of its own list, so
two calls can append in the other order than their sequence numbers.  `GetAll` stops at the
first number above its bound.
-/

namespace InsDb.KvdbSnapshots

open Library.Run List

abbrev SequenceNumber := Fin (2 ^ 56)

def kMaxSequenceNumber : SequenceNumber := Fin.last (2 ^ 56 - 1)

/-- kvdb's `SnapshotImpl`. -/
structure KvdbSnapshot where
  number : SequenceNumber
  isWriteConflictBoundary : Bool

structure Snapshots where
  /-- The sequence number of insdb. -/
  sequence : SequenceNumber := 0
  /-- The objects that the calls of `GetSnapshotImpl` allocate, by their address. -/
  object : Nat → KvdbSnapshot := fun _ => ⟨0, false⟩
  /-- The objects whose call has the snapshot of insdb and waits for the mutex. -/
  taken : Finset Nat := ∅
  /-- The linked list, from the oldest entry to the newest. -/
  list : List Nat := []
  /-- What callers hold: handed out and not released.  The code keeps no such record. -/
  live : Finset Nat := ∅

inductive Action where
  | write
  | takeInner (address : Nat) (isWriteConflictBoundary : Bool)
  | new (address : Nat)
  | releaseSnapshot (address : Nat)

def step (s : Snapshots) : Action → Option Snapshots
  | .write =>
    if s.sequence < kMaxSequenceNumber then
      some { s with sequence := s.sequence + 1 }
    else none
  | .takeInner address boundary =>
    -- `new SnapshotImpl` gives no address that is in use
    if address ∈ s.taken ∪ s.live then none
    else some { s with
      object := Function.update s.object address ⟨s.sequence, boundary⟩
      taken := insert address s.taken }
  | .new address =>
    if address ∈ s.taken then
      some { s with
        taken := s.taken.erase address
        list := s.list ++ [address]
        live := insert address s.live }
    else none
  | .releaseSnapshot address =>
    if address ∈ s.live then
      some { s with list := s.list.erase address, live := s.live.erase address }
    else none

def older (oldest : SequenceNumber) (snapshot : KvdbSnapshot) : SequenceNumber :=
  if oldest = kMaxSequenceNumber ∧ snapshot.isWriteConflictBoundary = true then snapshot.number
  else oldest

/-- The loop of `SnapshotList::GetAll`, with the numbers and the oldest write-conflict
snapshot collected so far. -/
def getAllFrom (maxSeq : SequenceNumber) (object : Nat → KvdbSnapshot) :
    List Nat → List SequenceNumber → SequenceNumber → List SequenceNumber × SequenceNumber
  | [], ret, oldest => (ret, oldest)
  | address :: rest, ret, oldest =>
    if (object address).number > maxSeq then (ret, oldest)
    else
      getAllFrom maxSeq object rest (ret ++ [(object address).number])
        (older oldest (object address))

def Snapshots.getAll (s : Snapshots) (maxSeq : SequenceNumber) :
    List SequenceNumber × SequenceNumber :=
  getAllFrom maxSeq s.object s.list [] kMaxSequenceNumber

/-- What `GetAll` has to return, in terms of the snapshots that callers hold. -/
structure Snapshots.ListsLive (s : Snapshots) (maxSeq : SequenceNumber) : Prop where
  ascending : (s.getAll maxSeq).1.Pairwise (· ≤ ·)
  complete : ((s.getAll maxSeq).1 : Multiset SequenceNumber) =
    (s.live.filter fun held => (s.object held).number ≤ maxSeq).val.map (s.object · |>.number)
  oldest : (s.getAll maxSeq).2 =
    (s.live.filter fun held => (s.object held).number ≤ maxSeq ∧
      (s.object held).isWriteConflictBoundary = true).inf (s.object · |>.number)

/-- `New` appends no snapshot behind a live one with a larger number. -/
def AppendsInOrder (s : Snapshots) : Action → Prop
  | .new address => ∀ held ∈ s.live, (s.object held).number ≤ (s.object address).number
  | _ => True

/-- The list holds every live snapshot once. -/
structure Snapshots.Holds (s : Snapshots) : Prop where
  nodup : s.list.Nodup
  members : s.list.toFinset = s.live
  waiting : Disjoint s.taken s.live

def Snapshots.Sorted (s : Snapshots) : Prop :=
  s.list.Pairwise fun earlier later => (s.object earlier).number ≤ (s.object later).number

section Lists

variable {maxSeq : SequenceNumber} {object : Nat → KvdbSnapshot} {list : List Nat}

theorem getAllFrom_eq (ret : List SequenceNumber) (oldest : SequenceNumber) :
    getAllFrom maxSeq object list ret oldest =
      (ret ++ (list.takeWhile fun held => (object held).number ≤ maxSeq).map (object · |>.number),
        (list.takeWhile fun held => (object held).number ≤ maxSeq).foldl
          (fun least held => older least (object held)) oldest) := by
  induction list generalizing ret oldest with
  | nil => simp [getAllFrom]
  | cons held rest ih =>
    by_cases above : (object held).number > maxSeq
    · simp [getAllFrom, above, not_le.mpr above]
    simp [getAllFrom, above, ih, not_lt.mp above]

theorem takeWhile_eq_filter
    (sorted : list.Pairwise fun earlier later => (object earlier).number ≤ (object later).number) :
    list.takeWhile (fun held => (object held).number ≤ maxSeq) =
      list.filter fun held => (object held).number ≤ maxSeq := by
  induction list with
  | nil => rfl
  | cons held rest ih =>
    obtain ⟨first, sorted⟩ := pairwise_cons.mp sorted
    by_cases within : (object held).number ≤ maxSeq
    · simp [within, ih sorted]
    have beyond : ∀ later ∈ rest, ¬ (object later).number ≤ maxSeq :=
      fun later inRest bound => within ((first later inRest).trans bound)
    simpa [within] using beyond

/-- Over snapshots in order the first write-conflict one is the smallest. -/
theorem foldl_older
    (sorted : list.Pairwise fun earlier later => (object earlier).number ≤ (object later).number)
    (oldest : SequenceNumber) :
    list.foldl (fun least held => older least (object held)) oldest =
      if oldest = kMaxSequenceNumber then
        (list.toFinset.filter fun held => (object held).isWriteConflictBoundary = true).inf
          (object · |>.number)
      else oldest := by
  induction list generalizing oldest with
  | nil =>
    have top : (⊤ : SequenceNumber) = kMaxSequenceNumber := rfl
    simp [top]
  | cons held rest ih =>
    obtain ⟨first, sorted⟩ := pairwise_cons.mp sorted
    rw [foldl_cons, ih sorted, older, toFinset_cons, Finset.filter_insert]
    by_cases boundary : (object held).isWriteConflictBoundary
    · have least : (object held).number ≤
          (rest.toFinset.filter fun later => (object later).isWriteConflictBoundary = true).inf
            (object · |>.number) :=
        Finset.le_inf fun later isLater =>
          first later (mem_toFinset.mp (Finset.mem_filter.mp isLater).1)
      have largest := Fin.le_last (n := 2 ^ 56 - 1)
      simp only [boundary, and_true, if_true, Finset.inf_insert, inf_eq_left.mpr least]
      split_ifs with unset last
      · exact le_antisymm (last ▸ largest _) least
      · rfl
      · rfl
    simp [boundary]

end Lists

namespace Snapshots

variable {s next : Snapshots} {action : Action}

theorem listsLive_of_sorted (holds : s.Holds) (sorted : s.Sorted) (maxSeq : SequenceNumber) :
    s.ListsLive maxSeq := by
  have loop : s.getAll maxSeq = _ := getAllFrom_eq [] kMaxSequenceNumber
  rw [takeWhile_eq_filter sorted, nil_append] at loop
  have kept : (s.list.filter fun held => (s.object held).number ≤ maxSeq).toFinset =
      s.live.filter fun held => (s.object held).number ≤ maxSeq := by
    rw [toFinset_filter, holds.members]
    simp
  refine ⟨?_, ?_, ?_⟩
  · rw [loop]
    exact pairwise_map.mpr (sorted.filter _)
  · rw [loop, ← kept, toFinset_val, (holds.nodup.filter _).dedup, Multiset.map_coe]
  rw [loop, foldl_older (sorted.filter _), if_pos rfl, kept, Finset.filter_filter]

/-- At the largest bound the loop reads the whole list, so the answer is ascending only if
the list is. -/
theorem sorted_of_listsLive (lists : s.ListsLive kMaxSequenceNumber) : s.Sorted := by
  have ascending := lists.ascending
  have all : s.list.takeWhile (fun held => (s.object held).number ≤ kMaxSequenceNumber) =
      s.list := takeWhile_eq_self_iff.mpr fun held _ => decide_eq_true (Fin.le_last _)
  rw [getAll, getAllFrom_eq, all, nil_append] at ascending
  exact pairwise_map.mp ascending

theorem Holds.not_mem_list (holds : s.Holds) {address : Nat} (free : address ∉ s.live) :
    address ∉ s.list := by
  rwa [← holds.members, mem_toFinset] at free

theorem Holds.step (holds : s.Holds) (taken : step s action = some next) : next.Holds := by
  cases action with
  | write =>
    simp only [KvdbSnapshots.step, Option.ite_none_right_eq_some, Option.some.injEq] at taken
    obtain ⟨-, rfl⟩ := taken
    exact ⟨holds.nodup, holds.members, holds.waiting⟩
  | takeInner address =>
    simp only [KvdbSnapshots.step, Option.ite_none_left_eq_some, Finset.mem_union, not_or,
      Option.some.injEq] at taken
    obtain ⟨⟨-, free⟩, rfl⟩ := taken
    exact ⟨holds.nodup, holds.members, Finset.disjoint_insert_left.mpr ⟨free, holds.waiting⟩⟩
  | new address =>
    simp only [KvdbSnapshots.step, Option.ite_none_right_eq_some, Option.some.injEq] at taken
    obtain ⟨waits, rfl⟩ := taken
    have fresh := Finset.disjoint_left.mp holds.waiting waits
    refine ⟨?_, ?_, ?_⟩
    · exact nodup_append.mpr ⟨holds.nodup, nodup_singleton _, fun _ old _ new same =>
        holds.not_mem_list fresh (mem_singleton.mp new ▸ same ▸ old)⟩
    · ext held
      simp [← holds.members]
    refine Finset.disjoint_insert_right.mpr ⟨Finset.notMem_erase _ _, ?_⟩
    exact Finset.disjoint_of_subset_left (Finset.erase_subset _ _) holds.waiting
  | releaseSnapshot address =>
    simp only [KvdbSnapshots.step, Option.ite_none_right_eq_some, Option.some.injEq] at taken
    obtain ⟨-, rfl⟩ := taken
    refine ⟨holds.nodup.erase _, ?_,
      Finset.disjoint_of_subset_right (Finset.erase_subset _ _) holds.waiting⟩
    ext held
    simp [holds.nodup.mem_erase_iff, ← holds.members]

theorem Sorted.step (holds : s.Holds) (sorted : s.Sorted)
    (taken : KvdbSnapshots.step s action = some next)
    (inOrder : AppendsInOrder s action) : next.Sorted := by
  cases action with
  | write =>
    simp only [KvdbSnapshots.step, Option.ite_none_right_eq_some, Option.some.injEq] at taken
    obtain ⟨-, rfl⟩ := taken
    exact sorted
  | takeInner address =>
    simp only [KvdbSnapshots.step, Option.ite_none_left_eq_some, Finset.mem_union, not_or,
      Option.some.injEq] at taken
    obtain ⟨⟨-, free⟩, rfl⟩ := taken
    -- the new object is not linked yet
    have others : ∀ held ∈ s.list, held ≠ address :=
      fun held listed same => holds.not_mem_list free (same ▸ listed)
    refine Pairwise.imp_of_mem (fun {earlier later} isEarlier isLater le => ?_) sorted
    dsimp only
    rwa [Function.update_of_ne (others earlier isEarlier),
      Function.update_of_ne (others later isLater)]
  | new address =>
    simp only [KvdbSnapshots.step, Option.ite_none_right_eq_some, Option.some.injEq] at taken
    obtain ⟨-, rfl⟩ := taken
    refine pairwise_append.mpr ⟨sorted, pairwise_singleton _ _, fun held listed last isLast => ?_⟩
    rw [mem_singleton.mp isLast]
    exact inOrder held (holds.members ▸ mem_toFinset.mpr listed)
  | releaseSnapshot address =>
    simp only [KvdbSnapshots.step, Option.ite_none_right_eq_some, Option.some.injEq] at taken
    obtain ⟨-, rfl⟩ := taken
    exact sorted.sublist (erase_sublist)

theorem Sorted.appended (holds : s.Holds) (taken : KvdbSnapshots.step s action = some next)
    (sorted : next.Sorted) : AppendsInOrder s action := by
  cases action with
  | new address =>
    simp only [KvdbSnapshots.step, Option.ite_none_right_eq_some, Option.some.injEq] at taken
    obtain ⟨-, rfl⟩ := taken
    intro held isLive
    rw [← holds.members, mem_toFinset] at isLive
    exact (pairwise_append.mp sorted).2.2 held isLive address (mem_singleton_self _)
  | write => trivial
  | takeInner => trivial
  | releaseSnapshot => trivial

end Snapshots

/-- In a run from the empty list `GetAll` answers with the live snapshots, in every state and
for every bound, exactly if no call appends its snapshot behind a live one with a larger
number. -/
theorem getAll_lists_live_iff (actions : List Action) :
    AllHold step (fun s => ∀ maxSeq, s.ListsLive maxSeq) actions {} ↔
      AllMeet step AppendsInOrder actions {} := by
  refine allHold_iff_allMeet (fun s => s.Holds ∧ s.Sorted) ?_ ?_ ?_ ?_
  · exact fun s ⟨holds, sorted⟩ => Snapshots.listsLive_of_sorted holds sorted
  · exact fun s action next ⟨holds, sorted⟩ taken inOrder =>
      ⟨holds.step taken, sorted.step holds taken inOrder⟩
  · exact fun s action next ⟨holds, _⟩ taken lists =>
      (Snapshots.sorted_of_listsLive (lists _)).appended holds taken
  exact ⟨⟨nodup_nil, rfl, Finset.disjoint_empty_left _⟩, Pairwise.nil⟩

/-- The first call takes its number, then comes a write, and the second call overtakes. -/
theorem getAll_misses_overtaken : ∃ s,
    exec step [.takeInner 0 false, .write, .takeInner 1 false, .new 1, .new 0] {} = some s ∧
      (s.getAll 0).1 = [] ∧ ¬ s.ListsLive 0 := by
  refine ⟨_, rfl, by decide +kernel, fun lists => ?_⟩
  have sameSize := congrArg Multiset.card lists.complete
  revert sameSize
  decide +kernel

end InsDb.KvdbSnapshots
