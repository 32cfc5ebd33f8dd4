import InsDb.Transaction
import Mathlib.Data.List.Nodup

/-!
# The completed transaction groups

`Manifest::DecTrxnGroup` adds a group whose count reaches 0 to a list of ranges that the log
record keeps for recovery. `TrxnManifest` has the counts and the ranges, and next to them
the ids that were handed out and the groups that were added, in order.
-/

namespace InsDb

open InsDb.Library List Function

structure TrxnGroupRange where
  start : Nat
  stop : Nat
deriving DecidableEq, Repr

/-- `Manifest::IsCompletedTrxnGroupRange`. -/
def isCompletedTrxnGroupRange (completed : List TrxnGroupRange) (tgid : Nat) : Bool :=
  completed.any fun range => decide (range.start ≤ tgid ∧ tgid ≤ range.stop)

def maxTrxnGroup : Nat := 2 ^ 32 - 1

/-- `start - 1` in 32 bits. -/
def TrxnGroupRange.before (range : TrxnGroupRange) : Nat :=
  (range.start + 2 ^ 32 - 1) % 2 ^ 32

/-- `Manifest::AddCompletedTrxnGroupRange`.  There is always a range behind one that ends
right before the group, since the last one ends at the largest number. -/
def addCompletedTrxnGroupRange (tgid : Nat) : List TrxnGroupRange → List TrxnGroupRange
  | [] => []
  | range :: rest =>
    if tgid = range.before then
      { range with start := tgid } :: rest
    else if tgid < range.start then
      ⟨tgid, tgid⟩ :: range :: rest
    else if (range.stop + 1) % 2 ^ 32 = tgid then
      match rest with
      | [] => [{ range with stop := tgid }]
      | next :: later =>
        if tgid = next.before then
          { range with stop := next.stop } :: later
        else
          { range with stop := tgid } :: next :: later
    else
      range :: addCompletedTrxnGroupRange tgid rest

structure Separated (ranges : List TrxnGroupRange) : Prop where
  ordered : ∀ range ∈ ranges, range.start ≤ range.stop ∧ range.stop ≤ maxTrxnGroup
  apart : ranges.Pairwise fun range later => range.stop + 1 < later.start

theorem isCompleted_cons (range : TrxnGroupRange) (rest : List TrxnGroupRange) (tgid : Nat) :
    isCompletedTrxnGroupRange (range :: rest) tgid = true ↔
      (range.start ≤ tgid ∧ tgid ≤ range.stop) ∨ isCompletedTrxnGroupRange rest tgid = true := by
  simp [isCompletedTrxnGroupRange]

variable {range : TrxnGroupRange}

theorem Separated.tail {rest : List TrxnGroupRange} (separated : Separated (range :: rest)) :
    Separated rest :=
  ⟨fun later mem => separated.ordered later (mem_cons_of_mem _ mem),
    (pairwise_cons.mp separated.apart).2⟩

theorem Separated.cons {rest : List TrxnGroupRange} (separated : Separated rest)
    (ordered : range.start ≤ range.stop ∧ range.stop ≤ maxTrxnGroup)
    (below : ∀ later ∈ rest, range.stop + 1 < later.start) : Separated (range :: rest) := by
  refine ⟨?_, pairwise_cons.mpr ⟨below, separated.apart⟩⟩
  intro mem isMember
  rcases mem_cons.mp isMember with rfl | later
  · exact ordered
  · exact separated.ordered mem later

variable {tgid : Nat}

theorem before_eq_iff (small : tgid < maxTrxnGroup) (bounded : range.start ≤ maxTrxnGroup) :
    tgid = range.before ↔ range.start = tgid + 1 := by
  unfold TrxnGroupRange.before
  unfold maxTrxnGroup at small bounded
  omega

theorem start_of_mem_add {ranges : List TrxnGroupRange}
    (mem : range ∈ addCompletedTrxnGroupRange tgid ranges) :
    range.start = tgid ∨ ∃ old ∈ ranges, range.start = old.start := by
  induction ranges with
  | nil => simp [addCompletedTrxnGroupRange] at mem
  | cons first rest ih =>
    have kept : ∀ other ∈ rest, ∃ old ∈ first :: rest, other.start = old.start :=
      fun other isLater => ⟨other, mem_cons_of_mem _ isLater, rfl⟩
    simp only [addCompletedTrxnGroupRange] at mem
    split_ifs at mem
    · rcases mem_cons.mp mem with rfl | isLater
      · exact .inl rfl
      · exact .inr (kept range isLater)
    · rcases mem_cons.mp mem with rfl | isOld
      · exact .inl rfl
      · exact .inr ⟨range, isOld, rfl⟩
    · have atFirst : ∃ old ∈ first :: rest, first.start = old.start :=
        ⟨first, mem_cons_self, rfl⟩
      cases rest with
      | nil =>
        obtain rfl := mem_singleton.mp mem
        exact .inr atFirst
      | cons =>
        simp only at mem
        split_ifs at mem
        · rcases mem_cons.mp mem with rfl | isLater
          · exact .inr atFirst
          · exact .inr (kept range (mem_cons_of_mem _ isLater))
        rcases mem_cons.mp mem with rfl | isLater
        · exact .inr atFirst
        · exact .inr (kept range isLater)
    · rcases mem_cons.mp mem with rfl | isLater
      · exact .inr ⟨range, mem_cons_self, rfl⟩
      rcases ih isLater with atGroup | ⟨old, isOld, sameStart⟩
      · exact .inl atGroup
      · exact .inr ⟨old, mem_cons_of_mem _ isOld, sameStart⟩

theorem or_extended {pre post extra rest : Prop} (same : post ↔ pre ∨ extra) :
    post ∨ rest ↔ (pre ∨ rest) ∨ extra := by
  rw [same, or_right_comm]

theorem addCompletedTrxnGroupRange_spec {ranges : List TrxnGroupRange}
    (separated : Separated ranges) (small : tgid < maxTrxnGroup)
    (outside : isCompletedTrxnGroupRange ranges tgid = false)
    (reachesMax : isCompletedTrxnGroupRange ranges maxTrxnGroup = true) :
    Separated (addCompletedTrxnGroupRange tgid ranges) ∧
      ∀ other, isCompletedTrxnGroupRange (addCompletedTrxnGroupRange tgid ranges) other = true ↔
        isCompletedTrxnGroupRange ranges other = true ∨ other = tgid := by
  induction ranges with
  | nil => simp [isCompletedTrxnGroupRange] at reachesMax
  | cons range rest ih =>
    have ordered := separated.ordered range mem_cons_self
    have below := (pairwise_cons.mp separated.apart).1
    have notIn : ¬ (range.start ≤ tgid ∧ tgid ≤ range.stop) := by
      intro inside
      exact Bool.eq_false_iff.mp outside ((isCompleted_cons ..).mpr (Or.inl inside))
    have atBefore := before_eq_iff small (Nat.le_trans ordered.1 ordered.2)
    simp only [addCompletedTrxnGroupRange]
    by_cases extendsDown : tgid = range.before
    · rw [if_pos extendsDown]
      refine ⟨separated.tail.cons ⟨by simp only; omega, ordered.2⟩ below, ?_⟩
      intro other
      simp only [isCompleted_cons]
      exact or_extended (by omega)
    rw [if_neg extendsDown]
    by_cases inserts : tgid < range.start
    · rw [if_pos inserts]
      refine ⟨separated.cons ⟨Nat.le_refl _, Nat.le_of_lt small⟩ ?_, ?_⟩
      · intro later mem
        simp only
        rcases mem_cons.mp mem with rfl | isLater
        · omega
        have above := below later isLater
        omega
      · intro other
        rw [isCompleted_cons, or_comm]
        exact or_congr_right (by simp only; omega)
    rw [if_neg inserts]
    have above : range.stop < tgid := by omega
    have wraps : (range.stop + 1) % 2 ^ 32 = range.stop + 1 := by
      unfold maxTrxnGroup at small
      omega
    -- The last range ends at the largest number, so that this one is not the last.
    have restReaches : isCompletedTrxnGroupRange rest maxTrxnGroup = true := by
      rcases (isCompleted_cons ..).mp reachesMax with ⟨-, _⟩ | inRest
      · omega
      · exact inRest
    rw [wraps]
    by_cases extendsUp : range.stop + 1 = tgid
    · rw [if_pos extendsUp]
      cases rest with
      | nil => simp [isCompletedTrxnGroupRange] at restReaches
      | cons next =>
        have nextOrdered := separated.tail.ordered next mem_cons_self
        have nextBelow := (pairwise_cons.mp separated.tail.apart).1
        have gap := below next mem_cons_self
        have atNext := before_eq_iff small (Nat.le_trans nextOrdered.1 nextOrdered.2)
        simp only
        by_cases joins : tgid = next.before
        · have nextStart := atNext.mp joins
          rw [if_pos joins]
          refine ⟨separated.tail.tail.cons ⟨by simp only; omega, nextOrdered.2⟩ nextBelow, ?_⟩
          intro other
          simp only [isCompleted_cons, ← or_assoc]
          exact or_extended (by omega)
        have nextStart := mt atNext.mpr joins
        rw [if_neg joins]
        refine ⟨separated.tail.cons ⟨by simp only; omega, Nat.le_of_lt small⟩ ?_, ?_⟩
        · intro other mem
          simp only
          rcases mem_cons.mp mem with rfl | isLater
          · omega
          have farther := nextBelow other isLater
          omega
        · intro _
          simp only [isCompleted_cons]
          exact or_extended (by omega)
    · rw [if_neg extendsUp]
      have restOutside : isCompletedTrxnGroupRange rest tgid = false := by
        apply Bool.eq_false_iff.mpr
        intro inRest
        exact Bool.eq_false_iff.mp outside ((isCompleted_cons ..).mpr (Or.inr inRest))
      obtain ⟨restSeparated, restAdded⟩ := ih separated.tail restOutside restReaches
      refine ⟨restSeparated.cons ordered ?_, ?_⟩
      · intro _ mem
        rcases start_of_mem_add mem with _ | ⟨old, isOld, _⟩
        · omega
        have farther := below old isOld
        omega
      intro _
      simp only [isCompleted_cons, restAdded, or_assoc]

/-- `DecTrxnGroup` finds the group and its count reaches 0. -/
def TrxnGroups.completes (groups : TrxnGroups) (tgid cnt : Nat) : Bool :=
  match Rows.get groups.uncompleted tgid with
  | none => false
  | some entries => decide ((entries + 2 ^ 32 - cnt % 2 ^ 32) % 2 ^ 32 = 0)

structure TrxnManifest where
  groups : TrxnGroups := {}
  ranges : List TrxnGroupRange := [⟨0, 0⟩, ⟨maxTrxnGroup, maxTrxnGroup⟩]
  -- The results of `GetTrxnID` and the arguments of `AddCompletedTrxnGroupRange` so far.
  handedOut : List Nat := []
  completed : List Nat := []
deriving DecidableEq, Repr

namespace TrxnManifest

/-- `GetTrxnID`, with its result. -/
def getTrxnID (manifest : TrxnManifest) (count : Nat) : TrxnManifest :=
  { manifest with
    groups := (manifest.groups.getTrxnID count).2
    handedOut := manifest.handedOut ++ [(manifest.groups.getTrxnID count).1] }

/-- `DecTrxnGroup` by one entry, with the call of `AddCompletedTrxnGroupRange`. -/
def decTrxnGroup (manifest : TrxnManifest) (tgid : Nat) : TrxnManifest :=
  if manifest.groups.completes tgid 1 then
    { manifest with
      groups := manifest.groups.decTrxnGroup tgid 1
      ranges := addCompletedTrxnGroupRange tgid manifest.ranges
      completed := manifest.completed ++ [tgid] }
  else
    { manifest with groups := manifest.groups.decTrxnGroup tgid 1 }

variable (manifest : TrxnManifest)

def HandedOut (tgid : Nat) : Prop :=
  ∃ id ∈ manifest.handedOut, id >>> tgidShift = tgid

def nextGroup : Nat :=
  manifest.groups.nextTrxnId >>> tgidShift

def count (tgid : Nat) : Nat :=
  (Rows.get manifest.groups.uncompleted tgid).getD 0

/-- What is said of the transaction groups when `openIn` gives the open entries of each. -/
structure Conserved (manifest : TrxnManifest) (openIn : Nat → Nat) : Prop where
  counted : ∀ tgid, manifest.count tgid = openIn tgid
  addedOnce : manifest.completed.Nodup
  added : ∀ tgid,
    tgid ∈ manifest.completed ↔ manifest.HandedOut tgid ∧ openIn tgid = 0
  ranges : ∀ tgid, isCompletedTrxnGroupRange manifest.ranges tgid = true ↔
    tgid = 0 ∨ tgid = maxTrxnGroup ∨ tgid ∈ manifest.completed
  notReused : manifest.nextGroup ∉ manifest.completed

/-- With what the operations rely on: the counts are not 0, ids grow, and the ranges are in
order. -/
structure Accounts (manifest : TrxnManifest) (openIn : Nat → Nat) : Prop
    extends Conserved manifest openIn where
  positive : ∀ tgid, Rows.get manifest.groups.uncompleted tgid ≠ some 0
  small : ∀ tgid, openIn tgid < 2 ^ 32
  next : 32 ≤ manifest.groups.nextTrxnId
  handed : ∀ id ∈ manifest.handedOut,
    32 ≤ id ∧ id < manifest.groups.nextTrxnId ∧ id >>> tgidShift < maxTrxnGroup
  opened : ∀ tgid, openIn tgid ≠ 0 → manifest.HandedOut tgid
  closed : ∀ tgid ∈ manifest.completed, tgid < manifest.nextGroup
  separated : Separated manifest.ranges

theorem group_le_of_le {id next : Nat} (le : id ≤ next) :
    id >>> tgidShift ≤ next >>> tgidShift := by
  simp only [tgidShift, Nat.shiftRight_eq_div_pow]
  exact Nat.div_le_div_right le

theorem group_shiftLeft (tgid : Nat) : ((tgid + 1) <<< tgidShift) >>> tgidShift = tgid + 1 := by
  simp [tgidShift, Nat.shiftLeft_eq, Nat.shiftRight_eq_div_pow]

theorem lt_nextOfGroup (id : Nat) : id < ((id >>> tgidShift) + 1) <<< tgidShift := by
  simp only [tgidShift, Nat.shiftLeft_eq, Nat.shiftRight_eq_div_pow]
  omega

theorem group_pos {id : Nat} (large : 32 ≤ id) : 0 < id >>> tgidShift := by
  simp only [tgidShift, Nat.shiftRight_eq_div_pow]
  omega

namespace Accounts

variable {manifest : TrxnManifest} {openIn : Nat → Nat}

theorem initial : Accounts {} fun _ => 0 := by
  have separated : Separated [⟨0, 0⟩, ⟨maxTrxnGroup, maxTrxnGroup⟩] := by
    refine ⟨?_, ?_⟩
    · simp [maxTrxnGroup]
    · simp [maxTrxnGroup]
  have noneHanded : ∀ tgid, ¬ ({} : TrxnManifest).HandedOut tgid := by
    rintro tgid ⟨_, mem, -⟩
    exact absurd mem not_mem_nil
  exact
    { counted := fun _ => rfl
      addedOnce := nodup_nil
      added := by
        intro tgid
        simp [noneHanded]
      ranges := by
        intro tgid
        rw [isCompleted_cons, isCompleted_cons]
        simp only [isCompletedTrxnGroupRange, any_nil, not_mem_nil, Bool.false_eq_true, or_false]
        constructor
        · rintro (atZero | atMax)
          · exact .inl (by omega)
          · exact .inr (by omega)
        rintro (rfl | rfl)
        · exact .inl (by omega)
        · exact .inr (by omega)
      notReused := not_mem_nil
      positive := by simp
      small := by simp
      next := Nat.le_refl _
      handed := by simp
      opened := by simp
      closed := by simp
      separated := separated }

variable {tgid : Nat}

theorem handedOut_le (accounts : manifest.Accounts openIn) (handedOut : manifest.HandedOut tgid) :
    0 < tgid ∧ tgid ≤ manifest.nextGroup ∧ tgid < maxTrxnGroup := by
  obtain ⟨id, mem, rfl⟩ := handedOut
  obtain ⟨large, below, fits⟩ := accounts.handed id mem
  exact ⟨group_pos large, group_le_of_le (Nat.le_of_lt below), fits⟩

theorem handedOut_getTrxnID (count tgid : Nat) : (manifest.getTrxnID count).HandedOut tgid ↔
      manifest.HandedOut tgid ∨ manifest.nextGroup = tgid := by
  simp only [HandedOut, getTrxnID, mem_append, mem_singleton]
  constructor
  · rintro ⟨id, earlier | rfl, inGroup⟩
    · exact .inl ⟨id, earlier, inGroup⟩
    · exact .inr inGroup
  rintro (⟨id, earlier, inGroup⟩ | inGroup)
  · exact ⟨id, Or.inl earlier, inGroup⟩
  · exact ⟨_, Or.inr rfl, inGroup⟩

theorem nextTrxnId_getTrxnID (count : Nat) :
    manifest.groups.nextTrxnId < (manifest.getTrxnID count).groups.nextTrxnId := by
  simp only [getTrxnID, TrxnGroups.getTrxnID]
  split_ifs
  · exact lt_nextOfGroup _
  · exact Nat.lt_succ_self _

theorem getTrxnID (accounts : manifest.Accounts openIn) {count : Nat} (nonempty : 0 < count)
    (fits : manifest.nextGroup < maxTrxnGroup)
    (sum : manifest.count manifest.nextGroup + count < 2 ^ 32) :
    (manifest.getTrxnID count).Accounts
      (Function.update openIn manifest.nextGroup (openIn manifest.nextGroup + count)) := by
  have grows := @nextTrxnId_getTrxnID manifest count
  have groupGrows : manifest.nextGroup ≤ (manifest.getTrxnID count).nextGroup :=
    group_le_of_le (Nat.le_of_lt grows)
  have found : ∀ tgid, Rows.get (manifest.getTrxnID count).groups.uncompleted tgid =
      if manifest.nextGroup = tgid then
        some (openIn manifest.nextGroup + count)
      else
        Rows.get manifest.groups.uncompleted tgid := by
    intro tgid
    rw [← accounts.counted, ← Nat.mod_eq_of_lt sum]
    exact Rows.get_set ..
  have isNext := accounts.closed
  constructor
  · constructor
    · intro tgid
      rw [TrxnManifest.count, found, update_apply]
      by_cases same : manifest.nextGroup = tgid
      · rw [if_pos same, if_pos same.symm, Option.getD_some]
      rw [if_neg same, if_neg (Ne.symm same)]
      exact accounts.counted tgid
    · exact accounts.addedOnce
    · intro tgid
      rw [handedOut_getTrxnID, update_apply]
      by_cases same : tgid = manifest.nextGroup
      · rw [if_pos same]
        constructor
        · intro completed
          exact absurd (isNext tgid completed) (by omega)
        rintro ⟨-, _⟩
        omega
      · rw [if_neg same, or_iff_left (Ne.symm same)]
        exact accounts.added tgid
    · exact accounts.ranges
    intro completed
    exact absurd (isNext _ completed) (by omega)
  · intro tgid
    rw [found]
    split_ifs
    · intro isZero
      have := Option.some.inj isZero
      omega
    · exact accounts.positive tgid
  · intro tgid
    rw [update_apply]
    split_ifs
    · rw [← accounts.counted]
      exact sum
    · exact accounts.small tgid
  · exact Nat.le_trans accounts.next (Nat.le_of_lt grows)
  · intro id mem
    rcases mem_append.mp mem with earlier | last
    · obtain ⟨large, below, inRange⟩ := accounts.handed id earlier
      exact ⟨large, Nat.lt_trans below grows, inRange⟩
    obtain rfl := mem_singleton.mp last
    exact ⟨accounts.next, grows, fits⟩
  · intro tgid isOpen
    rw [handedOut_getTrxnID]
    by_cases same : manifest.nextGroup = tgid
    · exact .inr same
    rw [update_of_ne (Ne.symm same)] at isOpen
    exact .inl (accounts.opened tgid isOpen)
  · intro tgid completed
    exact Nat.lt_of_lt_of_le (isNext tgid completed) groupGrows
  · exact accounts.separated

section

variable (accounts : manifest.Accounts openIn) (isOpen : openIn tgid ≠ 0)

include accounts isOpen

theorem get_of_open : Rows.get manifest.groups.uncompleted tgid = some (openIn tgid) := by
  have counted := accounts.counted tgid
  unfold TrxnManifest.count at counted
  cases found : Rows.get manifest.groups.uncompleted tgid with
  | none =>
    rw [found] at counted
    exact absurd counted.symm isOpen
  | some =>
    rw [found] at counted
    rw [← counted, Option.getD_some]

theorem completes_iff : manifest.groups.completes tgid 1 = true ↔ openIn tgid = 1 := by
  have small := accounts.small tgid
  unfold TrxnGroups.completes
  rw [accounts.get_of_open isOpen]
  simp only [decide_eq_true_eq]
  omega

theorem get_decTrxnGroup (other : Nat) :
    Rows.get (manifest.groups.decTrxnGroup tgid 1).uncompleted other = if tgid = other then
        if openIn tgid = 1 then none else some (openIn tgid - 1)
      else
        Rows.get manifest.groups.uncompleted other := by
  have small := accounts.small tgid
  have left : (openIn tgid + 2 ^ 32 - 1 % 2 ^ 32) % 2 ^ 32 = openIn tgid - 1 := by omega
  unfold TrxnGroups.decTrxnGroup
  rw [accounts.get_of_open isOpen]
  simp only [left]
  by_cases last : openIn tgid = 1
  · rw [if_pos (by omega), if_pos last]
    rw [Rows.get_filter _ (fun key => decide (key ≠ tgid))]
    by_cases same : tgid = other
    · simp [same]
    · simp [same, Ne.symm same]
  · rw [if_neg (by omega), if_neg last]
    exact Rows.get_set ..

end

section

variable (accounts : manifest.Accounts openIn) (isOpen : openIn tgid ≠ 0)
  (fits : openIn tgid = 1 → tgid = manifest.nextGroup → tgid + 1 < 2 ^ 27)

include accounts isOpen fits

theorem nextTrxnId_decTrxnGroup :
    manifest.groups.nextTrxnId ≤ (manifest.groups.decTrxnGroup tgid 1).nextTrxnId ∧
      (openIn tgid = 1 →
        tgid < (manifest.groups.decTrxnGroup tgid 1).nextTrxnId >>> tgidShift) := by
  have small := accounts.small tgid
  have left : (openIn tgid + 2 ^ 32 - 1 % 2 ^ 32) % 2 ^ 32 = openIn tgid - 1 := by omega
  have bound := (accounts.handedOut_le (accounts.opened tgid isOpen)).2.1
  unfold TrxnGroups.decTrxnGroup
  rw [accounts.get_of_open isOpen]
  simp only [left]
  by_cases last : openIn tgid = 1
  · rw [if_pos (by omega)]
    by_cases current : tgid = manifest.groups.nextTrxnId >>> tgidShift
    · have noWrap : ((tgid + 1) <<< tgidShift) % 2 ^ 32 = (tgid + 1) <<< tgidShift := by
        have := fits last current
        apply Nat.mod_eq_of_lt
        simp only [tgidShift, Nat.shiftLeft_eq]
        omega
      rw [if_pos current, noWrap, group_shiftLeft]
      refine ⟨?_, fun _ => Nat.lt_succ_self _⟩
      rw [current]
      exact Nat.le_of_lt (lt_nextOfGroup _)
    · rw [if_neg current]
      exact ⟨Nat.le_refl _, fun _ => Nat.lt_of_le_of_ne bound current⟩
  · rw [if_neg (by omega)]
    exact ⟨Nat.le_refl _, fun isLast => absurd isLast last⟩

theorem of_decTrxnGroup {ranges : List TrxnGroupRange} {completed : List Nat}
    (addedOnce : completed.Nodup)
    (added : ∀ other, other ∈ completed ↔ other ∈ manifest.completed ∨ (other = tgid ∧ openIn
      tgid = 1))
    (inRanges : ∀ other, isCompletedTrxnGroupRange ranges other = true ↔ other = 0 ∨ other =
      maxTrxnGroup ∨ other ∈ completed) (separated : Separated ranges) :
    Accounts { manifest with
        groups := manifest.groups.decTrxnGroup tgid 1
        ranges := ranges
        completed := completed }
      (Function.update openIn tgid (openIn tgid - 1)) := by
  obtain ⟨grows, passes⟩ := accounts.nextTrxnId_decTrxnGroup isOpen fits
  have handedOut := accounts.opened tgid isOpen
  have notCompleted : tgid ∉ manifest.completed :=
    fun pre => isOpen ((accounts.added tgid).mp pre).2
  have closed : ∀ other ∈ completed,
      other < (manifest.groups.decTrxnGroup tgid 1).nextTrxnId >>> tgidShift := by
    intro other isCompleted
    rcases (added other).mp isCompleted with pre | ⟨rfl, last⟩
    · exact Nat.lt_of_lt_of_le (accounts.closed other pre) (group_le_of_le grows)
    · exact passes last
  constructor
  · constructor
    · intro other
      simp only [TrxnManifest.count]
      rw [accounts.get_decTrxnGroup isOpen, update_apply]
      by_cases same : tgid = other
      · rw [if_pos same, if_pos same.symm]
        split_ifs with last
        · rw [last, Option.getD_none]
        · rw [Option.getD_some]
      rw [if_neg same, if_neg (Ne.symm same)]
      exact accounts.counted other
    · exact addedOnce
    · intro other
      rw [added, update_apply]
      by_cases same : other = tgid
      · subst same
        rw [if_pos rfl]
        constructor
        · rintro (pre | ⟨-, last⟩)
          · exact absurd pre notCompleted
          · exact ⟨handedOut, by omega⟩
        rintro ⟨-, _⟩
        exact .inr ⟨rfl, by omega⟩
      · rw [if_neg same, or_iff_left (fun both => same both.1)]
        exact accounts.added other
    · exact inRanges
    intro isCompleted
    exact Nat.lt_irrefl _ (closed _ isCompleted)
  · intro other
    rw [accounts.get_decTrxnGroup isOpen]
    split_ifs with same last
    · exact fun isZero => absurd isZero (by simp)
    · intro isZero
      have := Option.some.inj isZero
      omega
    · exact accounts.positive other
  · intro other
    rw [update_apply]
    split_ifs
    · have := accounts.small tgid
      omega
    · exact accounts.small other
  · exact Nat.le_trans accounts.next grows
  · intro id mem
    obtain ⟨large, below, inRange⟩ := accounts.handed id mem
    exact ⟨large, Nat.lt_of_lt_of_le below grows, inRange⟩
  · intro other stillOpen
    rw [update_apply] at stillOpen
    split_ifs at stillOpen with same
    · exact same ▸ handedOut
    · exact accounts.opened other stillOpen
  · exact closed
  · exact separated

theorem decTrxnGroup : (manifest.decTrxnGroup tgid).Accounts
      (Function.update openIn tgid (openIn tgid - 1)) := by
  have completes := accounts.completes_iff isOpen
  unfold TrxnManifest.decTrxnGroup
  by_cases last : openIn tgid = 1
  · obtain ⟨_, -, small⟩ := accounts.handedOut_le (accounts.opened tgid isOpen)
    have notCompleted : tgid ∉ manifest.completed :=
      fun pre => isOpen ((accounts.added tgid).mp pre).2
    have outside : isCompletedTrxnGroupRange manifest.ranges tgid = false := by
      apply Bool.eq_false_iff.mpr
      intro inside
      rcases (accounts.ranges tgid).mp inside with isZero | isMax | pre
      · omega
      · omega
      · exact notCompleted pre
    have reachesMax := (accounts.ranges maxTrxnGroup).mpr (Or.inr (.inl rfl))
    obtain ⟨separated, inRanges⟩ :=
      addCompletedTrxnGroupRange_spec accounts.separated small outside reachesMax
    rw [if_pos (completes.mpr last)]
    apply accounts.of_decTrxnGroup isOpen fits
    · rw [← concat_eq_append]
      exact accounts.addedOnce.concat notCompleted
    · intro other
      simp [last]
    · intro _
      rw [inRanges, accounts.ranges, mem_append, mem_singleton]
      tauto
    · exact separated
  · rw [if_neg (mt completes.mp last)]
    apply accounts.of_decTrxnGroup isOpen fits accounts.addedOnce _ accounts.ranges
      accounts.separated
    intro _
    simp [last]

end

end Accounts

end TrxnManifest

end InsDb
