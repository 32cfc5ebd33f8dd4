import InsDb.TrxnGroups
import Mathlib.Data.List.Induction
import Mathlib.Data.List.Perm.Basic

/-!
# The completed groups, in any order

Groups complete in no particular order, and `AddCompletedTrxnGroupRange` extends, joins or
inserts ranges as they come.  Separated ranges are a normal form of the set of ids they
cover, so that the list depends on the set of completed groups only.
-/

namespace InsDb

open List

namespace Separated

variable {range : TrxnGroupRange} {rest : List TrxnGroupRange}

theorem later (apart : Separated (range :: rest)) {tgid : Nat}
    (covered : isCompletedTrxnGroupRange rest tgid = true) : range.stop + 1 < tgid := by
  obtain ⟨other, mem, inside⟩ := any_eq_true.mp covered
  have gap := (pairwise_cons.mp apart.apart).1 other mem
  have starts := (of_decide_eq_true inside).1
  omega

theorem start_le (apart : Separated (range :: rest)) {tgid : Nat}
    (covered : isCompletedTrxnGroupRange (range :: rest) tgid = true) : range.start ≤ tgid := by
  have ordered := apart.ordered range mem_cons_self
  rcases (isCompleted_cons ..).mp covered with inside | inRest
  · exact inside.1
  have behind := apart.later inRest
  omega

theorem rest_iff (apart : Separated (range :: rest)) (tgid : Nat) :
    isCompletedTrxnGroupRange rest tgid = true ↔
      isCompletedTrxnGroupRange (range :: rest) tgid = true ∧ range.stop < tgid := by
  rw [isCompleted_cons]
  constructor
  · intro inRest
    have behind := apart.later inRest
    exact ⟨Or.inr inRest, by omega⟩
  rintro ⟨_ | inRest, _⟩
  · omega
  · exact inRest

/-- A range ends where the ids it covers end: the next id is not covered. -/
theorem stop_le {stop : Nat} (inside : range.start ≤ stop + 1)
    (notCovered : isCompletedTrxnGroupRange (range :: rest) (stop + 1) = false) :
    range.stop ≤ stop := by
  by_contra beyond
  have covered : isCompletedTrxnGroupRange (range :: rest) (stop + 1) = true :=
    (isCompleted_cons ..).mpr (Or.inl ⟨inside, by omega⟩)
  rw [notCovered] at covered
  exact absurd covered Bool.false_ne_true

theorem not_covered_succ (apart : Separated (range :: rest)) :
    isCompletedTrxnGroupRange (range :: rest) (range.stop + 1) = false := by
  apply Bool.eq_false_iff.mpr
  intro covered
  rcases (isCompleted_cons ..).mp covered with inside | inRest
  · omega
  have behind := apart.later inRest
  omega

theorem covers_start (apart : Separated (range :: rest)) :
    isCompletedTrxnGroupRange (range :: rest) range.start = true :=
  (isCompleted_cons ..).mpr (Or.inl ⟨Nat.le_refl _, (apart.ordered range mem_cons_self).1⟩)

theorem eq_of_covers : ∀ {ranges others : List TrxnGroupRange}, Separated ranges →
    Separated others →
    (∀ tgid, isCompletedTrxnGroupRange ranges tgid = isCompletedTrxnGroupRange others tgid) →
    ranges = others := by
  intro ranges
  induction ranges with
  | nil =>
    intro others _ apart same
    cases others with
    | nil => rfl
    | cons =>
      have covered := apart.covers_start
      rw [← same] at covered
      exact absurd covered Bool.false_ne_true
  | cons range rest ih =>
    intro others apart separatedOthers same
    cases others with
    | nil =>
      have covered := apart.covers_start
      rw [same] at covered
      exact absurd covered Bool.false_ne_true
    | cons other later =>
      have ordered := apart.ordered range mem_cons_self
      have orderedOther := separatedOthers.ordered other mem_cons_self
      have sameStart := Nat.le_antisymm (apart.start_le ((same _).trans
        separatedOthers.covers_start)) (separatedOthers.start_le ((same _).symm.trans
        apart.covers_start))
      have sameStop := Nat.le_antisymm (stop_le (by omega) ((same _).trans
        separatedOthers.not_covered_succ)) (stop_le (by omega) ((same _).symm.trans
        apart.not_covered_succ))
      have sameRange : range = other := by
        cases range
        cases other
        simp_all
      have sameRest : rest = later := by
        apply ih apart.tail separatedOthers.tail
        intro _
        rw [Bool.eq_iff_iff, apart.rest_iff, separatedOthers.rest_iff, same, sameStop]
      rw [sameRange, sameRest]

end Separated

/-- The list of the manifest's constructor. -/
def initialTrxnGroupRanges : List TrxnGroupRange :=
  [⟨0, 0⟩, ⟨maxTrxnGroup, maxTrxnGroup⟩]

/-- `AddCompletedTrxnGroupRange` of one group after the other. -/
def addCompletedTrxnGroups (completed : List Nat) : List TrxnGroupRange :=
  completed.foldl (fun ranges tgid => addCompletedTrxnGroupRange tgid ranges)
    initialTrxnGroupRanges

theorem addCompletedTrxnGroups_append (completed : List Nat) (tgid : Nat) :
    addCompletedTrxnGroups (completed ++ [tgid]) =
      addCompletedTrxnGroupRange tgid (addCompletedTrxnGroups completed) :=
  foldl_concat ..

theorem addCompletedTrxnGroups_spec {completed : List Nat} (nodup : completed.Nodup)
    (between : ∀ tgid ∈ completed, 0 < tgid ∧ tgid < maxTrxnGroup) :
    Separated (addCompletedTrxnGroups completed) ∧
      ∀ tgid, isCompletedTrxnGroupRange (addCompletedTrxnGroups completed) tgid = true ↔
        tgid = 0 ∨ tgid = maxTrxnGroup ∨ tgid ∈ completed := by
  -- From the first completion to the last: the new group is outside of what was covered.
  induction completed using reverseRecOn with
  | nil => exact ⟨TrxnManifest.Accounts.initial.separated, TrxnManifest.Accounts.initial.ranges⟩
  | append_singleton earlier tgid ih =>
    have isNew : tgid ∉ earlier := by
      intro mem
      exact (nodup_append.mp nodup).2.2 tgid mem tgid (mem_singleton_self _) rfl
    have atLast := between tgid (mem_append_right _ (mem_singleton_self _))
    obtain ⟨apart, covers⟩ := ih (nodup_append.mp nodup).1
      (fun other mem => between other (mem_append_left _ mem))
    have outside : isCompletedTrxnGroupRange (addCompletedTrxnGroups earlier) tgid = false := by
      apply Bool.eq_false_iff.mpr
      intro covered
      rcases (covers tgid).mp covered with isZero | isMax | mem
      · omega
      · omega
      · exact isNew mem
    have reaches := (covers maxTrxnGroup).mpr (Or.inr (.inl rfl))
    obtain ⟨added, coversMore⟩ := addCompletedTrxnGroupRange_spec apart atLast.2 outside reaches
    rw [addCompletedTrxnGroups_append]
    refine ⟨added, fun other => ?_⟩
    rw [coversMore, covers, mem_append, mem_singleton, or_assoc, or_assoc]

theorem completed_groups_normal_form {completed : List Nat} (distinct : completed.Nodup)
    (between : ∀ tgid ∈ completed, 0 < tgid ∧ tgid < maxTrxnGroup) :
    (∀ range ∈ addCompletedTrxnGroups completed, range.start ≤ range.stop) ∧
      (addCompletedTrxnGroups completed).Pairwise
        (fun range later => range.stop + 1 < later.start) ∧
      (∀ tgid, (∃ range ∈ addCompletedTrxnGroups completed,
          range.start ≤ tgid ∧ tgid ≤ range.stop) ↔
        tgid = 0 ∨ tgid = maxTrxnGroup ∨ tgid ∈ completed) ∧
      (∀ order, order.Perm completed →
        addCompletedTrxnGroups order = addCompletedTrxnGroups completed) ∧
      ∀ tgid, isCompletedTrxnGroupRange (addCompletedTrxnGroups completed) tgid = true ↔
        ∃ range ∈ addCompletedTrxnGroups completed, range.start ≤ tgid ∧ tgid ≤ range.stop := by
  obtain ⟨separated, covers⟩ := addCompletedTrxnGroups_spec distinct between
  have covered : ∀ tgid, isCompletedTrxnGroupRange (addCompletedTrxnGroups completed) tgid = true ↔
        ∃ range ∈ addCompletedTrxnGroups completed, range.start ≤ tgid ∧ tgid ≤ range.stop := by
    intro tgid
    simp [isCompletedTrxnGroupRange]
  refine ⟨fun range member => (separated.ordered range member).1, separated.apart,
    fun tgid => (covered tgid).symm.trans (covers tgid), ?_, covered⟩
  intro _ reordered
  obtain ⟨separatedOrder, coversOrder⟩ := addCompletedTrxnGroups_spec
    (reordered.nodup_iff.mpr distinct)
    (fun tgid member => between tgid (reordered.mem_iff.mp member))
  apply separatedOrder.eq_of_covers separated
  intro _
  rw [Bool.eq_iff_iff, coversOrder, covers, reordered.mem_iff]

theorem completed_groups_normal_form_of_three :
    addCompletedTrxnGroups [3, 1, 2] = [⟨0, 3⟩, ⟨maxTrxnGroup, maxTrxnGroup⟩] ∧
      addCompletedTrxnGroups [1, 2, 3] = addCompletedTrxnGroups [3, 1, 2] :=
  ⟨by decide, (completed_groups_normal_form (by decide) (by decide)).2.2.2.1 [1, 2, 3]
    (by decide)⟩

end InsDb
