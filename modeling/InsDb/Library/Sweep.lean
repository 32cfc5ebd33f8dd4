import Mathlib.Order.Lattice
import Mathlib.Data.List.Basic

/-!
# Sweeping intervals over a descending list of points

A chain of half-open intervals is visited from the highest to the lowest while a
cursor moves down a descending list of points.  Each interval consumes the points
that are not below its lower bound and is hit when one of the consumed points is
below its upper bound.  As long as every interval ends no later than the one
visited before it begins, the cursor never skips a point that a later interval
contains, so one pass answers, for each interval, whether any point stabs it.
-/

namespace InsDb.Library.Sweep

variable {Point : Type} [LinearOrder Point]

/-- Consume the points not below `low`; report whether one of them is below
`high`. -/
def stab (low high : Point) : List Point → Bool × List Point
  | [] => (false, [])
  | point :: rest =>
    if low ≤ point then
      ((decide (point < high) || (stab low high rest).1), (stab low high rest).2)
    else
      (false, point :: rest)

def Descending (points : List Point) : Prop :=
  points.Pairwise (fun earlier later => later ≤ earlier)

/-- The cursor has consumed exactly the points that are not below `bound`. -/
def Consumed (points : List Point) (bound : Point) (remaining : List Point) : Prop :=
  remaining = points.filter (· < bound)

theorem Descending.tail {point : Point} {rest : List Point}
    (descending : Descending (point :: rest)) : Descending rest :=
  (List.pairwise_cons.mp descending).2

theorem Descending.filter {points : List Point} (descending : Descending points)
    (keep : Point → Bool) : Descending (points.filter keep) :=
  List.Pairwise.filter keep descending

theorem stab_remaining (low high : Point) (points : List Point) (descending : Descending points) :
    (stab low high points).2 = points.filter (· < low) := by
  induction points with
  | nil => rfl
  | cons point rest ih =>
    by_cases reached : low ≤ point
    · simp only [stab, if_pos reached, ih descending.tail]
      rw [List.filter_cons_of_neg (by simpa using reached)]
    have below : point < low := not_le.mp reached
    have allBelow : ∀ other ∈ point :: rest, other < low := by
      intro other mem
      rcases List.mem_cons.mp mem with rfl | later
      · exact below
      · exact lt_of_le_of_lt ((List.pairwise_cons.mp descending).1 other later) below
    simp only [stab, if_neg reached]
    rw [List.filter_eq_self.mpr (by simpa using allBelow)]

theorem stab_hit (low high : Point) (points : List Point) (descending : Descending points) :
    (stab low high points).1 = true ↔ ∃ point ∈ points, low ≤ point ∧ point < high := by
  induction points with
  | nil => simp [stab]
  | cons point rest ih =>
    by_cases reached : low ≤ point
    · rw [stab, if_pos reached, Bool.or_eq_true, decide_eq_true_eq, ih descending.tail,
        List.exists_mem_cons_iff]
      simp [reached]
    have noneStabs : ¬ ∃ other ∈ point :: rest, low ≤ other ∧ other < high := by
      rintro ⟨other, mem, above, -⟩
      rcases List.mem_cons.mp mem with rfl | later
      · exact reached above
      · exact reached (le_trans above ((List.pairwise_cons.mp descending).1 other later))
    simp only [stab, if_neg reached, noneStabs, Bool.false_eq_true]

theorem consumed_all {points : List Point} {bound : Point}
    (below : ∀ point ∈ points, point < bound) : Consumed points bound points := by
  rw [Consumed, eq_comm, List.filter_eq_self]
  simpa using below

section

variable {points remaining : List Point} {bound : Point} (low high : Point)
  (descending : Descending points) (consumed : Consumed points bound remaining)

include low high descending consumed

theorem stab_hit_of_consumed (ends : high ≤ bound) :
    (stab low high remaining).1 = true ↔ ∃ point ∈ points, low ≤ point ∧ point < high := by
  subst consumed
  rw [stab_hit low high _ (descending.filter _)]
  constructor
  · rintro ⟨point, mem, inside⟩
    exact ⟨point, (List.mem_filter.mp mem).1, inside⟩
  rintro ⟨point, mem, above, below⟩
  refine ⟨point, List.mem_filter.mpr ⟨mem, ?_⟩, above, below⟩
  exact decide_eq_true (lt_of_lt_of_le below ends)

theorem consumed_stab (lower : low ≤ bound) : Consumed points low (stab low high remaining).2 := by
  subst consumed
  rw [Consumed, stab_remaining low high _ (descending.filter _), List.filter_filter]
  apply List.filter_congr
  intro _ _
  simp only [Bool.and_eq_left_iff_imp, decide_eq_true_eq]
  intro below
  exact lt_of_lt_of_le below lower

end

end InsDb.Library.Sweep
