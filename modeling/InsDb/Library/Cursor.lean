import Mathlib.Order.Bounds.Basic
import Mathlib.Data.List.Pairwise

/-!
# Cursors over segmented lists

An ordered collection is cut into segments.  A cursor looks for a wanted key by
visiting segments along a route and asking each one for the position of its first
wanted key.  `Lands` says that the key it ends on comes first, in the order of the
route, among all wanted keys of all segments.
-/

namespace InsDb.Library.Cursor

open Option

variable {K : Type}

structure Position where
  segment : Nat
  offset : Nat
deriving DecidableEq, Repr

def keyAt (segments : List (List K)) (position : Position) : Option K :=
  (segments[position.segment]?).bind fun segment => segment[position.offset]?

def follow (choose : Nat → Option Nat) (route : List Nat) : Option Position :=
  route.findSome? fun segment => (choose segment).map (Position.mk segment)

theorem follow_cons (choose : Nat → Option Nat) (segment : Nat) (route : List Nat) :
    follow choose (segment :: route) =
      match choose segment with
      | some offset => some ⟨segment, offset⟩
      | none => follow choose route := by
  cases chosen : choose segment <;> simp [follow, chosen]

theorem follow_congr {first second : Nat → Option Nat} {route : List Nat}
    (same : ∀ segment ∈ route, first segment = second segment) :
    follow first route = follow second route := by
  induction route with
  | nil => rfl
  | cons segment rest ih =>
    rw [follow_cons, follow_cons, same segment (List.mem_cons_self),
      ih fun other mem => same other (List.mem_cons_of_mem _ mem)]

/-- The offset of the wanted key that comes before all other wanted keys. -/
def FirstWanted (precedes : K → K → Prop) (wanted : K → Prop) (segment : List K) :
    Option Nat → Prop
  | some offset => ∃ key, segment[offset]? = some key ∧ wanted key ∧
      ∀ other ∈ segment, wanted other → other = key ∨ precedes key other
  | none => ∀ other ∈ segment, ¬ wanted other

/-- The position of the wanted key that comes before all other wanted keys. -/
def Lands (precedes : K → K → Prop) (wanted : K → Prop) (segments : List (List K)) :
    Option Position → Prop
  | some position => ∃ key, keyAt segments position = some key ∧ wanted key ∧
      ∀ other ∈ segments.flatten, wanted other → other = key ∨ precedes key other
  | none => ∀ other ∈ segments.flatten, ¬ wanted other

theorem mem_flatten_iff {segments : List (List K)} {key : K} : key ∈ segments.flatten ↔
      ∃ (i : Nat) (segment : List K), segments[i]? = some segment ∧ key ∈ segment := by
  rw [List.mem_flatten]
  constructor
  · rintro ⟨segment, mem, inSegment⟩
    obtain ⟨i, isSeg⟩ := List.mem_iff_getElem?.mp mem
    exact ⟨i, segment, isSeg, inSegment⟩
  rintro ⟨_, segment, isSeg, inSegment⟩
  exact ⟨segment, List.mem_of_getElem? isSeg, inSegment⟩

theorem mem_flatten_of_keyAt {segments : List (List K)} {pos : Position} {key : K}
    (isAt : keyAt segments pos = some key) : key ∈ segments.flatten := by
  obtain ⟨segment, isSeg, isKey⟩ := bind_eq_some_iff.mp isAt
  exact mem_flatten_iff.mpr ⟨pos.segment, segment, isSeg, List.mem_of_getElem? isKey⟩

section Route

variable {precedes : K → K → Prop} {wanted : K → Prop} {segments : List (List K)}
  {choose : Nat → Option Nat} {route : List Nat}

/-- Keys of a segment precede the keys of segments later on the route. -/
def RouteOrdered (precedes : K → K → Prop) (segments : List (List K))
    (route : List Nat) : Prop :=
  route.Pairwise fun earlier later =>
    ∀ first second : List K,
      segments[earlier]? = some first → segments[later]? = some second →
      ∀ key ∈ first, ∀ other ∈ second, precedes key other

theorem lands_follow (ordered : RouteOrdered precedes segments route)
    (valid : ∀ i ∈ route, i < segments.length)
    (outside : ∀ (i : Nat) (segment : List K), segments[i]? = some segment → i ∉ route →
      ∀ key ∈ segment, ¬ wanted key)
    (chooses : ∀ i ∈ route, ∀ segment, segments[i]? = some segment →
      FirstWanted precedes wanted segment (choose i)) :
    Lands precedes wanted segments (follow choose route) := by
  cases followed : follow choose route with
  | none =>
    intro key mem isWanted
    obtain ⟨i, segment, isSeg, inSegment⟩ := mem_flatten_iff.mp mem
    by_cases onRoute : i ∈ route
    · have noAnswer : choose i = none := by
        have skipped := List.findSome?_eq_none_iff.mp followed i onRoute
        simpa using skipped
      have first := chooses i onRoute segment isSeg
      rw [noAnswer] at first
      exact first key inSegment isWanted
    · exact outside i segment isSeg onRoute key inSegment isWanted
  | some =>
    obtain ⟨earlier, i, later, isRoute, answer, skipped⟩ :=
      List.findSome?_eq_some_iff.mp followed
    obtain ⟨_, chosen, rfl⟩ := map_eq_some_iff.mp answer
    have onRoute : i ∈ route := by simp [isRoute]
    have isSeg := List.getElem?_eq_getElem (valid i onRoute)
    have first := chooses i onRoute _ isSeg
    rw [chosen] at first
    obtain ⟨key, isKey, isWanted, least⟩ := first
    refine ⟨key, by simp [keyAt, isSeg, isKey], isWanted, ?_⟩
    intro other mem otherWanted
    obtain ⟨otherIndex, segment, otherSegment, inSegment⟩ := mem_flatten_iff.mp mem
    by_cases otherOnRoute : otherIndex ∈ route
    · have place : otherIndex ∈ earlier ∨ otherIndex = i ∨ otherIndex ∈ later := by
        simpa [isRoute] using otherOnRoute
      rcases place with pre | rfl | post
      · -- A segment that was skipped has no wanted key.
        have noAnswer : choose otherIndex = none := by simpa using skipped otherIndex pre
        have none := chooses otherIndex otherOnRoute segment otherSegment
        rw [noAnswer] at none
        exact absurd otherWanted (none other inSegment)
      · obtain rfl : segment = _ := some.inj (otherSegment.symm.trans isSeg)
        exact least other inSegment otherWanted
      rw [RouteOrdered, isRoute, List.pairwise_append, List.pairwise_cons] at ordered
      have comesAfter := ordered.2.1.1 otherIndex post
      exact .inr (comesAfter _ segment isSeg otherSegment key
        (List.mem_of_getElem? isKey) other inSegment)
    · exact absurd otherWanted
        (outside otherIndex segment otherSegment otherOnRoute other inSegment)

end Route

theorem Lands.eq_none_iff {precedes : K → K → Prop} {wanted : K → Prop}
    {segments : List (List K)} {result : Option Position}
    (lands : Lands precedes wanted segments result) :
    result = none ↔ ∀ other ∈ segments.flatten, ¬ wanted other := by
  cases result with
  | none => exact ⟨fun _ => lands, fun _ => rfl⟩
  | some =>
    obtain ⟨landed, isAt, isWanted, -⟩ := lands
    simp only [reduceCtorEq, false_iff]
    exact fun nothing => nothing landed (mem_flatten_of_keyAt isAt) isWanted

def repeated (step : Position → Option Position) : Nat → Option Position → Option Position
  | 0, position => position
  | count + 1, position => repeated step count (position.bind step)

theorem repeated_none (step : Position → Option Position) (count : Nat) :
    repeated step count none = none := by
  induction count with
  | zero => rfl
  | succ count ih => exact ih

theorem keyAt_repeated {segments : List (List K)} {step : Position → Option Position}
    (left : K → List K) (one : ∀ pos key, keyAt segments pos = some key →
      (step pos = none ∧ left key = []) ∨
        ∃ stepped reached, step pos = some stepped ∧ keyAt segments stepped = some reached ∧
          left key = reached :: left reached)
    (count : Nat) {pos : Position} {key : K} (isAt : keyAt segments pos = some key) :
    (repeated step (count + 1) (some pos)).bind (keyAt segments) = (left key)[count]? := by
  induction count generalizing pos key with
  | zero =>
    rw [repeated, repeated, bind_some]
    obtain ⟨ended, nothing⟩ | ⟨_, _, moved, isReached, cons⟩ := one pos key isAt
    · simp [ended, nothing]
    · simp [moved, isReached, cons]
  | succ count ih =>
    rw [repeated, bind_some]
    obtain ⟨ended, nothing⟩ | ⟨_, _, moved, isReached, cons⟩ := one pos key isAt
    · simp [ended, nothing, repeated_none]
    · rw [moved, ih isReached, cons, List.getElem?_cons_succ]

variable [LinearOrder K] {wanted : K → Prop} {segments : List (List K)}

theorem Lands.isLeast_iff {result : Option Position}
    (lands : Lands (· < ·) wanted segments result) (key : K) :
    result.bind (keyAt segments) = some key ↔
      IsLeast { other | other ∈ segments.flatten ∧ wanted other } key := by
  cases result with
  | none =>
    simp only [bind_none, reduceCtorEq, false_iff]
    rintro ⟨⟨mem, isWanted⟩, -⟩
    exact lands key mem isWanted
  | some =>
    obtain ⟨landed, isAt, isWanted, first⟩ := lands
    have least : IsLeast { other | other ∈ segments.flatten ∧ wanted other } landed := by
      refine ⟨⟨mem_flatten_of_keyAt isAt, isWanted⟩, ?_⟩
      rintro other ⟨mem, otherWanted⟩
      rcases first other mem otherWanted with same | above
      · exact le_of_eq same.symm
      · exact le_of_lt above
    rw [bind_some, isAt, some.injEq]
    exact ⟨fun same => same ▸ least, fun other => least.unique other⟩

theorem Lands.isGreatest_iff {result : Option Position}
    (lands : Lands (· > ·) wanted segments result) (key : K) :
    result.bind (keyAt segments) = some key ↔
      IsGreatest { other | other ∈ segments.flatten ∧ wanted other } key :=
  -- The greatest key is the least one of the dual order.
  @Lands.isLeast_iff Kᵒᵈ _ wanted segments result lands key

theorem Lands.of_isGreatest_iff {ideal result : Option Position}
    (lands : Lands (· > ·) wanted segments ideal)
    (greatest : ∀ key, result.bind (keyAt segments) = some key ↔
      IsGreatest { other | other ∈ segments.flatten ∧ wanted other } key)
    (invalid : result = none ↔ ∀ other ∈ segments.flatten, ¬ wanted other) :
    Lands (· > ·) wanted segments result := by
  cases result with
  | none => exact invalid.mp rfl
  | some =>
    cases ideal with
    | none => exact absurd (invalid.mpr lands) (by simp)
    | some =>
      obtain ⟨key, isAt, -, -⟩ := id lands
      have isGreatest := (lands.isGreatest_iff key).mp isAt
      have reached := (greatest key).mpr isGreatest
      refine ⟨key, reached, isGreatest.1.2, ?_⟩
      intro _ mem isWanted
      exact (lt_or_eq_of_le (isGreatest.2 ⟨mem, isWanted⟩)).symm

theorem filter_above_of_isLeast {keys : List K} (sorted : keys.Pairwise (· < ·))
    {key next : K} (least : IsLeast { other | other ∈ keys ∧ key < other } next) :
    keys.filter (fun other => key < other) = next :: keys.filter fun other => next < other := by
  obtain ⟨⟨mem, above⟩, lower⟩ := least
  obtain ⟨front, back, rfl⟩ := List.append_of_mem mem
  obtain ⟨-, backAscending, frontBelow⟩ := List.pairwise_append.mp sorted
  have backAbove := (List.pairwise_cons.mp backAscending).1
  have noneInFront : front.filter (fun other => decide (key < other)) = [] := by
    rw [List.filter_eq_nil_iff]
    intro other inFront
    have belowNext := frontBelow other inFront next (List.mem_cons_self)
    simp only [decide_eq_true_eq, not_lt]
    by_contra notBelow
    have bound := lower ⟨by simp [inFront], not_le.mp notBelow⟩
    exact absurd belowNext (not_lt_of_ge bound)
  have noneBefore : front.filter (fun other => decide (next < other)) = [] := by
    rw [List.filter_eq_nil_iff]
    intro other inFront
    simpa using le_of_lt (frontBelow other inFront next (List.mem_cons_self))
  have allAbove : ∀ bound, bound ≤ next →
      back.filter (fun other => decide (bound < other)) = back := by
    intro _ le
    rw [List.filter_eq_self]
    intro other inBack
    simpa using lt_of_le_of_lt le (backAbove other inBack)
  rw [List.filter_append, List.filter_append, noneInFront, noneBefore,
    List.filter_cons_of_pos (by simpa using above), List.filter_cons_of_neg (by simp),
    allAbove key (le_of_lt above), allAbove next le_rfl]
  rfl

theorem filter_below_of_isGreatest {keys : List K} (sorted : keys.Pairwise (· < ·))
    {key previous : K} (greatest : IsGreatest { other | other ∈ keys ∧ other < key } previous) :
    keys.filter (fun other => other < key) =
      (keys.filter fun other => other < previous) ++ [previous] := by
  have least : IsGreatest { other | other ∈ keys.reverse ∧ other < key } previous := by
    simpa only [List.mem_reverse] using greatest
  have reversed := @filter_above_of_isLeast Kᵒᵈ _ keys.reverse
    (List.pairwise_reverse.mpr sorted) key previous least
  rw [← List.reverse_inj, List.reverse_append, ← List.filter_reverse, ← List.filter_reverse]
  exact reversed

end InsDb.Library.Cursor
