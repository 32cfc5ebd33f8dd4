import InsDb.Library.Rows

/-!
# Key ranges in order

A store is cut into segments, each with the least key of its range.  A key is looked up in
the segment that owns it.  As long as every segment keeps to its range, this is a lookup in
all segments at once, and a segment may be replaced by several that divide its range.
-/

namespace InsDb.Library.Partition

open InsDb.Library.Rows List

variable {K Row Segment : Type} [LinearOrder K]

/-- The last segment that begins at or before the key, and the first one for a key below
all others. -/
def owner (begins : Segment → K) (key : K) : List Segment → Option Segment
  | [] => none
  | segment :: rest =>
    match rest with
    | [] => some segment
    | next :: _ => if begins next ≤ key then owner begins key rest else some segment

/-- Segments in key order that keep to their ranges; the first one has no lower bound. -/
structure InOrder (begins : Segment → K) (has : Segment → K → Prop)
    (segments : List Segment) : Prop where
  ordered : segments.Pairwise fun earlier later => begins earlier < begins later
  below : segments.Pairwise fun earlier later => ∀ key, has earlier key → key < begins later
  above : ∀ segment ∈ segments.tail, ∀ key, has segment key → begins segment ≤ key

variable {begins : Segment → K} {has : Segment → K → Prop}

theorem owner_cons_cons (key : K) (segment next : Segment) (rest : List Segment) :
    owner begins key (segment :: next :: rest) =
      if begins next ≤ key then owner begins key (next :: rest) else some segment := rfl

theorem InOrder.of_cons {segment : Segment} {rest : List Segment}
    (inOrder : InOrder begins has (segment :: rest)) : InOrder begins has rest := by
  refine ⟨(pairwise_cons.mp inOrder.ordered).2, (pairwise_cons.mp inOrder.below).2, ?_⟩
  intro other mem
  exact inOrder.above other (mem_of_mem_tail mem)

theorem get_flatMap_eq_none {rows : Segment → List (K × Row)} {segments : List Segment}
    {key : K} (absent : ∀ segment ∈ segments, get (rows segment) key = none) :
    get (segments.flatMap rows) key = none := by
  induction segments with
  | nil => rfl
  | cons segment rest ih =>
    rw [flatMap_cons, get_append, absent segment mem_cons_self,
      ih fun other mem => absent other (mem_cons_of_mem _ mem)]
    rfl

theorem get_flatMap_eq_owner {segments : List Segment} (inOrder : InOrder begins has segments)
    (rows : Segment → List (K × Row))
    (inside : ∀ segment key, (get (rows segment) key).isSome = true → has segment key) (key : K) :
    get (segments.flatMap rows) key =
      (owner begins key segments).bind fun segment => get (rows segment) key := by
  induction segments with
  | nil => rfl
  | cons segment rest ih =>
    cases rest with
    | nil => simp [owner]
    | cons next rest =>
      rw [owner_cons_cons, flatMap_cons, get_append]
      split_ifs with reached
      · have absent : get (rows segment) key = none := by
          by_contra present
          have lower := (pairwise_cons.mp inOrder.below).1 next mem_cons_self
            key (inside segment key (Option.isSome_iff_ne_none.mpr present))
          exact absurd reached (not_le_of_gt lower)
        rw [absent, Option.none_or]
        exact ih inOrder.of_cons
      have absent : get ((next :: rest).flatMap rows) key = none := by
        apply get_flatMap_eq_none
        intro other mem
        by_contra present
        have notBelow := inOrder.above other mem key
          (inside other key (Option.isSome_iff_ne_none.mpr present))
        have nextFirst : ∀ other ∈ next :: rest, begins next ≤ begins other :=
          forall_mem_cons.mpr ⟨le_rfl, fun later isLater =>
            le_of_lt ((pairwise_cons.mp inOrder.of_cons.ordered).1 later isLater)⟩
        exact reached (le_trans (nextFirst other mem) notBelow)
      rw [absent, Option.or_none, Option.bind_some]

theorem InOrder.replace {front back divided : List Segment} {segment : Segment}
    (inOrder : InOrder begins has (front ++ segment :: back))
    (dividedOrder : InOrder begins has divided)
    (above : ∀ part ∈ divided, ∀ key, has part key → begins part ≤ key)
    (keys : ∀ part ∈ divided, ∀ key, has part key → has segment key)
    (cuts : ∀ part ∈ divided, begins segment ≤ begins part ∧
      (begins part = begins segment ∨ has segment (begins part))) :
    InOrder begins has (front ++ (divided ++ back)) := by
  obtain ⟨frontOrdered, restOrdered, frontBefore⟩ := pairwise_append.mp inOrder.ordered
  obtain ⟨frontBelow, restBelow, frontUnder⟩ := pairwise_append.mp inOrder.below
  obtain ⟨segmentBefore, backOrdered⟩ := pairwise_cons.mp restOrdered
  obtain ⟨segmentUnder, backBelow⟩ := pairwise_cons.mp restBelow
  have isSeg : segment ∈ segment :: back := mem_cons_self
  refine ⟨?_, ?_, ?_⟩
  · refine pairwise_append.mpr ⟨frontOrdered, ?_, ?_⟩
    · refine pairwise_append.mpr ⟨dividedOrder.ordered, backOrdered, ?_⟩
      intro part isPart later isLater
      rcases (cuts part isPart).2 with same | isKey
      · exact same ▸ segmentBefore later isLater
      · exact segmentUnder later isLater _ isKey
    intro earlier isEarlier later isLater
    rcases mem_append.mp isLater with isPart | inBack
    · exact lt_of_lt_of_le (frontBefore earlier isEarlier segment isSeg) (cuts later isPart).1
    · exact frontBefore earlier isEarlier later (mem_cons_of_mem _ inBack)
  · refine pairwise_append.mpr ⟨frontBelow, ?_, ?_⟩
    · refine pairwise_append.mpr ⟨dividedOrder.below, backBelow, ?_⟩
      intro part isPart later isLater key isKey
      exact segmentUnder later isLater key (keys part isPart key isKey)
    intro earlier isEarlier later isLater key isKey
    rcases mem_append.mp isLater with isPart | inBack
    · exact lt_of_lt_of_le (frontUnder earlier isEarlier segment isSeg key isKey)
        (cuts later isPart).1
    · exact frontUnder earlier isEarlier later (mem_cons_of_mem _ inBack) key isKey
  intro other mem
  cases front with
  | nil =>
    rw [nil_append] at mem
    rcases mem_append.mp (mem_of_mem_tail mem) with isPart | inBack
    · exact above other isPart
    · exact inOrder.above other inBack
  | cons =>
    rcases mem_append.mp mem with inFront | later
    · exact inOrder.above other (mem_append_left _ inFront)
    rcases mem_append.mp later with isPart | inBack
    · exact above other isPart
    exact inOrder.above other (mem_append_right _ (mem_cons_of_mem _ inBack))

end InsDb.Library.Partition
