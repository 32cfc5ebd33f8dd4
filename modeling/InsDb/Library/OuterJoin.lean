import InsDb.Library.Rows
import Mathlib.Data.List.TakeWhile

/-!
# Joining two ascending streams

Both streams hold rows with strictly ascending keys.  The join visits every key of
either stream once, in ascending order, with the row that each stream has for it.
-/

namespace InsDb.Library.OuterJoin

open InsDb.Library.Rows

variable {K Row Left Right Entry : Type} [LinearOrder K]

structure Item (K Left Right : Type) where
  key : K
  left : Option Left
  right : Option Right
deriving DecidableEq, Repr

def rightOnly (row : K × Right) : Item K Left Right :=
  ⟨row.1, none, some row.2⟩

/-- Right rows below the next left key come first; then that key, with its right row
if it has one. -/
def join : List (K × Left) → List (K × Right) → List (Item K Left Right)
  | [], rights => rights.map rightOnly
  | (key, left) :: lefts, rights =>
    (rights.takeWhile fun row => row.1 < key).map rightOnly ++
      match rights.dropWhile fun row => row.1 < key with
      | [] => ⟨key, some left, none⟩ :: join lefts []
      | row :: rest =>
        if row.1 = key then
          ⟨key, some left, some row.2⟩ :: join lefts rest
        else
          ⟨key, some left, none⟩ :: join lefts (row :: rest)

theorem takeWhile_below (rows : List (K × Row)) (key : K) (ascending : Ascending rows) :
    (rows.takeWhile fun row => row.1 < key) = rows.filter fun row => row.1 < key := by
  induction rows with
  | nil => rfl
  | cons first rest ih =>
    obtain ⟨above, restAscending⟩ := List.pairwise_cons.mp ascending
    by_cases below : first.1 < key
    · rw [List.takeWhile_cons_of_pos (by simpa using below),
        List.filter_cons_of_pos (by simpa using below), ih restAscending]
    have noneBelow : ∀ row ∈ first :: rest, ¬ row.1 < key := by
      intro row mem
      rcases List.mem_cons.mp mem with rfl | later
      · exact below
      · exact fun lower => below (lt_trans (above row later) lower)
    rw [List.takeWhile_cons_of_neg (by simpa using below), eq_comm, List.filter_eq_nil_iff]
    simpa using noneBelow

theorem dropWhile_below (rows : List (K × Row)) (key : K) (ascending : Ascending rows) :
    (rows.dropWhile fun row => row.1 < key) = rows.filter fun row => ! decide (row.1 < key) := by
  induction rows with
  | nil => rfl
  | cons first rest ih =>
    obtain ⟨above, restAscending⟩ := List.pairwise_cons.mp ascending
    by_cases below : first.1 < key
    · rw [List.dropWhile_cons_of_pos (by simpa using below),
        List.filter_cons_of_neg (by simpa using below), ih restAscending]
    have noneBelow : ∀ row ∈ first :: rest, ¬ row.1 < key := by
      intro row mem
      rcases List.mem_cons.mp mem with rfl | later
      · exact below
      · exact fun lower => below (lt_trans (above row later) lower)
    rw [List.dropWhile_cons_of_neg (by simpa using below), eq_comm, List.filter_eq_self]
    simpa using noneBelow

theorem join_cons (key : K) (left : Left) (lefts : List (K × Left))
    (rights : List (K × Right)) (ascending : Ascending rights) :
    join ((key, left) :: lefts) rights = (rights.filter fun row => row.1 < key).map rightOnly ++
        ⟨key, some left, get rights key⟩ :: join lefts (rights.filter fun row => key < row.1) := by
  have notBelow := dropWhile_below rights key ascending
  have above : (rights.filter fun row => ! decide (row.1 < key)).filter
      (fun row => decide (key < row.1)) = rights.filter fun row => key < row.1 := by
    rw [List.filter_filter]
    apply List.filter_congr
    intro row _
    simp only [Bool.and_eq_left_iff_imp, decide_eq_true_eq, Bool.not_eq_eq_eq_not, Bool.not_true,
      decide_eq_false_iff_not, not_lt]
    exact le_of_lt
  have found : get (rights.filter fun row => ! decide (row.1 < key)) key = get rights key := by
    have kept := get_filter rights (fun other => ! decide (other < key)) key
    simpa using kept
  have stays := ascending.filter fun row => ! decide (row.1 < key)
  have bound : ∀ row ∈ rights.filter (fun row => ! decide (row.1 < key)), key ≤ row.1 := by
    intro row mem
    simpa using (List.mem_filter.mp mem).2
  simp only [join, takeWhile_below rights key ascending, notBelow]
  congr 1
  rw [← found, ← above]
  cases high : rights.filter (fun row => ! decide (row.1 < key)) with
  | nil => rfl
  | cons row rest =>
    rw [high] at stays bound
    obtain ⟨later, -⟩ := List.pairwise_cons.mp stays
    by_cases same : row.1 = key
    · have restAbove : rest.filter (fun other => decide (key < other.1)) = rest := by
        rw [List.filter_eq_self]
        intro other mem
        simpa [same] using later other mem
      simp [same, get_cons, restAbove]
    have rowAbove : key < row.1 := lt_of_le_of_ne (bound row (List.mem_cons_self)) (Ne.symm same)
    have allAbove : (row :: rest).filter (fun other => decide (key < other.1)) = row :: rest := by
      rw [List.filter_eq_self]
      intro other mem
      rcases List.mem_cons.mp mem with rfl | inRest
      · simpa using rowAbove
      · simpa using lt_trans rowAbove (later other inRest)
    have missing : get (row :: rest) key = none := by
      apply get_eq_none_of_forall_ne
      intro other mem
      rcases List.mem_cons.mp mem with rfl | inRest
      · exact same
      · exact ne_of_gt (lt_trans rowAbove (later other inRest))
    rw [allAbove, missing]
    simp only [if_neg same]

section

variable {lefts : List (K × Left)} {rights : List (K × Right)}
  (leftsAscending : Ascending lefts) (ascending : Ascending rights)

include leftsAscending ascending

theorem mem_join_iff (item : Item K Left Right) : item ∈ join lefts rights ↔
      item.left = get lefts item.key ∧ item.right = get rights item.key ∧
        (item.left.isSome = true ∨ item.right.isSome = true) := by
  induction lefts generalizing rights with
  | nil =>
    rw [join, List.mem_map]
    constructor
    · rintro ⟨row, mem, rfl⟩
      simp [rightOnly, get_of_mem ascending mem]
    rintro ⟨noLeft, sameRow, present⟩
    obtain ⟨row, found⟩ : ∃ row, get rights item.key = some row := by
      simpa [noLeft, sameRow, Option.isSome_iff_exists] using present
    refine ⟨(item.key, row), mem_of_get found, ?_⟩
    cases item
    simp_all [rightOnly]
  | cons first lefts ih =>
    obtain ⟨key, left⟩ := first
    obtain ⟨leftsAbove, restAscending⟩ := List.pairwise_cons.mp leftsAscending
    have rest := ih restAscending (ascending.filter fun row => key < row.1)
    have higher := get_filter rights (fun other => decide (key < other)) item.key
    rw [join_cons key left lefts rights ascending, List.mem_append, List.mem_cons, rest,
      higher, List.mem_map, get_cons]
    have noneFrom : ∀ other, other ≤ key → get lefts other = none := by
      intro _ notAbove
      apply get_eq_none_of_forall_ne
      intro row mem same
      exact absurd (leftsAbove row mem) (not_lt.mpr (same ▸ notAbove))
    rcases lt_trichotomy item.key key with below | same | above
    · -- Below the next left key only right rows are left.
      rw [if_neg (ne_of_gt below), noneFrom item.key (le_of_lt below)]
      constructor
      · rintro (⟨row, mem, rfl⟩ | rfl | ⟨noLeft, noRight, present⟩)
        · have found := get_of_mem ascending (List.mem_filter.mp mem).1
          exact ⟨rfl, found.symm, Or.inr rfl⟩
        · exact absurd below (lt_irrefl _)
        · simp [noLeft, noRight, not_lt_of_gt below] at present
      rintro ⟨noLeft, sameRow, present⟩
      obtain ⟨row, isRow⟩ : ∃ row, item.right = some row := by
        simpa [noLeft, Option.isSome_iff_exists] using present
      refine .inl ⟨(item.key, row), ?_, ?_⟩
      · exact List.mem_filter.mpr ⟨mem_of_get (by rw [← sameRow, isRow]), by simpa using below⟩
      cases item
      simp_all [rightOnly]
    · rw [if_pos same.symm]
      constructor
      · rintro (⟨row, mem, rfl⟩ | rfl | ⟨noLeft, noRight, present⟩)
        · have lower : row.1 < key := by simpa using (List.mem_filter.mp mem).2
          exact absurd same (ne_of_lt lower)
        · simp
        · simp [noLeft, noRight, same, noneFrom key le_rfl] at present
      rintro ⟨_, _, -⟩
      refine .inr (.inl ?_)
      cases item
      simp_all
    · have notRightOnly : ¬ ∃ row ∈ rights.filter (fun row => decide (row.1 < key)),
          rightOnly row = item := by
        rintro ⟨row, mem, rfl⟩
        have lower : row.1 < key := by simpa using (List.mem_filter.mp mem).2
        exact lt_asymm above lower
      have notNext : item ≠ ⟨key, some left, get rights key⟩ := by
        rintro rfl
        exact lt_irrefl key above
      simp only [notRightOnly, notNext, false_or, above, ne_of_lt above, decide_true, if_true,
        if_false]

theorem join_ascending :
    (join lefts rights).Pairwise fun earlier later => earlier.key < later.key := by
  induction lefts generalizing rights with
  | nil =>
    rw [join, List.pairwise_map]
    exact ascending
  | cons first lefts ih =>
    obtain ⟨key, left⟩ := first
    obtain ⟨leftsAbove, restAscending⟩ := List.pairwise_cons.mp leftsAscending
    have restRows := ascending.filter fun row => key < row.1
    have laterAbove : ∀ item ∈ join lefts (rights.filter fun row => key < row.1),
        key < item.key := by
      intro item mem
      obtain ⟨isLeft, isRight, present⟩ := (mem_join_iff restAscending restRows item).mp mem
      have higher := get_filter rights (fun other => decide (key < other)) item.key
      by_contra notAbove
      have noLeft : get lefts item.key = none := by
        apply get_eq_none_of_forall_ne
        intro row rowMember same
        exact notAbove (same ▸ leftsAbove row rowMember)
      simp [isLeft, isRight, higher, noLeft, notAbove] at present
    have lowBelow : ∀ item ∈ (rights.filter fun row => row.1 < key).map
        (rightOnly : K × Right → Item K Left Right), item.key < key := by
      intro item mem
      obtain ⟨_, rowMember, rfl⟩ := List.mem_map.mp mem
      simpa [rightOnly] using (List.mem_filter.mp rowMember).2
    rw [join_cons key left lefts rights ascending, List.pairwise_append, List.pairwise_cons]
    refine ⟨?_, ⟨laterAbove, ih restAscending restRows⟩, ?_⟩
    · rw [List.pairwise_map]
      exact ascending.filter _
    intro item mem later laterMem
    rcases List.mem_cons.mp laterMem with rfl | inRest
    · exact lowBelow item mem
    · exact lt_trans (lowBelow item mem) (laterAbove later inRest)

end

def collect (entry : K → Option Left → Option Right → Option Entry)
    (items : List (Item K Left Right)) : List (K × Entry) :=
  items.filterMap fun item => (entry item.key item.left item.right).map (Prod.mk item.key)

theorem collect_ascending {items : List (Item K Left Right)}
    (entry : K → Option Left → Option Right → Option Entry)
    (ordered : items.Pairwise fun earlier later => earlier.key < later.key) :
    Ascending (collect entry items) := by
  rw [Ascending, collect, List.pairwise_filterMap]
  apply ordered.imp
  intro _ _ below _ firstEntry _ secondEntry
  obtain ⟨-, -, rfl⟩ := Option.map_eq_some_iff.mp firstEntry
  obtain ⟨-, -, rfl⟩ := Option.map_eq_some_iff.mp secondEntry
  exact below

theorem get_collect_join {lefts : List (K × Left)} {rights : List (K × Right)}
    (entry : K → Option Left → Option Right → Option Entry)
    (leftsAscending : Ascending lefts) (ascending : Ascending rights) (key : K)
    (nothing : entry key none none = none) :
    get (collect entry (join lefts rights)) key = entry key (get lefts key) (get rights key) := by
  have built := collect_ascending entry (join_ascending leftsAscending ascending)
  apply Option.ext
  intro _
  rw [get_eq_some_iff built, collect, List.mem_filterMap]
  constructor
  · rintro ⟨item, mem, contributed⟩
    obtain ⟨isLeft, isRight, -⟩ := (mem_join_iff leftsAscending ascending item).mp mem
    obtain ⟨_, isEntry, same⟩ := Option.map_eq_some_iff.mp contributed
    obtain ⟨rfl, rfl⟩ := Prod.mk.inj same
    rw [← isLeft, ← isRight]
    exact isEntry
  intro isEntry
  refine ⟨⟨key, get lefts key, get rights key⟩, ?_, ?_⟩
  · rw [mem_join_iff leftsAscending ascending]
    refine ⟨rfl, rfl, ?_⟩
    by_contra absent
    simp only [not_or, Bool.not_eq_true, Option.isSome_eq_false_iff, Option.isNone_iff_eq_none]
      at absent
    simp [absent, nothing] at isEntry
  · simp [isEntry]

end InsDb.Library.OuterJoin
