import Mathlib.Data.Finset.Max
import Mathlib.Logic.Function.Basic

/-!
# Neighbours in an ordered set

Links between the elements of a set in a linear order: `⊥` stands before all of them and `⊤` behind
them.  Linking a new element between its neighbours and unlinking one keep the links exact.
-/

namespace InsDb.Library.Neighbours

open Function

variable {K : Type} [LinearOrder K]

/-- The least element of a set, `⊤` if there is none. -/
def IsFirst (A : Set K) (first : WithTop K) : Prop :=
  (∀ k : K, first = k → k ∈ A) ∧ ∀ k ∈ A, first ≤ k

/-- The greatest element of a set, `⊥` if there is none. -/
def IsLast (A : Set K) (last : WithBot K) : Prop :=
  (∀ k : K, last = k → k ∈ A) ∧ ∀ k ∈ A, k ≤ last

/-- An element, or `⊥`. -/
def IsNode (A : Set K) (x : WithBot K) : Prop := ∀ k : K, x = k → k ∈ A

/-- Every element, and `⊥`, points to the next one. -/
def Linked (A : Set K) (next : WithBot K → WithTop K) : Prop :=
  ∀ x, IsNode A x → IsFirst {k ∈ A | x < k} (next x)

/-- The links back undo the links forward. -/
def Backlinked (A : Set K) (next : WithBot K → WithTop K) (prev : K → WithBot K) : Prop :=
  ∀ x, IsNode A x → ∀ k : K, next x = k → prev k = x

/-- The link back from an element, where there is one. -/
def setPrev (prev : K → WithBot K) : WithTop K → WithBot K → K → WithBot K
  | ⊤, _ => prev
  | (k : K), x => update prev k x

variable {A : Set K} {key : K} {p : WithBot K} {next : WithBot K → WithTop K}
  {prev : K → WithBot K}

omit [LinearOrder K] in
theorem isNode_coe (mem : key ∈ A) : IsNode A key := by
  intro k same
  rw [← WithBot.coe_inj.mp same]
  exact mem

theorem IsFirst.eq_min {S : Finset K} {first : WithTop K} (isFirst : IsFirst ↑S first) :
    first = S.min := by
  apply le_antisymm
  · exact Finset.le_min fun k mem => isFirst.2 k mem
  · cases first with
    | top => exact le_top
    | coe k => exact Finset.min_le (isFirst.1 k rfl)

theorem IsLast.eq_max {S : Finset K} {last : WithBot K} (isLast : IsLast ↑S last) :
    last = S.max := by
  apply le_antisymm
  · cases last with
    | bot => exact bot_le
    | coe k => exact Finset.le_max (isLast.1 k rfl)
  · exact Finset.max_le fun k mem => isLast.2 k mem

theorem setPrev_apply (prev : K → WithBot K) (n : WithTop K) (x : WithBot K) (k : K) :
    setPrev prev n x k = if n = k then x else prev k := by
  cases n with
  | top => simp [setPrev]
  | coe n => simp [setPrev, update_apply, eq_comm]

section Between

variable (between : IsLast {k ∈ A | k < key} p)

include between

theorem isNode_of_isLast : IsNode A p := fun k same => (between.1 k same).1

theorem lt_of_isLast : p < key := by
  cases p with
  | bot => exact WithBot.bot_lt_coe key
  | coe k => exact WithBot.coe_lt_coe.mpr (between.1 k rfl).2

/-- What lies behind the last element below `key` does not lie below `key`. -/
theorem lt_iff_of_isLast {k : K} (mem : k ∈ A) : p < k ↔ key ≤ k := by
  constructor
  · intro behind
    by_contra below
    exact not_le_of_gt behind (between.2 k ⟨mem, not_le.mp below⟩)
  · intro above
    exact (lt_of_isLast between).trans_le (WithBot.coe_le_coe.mpr above)

/-- A node below `key` other than the last one has a neighbour below `key`. -/
theorem next_lt_of_ne (linked : Linked A next) {x : WithBot K} (node : IsNode A x)
    (below : x < key) (other : x ≠ p) : next x < key := by
  have before : x < p := by
    refine lt_of_le_of_ne ?_ other
    cases x with
    | bot => exact bot_le
    | coe k => exact between.2 k ⟨node k rfl, WithBot.coe_lt_coe.mp below⟩
  cases p with
  | bot => exact absurd before not_lt_bot
  | coe k =>
    obtain ⟨mem, less⟩ := between.1 k rfl
    exact ((linked x node).2 k ⟨mem, before⟩).trans_lt (WithTop.coe_lt_coe.mpr less)

theorem Linked.insert (linked : Linked A next) (new : key ∉ A) :
    Linked (insert key A) (update (update next key (next p)) p key) := by
  intro x node
  by_cases atLast : x = p
  · rw [atLast, update_self]
    refine ⟨fun k same => ?_, ?_⟩
    · cases same
      exact ⟨Set.mem_insert key A, lt_of_isLast between⟩
    · rintro k ⟨rfl | mem, behind⟩
      · exact le_rfl
      · exact WithTop.coe_le_coe.mpr ((lt_iff_of_isLast between mem).mp behind)
  rw [update_of_ne atLast]
  by_cases isKey : x = key
  · rw [isKey, update_self]
    have same : {k ∈ Insert.insert key A | (key : WithBot K) < k} = {k ∈ A | p < k} := by
      ext k
      have behind := @lt_iff_of_isLast K _ A key p between k
      grind [WithBot.coe_lt_coe]
    rw [same]
    exact linked p (isNode_of_isLast between)
  rw [update_of_ne isKey]
  have oldNode : IsNode A x :=
    fun k same => (node k same).resolve_left fun isNew => isKey (isNew ▸ same)
  obtain ⟨mem, least⟩ := linked x oldNode
  refine ⟨fun k same => ⟨Set.mem_insert_of_mem key (mem k same).1, (mem k same).2⟩, ?_⟩
  rintro k ⟨rfl | old, behind⟩
  · exact (next_lt_of_ne between linked oldNode behind atLast).le
  · exact least k ⟨old, behind⟩

theorem Linked.erase (linked : Linked A next) (old : key ∈ A) :
    Linked (A \ {key}) (update next p (next key)) := by
  intro x node
  by_cases atLast : x = p
  · rw [atLast, update_self]
    have same : {k ∈ A \ {key} | p < k} = {k ∈ A | (key : WithBot K) < k} := by
      ext k
      have behind := @lt_iff_of_isLast K _ A key p between k
      grind [WithBot.coe_lt_coe]
    rw [same]
    exact linked key (isNode_coe old)
  rw [update_of_ne atLast]
  have oldNode : IsNode A x := fun k same => (node k same).1
  obtain ⟨mem, least⟩ := linked x oldNode
  refine ⟨fun k same => ⟨⟨(mem k same).1, ?_⟩, (mem k same).2⟩, fun k kept => ?_⟩
  · rintro rfl
    have below := next_lt_of_ne between linked oldNode (mem k same).2 atLast
    rw [same] at below
    exact lt_irrefl _ below
  · exact least k ⟨kept.1.1, kept.2⟩

theorem Backlinked.insert (backlinked : Backlinked A next prev) (linked : Linked A next)
    (new : key ∉ A) :
    Backlinked (insert key A) (update (update next key (next p)) p key)
      (setPrev (update prev key p) (next p) key) := by
  have pNode := isNode_of_isLast between
  intro x node k isNext
  rw [setPrev_apply]
  by_cases atLast : x = p
  · rw [atLast, update_self] at isNext
    cases isNext
    rw [if_neg fun same => new ((linked p pNode).1 key same).1, update_self, atLast]
  rw [update_of_ne atLast] at isNext
  by_cases isKey : x = key
  · rw [isKey, update_self] at isNext
    rw [if_pos isNext, isKey]
  rw [update_of_ne isKey] at isNext
  have oldNode : IsNode A x :=
    fun k same => (node k same).resolve_left fun isNew => isKey (isNew ▸ same)
  have old := ((linked x oldNode).1 k isNext).1
  have notNew : k ≠ key := fun same => new (same ▸ old)
  have back := backlinked x oldNode k isNext
  rw [if_neg fun same => atLast (back.symm.trans (backlinked p pNode k same)), update_of_ne notNew,
    back]

omit between in
theorem Backlinked.erase (backlinked : Backlinked A next prev) (old : key ∈ A) :
    Backlinked (A \ {key}) (update next p (next key)) (setPrev prev (next key) p) := by
  intro x node k isNext
  rw [setPrev_apply]
  by_cases atLast : x = p
  · rw [atLast, update_self] at isNext
    rw [if_pos isNext, atLast]
  rw [update_of_ne atLast] at isNext
  have back := backlinked x (fun j same => (node j same).1) k isNext
  have notNext : next key ≠ k := by
    intro same
    have isKey := back.symm.trans (backlinked key (isNode_coe old) k same)
    exact (node key isKey).2 rfl
  rw [if_neg notNext, back]

end Between

end InsDb.Library.Neighbours
