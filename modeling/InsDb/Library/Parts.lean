import Mathlib.Data.List.Basic
import Mathlib.Tactic.Ring

/-!
# Data stored in parts

A device takes requests of a bounded size, so a long string is stored as several parts
under consecutive numbers and put together again by a reader that knows how many there are.
-/

namespace InsDb.Library.Parts

variable {α : Type}

/-- The first `count` parts of `data`, each of at most `limit` elements. -/
def split (limit : Nat) : Nat → List α → List (List α)
  | 0, _ => []
  | count + 1, data => data.take limit :: split limit count (data.drop limit)

/-- The numbered parts after storing `parts` from number 0 on. -/
def store (parts : List (List α)) (before : Nat → Option (List α)) (number : Nat) :
    Option (List α) :=
  (parts[number]?).or (before number)

/-- `count` parts from number `start` on, put together; none if one is missing. -/
def collect (get : Nat → Option (List α)) (start : Nat) : Nat → Option (List α)
  | 0 => some []
  | count + 1 =>
    (get start).bind fun part => (collect get (start + 1) count).map fun rest => part ++ rest

@[simp] theorem length_split (limit count : Nat) (data : List α) :
    (split limit count data).length = count := by
  induction count generalizing data with
  | zero => rfl
  | succ count ih => rw [split, List.length_cons, ih]

theorem length_le_of_mem_split {limit count : Nat} {data part : List α}
    (inSplit : part ∈ split limit count data) :
    part.length ≤ limit ∧ part.length ≤ data.length := by
  induction count generalizing data with
  | zero => cases inSplit
  | succ count ih =>
    rcases List.mem_cons.mp inSplit with rfl | inRest
    · rw [List.length_take]
      omega
    have later := ih inRest
    rw [List.length_drop] at later
    omega

theorem store_of_lt {parts : List (List α)} {number : Nat} (inside : number < parts.length)
    (pre : Nat → Option (List α)) : store parts pre number = some parts[number] := by
  rw [store, List.getElem?_eq_getElem inside, Option.some_or]

theorem flatten_split {limit count : Nat} {data : List α} (covers : data.length ≤ limit * count) :
    (split limit count data).flatten = data := by
  induction count generalizing data with
  | zero =>
    have empty : data = [] := List.eq_nil_of_length_eq_zero (by simpa using covers)
    rw [empty]
    rfl
  | succ count ih =>
    have restCovers : (data.drop limit).length ≤ limit * count := by
      rw [List.length_drop]
      rw [Nat.mul_succ] at covers
      omega
    rw [split, List.flatten_cons, ih restCovers, List.take_append_drop]

theorem collect_congr {get other : Nat → Option (List α)} {start count : Nat}
    (same : ∀ number, start ≤ number → number < start + count → get number = other number) :
    collect get start count = collect other start count := by
  induction count generalizing start with
  | zero => rfl
  | succ count ih =>
    have first := same start (Nat.le_refl start) (by omega)
    have later : collect get (start + 1) count = collect other (start + 1) count := by
      apply ih
      intro number _ _
      exact same number (by omega) (by omega)
    rw [collect, collect, first, later]

theorem collect_store (pre parts : List (List α)) (before : Nat → Option (List α)) :
    collect (store (pre ++ parts) before) pre.length parts.length = some parts.flatten := by
  induction parts generalizing pre with
  | nil => rfl
  | cons part parts ih =>
    have found : store (pre ++ part :: parts) before pre.length = some part := by
      simp [store]
    have later := ih (pre ++ [part])
    rw [List.append_assoc, List.singleton_append, List.length_append] at later
    rw [List.length_cons, collect, found]
    rw [show pre.length + 1 = pre.length + [part].length from rfl, later]
    rfl

theorem length_collect_le {get : Nat → Option (List α)} {limit start count : Nat}
    {data : List α} (bounded : ∀ number part, get number = some part → part.length ≤ limit)
    (collected : collect get start count = some data) : data.length ≤ limit * count := by
  induction count generalizing start data with
  | zero =>
    cases collected
    exact Nat.zero_le _
  | succ count ih =>
    obtain ⟨part, found, restCollected⟩ := Option.bind_eq_some_iff.mp collected
    obtain ⟨_, collectedRest, rfl⟩ := Option.map_eq_some_iff.mp restCollected
    have first := bounded start part found
    have later := ih collectedRest
    rw [List.length_append, Nat.mul_succ]
    omega

end InsDb.Library.Parts
