import Mathlib.Data.List.Basic

/-!
# Chunks behind a table of offsets

Strings of different lengths are laid out one after the other, and a table says where each
of them begins.
-/

namespace InsDb.Library.Layout

variable {α : Type}

/-- Where the chunks begin that are laid out from `start` on. -/
def starts : Nat → List (List α) → List Nat
  | _, [] => []
  | start, chunk :: rest => start :: starts (start + chunk.length) rest

theorem length_starts (start : Nat) (chunks : List (List α)) :
    (starts start chunks).length = chunks.length := by
  induction chunks generalizing start with
  | nil => rfl
  | cons chunk rest ih => rw [starts, List.length_cons, ih, List.length_cons]

theorem getElem?_starts {start i : Nat} {chunks : List (List α)}
    (inside : i < chunks.length) :
    (starts start chunks)[i]? = some (start + (chunks.take i).flatten.length) := by
  induction chunks generalizing start i with
  | nil => cases inside
  | cons chunk rest ih =>
    cases i with
    | zero => rfl
    | succ =>
      rw [starts, List.getElem?_cons_succ, ih (Nat.lt_of_succ_lt_succ inside),
        List.take_succ_cons, List.flatten_cons, List.length_append, Nat.add_assoc]

theorem drop_flatten (chunks : List (List α)) (i : Nat) :
    chunks.flatten.drop (chunks.take i).flatten.length = (chunks.drop i).flatten := by
  conv_lhs => rw [← List.take_append_drop i chunks, List.flatten_append]
  have shorter : (chunks.take i ++ chunks.drop i).take i = chunks.take i := by
    rw [List.take_append_drop]
  rw [shorter, List.drop_left]

theorem length_flatten_take_le (chunks : List (List α)) (i : Nat) :
    (chunks.take i).flatten.length ≤ chunks.flatten.length := by
  conv_rhs => rw [← List.take_append_drop i chunks, List.flatten_append, List.length_append]
  exact Nat.le_add_right _ _

theorem drop_flatMap {β : Type} {encode : β → List α} {width : Nat}
    (fixed : ∀ v, (encode v).length = width) (values : List β) (i : Nat) :
    (values.flatMap encode).drop (width * i) = (values.drop i).flatMap encode := by
  induction i generalizing values with
  | zero => rfl
  | succ i ih =>
    cases values with
    | nil => rw [List.flatMap_nil, List.drop_nil, List.drop_nil, List.flatMap_nil]
    | cons v =>
      rw [List.flatMap_cons, Nat.mul_succ, Nat.add_comm, ← List.drop_drop,
        ← fixed v, List.drop_left, fixed v, ih, List.drop_succ_cons]

end InsDb.Library.Layout
