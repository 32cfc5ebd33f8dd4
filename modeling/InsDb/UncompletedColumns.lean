import InsDb.Recovery
import Mathlib.Data.Set.Lattice

/-!
# The columns that survive the restart loop

The loop `restart_all_workers` drops one column at a time while the set that decides about
the columns grows.  What is left is decided by the least set of transactions that is closed
under the merged transactions of its columns, so the order of the list does not matter.
-/

namespace InsDb

open Library List

variable {K : Type}

/-- The transactions of `UncompletedTRXNList`. -/
def uncompletedIds (trxnList : List (Nat × TransactionColCount)) : Set Nat :=
  {id | (Rows.get trxnList id).isSome = true}

theorem mem_uncompletedIds {trxnList : List (Nat × TransactionColCount)} {id : Nat} :
    id ∈ uncompletedIds trxnList ↔ (Rows.get trxnList id).isSome = true := Iff.rfl

def ClosedUnderMerges (keys : List (ColumnInfo K)) (ids : Set Nat) : Prop :=
  ∀ info ∈ keys, info.trxn.id ∈ ids → ∀ trxn ∈ info.merged, trxn.id ∈ ids

/-- The least set of transactions that contains the initial one and is closed. -/
def uncompletedClosure (initial : Set Nat) (keys : List (ColumnInfo K)) : Set Nat :=
  ⋂₀ {ids | initial ⊆ ids ∧ ClosedUnderMerges keys ids}

theorem uncompletedIds_addUncompletedColumn (trxnList : List (Nat × TransactionColCount))
    (merged : List Transaction) :
    uncompletedIds (merged.foldl addUncompletedColumn trxnList) =
      uncompletedIds trxnList ∪ {id | ∃ trxn ∈ merged, trxn.id = id} := by
  induction merged generalizing trxnList with
  | nil => simp
  | cons trxn rest ih =>
    have added : uncompletedIds (addUncompletedColumn trxnList trxn) =
        insert trxn.id (uncompletedIds trxnList) := by
      ext id
      unfold addUncompletedColumn
      rw [Set.mem_insert_iff, mem_uncompletedIds, mem_uncompletedIds]
      cases found : Rows.get trxnList trxn.id <;> grind [Rows.get_set]
    rw [foldl_cons, ih, added]
    ext id
    simp only [Set.mem_union, Set.mem_insert_iff, Set.mem_ofPred_eq, exists_mem_cons_iff]
    tauto

section Restart

variable {trxnList : List (Nat × TransactionColCount)} {keys : List (ColumnInfo K)}

theorem uncompletedClosure_of_none
    (absent : ∀ info ∈ keys, info.trxn.id ∉ uncompletedIds trxnList) :
    uncompletedClosure (uncompletedIds trxnList) keys = uncompletedIds trxnList := by
  apply Set.Subset.antisymm
  · apply Set.sInter_subset_of_mem
    exact ⟨Set.Subset.rfl, fun info mem isHead => absurd isHead (absent info mem)⟩
  exact Set.subset_sInter fun ids closed => closed.1

/-- One restart keeps the closed sets: the dropped column is satisfied by the set that its
merged transactions were added to. -/
theorem uncompletedClosure_dropped {info : ColumnInfo K} {kept : List (ColumnInfo K)}
    (dropped : ∀ other, other ∈ keys ↔ other = info ∨ other ∈ kept)
    (isHead : info.trxn.id ∈ uncompletedIds trxnList) :
    uncompletedClosure (uncompletedIds (info.merged.foldl addUncompletedColumn trxnList)) kept =
      uncompletedClosure (uncompletedIds trxnList) keys := by
  have same : ∀ ids : Set Nat,
      (uncompletedIds (info.merged.foldl addUncompletedColumn trxnList) ⊆ ids ∧
        ClosedUnderMerges kept ids) ↔
      (uncompletedIds trxnList ⊆ ids ∧ ClosedUnderMerges keys ids) := by
    intro _
    rw [uncompletedIds_addUncompletedColumn, Set.union_subset_iff]
    constructor
    · rintro ⟨⟨initial, mergedIn⟩, closed⟩
      refine ⟨initial, fun other mem headIn trxn isMerged => ?_⟩
      rcases (dropped other).mp mem with rfl | inKept
      · exact mergedIn ⟨trxn, isMerged, rfl⟩
      exact closed other inKept headIn trxn isMerged
    rintro ⟨initial, closed⟩
    refine ⟨⟨initial, ?_⟩, fun other inKept => closed other ((dropped other).mpr (.inr inKept))⟩
    rintro _ ⟨trxn, isMerged, rfl⟩
    exact closed info ((dropped info).mpr (.inl rfl)) (initial isHead) trxn isMerged
  simp only [uncompletedClosure, same]

end Restart

open Classical in
theorem resolveUncompleted_eq_filter (fuel : Nat) (trxnList : List (Nat × TransactionColCount))
    (keys : List (ColumnInfo K)) (enough : keys.length ≤ fuel) :
    resolveUncompleted fuel trxnList keys = keys.filter fun info =>
      info.trxn.id ∉ uncompletedClosure (uncompletedIds trxnList) keys := by
  induction fuel generalizing trxnList keys with
  | zero =>
    obtain rfl := length_eq_zero_iff.mp (Nat.le_zero.mp enough)
    rfl
  | succ fuel ih =>
    unfold resolveUncompleted
    cases found : keys.findIdx? fun info => (Rows.get trxnList info.trxn.id).isSome with
    | none =>
      have absent : ∀ info ∈ keys, info.trxn.id ∉ uncompletedIds trxnList := by
        intro info mem isHead
        have notFound := findIdx?_eq_none_iff.mp found info mem
        rw [mem_uncompletedIds.mp isHead] at notFound
        exact absurd notFound (by decide)
      symm
      rw [uncompletedClosure_of_none absent]
      exact filter_eq_self.mpr fun info mem => decide_eq_true (absent info mem)
    | some i =>
      obtain ⟨inRange, isHead, -⟩ := findIdx?_eq_some_iff_getElem.mp found
      simp only [getElem?_eq_getElem inRange]
      have split : keys = keys.take i ++ keys[i] :: keys.drop (i + 1) := by
        rw [← drop_eq_getElem_cons inRange, take_append_drop]
      have dropped : ∀ other, other ∈ keys ↔ other = keys[i] ∨ other ∈ keys.eraseIdx i := by
        intro _
        conv_lhs => rw [split]
        rw [eraseIdx_eq_take_drop_succ, mem_append, mem_cons, mem_append, or_left_comm]
      have shorter : (keys.eraseIdx i).length ≤ fuel := by
        rw [length_eraseIdx_of_lt inRange]
        omega
      have inClosure : keys[i].trxn.id ∈ uncompletedClosure (uncompletedIds trxnList) keys :=
        Set.mem_sInter.mpr fun ids closed => closed.1 isHead
      rw [ih _ _ shorter, uncompletedClosure_dropped dropped isHead, eraseIdx_eq_take_drop_succ]
      conv_rhs => arg 2; rw [split]
      rw [filter_append, filter_append, filter_cons_of_neg (by simpa using inClosure)]

open Classical in
/-- The restart loop ends after at most one restart for each column, and leaves the columns
whose head is outside the least closed set, in whatever order they are listed. -/
theorem resolveUncompleted_survivors (trxnList : List (Nat × TransactionColCount))
    (keys : List (ColumnInfo K)) :
    (∀ fuel, keys.length ≤ fuel → resolveUncompleted fuel trxnList keys = keys.filter fun info =>
        info.trxn.id ∉ uncompletedClosure (uncompletedIds trxnList) keys) ∧
    ∀ other, other.Perm keys → (resolveUncompleted other.length trxnList other).Perm
        (resolveUncompleted keys.length trxnList keys) := by
  refine ⟨fun fuel enough => resolveUncompleted_eq_filter fuel trxnList keys enough, ?_⟩
  intro other perm
  have same : uncompletedClosure (uncompletedIds trxnList) other =
      uncompletedClosure (uncompletedIds trxnList) keys := by
    simp only [uncompletedClosure, ClosedUnderMerges, perm.mem_iff]
  rw [resolveUncompleted_eq_filter _ trxnList other le_rfl,
    resolveUncompleted_eq_filter _ trxnList keys le_rfl, same]
  exact perm.filter _

end InsDb
