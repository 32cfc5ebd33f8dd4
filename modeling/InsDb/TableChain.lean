import InsDb.Library.Partition
import InsDb.Library.Run
import Mathlib.Data.Finset.Basic
import Mathlib.Data.List.Nodup
import Mathlib.Data.List.Perm.Basic
import Mathlib.Data.List.Range
import Mathlib.Order.BoundedOrder.Basic

/-!
# The chain of SKTables

Every SKTable names the table after it and an id that is set aside for its next split.  A
flush that does not split a table merges the deleted tables behind it; one that splits
hands the old next id to the last of the new tables.
-/

namespace InsDb

open InsDb.Library List

/-- The keys of a table, in memory or in its rows.  A table that has lost its last key is
deleted, and stays in the chain until the table before it is flushed. -/
structure KeyRange (K : Type) where
  beginKey : K
  keys : Finset K
  deleted : Bool
deriving DecidableEq

structure ChainTable (K : Type) where
  sktid : Nat
  nextID : Nat
  preallocID : Nat
  range : KeyRange K
deriving DecidableEq

variable {K : Type}

/-- The id of the first table, or `stop` when there is none. -/
def headID (stop : Nat) (chain : List (ChainTable K)) : Nat :=
  (chain.head?.map ChainTable.sktid).getD stop

/-- Every table names the one after it, and the last one names `stop`. -/
def Linked (stop : Nat) : List (ChainTable K) → Prop
  | [] => True
  | t :: rest => t.nextID = headID stop rest ∧ Linked stop rest

/-- The tables that are split off; the first one has the id `sktid`, and the ids after
`counter` are generated. -/
def subTables (lastNextID : Nat) : Nat → Nat → List (KeyRange K) → List (ChainTable K)
  | _, _, [] => []
  | sktid, counter, [sub] => [⟨sktid, lastNextID, counter + 1, sub⟩]
  | sktid, counter, sub :: next :: rest =>
    ⟨sktid, counter + 1, counter + 2, sub⟩ ::
      subTables lastNextID (counter + 1) (counter + 2) (next :: rest)

/-- The deleted tables that a flush merges: those right behind the table, as far as they are
not being flushed themselves. -/
def mergedTables (merged : Nat) (post : List (ChainTable K)) : List (ChainTable K) :=
  (post.takeWhile fun t => t.range.deleted).take merged

/-- What `FlushSKTableMem` makes of a table and those behind it, once the builder has filled the
table and its sub tables. -/
def flushTables (counter : Nat) (main : ChainTable K) (post : List (ChainTable K))
    (built : KeyRange K) (subs : List (KeyRange K)) (merged : Nat) : List (ChainTable K) :=
  if subs.isEmpty then
    let old := mergedTables merged post
    { sktid := main.sktid
      nextID := (old.getLast?.map ChainTable.nextID).getD main.nextID
      preallocID := headID main.preallocID old
      range := built } :: post.drop old.length
  else
    { sktid := main.sktid
      nextID := main.preallocID
      preallocID := counter + 1
      range := built } ::
      (subTables main.nextID main.preallocID (counter + 1) subs ++ post)

theorem headID_append (stop : Nat) (front back : List (ChainTable K)) :
    headID stop (front ++ back) = headID (headID stop back) front := by
  cases front <;> rfl

variable {stop : Nat}

theorem linked_append {front back : List (ChainTable K)} :
    Linked stop (front ++ back) ↔ Linked (headID stop back) front ∧ Linked stop back := by
  induction front with
  | nil => simp [Linked]
  | cons t front ih =>
    simp only [cons_append, Linked, ih, headID_append]
    exact and_assoc.symm

theorem subTables_linked (lastNextID sktid counter : Nat) (subs : List (KeyRange K)) :
    Linked lastNextID (subTables lastNextID sktid counter subs) := by
  induction subs generalizing sktid counter with
  | nil => trivial
  | cons sub rest ih =>
    cases rest with
    | nil => exact ⟨rfl, trivial⟩
    | cons next rest =>
      refine ⟨?_, ih (counter + 1) (counter + 2)⟩
      cases rest <;> rfl

theorem headID_subTables (lastNextID sktid counter stop : Nat) (sub : KeyRange K)
    (rest : List (KeyRange K)) :
    headID stop (subTables lastNextID sktid counter (sub :: rest)) = sktid := by
  cases rest <;> rfl

theorem map_range_subTables (lastNextID sktid counter : Nat) (subs : List (KeyRange K)) :
    (subTables lastNextID sktid counter subs).map ChainTable.range = subs := by
  induction subs generalizing sktid counter with
  | nil => rfl
  | cons sub rest ih =>
    cases rest with
    | nil => rfl
    | cons => exact congrArg (sub :: ·) (ih (counter + 1) (counter + 2))

theorem Linked.last_next {main : ChainTable K} {old : List (ChainTable K)}
    (linked : Linked stop (main :: old)) :
    (old.getLast?.map ChainTable.nextID).getD main.nextID = stop := by
  induction old generalizing main with
  | nil => exact linked.1
  | cons first rest ih =>
    have later := ih linked.2
    rw [← later, getLast?_cons]
    cases rest.getLast? <;> rfl

theorem mergedTables_append_drop (merged : Nat) (post : List (ChainTable K)) :
    mergedTables merged post ++ post.drop (mergedTables merged post).length = post := by
  have ofDeleted : mergedTables merged post <+: post.takeWhile fun t => t.range.deleted :=
    take_prefix ..
  have ofAll : (post.takeWhile fun t => t.range.deleted) <+: post := takeWhile_prefix _
  exact prefix_iff_eq_append.mp (ofDeleted.trans ofAll)

theorem deleted_of_mem_mergedTables {merged : Nat} {post : List (ChainTable K)}
    {old : ChainTable K} (isMerged : old ∈ mergedTables merged post) :
    old.range.deleted = true :=
  all_eq_true.mp all_takeWhile old (mem_of_mem_take isMerged)

theorem linked_flushTables {main : ChainTable K} {post : List (ChainTable K)} (counter : Nat)
    (built : KeyRange K) (subs : List (KeyRange K)) (merged : Nat)
    (linked : Linked stop (main :: post)) :
    Linked stop (flushTables counter main post built subs merged) := by
  cases subs with
  | nil =>
    rw [← mergedTables_append_drop merged post, ← cons_append, linked_append] at linked
    exact ⟨linked.1.last_next, linked.2⟩
  | cons sub rest =>
    have subLinked := subTables_linked main.nextID main.preallocID (counter + 1) (sub :: rest)
    refine ⟨?_, linked_append.mpr ⟨linked.1 ▸ subLinked, linked.2⟩⟩
    rw [headID_append, headID_subTables]

theorem headID_flushTables (counter stop : Nat) (main : ChainTable K) (post : List (ChainTable K))
    (built : KeyRange K) (subs : List (KeyRange K)) (merged : Nat) :
    headID stop (flushTables counter main post built subs merged) = main.sktid := by
  unfold flushTables
  split_ifs <;> rfl

/-- The ids that a table uses. -/
def ChainTable.inPlay (table : ChainTable K) : List Nat :=
  [table.sktid, table.preallocID]

theorem inPlay_subTables (lastNextID sktid counter : Nat) (sub : KeyRange K)
    (rest : List (KeyRange K)) :
    ((subTables lastNextID sktid counter (sub :: rest)).flatMap ChainTable.inPlay).Perm
      (sktid :: List.range' (counter + 1) (2 * rest.length + 1)) := by
  induction rest generalizing sktid counter sub with
  | nil => exact List.Perm.refl _
  | cons next rest ih =>
    have later := ih (counter + 1) (counter + 2) next
    have range : range' (counter + 1) (2 * (next :: rest).length + 1) =
        (counter + 1) :: (counter + 2) :: range' (counter + 2 + 1) (2 * rest.length + 1) := by
      rw [length_cons, Nat.mul_succ, range'_succ, range'_succ]
    rw [range]
    exact ((later.cons _).trans (List.Perm.swap ..)).cons _

theorem apart_of_inPlay {chain : List (ChainTable K)}
    (nodup : (chain.flatMap ChainTable.inPlay).Nodup) :
    (chain.map ChainTable.sktid).Nodup ∧ (chain.map ChainTable.preallocID).Nodup ∧
      ∀ t ∈ chain, ∀ other ∈ chain, t.preallocID ≠ other.sktid := by
  have parts : (chain.map ChainTable.sktid ++ chain.map ChainTable.preallocID).Perm
      (chain.flatMap ChainTable.inPlay) := by
    rw [map_eq_flatMap, map_eq_flatMap]
    exact flatMap_append_perm ..
  obtain ⟨ids, preallocs, apart⟩ := nodup_append.mp (parts.nodup_iff.mpr nodup)
  refine ⟨ids, preallocs, ?_⟩
  intro _ mem _ otherMem same
  exact apart _ (mem_map_of_mem otherMem) _ (mem_map_of_mem mem) same.symm

/-- A flush uses no ids but those of the old tables and the newly generated ones, each once. -/
theorem inPlay_flushTables (counter : Nat) (main : ChainTable K) (post : List (ChainTable K))
    (built : KeyRange K) (subs : List (KeyRange K)) (merged : Nat) :
    ((flushTables counter main post built subs merged).flatMap ChainTable.inPlay).Subperm
      ((main :: post).flatMap ChainTable.inPlay ++
        List.range' (counter + 1) (2 * subs.length)) := by
  cases subs with
  | nil =>
    have parts := mergedTables_append_drop merged post
    simp only [flushTables, isEmpty_nil, if_true, length_nil, Nat.mul_zero, range'_zero, append_nil]
    generalize mergedTables merged post = old at parts ⊢
    generalize post.drop old.length = rest at parts ⊢
    simp only [← parts, flatMap_cons, flatMap_append]
    apply List.Sublist.subperm
    cases old with
    | nil => exact List.Sublist.refl _
    | cons => exact (((sublist_append_right _ _).cons _).cons_cons _ |>.cons _).cons_cons _
  | cons sub rest =>
    have later := inPlay_subTables main.nextID main.preallocID (counter + 1) sub rest
    have range : range' (counter + 1) (2 * (sub :: rest).length) =
        (counter + 1) :: range' (counter + 1 + 1) (2 * rest.length + 1) := by
      rw [length_cons, Nat.mul_succ, range'_succ]
    rw [range]
    apply List.Perm.subperm
    rw [perm_iff_count]
    intro id
    have counts := later.count_eq id
    simp only [flushTables, isEmpty_cons, Bool.false_eq_true, if_false, flatMap_append,
      flatMap_cons, ChainTable.inPlay, count_append, count_cons, count_nil] at counts ⊢
    omega

/-- The ranges after a flush.  Only deleted tables are gone, and none if the table was split. -/
theorem map_range_flushTables (counter : Nat) (main : ChainTable K) (post : List (ChainTable K))
    (built : KeyRange K) (subs : List (KeyRange K)) (merged : Nat) : ∃ old rest,
      post = old ++ rest ∧ (∀ t ∈ old, t.range.deleted = true) ∧ (subs ≠ [] → old = []) ∧
        (flushTables counter main post built subs merged).map ChainTable.range =
          built :: subs ++ rest.map ChainTable.range := by
  cases subs with
  | nil =>
    exact ⟨mergedTables merged post, post.drop (mergedTables merged post).length,
      (mergedTables_append_drop merged post).symm, fun _ => deleted_of_mem_mergedTables,
      fun split => absurd rfl split, rfl⟩
  | cons sub rest =>
    refine ⟨[], post, rfl, by simp, fun _ => rfl, ?_⟩
    simp only [flushTables, isEmpty_cons, Bool.false_eq_true, if_false, map_cons, map_append,
      map_range_subTables]
    rfl

end InsDb
