import InsDb.Library.Run
import Mathlib.Data.List.Nodup
import Mathlib.Logic.Function.Basic

/-!
# The clean and the dirty list of tables

A table in the cache stands in one of two lists, under one lock.  It keeps its place in the
list and flags for the dirty list, a flush and an eviction; whoever takes it out of its list
sets a flag, and clears it when the table goes back.
-/

namespace InsDb

open InsDb.Library List Function

inductive SKTCacheType where
  | clean
  | dirty
deriving DecidableEq, Repr

/-- `SKTCache`: the newest table is in front, and `GetSize` of a table is 1. -/
structure SKTCache where
  cache : List Nat := []
  cacheSize : Nat := 0

/-- What `SKTableMem` keeps for the lists.  `PushItem` sets the location to the table's own
element, so all that matters of it is whether it is the end marker. -/
structure CachedTable where
  atEnd : Bool := true
  flushing : Bool := false
  evicting : Bool := false
  inDirtyCache : Bool := false

structure TableCaches where
  lists : SKTCacheType → SKTCache := fun _ => {}
  table : Nat → CachedTable := fun _ => {}

namespace TableCaches

variable (caches : TableCaches)

/-- `PushItem`, and the flags of the table. -/
def pushItem (type : SKTCacheType) (sktm : Nat) (entry : CachedTable) :
    TableCaches where
  lists := Function.update caches.lists type
    ⟨sktm :: (caches.lists type).cache, (caches.lists type).cacheSize + 1⟩
  table := Function.update caches.table sktm { entry with atEnd := false }

/-- `DeleteItem` or `PopNextItem`, the end marker, and the flags of the table. -/
def takeOut (type : SKTCacheType) (left : List Nat) (sktm : Nat)
    (entry : CachedTable) : TableCaches where
  lists := Function.update caches.lists type ⟨left, (caches.lists type).cacheSize - 1⟩
  table := Function.update caches.table sktm { entry with atEnd := true }

def insertSKTableMemCache (sktm : Nat) (type : SKTCacheType)
    (clearStat : Bool) : TableCaches :=
  let entry := caches.table sktm
  let inDirtyCache := entry.inDirtyCache || type == .dirty
  if clearStat then
    caches.pushItem type sktm ⟨true, false, false, inDirtyCache⟩
  else if !entry.atEnd || (entry.flushing || entry.evicting) then
    caches
  else
    caches.pushItem type sktm { entry with inDirtyCache := inDirtyCache }

def removeFromSKTableMemDirtyCache (sktm : Nat) : TableCaches :=
  let entry := caches.table sktm
  if entry.inDirtyCache then
    caches.takeOut .dirty ((caches.lists .dirty).cache.erase sktm) sktm
      { entry with flushing := true, inDirtyCache := false }
  else
    caches

def migrateSKTableMemCache (sktm : Nat) : TableCaches :=
  let entry := caches.table sktm
  if !entry.atEnd && !entry.inDirtyCache then
    (caches.takeOut .clean ((caches.lists .clean).cache.erase sktm) sktm entry).pushItem
      .dirty sktm { entry with inDirtyCache := true }
  else
    caches

def popSKTableMem (type : SKTCacheType) : TableCaches :=
  match (caches.lists type).cache.getLast? with
  | none => caches
  | some sktm =>
    let entry := caches.table sktm
    caches.takeOut type (caches.lists type).cache.dropLast sktm
      (match type with
        | .dirty => { entry with flushing := true, inDirtyCache := false }
        | .clean => { entry with evicting := true })

def setFlags (sktm : Nat) (flushing evicting : Bool) : TableCaches :=
  { caches with
    table := Function.update caches.table sktm
      { caches.table sktm with flushing := flushing, evicting := evicting } }

end TableCaches

/-- The operations on the lists, and the flags that a thread sets or clears on a table that it
has taken out or made. -/
inductive CacheAction where
  | insert (sktm : Nat) (type : SKTCacheType) (clearStat : Bool)
  | removeFromDirty (sktm : Nat)
  | migrate (sktm : Nat)
  | pop (type : SKTCacheType)
  | setFlags (sktm : Nat) (flushing evicting : Bool)
deriving DecidableEq, Repr

/-- One call under the lock.  `InsertSKTableMemCache` asserts that a table whose flags it
clears is in no list. -/
def TableCaches.step (caches : TableCaches) : CacheAction → Option TableCaches
  | .insert sktm type clearStat =>
    if clearStat = true ∧ (caches.table sktm).atEnd = false then none
    else some (caches.insertSKTableMemCache sktm type clearStat)
  | .removeFromDirty sktm => some (caches.removeFromSKTableMemDirtyCache sktm)
  | .migrate sktm => some (caches.migrateSKTableMemCache sktm)
  | .pop type => some (caches.popSKTableMem type)
  | .setFlags sktm flushing evicting =>
    if (caches.table sktm).atEnd = false then none
    else some (caches.setFlags sktm flushing evicting)

/-- The location and the flags of a table say in which list it is. -/
structure TableCaches.Placed (caches : TableCaches) (sktm : Nat) : Prop where
  oneList : ¬ (sktm ∈ (caches.lists .clean).cache ∧ sktm ∈ (caches.lists .dirty).cache)
  inDirty : (caches.table sktm).inDirtyCache = true ↔ sktm ∈ (caches.lists .dirty).cache
  endMarker : (caches.table sktm).atEnd = true ↔ ∀ type, sktm ∉ (caches.lists type).cache
  held : (caches.table sktm).flushing = true ∨ (caches.table sktm).evicting = true →
    ∀ type, sktm ∉ (caches.lists type).cache

structure TableCaches.Consistent (caches : TableCaches) : Prop where
  placed : ∀ sktm, caches.Placed sktm
  once : ∀ type, (caches.lists type).cache.Nodup
  sizes : ∀ type, (caches.lists type).cacheSize = (caches.lists type).cache.length

namespace TableCaches.Consistent

variable {caches next : TableCaches} {type : SKTCacheType} {sktm : Nat} {entry : CachedTable}

section

variable (consistent : caches.Consistent)

include consistent

theorem mem_iff : sktm ∈ (caches.lists type).cache ↔ (caches.table sktm).atEnd = false ∧
      ((caches.table sktm).inDirtyCache = true ↔ type = .dirty) := by
  obtain ⟨_, inDirty, endMarker, -⟩ := consistent.placed sktm
  rw [inDirty, ← Bool.not_eq_true, endMarker]
  cases type <;> grind [SKTCacheType]

/-- A step on one list and one table. -/
theorem change (lists : ∀ other, other ≠ type → next.lists other = caches.lists other)
    (others : ∀ t, t ≠ sktm → next.table t = caches.table t ∧ (t ∈
      (next.lists type).cache ↔ t ∈ (caches.lists type).cache)) (own : next.Placed sktm)
    (once : (next.lists type).cache.Nodup)
    (size : (next.lists type).cacheSize = (next.lists type).cache.length) :
    next.Consistent where
  placed := by
    intro t
    by_cases isTable : t = sktm
    · exact isTable ▸ own
    have same : ∀ other, t ∈ (next.lists other).cache ↔ t ∈ (caches.lists other).cache := by
      intro other
      by_cases isType : other = type
      · exact isType ▸ (others t isTable).2
      · rw [lists other isType]
    obtain ⟨_, _, _, _⟩ := consistent.placed t
    constructor <;> simpa only [(others t isTable).1, same]
  once := by
    intro other
    by_cases isType : other = type
    · exact isType ▸ once
    rw [lists other isType]
    exact consistent.once other
  sizes := by
    intro other
    by_cases isType : other = type
    · exact isType ▸ size
    rw [lists other isType]
    exact consistent.sizes other

theorem takeOut (mem : sktm ∈ (caches.lists type).cache) {left : List Nat}
    (isLeft : left = (caches.lists type).cache.erase sktm) (notDirty : entry.inDirtyCache = false) :
    (caches.takeOut type left sktm entry).Consistent := by
  have once := consistent.once type
  have absent : ∀ other, sktm ∉ ((caches.takeOut type left sktm entry).lists other).cache := by
    intro other
    by_cases isType : other = type
    · simp [TableCaches.takeOut, isType, isLeft, once.mem_erase_iff]
    have listed := (consistent.mem_iff.mp mem).2
    simp only [TableCaches.takeOut, update_of_ne isType, consistent.mem_iff, listed]
    cases other <;> cases type <;> simp_all
  apply @change caches _ type sktm consistent
  · exact fun other differs => update_of_ne differs ..
  · intro _ differs
    simp [TableCaches.takeOut, isLeft, differs, mem_erase_of_ne]
  · have isEntry : (caches.takeOut type left sktm entry).table sktm =
        { entry with atEnd := true } := update_self ..
    exact ⟨fun both => absent _ both.1, by simp [isEntry, notDirty, absent],
      by simp [isEntry, absent], fun _ => absent⟩
  · simpa [TableCaches.takeOut, isLeft] using once.erase sktm
  · simp [TableCaches.takeOut, isLeft, consistent.sizes type, length_erase_of_mem mem]

theorem pushItem (free : (caches.table sktm).atEnd = true)
    (listed : entry.inDirtyCache = true ↔ type = .dirty)
    (notHeld : ¬ (entry.flushing = true ∨ entry.evicting = true)) :
    (caches.pushItem type sktm entry).Consistent := by
  have absent := (consistent.placed sktm).endMarker.mp free
  have members : ∀ other, sktm ∈ ((caches.pushItem type sktm entry).lists other).cache ↔
      other = type := by
    intro other
    by_cases isType : other = type
    · simp [TableCaches.pushItem, isType]
    · simp [TableCaches.pushItem, isType, absent]
  apply @change caches _ type sktm consistent
  · exact fun other differs => update_of_ne differs ..
  · intro _ differs
    simp [TableCaches.pushItem, differs]
  · have isEntry : (caches.pushItem type sktm entry).table sktm = { entry with atEnd := false } :=
      update_self ..
    refine ⟨?_, ?_, by simp [isEntry, members], ?_⟩
    · rw [members, members]
      cases type <;> simp
    · rw [isEntry, members, listed, eq_comm]
    rw [isEntry]
    exact fun flagged => absurd flagged notHeld
  · simp [TableCaches.pushItem, absent, consistent.once type]
  · simp [TableCaches.pushItem, consistent.sizes type]

theorem insert {clearStat : Bool} (free : clearStat = true → (caches.table sktm).atEnd = true) :
    (caches.insertSKTableMemCache sktm type clearStat).Consistent := by
  have listed : (caches.table sktm).atEnd = true →
      (((caches.table sktm).inDirtyCache || type == .dirty) = true ↔ type = .dirty) := by
    intro atEnd
    have placed := consistent.placed sktm
    simp [placed.inDirty, placed.endMarker.mp atEnd]
  unfold insertSKTableMemCache
  dsimp only
  split_ifs with clears refused
  · exact consistent.pushItem (free clears) (listed (free clears)) (by simp)
  · exact consistent
  simp only [Bool.or_eq_true, Bool.not_eq_true', not_or, Bool.not_eq_false] at refused
  exact consistent.pushItem refused.1 (listed refused.1) (not_or.mpr refused.2)

theorem removeFromDirty : (caches.removeFromSKTableMemDirtyCache sktm).Consistent := by
  unfold removeFromSKTableMemDirtyCache
  dsimp only
  split_ifs with inDirty
  · exact consistent.takeOut ((consistent.placed sktm).inDirty.mp inDirty) rfl rfl
  · exact consistent

theorem migrate : (caches.migrateSKTableMemCache sktm).Consistent := by
  unfold migrateSKTableMemCache
  dsimp only
  split_ifs with inClean
  · simp only [Bool.and_eq_true, Bool.not_eq_true'] at inClean
    have mem : sktm ∈ (caches.lists .clean).cache :=
      consistent.mem_iff.mpr ⟨inClean.1, by simp [inClean.2]⟩
    apply (consistent.takeOut mem rfl inClean.2).pushItem
    · simp [TableCaches.takeOut]
    · simp
    · exact fun flagged => (consistent.placed sktm).held flagged .clean mem
  · exact consistent

theorem pop : (caches.popSKTableMem type).Consistent := by
  unfold popSKTableMem
  cases isNext : (caches.lists type).cache.getLast? with
  | none => exact consistent
  | some sktm =>
    obtain ⟨front, isList⟩ := getLast?_eq_some_iff.mp isNext
    have mem : sktm ∈ (caches.lists type).cache := by simp [isList]
    have notBefore : sktm ∉ front := by
      have once := consistent.once type
      simp only [isList, nodup_append, mem_singleton] at once
      exact fun again => once.2.2 sktm again sktm rfl rfl
    apply consistent.takeOut mem
    · rw [isList, dropLast_concat, erase_append_right _ notBefore]
      simp
    have listed := (consistent.mem_iff.mp mem).2
    cases type with
    | clean => simpa using listed
    | dirty => rfl

theorem setFlags (free : (caches.table sktm).atEnd = true) (flushing evicting : Bool) :
    (caches.setFlags sktm flushing evicting).Consistent := by
  have placed := consistent.placed sktm
  apply @change caches (caches.setFlags sktm flushing evicting) .clean sktm consistent
  · exact fun _ _ => rfl
  · exact fun t differs => ⟨update_of_ne differs .., Iff.rfl⟩
  · exact ⟨placed.oneList, by simpa [TableCaches.setFlags] using placed.inDirty,
      by simpa [TableCaches.setFlags] using placed.endMarker, fun _ => placed.endMarker.mp free⟩
  · exact consistent.once .clean
  · exact consistent.sizes .clean

theorem step {action : CacheAction} (taken : caches.step action = some next) : next.Consistent := by
  cases action with
  | insert =>
    simp only [TableCaches.step] at taken
    split_ifs at taken with refused
    cases taken
    exact consistent.insert (by simpa using refused)
  | removeFromDirty =>
    cases taken
    exact consistent.removeFromDirty
  | migrate =>
    cases taken
    exact consistent.migrate
  | pop =>
    cases taken
    exact consistent.pop
  | setFlags sktm flushing evicting =>
    simp only [TableCaches.step] at taken
    split_ifs at taken with listed
    cases taken
    exact consistent.setFlags (by simpa using listed) flushing evicting

end

end TableCaches.Consistent

/-- In every run from empty lists, after every step. -/
theorem table_caches_consistent (actions : List CacheAction) :
    Run.AllHold TableCaches.step TableCaches.Consistent actions {} := by
  apply Run.allHold_of_invariant TableCaches.Consistent (fun _ consistent => consistent)
    (fun _ _ _ consistent => consistent.step)
  exact ⟨fun _ => ⟨by simp, by simp, by simp, by simp⟩, fun _ => nodup_nil, fun _ => rfl⟩

end InsDb
