import InsDb.Library.Rows
import InsDb.UserKey

/-!
# SKTables

An SKTable owns a key range: the `UserKey`s in its key map, the keys still waiting in
its key queue, the rows of its device format, and per column the scratch pad that was
built last.
-/

namespace InsDb

open InsDb.Library

structure IterScratchPad (K V : Type) where
  entries : List (K × Designator V)
  beginSeq : Nat
  lastSeq : Nat
  -- The number and time of the iterator that the pad was built for, which `last_seq_` forgets.
  -- Nothing is computed from it.
  builtFor : ReadPoint
deriving DecidableEq, Repr

structure SKTable (K V : Type) where
  beginKey : K
  keymap : List (K × UserKey V) := []
  keyQueue : List (K × UserKey V) := []
  -- The key and the column info of each row of the device format.
  rows : List (K × Bytes) := []
  hasBeenFlushed : Bool := false
  latestIterPad : Nat → Option (IterScratchPad K V) := fun _ => none

variable {K V : Type} [LinearOrder K]

/-- Key map and rows are strictly ascending by key, and a key waits in the queue at most
once and only while it is not in the key map. -/
structure SKTable.Sorted (t : SKTable K V) : Prop where
  keymap : Rows.Ascending t.keymap
  rows : Rows.Ascending t.rows
  queued : (t.keyQueue.map Prod.fst).Nodup
  fresh : ∀ key ∈ t.keyQueue.map Prod.fst, Rows.get t.keymap key = none

namespace SKTable

/-- The `UserKey` that the hash map has for a key of the table. -/
def findUserKey (t : SKTable K V) (key : K) : Option (UserKey V) :=
  (Rows.get t.keymap key).or (Rows.get t.keyQueue key)

/-- Changes the `UserKey` of a key in place; a new one is pushed to the key queue. -/
def setUserKey (t : SKTable K V) (key : K) (user : UserKey V) :
    SKTable K V :=
  if (Rows.get t.keymap key).isSome then
    { t with keymap := Rows.set key user t.keymap }
  else if (Rows.get t.keyQueue key).isSome then
    { t with keyQueue := Rows.replace key user t.keyQueue }
  else
    { t with keyQueue := t.keyQueue ++ [(key, user)] }

/-- `InsertUserKeyToKeyMapFromInactiveKeyQueue`: keys that were new since the last call go
into the key map, and the pads built without them are given back. -/
def insertUserKeyToKeyMap (t : SKTable K V) : Bool × SKTable K V :=
  if t.keyQueue.isEmpty then
    (false, t)
  else
    (true,
      { t with
        keymap := Rows.setAll t.keyQueue t.keymap
        keyQueue := []
        latestIterPad := fun _ => none })

def deviceRow (t : SKTable K V) (key : K) : DeviceRow :=
  { columns := rowColumns ((Rows.get t.rows key).getD [])
    flushed := t.hasBeenFlushed }

/-- `DBImpl::Get` for a key of the table. -/
def get (t : SKTable K V) (key : K) (colId : Nat) (point : ReadPoint) :
    Option (Designator V) :=
  getRead (t.findUserKey key) (t.deviceRow key) colId point

section

variable (t : SKTable K V) (key : K) (user : UserKey V)

include t key user

theorem findUserKey_setUserKey (other : K) : (t.setUserKey key user).findUserKey other =
      if key = other then some user else t.findUserKey other := by
  unfold setUserKey findUserKey
  by_cases mapped : (Rows.get t.keymap key).isSome = true
  · rw [if_pos mapped]
    simp only [Rows.get_set]
    split_ifs <;> rfl
  have notMapped : Rows.get t.keymap key = none := by simpa using mapped
  rw [if_neg mapped]
  by_cases waiting : (Rows.get t.keyQueue key).isSome = true
  · rw [if_pos waiting]
    simp only [Rows.get_replace _ _ _ _ waiting]
    by_cases same : key = other
    · subst same
      simp [notMapped]
    · simp [same]
  have notWaiting : Rows.get t.keyQueue key = none := by simpa using waiting
  rw [if_neg waiting]
  simp only [Rows.get_append, Rows.get_cons, Rows.get_nil]
  by_cases same : key = other
  · subst same
    simp [notMapped, notWaiting]
  · simp [same]

@[simp] theorem setUserKey_deviceRow (other : K) :
    (t.setUserKey key user).deviceRow other = t.deviceRow other := by
  unfold setUserKey deviceRow
  split_ifs <;> rfl

@[simp] theorem setUserKey_beginKey : (t.setUserKey key user).beginKey = t.beginKey := by
  unfold setUserKey
  split_ifs <;> rfl

@[simp] theorem setUserKey_latestIterPad :
    (t.setUserKey key user).latestIterPad = t.latestIterPad := by
  unfold setUserKey
  split_ifs <;> rfl

end

section

variable {t : SKTable K V} (sorted : t.Sorted)

include sorted

theorem Sorted.setUserKey (key : K) (user : UserKey V) : (t.setUserKey key user).Sorted := by
  unfold SKTable.setUserKey
  split_ifs with mapped waiting
  · refine ⟨sorted.keymap.set key user, sorted.rows, sorted.queued, ?_⟩
    intro other mem
    have differs : key ≠ other := by
      rintro rfl
      simp [sorted.fresh key mem] at mapped
    rw [Rows.get_set, if_neg differs]
    exact sorted.fresh other mem
  · refine ⟨sorted.keymap, sorted.rows, ?_, ?_⟩
    · simpa only [Rows.replace_keys] using sorted.queued
    · simpa only [Rows.replace_keys] using sorted.fresh
  have absent : key ∉ t.keyQueue.map Prod.fst := fun mem =>
    waiting (Rows.isSome_get_iff.mpr mem)
  refine ⟨sorted.keymap, sorted.rows, ?_, ?_⟩
  · rw [List.map_append, List.nodup_append]
    refine ⟨sorted.queued, by simp, ?_⟩
    intro other mem added last same
    have isKey : added = key := by simpa using last
    exact absent (isKey ▸ same ▸ mem)
  intro other mem
  rw [List.map_append, List.mem_append] at mem
  rcases mem with earlier | last
  · exact sorted.fresh other earlier
  have isKey : other = key := by simpa using last
  simpa [isKey] using mapped

theorem Sorted.insertUserKeyToKeyMap : t.insertUserKeyToKeyMap.2.Sorted := by
  unfold SKTable.insertUserKeyToKeyMap
  split_ifs
  · exact sorted
  · exact ⟨sorted.keymap.setAll t.keyQueue, sorted.rows, List.nodup_nil, by simp⟩

theorem get_insertUserKeyToKeyMap (key : K) :
    Rows.get t.insertUserKeyToKeyMap.2.keymap key = t.findUserKey key := by
  unfold SKTable.insertUserKeyToKeyMap findUserKey
  split_ifs with empty
  · simp [List.isEmpty_iff.mp empty]
  rw [Rows.get_setAll_of_distinct _ _ sorted.queued]
  by_cases waiting : (Rows.get t.keyQueue key).isSome = true
  · simp [sorted.fresh key (Rows.isSome_get_iff.mp waiting)]
  have notWaiting : Rows.get t.keyQueue key = none := by simpa using waiting
  simp [notWaiting]

end

theorem insertUserKeyToKeyMap_keyQueue (t : SKTable K V) :
    t.insertUserKeyToKeyMap.2.keyQueue = [] := by
  unfold SKTable.insertUserKeyToKeyMap
  split_ifs with empty
  · exact List.isEmpty_iff.mp empty
  · rfl

@[simp] theorem insertUserKeyToKeyMap_findUserKey {t : SKTable K V}
    (sorted : t.Sorted) (key : K) :
    t.insertUserKeyToKeyMap.2.findUserKey key = t.findUserKey key := by
  rw [← get_insertUserKeyToKeyMap sorted key, findUserKey, insertUserKeyToKeyMap_keyQueue]
  simp

@[simp] theorem insertUserKeyToKeyMap_deviceRow (t : SKTable K V) (key : K) :
    t.insertUserKeyToKeyMap.2.deviceRow key = t.deviceRow key := by
  unfold SKTable.insertUserKeyToKeyMap
  split_ifs <;> rfl

end SKTable

end InsDb
