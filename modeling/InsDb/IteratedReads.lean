import InsDb.BatchSnapshot
import InsDb.IteratorOrder
import InsDb.Library.Partition

/-!
# Iterating is reading every key

An iterator reads scratch pads, table by table; `DBImpl::Get` reads one key through the table that
owns it.  Where the pads are current and agree with `Get` on every key, an iterator walks in order
over the keys that `Get` finds, whatever part of them is in memory or on the device.
-/

namespace InsDb

open InsDb.Library InsDb.Library.Cursor List

variable {K V : Type} [LinearOrder K]

variable (t : SKTable K V)

def SKTable.Has (key : K) : Prop :=
  (t.findUserKey key).isSome = true ∨ (Rows.get t.rows key).isSome = true

abbrev TablesInOrder (ts : List (SKTable K V)) : Prop :=
  Partition.InOrder SKTable.beginKey SKTable.Has ts

theorem owner_eq_getElem (key : K) (ts : List (SKTable K V)) :
    ts[tableIndex key (ts.map SKTable.beginKey)]? =
      Partition.owner SKTable.beginKey key ts := by
  induction ts with
  | nil => rfl
  | cons t rest ih =>
    cases rest with
    | nil => rfl
    | cons =>
      rw [map_cons, map_cons, tableIndex_cons_cons, Partition.owner_cons_cons]
      split_ifs
      · rw [getElem?_cons_succ]
        exact ih
      · rfl

theorem Db.inRange_iff (db : Db K V) : db.InRange ↔ TablesInOrder db.tables := by
  constructor
  · intro inRange
    have ordered := pairwise_map.mp inRange.begins
    refine ⟨ordered, ?_, ?_⟩
    · rw [List.pairwise_iff_getElem]
      intro i _ inside otherInside pre key hasKey
      have nextInside : i + 1 < db.tables.length := by omega
      have below := (inRange.keys i _ (getElem?_eq_getElem inside) key hasKey).2 _
        (getElem?_eq_getElem nextInside)
      rcases Nat.lt_or_eq_of_le pre with post | rfl
      · exact lt_trans below (List.pairwise_iff_getElem.mp ordered _ _ nextInside otherInside post)
      · exact below
    · intro t mem key hasKey
      obtain ⟨i, isTable⟩ := mem_iff_getElem?.mp mem
      rw [getElem?_tail] at isTable
      exact (inRange.keys (i + 1) t isTable key hasKey).1 (by omega)
  · intro inOrder
    refine ⟨pairwise_map.mpr inOrder.ordered, ?_⟩
    intro i t isTable key hasKey
    refine ⟨?_, ?_⟩
    · intro notFirst
      apply inOrder.above t _ key hasKey
      rw [mem_iff_getElem?]
      refine ⟨i - 1, ?_⟩
      rw [getElem?_tail, Nat.sub_add_cancel (Nat.pos_of_ne_zero notFirst)]
      exact isTable
    · intro _ isAfter
      obtain ⟨inside, rfl⟩ := List.getElem?_eq_some_iff.mp isTable
      obtain ⟨afterInside, rfl⟩ := List.getElem?_eq_some_iff.mp isAfter
      exact List.pairwise_iff_getElem.mp inOrder.below _ _ inside afterInside (by omega) key hasKey

def Db.iterTables (db : Db K V) (col : Nat) (point : ReadPoint)
    (snapshotPads : K → Option (IterScratchPad K V)) : List (IterTable K V) :=
  db.tables.map fun t => t.iterTable col point (snapshotPads t.beginKey)

/-- `SeekToFirst` of an iterator without a key range. -/
def seekToFirst (ts : List (IterTable K V)) : Option Position :=
  seekWrapper ts none false (forwardFrom ts 0)

/-- From any key sought and any position, the iterator goes over the keys that `Get` finds. -/
structure IteratesFound (db : Db K V) (snapshot : Option Snapshot) (col : Nat)
    (ts : List (IterTable K V)) (found : List K) : Prop where
  ascending : found.Pairwise (· < ·)
  isFound : ∀ key, key ∈ found ↔ (db.designate snapshot key col).isSome = true
  first : ∀ key, (seekToFirst ts).bind (keyAt (segments ts)) = some key ↔
    IsLeast { other | other ∈ found } key
  seek : ∀ sought key, (seek ts sought).bind (keyAt (segments ts)) = some key ↔
    IsLeast { other | other ∈ found ∧ sought ≤ other } key
  next : ∀ pos key, keyAt (segments ts) pos = some key → ∀ count,
    (repeated (next ts) (count + 1) (some pos)).bind (keyAt (segments ts)) =
      (found.filter fun other => key < other)[count]?
  prev : ∀ pos key, keyAt (segments ts) pos = some key → ∀ count,
    (repeated (prev ts) (count + 1) (some pos)).bind (keyAt (segments ts)) =
      (found.filter fun other => other < key).reverse[count]?

theorem lands_seekToFirst {ts : List (IterTable K V)} (ordered : TablesOrdered ts)
    (current : ∀ t ∈ ts, t.PadsCurrent) :
    Lands (· < ·) (fun _ => True) (segments ts) (seekToFirst ts) := by
  rw [seekToFirst, seekWrapper_eq_follow current fun index _ => refuses_none index]
  apply lands_forward ordered
  · intro _ before
    exact absurd before (Nat.not_lt_zero _)
  intro _ _ _ isTable
  exact firstWanted_first ordered isTable fun _ _ => trivial

variable {db : Db K V}

theorem shown_eq_designate {snapshot : Option Snapshot} {col : Nat} {key : K}
    (agrees : PadAgrees (db.findUserKey key) (db.deviceRow key) col (db.readPoint snapshot col)) :
    ((db.findSKTableMem key).bind fun t => t.shown key col (db.readPoint snapshot col)) =
      db.designate snapshot key col := by
  rw [← padRead_eq_getRead_iff] at agrees
  rw [Db.designate, ← agrees]
  unfold Db.findUserKey Db.deviceRow
  cases db.findSKTableMem key with
  | none => simp [padRead, DeviceRow.padEntry, fillIterScratchPadWithColumnInfo, fillFrom]
  | some => rfl

section

variable (inRange : db.InRange) (wellFormed : db.WellFormed)

include inRange wellFormed

theorem mem_visible_iterTables (col : Nat) (point : ReadPoint)
    (snapshotPads : K → Option (IterScratchPad K V)) (key : K) :
    key ∈ visible (db.iterTables col point snapshotPads) ↔
      ((db.findSKTableMem key).bind fun t => t.shown key col point).isSome = true := by
  have has : ∀ t ∈ db.tables, ∀ key,
      (Rows.get (t.currentPad col point).entries key).isSome = true → t.Has key := by
    intro t mem key present
    rw [SKTable.get_currentPad (wellFormed.sorted t mem)] at present
    exact shown_isSome_imp present
  have inOrder : Partition.InOrder SKTable.beginKey
      (fun t key => (Rows.get (t.currentPad col point).entries key).isSome = true) db.tables := by
    obtain ⟨ordered, below, above⟩ := db.inRange_iff.mp inRange
    refine ⟨ordered, below.imp_of_mem ?_, ?_⟩
    · intro t _ mem _ less key present
      exact less key (has t mem key present)
    · intro t mem key present
      exact above t mem key (has t (mem_of_mem_tail mem) key present)
  have keys : visible (db.iterTables col point snapshotPads) =
      (db.tables.flatMap fun t => (t.currentPad col point).entries).map Prod.fst := by
    simp only [visible, segments, Db.iterTables, map_map, flatMap, map_flatten]
    rfl
  rw [keys, ← Rows.isSome_get_iff, Partition.get_flatMap_eq_owner inOrder _ (fun _ _ => id),
    ← owner_eq_getElem]
  change ((db.findSKTableMem key).bind _).isSome = true ↔ _
  cases isTable : db.findSKTableMem key with
  | none => rfl
  | some t =>
    rw [Option.bind_some, Option.bind_some,
      SKTable.get_currentPad (wellFormed.sorted t (mem_of_getElem? isTable))]

/-- Where the pads are current and agree with `Get`, an iterator over a database walks over the keys
that `Get` finds at the same snapshot. -/
theorem iteration_finds_what_get_finds (snapshot : Option Snapshot) (col : Nat)
    {snapshotPads : K → Option (IterScratchPad K V)}
    (current : ∀ t ∈ db.iterTables col (db.readPoint snapshot col) snapshotPads, t.PadsCurrent)
    (agrees : ∀ key,
      PadAgrees (db.findUserKey key) (db.deviceRow key) col (db.readPoint snapshot col)) :
    ∃ found, IteratesFound db snapshot col
      (db.iterTables col (db.readPoint snapshot col) snapshotPads) found := by
  have ordered := inRange.tablesOrdered wellFormed col (db.readPoint snapshot col) snapshotPads
  refine ⟨_, ordered.visible_ascending, ?_, ?_, ?_, ?_, ?_⟩
  · intro key
    rw [← shown_eq_designate (agrees key)]
    exact mem_visible_iterTables inRange wellFormed col _ snapshotPads key
  · have first := (lands_seekToFirst ordered current).isLeast_iff
    simp only [and_true] at first
    exact first
  · intro sought
    exact (lands_seek ordered current sought).isLeast_iff
  · intro _ _ isAt count
    exact repeated_next ordered current count isAt
  · intro _ _ isAt count
    exact repeated_prev ordered current count isAt

end

/-- The table that begins at 10 has been flushed, and an earlier iterator left its pad there. -/
def flushedBehind : Db Nat Nat :=
  { tables :=
      [{ beginKey := 0 },
        { beginKey := 10
          rows :=
            [(10, encodeRow
              [(0, ({ requestType := .put, beginSeq := 5, ikeySeq := 2000, kbOffset := 3 } :
                ColumnNode Nat))])]
          hasBeenFlushed := true
          latestIterPad := fun col => if col = 0 then
            some
              { entries := [(10, .keyBlock 2000 3)]
                beginSeq := 5
                lastSeq := 7
                builtFor := ⟨7, 0, 0⟩ }
            else none }]
    sequenceNumber := 7 }

/-- Key 1 is then put and waits in the first table. -/
def putBeforeFlushed : Db Nat Nat := (flushedBehind.store { count := 1 } 0 1 0 (.put 10)).1

theorem putBeforeFlushed_wellFormed : putBeforeFlushed.WellFormed := by
  have wellFormed : flushedBehind.WellFormed := by
    refine ⟨?_, ?_⟩
    · intro t mem
      obtain rfl | rfl : t = _ ∨ t = _ := by simpa [flushedBehind] using mem
      · exact ⟨.nil, .nil, nodup_nil, by simp⟩
      · exact ⟨.nil, pairwise_singleton _ _, nodup_nil, by simp⟩
    · intro t mem _ _ found
      obtain rfl | rfl : t = _ ∨ t = _ := by simpa [flushedBehind] using mem
      all_goals simp [SKTable.findUserKey] at found
  exact wellFormed.store { count := 1 } 0 1 0 (.put 10) (by decide)

theorem putBeforeFlushed_inRange : putBeforeFlushed.InRange := by
  rw [Db.inRange_iff]
  refine ⟨?_, ?_, ?_⟩
  · exact pairwise_pair.mpr (by decide)
  · refine pairwise_pair.mpr fun key hasKey => ?_
    by_contra notBelow
    have notOne : ¬ 1 = key := by
      rintro rfl
      exact notBelow (by decide)
    obtain found | found := hasKey
    · cases (congrArg Option.isSome ((Rows.get_cons _ _ _).trans (if_neg notOne))).symm.trans found
    · cases found
  · intro t mem key hasKey
    obtain rfl := mem_singleton.mp mem
    obtain found | found := hasKey
    · cases found
    · by_contra notAbove
      have notTen : ¬ 10 = key := fun isTen => notAbove isTen.le
      cases (congrArg Option.isSome ((Rows.get_cons _ _ _).trans (if_neg notTen))).symm.trans found

theorem putBeforeFlushed_agrees (key : Nat) :
    PadAgrees (putBeforeFlushed.findUserKey key) (putBeforeFlushed.deviceRow key) 0
      (putBeforeFlushed.readPoint none 0) := by
  by_cases isPut : 1 = key
  · subst isPut
    exact .inl rfl
  by_cases isRow : 10 = key
  · subst isRow
    intro _ _ _ found
    have located : locate 0 0 0 (putBeforeFlushed.deviceRow 10).columns =
        some (⟨0, 3, 2000, 0, some 5, none, true, false⟩, 0, 0) := by
      decide
    obtain ⟨rfl, rfl, rfl⟩ := by simpa [located] using found
    decide
  have absent : ∀ t ∈ putBeforeFlushed.tables,
      t.findUserKey key = none ∧ (t.deviceRow key).columns = [] := by
    intro t mem
    have atPut : Rows.get putBeforeFlushed.tables[0].keyQueue key = none :=
      (Rows.get_cons _ _ _).trans (if_neg isPut)
    have atRow : Rows.get putBeforeFlushed.tables[1].rows key = none :=
      (Rows.get_cons _ _ _).trans (if_neg isRow)
    obtain rfl | rfl := mem_pair.mp mem
    · exact ⟨atPut, rfl⟩
    · exact ⟨rfl, congrArg (fun row : Option Bytes => rowColumns (row.getD [])) atRow⟩
  unfold Db.findUserKey Db.deviceRow
  cases isTable : putBeforeFlushed.findSKTableMem key with
  | none => simp [PadAgrees, DeviceRow.TestsAgree, locate]
  | some t =>
    obtain ⟨noUser, noColumns⟩ := absent t (mem_of_getElem? isTable)
    simp [PadAgrees, DeviceRow.TestsAgree, locate, noUser, noColumns]

/-- The iterator reads the put of the first table and the pad that the second one has kept. -/
theorem putBeforeFlushed_iterated : putBeforeFlushed.InRange ∧ putBeforeFlushed.WellFormed ∧
    (putBeforeFlushed.iterTables 0 (putBeforeFlushed.readPoint none 0) fun _ => none).map
        IterTable.latestPad = [none, some [(10, .keyBlock 2000 3)]] ∧
      ∃ found, IteratesFound putBeforeFlushed none 0
        (putBeforeFlushed.iterTables 0 (putBeforeFlushed.readPoint none 0) fun _ => none)
          found := by
  refine ⟨putBeforeFlushed_inRange, putBeforeFlushed_wellFormed, ?_,
    iteration_finds_what_get_finds putBeforeFlushed_inRange putBeforeFlushed_wellFormed none 0 ?_
      putBeforeFlushed_agrees⟩
  · decide
  · intro t mem
    obtain rfl | rfl := mem_pair.mp mem
    · exact ⟨fun _ isPad => (by cases isPad), fun _ isPad => (by cases isPad)⟩
    · refine ⟨fun _ isPad => ?_, fun _ isPad => (by cases isPad)⟩
      obtain rfl := Option.some.inj isPad
      decide

end InsDb
