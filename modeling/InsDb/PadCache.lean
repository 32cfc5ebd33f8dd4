import Mathlib.Logic.Relation
import InsDb.ScratchPad
import InsDb.Store

/-!
# Reusing a scratch pad

`GetLatestIterPad` hands a cached pad to another iterator when the sequence number of
its snapshot lies between `begin_seq_` and `last_seq_`, and also above `last_seq_`
while no key was new since the last call; `last_seq_` then moves up.  Neither test
sees an update of a key that is already in memory, and `begin_seq_` only counts the
versions that made it into the pad.
-/

namespace InsDb

open InsDb.Library List

variable {K V : Type} [LinearOrder K]

namespace SKTable

variable (t : SKTable K V)

def cachePad (col : Nat) (pad : IterScratchPad K V) :
    SKTable K V :=
  { t with latestIterPad := Function.update t.latestIterPad col (some pad) }

/-- `SKTableMem::SetLatestIterPad`. -/
def setLatestIterPad (col : Nat)
    (pad : IterScratchPad K V) : SKTable K V :=
  match t.latestIterPad col with
  | none => t.cachePad col pad
  | some cached => if cached.beginSeq < pad.beginSeq then t.cachePad col pad else t

/-- The second rule of `GetLatestIterPad`. -/
def reuseLatestIterPad (col seqNum : Nat) :
    Option (IterScratchPad K V) × SKTable K V :=
  if t.insertUserKeyToKeyMap.1 = true then
    (none, t.insertUserKeyToKeyMap.2)
  else
    match t.latestIterPad col with
    | none => (none, t)
    | some pad =>
      if pad.beginSeq ≤ seqNum then
        let extended := { pad with lastSeq := max pad.lastSeq seqNum }
        (some extended, t.cachePad col extended)
      else
        (none, t)

/-- `SKTableMem::GetLatestIterPad`. -/
def getLatestIterPad (col seqNum : Nat) :
    Option (IterScratchPad K V) × SKTable K V :=
  match t.latestIterPad col with
  | some pad =>
    if pad.beginSeq ≤ seqNum ∧ seqNum ≤ pad.lastSeq then
      (some pad, t)
    else
      t.reuseLatestIterPad col seqNum
  | none => t.reuseLatestIterPad col seqNum

/-- How `SeekInternal` gets the pad of a table: a cached one, or one built now, which is
cached if it has an entry and uses the device format of the table itself. -/
def seekPad (nextBegin key : Option K) (useOrgSktdf : Bool)
    (col : Nat) (point : ReadPoint) : Option (IterScratchPad K V) × SKTable K V :=
  match t.getLatestIterPad col point.seqNum with
  | (some pad, t) => (some pad, t)
  | (none, t) =>
    match t.buildIteratorScratchPad nextBegin key col point with
    | none => (none, t)
    | some pad =>
      (some pad,
        if pad.entries.isEmpty = false ∧ useOrgSktdf = true then
          t.setLatestIterPad col pad
        else
          t)

def shown (key : K) (col : Nat) (point : ReadPoint) :
    Option (Designator V) :=
  (padRead (t.findUserKey key) (t.deviceRow key) col point).map Prod.fst

/-- What is built now for a read point, every key of the table being in the key map. -/
def currentPad (col : Nat) (point : ReadPoint) :
    IterScratchPad K V :=
  t.insertUserKeyToKeyMap.2.buildPad col point

theorem currentPad_ascending {t : SKTable K V} (sorted : t.Sorted) (col : Nat)
    (point : ReadPoint) : Rows.Ascending (t.currentPad col point).entries :=
  buildPad_ascending sorted.insertUserKeyToKeyMap col point

theorem get_currentPad {t : SKTable K V} (sorted : t.Sorted) (col : Nat)
    (point : ReadPoint) (key : K) :
    Rows.get (t.currentPad col point).entries key = t.shown key col point := by
  rw [currentPad, get_buildPad sorted.insertUserKeyToKeyMap, get_insertUserKeyToKeyMap sorted,
    insertUserKeyToKeyMap_deviceRow, shown]

structure SameKeys (pre post : SKTable K V) : Prop where
  beginKey : post.beginKey = pre.beginKey
  users : ∀ key, post.findUserKey key = pre.findUserKey key
  rows : ∀ key, post.deviceRow key = pre.deviceRow key
  sorted : pre.Sorted → post.Sorted

theorem SameKeys.refl : t.SameKeys t :=
  ⟨rfl, fun _ => rfl, fun _ => rfl, id⟩

theorem SameKeys.trans {first second third : SKTable K V} (left : first.SameKeys second)
    (right : second.SameKeys third) : first.SameKeys third :=
  ⟨right.beginKey.trans left.beginKey, fun key => (right.users key).trans (left.users key),
    fun key => (right.rows key).trans (left.rows key),
    fun sorted => right.sorted (left.sorted sorted)⟩

theorem SameKeys.shown {pre post : SKTable K V} (same : pre.SameKeys post)
    (key : K) (col : Nat) (point : ReadPoint) :
    post.shown key col point = pre.shown key col point := by
  rw [SKTable.shown, SKTable.shown, same.users, same.rows]

theorem sameKeys_cachePad (col : Nat)
    (pad : IterScratchPad K V) : t.SameKeys (t.cachePad col pad) :=
  ⟨rfl, fun _ => rfl, fun _ => rfl,
    fun sorted => ⟨sorted.keymap, sorted.rows, sorted.queued, sorted.fresh⟩⟩

theorem sameKeys_insertUserKeyToKeyMap {t : SKTable K V} (sorted : t.Sorted) :
    t.SameKeys t.insertUserKeyToKeyMap.2 := by
  refine ⟨?_, insertUserKeyToKeyMap_findUserKey sorted, insertUserKeyToKeyMap_deviceRow t,
    Sorted.insertUserKeyToKeyMap⟩
  unfold insertUserKeyToKeyMap
  split_ifs <;> rfl

theorem getLatestIterPad_cases (col seq : Nat) : (∃ pad, t.latestIterPad col = some pad ∧
      t.getLatestIterPad col seq = (some pad, t)) ∨
    (∃ pad, t.latestIterPad col = some pad ∧ t.keyQueue = [] ∧
      t.getLatestIterPad col seq = (some { pad with lastSeq := max pad.lastSeq seq },
          t.cachePad col { pad with lastSeq := max pad.lastSeq seq })) ∨
    (t.keyQueue ≠ [] ∧
      t.getLatestIterPad col seq = (none, t.insertUserKeyToKeyMap.2)) ∨
    (t.keyQueue = [] ∧ t.getLatestIterPad col seq = (none, t)) := by
  have reuse : (∃ pad, t.latestIterPad col = some pad ∧ t.keyQueue = [] ∧
        t.reuseLatestIterPad col seq =
          (some { pad with lastSeq := max pad.lastSeq seq },
            t.cachePad col { pad with lastSeq := max pad.lastSeq seq })) ∨
      (t.keyQueue ≠ [] ∧
        t.reuseLatestIterPad col seq = (none, t.insertUserKeyToKeyMap.2)) ∨
      (t.keyQueue = [] ∧ t.reuseLatestIterPad col seq = (none, t)) := by
    unfold reuseLatestIterPad
    by_cases empty : t.keyQueue = []
    · have notMoved : t.insertUserKeyToKeyMap.1 = false := by
        simp [insertUserKeyToKeyMap, empty]
      rw [notMoved]
      cases cached : t.latestIterPad col with
      | none => exact .inr (.inr ⟨empty, rfl⟩)
      | some pad =>
        by_cases begun : pad.beginSeq ≤ seq
        · refine .inl ⟨pad, rfl, empty, ?_⟩
          simp [begun]
        refine .inr (.inr ⟨empty, ?_⟩)
        simp [begun]
    · have moved : t.insertUserKeyToKeyMap.1 = true := by
        simp [insertUserKeyToKeyMap, empty]
      exact .inr (.inl ⟨empty, by simp [moved]⟩)
  unfold getLatestIterPad
  cases cached : t.latestIterPad col with
  | none =>
    rw [cached] at reuse
    exact .inr reuse
  | some pad =>
    by_cases within : pad.beginSeq ≤ seq ∧ seq ≤ pad.lastSeq
    · exact .inl ⟨pad, rfl, by simp [within]⟩
    rw [cached] at reuse
    simp only [if_neg within]
    exact .inr reuse

end SKTable

/-- The pad holds what the table shows, now, at the read point of its build. -/
structure PadSound (t : SKTable K V) (col : Nat) (pad : IterScratchPad K V)
    (bound : Nat) : Prop where
  builtBefore : pad.builtFor.seqNum ≤ bound
  ascending : Rows.Ascending pad.entries
  entries : ∀ key, Rows.get pad.entries key = t.shown key col pad.builtFor

def SKTable.PadsSound (t : SKTable K V) (bound : Nat) : Prop :=
  ∀ col pad, t.latestIterPad col = some pad → PadSound t col pad bound

namespace PadSound

variable {pre post : SKTable K V} {col : Nat} {pad : IterScratchPad K V}
  {bound : Nat}

theorem sameKeys (sound : PadSound pre col pad bound) (same : pre.SameKeys post) :
    PadSound post col pad bound :=
  ⟨sound.builtBefore, sound.ascending, fun key => by rw [sound.entries, same.shown]⟩

theorem extend (sound : PadSound pre col pad bound) (lastSeq : Nat) :
    PadSound pre col { pad with lastSeq := lastSeq } bound :=
  ⟨sound.builtBefore, sound.ascending, sound.entries⟩

theorem entries_eq_iff (sound : PadSound pre col pad bound) (sorted : pre.Sorted)
    (point : ReadPoint) :
    pad.entries = (pre.currentPad col point).entries ↔
      ∀ key, pre.shown key col pad.builtFor = pre.shown key col point := by
  constructor
  · intro same _
    rw [← sound.entries, same, SKTable.get_currentPad sorted]
  intro same
  apply Rows.Ascending.ext sound.ascending (SKTable.currentPad_ascending sorted col point)
  intro _
  rw [sound.entries, same, SKTable.get_currentPad sorted]

theorem update {node : ColumnNode V} (sound : PadSound pre col pad bound)
    (updated : pre.UpdatedBy post node) (users : pre.UsersWellFormed bound)
    (afterUsers : post.UsersWellFormed node.beginSeq) (fresh : bound < node.beginSeq) :
    PadSound post col pad node.beginSeq := by
  have older : pad.builtFor.seqNum < node.beginSeq := by
    have built := sound.builtBefore
    omega
  refine ⟨Nat.le_of_lt older, sound.ascending, ?_⟩
  intro key
  have unchanged := (updated.reads_below users afterUsers key col _ older).1
  rw [sound.entries, SKTable.shown, SKTable.shown, unchanged]

theorem mono {larger : Nat} (sound : PadSound pre col pad bound) (grows : bound ≤ larger) :
    PadSound pre col pad larger :=
  ⟨Nat.le_trans sound.builtBefore grows, sound.ascending, sound.entries⟩

end PadSound

namespace SKTable

variable {t : SKTable K V} {col bound : Nat}

theorem buildPad_sound (col : Nat) (sorted : t.Sorted) (empty : t.keyQueue = []) {point : ReadPoint}
    (live : point.seqNum ≤ bound) :
    PadSound t col (t.buildPad col point) bound := by
  refine ⟨live, buildPad_ascending sorted col point, ?_⟩
  intro key
  have noneWaiting : t.findUserKey key = Rows.get t.keymap key := by
    simp [findUserKey, empty]
  rw [get_buildPad sorted, shown, noneWaiting]
  rfl

theorem PadsSound.cachePad {pad : IterScratchPad K V} (sound : t.PadsSound bound)
    (newSound : PadSound t col pad bound) : (t.cachePad col pad).PadsSound bound := by
  intro other cached isCached
  apply PadSound.sameKeys _ (sameKeys_cachePad t col pad)
  by_cases same : other = col
  · subst same
    obtain rfl : pad = cached := by simpa [SKTable.cachePad] using isCached
    exact newSound
  · exact sound other cached (by simpa [SKTable.cachePad, same] using isCached)

theorem PadsSound.insertUserKeyToKeyMap (sound : t.PadsSound bound) :
    t.insertUserKeyToKeyMap.2.PadsSound bound := by
  unfold SKTable.insertUserKeyToKeyMap
  split_ifs
  · exact sound
  intro _ _ isCached
  simp at isCached

theorem getLatestIterPad_sound (col : Nat) (sorted : t.Sorted)
    (sound : t.PadsSound bound) (seq : Nat) :
    t.SameKeys (t.getLatestIterPad col seq).2 ∧
      (t.getLatestIterPad col seq).2.PadsSound bound ∧
      (∀ pad, (t.getLatestIterPad col seq).1 = some pad → PadSound t col pad bound) ∧
      ((t.getLatestIterPad col seq).1 = none →
        (t.getLatestIterPad col seq).2.keyQueue = []) := by
  obtain ⟨pad, cached, result⟩ | ⟨pad, cached, -, result⟩ | ⟨-, result⟩ | ⟨empty, result⟩ :=
    t.getLatestIterPad_cases col seq
  · rw [result]
    exact ⟨SameKeys.refl t, sound, by rintro _ ⟨⟩; exact sound col pad cached, by simp⟩
  · rw [result]
    have extended := (sound col pad cached).extend (max pad.lastSeq seq)
    exact ⟨sameKeys_cachePad t col _, sound.cachePad extended,
      by rintro _ ⟨⟩; exact extended, by simp⟩
  · rw [result]
    exact ⟨sameKeys_insertUserKeyToKeyMap sorted, sound.insertUserKeyToKeyMap, by simp,
      fun _ => insertUserKeyToKeyMap_keyQueue t⟩
  rw [result]
  exact ⟨SameKeys.refl t, sound, by simp, fun _ => empty⟩

theorem setLatestIterPad_sound {pad : IterScratchPad K V} (sound : t.PadsSound bound)
    (newSound : PadSound t col pad bound) :
    t.SameKeys (t.setLatestIterPad col pad) ∧
      (t.setLatestIterPad col pad).PadsSound bound := by
  unfold setLatestIterPad
  split
  · exact ⟨sameKeys_cachePad t col pad, sound.cachePad newSound⟩
  split_ifs
  · exact ⟨sameKeys_cachePad t col pad, sound.cachePad newSound⟩
  · exact ⟨SameKeys.refl t, sound⟩

theorem seekPad_sound (sorted : t.Sorted) (sound : t.PadsSound bound)
    (nextBegin key : Option K) (useOrgSktdf : Bool) {point : ReadPoint}
    (live : point.seqNum ≤ bound) :
    t.SameKeys (t.seekPad nextBegin key useOrgSktdf col point).2 ∧
      (t.seekPad nextBegin key useOrgSktdf col point).2.PadsSound bound := by
  obtain ⟨same, padsSound, -, emptied⟩ := getLatestIterPad_sound col sorted sound point.seqNum
  unfold seekPad
  split
  next pad looked result =>
    rw [result] at same padsSound
    exact ⟨same, padsSound⟩
  next looked result =>
    rw [result] at same padsSound emptied
    cases built : looked.buildIteratorScratchPad nextBegin key col point with
    | none => exact ⟨same, padsSound⟩
    | some =>
      obtain rfl := buildIteratorScratchPad_eq_buildPad built
      have newSound := buildPad_sound col (same.sorted sorted) (emptied rfl) live
      have cached := setLatestIterPad_sound padsSound newSound
      dsimp only
      split_ifs
      · exact ⟨same.trans cached.1, cached.2⟩
      · exact ⟨same, padsSound⟩

end SKTable

def Db.seekTable (db : Db K V) (index : Nat) (key : Option K) (useOrgSktdf : Bool)
    (col : Nat) (point : ReadPoint) : Db K V :=
  let nextBegin := (db.tables[index + 1]?).map SKTable.beginKey
  { db with
    tables := db.tables.modify index fun t =>
      (t.seekPad nextBegin key useOrgSktdf col point).2 }

inductive PadStep : Db K V → Db K V → Prop
  | store (db : Db K V) (trxn : Transaction) (time : Nat) (key : K) (col : Nat)
      (update : Update V) : PadStep db (db.store trxn time key col update).1
  | seek (db : Db K V) (index : Nat) (key : Option K) (useOrgSktdf : Bool)
      (col : Nat) (point : ReadPoint) (live : point.seqNum ≤ db.sequenceNumber) :
      PadStep db (db.seekTable index key useOrgSktdf col point)

structure PadInvariant (db : Db K V) : Prop where
  wellFormed : db.WellFormed
  pads : ∀ t ∈ db.tables, t.PadsSound db.sequenceNumber

theorem PadInvariant.store {db : Db K V} (inv : PadInvariant db)
    (trxn : Transaction) (time : Nat) (key : K) (col : Nat) (update : Update V)
    (small : db.sequenceNumber + 1 < ulongMax) :
    PadInvariant (db.store trxn time key col update).1 := by
  have stored := stored_store db trxn time key col update
  have begins := update.node_beginSeq (db.timeStamp col time) (db.sequenceNumber + 1)
  have wellFormed := inv.wellFormed.store trxn time key col update small
  refine ⟨wellFormed, ?_⟩
  intro changed mem other pad cached
  have changedUsers := wellFormed.users changed mem
  rw [stored.sequence, ← begins] at changedUsers ⊢
  obtain ⟨i, isTable⟩ := mem_iff_getElem?.mp mem
  obtain ⟨t, isBefore, rfl | updated⟩ := stored.table isTable
  · exact (inv.pads _ (mem_of_getElem? isBefore) other pad cached).mono (by omega)
  have beforeMem := mem_of_getElem? isBefore
  have sameCache : t.latestIterPad other = some pad := by
    obtain ⟨_, _, _, -, rfl⟩ := updated
    simpa using cached
  exact (inv.pads t beforeMem other pad sameCache).update updated
    (inv.wellFormed.users t beforeMem) changedUsers (by omega)

theorem PadInvariant.seek {db : Db K V} (inv : PadInvariant db) (i : Nat)
    (key : Option K) (useOrgSktdf : Bool) (col : Nat) {point : ReadPoint}
    (live : point.seqNum ≤ db.sequenceNumber) :
    PadInvariant (db.seekTable i key useOrgSktdf col point) := by
  -- Every table has the keys and rows of one before, and sound pads.
  have ts : ∀ changed ∈ (db.seekTable i key useOrgSktdf col point).tables,
      ∃ t ∈ db.tables, t.SameKeys changed ∧ changed.PadsSound db.sequenceNumber := by
    intro changed mem
    obtain ⟨pos, isTable⟩ := mem_iff_getElem?.mp mem
    rw [Db.seekTable, getElem?_modify] at isTable
    obtain ⟨t, isBefore, rfl⟩ := Option.map_eq_some_iff.mp isTable
    have beforeMem := mem_of_getElem? isBefore
    refine ⟨t, beforeMem, ?_⟩
    by_cases isIndex : i = pos
    · rw [if_pos isIndex]
      exact SKTable.seekPad_sound (inv.wellFormed.sorted t beforeMem)
        (inv.pads t beforeMem) _ _ _ live
    rw [if_neg isIndex]
    exact ⟨SKTable.SameKeys.refl t, inv.pads t beforeMem⟩
  refine ⟨⟨?_, ?_⟩, ?_⟩
  · intro changed mem
    obtain ⟨t, beforeMem, same, -⟩ := ts changed mem
    exact same.sorted (inv.wellFormed.sorted t beforeMem)
  · intro changed mem other user found
    obtain ⟨t, beforeMem, same, -⟩ := ts changed mem
    rw [same.users] at found
    exact inv.wellFormed.users t beforeMem other user found
  intro changed mem
  obtain ⟨t, beforeMem, -, sound⟩ := ts changed mem
  exact sound

theorem PadStep.sequence_le {pre post : Db K V} (step : PadStep pre post) :
    pre.sequenceNumber ≤ post.sequenceNumber := by
  cases step with
  | store trxn time key col update =>
    rw [(stored_store pre trxn time key col update).sequence]
    omega
  | seek => exact Nat.le_refl _

theorem PadInvariant.step {pre post : Db K V} (inv : PadInvariant pre)
    (step : PadStep pre post) (small : post.sequenceNumber < ulongMax) :
    PadInvariant post := by
  cases step with
  | store trxn time key col update =>
    rw [(stored_store pre trxn time key col update).sequence] at small
    exact inv.store trxn time key col update small
  | seek i key useOrgSktdf col point live =>
    exact inv.seek i key useOrgSktdf col live

theorem PadInvariant.run {pre post : Db K V} (inv : PadInvariant pre)
    (run : Relation.ReflTransGen PadStep pre post) (small : post.sequenceNumber < ulongMax) :
    PadInvariant post := by
  induction run with
  | refl => exact inv
  | tail _ step ih =>
    have grows := step.sequence_le
    exact (ih (by omega)).step step small

/-- The column of the row passes the test of an iterator and is at the designated place. -/
def DeviceRow.PadHolds (row : DeviceRow) (col : Nat) (point : ReadPoint)
    (place : Designator V) : Prop :=
  ∃ column carriedSeq carriedTs,
    locate col 0 0 row.columns = some (column, carriedSeq, carriedTs) ∧
      column.padAdmits row.flushed point carriedSeq carriedTs = true ∧
      place = .keyBlock column.ikeySeq column.offset

theorem DeviceRow.padEntry_eq_some_iff {row : DeviceRow} {col : Nat} {point : ReadPoint}
    {place : Designator V} :
    (row.padEntry col point).map Prod.fst = some place ↔ row.PadHolds col point place := by
  rw [padEntry_eq_locate]
  simp only [PadHolds, Option.map_eq_some_iff, Option.filter_eq_some_iff, Prod.exists]
  constructor
  · rintro ⟨column, seq, ts, ⟨isColumn, admits⟩, isPlace⟩
    exact ⟨column, seq, ts, isColumn, admits, isPlace.symm⟩
  · rintro ⟨column, seq, ts, isColumn, admits, isPlace⟩
    exact ⟨column, seq, ts, ⟨isColumn, admits⟩, isPlace.symm⟩

/-- The version of a key at a sequence number and time: the one in memory whose numbers have the
number in between, if it is no delete and not dropped; without one, and if the row is not
fetched, the column of the row that passes the tests for the number and the time. -/
def SKTable.Sees (t : SKTable K V) (key : K) (col : Nat) (point : ReadPoint)
    (place : Designator V) : Prop :=
  match t.findUserKey key with
  | none => (t.deviceRow key).PadHolds col point place
  | some user =>
    match (user.columns col).stopNode point.seqNum with
    | none => user.fetched = false ∧ (t.deviceRow key).PadHolds col point place
    | some node => node.hidden point.curTime 0 = false ∧ place = node.designator

theorem SKTable.shown_eq_some_iff {t : SKTable K V} {key : K} {col : Nat} {point : ReadPoint}
    {place : Designator V} : t.shown key col point = some place ↔ t.Sees key col point place := by
  unfold SKTable.shown SKTable.Sees padRead
  cases t.findUserKey key with
  | none => exact DeviceRow.padEntry_eq_some_iff
  | some user =>
    simp only [UserKey.getColumnNode, ColumnData.getColumnNode_of_stopNode]
    cases (user.columns col).stopNode point.seqNum with
    | none =>
      cases user.fetched
      · simpa using DeviceRow.padEntry_eq_some_iff
      · simp
    | some node =>
      cases hidden : node.hidden point.curTime 0
      · simp [ColumnNode.answer, hidden, eq_comm]
      · simp [ColumnNode.answer, hidden]

def paddedTable : Db Nat Nat :=
  (oneTable.store { count := 1 } 0 1 0 (.put 10)).1.seekTable 0 none true 0 ⟨1, 0, 0⟩

theorem paddedTable_reached : Relation.ReflTransGen PadStep oneTable paddedTable :=
  .tail (.tail .refl (.store oneTable { count := 1 } 0 1 0 (.put 10)))
    (.seek _ 0 none true 0 ⟨1, 0, 0⟩ (by decide))

end InsDb
