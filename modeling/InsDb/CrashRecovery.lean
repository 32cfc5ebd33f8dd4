import InsDb.RecoveredTransactions
import InsDb.ScratchPad

/-!
# Opening a database after a crash

`DBImpl::Recover` runs recovery if there is a log record and then takes the tables from the
manifest, which is the one of the last clean shutdown.  What reaches the readers of the
opened database is what those tables hold on the device.
-/

namespace InsDb

open InsDb.Library
open Varint (Bytes)

/-- The tables that a manifest lists, by begin key and id, with the sequence number. -/
structure ManifestInfo (K : Type) where
  sequenceNumber : Nat
  sktables : List (K × Nat)

/-- The device of a database after a crash: the log record, what else recovery would read,
the manifest, the rows of each table and the key blocks. -/
structure CrashedDevice (K V : Type) where
  logRecord : Option Bytes
  recovery : RecoveryReads K
  manifest : Except Status (ManifestInfo K)
  sktable : Nat → List (K × Bytes)
  keyBlocks : Nat → Nat → Option V

variable {K V : Type} [LinearOrder K]

/-- `DBImpl::Get` up to `LoadValue`, which stops the process if the key block is not there. -/
def Db.getStatus (db : Db K V) (key : K) (colId : Nat) : Option Status :=
  match db.designate none key colId with
  | none => some (.notFound "key does not exit")
  | some place => (db.load place).map fun _ => .ok

namespace CrashedDevice

variable (ttlList : Nat → Nat) (now : Nat)

/-- The database as `InitManifest` sets it up: no key is in memory. -/
def initManifest (dev : CrashedDevice K V) (info : ManifestInfo K) : Db K V where
  tables := info.sktables.map fun (beginKey, sktId) =>
    { beginKey := beginKey, rows := dev.sktable sktId }
  sequenceNumber := info.sequenceNumber
  keyBlocks := dev.keyBlocks
  ttlList := ttlList
  now := now

variable (format : LogFormat)

variable (workerCount : Nat)

/-- `Manifest::RecoverInSDB`; nothing is returned if the process is stopped. -/
def recoverInSDB (dev : CrashedDevice K V) :
    Option Status :=
  match LogRecordKey.load dev.logRecord with
  | (.ok, _) =>
    let reads := dev.recovery.loadLogRecordKey format workerCount dev.logRecord
    let db : Db K V := { tables := [] }
    (runRecoveryOn reads db).1.map fun status =>
      if status.isOk then .ok else .corruption "could not recover DB"
  | (status, _) => some status

/-- `DBImpl::Recover` for a database whose super `SKTable` is there. -/
def recover (dev : CrashedDevice K V) :
    Option (Status × Option (Db K V)) :=
  (dev.recoverInSDB format workerCount).map fun status =>
    if status.isOk || status.isNotFound then
      match dev.manifest with
      | .ok info => (.ok, some (dev.initManifest ttlList now info))
      | .error failure => (failure, none)
    else (status, none)

/-- The table that the manifest assigns to the key, as it is on the device. -/
def assignedRow (dev : CrashedDevice K V) (info : ManifestInfo K) (key : K) :
    DeviceRow :=
  match info.sktables[tableIndex key (info.sktables.map Prod.fst)]? with
  | some (_, sktId) =>
    { columns := rowColumns ((Rows.get (dev.sktable sktId) key).getD [])
      flushed := false }
  | none => {}

/-- The opened database answers `NotFound`. -/
def ReadsNotFound (dev : CrashedDevice K V)
    (key : K) (colId : Nat) : Prop :=
  ∃ db message, dev.recover ttlList now format workerCount = some (.ok, some db) ∧
    db.getStatus key colId = some (.notFound message)

/-- The row has no such column where the manifest leads a reader, or one without an internal key,
or an expired one. -/
def HidesColumn (dev : CrashedDevice K V) (info : ManifestInfo K) (key : K)
    (colId : Nat) : Prop :=
  ∀ column carriedSeq carriedTs,
    locate colId 0 0 (dev.assignedRow info key).columns =
        some (column, carriedSeq, carriedTs) →
      column.ikeySeq = 0 ∨ column.ownTs carriedTs ≠ 0 ∧ ttlList colId ≠ 0 ∧
        expiry (column.ownTs carriedTs) (ttlList colId) ≤ now

theorem recoverInSDB_of_record {dev : CrashedDevice K V} {record : Bytes}
    (isRecord : dev.logRecord = some record) {status : Status}
    (returned : dev.recoverInSDB format workerCount = some status) :
    status = .corruption "could not recover DB" := by
  simp only [recoverInSDB, isRecord, LogRecordKey.load] at returned
  obtain ⟨inner, ran, isStatus⟩ := Option.map_eq_some_iff.mp returned
  have notOk : inner ≠ .ok := by
    rintro rfl
    exact (runRecoveryOn_spec _ _).1 ran
  rw [← isStatus, if_neg (by simp [Status.isOk, notOk])]

theorem recover_eq_some_iff (dev : CrashedDevice K V) (db : Db K V) :
    dev.recover ttlList now format workerCount = some (.ok, some db) ↔
      dev.logRecord = none ∧ ∃ info, dev.manifest = .ok info ∧
        db = dev.initManifest ttlList now info := by
  unfold recover
  cases isRecord : dev.logRecord with
  | none =>
    have status : dev.recoverInSDB format workerCount = some (.notFound "log record") := by
      simp [recoverInSDB, isRecord, LogRecordKey.load]
    rw [status, Option.map_some]
    cases dev.manifest with
    | error => simp [Status.isNotFound]
    | ok => simp [Status.isNotFound, eq_comm]
  | some =>
    constructor
    · intro opened
      obtain ⟨_, returned, isOpen⟩ := Option.map_eq_some_iff.mp opened
      rw [recoverInSDB_of_record format workerCount isRecord returned] at isOpen
      simp [Status.isOk, Status.isNotFound] at isOpen
    rintro ⟨noRecord, -⟩
    cases noRecord

omit [LinearOrder K] in
theorem beginKeys_initManifest (dev : CrashedDevice K V) (info : ManifestInfo K) :
    (dev.initManifest ttlList now info).beginKeys = info.sktables.map Prod.fst := by
  simp [initManifest, Db.beginKeys]

section

variable (dev : CrashedDevice K V) (info : ManifestInfo K) (key : K)

include dev info key

theorem findUserKey_initManifest : (dev.initManifest ttlList now info).findUserKey key = none := by
  simp only [Db.findUserKey, Db.findSKTableMem]
  rw [Option.bind_eq_none_iff]
  intro _ isTable
  simp only [initManifest, List.getElem?_map] at isTable
  obtain ⟨_, -, rfl⟩ := Option.map_eq_some_iff.mp isTable
  rfl

theorem deviceRow_initManifest :
    (dev.initManifest ttlList now info).deviceRow key = dev.assignedRow info key := by
  simp only [Db.deviceRow, Db.findSKTableMem, beginKeys_initManifest, assignedRow]
  simp only [initManifest, List.getElem?_map]
  cases info.sktables[tableIndex key (info.sktables.map Prod.fst)]? <;> rfl

omit key in
theorem flushed_assignedRow (key : K) : (dev.assignedRow info key).flushed = false ∨
      (dev.assignedRow info key).columns = [] := by
  unfold assignedRow
  cases info.sktables[tableIndex key (info.sktables.map Prod.fst)]? with
  | none => exact .inr rfl
  | some => exact .inl rfl

theorem designate_initManifest_eq_none_iff (col : Nat) :
    (dev.initManifest ttlList now info).designate none key col = none ↔
      dev.HidesColumn ttlList now info key col := by
  rw [Db.designate, findUserKey_initManifest, deviceRow_initManifest, getRead, getValue_eq_locate,
    Option.map_eq_none_iff, HidesColumn]
  cases located : locate col 0 0 (dev.assignedRow info key).columns with
  | none => simp
  | some found =>
    obtain ⟨column, carriedSeq, carriedTs⟩ := found
    have unflushed : (dev.assignedRow info key).flushed = false := by
      rcases dev.flushed_assignedRow info key with unflushed | empty
      · exact unflushed
      rw [empty] at located
      cases located
    have admits : column.getAdmits (dev.assignedRow info key).flushed
        ((dev.initManifest ttlList now info).readPoint none col) carriedSeq carriedTs = true ↔
          (column.ownTs carriedTs = 0 ∨ ttlList col = 0 ∨
            now < expiry (column.ownTs carriedTs) (ttlList col)) ∧ column.ikeySeq ≠ 0 := by
      simp [RowColumn.getAdmits, RowColumn.ownSeq, unflushed, Db.readPoint, initManifest]
    have single : (∀ c seq ts, some (column, carriedSeq, carriedTs) = some (c, seq, ts) →
          c.ikeySeq = 0 ∨ c.ownTs ts ≠ 0 ∧ ttlList col ≠ 0 ∧
            expiry (c.ownTs ts) (ttlList col) ≤ now) ↔
        (column.ikeySeq = 0 ∨ column.ownTs carriedTs ≠ 0 ∧ ttlList col ≠ 0 ∧
          expiry (column.ownTs carriedTs) (ttlList col) ≤ now) := by
      constructor
      · exact fun all => all column carriedSeq carriedTs rfl
      rintro hides _ _ _ ⟨⟩
      exact hides
    rw [single, Option.filter_some]
    split_ifs with admitted
    · obtain ⟨alive, isKey⟩ := admits.mp admitted
      simp only [isKey, false_or, false_iff, not_and, not_le]
      intro stamped limited
      exact (alive.resolve_left stamped).resolve_left limited
    · rw [admits] at admitted
      simp only [true_iff]
      by_contra shown
      push Not at shown admitted
      by_cases stamped : column.ownTs carriedTs = 0
      · exact shown.1 (admitted (Or.inl stamped))
      by_cases limited : ttlList col = 0
      · exact shown.1 (admitted (Or.inr (Or.inl limited)))
      exact shown.1 (admitted (Or.inr (Or.inr (shown.2 stamped limited))))

theorem getStatus_initManifest_iff (col : Nat) :
    (∃ message, (dev.initManifest ttlList now info).getStatus key col =
        some (.notFound message)) ↔ dev.HidesColumn ttlList now info key col := by
  rw [← designate_initManifest_eq_none_iff, Db.getStatus]
  cases (dev.initManifest ttlList now info).designate none key col with
  | none => simp
  | some place => cases (dev.initManifest ttlList now info).load place <;> simp

end

end CrashedDevice

def loggedDelete : ColumnInfo Nat :=
  { loggedPut with requestType := .del, ikeySeq := 1089 }

def submittedPut : ColumnNode Nat :=
  { requestType := .put, beginSeq := 2, ikeySeq := 1088, ivalueSize := 9 }

/-- The put of key 1 is in the table 1; its delete is in the log of the only worker. -/
def deletedInLog : CrashedDevice Nat Nat where
  logRecord := none
  recovery := { cleanReads with logs := [[[loggedDelete]]] }
  manifest := .ok { sequenceNumber := 5, sktables := [(0, 1)] }
  sktable := fun sktId => if sktId = 1 then [(1, encodeRow [(0, submittedPut)])] else []
  keyBlocks := fun ikeySeq kbOffset => if ikeySeq = 1088 ∧ kbOffset = 0 then some 7 else none

end InsDb
