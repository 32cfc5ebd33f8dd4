import InsDb.Library.Program
import InsDb.LogRecord
import InsDb.RecoveredColumns
import InsDb.TransactionCount

/-!
# Recovery

`DBRecovery::RunRecovery` decodes the log record, deletes the key blocks it names, walks the
`SKTable`s and cleans up what an interrupted flush left, follows the workers' logs, and puts
the columns of complete transactions into the key map.
-/

namespace InsDb

open InsDb.Library

def Status.isOk (status : Status) : Bool := decide (status = .ok)

def Status.isNotFound : Status → Bool
  | .notFound _ => true
  | _ => false

/-- An access to the device, with whether absence is expected there, or the decoding of a
record. -/
inductive RecoveryEvent where
  | access (absenceExpected : Bool) (status : Status)
  | decoded (success : Bool)
deriving DecidableEq, Repr

def RecoveryEvent.acceptable : RecoveryEvent → Bool
  | .access absenceExpected status => status.isOk || (absenceExpected && status.isNotFound)
  | .decoded success => success

inductive RecoveryStop where
  | crash
  | returned (status : Status)
deriving DecidableEq, Repr

structure RecoveryState (K V : Type) where
  db : Db K V
  events : List RecoveryEvent := []
  deleted : List Nat := []
  recovered : List (ColumnInfo K) := []

abbrev RecoveryM (K V : Type) := ExceptT RecoveryStop (StateM (RecoveryState K V))

variable {K V : Type}

def logEvent (event : RecoveryEvent) : RecoveryM K V Unit :=
  modify fun s => { s with events := s.events ++ [event] }

def access (absenceExpected : Bool) (status : Status) : RecoveryM K V Unit :=
  logEvent (.access absenceExpected status)

def returnStatus (status : Status) : RecoveryM K V Unit :=
  throw (.returned status)

def failUnlessOk (status : Status) : RecoveryM K V Unit :=
  if status.isOk then pure () else returnStatus status

def need (absenceExpected : Bool) (status : Status) : RecoveryM K V Unit := do
  access absenceExpected status
  failUnlessOk status

def needDecoded (success : Bool) (otherwise : Status) : RecoveryM K V Unit := do
  logEvent (.decoded success)
  if success then pure () else returnStatus otherwise

def rejectWhen (bad : Bool) (otherwise : Status) : RecoveryM K V Unit :=
  if bad then needDecoded false otherwise else pure ()

structure KbmUpdateReads where
  read : Status
  decodes : Bool
  put : Status

/-- One update list on the device: its pieces, the blocks it deletes and the metas it
updates, with the status of each access. -/
structure UpdateListReads where
  read : Status
  pieces : List Status
  decodes : Bool
  deletes : List (Status × Status)
  updates : List KbmUpdateReads
  removals : List Status

def UpdateListReads.lastStatus (reads : UpdateListReads) : Status :=
  if reads.updates = [] then (reads.deletes.getLast?.map Prod.snd).getD .ok else .ok

/-- A delete that returns its status unless it is OK or the key is gone. -/
def needDelete (status : Status) : RecoveryM K V Unit := do
  access true status
  if status.isNotFound then pure () else failUnlessOk status

/-- `CleanupSktUpdateList` for one kind of list. -/
def cleanupSktUpdateList (reads : UpdateListReads) : RecoveryM K V Unit := do
  access true reads.read
  if reads.read.isNotFound then
    pure ()
  else
    failUnlessOk reads.read
    reads.pieces.forM (need false)
    needDecoded reads.decodes (.corruption "cannot decode update list")
    reads.deletes.forM fun (kb, kbm) => do
      needDelete kb
      needDelete kbm
    reads.updates.forM fun update => do
      need false update.read
      needDecoded update.decodes (.corruption "cannot decode KBM")
      need false update.put
    -- only the last status of the removals is looked at, and a missing key is an error
    reads.removals.forM (access true)
    failUnlessOk (reads.removals.getLast?.getD reads.lastStatus)

/-- One table of the walk.  `preallocChain` has the tables from the preallocated one up to
the next one, with the statuses of the read and of the delete. -/
structure SKTableReads where
  read : Status
  size : Nat
  compressOffset : Nat
  sharedKeyLen : Nat
  updateList : UpdateListReads
  iterUpdateList : UpdateListReads
  prealloc : Status
  preallocChain : List (Status × Status)

/-- `CleanupPreallocSKTable`; the status of a delete is not looked at. -/
def cleanupPreallocSKTable : List (Status × Status) → RecoveryM K V Unit
  | [] => pure ()
  | (read, delete) :: rest => do
      access true read
      if read.isNotFound then
        pure ()
      else
        failUnlessOk read
        access true delete
        cleanupPreallocSKTable rest

/-- `LoadBeginsKeysAndCLeanupSKTableMeta`. -/
def loadBeginsKeysAndCleanupSKTableMeta (reads : SKTableReads) : RecoveryM K V Unit := do
  need false reads.read
  rejectWhen (reads.size < 48) (.corruption "sktable is invalid")
  rejectWhen (2048 < reads.compressOffset) (.notSupported "first key is too big")
  rejectWhen (reads.sharedKeyLen ≠ 0) (.corruption "begin key shared a portion")
  logEvent (.decoded true)
  cleanupSktUpdateList reads.updateList
  cleanupSktUpdateList reads.iterUpdateList
  access true reads.prealloc
  -- an error other than `NotFound` is ignored here
  if reads.prealloc.isOk then cleanupPreallocSKTable reads.preallocChain else pure ()

/-- `DBRecovery::AddUncompletedColumn`. -/
def addUncompletedColumn (trxnList : List (Nat × TransactionColCount)) (trxn : Transaction) :
    List (Nat × TransactionColCount) :=
  match Rows.get trxnList trxn.id with
  | none => Rows.set trxn.id { count := trxn.count, completed := 0 } trxnList
  | some _ => trxnList

/-- A `DBRecoveryThread`, with what its `ThreadFn` leaves. -/
structure DBRecoveryThread (K : Type) where
  status : Status := .ok
  uncompletedTrxnList : List (Nat × TransactionColCount) := []
  uncompletedKeyList : List (ColumnInfo K) := []

/-- What the threads left, merged.  Each transaction of a thread counts for one column. -/
def mergeThread (merged thread : DBRecoveryThread K) : DBRecoveryThread K :=
  if thread.status.isOk then
    { merged with
      uncompletedTrxnList :=
        thread.uncompletedTrxnList.foldl
          (fun list trxn => (addCompletedColumn list trxn.1 trxn.2.count).2)
          merged.uncompletedTrxnList
      uncompletedKeyList := merged.uncompletedKeyList ++ thread.uncompletedKeyList }
  else
    { merged with status := thread.status }

/-- The loop `restart_all_workers`: a column of an uncompleted transaction is dropped, the
transactions merged into it become uncompleted, and the scan starts again.  Each restart
drops a column. -/
def resolveUncompleted :
    Nat → List (Nat × TransactionColCount) → List (ColumnInfo K) → List (ColumnInfo K)
  | 0, _, keys => keys
  | fuel + 1, trxnList, keys =>
    match keys.findIdx? fun info => (Rows.get trxnList info.trxn.id).isSome with
    | none => keys
    | some index =>
      match keys[index]? with
      | none => keys
      | some info =>
        resolveUncompleted fuel (info.merged.foldl addUncompletedColumn trxnList)
          (keys.eraseIdx index)

/-- What the device holds for a run of recovery, as far as the run can see it.  A worker's log
is given by the columns of its key blocks. -/
structure RecoveryReads (K : Type) where
  record : Except LogRecordKey.DecodeError LogRecordKey.Decoded
  multiDel : List Status
  superSKTable : Status
  sktables : List SKTableReads
  logs : List (List (List (ColumnInfo K)))

/-- The record as `RunRecovery` decodes it after `LoadLogRecordKey`. -/
def RecoveryReads.loadLogRecordKey (format : LogFormat) (workerCount : Nat)
    (reads : RecoveryReads K) (record : Option Varint.Bytes) : RecoveryReads K :=
  { reads with record := (LogRecordKey.load record).2.decodeBuffer format workerCount }

/-- `DBRecovery::UpdateAllKBMsInOrder` is not implemented. -/
def updateAllKBMsInOrder : Bool := false

variable [LinearOrder K]

def insertRecovered (info : ColumnInfo K) : RecoveryM K V Unit := do
  let s ← get
  match s.db.insertRecoveredKeyToKeymap info with
  | some db => set { s with db := db, recovered := s.recovered ++ [info] }
  | none => throw .crash

/-- The part of `RunRecovery` that redoes the workers' logs.  The recovery threads are created
and joined; `StartThread` is called on none of them. -/
def redoLogs (reads : RecoveryReads K) : RecoveryM K V Unit := do
  let threads : List (DBRecoveryThread K) := reads.logs.map fun _ => {}
  let merged := threads.foldl mergeThread {}
  failUnlessOk merged.status
  (resolveUncompleted merged.uncompletedKeyList.length merged.uncompletedTrxnList
    merged.uncompletedKeyList).forM insertRecovered
  if updateAllKBMsInOrder then pure ()
  else returnStatus (.ioError "could not update KBMs")

/-- `DBRecovery::RunRecovery`. -/
def runRecovery (reads : RecoveryReads K) : RecoveryM K V Unit :=
  match reads.record with
  | .error .crashed => throw .crash
  | .error .failed => needDecoded false (.corruption "could not decode log record")
  | .ok decoded => do
      logEvent (.decoded true)
      modify fun s =>
        { s with deleted := s.deleted ++ decoded.deletedIKeySeqs.takeWhile (· ≠ 0) }
      reads.multiDel.forM (access true)
      need false reads.superSKTable
      reads.sktables.forM loadBeginsKeysAndCleanupSKTableMeta
      redoLogs reads

def runRecoveryOn (reads : RecoveryReads K) (db : Db K V) :
    Option Status × RecoveryState K V :=
  match (runRecovery reads).run { db := db } with
  | (.ok (), s) => (some .ok, s)
  | (.error (.returned status), s) => (some status, s)
  | (.error .crash, s) => (none, s)

structure SameButEvents (before after : RecoveryState K V) : Prop where
  db : after.db = before.db
  deleted : after.deleted = before.deleted
  recovered : after.recovered = before.recovered

def IsFailure (stop : RecoveryStop) : Prop :=
  ∃ status, stop = .returned status ∧ status ≠ .ok

def OnlyLogs (step : RecoveryM K V Unit) : Prop :=
  Program.Keeps SameButEvents IsFailure step

namespace OnlyLogs

omit [LinearOrder K]

theorem same_refl (s : RecoveryState K V) : SameButEvents s s := ⟨rfl, rfl, rfl⟩

theorem same_trans (first second third : RecoveryState K V)
    (pre : SameButEvents first second) (post : SameButEvents second third) :
    SameButEvents first third :=
  ⟨post.db.trans pre.db, post.deleted.trans pre.deleted,
    post.recovered.trans pre.recovered⟩

theorem nothing : OnlyLogs (pure () : RecoveryM K V Unit) := Program.Keeps.pure same_refl ()

theorem andThen {first : RecoveryM K V Unit} {next : Unit → RecoveryM K V Unit}
    (firstLogs : OnlyLogs first) (nextLogs : OnlyLogs (next ())) : OnlyLogs (first >>= next) :=
  Program.Keeps.bind same_trans firstLogs fun _ => nextLogs

theorem each {Item : Type} {items : List Item} {step : Item → RecoveryM K V Unit}
    (steps : ∀ item, OnlyLogs (step item)) : OnlyLogs (items.forM step) :=
  Program.Keeps.forM same_refl same_trans steps

theorem branch {condition : Prop} [Decidable condition] {yes no : RecoveryM K V Unit}
    (yesLogs : OnlyLogs yes) (noLogs : OnlyLogs no) :
    OnlyLogs (if condition then yes else no) :=
  Program.Keeps.ite yesLogs noLogs

theorem logEvent (event : RecoveryEvent) : OnlyLogs (InsDb.logEvent event : RecoveryM K V Unit) :=
  Program.Keeps.modify fun _ => ⟨rfl, rfl, rfl⟩

theorem access (absenceExpected : Bool) (status : Status) :
    OnlyLogs (InsDb.access absenceExpected status : RecoveryM K V Unit) :=
  logEvent _

theorem returnStatus {status : Status} (isError : status ≠ .ok) :
    OnlyLogs (InsDb.returnStatus status : RecoveryM K V Unit) :=
  Program.Keeps.throw same_refl ⟨status, rfl, isError⟩

theorem failUnlessOk (status : Status) :
    OnlyLogs (InsDb.failUnlessOk status : RecoveryM K V Unit) := by
  unfold InsDb.failUnlessOk
  by_cases isOk : status = .ok
  · rw [if_pos (by simp [Status.isOk, isOk])]
    exact nothing
  rw [if_neg (by simp [Status.isOk, isOk])]
  exact returnStatus isOk

theorem need (absenceExpected : Bool) (status : Status) :
    OnlyLogs (InsDb.need absenceExpected status : RecoveryM K V Unit) :=
  (access absenceExpected status).andThen (failUnlessOk status)

theorem needDecoded (success : Bool) {otherwise : Status} (isError : otherwise ≠ .ok) :
    OnlyLogs (InsDb.needDecoded success otherwise : RecoveryM K V Unit) :=
  (logEvent _).andThen (branch nothing (returnStatus isError))

theorem needDelete (status : Status) : OnlyLogs (InsDb.needDelete status : RecoveryM K V Unit) :=
  (access true status).andThen (branch nothing (failUnlessOk status))

theorem rejectWhen (bad : Bool) {otherwise : Status} (isError : otherwise ≠ .ok) :
    OnlyLogs (InsDb.rejectWhen bad otherwise : RecoveryM K V Unit) :=
  branch (needDecoded false isError) nothing

theorem cleanupSktUpdateList (reads : UpdateListReads) :
    OnlyLogs (InsDb.cleanupSktUpdateList reads : RecoveryM K V Unit) := by
  apply (access true reads.read).andThen
  apply branch nothing
  apply (failUnlessOk reads.read).andThen
  apply (each (need false)).andThen
  apply (needDecoded reads.decodes (by simp)).andThen
  apply OnlyLogs.andThen
  · apply each
    intro blocks
    exact (needDelete blocks.1).andThen (needDelete blocks.2)
  apply OnlyLogs.andThen
  · apply each
    intro update
    apply (need false update.read).andThen
    apply (needDecoded update.decodes (by simp)).andThen
    exact need false update.put
  exact (each (access true)).andThen (failUnlessOk _)

theorem cleanupPreallocSKTable (chain : List (Status × Status)) :
    OnlyLogs (InsDb.cleanupPreallocSKTable chain : RecoveryM K V Unit) := by
  induction chain with
  | nil => exact nothing
  | cons t rest ih =>
    apply (access true t.1).andThen
    apply branch nothing
    exact (failUnlessOk t.1).andThen ((access true t.2).andThen ih)

theorem loadBeginsKeysAndCleanupSKTableMeta (reads : SKTableReads) :
    OnlyLogs (InsDb.loadBeginsKeysAndCleanupSKTableMeta reads : RecoveryM K V Unit) := by
  apply (need false reads.read).andThen
  apply (rejectWhen _ (by simp)).andThen
  apply (rejectWhen _ (by simp)).andThen
  apply (rejectWhen _ (by simp)).andThen
  apply (logEvent _).andThen
  apply (cleanupSktUpdateList reads.updateList).andThen
  apply (cleanupSktUpdateList reads.iterUpdateList).andThen
  apply (access true reads.prealloc).andThen
  exact branch (cleanupPreallocSKTable reads.preallocChain) nothing

end OnlyLogs

omit [LinearOrder K] in
theorem foldl_mergeThread_unstarted {Log : Type} (logs : List Log) :
    (logs.map fun _ => ({} : DBRecoveryThread K)).foldl mergeThread {} = {} := by
  induction logs with
  | nil => rfl
  | cons log rest ih => exact ih

theorem redoLogs_eq (reads : RecoveryReads K) : (redoLogs reads : RecoveryM K V Unit) =
      returnStatus (.ioError "could not update KBMs") := by
  simp only [redoLogs, foldl_mergeThread_unstarted]
  rfl

theorem runRecovery_neverReturns (reads : RecoveryReads K) :
    Program.NeverReturns (runRecovery reads : RecoveryM K V Unit) := by
  unfold runRecovery
  cases reads.record with
  | error failure =>
    cases failure with
    | crashed => exact Program.neverReturns_throw _
    | failed =>
      exact Program.neverReturns_bind _ fun _ => Program.neverReturns_throw _
  | ok =>
    simp only [redoLogs_eq]
    apply Program.neverReturns_bind
    intro _
    apply Program.neverReturns_bind
    intro _
    apply Program.neverReturns_bind
    intro _
    apply Program.neverReturns_bind
    intro _
    apply Program.neverReturns_bind
    intro _
    exact Program.neverReturns_throw _

structure SameKeyMap (before after : RecoveryState K V) : Prop where
  db : after.db = before.db
  recovered : after.recovered = before.recovered

theorem runRecovery_keeps (reads : RecoveryReads K) : Program.Keeps SameKeyMap (· ≠ .returned .ok)
      (runRecovery reads : RecoveryM K V Unit) := by
  have refl : ∀ s : RecoveryState K V, SameKeyMap s s := fun _ => ⟨rfl, rfl⟩
  have trans : ∀ first second third : RecoveryState K V, SameKeyMap first second →
      SameKeyMap second third → SameKeyMap first third :=
    fun _ _ _ pre post =>
      ⟨post.db.trans pre.db, post.recovered.trans pre.recovered⟩
  have logs : ∀ {step : RecoveryM K V Unit}, OnlyLogs step →
      Program.Keeps SameKeyMap (· ≠ .returned .ok) step := by
    intro _ only
    apply only.mono
    · intro _ _ same
      exact ⟨same.db, same.recovered⟩
    rintro _ ⟨_, rfl, isError⟩ isOk
    exact isError (RecoveryStop.returned.inj isOk)
  unfold runRecovery
  cases reads.record with
  | error failure =>
    cases failure with
    | crashed => exact Program.Keeps.throw refl (by simp)
    | failed => exact logs (OnlyLogs.needDecoded false (by simp))
  | ok =>
    apply Program.Keeps.bind trans (logs (OnlyLogs.logEvent _))
    intro _
    apply Program.Keeps.bind trans
    · exact Program.Keeps.modify fun _ => ⟨rfl, rfl⟩
    intro _
    apply logs
    apply (OnlyLogs.each (OnlyLogs.access true)).andThen
    apply (OnlyLogs.need false reads.superSKTable).andThen
    apply (OnlyLogs.each OnlyLogs.loadBeginsKeysAndCleanupSKTableMeta).andThen
    rw [redoLogs_eq]
    exact OnlyLogs.returnStatus (by simp)

theorem runRecoveryOn_spec (reads : RecoveryReads K) (db : Db K V) :
    (runRecoveryOn reads db).1 ≠ some .ok ∧ (runRecoveryOn reads db).2.db = db ∧
      (runRecoveryOn reads db).2.recovered = [] := by
  have keeps := @runRecovery_keeps K V _ reads
  have frame := keeps.frame { db := db }
  have stops := keeps.stops { db := db }
  have never := @runRecovery_neverReturns K V _ reads { db := db }
  unfold runRecoveryOn
  cases ran : (runRecovery reads : RecoveryM K V Unit).run { db := db } with
  | mk result =>
    rw [ran] at frame stops never
    cases result with
    | ok v => exact absurd rfl (never v)
    | error stop =>
      cases stop with
      | crash => exact ⟨by simp, frame.db, frame.recovered⟩
      | returned status =>
        refine ⟨?_, frame.db, frame.recovered⟩
        intro isOk
        have notOk := stops (.returned status) rfl
        exact notOk (congrArg _ (Option.some.inj isOk))

/-- The status is OK exactly if every record was decoded and every access went as it may. -/
def ReportsFailures (run : Option Status × RecoveryState K V) : Prop :=
  run.1 = some .ok ↔ ∀ event ∈ run.2.events, event.acceptable = true

omit [LinearOrder K] in
theorem RecoveryReads.record_loadLogRecordKey (format : LogFormat) (workerCount : Nat)
    (reads : RecoveryReads K) (record : Option Varint.Bytes) :
    (reads.loadLogRecordKey format workerCount record).record = .error .failed := by
  cases record <;> rfl

theorem runRecoveryOn_of_not_decoded {reads : RecoveryReads K}
    (notDecoded : reads.record = .error .failed) (db : Db K V) :
    (runRecoveryOn reads db).1 = some (.corruption "could not decode log record") ∧
      .decoded false ∈ (runRecoveryOn reads db).2.events := by
  have failed : (runRecovery reads : RecoveryM K V Unit) =
      needDecoded false (.corruption "could not decode log record") := by
    rw [runRecovery, notDecoded]
  rw [runRecoveryOn, failed]
  exact ⟨rfl, List.mem_cons_self⟩

/-- One table and one empty log, with nothing to clean up and no failed access.  The log record
is not decoded. -/
def cleanReads : RecoveryReads Nat where
  record := .error .failed
  multiDel := []
  superSKTable := .ok
  sktables := [
    { read := .ok
      size := 64
      compressOffset := 48
      sharedKeyLen := 0
      updateList := ⟨.notFound "", [], true, [], [], []⟩
      iterUpdateList := ⟨.notFound "", [], true, [], [], []⟩
      prealloc := .notFound ""
      preallocChain := [] }]
  logs := [[]]

end InsDb
