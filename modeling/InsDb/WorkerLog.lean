import InsDb.Library.Run
import InsDb.Column
import Mathlib.Logic.Function.Basic

/-!
# The workers' logs

Each write worker queues the `KeyBlockMetaLog` of every key block it submits in its
`WorkerData`, which has two queues: the worker pushes to the active one and the log thread
takes from the other.
-/

namespace InsDb

open Library.Run Option

/-- The number of logs after which a clean-up round takes no more. -/
def kMaxKbmlCleanup : Nat := 450000

/-- The log of one key block: the key its meta is written under, the key reserved for the
worker's next one, and the number of columns an `SKTable` still has to record at first. -/
structure KeyBlockMetaLog where
  ikeySeq : Nat
  nextIKeySeq : Nat
  keys : Nat
deriving DecidableEq, Repr

inductive Holder where
  | worker
  | logThread
deriving DecidableEq, Repr

/-- `idx_` names the active queue; the queues and their locks are indexed by it. -/
structure WorkerData where
  queue : Bool → List KeyBlockMetaLog
  lock : Bool → Option Holder
  idx : Bool
  nextWorkerIKey : Nat
  lastNextWorkerIKey : Nat

/-- A new `WorkerData` after `InitWorkerNextIKeySeq`. -/
def WorkerData.initWorkerNextIKeySeq (seq : Nat) : WorkerData where
  queue := fun _ => []
  lock := fun _ => none
  idx := false
  nextWorkerIKey := seq
  lastNextWorkerIKey := seq

def WorkerData.setLock (data : WorkerData) (idx : Bool) (holder : Option Holder) :
    WorkerData :=
  { data with lock := Function.update data.lock idx holder }

def WorkerData.setQueue (data : WorkerData) (idx : Bool) (entries : List KeyBlockMetaLog) :
    WorkerData :=
  { data with queue := Function.update data.queue idx entries }

section

variable (data : WorkerData) (idx : Bool) (holder : Option Holder) (entries : List KeyBlockMetaLog)

@[simp] theorem WorkerData.setLock_lock :
    (data.setLock idx holder).lock = Function.update data.lock idx holder := rfl

@[simp] theorem WorkerData.setLock_queue : (data.setLock idx holder).queue = data.queue := rfl

@[simp] theorem WorkerData.setLock_idx : (data.setLock idx holder).idx = data.idx := rfl

@[simp] theorem WorkerData.setLock_nextWorkerIKey :
    (data.setLock idx holder).nextWorkerIKey = data.nextWorkerIKey := rfl

@[simp] theorem WorkerData.setLock_lastNextWorkerIKey :
    (data.setLock idx holder).lastNextWorkerIKey = data.lastNextWorkerIKey := rfl

@[simp] theorem WorkerData.setQueue_queue :
    (data.setQueue idx entries).queue = Function.update data.queue idx entries := rfl

@[simp] theorem WorkerData.setQueue_lock : (data.setQueue idx entries).lock = data.lock := rfl

@[simp] theorem WorkerData.setQueue_idx : (data.setQueue idx entries).idx = data.idx := rfl

@[simp] theorem WorkerData.setQueue_nextWorkerIKey :
    (data.setQueue idx entries).nextWorkerIKey = data.nextWorkerIKey := rfl

@[simp] theorem WorkerData.setQueue_lastNextWorkerIKey :
    (data.setQueue idx entries).lastNextWorkerIKey = data.lastNextWorkerIKey := rfl

end

/-- Where a worker stands in the submission of a key block.  The queue it has read from
`idx_` is kept from the load to the unlock. -/
inductive PushPc where
  | idle
  | retry (kbml : KeyBlockMetaLog)
  | loaded (kbml : KeyBlockMetaLog) (idx : Bool)
  | locked (kbml : KeyBlockMetaLog) (idx : Bool)
  | checked (kbml : KeyBlockMetaLog) (idx : Bool)
  | pushed (kbml : KeyBlockMetaLog) (idx : Bool)
  | submitted (kbml : KeyBlockMetaLog)
deriving DecidableEq, Repr

/-- A worker with its data and what it has done since the start: the logs it pushed, those
that were taken from it for clean-up, and the metas it wrote to the device. -/
structure Worker where
  data : WorkerData
  pc : PushPc
  pushed : List KeyBlockMetaLog
  taken : List KeyBlockMetaLog
  written : List KeyBlockMetaLog

def Worker.init (seq : Nat) : Worker where
  data := .initWorkerNextIKeySeq seq
  pc := .idle
  pushed := []
  taken := []
  written := []

/-- The critical section of `PushKBML`: the log goes to the queue, takes the key that was
reserved for it and leaves the reservation for the next one. -/
def Worker.pushKBML (worker : Worker) (kbml : KeyBlockMetaLog) (idx : Bool) : Worker :=
  let entry := { kbml with ikeySeq := worker.data.nextWorkerIKey }
  { worker with
    data :=
      { worker.data.setQueue idx (worker.data.queue idx ++ [entry]) with
        nextWorkerIKey := kbml.nextIKeySeq }
    pc := .pushed entry idx
    pushed := worker.pushed ++ [entry] }

def Worker.next (worker : Worker) : Option Worker :=
  match worker.pc with
  | .idle => none
  | .retry kbml => some { worker with pc := .loaded kbml worker.data.idx }
  | .loaded kbml idx =>
    -- `TryLock` fails while the lock is held, whoever holds it
    match worker.data.lock idx with
    | some _ => some { worker with pc := .retry kbml }
    | none =>
      some { worker with
        data := worker.data.setLock idx (some .worker)
        pc := .locked kbml idx }
  | .locked kbml idx =>
    if worker.data.idx = idx then some { worker with pc := .checked kbml idx }
    else
      some { worker with
        data := worker.data.setLock idx none
        pc := .retry kbml }
  | .checked kbml idx => some (worker.pushKBML kbml idx)
  | .pushed kbml idx =>
    some { worker with
      data := worker.data.setLock idx none
      pc := .submitted kbml }
  | .submitted kbml =>
    some { worker with
      pc := .idle
      written := worker.written ++ [kbml] }

/-- Where the log thread stands in `WorkerLogCleanupInternal`. -/
inductive ScanPc where
  | scan (first : Bool)
  | waiting (lock : Bool) (first : Bool)
  | holding (lock : Bool) (first : Bool)
  | change
  | changing (active : Bool)
  | storing (active : Bool)
  | finish
deriving DecidableEq, Repr

/-- The local variables of `WorkerLogCleanupInternal`.  `logQ` is set once, at the start. -/
structure Scan where
  logQ : Bool
  lastCleanupKbml : Option KeyBlockMetaLog
  pc : ScanPc
deriving DecidableEq, Repr

def Scan.init (data : WorkerData) : Scan where
  logQ := !data.idx
  lastCleanupKbml := none
  pc := .scan true

/-- What one step of the scan leaves: its variables, the worker, and the log it popped. -/
structure Scanned where
  scan : Scan
  worker : Worker
  popped : List KeyBlockMetaLog

variable (nrs : KeyBlockMetaLog → Nat)

/-- One round of the loop over `logQ`, with the lock held.  Past the size limit the popped
log does not become the last one. -/
def Scan.loop (cleanupSize : Nat) (scan : Scan)
    (worker : Worker) (lock first : Bool) : Scanned :=
  match worker.data.queue scan.logQ with
  | [] =>
    { scan := { scan with pc := if first then .change else .finish }
      worker := { worker with data := worker.data.setLock lock none }
      popped := [] }
  | kbml :: rest =>
    if nrs kbml ≠ 0 then
      { scan := { scan with pc := .finish }
        worker := { worker with data := worker.data.setLock lock none }
        popped := [] }
    else if kMaxKbmlCleanup < cleanupSize + 1 then
      { scan := { scan with pc := .finish }
        worker :=
          { worker with
            data := (worker.data.setQueue scan.logQ rest).setLock lock none
            taken := worker.taken ++ [kbml] }
        popped := [kbml] }
    else
      { scan := { scan with lastCleanupKbml := some kbml }
        worker :=
          { worker with
            data := worker.data.setQueue scan.logQ rest
            taken := worker.taken ++ [kbml] }
        popped := [kbml] }

def Scan.next (cleanupSize : Nat) (scan : Scan)
    (worker : Worker) : Option Scanned :=
  match scan.pc with
  | .scan first =>
    -- the lock is derived again after the switch; `logQ` is not
    some
      { scan := { scan with pc := .waiting (!worker.data.idx) first }
        worker := worker
        popped := [] }
  | .waiting lock first =>
    match worker.data.lock lock with
    | some _ => none
    | none =>
      some
        { scan := { scan with pc := .holding lock first }
          worker := { worker with data := worker.data.setLock lock (some .logThread) }
          popped := [] }
  | .holding lock first => some (scan.loop nrs cleanupSize worker lock first)
  | .change =>
    some
      { scan := { scan with pc := .changing worker.data.idx }
        worker := worker
        popped := [] }
  | .changing active =>
    match worker.data.lock active with
    | some _ => none
    | none =>
      some
        { scan := { scan with pc := .storing active }
          worker := { worker with data := worker.data.setLock active (some .logThread) }
          popped := [] }
  | .storing active =>
    some
      { scan := { scan with pc := .scan false }
        worker := { worker with data := { worker.data.setLock active none with idx := !active } }
        popped := [] }
  | .finish => none

def Scan.nextIKey (scan : Scan) (worker : Worker) : Nat :=
  match scan.lastCleanupKbml with
  | some kbml => kbml.nextIKeySeq
  | none => worker.data.lastNextWorkerIKey

def Scan.record (scan : Scan) (worker : Worker) : Worker :=
  { worker with data := { worker.data with lastNextWorkerIKey := scan.nextIKey worker } }

/-- Where the log thread stands in `LogCleanupInternal`. -/
inductive LogPc where
  | idle
  | turn (workerIdx : Nat)
  | scanning (workerIdx : Nat) (scan : Scan)
deriving DecidableEq, Repr

/-- The workers, the shared counter of internal keys, how many columns of each key block
the `SKTable`s have recorded, and the log thread with the lists of its round. -/
structure LogState where
  workers : Nat → Worker
  workerCount : Nat
  nextInSDBKeySeqNum : Nat
  recordedKeys : Nat → Nat
  log : LogPc
  kbmlCleanup : List KeyBlockMetaLog
  workerNextIKeySeq : List Nat

variable (s : LogState)

/-- `GetNRSCount`: the columns of a key block that no `SKTable` has recorded yet. -/
def LogState.nrsCount (kbml : KeyBlockMetaLog) : Nat :=
  kbml.keys - s.recordedKeys kbml.ikeySeq

def LogState.setWorker (workerIdx : Nat) (worker : Worker) : LogState :=
  { s with workers := Function.update s.workers workerIdx worker }

/-- `generate` starts the submission of a block of `keys` columns; `worker` and `log` let a
worker or the log thread take its next step; `decNRSCount` records a column of a block. -/
inductive LogAction where
  | generate (workerIdx keys : Nat)
  | worker (workerIdx : Nat)
  | decNRSCount (ikeySeq : Nat)
  | beginRound
  | log
deriving DecidableEq, Repr

def LogState.logStep : Option LogState :=
  match s.log with
  | .idle => none
  | .turn workerIdx =>
    if workerIdx < s.workerCount then
      some { s with
        log := .scanning workerIdx (Scan.init (s.workers workerIdx).data) }
    else some { s with log := .idle }
  | .scanning workerIdx scan =>
    let worker := s.workers workerIdx
    if scan.pc = .finish then
      -- `finish_this_worker`
      some
        { s.setWorker workerIdx (scan.record worker) with
          log := .turn (workerIdx + 1)
          workerNextIKeySeq := s.workerNextIKeySeq ++ [scan.nextIKey worker] }
    else
      (scan.next s.nrsCount s.kbmlCleanup.length worker).map fun scanned =>
        { s.setWorker workerIdx scanned.worker with
          log := .scanning workerIdx scanned.scan
          kbmlCleanup := s.kbmlCleanup ++ scanned.popped }

def LogState.step : LogAction → Option LogState
  | .generate workerIdx keys =>
    let worker := s.workers workerIdx
    if workerIdx < s.workerCount ∧ worker.pc = .idle ∧ 0 < keys then
      -- the block's own key is not known before the push
      let kbml : KeyBlockMetaLog :=
        { ikeySeq := 0, nextIKeySeq := s.nextInSDBKeySeqNum, keys := keys }
      some
        { s.setWorker workerIdx { worker with pc := .retry kbml } with
          nextInSDBKeySeqNum := s.nextInSDBKeySeqNum + 1 }
    else none
  | .worker workerIdx =>
    (s.workers workerIdx).next.map (s.setWorker workerIdx)
  | .decNRSCount ikeySeq =>
    some { s with
      recordedKeys :=
        Function.update s.recordedKeys ikeySeq (s.recordedKeys ikeySeq + 1) }
  | .beginRound =>
    if s.log = .idle then
      some { s with log := .turn 0, kbmlCleanup := [], workerNextIKeySeq := [] }
    else none
  | .log => s.logStep

inductive Worker.Move (worker : Worker) : Worker → Prop
  | load (kbml : KeyBlockMetaLog) (here : worker.pc = .retry kbml) :
      Move worker { worker with pc := .loaded kbml worker.data.idx }
  | busy (kbml : KeyBlockMetaLog) (idx : Bool) (here : worker.pc = .loaded kbml idx) :
      Move worker { worker with pc := .retry kbml }
  | lock (kbml : KeyBlockMetaLog) (idx : Bool) (here : worker.pc = .loaded kbml idx)
      (free : worker.data.lock idx = none) :
      Move worker
        { worker with data := worker.data.setLock idx (some .worker), pc := .locked kbml idx }
  | check (kbml : KeyBlockMetaLog) (idx : Bool) (here : worker.pc = .locked kbml idx)
      (active : worker.data.idx = idx) :
      Move worker { worker with pc := .checked kbml idx }
  | giveUp (kbml : KeyBlockMetaLog) (idx : Bool) (here : worker.pc = .locked kbml idx) :
      Move worker { worker with data := worker.data.setLock idx none, pc := .retry kbml }
  | push (kbml : KeyBlockMetaLog) (idx : Bool) (here : worker.pc = .checked kbml idx) :
      Move worker (worker.pushKBML kbml idx)
  | unlock (kbml : KeyBlockMetaLog) (idx : Bool) (here : worker.pc = .pushed kbml idx) :
      Move worker { worker with data := worker.data.setLock idx none, pc := .submitted kbml }
  | write (kbml : KeyBlockMetaLog) (here : worker.pc = .submitted kbml) :
      Move worker { worker with pc := .idle, written := worker.written ++ [kbml] }

theorem Worker.move_of_next {w moved : Worker} (moves : w.next = some moved) :
    w.Move moved := by
  unfold next at moves
  cases here : w.pc with
  | idle => simp [here] at moves
  | retry kbml =>
    simp only [here, some.injEq] at moves
    exact moves ▸ .load kbml here
  | loaded kbml idx =>
    simp only [here] at moves
    cases held : w.data.lock idx with
    | none =>
      simp only [held, some.injEq] at moves
      exact moves ▸ .lock kbml idx here held
    | some =>
      simp only [held, some.injEq] at moves
      exact moves ▸ .busy kbml idx here
  | locked kbml idx =>
    simp only [here] at moves
    by_cases active : w.data.idx = idx
    · rw [if_pos active] at moves
      exact some.inj moves ▸ .check kbml idx here active
    rw [if_neg active] at moves
    exact some.inj moves ▸ .giveUp kbml idx here
  | checked kbml idx =>
    simp only [here, some.injEq] at moves
    exact moves ▸ .push kbml idx here
  | pushed kbml idx =>
    simp only [here, some.injEq] at moves
    exact moves ▸ .unlock kbml idx here
  | submitted kbml =>
    simp only [here, some.injEq] at moves
    exact moves ▸ .write kbml here

inductive Scan.Move (nrs : KeyBlockMetaLog → Nat) (cleanupSize : Nat) (scan : Scan)
    (worker : Worker) : Scanned → Prop
  | derive (first : Bool) (here : scan.pc = .scan first) :
      Move nrs cleanupSize scan worker
        ⟨{ scan with pc := .waiting (!worker.data.idx) first }, worker, []⟩
  | acquire (lock first : Bool) (here : scan.pc = .waiting lock first)
      (free : worker.data.lock lock = none) :
      Move nrs cleanupSize scan worker
        ⟨{ scan with pc := .holding lock first },
          { worker with data := worker.data.setLock lock (some .logThread) }, []⟩
  | drained (lock first : Bool) (here : scan.pc = .holding lock first)
      (empty : worker.data.queue scan.logQ = []) :
      Move nrs cleanupSize scan worker
        ⟨{ scan with pc := if first then .change else .finish },
          { worker with data := worker.data.setLock lock none }, []⟩
  | unrecorded (lock first : Bool) (here : scan.pc = .holding lock first) :
      Move nrs cleanupSize scan worker
        ⟨{ scan with pc := .finish },
          { worker with data := worker.data.setLock lock none }, []⟩
  | full (lock first : Bool) (here : scan.pc = .holding lock first)
      (kbml : KeyBlockMetaLog) (rest : List KeyBlockMetaLog)
      (waiting : worker.data.queue scan.logQ = kbml :: rest) (recorded : nrs kbml = 0)
      (limit : kMaxKbmlCleanup < cleanupSize + 1) :
      Move nrs cleanupSize scan worker
        ⟨{ scan with pc := .finish },
          { worker with
            data := (worker.data.setQueue scan.logQ rest).setLock lock none
            taken := worker.taken ++ [kbml] }, [kbml]⟩
  | pop (lock first : Bool) (here : scan.pc = .holding lock first)
      (kbml : KeyBlockMetaLog) (rest : List KeyBlockMetaLog)
      (waiting : worker.data.queue scan.logQ = kbml :: rest) (recorded : nrs kbml = 0) :
      Move nrs cleanupSize scan worker
        ⟨{ scan with lastCleanupKbml := some kbml },
          { worker with
            data := worker.data.setQueue scan.logQ rest
            taken := worker.taken ++ [kbml] }, [kbml]⟩
  | load (here : scan.pc = .change) :
      Move nrs cleanupSize scan worker
        ⟨{ scan with pc := .changing worker.data.idx }, worker, []⟩
  | lockActive (active : Bool) (here : scan.pc = .changing active)
      (free : worker.data.lock active = none) :
      Move nrs cleanupSize scan worker
        ⟨{ scan with pc := .storing active },
          { worker with data := worker.data.setLock active (some .logThread) }, []⟩
  | store (active : Bool) (here : scan.pc = .storing active) :
      Move nrs cleanupSize scan worker
        ⟨{ scan with pc := .scan false },
          { worker with
            data := { worker.data.setLock active none with idx := !active } }, []⟩

theorem Scan.move_of_loop (cleanupSize : Nat) {scan : Scan}
    (w : Worker) {lock first : Bool} (here : scan.pc = .holding lock first) :
    scan.Move nrs cleanupSize w (scan.loop nrs cleanupSize w lock first) := by
  unfold loop
  cases waiting : w.data.queue scan.logQ with
  | nil => exact .drained lock first here waiting
  | cons kbml rest =>
    by_cases recorded : nrs kbml = 0
    · by_cases limit : kMaxKbmlCleanup < cleanupSize + 1
      · simp only [recorded, ne_eq, not_true_eq_false, if_false, if_pos limit]
        exact .full lock first here kbml rest waiting recorded limit
      simp only [recorded, ne_eq, not_true_eq_false, if_false, if_neg limit]
      exact .pop lock first here kbml rest waiting recorded
    simp only [recorded, ne_eq, not_false_eq_true, if_true]
    exact .unrecorded lock first here

theorem Scan.move_of_next {nrs : KeyBlockMetaLog → Nat} {cleanupSize : Nat} {scan : Scan}
    {w : Worker} {scanned : Scanned}
    (scans : scan.next nrs cleanupSize w = some scanned) :
    scan.Move nrs cleanupSize w scanned := by
  unfold next at scans
  cases here : scan.pc with
  | scan first =>
    simp only [here, some.injEq] at scans
    exact scans ▸ .derive first here
  | waiting lock first =>
    simp only [here] at scans
    cases held : w.data.lock lock with
    | none =>
      simp only [held, some.injEq] at scans
      exact scans ▸ .acquire lock first here held
    | some => simp [held] at scans
  | holding =>
    simp only [here, some.injEq] at scans
    exact scans ▸ move_of_loop nrs cleanupSize w here
  | change =>
    simp only [here, some.injEq] at scans
    exact scans ▸ .load here
  | changing active =>
    simp only [here] at scans
    cases held : w.data.lock active with
    | none =>
      simp only [held, some.injEq] at scans
      exact scans ▸ .lockActive active here held
    | some => simp [held] at scans
  | storing active =>
    simp only [here, some.injEq] at scans
    exact scans ▸ .store active here
  | finish => simp [here] at scans

structure WorkerView where
  worker : Worker
  scan : Option Scan

def LogPc.scanOf (pc : LogPc) (workerIdx : Nat) : Option Scan :=
  match pc with
  | .scanning scanned scan => if scanned = workerIdx then some scan else none
  | _ => none

def LogState.view (workerIdx : Nat) : WorkerView where
  worker := s.workers workerIdx
  scan := s.log.scanOf workerIdx

theorem LogState.log_of_view_scan {s : LogState} {w : Nat} {scan : Scan}
    (isScan : (s.view w).scan = some scan) :
    s.log = .scanning w scan := by
  simp only [view, LogPc.scanOf] at isScan
  split at isScan
  · rename_i scanIdx current log
    split_ifs at isScan with here
    obtain rfl := some.inj isScan
    rw [log, here]
  · cases isScan

inductive LogState.LogViewStep (s : LogState) : WorkerView → WorkerView → Prop
  | same (view : WorkerView) : LogViewStep s view view
  | start (worker : Worker) :
      LogViewStep s ⟨worker, none⟩ ⟨worker, some (Scan.init worker.data)⟩
  | scanned (worker : Worker) (scan : Scan) (scanned : Scanned)
      (scans : scan.Move s.nrsCount s.kbmlCleanup.length worker scanned) :
      LogViewStep s ⟨worker, some scan⟩ ⟨scanned.worker, some scanned.scan⟩
  | record (worker : Worker) (scan : Scan) (finished : scan.pc = .finish) :
      LogViewStep s ⟨worker, some scan⟩ ⟨scan.record worker, none⟩

inductive LogState.ViewStep (s : LogState) (action : LogAction) :
    WorkerView → WorkerView → Prop
  | same (view : WorkerView) : ViewStep s action view view
  | generate (worker : Worker) (scan : Option Scan) (keys : Nat) (idle : worker.pc = .idle) :
      ViewStep s action ⟨worker, scan⟩
        ⟨{ worker with pc := .retry ⟨0, s.nextInSDBKeySeqNum, keys⟩ }, scan⟩
  | next (worker moved : Worker) (scan : Option Scan) (moves : worker.Move moved) :
      ViewStep s action ⟨worker, scan⟩ ⟨moved, scan⟩
  | log (view next : WorkerView) (isLog : action = .log)
      (steps : s.LogViewStep view next) : ViewStep s action view next

theorem LogState.logViewStep_logStep {s next : LogState} (steps : s.logStep = some next)
    (w : Nat) : s.LogViewStep (s.view w) (next.view w) := by
  unfold logStep at steps
  cases log : s.log with
  | idle => simp [log] at steps
  | turn turnIdx =>
    simp only [log] at steps
    by_cases more : turnIdx < s.workerCount
    · rw [if_pos more] at steps
      obtain rfl := some.inj steps
      by_cases here : turnIdx = w
      · subst here
        simpa [view, LogPc.scanOf, log] using LogViewStep.start (s.workers turnIdx)
      · simpa [view, LogPc.scanOf, log, here] using LogViewStep.same (s.view w)
    · rw [if_neg more] at steps
      obtain rfl := some.inj steps
      simpa [view, LogPc.scanOf, log] using LogViewStep.same (s.view w)
  | scanning scanIdx scan =>
    simp only [log] at steps
    by_cases finished : scan.pc = .finish
    · rw [if_pos finished] at steps
      obtain rfl := some.inj steps
      by_cases here : scanIdx = w
      · subst here
        simpa [view, setWorker, LogPc.scanOf, log] using
          LogViewStep.record (s.workers scanIdx) scan finished
      simpa [view, setWorker, LogPc.scanOf, log, here, Ne.symm here] using
        LogViewStep.same (s.view w)
    rw [if_neg finished] at steps
    obtain ⟨scanned, scans, rfl⟩ := map_eq_some_iff.mp steps
    by_cases here : scanIdx = w
    · subst here
      simpa [view, setWorker, LogPc.scanOf, log] using
        LogViewStep.scanned (s.workers scanIdx) scan scanned (Scan.move_of_next scans)
    simpa [view, setWorker, LogPc.scanOf, log, here, Ne.symm here] using
      LogViewStep.same (s.view w)

theorem LogState.viewStep_step {s next : LogState} {action : LogAction}
    (steps : s.step action = some next) (w : Nat) :
    s.ViewStep action (s.view w) (next.view w) := by
  cases action with
  | generate generating keys =>
    simp only [step] at steps
    by_cases ready : generating < s.workerCount ∧ (s.workers generating).pc = .idle ∧ 0 < keys
    · rw [if_pos ready] at steps
      obtain rfl := some.inj steps
      by_cases here : w = generating
      · subst here
        simpa [view, setWorker] using
          ViewStep.generate (s.workers w) (s.log.scanOf w) keys ready.2.1
      · simpa [view, setWorker, here] using ViewStep.same (s.view w)
    · rw [if_neg ready] at steps
      cases steps
  | worker moving =>
    obtain ⟨moved, moves, rfl⟩ := map_eq_some_iff.mp steps
    by_cases here : w = moving
    · subst here
      simpa [view, setWorker] using
        ViewStep.next (s.workers w) moved (s.log.scanOf w)
          (Worker.move_of_next moves)
    · simpa [view, setWorker, here] using ViewStep.same (s.view w)
  | decNRSCount =>
    obtain rfl := some.inj steps
    exact ViewStep.same (s.view w)
  | beginRound =>
    simp only [step] at steps
    by_cases idle : s.log = .idle
    · rw [if_pos idle] at steps
      obtain rfl := some.inj steps
      simpa [view, LogPc.scanOf, idle] using ViewStep.same (s.view w)
    rw [if_neg idle] at steps
    cases steps
  | log => exact .log _ _ rfl (logViewStep_logStep steps w)

end InsDb
