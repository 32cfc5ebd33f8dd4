import InsDb.WorkerLogOrder

/-!
# The next keys that a clean-up round records

A round records for each worker the internal key from which recovery is to follow the
worker's log: the one after the last log that was taken from the worker.
-/

namespace InsDb

open Library.Run List Option

/-- The key after the last log taken from the worker, in this round or an earlier one. -/
def Worker.lastTakenNext (start : Nat) (worker : Worker) : Nat :=
  (worker.taken.map (·.nextIKeySeq)).getLastD start

def WorkerView.nextIKey (view : WorkerView) : Nat :=
  match view.scan with
  | some scan => scan.nextIKey view.worker
  | none => view.worker.data.lastNextWorkerIKey

def Scan.WithinLimit (nrs : KeyBlockMetaLog → Nat) (cleanupSize : Nat) (scan : Scan)
    (data : WorkerData) : Prop :=
  ∀ lock first, scan.pc = .holding lock first →
    ∀ kbml, (data.queue scan.logQ).head? = some kbml → nrs kbml = 0 →
      cleanupSize + 1 ≤ kMaxKbmlCleanup

def LogState.WithinLimit (s : LogState) (action : LogAction) : Prop :=
  action = .log → ∀ workerIdx scan, s.log = .scanning workerIdx scan →
    scan.WithinLimit s.nrsCount s.kbmlCleanup.length (s.workers workerIdx).data

variable {worker : Worker}

theorem Worker.Move.nextIKey {moved : Worker} (move : worker.Move moved) (scan : Option Scan) :
    WorkerView.nextIKey ⟨moved, scan⟩ = WorkerView.nextIKey ⟨worker, scan⟩ ∧
      moved.taken = worker.taken := by
  cases move <;> exact ⟨rfl, rfl⟩

variable {start : Nat}

theorem Scan.Move.nextIKey {nrs : KeyBlockMetaLog → Nat} {cleanupSize : Nat} {scan : Scan}
    {scanned : Scanned} (move : scan.Move nrs cleanupSize worker scanned)
    (within : scan.WithinLimit nrs cleanupSize worker.data)
    (agrees : scan.nextIKey worker = worker.lastTakenNext start) :
    scanned.scan.nextIKey scanned.worker = scanned.worker.lastTakenNext start := by
  cases move
  case full lock first here kbml rest waiting recorded limit =>
    have fits := within lock first here kbml (by rw [waiting]; rfl) recorded
    omega
  case pop lock first here kbml rest waiting recorded =>
    simp [Scan.nextIKey, Worker.lastTakenNext]
  all_goals exact agrees

variable {s : LogState} {action : LogAction}

theorem LogState.ViewStep.nextIKey {view next : WorkerView} (step : s.ViewStep action view next)
    (within : action = .log → ∀ scan, view.scan = some scan →
      scan.WithinLimit s.nrsCount s.kbmlCleanup.length view.worker.data)
    (agrees : view.nextIKey = view.worker.lastTakenNext start) :
    next.nextIKey = next.worker.lastTakenNext start := by
  cases step with
  | same => exact agrees
  | generate => exact agrees
  | next worker moved scan moves =>
    obtain ⟨sameNext, sameTaken⟩ := moves.nextIKey scan
    rw [sameNext, agrees, Worker.lastTakenNext, Worker.lastTakenNext, sameTaken]
  | log view next isLog steps =>
    cases steps with
    | same => exact agrees
    | start => exact agrees
    | scanned worker scan scanned scans => exact scans.nextIKey (within isLog scan rfl) agrees
    | record => exact agrees

/-- The keys recorded in this round belong to the last logs taken, and the next worker in
turn has not been recorded yet. -/
structure LogState.Recorded (start : Nat → Nat) (s : LogState) : Prop where
  recorded : ∀ workerIdx key, s.workerNextIKeySeq[workerIdx]? = some key →
    key = (s.workers workerIdx).lastTakenNext (start workerIdx)
  turn : ∀ workerIdx, s.log = .turn workerIdx →
    s.workerNextIKeySeq.length = workerIdx
  scanning : ∀ workerIdx scan, s.log = .scanning workerIdx scan →
    s.workerNextIKeySeq.length = workerIdx

theorem LogState.lastTakenNext_setWorker (s : LogState) {w : Nat} {other : Nat}
    (start : Nat) (taken : other = w → worker.taken = (s.workers w).taken) :
    ((s.setWorker w worker).workers other).lastTakenNext start =
      (s.workers other).lastTakenNext start := by
  by_cases here : other = w
  · subst here
    simp [setWorker, Worker.lastTakenNext, taken rfl]
  · simp [setWorker, here]

variable {next : LogState}

section

variable {start : Nat → Nat} (recorded : s.Recorded start)
  (agrees : ∀ workerIdx,
    (s.view workerIdx).nextIKey = (s.workers workerIdx).lastTakenNext (start workerIdx))

include recorded agrees

theorem LogState.Recorded.logStep (steps : s.logStep = some next) : next.Recorded start := by
  unfold LogState.logStep at steps
  cases log : s.log with
  | idle => simp [log] at steps
  | turn turnIdx =>
    have length := recorded.turn turnIdx log
    simp only [log] at steps
    split_ifs at steps with more <;> cases steps
    · refine ⟨recorded.recorded, ?_, ?_⟩
      · rintro w ⟨⟩
      rintro w scan ⟨rfl⟩
      exact length
    refine ⟨recorded.recorded, ?_, ?_⟩
    · rintro w ⟨⟩
    · rintro w scan ⟨⟩
  | scanning scanIdx scan =>
    have length := recorded.scanning scanIdx scan log
    simp only [log] at steps
    split_ifs at steps with finished
    · cases steps
      refine ⟨?_, ?_, ?_⟩
      · intro w key isRecorded
        apply Eq.trans _ (s.lastTakenNext_setWorker (start w) (by intro here; rfl)).symm
        rcases Nat.lt_or_ge w s.workerNextIKeySeq.length with earlier | last
        · rw [getElem?_append_left earlier] at isRecorded
          exact recorded.recorded w key isRecorded
        have here : w = scanIdx := by
          have bound := (List.getElem?_eq_some_iff.mp isRecorded).1
          simp only [List.length_append, List.length_singleton] at bound
          omega
        subst here
        have agreesHere := agrees w
        simp only [LogState.view, LogPc.scanOf, log, if_true, WorkerView.nextIKey]
          at agreesHere
        rw [getElem?_append_right last] at isRecorded
        simp only [length, Nat.sub_self, getElem?_cons_zero, some.injEq]
          at isRecorded
        exact isRecorded.symm.trans agreesHere
      · rintro w ⟨rfl⟩
        simp [length]
      · rintro w _ ⟨⟩
    · obtain ⟨_, -, rfl⟩ := map_eq_some_iff.mp steps
      refine ⟨?_, ?_, ?_⟩
      · intro w key isRecorded
        have earlier : w < scanIdx := by
          rw [← length]
          exact (List.getElem?_eq_some_iff.mp isRecorded).1
        apply (recorded.recorded w key isRecorded).trans
        apply (s.lastTakenNext_setWorker (start w) _).symm
        intro here
        exact absurd here (Nat.ne_of_lt earlier)
      · rintro _ ⟨⟩
      rintro _ _ ⟨rfl⟩
      exact length

theorem LogState.Recorded.step (steps : s.step action = some next) : next.Recorded start := by
  cases action with
  | generate =>
    simp only [LogState.step] at steps
    split_ifs at steps
    cases steps
    refine ⟨?_, recorded.turn, recorded.scanning⟩
    intro w key isRecorded
    apply (recorded.recorded w key isRecorded).trans
    exact (s.lastTakenNext_setWorker (start w) (by intro here; rfl)).symm
  | worker =>
    obtain ⟨_, moves, rfl⟩ := map_eq_some_iff.mp steps
    have taken := ((Worker.move_of_next moves).nextIKey none).2
    refine ⟨?_, recorded.turn, recorded.scanning⟩
    intro w key isRecorded
    apply (recorded.recorded w key isRecorded).trans
    exact (s.lastTakenNext_setWorker (start w) (fun _ => taken)).symm
  | decNRSCount =>
    cases steps
    exact ⟨recorded.recorded, recorded.turn, recorded.scanning⟩
  | beginRound =>
    simp only [LogState.step] at steps
    split_ifs at steps
    cases steps
    refine ⟨?_, ?_, ?_⟩
    · intro _ _ isRecorded
      cases isRecorded
    · rintro _ ⟨rfl⟩
      rfl
    · rintro _ _ ⟨⟩
  | log => exact recorded.logStep agrees steps

end

structure LogState.RecordsLast (start : Nat → Nat) (s : LogState) : Prop where
  agrees : ∀ workerIdx, (s.view workerIdx).nextIKey =
    (s.workers workerIdx).lastTakenNext (start workerIdx)
  recorded : s.Recorded start

theorem LogState.RecordsLast.step {start : Nat → Nat} (records : s.RecordsLast start)
    (steps : s.step action = some next) (within : s.WithinLimit action) :
    next.RecordsLast start where
  agrees := by
    intro w
    apply (viewStep_step steps w).nextIKey _ (records.agrees w)
    intro isLog scan isScan
    exact within isLog w scan (log_of_view_scan isScan)
  recorded := records.recorded.step records.agrees steps

theorem StartUp.recordsLast_state (startUp : StartUp) : startUp.state.RecordsLast startUp.seq where
  agrees := by
    intro _
    rfl
  recorded := by
    refine ⟨?_, ?_, ?_⟩
    · intro _ _ isRecorded
      cases isRecorded
    · rintro _ ⟨⟩
    · rintro _ _ ⟨⟩

theorem KeyBlockMetaLog.keys_of_append {first rest : List KeyBlockMetaLog} {last : Nat}
    (keys : start :: (first ++ rest).map (·.nextIKeySeq) =
      (first ++ rest).map (·.ikeySeq) ++ [last]) :
    start :: first.map (·.nextIKeySeq) =
      first.map (·.ikeySeq) ++ [(first.map (·.nextIKeySeq)).getLastD start] := by
  induction first generalizing start with
  | nil => rfl
  | cons block first ih =>
    simp only [cons_append, map_cons, cons.injEq] at keys
    have later := ih keys.2
    simp only [map_cons, cons_append, getLastD_cons, cons.injEq]
    exact ⟨keys.1, later⟩

theorem Worker.Chained.lastTakenNext_fresh (chained : worker.Chained start)
    (distinct : (worker.issued start).Nodup) (first : worker.taken <+: worker.pushed) :
    worker.lastTakenNext start ∉ worker.taken.map (·.ikeySeq) := by
  obtain ⟨_, append⟩ := first
  have chain := chained.chain
  rw [← append] at chain
  have keys := KeyBlockMetaLog.keys_of_append chain
  have nodup : (start :: worker.taken.map (·.nextIKeySeq)).Nodup := by
    rw [Worker.issued, ← append, map_append, ← cons_append, append_assoc]
      at distinct
    exact (nodup_append.mp distinct).1
  rw [keys] at nodup
  intro taken
  exact (nodup_append.mp nodup).2.2 _ taken _ (mem_singleton.mpr rfl) rfl

theorem Scan.Move.popped_length {nrs : KeyBlockMetaLog → Nat} {cleanupSize : Nat} {scan : Scan}
    {scanned : Scanned} (move : scan.Move nrs cleanupSize worker scanned) :
    scanned.popped.length ≤ 1 := by
  cases move <;> simp

theorem LogState.kbmlCleanup_step (steps : s.step action = some next) :
    next.kbmlCleanup.length ≤ s.kbmlCleanup.length + 1 := by
  cases action with
  | generate =>
    simp only [step] at steps
    split_ifs at steps
    cases steps
    exact Nat.le_succ _
  | worker =>
    obtain ⟨_, -, rfl⟩ := map_eq_some_iff.mp steps
    exact Nat.le_succ _
  | decNRSCount =>
    cases steps
    exact Nat.le_succ _
  | beginRound =>
    simp only [step] at steps
    split_ifs at steps
    cases steps
    exact Nat.zero_le _
  | log =>
    simp only [step, logStep] at steps
    split at steps
    · cases steps
    · split_ifs at steps <;> cases steps <;> exact Nat.le_succ _
    split_ifs at steps
    · cases steps
      exact Nat.le_succ _
    obtain ⟨_, scans, rfl⟩ := map_eq_some_iff.mp steps
    have popped := (Scan.move_of_next scans).popped_length
    simp only [List.length_append]
    omega

theorem LogState.withinLimit_of_short {actions : List LogAction}
    (short : s.kbmlCleanup.length + actions.length ≤ kMaxKbmlCleanup) :
    AllMeet step WithinLimit actions s := by
  induction actions generalizing s with
  | nil => trivial
  | cons action rest ih =>
    intro _ steps
    have grows := kbmlCleanup_step steps
    simp only [length_cons] at short
    refine ⟨?_, ih (by omega)⟩
    intro _ _ _ _ _ _ _ _ _ _
    omega

/-- The keys recorded so far in the round are those after the last logs taken. -/
def LogState.RecordsLastTaken (startUp : StartUp) (s : LogState) : Prop :=
  ∀ workerIdx key, s.workerNextIKeySeq[workerIdx]? = some key →
    key = (s.workers workerIdx).lastTakenNext (startUp.seq workerIdx)

def LogState.StartsAfterTaken (startUp : StartUp) (s : LogState) : Prop :=
  ∀ workerIdx key, workerIdx < startUp.workerCount →
    s.workerNextIKeySeq[workerIdx]? = some key →
      key ∉ (s.workers workerIdx).taken.map (·.ikeySeq)

/-- A run that stays within the size limit records the key after the last log taken from
each worker; if it also takes the logs in order, recovery starts after all of them. -/
theorem cleanup_records_last_taken (startUp : StartUp) (actions : List LogAction)
    (within : AllMeet LogState.step LogState.WithinLimit actions startUp.state) :
    AllHold LogState.step (LogState.RecordsLastTaken startUp) actions startUp.state ∧
      (AllMeet LogState.step LogState.PopsOldest actions startUp.state →
        AllHold LogState.step (LogState.StartsAfterTaken startUp) actions startUp.state) := by
  constructor
  · apply allHold_of_allMeet (LogState.RecordsLast startUp.seq) _ _ startUp.recordsLast_state within
    · intro s records
      exact records.recorded.recorded
    intro s _ _ records steps withinHere
    exact records.step steps withinHere
  intro oldest
  apply allHold_of_allMeet (fun s => s.RecordsLast startUp.seq ∧ s.Cleaning startUp ∧
      s.workerCount = startUp.workerCount) _ _ _ (within.and oldest)
  · rintro _ ⟨records, cleaning, count⟩ workerIdx key below isRecorded
    have below' := count ▸ below
    rw [records.recorded.recorded workerIdx key isRecorded]
    have order := (cleaning.inOrder workerIdx).ordered.order
    exact (cleaning.issued.chained workerIdx below').lastTakenNext_fresh
      (cleaning.issued.nodup workerIdx below') ⟨_, order.symm⟩
  · rintro _ _ _ ⟨records, cleaning, count⟩ steps ⟨withinHere, oldestHere⟩
    exact ⟨records.step steps withinHere, cleaning.step steps oldestHere,
      (LogState.issues_step startUp.seq steps).1.trans count⟩
  · exact ⟨startUp.recordsLast_state, startUp.cleaning_state, rfl⟩

/-- A block is submitted and recorded in its table; the first round switches the queues and the
second takes the log of the block and records the key after it. -/
def oneBlockCleaned : List LogAction :=
  submitAndRecord 1088 ++ .beginRound :: List.replicate 12 .log ++
    .beginRound :: List.replicate 13 .log

theorem cleanup_records_last_taken_of_one_block :
    (exec LogState.step oneBlockCleaned (StartUp.createNewInSDB 1).state).map
        (fun s => ((s.workers 0).taken, s.workerNextIKeySeq)) =
      some ([⟨1088, 1089, 1⟩], [1089]) ∧
    AllMeet LogState.step LogState.PopsOldest oneBlockCleaned (StartUp.createNewInSDB 1).state ∧
    AllHold LogState.step (LogState.RecordsLastTaken (StartUp.createNewInSDB 1))
      oneBlockCleaned (StartUp.createNewInSDB 1).state ∧
    AllHold LogState.step (LogState.StartsAfterTaken (StartUp.createNewInSDB 1))
      oneBlockCleaned (StartUp.createNewInSDB 1).state := by
  have oldest : AllMeet LogState.step LogState.PopsOldest oneBlockCleaned
      (StartUp.createNewInSDB 1).state := by
    decide +kernel
  have records := cleanup_records_last_taken (StartUp.createNewInSDB 1) oneBlockCleaned
    (LogState.withinLimit_of_short (by decide))
  exact ⟨by decide +kernel, oldest, records.1, records.2 oldest⟩

/-- The worker after an undisturbed submission that reserved the key `next`. -/
def Worker.submit (worker : Worker) (next keys : Nat) : Worker :=
  let entry : KeyBlockMetaLog := ⟨worker.data.nextWorkerIKey, next, keys⟩
  let idx := worker.data.idx
  { worker with
    data :=
      { (worker.data.setQueue idx (worker.data.queue idx ++ [entry])).setLock idx none with
        nextWorkerIKey := next }
    pc := .idle
    pushed := worker.pushed ++ [entry]
    written := worker.written ++ [entry] }

theorem LogState.exec_submit (s : LogState) {w keys : Nat}
    (below : w < s.workerCount) (idle : (s.workers w).pc = .idle)
    (free : (s.workers w).data.lock (s.workers w).data.idx = none)
    (nonempty : 0 < keys) :
    exec LogState.step (.generate w keys :: List.replicate 6 (.worker w)) s =
      some { s.setWorker w ((s.workers w).submit s.nextInSDBKeySeqNum keys) with
          nextInSDBKeySeqNum := s.nextInSDBKeySeqNum + 1 } := by
  simp [exec, step, setWorker, below, idle, nonempty, free, replicate, Worker.next,
    Worker.pushKBML, Worker.submit, WorkerData.setLock, WorkerData.setQueue]

/-- The log of the block that the only worker of a new database submits as number `n`. -/
def blockLog (n : Nat) : KeyBlockMetaLog := ⟨1088 + n, 1089 + n, 1⟩

/-- `n` submissions of that worker. -/
def submitBlocks : Nat → List LogAction
  | 0 => []
  | n + 1 => submitBlocks n ++ submitAndRecord (1088 + n)

/-- `n` blocks are queued and recorded, and no round has begun. -/
structure BlocksQueued (n : Nat) (s : LogState) : Prop where
  count : s.workerCount = 1
  counter : s.nextInSDBKeySeqNum = 1089 + n
  log : s.log = .idle
  pc : (s.workers 0).pc = .idle
  taken : (s.workers 0).taken = []
  idx : (s.workers 0).data.idx = false
  lock : (s.workers 0).data.lock = fun _ => none
  active : (s.workers 0).data.queue false = (List.range n).map blockLog
  inactive : (s.workers 0).data.queue true = []
  next : (s.workers 0).data.nextWorkerIKey = 1088 + n
  recorded : ∀ i < n, s.recordedKeys (1088 + i) ≠ 0

variable {n : Nat}

theorem BlocksQueued.submit (queued : BlocksQueued n s) :
    ∃ next, exec LogState.step (submitAndRecord (1088 + n)) s = some next ∧
      BlocksQueued (n + 1) next := by
  obtain ⟨count, ctr, log, pc, taken, idx, lock, active, inactive, next, recorded⟩ := queued
  have sent := s.exec_submit (by omega) pc (by rw [lock]) Nat.one_pos
  rw [submitAndRecord, exec_append, sent]
  refine ⟨_, rfl, ?_⟩
  constructor
  case recorded =>
    intro i _
    by_cases last : i = n
    · subst last
      simp [LogState.setWorker]
    have earlier := recorded i (by omega)
    simpa [LogState.setWorker, last] using earlier
  all_goals simp [LogState.setWorker, Worker.submit, idx, count, ctr, log, taken, lock, active,
      inactive, next, range_succ, blockLog]
  all_goals omega

theorem blocksQueued_submitBlocks (n : Nat) :
    ∃ s, exec LogState.step (submitBlocks n) (StartUp.createNewInSDB 1).state = some s ∧
      BlocksQueued n s := by
  induction n with
  | zero =>
    refine ⟨_, rfl, ?_⟩
    constructor <;> first | rfl | (intro i below; omega)
  | succ n ih =>
    obtain ⟨_, runs, queued⟩ := ih
    obtain ⟨next, submits, queuedNext⟩ := queued.submit
    refine ⟨next, ?_, queuedNext⟩
    rw [submitBlocks, exec_append, runs]
    exact submits

/-- The round holds the lock of the queue with the blocks and has popped `n` of `total`. -/
structure BlocksPopped (total n : Nat) (s : LogState) : Prop where
  log : ∃ last, s.log = .scanning 0 ⟨false, last, .holding false true⟩ ∧
    (0 < n → last = some (blockLog (n - 1)))
  queue : (s.workers 0).data.queue false = (List.range' n (total - n)).map blockLog
  taken : (s.workers 0).taken = (List.range n).map blockLog
  size : s.kbmlCleanup.length = n
  seq : s.workerNextIKeySeq = []
  recorded : ∀ i < total, s.recordedKeys (1088 + i) ≠ 0

/-- The first round has found the other queue empty and has switched the queues. -/
structure QueuesSwitched (n : Nat) (s : LogState) : Prop where
  count : s.workerCount = 1
  log : s.log = .idle
  taken : (s.workers 0).taken = []
  idx : (s.workers 0).data.idx = true
  lock : (s.workers 0).data.lock = fun _ => none
  waiting : (s.workers 0).data.queue false = (List.range n).map blockLog
  recorded : ∀ i < n, s.recordedKeys (1088 + i) ≠ 0

theorem BlocksQueued.switches (queued : BlocksQueued n s) :
    ∃ next, exec LogState.step (.beginRound :: List.replicate 12 .log) s = some next ∧
      QueuesSwitched n next := by
  obtain ⟨count, _, log, _, taken, idx, lock, active, inactive, _, recorded⟩ := queued
  simp [exec, LogState.step, LogState.setWorker, LogState.logStep, count, log, idx, lock,
    inactive, Scan.next, Scan.init, Scan.loop, Scan.record, WorkerData.setLock, replicate]
  constructor
  · rfl
  · rfl
  · simp [taken]
  · simp
  · simp
  · simp [active]
  · exact recorded

theorem QueuesSwitched.scans (switched : QueuesSwitched n s) :
    ∃ next, exec LogState.step (.beginRound :: List.replicate 3 .log) s = some next ∧
      BlocksPopped n 0 next := by
  obtain ⟨count, log, taken, idx, lock, waiting, recorded⟩ := switched
  simp [exec, LogState.step, LogState.setWorker, LogState.logStep, count, log, idx, lock,
    Scan.next, Scan.init, WorkerData.setLock, replicate]
  constructor
  · simp
  · simp [waiting, range_eq_range']
  · simp [taken]
  · simp
  · rfl
  · exact recorded

variable {total : Nat}

theorem BlocksPopped.waiting (popped : BlocksPopped total n s) (more : n < total) :
    (s.workers 0).data.queue false =
        blockLog n :: (List.range' (n + 1) (total - (n + 1))).map blockLog ∧
      s.nrsCount (blockLog n) = 0 := by
  constructor
  · rw [popped.queue, show total - n = (total - (n + 1)) + 1 by omega, range'_succ, map_cons]
  have := popped.recorded n more
  simp only [LogState.nrsCount, blockLog]
  omega

theorem BlocksPopped.pop (popped : BlocksPopped total n s) (more : n < total)
    (within : n < kMaxKbmlCleanup) :
    ∃ next, s.logStep = some next ∧ BlocksPopped total (n + 1) next := by
  obtain ⟨queue, nrs⟩ := popped.waiting more
  obtain ⟨⟨_, log, -⟩, -, taken, size, seq, recorded⟩ := popped
  have fits : ¬ kMaxKbmlCleanup < n + 1 := by omega
  simp only [LogState.logStep, log, Scan.next, Scan.loop, queue, nrs, size, reduceCtorEq, ne_eq,
    not_true_eq_false, if_false, if_neg fits, map_some, some.injEq,
    exists_eq_left']
  constructor
  · exact ⟨some (blockLog n), rfl, fun _ => rfl⟩
  · simp [LogState.setWorker]
  · simp [LogState.setWorker, taken, range_succ]
  · simp [size]
  · exact seq
  · exact recorded

theorem BlocksPopped.pops (popped : BlocksPopped total n s) (count : Nat)
    (more : n + count ≤ total) (within : n + count ≤ kMaxKbmlCleanup) :
    ∃ next, exec LogState.step (List.replicate count .log) s = some next ∧
      BlocksPopped total (n + count) next := by
  induction count generalizing n s with
  | zero => exact ⟨s, rfl, popped⟩
  | succ count ih =>
    obtain ⟨_, steps, poppedNext⟩ := popped.pop (by omega) (by omega)
    obtain ⟨final, runs, poppedFinal⟩ := ih poppedNext (by omega) (by omega)
    refine ⟨final, ?_, ?_⟩
    · simp only [replicate_succ, exec, LogState.step, steps]
      exact runs
    rw [show n + (count + 1) = n + 1 + count by omega]
    exact poppedFinal

theorem BlocksPopped.records_stale {limit : Nat} (isLimit : kMaxKbmlCleanup = limit)
    (positive : 0 < limit) (popped : BlocksPopped total limit s) (more : limit < total) :
    ∃ next, exec LogState.step [.log, .log] s = some next ∧
      next.workerNextIKeySeq = [1088 + limit] ∧
      (next.workers 0).taken = (List.range (limit + 1)).map blockLog := by
  obtain ⟨queue, nrs⟩ := popped.waiting more
  obtain ⟨⟨_, log, isLast⟩, -, taken, size, seq, _⟩ := popped
  have isLast := isLast positive
  subst isLast
  simp only [exec, LogState.step, LogState.logStep, log, Scan.next, Scan.loop, queue, nrs, size,
    isLimit, reduceCtorEq, ne_eq, not_true_eq_false, if_false, if_true, Nat.lt_succ_self,
    map_some, bind_some, some.injEq, exists_eq_left']
  constructor
  · simp only [LogState.setWorker, Scan.nextIKey, seq, nil_append, blockLog, cons.injEq, and_true]
    omega
  · simp [LogState.setWorker, Scan.record, taken, range_succ]

/-- One block more than the limit is submitted and recorded; the first round switches the
queues and the second pops all of the blocks. -/
def roundPastLimit : List LogAction :=
  submitBlocks (kMaxKbmlCleanup + 1) ++
    ((.beginRound :: List.replicate 12 .log ++ .beginRound :: List.replicate 3 .log) ++
      (List.replicate kMaxKbmlCleanup .log ++ [.log, .log]))

-- The limit is a variable here: checking the run must not count up to it.
theorem exec_roundPastLimit {limit : Nat} (isLimit : kMaxKbmlCleanup = limit) :
    ∃ final, exec LogState.step roundPastLimit (StartUp.createNewInSDB 1).state = some final ∧
      final.workerNextIKeySeq = [1088 + limit] ∧
      (final.workers 0).taken = (List.range (limit + 1)).map blockLog := by
  have positive : 0 < kMaxKbmlCleanup := by decide
  rw [roundPastLimit, isLimit]
  rw [isLimit] at positive
  obtain ⟨queued, submits, isQueued⟩ := blocksQueued_submitBlocks (limit + 1)
  obtain ⟨_, switches, isSwitched⟩ := isQueued.switches
  obtain ⟨scanning, scans, isScanning⟩ := isSwitched.scans
  have rounds : exec LogState.step
      (.beginRound :: replicate 12 .log ++ .beginRound :: replicate 3 .log) queued =
        some scanning := by
    rw [exec_append, switches, bind_some, scans]
  obtain ⟨_, pops, isPopped⟩ := isScanning.pops limit (by omega) (by omega)
  rw [Nat.zero_add] at isPopped
  obtain ⟨final, ends, recorded⟩ := isPopped.records_stale isLimit positive (Nat.lt_succ_self _)
  refine ⟨final, ?_, recorded⟩
  rw [exec_append, submits, bind_some, exec_append, rounds, bind_some, exec_append,
    pops, bind_some, ends]

theorem round_past_limit_records_taken_block :
    ¬ AllHold LogState.step (LogState.RecordsLastTaken (StartUp.createNewInSDB 1))
      roundPastLimit (StartUp.createNewInSDB 1).state := by
  obtain ⟨limit, isLimit⟩ : ∃ limit, kMaxKbmlCleanup = limit := ⟨_, rfl⟩
  obtain ⟨final, runs, seq, taken⟩ := exec_roundPastLimit isLimit
  -- only the end of the run matters from here
  generalize roundPastLimit = actions at runs ⊢
  intro all
  have holds := AllHold.final all runs
  have records := holds 0 (1088 + limit) (by rw [seq]; rfl)
  rw [Worker.lastTakenNext, taken, range_succ] at records
  simp [blockLog] at records

end InsDb
