import InsDb.WorkerChain

/-!
# The order in which logs are taken for clean-up

The inactive queue of a worker holds older logs than the active one, and the log thread
drains it before it switches the two.  The scan after the switch still reads the queue it
chose at the start, which is now the active one, under the lock of the other.
-/

namespace InsDb

open Library.Run List Function

def PushPc.held : PushPc → Option Bool
  | .locked _ idx | .checked _ idx | .pushed _ idx => some idx
  | _ => none

def ScanPc.held : ScanPc → Option Bool
  | .holding lock _ => some lock
  | .storing active => some active
  | _ => none

structure HeldBy (lock : Bool → Option Holder) (w logThread : Option Bool) : Prop where
  worker : ∀ idx, w = some idx → lock idx = some .worker
  logThread : ∀ idx, logThread = some idx → lock idx = some .logThread

namespace HeldBy

variable {lock : Bool → Option Holder} {w logThread : Option Bool} {idx : Bool}

section

variable (held : HeldBy lock w logThread)

include held

theorem noWorker : HeldBy lock none logThread := ⟨by simp, held.logThread⟩

theorem noLogThread : HeldBy lock w none := ⟨held.worker, by simp⟩

theorem workerAcquires (free : lock idx = none) :
    HeldBy (Function.update lock idx (some .worker)) (some idx) logThread where
  worker := by simp
  logThread := by
    intro other isHeld
    have pre := held.logThread other isHeld
    have different : other ≠ idx := by
      intro same
      rw [same, free] at pre
      cases pre
    rw [update_of_ne different]
    exact pre

theorem logThreadAcquires (free : lock idx = none) :
    HeldBy (Function.update lock idx (some .logThread)) w (some idx) where
  worker := by
    intro other isHeld
    have pre := held.worker other isHeld
    have different : other ≠ idx := by
      intro same
      rw [same, free] at pre
      cases pre
    rw [update_of_ne different]
    exact pre
  logThread := by simp

end

theorem apart (held : HeldBy lock (some idx) (some idx)) : False := by
  have byWorker := held.worker idx rfl
  rw [held.logThread idx rfl] at byWorker
  cases byWorker

theorem workerReleases (held : HeldBy lock (some idx) logThread) :
    HeldBy (Function.update lock idx none) none logThread where
  worker := by simp
  logThread := by
    intro other isHeld
    subst isHeld
    have different : other ≠ idx := by
      intro same
      subst same
      exact held.apart
    rw [update_of_ne different]
    exact held.logThread other rfl

theorem logThreadReleases (held : HeldBy lock w (some idx)) :
    HeldBy (Function.update lock idx none) w none where
  worker := by
    intro other isHeld
    subst isHeld
    have different : other ≠ idx := by
      intro same
      subst same
      exact held.apart
    rw [update_of_ne different]
    exact held.worker other rfl
  logThread := by simp

end HeldBy

def WorkerView.Locked (view : WorkerView) : Prop :=
  HeldBy view.worker.data.lock view.worker.pc.held (view.scan.bind (·.pc.held))

theorem Worker.Move.heldBy {w moved : Worker} {logThread : Option Bool}
    (move : w.Move moved) (held : HeldBy w.data.lock w.pc.held logThread) :
    HeldBy moved.data.lock moved.pc.held logThread := by
  cases move with
  | load => exact held.noWorker
  | busy => exact held.noWorker
  | lock kbml idx here free => exact held.workerAcquires free
  | check kbml idx here =>
    rw [here] at held
    exact held
  | giveUp kbml idx here =>
    rw [here] at held
    exact held.workerReleases
  | push kbml idx here =>
    rw [here] at held
    exact held
  | unlock kbml idx here =>
    rw [here] at held
    exact held.workerReleases
  | write => exact held.noWorker

variable {scan : Scan}

theorem Scan.Move.heldBy {nrs : KeyBlockMetaLog → Nat} {cleanupSize : Nat} {w : Worker}
    {scanned : Scanned} {holding : Option Bool} (move : scan.Move nrs cleanupSize w scanned)
    (held : HeldBy w.data.lock holding scan.pc.held) :
    HeldBy scanned.worker.data.lock holding scanned.scan.pc.held := by
  cases move with
  | derive => exact held.noLogThread
  | acquire lock first here free => exact held.logThreadAcquires free
  | drained lock first here =>
    rw [here] at held
    cases first <;> exact held.logThreadReleases
  | unrecorded lock first here =>
    rw [here] at held
    exact held.logThreadReleases
  | full lock first here =>
    rw [here] at held
    exact held.logThreadReleases
  | pop => exact held
  | load => exact held.noLogThread
  | lockActive active here free => exact held.logThreadAcquires free
  | store active here =>
    rw [here] at held
    exact held.logThreadReleases

variable {s : LogState} {action : LogAction}

theorem LogState.ViewStep.locked {view next : WorkerView} (step : s.ViewStep action view next)
    (locked : view.Locked) :
    next.Locked := by
  cases step with
  | same => exact locked
  | generate => exact HeldBy.noWorker locked
  | next w moved scan moves => exact moves.heldBy locked
  | log view next isLog steps =>
    cases steps with
    | same => exact locked
    | start => exact HeldBy.noLogThread locked
    | scanned w scan scanned scans =>
      have same := scans.sameSubmissions.pc
      unfold WorkerView.Locked
      rw [same]
      exact scans.heldBy locked
    | record => exact HeldBy.noLogThread locked

/-- What a scan knows about the worker it is at: before the switch `logQ` is the inactive
queue, and empty once the scan has drained it; after the switch it is the active one. -/
def Scan.Follows (scan : Scan) (data : WorkerData) : Prop :=
  match scan.pc with
  | .scan first | .waiting _ first | .holding _ first =>
    scan.logQ = if first then !data.idx else data.idx
  | .change => scan.logQ = !data.idx ∧ data.queue scan.logQ = []
  | .changing active | .storing active =>
    active = data.idx ∧ scan.logQ = !data.idx ∧ data.queue scan.logQ = []
  | .finish => True

/-- The pushed logs are the taken ones, then the inactive queue, then the active one. -/
structure Worker.Ordered (w : Worker) (scan : Option Scan) : Prop where
  order : w.pushed = w.taken ++
    (w.data.queue (!w.data.idx) ++ w.data.queue w.data.idx)
  checked : ∀ kbml idx, w.pc = .checked kbml idx → w.data.idx = idx
  follows : ∀ current, scan = some current → current.Follows w.data

theorem Scan.Follows.congr {pre post : WorkerData} (follows : scan.Follows pre)
    (idx : post.idx = pre.idx)
    (inactive : post.queue (!pre.idx) = pre.queue (!pre.idx)) :
    scan.Follows post := by
  have drained : scan.logQ = (!pre.idx) ∧ pre.queue scan.logQ = [] →
      scan.logQ = (!post.idx) ∧ post.queue scan.logQ = [] := by
    rintro ⟨isInactive, empty⟩
    rw [isInactive] at empty ⊢
    exact ⟨by rw [idx], inactive.trans empty⟩
  cases pc : scan.pc <;> simp only [Follows, pc] at follows ⊢
  case change => exact drained follows
  case changing => exact ⟨follows.1.trans idx.symm, drained follows.2⟩
  case storing => exact ⟨follows.1.trans idx.symm, drained follows.2⟩
  all_goals
    rw [idx]
    exact follows

theorem Worker.Ordered.move {w moved : Worker} {scan : Option Scan}
    (ordered : w.Ordered scan) (move : w.Move moved) : moved.Ordered scan := by
  obtain ⟨order, checked, follows⟩ := ordered
  cases move
  case check kbml idx here active =>
    refine ⟨order, ?_, follows⟩
    intro _ _ isChecked
    obtain ⟨-, rfl⟩ := PushPc.checked.inj isChecked
    exact active
  case push kbml idx here =>
    -- the lock keeps the queue active between the check and the push
    have active : w.data.idx = idx := checked kbml idx here
    subst active
    have inactive : (w.pushKBML kbml w.data.idx).data.queue (!w.data.idx) =
        w.data.queue (!w.data.idx) := update_of_ne (by simp) _ _
    have pushed : (w.pushKBML kbml w.data.idx).data.queue w.data.idx =
        w.data.queue w.data.idx ++
          [{ kbml with ikeySeq := w.data.nextWorkerIKey }] := update_self ..
    refine ⟨?_, by simp [Worker.pushKBML], ?_⟩
    · change w.pushed ++ _ = w.taken ++ (_ ++ _)
      rw [order]
      change _ = w.taken ++
        ((w.pushKBML kbml w.data.idx).data.queue (!w.data.idx) ++
          (w.pushKBML kbml w.data.idx).data.queue w.data.idx)
      rw [inactive, pushed]
      simp
    · intro current isScan
      exact (follows current isScan).congr rfl inactive
  all_goals
    refine ⟨order, by simp, ?_⟩
    intro current isScan
    exact (follows current isScan).congr rfl rfl

def Scan.PopsOldest (nrs : KeyBlockMetaLog → Nat) (scan : Scan) (data : WorkerData) : Prop :=
  ∀ lock, scan.pc = .holding lock false →
    ∀ kbml, (data.queue scan.logQ).head? = some kbml → nrs kbml = 0 →
      data.queue (!scan.logQ) = []

instance (nrs : KeyBlockMetaLog → Nat) (scan : Scan) (data : WorkerData) :
    Decidable (scan.PopsOldest nrs data) :=
  inferInstanceAs (Decidable (∀ lock, scan.pc = .holding lock false →
    ∀ kbml ∈ (data.queue scan.logQ).head?, nrs kbml = 0 → data.queue (!scan.logQ) = []))

variable {kbml : KeyBlockMetaLog}

theorem Worker.Ordered.order_pop {w : Worker} {lock first : Bool} {rest : List KeyBlockMetaLog}
    (ordered : w.Ordered (some scan)) (here : scan.pc = .holding lock first)
    (waiting : w.data.queue scan.logQ = kbml :: rest)
    (oldest : first = false → w.data.queue (!scan.logQ) = []) :
    w.pushed = w.taken ++ [kbml] ++
      (Function.update w.data.queue scan.logQ rest (!w.data.idx) ++
        Function.update w.data.queue scan.logQ rest w.data.idx) := by
  have order := ordered.order
  have follows := ordered.follows scan rfl
  simp only [Scan.Follows, here] at follows
  cases first with
  | true =>
    simp only [if_true] at follows
    rw [← follows, update_self, update_of_ne (by simp [follows])]
    rw [← follows, waiting] at order
    simp [order]
  | false =>
    simp only [Bool.false_eq_true, if_false] at follows
    have empty := oldest rfl
    rw [← follows, update_self, update_of_ne (by simp), empty]
    rw [← follows, waiting, empty] at order
    simp [order]

theorem Worker.Ordered.scanned {nrs : KeyBlockMetaLog → Nat} {cleanupSize : Nat} {w : Worker}
    {scanned : Scanned} (ordered : w.Ordered (some scan))
    (locked : HeldBy w.data.lock w.pc.held scan.pc.held)
    (oldest : scan.PopsOldest nrs w.data) (move : scan.Move nrs cleanupSize w scanned) :
    scanned.worker.Ordered (some scanned.scan) := by
  have follows := ordered.follows scan rfl
  cases move with
  | derive first here =>
    refine ⟨ordered.order, ordered.checked, ?_⟩
    rintro _ ⟨rfl⟩
    simpa [Scan.Follows, here] using follows
  | acquire lock first here =>
    refine ⟨ordered.order, ordered.checked, ?_⟩
    rintro _ ⟨rfl⟩
    simpa [Scan.Follows, here] using follows
  | drained lock first here empty =>
    refine ⟨ordered.order, ordered.checked, ?_⟩
    rintro _ ⟨rfl⟩
    cases first with
    | true => simpa [Scan.Follows, here, empty] using follows
    | false => simp [Scan.Follows]
  | unrecorded =>
    refine ⟨ordered.order, ordered.checked, ?_⟩
    rintro _ ⟨rfl⟩
    simp [Scan.Follows]
  | full lock first here kbml rest waiting recorded =>
    refine ⟨?_, ordered.checked, ?_⟩
    · apply ordered.order_pop here waiting
      rintro rfl
      exact oldest lock here kbml (by rw [waiting]; rfl) recorded
    rintro _ ⟨rfl⟩
    simp [Scan.Follows]
  | pop lock first here kbml rest waiting recorded =>
    refine ⟨?_, ordered.checked, ?_⟩
    · apply ordered.order_pop here waiting
      rintro rfl
      exact oldest lock here kbml (by rw [waiting]; rfl) recorded
    rintro _ ⟨rfl⟩
    simpa [Scan.Follows, here] using follows
  | load here =>
    refine ⟨ordered.order, ordered.checked, ?_⟩
    rintro _ ⟨rfl⟩
    simpa [Scan.Follows, here] using follows
  | lockActive active here =>
    refine ⟨ordered.order, ordered.checked, ?_⟩
    rintro _ ⟨rfl⟩
    simpa [Scan.Follows, here] using follows
  | store active here =>
    simp only [Scan.Follows, here] at follows
    obtain ⟨rfl, isInactive, empty⟩ := follows
    refine ⟨?_, ?_, ?_⟩
    · -- the drained queue becomes the active one
      have order := ordered.order
      rw [← isInactive, empty, nil_append] at order
      change w.pushed = w.taken ++ (w.data.queue (!!w.data.idx) ++
        w.data.queue (!w.data.idx))
      rw [Bool.not_not, ← isInactive, empty, append_nil]
      exact order
    · intro kbml idx isChecked
      -- a worker past its check holds the lock that the store needs
      have active := ordered.checked kbml idx isChecked
      subst active
      rw [show w.pc = _ from isChecked, here] at locked
      exact locked.apart.elim
    · rintro _ ⟨rfl⟩
      simpa [Scan.Follows] using isInactive

def LogState.PopsOldest (s : LogState) (action : LogAction) : Prop :=
  action = .log → ∀ workerIdx scan, s.log = .scanning workerIdx scan →
    scan.PopsOldest s.nrsCount (s.workers workerIdx).data

instance (s : LogState) (action : LogAction) : Decidable (s.PopsOldest action) :=
  match log : s.log with
  | .idle => isTrue fun _ _ _ scans => absurd (log.symm.trans scans) LogPc.noConfusion
  | .turn _ => isTrue fun _ _ _ scans => absurd (log.symm.trans scans) LogPc.noConfusion
  | .scanning workerIdx scan =>
    decidable_of_iff
      (action = .log → scan.PopsOldest s.nrsCount (s.workers workerIdx).data) <| by
        constructor
        · intro pops isLog w other scans
          obtain ⟨rfl, rfl⟩ := LogPc.scanning.inj (log.symm.trans scans)
          exact pops isLog
        · intro pops isLog
          exact pops isLog workerIdx scan log

structure WorkerView.InOrder (view : WorkerView) : Prop where
  locked : view.Locked
  ordered : view.worker.Ordered view.scan

theorem LogState.ViewStep.inOrder {view next : WorkerView} (step : s.ViewStep action view next)
    (inOrder : view.InOrder) (oldest : action = .log → ∀ scan, view.scan = some scan →
      scan.PopsOldest s.nrsCount view.worker.data) :
    next.InOrder := by
  refine ⟨step.locked inOrder.locked, ?_⟩
  have ordered := inOrder.ordered
  cases step with
  | same => exact ordered
  | generate => exact ⟨ordered.order, by simp, ordered.follows⟩
  | next w moved scan moves => exact ordered.move moves
  | log view next isLog steps =>
    cases steps with
    | same => exact ordered
    | start =>
      refine ⟨ordered.order, ordered.checked, ?_⟩
      rintro _ ⟨rfl⟩
      simp [Scan.Follows, Scan.init]
    | scanned w scan scanned scans =>
      exact ordered.scanned inOrder.locked (oldest isLog scan rfl) scans
    | record => exact ⟨ordered.order, ordered.checked, by simp⟩

theorem Scan.taken_loop (nrs : KeyBlockMetaLog → Nat) (cleanupSize : Nat) (scan : Scan)
    (w : Worker) (lock first : Bool) (head : (w.data.queue scan.logQ).head? = some kbml)
    (recorded : nrs kbml = 0) :
    (scan.loop nrs cleanupSize w lock first).worker.taken = w.taken ++ [kbml] ∧
      (scan.loop nrs cleanupSize w lock first).worker.pushed = w.pushed := by
  cases waiting : w.data.queue scan.logQ with
  | nil => simp [waiting] at head
  | cons first =>
    obtain rfl : first = kbml := by simpa [waiting] using head
    unfold loop
    simp only [waiting, recorded, ne_eq, not_true_eq_false, if_false]
    split_ifs <;> exact ⟨rfl, rfl⟩

theorem Worker.Ordered.oldest_of_takenFirst {w : Worker} {lock : Bool}
    (ordered : w.Ordered (some scan)) (nodup : w.pushed.Nodup)
    (here : scan.pc = .holding lock false) (head : (w.data.queue scan.logQ).head? = some kbml)
    (isPrefix : w.taken ++ [kbml] <+: w.pushed) :
    w.data.queue (!scan.logQ) = [] := by
  have active := ordered.follows scan rfl
  simp only [Scan.Follows, here, Bool.false_eq_true, if_false] at active
  rw [ordered.order, ← active] at isPrefix nodup
  have starts := (prefix_append_right_inj w.taken).mp isPrefix
  cases older : w.data.queue (!scan.logQ) with
  | nil => rfl
  | cons oldest =>
    rw [older] at starts nodup
    obtain rfl : kbml = oldest := (cons_prefix_cons.mp starts).1
    -- the log would stand in both queues
    have queued := mem_of_mem_head? head
    have apart := (nodup_append.mp nodup).2.1
    exact absurd rfl ((nodup_append.mp apart).2.2 kbml mem_cons_self kbml queued)

def LogState.ScansWorker (s : LogState) : Prop :=
  ∀ workerIdx scan, s.log = .scanning workerIdx scan → workerIdx < s.workerCount

variable {next : LogState}

theorem LogState.ScansWorker.logStep (scans : s.ScansWorker) (steps : s.logStep = some next)
    : next.ScansWorker := by
  unfold LogState.logStep at steps
  split at steps
  · cases steps
  · split_ifs at steps with more <;> cases steps
    · rintro w scan ⟨rfl⟩
      exact more
    · rintro _ scan ⟨⟩
  rename_i scanIdx scan log
  split_ifs at steps
  · cases steps
    rintro _ _ ⟨⟩
  obtain ⟨_, -, rfl⟩ := Option.map_eq_some_iff.mp steps
  rintro _ _ ⟨rfl⟩
  exact scans _ _ log

theorem LogState.ScansWorker.step (scans : s.ScansWorker)
    (steps : s.step action = some next) :
    next.ScansWorker := by
  cases action with
  | generate =>
    simp only [LogState.step] at steps
    split_ifs at steps
    cases steps
    exact scans
  | worker =>
    obtain ⟨_, -, rfl⟩ := Option.map_eq_some_iff.mp steps
    exact scans
  | decNRSCount =>
    cases steps
    exact scans
  | beginRound =>
    simp only [LogState.step] at steps
    split_ifs at steps
    cases steps
    rintro _ _ ⟨⟩
  | log => exact scans.logStep steps

structure LogState.Cleaning (startUp : StartUp) (s : LogState) : Prop where
  issued : s.Issued startUp.seq
  scans : s.ScansWorker
  inOrder : ∀ workerIdx, (s.view workerIdx).InOrder

theorem StartUp.cleaning_state (startUp : StartUp) : startUp.state.Cleaning startUp where
  issued := startUp.issued_state
  scans := by rintro _ _ ⟨⟩
  inOrder := by
    intro _
    refine ⟨⟨by simp [state, LogState.view, Worker.init, PushPc.held], ?_⟩, ?_⟩
    · simp [state, LogState.view, LogPc.scanOf]
    refine ⟨rfl, by simp [state, LogState.view, Worker.init], ?_⟩
    simp [state, LogState.view, LogPc.scanOf]

theorem LogState.Cleaning.step {startUp : StartUp} (cleaning : s.Cleaning startUp)
    (steps : s.step action = some next) (oldest : s.PopsOldest action) :
    next.Cleaning startUp where
  issued := cleaning.issued.step steps
  scans := cleaning.scans.step steps
  inOrder := by
    intro w
    apply (viewStep_step steps w).inOrder (cleaning.inOrder w)
    intro isLog scan isScan
    exact oldest isLog w scan (log_of_view_scan isScan)

theorem LogState.Cleaning.popsOldest {startUp : StartUp} (cleaning : s.Cleaning startUp)
    (steps : s.step action = some next)
    (isPrefix : ∀ w, (next.workers w).taken <+: (next.workers w).pushed) :
    s.PopsOldest action := by
  rintro rfl w scan log lock here kbml head recorded
  have below := cleaning.scans w scan log
  have nodup : (s.workers w).pushed.Nodup := by
    have keys := (cleaning.issued.chained w below).keys_issuedFirst.sublist
    exact List.Nodup.of_map _ ((cleaning.issued.nodup w below).sublist keys)
  have ordered : (s.workers w).Ordered (some scan) := by
    have inOrder := (cleaning.inOrder w).ordered
    simpa [LogState.view, LogPc.scanOf, log] using inOrder
  apply ordered.oldest_of_takenFirst nodup here head
  have popped := scan.taken_loop s.nrsCount s.kbmlCleanup.length
    (s.workers w) lock false head recorded
  have moved : next.workers w =
      (scan.loop s.nrsCount s.kbmlCleanup.length (s.workers w)
        lock false).worker := by
    simp only [LogState.step, logStep, log, here, reduceCtorEq, if_false, Scan.next,
      Option.map_some, Option.some.injEq] at steps
    rw [← steps]
    simp [setWorker]
  have isPrefixHere := isPrefix w
  rw [moved, popped.1, popped.2] at isPrefixHere
  exact isPrefixHere

/-- In a run of any number of workers and the log thread, the logs taken from a worker are
always the first ones it pushed, exactly if no pop after a switch leaves an older log in
the worker's other queue. -/
theorem taken_in_push_order_iff (startUp : StartUp) (actions : List LogAction) :
    AllHold LogState.step
        (fun s => ∀ workerIdx,
          (s.workers workerIdx).taken <+: (s.workers workerIdx).pushed)
        actions startUp.state ↔
      AllMeet LogState.step LogState.PopsOldest actions startUp.state := by
  apply allHold_iff_allMeet (LogState.Cleaning startUp)
  · intro s cleaning workerIdx
    have order := (cleaning.inOrder workerIdx).ordered.order
    exact ⟨_, order.symm⟩
  · intro _ _ _ cleaning steps oldest
    exact cleaning.step steps oldest
  · intro _ _ _ cleaning steps isPrefix
    exact cleaning.popsOldest steps isPrefix
  · exact startUp.cleaning_state

/-- The whole submission of a block of one column by the first worker, recorded at once. -/
def submitAndRecord (ikeySeq : Nat) : List LogAction :=
  .generate 0 1 :: List.replicate 6 (.worker 0) ++ [.decNRSCount ikeySeq]

/-- A log is pushed, the round finds the other queue empty and switches, and a second log is
pushed before the scan goes on. -/
def pushedAfterSwitch : List LogAction :=
  submitAndRecord 1088 ++ .beginRound :: List.replicate 7 .log ++ submitAndRecord 1089 ++
    List.replicate 3 .log

/-- The second log is taken and the first is not. -/
theorem younger_log_is_taken_first : ¬ AllHold LogState.step (fun s => ∀ workerIdx,
        (s.workers workerIdx).taken <+: (s.workers workerIdx).pushed)
      pushedAfterSwitch (StartUp.createNewInSDB 1).state := by
  intro all
  have run : (exec LogState.step pushedAfterSwitch (StartUp.createNewInSDB 1).state).map
      (fun s => ((s.workers 0).taken, (s.workers 0).pushed)) =
        some ([⟨1089, 1090, 1⟩], [⟨1088, 1089, 1⟩, ⟨1089, 1090, 1⟩]) := by
    decide +kernel
  obtain ⟨_, runs, reached⟩ := Option.map_eq_some_iff.mp run
  obtain ⟨taken, pushed⟩ := Prod.mk.inj reached
  have isPrefix := all.final runs 0
  rw [taken, pushed] at isPrefix
  revert isPrefix
  decide

end InsDb
