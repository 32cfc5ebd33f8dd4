import InsDb.WorkerLog
import Mathlib.Data.List.Chain
import Mathlib.Data.List.GetD
import Mathlib.Data.List.Nodup

/-!
# The chain of key-block metas

A key-block meta is written under the internal key that the worker's previous submission
reserved, and carries the key reserved for the next one.  Recovery follows these keys.
-/

namespace InsDb

open Library.Run List

/-- `InitNextInSDBKeySeqNum`: the stored keys go to the first workers, the others get a
new key each.  The result is the workers' keys and the shared counter. -/
def initNextInSDBKeySeqNum (seq : List Nat) (workerCount counter : Nat) :
    (Nat → Nat) × Nat :=
  let nrSeq := min seq.length workerCount
  (fun workerIdx =>
    if workerIdx < nrSeq then seq.getD workerIdx 0 else counter + (workerIdx - nrSeq),
    counter + (workerCount - nrSeq))

/-- The keys and the counter a database starts with.  No key is issued twice. -/
structure StartUp where
  workerCount : Nat
  seq : Nat → Nat
  counter : Nat
  unreserved : ∀ workerIdx < workerCount, kUnusedNextInternalKey ≤ seq workerIdx
  issued : ∀ workerIdx < workerCount, seq workerIdx < counter
  distinct : ∀ left < workerCount, ∀ right < workerCount, left ≠ right → seq left ≠ seq right
  started : kUnusedNextInternalKey ≤ counter

def StartUp.state (startUp : StartUp) : LogState where
  workers := fun workerIdx => Worker.init (startUp.seq workerIdx)
  workerCount := startUp.workerCount
  nextInSDBKeySeqNum := startUp.counter
  recordedKeys := fun _ => 0
  log := .idle
  kbmlCleanup := []
  workerNextIKeySeq := []

/-- Stored keys that are distinct and below the counter make a start-up, for any number of
workers. -/
def StartUp.ofStored (seq : List Nat) (counter workerCount : Nat) (distinct : seq.Nodup)
    (bounds : ∀ key ∈ seq, kUnusedNextInternalKey ≤ key ∧ key < counter)
    (started : kUnusedNextInternalKey ≤ counter) : StartUp where
  workerCount := workerCount
  seq := (initNextInSDBKeySeqNum seq workerCount counter).1
  counter := (initNextInSDBKeySeqNum seq workerCount counter).2
  unreserved := by
    intro workerIdx below
    simp only [initNextInSDBKeySeqNum]
    split_ifs with stored
    · have inSeq : workerIdx < seq.length := by omega
      rw [List.getD_eq_getElem _ _ inSeq]
      exact (bounds _ (List.getElem_mem inSeq)).1
    · omega
  issued := by
    intro workerIdx below
    simp only [initNextInSDBKeySeqNum]
    split_ifs with stored
    · have inSeq : workerIdx < seq.length := by omega
      rw [List.getD_eq_getElem _ _ inSeq]
      have := (bounds _ (List.getElem_mem inSeq)).2
      omega
    · omega
  distinct := by
    have stored_lt : ∀ workerIdx < min seq.length workerCount,
        seq.getD workerIdx 0 < counter := by
      intro workerIdx stored
      have inSeq : workerIdx < seq.length := by omega
      rw [List.getD_eq_getElem _ _ inSeq]
      exact (bounds _ (List.getElem_mem inSeq)).2
    intro left leftBelow right rightBelow different
    simp only [initNextInSDBKeySeqNum]
    split_ifs with leftStored rightStored rightStored
    · have leftIn : left < seq.length := by omega
      have rightIn : right < seq.length := by omega
      rw [List.getD_eq_getElem _ _ leftIn, List.getD_eq_getElem _ _ rightIn]
      intro same
      exact different (distinct.getElem_inj_iff.mp same)
    · have := stored_lt left leftStored
      omega
    · have := stored_lt right rightStored
      omega
    · omega
  started := by
    simp only [initNextInSDBKeySeqNum]
    omega

/-- `CreateNewInSDB` has no stored keys. -/
def StartUp.createNewInSDB (workerCount : Nat) : StartUp :=
  .ofStored [] kUnusedNextInternalKey workerCount List.nodup_nil
    (by intro key inNil; cases inNil) (Nat.le_refl _)

def PushPc.pending : PushPc → List Nat
  | .retry kbml | .loaded kbml _ | .locked kbml _ | .checked kbml _ => [kbml.nextIKeySeq]
  | _ => []

/-- The log of a submission that is queued and not yet on the device. -/
def PushPc.unwritten : PushPc → List KeyBlockMetaLog
  | .pushed kbml _ | .submitted kbml => [kbml]
  | _ => []

def Worker.issued (start : Nat) (worker : Worker) : List Nat :=
  start :: worker.pushed.map (·.nextIKeySeq) ++ worker.pc.pending

/-- The queued logs use the issued keys in order, each one submission late. -/
structure Worker.Chained (start : Nat) (worker : Worker) : Prop where
  chain : start :: worker.pushed.map (·.nextIKeySeq) =
    worker.pushed.map (·.ikeySeq) ++ [worker.data.nextWorkerIKey]
  written : worker.written ++ worker.pc.unwritten = worker.pushed

variable {worker : Worker}

theorem Worker.Move.issued {moved : Worker} (move : worker.Move moved) (start : Nat) :
    moved.issued start = worker.issued start := by
  cases move
  case push kbml idx here =>
    -- the pending key becomes the one that the pushed log carries
    simp [Worker.issued, PushPc.pending, pushKBML, here]
  all_goals simp [Worker.issued, PushPc.pending, *]

variable {start : Nat}

theorem Worker.Chained.move {moved : Worker} (chained : worker.Chained start)
    (move : worker.Move moved) : moved.Chained start := by
  obtain ⟨chain, written⟩ := chained
  cases move
  case push kbml idx here =>
    constructor
    · simp only [pushKBML, map_append, map_cons, map_nil]
      rw [← cons_append, chain]
    simp only [here, PushPc.unwritten, append_nil] at written
    simp [pushKBML, PushPc.unwritten, written]
  all_goals
    refine ⟨by simpa using chain, ?_⟩
    simpa [PushPc.unwritten, *] using written

/-- Two states of a worker that differ in nothing its submissions read or write. -/
structure Worker.SameSubmissions (before after : Worker) : Prop where
  pc : after.pc = before.pc
  pushed : after.pushed = before.pushed
  written : after.written = before.written
  next : after.data.nextWorkerIKey = before.data.nextWorkerIKey

theorem Scan.Move.sameSubmissions {nrs : KeyBlockMetaLog → Nat} {cleanupSize : Nat} {scan : Scan}
    {scanned : Scanned} (move : scan.Move nrs cleanupSize worker scanned) :
    worker.SameSubmissions scanned.worker := by
  cases move <;> constructor <;> simp

theorem Worker.SameSubmissions.issued {pre post : Worker}
    (same : pre.SameSubmissions post) (start : Nat) :
    post.issued start = pre.issued start := by
  simp only [Worker.issued, same.pc, same.pushed]

theorem Worker.SameSubmissions.chained {pre post : Worker} (same : pre.SameSubmissions post)
    (chained : pre.Chained start) :
    post.Chained start := by
  constructor
  · rw [same.pushed, same.next]
    exact chained.chain
  rw [same.pushed, same.pc, same.written]
  exact chained.written

variable {s : LogState}

theorem LogState.LogViewStep.sameSubmissions {view next : WorkerView}
    (step : s.LogViewStep view next) : view.worker.SameSubmissions next.worker := by
  cases step with
  | same => exact ⟨rfl, rfl, rfl, rfl⟩
  | start => exact ⟨rfl, rfl, rfl, rfl⟩
  | scanned worker scan scanned scans => exact scans.sameSubmissions
  | record => exact ⟨rfl, rfl, rfl, rfl⟩

variable {action : LogAction}

theorem LogState.ViewStep.chained {view next : WorkerView} (step : s.ViewStep action view next)
    (chained : view.worker.Chained start) :
    next.worker.Chained start := by
  cases step with
  | same => exact chained
  | generate worker scan keys idle =>
    have written := chained.written
    simp only [idle, PushPc.unwritten, append_nil] at written
    exact ⟨chained.chain, by simpa [PushPc.unwritten] using written⟩
  | next worker moved scan moves => exact chained.move moves
  | log view next isLog steps => exact steps.sameSubmissions.chained chained

inductive LogState.Issues (start : Nat → Nat) (s next : LogState) : Prop
  | none (counter : next.nextInSDBKeySeqNum = s.nextInSDBKeySeqNum)
      (issued : ∀ workerIdx, (next.workers workerIdx).issued (start workerIdx) =
        (s.workers workerIdx).issued (start workerIdx))
  | one (generating : Nat) (counter : next.nextInSDBKeySeqNum = s.nextInSDBKeySeqNum + 1)
      (issued : ∀ workerIdx, (next.workers workerIdx).issued (start workerIdx) =
        (s.workers workerIdx).issued (start workerIdx) ++
          if workerIdx = generating then [s.nextInSDBKeySeqNum] else [])

variable {next : LogState}

theorem LogState.logStep_frame (steps : s.logStep = some next) :
    next.workerCount = s.workerCount ∧ next.nextInSDBKeySeqNum = s.nextInSDBKeySeqNum := by
  unfold logStep at steps
  split at steps
  · cases steps
  · split at steps <;> cases steps <;> exact ⟨rfl, rfl⟩
  split at steps
  · cases steps
    exact ⟨rfl, rfl⟩
  obtain ⟨_, -, rfl⟩ := Option.map_eq_some_iff.mp steps
  exact ⟨rfl, rfl⟩

theorem LogState.issues_step (start : Nat → Nat) (steps : s.step action = some next) :
    next.workerCount = s.workerCount ∧ s.Issues start next := by
  cases action with
  | generate generating =>
    simp only [step] at steps
    split at steps
    · rename_i ready
      obtain rfl := Option.some.inj steps
      refine ⟨rfl, .one generating rfl ?_⟩
      intro w
      by_cases here : w = generating
      · subst here
        simp [setWorker, Worker.issued, PushPc.pending, ready.2.1]
      · simp [setWorker, here]
    · cases steps
  | worker moving =>
    obtain ⟨_, moves, rfl⟩ := Option.map_eq_some_iff.mp steps
    refine ⟨rfl, .none rfl ?_⟩
    intro w
    by_cases here : w = moving
    · subst here
      simpa [setWorker] using (Worker.move_of_next moves).issued (start w)
    · simp [setWorker, here]
  | decNRSCount =>
    obtain rfl := Option.some.inj steps
    exact ⟨rfl, .none rfl fun _ => rfl⟩
  | beginRound =>
    simp only [step] at steps
    split at steps
    · obtain rfl := Option.some.inj steps
      exact ⟨rfl, .none rfl fun _ => rfl⟩
    · cases steps
  | log =>
    have frame := logStep_frame steps
    refine ⟨frame.1, .none frame.2 ?_⟩
    intro w
    exact (logViewStep_logStep steps w).sameSubmissions.issued (start w)

structure LogState.Issued (start : Nat → Nat) (s : LogState) : Prop where
  chained : ∀ workerIdx < s.workerCount,
    (s.workers workerIdx).Chained (start workerIdx)
  bounds : ∀ workerIdx < s.workerCount,
    ∀ key ∈ (s.workers workerIdx).issued (start workerIdx),
      kUnusedNextInternalKey ≤ key ∧ key < s.nextInSDBKeySeqNum
  nodup : ∀ workerIdx < s.workerCount,
    ((s.workers workerIdx).issued (start workerIdx)).Nodup
  disjoint : ∀ left < s.workerCount, ∀ right < s.workerCount, left ≠ right →
    List.Disjoint ((s.workers left).issued (start left))
      ((s.workers right).issued (start right))
  started : kUnusedNextInternalKey ≤ s.nextInSDBKeySeqNum

theorem StartUp.issued_state (startUp : StartUp) : startUp.state.Issued startUp.seq where
  chained := by
    intro w below
    exact ⟨rfl, rfl⟩
  bounds := by
    intro w below key issued
    have same := mem_singleton.mp issued
    rw [same]
    exact ⟨startUp.unreserved w below, startUp.issued w below⟩
  nodup := by
    intro _ _
    exact nodup_singleton _
  disjoint := by
    intro left leftBelow right rightBelow different key inLeft inRight
    have atLeft := mem_singleton.mp inLeft
    have atRight := mem_singleton.mp inRight
    exact startUp.distinct left leftBelow right rightBelow different (atLeft ▸ atRight)
  started := startUp.started

theorem LogState.Issued.step {start : Nat → Nat} (inv : s.Issued start)
    (steps : s.step action = some next) :
    next.Issued start := by
  obtain ⟨count, issues⟩ := issues_step start steps
  have chained : ∀ w < next.workerCount,
      (next.workers w).Chained (start w) := by
    intro w below
    exact (viewStep_step steps w).chained (inv.chained w (count ▸ below))
  cases issues with
  | none ctr issued =>
    refine ⟨chained, ?_, ?_, ?_, ?_⟩
    all_goals simp only [count, ctr, issued]
    · exact inv.bounds
    · exact inv.nodup
    · exact inv.disjoint
    · exact inv.started
  | one generating ctr issued =>
    -- the new key is the counter, which every key issued so far is below
    have fresh : ∀ w < s.workerCount,
        s.nextInSDBKeySeqNum ∉ (s.workers w).issued (start w) := by
      intro w below used
      exact Nat.lt_irrefl _ (inv.bounds w below _ used).2
    refine ⟨chained, ?_, ?_, ?_, ?_⟩
    all_goals simp only [count, ctr, issued]
    · intro w below key used
      rcases mem_append.mp used with old | new
      · have := inv.bounds w below key old
        omega
      split_ifs at new
      · have same := mem_singleton.mp new
        have := inv.started
        omega
      · cases new
    · intro w below
      split_ifs
      · exact List.Nodup.append (inv.nodup w below) (nodup_singleton _)
          (disjoint_singleton.mpr (fresh w below))
      rw [append_nil]
      exact inv.nodup w below
    · intro left leftBelow right rightBelow different
      have apart := inv.disjoint left leftBelow right rightBelow different
      split_ifs with atLeft atRight atRight
      · exact absurd (atLeft.trans atRight.symm) different
      · rw [append_nil]
        exact disjoint_append_left.mpr
          ⟨apart, singleton_disjoint.mpr (fresh right rightBelow)⟩
      · rw [append_nil]
        exact disjoint_append_right.mpr
          ⟨apart, disjoint_singleton.mpr (fresh left leftBelow)⟩
      rw [append_nil, append_nil]
      exact apart
    · have := inv.started
      omega

theorem KeyBlockMetaLog.isChain_of_keys {blocks : List KeyBlockMetaLog} {last : Nat}
    (keys : start :: blocks.map (·.nextIKeySeq) = blocks.map (·.ikeySeq) ++ [last]) :
    blocks.IsChain (fun block following => block.nextIKeySeq = following.ikeySeq) ∧
      ∀ block ∈ blocks.head?, block.ikeySeq = start := by
  induction blocks generalizing start with
  | nil => exact ⟨.nil, by intro block none; cases none⟩
  | cons block rest ih =>
    simp only [map_cons, cons_append, cons.injEq] at keys
    obtain ⟨chain, head⟩ := ih keys.2
    constructor
    · apply isChain_cons.mpr
      refine ⟨?_, chain⟩
      intro following next
      exact (head following next).symm
    intro _ isFirst
    obtain rfl := Option.some.inj isFirst
    exact keys.1.symm

theorem Worker.Chained.written_pushedFirst (chained : worker.Chained start) :
    worker.written <+: worker.pushed :=
  ⟨worker.pc.unwritten, chained.written⟩

theorem Worker.Chained.keys_issuedFirst (chained : worker.Chained start) :
    worker.pushed.map (·.ikeySeq) <+: worker.issued start := by
  refine ⟨worker.data.nextWorkerIKey :: worker.pc.pending, ?_⟩
  rw [Worker.issued, chained.chain, append_assoc]
  rfl

theorem Worker.Chained.written_sublist (chained : worker.Chained start) :
    (worker.written.map (·.ikeySeq)).Sublist (worker.issued start) :=
  (chained.written_pushedFirst.sublist.map _).trans chained.keys_issuedFirst.sublist

theorem Worker.Chained.next_mem (chained : worker.Chained start) :
    worker.data.nextWorkerIKey ∈ worker.issued start := by
  rw [Worker.issued, chained.chain]
  simp

/-- The keys that `BuildManifest` stores for the workers. -/
def LogState.storedKeys (s : LogState) : List Nat :=
  (List.range s.workerCount).map fun workerIdx =>
    (s.workers workerIdx).data.nextWorkerIKey

theorem LogState.Issued.nodup_storedKeys {start : Nat → Nat} (issued : s.Issued start) :
    s.storedKeys.Nodup := by
  apply List.Nodup.map_on _ nodup_range
  intro left leftIn right rightIn same
  by_contra different
  have leftBelow := mem_range.mp leftIn
  have rightBelow := mem_range.mp rightIn
  have inLeft := (issued.chained left leftBelow).next_mem
  rw [same] at inLeft
  exact issued.disjoint left leftBelow right rightBelow different inLeft
    (issued.chained right rightBelow).next_mem

theorem LogState.Issued.storedKeys_bounds {start : Nat → Nat} (issued : s.Issued start) :
    ∀ key ∈ s.storedKeys, kUnusedNextInternalKey ≤ key ∧ key < s.nextInSDBKeySeqNum := by
  intro _ stored
  obtain ⟨w, below, rfl⟩ := mem_map.mp stored
  have inRange := mem_range.mp below
  exact issued.bounds w inRange _ (issued.chained w inRange).next_mem

/-- A database opened with the manifest that an earlier run left, with any number of
workers. -/
def StartUp.reopen (startUp : StartUp) (actions : List LogAction) (final : LogState)
    (runs : exec LogState.step actions startUp.state = some final) (workerCount : Nat) :
    StartUp :=
  have issued : AllHold LogState.step (fun s => s.Issued startUp.seq) actions startUp.state :=
    allHold_of_invariant _ (fun _ now => now) (fun _ _ _ before steps => before.step steps)
      startUp.issued_state
  have reached : final.Issued startUp.seq := issued.final runs
  .ofStored final.storedKeys final.nextInSDBKeySeqNum workerCount reached.nodup_storedKeys
    reached.storedKeys_bounds reached.started

/-- What recovery relies on when it follows the workers' logs: the metas of each worker form
a chain from the key the worker started with, and no key is used twice. -/
structure LogState.Recoverable (startUp : StartUp) (s : LogState) : Prop where
  chain : ∀ workerIdx < startUp.workerCount,
    (s.workers workerIdx).written.IsChain
      (fun block following => block.nextIKeySeq = following.ikeySeq)
  head : ∀ workerIdx < startUp.workerCount,
    ∀ block ∈ (s.workers workerIdx).written.head?,
      block.ikeySeq = startUp.seq workerIdx
  distinct : ((List.range startUp.workerCount).flatMap fun workerIdx =>
    (s.workers workerIdx).written.map (·.ikeySeq)).Nodup
  unreserved : ∀ workerIdx < startUp.workerCount,
    ∀ block ∈ (s.workers workerIdx).written, kUnusedNextInternalKey ≤ block.ikeySeq

theorem LogState.Issued.recoverable {startUp : StartUp} (inv : s.Issued startUp.seq)
    (count : s.workerCount = startUp.workerCount) :
    s.Recoverable startUp where
  chain := by
    intro w below
    have chained := inv.chained w (count ▸ below)
    have all := (KeyBlockMetaLog.isChain_of_keys chained.chain).1
    exact List.IsChain.prefix all chained.written_pushedFirst
  head := by
    intro w below block isHead
    have chained := inv.chained w (count ▸ below)
    have first := (KeyBlockMetaLog.isChain_of_keys chained.chain).2
    apply first block
    obtain ⟨_, append⟩ := chained.written_pushedFirst
    rw [← append]
    exact mem_head?_append_of_mem_head? isHead
  distinct := by
    rw [← count, nodup_flatMap]
    constructor
    · intro w inRange
      have below := mem_range.mp inRange
      exact (inv.nodup w below).sublist (inv.chained w below).written_sublist
    apply nodup_range.imp_of_mem
    intro left right leftIn rightIn different _ inLeft inRight
    have leftBelow := mem_range.mp leftIn
    have rightBelow := mem_range.mp rightIn
    exact inv.disjoint left leftBelow right rightBelow different
      ((inv.chained left leftBelow).written_sublist.subset inLeft)
      ((inv.chained right rightBelow).written_sublist.subset inRight)
  unreserved := by
    intro w below _ written
    have below' := count ▸ below
    have used := (inv.chained w below').written_sublist.subset
      (mem_map_of_mem written)
    exact (inv.bounds w below' _ used).1

/-- In every run of any number of workers, from any start-up. -/
theorem worker_logs_recoverable (startUp : StartUp) (actions : List LogAction) :
    AllHold LogState.step (LogState.Recoverable startUp) actions startUp.state := by
  apply allHold_of_invariant fun s =>
    s.Issued startUp.seq ∧ s.workerCount = startUp.workerCount
  · intro _ inv
    exact inv.1.recoverable inv.2
  · intro _ _ _ inv steps
    exact ⟨inv.1.step steps, (LogState.issues_step startUp.seq steps).1.trans inv.2⟩
  · exact ⟨startUp.issued_state, rfl⟩

end InsDb
