import InsDb.Driver.KeyVersions

/-!
# Synchronous gets and the writes before them

A synchronous get should answer with nothing older than a write whose call had returned when the
get began.  The driver breaks this when a write is accepted while a retrieve is in flight, when a
write is merged while the read-ahead hash has an entry of the key, when another command is
looked up while a synchronous get carries out a write that it took over, and for keys that are
not attached to their requests.  In every other run the gets are current.
-/

namespace InsDb.Driver

open InsDb.Library List Function Option
open KeyState (update_eq_some)

variable {V : Type}

def GetPhase.isWriting : GetPhase V → Bool
  | .writing _ _ => true
  | _ => false

namespace SyncState

variable (initial : Option V)

/-- Every answer is at least as new as the writes that had returned before the get, and it is
what the accepted commands leave up to some write. -/
def Current (s : SyncState V) : Prop :=
  ∀ i get answer, s.get i = some get → get.phase = .returned answer →
    get.floor ≤ answer.version ∧ Held initial s.key.accepted answer

variable (s : SyncState V)

def Idle : Prop :=
  ∀ i < s.begun, ∀ get ∈ s.get i, get.phase.isWriting = false

def Unread : Prop :=
  ∀ i < s.key.created, ∀ rq ∈ s.key.request i,
    rq.stage.inFlight = true → rq.command.isWrite = true

def MergesClean : Prop :=
  ∀ i ∈ s.key.hash, ∀ rq ∈ s.key.request i,
    rq.stage.inFlight = false → s.key.readahead.isNone = true

def Orderly : SyncStep V → Prop
  | .ioschedCmd cmd =>
    s.Idle ∧ (cmd.isWrite = true → s.Unread ∧ s.MergesClean)
  | .advance index => ∀ get ∈ s.get index, get.phase = .looking → s.Idle
  | _ => True

instance (s : SyncState V) : Decidable s.Idle := by
  unfold Idle
  infer_instance

instance (s : SyncState V) : Decidable s.Unread := by
  unfold Unread
  infer_instance

instance (s : SyncState V) : Decidable s.MergesClean := by
  unfold MergesClean
  infer_instance

instance [DecidableEq V] (s : SyncState V) (action : SyncStep V) :
    Decidable (s.Orderly action) := by
  unfold Orderly
  split <;> infer_instance

/-- Once a request is executed, the device is not older than a version. -/
structure Awaited (key : KeyState V) (floor : Nat) (rq : AsyncRequest V) : Prop where
  started : rq.stage ≠ .queued
  before : rq.stage = .submitted → floor ≤ (rq.run key.device).version
  after : rq.stage ≠ .submitted → floor ≤ key.device.version

def Served (key : KeyState V) (get : SyncGet V) : Prop :=
  match get.phase with
  | .waitsFlight index => ∃ rq, key.request index = some rq ∧ Awaited key get.floor rq
  | .reading => get.floor ≤ key.device.version
  | .returned answer => get.floor ≤ answer.version ∧ Held initial key.accepted answer
  | _ => True

/-- A retrieve in flight: nothing on its way to the device changes the key, and what it read is
the newest content. -/
structure Unchanging (initial : Option V) (key : KeyState V) (rq : AsyncRequest V) :
    Prop where
  reads : ∀ pair ∈ key.owes, pair.1.isWrite = false
  reply : rq.stage ≠ .submitted → rq.reply = some (newest initial key.accepted)

structure Coherent (initial : Option V) (carried : Option (Nat × KvCommand V × Nat))
    (s : SyncState V) : Prop where
  tracked : s.key.Tracked initial (carried.map Prod.snd).toList
  carrier : ∀ i cmd ticket, carried = some (i, cmd, ticket) ↔
    ∃ get, s.get i = some get ∧ get.phase = .writing cmd ticket
  known : ∀ i get, s.get i = some get → i < s.begun
  flights : ∀ i rq, s.key.request i = some rq → rq.command.isWrite = false →
    rq.stage.inFlight = true → carried = none ∧ Unchanging initial s.key rq
  entry : ∀ entry, s.key.readahead = some entry →
    s.floor ≤ entry.version ∧ Held initial s.key.accepted entry
  returned : s.floor ≤ (newest initial s.key.accepted).version
  clearing : ∀ ticket ∈ s.clearing, ticket ≤ (newest initial s.key.accepted).version
  gets : ∀ i get, s.get i = some get →
    get.floor ≤ s.floor ∧ Served initial s.key get

theorem coherent_start : Coherent initial none (start initial) where
  tracked := KeyState.tracked_start initial
  carrier := by
    intro _ _ _
    simp [start]
  known := nofun
  flights := nofun
  entry := nofun
  returned := Nat.zero_le _
  clearing := by simp [start]
  gets := nofun

namespace Coherent

variable {initial : Option V} {carried : Option (Nat × KvCommand V × Nat)}
  {s : SyncState V}

theorem current (coh : Coherent initial carried s) : Current initial s := by
  intro i get _ isGet isAnswer
  have served := (coh.gets i get isGet).2
  simp only [Served, isAnswer] at served
  exact served

theorem carried_none (coh : Coherent initial carried s) (idle : s.Idle) : carried = none := by
  cases isCarried : carried with
  | none => rfl
  | some triple =>
    obtain ⟨i, cmd, ticket⟩ := triple
    obtain ⟨get, isGet, isWriting⟩ := (coh.carrier i cmd ticket).mp isCarried
    have quiet := idle i (coh.known i get isGet) get isGet
    simp [isWriting, GetPhase.isWriting] at quiet

variable {key next : KeyState V} {get : SyncGet V}

theorem served_later (served : Served initial key get)
    (accepted : ∀ answer, Held initial key.accepted answer → Held initial next.accepted answer)
    (dev : key.device.version ≤ next.device.version)
    (awaited : ∀ index rq, key.request index = some rq → Awaited key get.floor rq →
      ∃ post, next.request index = some post ∧ Awaited next get.floor post) :
    Served initial next get := by
  cases isPhase : get.phase with
  | waitsFlight index =>
    simp only [Served, isPhase] at served ⊢
    obtain ⟨rq, isRq, waits⟩ := served
    exact awaited index rq isRq waits
  | reading =>
    simp only [Served, isPhase] at served ⊢
    exact served.trans dev
  | returned answer =>
    simp only [Served, isPhase] at served ⊢
    exact ⟨served.1, accepted answer served.2⟩
  | begun => simp [Served, isPhase]
  | looking => simp [Served, isPhase]
  | waitsBlocker => simp [Served, isPhase]
  | writing => simp [Served, isPhase]

theorem awaited_passes {floor : Nat} {rq post : AsyncRequest V}
    (dev : next.device = key.device) (passes : Passes rq post) (awaited : Awaited key floor rq) :
    Awaited next floor post := by
  have sameRun : post.run next.device = rq.run key.device := by
    rw [AsyncRequest.run, AsyncRequest.run, passes.command, passes.ticket, dev]
  rcases passes.stage with same | ⟨queued, -⟩ | ⟨executed, unhashed⟩ | ⟨unhashed, completed⟩
  · constructor
    · exact same ▸ awaited.started
    · rw [same, sameRun]
      exact awaited.before
    rw [same, dev]
    exact awaited.after
  · exact absurd queued awaited.started
  · have reached := dev ▸ awaited.after (by simp [executed])
    exact ⟨by simp [unhashed], by simp [unhashed], fun _ => reached⟩
  have reached := dev ▸ awaited.after (by simp [unhashed])
  exact ⟨by simp [completed], by simp [completed], fun _ => reached⟩

theorem served_passes (forth : ∀ i rq, key.request i = some rq → rq.stage ≠ .queued →
      ∃ post, next.request i = some post ∧ Passes rq post) (dev : next.device = key.device)
    (accepted : ∀ answer, Held initial key.accepted answer → Held initial next.accepted answer)
    (served : Served initial key get) : Served initial next get := by
  apply served_later served accepted (dev ▸ Nat.le_refl _)
  intro index rq isRq awaited
  obtain ⟨post, isAfter, passes⟩ := forth index rq isRq awaited.started
  exact ⟨post, isAfter, awaited_passes dev passes awaited⟩

theorem served_passing (passing : KeyState.Passing key next) (dev : next.device = key.device)
    (accepted : next.accepted = key.accepted) :
    Served initial key get → Served initial next get :=
  served_passes (fun i rq isRq _ => passing.forth i rq isRq) dev (accepted ▸ fun _ => id)

theorem passing (coh : Coherent initial carried s)
    (tracked : key.Tracked initial (carried.map Prod.snd).toList)
    (passing : KeyState.Passing s.key key) (dev : key.device = s.key.device)
    (accepted : key.accepted = s.key.accepted) (owes : key.owes = s.key.owes)
    (sent : ∀ i rq post, s.key.request i = some rq → key.request i = some post →
      rq.stage = .queued → post.stage = .submitted → s.key.owes = [(rq.command, rq.ticket)])
    (entry : ∀ entry, key.readahead = some entry →
      s.floor ≤ entry.version ∧ Held initial s.key.accepted entry) :
    Coherent initial carried { s with key := key } where
  tracked := tracked
  carrier := coh.carrier
  known := coh.known
  flights := by
    intro i post isAfter isRead inFlight
    obtain ⟨rq, isRq, passes⟩ := passing.back i post isAfter
    have wasRead := passes.command ▸ isRead
    have kept : rq.stage.inFlight = true → (post.stage ≠ .submitted → rq.stage ≠ .submitted) →
          carried = none ∧ Unchanging initial key post := by
      intro wasInFlight moved
      obtain ⟨quiet, unchanging⟩ := coh.flights i rq isRq wasRead wasInFlight
      refine ⟨quiet, owes ▸ unchanging.reads, ?_⟩
      intro executed
      rw [passes.reply, accepted]
      exact unchanging.reply (moved executed)
    rcases passes.stage with same | ⟨queued, isSubmitted | dropped⟩ |
      ⟨executed, -⟩ | ⟨-, completed⟩
    · apply kept (same ▸ inFlight)
      rw [same]
      exact id
    · have alone := sent i rq post isRq isAfter queued isSubmitted
      constructor
      · cases isCarried : carried with
        | none => rfl
        | some =>
          have nothing := coh.tracked.alone (by simp [isCarried])
          simp [alone] at nothing
      constructor
      · rw [owes, alone]
        intro _ mem
        rw [mem_singleton.mp mem]
        exact wasRead
      intro notSubmitted
      exact absurd isSubmitted notSubmitted
    · simp [dropped, Stage.inFlight] at inFlight
    · apply kept (by simp [executed, Stage.inFlight])
      intro _
      simp [executed]
    · simp [completed, Stage.inFlight] at inFlight
  entry := by
    rw [accepted]
    exact entry
  returned := by
    rw [accepted]
    exact coh.returned
  clearing := by
    rw [accepted]
    exact coh.clearing
  gets := by
    intro i get isGet
    obtain ⟨floor, served⟩ := coh.gets i get isGet
    exact ⟨floor, served_passing passing dev accepted served⟩

variable {index : Nat}

theorem submit (coh : Coherent initial carried s) (taken : s.key.submit index = some key) :
    Coherent initial carried { s with key := key } := by
  have tracked := coh.tracked.submit taken
  have passing := KeyState.Passing.submit taken
  have owes := KeyState.owes_of_submit coh.tracked.linked taken
  obtain ⟨rq, isRq, queued, unblocked, rfl⟩ := KeyState.submit_cases taken
  apply coh.passing tracked passing rfl rfl owes _ coh.entry
  intro i _ _ isOther isAfter wasQueued isSubmitted
  rcases update_eq_some isAfter with ⟨rfl, rfl⟩ | ⟨-, isSame⟩
  · rw [isRq] at isOther
    cases isOther
    have valid : rq.invalid = false := by
      cases invalid : rq.invalid with
      | false => rfl
      | true => simp [AsyncRequest.submitted, invalid] at isSubmitted
    have hashed := coh.tracked.linked.queued i rq isRq queued valid
    rw [KeyState.owes_of_unblocked hashed isRq unblocked]
    simp [AsyncRequest.owes, queued]
  · rw [isOther] at isSame
    cases isSame
    simp [wasQueued] at isSubmitted

theorem hashDelete (coh : Coherent initial carried s)
    (taken : s.key.hashDelete index = some key) :
    Coherent initial carried { s with key := key } := by
  have tracked := coh.tracked.hashDelete taken
  have passing := KeyState.Passing.hashDelete taken
  have owes := KeyState.owes_hashDelete coh.tracked.linked taken
  obtain ⟨_, _, _, rfl⟩ := KeyState.hashDelete_cases taken
  apply coh.passing tracked passing rfl rfl owes _ coh.entry
  intro _ _ _ isOther isAfter wasQueued isSubmitted
  rcases update_eq_some isAfter with ⟨rfl, rfl⟩ | ⟨-, isSame⟩
  · simp at isSubmitted
  rw [isOther] at isSame
  cases isSame
  simp [wasQueued] at isSubmitted

variable {i : Nat} {rq : AsyncRequest V}

theorem unsubmitted_of_complete (linked : s.key.Linked)
    (taken : s.key.complete index = some key) {post : AsyncRequest V}
    (isRq : s.key.request i = some rq) (isAfter : key.request i = some post)
    (queued : rq.stage = .queued) : post.stage ≠ .submitted := by
  have finished : ∀ {done other : AsyncRequest V},
      (s.key.finished index done).request i = some other → other.stage ≠ .submitted := by
    intro _ _ isOther
    rcases update_eq_some isOther with ⟨-, rfl⟩ | ⟨-, isSame⟩
    · simp [AsyncRequest.completed]
    rw [isRq] at isSame
    cases isSame
    simp [queued]
  obtain ⟨_, isDone, -, ⟨blocking, rfl⟩ | ⟨-, rfl⟩⟩ := KeyState.complete_cases taken
  · obtain ⟨_, _, -, -, -, pendingQueued, -, unblocked⟩ := linked.unblock_finished isDone blocking
    rw [unblocked] at isAfter
    rcases update_eq_some isAfter with ⟨-, rfl⟩ | ⟨-, isOther⟩
    · simp [pendingQueued]
    · exact finished isOther
  · exact finished isAfter

theorem complete (coh : Coherent initial carried s) (taken : s.key.complete index = some key) :
    Coherent initial carried { s with key := key } := by
  have linked := coh.tracked.linked
  obtain ⟨dev, accepted, rq, isRq, unhashed, readahead⟩ := KeyState.complete_effect taken
  apply coh.passing (coh.tracked.complete taken) (KeyState.Passing.complete linked taken)
    dev accepted (KeyState.owes_complete linked taken)
  · intro _ _ _ isOther isAfter queued isSubmitted
    exact absurd isSubmitted (unsubmitted_of_complete linked taken isOther isAfter queued)
  intro entry isEntry
  rw [readahead] at isEntry
  rcases or_eq_some_iff.mp isEntry with pre | ⟨-, isRead⟩
  · exact coh.entry entry pre
  cases isWrite : rq.command.isWrite with
  | true => simp [AsyncRequest.read, isWrite] at isRead
  | false =>
    have inFlight : rq.stage.inFlight = true := by simp [unhashed, Stage.inFlight]
    have unchanging := (coh.flights index rq isRq isWrite inFlight).2
    have reply := unchanging.reply (by simp [unhashed])
    simp only [AsyncRequest.read, isWrite, Bool.false_eq_true, if_false] at isRead
    rw [reply] at isRead
    cases isRead
    exact ⟨coh.returned, held_newest initial s.key.accepted⟩

theorem owes_submitted (linked : key.Linked) (isRq : key.request index = some rq)
    (sent : rq.stage = .submitted) : (rq.command, rq.ticket) ∈ key.owes := by
  let next : KeyState V := { key with
    request := update key.request index (some (rq.executed key.device)) }
  have owed : key.owes = (rq.command, rq.ticket) :: next.owes :=
    KeyState.owes_execute linked isRq sent rfl rfl
  simp [owed]

theorem execute (coh : Coherent initial carried s) (taken : s.key.execute index = some key) :
    Coherent initial carried { s with key := key } := by
  have tracked := coh.tracked.execute taken
  have linked := coh.tracked.linked
  obtain ⟨rq, isRq, sent, rfl⟩ := KeyState.execute_cases taken
  let new : KeyState V := { s.key with
    request := update s.key.request index (some (rq.executed s.key.device))
    device := rq.run s.key.device
    executed := s.key.executed ++ [rq.ticket] }
  have owed : s.key.owes = (rq.command, rq.ticket) :: new.owes :=
    KeyState.owes_execute linked isRq sent rfl rfl
  have isOwed : (rq.command, rq.ticket) ∈ s.key.owes := by simp [owed]
  have later := coh.tracked.version_le_run (mem_append_left _ isOwed)
  constructor
  · exact tracked
  · exact coh.carrier
  · exact coh.known
  · intro i other isOther isRead inFlight
    have kept : Unchanging initial s.key other → Unchanging initial new other := by
      intro unchanging
      refine ⟨?_, unchanging.reply⟩
      intro pair mem
      apply unchanging.reads
      rw [owed]
      exact mem_cons_of_mem _ mem
    rcases update_eq_some isOther with ⟨rfl, rfl⟩ | ⟨-, isSame⟩
    · -- The retrieve that is executed finds the newest content at the device.
      have wasRead : rq.command.isWrite = false := isRead
      have wasInFlight : rq.stage.inFlight = true := by simp [sent, Stage.inFlight]
      obtain ⟨quiet, unchanging⟩ := coh.flights i rq isRq wasRead wasInFlight
      refine ⟨quiet, (kept ⟨unchanging.reads, ?_⟩)⟩
      intro _
      have content := coh.tracked.content
      rw [quiet] at content
      have settledNow : s.key.device = newest initial s.key.accepted := by
        rw [← content]
        have all : ∀ pair ∈ s.key.owes ++ [], pair.1.isWrite = false := by
          simpa using unchanging.reads
        exact (runAll_of_reads all s.key.device).symm
      simp [AsyncRequest.executed, wasRead, ← settledNow]
    · obtain ⟨quiet, unchanging⟩ := coh.flights i other isSame isRead inFlight
      exact ⟨quiet, kept unchanging⟩
  · exact coh.entry
  · exact coh.returned
  · exact coh.clearing
  intro i get isGet
  obtain ⟨floor, served⟩ := coh.gets i get isGet
  refine ⟨floor, served_later served (fun answer held => held) later ?_⟩
  intro waited other isOther awaited
  by_cases same : waited = index
  · subst same
    rw [isRq] at isOther
    cases isOther
    refine ⟨rq.executed s.key.device, update_self .., ?_⟩
    have floorHere := awaited.before sent
    exact ⟨by simp [AsyncRequest.executed], by simp [AsyncRequest.executed], fun _ => floorHere⟩
  have notSubmitted : other.stage ≠ .submitted := by
    intro alsoSubmitted
    exact same (linked.atDevice_unique isOther isRq (Or.inl alsoSubmitted) (Or.inl sent))
  refine ⟨other, (update_of_ne same ..).trans isOther, awaited.started, ?_, ?_⟩
  · intro isSubmitted
    exact absurd isSubmitted notSubmitted
  intro _
  exact (awaited.after notSubmitted).trans later

structure Started (key next : KeyState V) : Prop where
  back : ∀ i after, next.request i = some after → after.stage ≠ .queued →
    ∃ rq, key.request i = some rq ∧ Passes rq after ∧ after.stage = rq.stage
  forth : ∀ i rq, key.request i = some rq → rq.stage ≠ .queued →
    ∃ after, next.request i = some after ∧ Passes rq after ∧ after.stage = rq.stage

theorem Started.of_eq (requests : next.request = key.request) : Started key next where
  back := by
    intro _ post isAfter _
    exact ⟨post, requests ▸ isAfter, Passes.refl post, rfl⟩
  forth := by
    intro _ rq isRq _
    exact ⟨rq, requests ▸ isRq, Passes.refl rq, rfl⟩

theorem Started.relink {post : AsyncRequest V} (isRq : key.request index = some rq)
    (passes : Passes rq post) (sameStage : post.stage = rq.stage)
    (requests : next.request = Function.update key.request index (some post)) :
    Started key next where
  back := by
    intro i other isOther _
    rw [requests] at isOther
    rcases update_eq_some isOther with ⟨rfl, rfl⟩ | ⟨-, isSame⟩
    · exact ⟨rq, isRq, passes, sameStage⟩
    · exact ⟨other, isSame, Passes.refl other, rfl⟩
  forth := by
    intro i other isOther _
    rw [requests]
    by_cases same : i = index
    · subst same
      rw [isRq] at isOther
      cases isOther
      exact ⟨post, update_self .., passes, sameStage⟩
    · exact ⟨other, (update_of_ne same ..).trans isOther, Passes.refl other, rfl⟩

theorem Started.put {between : KeyState V} {new : AsyncRequest V}
    (started : Started key between) (queued : new.stage = .queued)
    (free : ∀ rq, between.request index = some rq → rq.stage = .queued)
    (requests : next.request = Function.update between.request index (some new)) :
    Started key next where
  back := by
    intro i post isAfter notQueued
    rw [requests] at isAfter
    rcases update_eq_some isAfter with ⟨-, rfl⟩ | ⟨-, isSame⟩
    · exact absurd queued notQueued
    · exact started.back i post isSame notQueued
  forth := by
    intro i rq isRq notQueued
    obtain ⟨post, isAfter, passes, same⟩ := started.forth i rq isRq notQueued
    have apart : i ≠ index := by
      rintro rfl
      exact notQueued (same ▸ free post isAfter)
    rw [requests]
    exact ⟨post, (update_of_ne apart ..).trans isAfter, passes, same⟩

theorem served_started (started : Started key next) (dev : next.device = key.device)
    (accepted : ∀ answer, Held initial key.accepted answer → Held initial next.accepted answer) :
    Served initial key get → Served initial next get := by
  apply served_passes _ dev accepted
  intro i rq isRq notQueued
  obtain ⟨post, isAfter, passes, -⟩ := started.forth i rq isRq notQueued
  exact ⟨post, isAfter, passes⟩

variable {cmd : KvCommand V}

theorem started_ioschedCmd (linked : key.Linked) (taken : key.ioschedCmd cmd = some next) :
    Started key next := by
  have unused := linked.unused key.created (Nat.le_refl _)
  cases KeyState.accepts_of_ioschedCmd taken with
  | fresh =>
    apply Started.put (.of_eq rfl) _ _ rfl
    · rfl
    intro _ isRq
    exact nomatch unused.symm.trans isRq
  | behind index buffered hashed isBuffered =>
    let marked := key.setRequest index { buffered with blocking := true }
    have passes : Passes buffered { buffered with blocking := true } := ⟨rfl, rfl, rfl, Or.inl rfl⟩
    have marks : Started key marked := Started.relink isBuffered passes rfl rfl
    apply marks.put _ _ rfl
    · rfl
    intro _ isRq
    have newest := (linked.hashed index hashed).1
    have apart : key.created ≠ index := by omega
    exact nomatch unused.symm.trans ((update_of_ne apart ..).symm.trans isRq)
  | replacing index buffered hashed isBuffered waits =>
    have queued := linked.queued_of_waits isBuffered hashed waits
    apply Started.put (.of_eq rfl) _ _ rfl
    · exact queued
    intro _ isRq
    rw [isBuffered] at isRq
    cases isRq
    exact queued
  | ignored => exact Started.of_eq rfl

theorem ioschedCmd_effect (taken : key.ioschedCmd cmd = some next) :
    next.device = key.device ∧ next.accepted = key.accepted ++ [cmd] ∧
      next.readahead = key.readahead := by
  cases KeyState.accepts_of_ioschedCmd taken <;> exact ⟨rfl, rfl, rfl⟩

theorem owes_ioschedCmd_read (linked : key.Linked) (isRead : cmd.isWrite = false)
    (taken : key.ioschedCmd cmd = some next) {pair : KvCommand V × Nat}
    (mem : pair ∈ next.owes) : pair ∈ key.owes ∨ pair.1 = cmd := by
  cases KeyState.accepts_of_ioschedCmd taken with
  | fresh =>
    rw [KeyState.owes_addRequest_fresh rfl rfl] at mem
    rw [mem_singleton.mp mem]
    exact .inr rfl
  | behind index buffered hashed isBuffered inFlight =>
    have atDevice := linked.atDevice_of_inFlight isBuffered hashed inFlight
    have acceptLinked : (key.accept cmd).Linked := linked.congr rfl rfl rfl
    have isHashed := hashed
    have isRq := isBuffered
    rw [KeyState.owes_addRequest_behind acceptLinked isHashed isRq atDevice rfl rfl] at mem
    rcases mem_append.mp mem with pre | isNew
    · exact .inl pre
    rw [mem_singleton.mp isNew]
    exact .inr rfl
  | replacing index buffered hashed isBuffered waits isWrite => simp [isRead] at isWrite
  | ignored => exact .inl mem

theorem accepting (coh : Coherent initial carried s) {floor : Nat} {clearing : List Nat}
    (tracked : key.Tracked initial (carried.map Prod.snd).toList) (started : Started s.key key)
    (dev : key.device = s.key.device)
    (accepted : key.accepted = s.key.accepted ++ [cmd])
    (reads : cmd.isWrite = false → ∀ pair ∈ key.owes, pair ∈ s.key.owes ∨ pair.1 = cmd)
    (unread : cmd.isWrite = true → s.Unread) (later : s.floor ≤ floor)
    (entry : ∀ entry, key.readahead = some entry →
      floor ≤ entry.version ∧ Held initial s.key.accepted entry)
    (returned : floor ≤ (newest initial key.accepted).version)
    (cleared : ∀ ticket ∈ clearing, ticket ≤ (newest initial key.accepted).version) :
    Coherent initial carried { s with key := key, floor := floor, clearing := clearing } where
  tracked := tracked
  carrier := coh.carrier
  known := coh.known
  flights := by
    intro i post isAfter isRead inFlight
    have notQueued : post.stage ≠ .queued := by
      intro queued
      simp [queued, Stage.inFlight] at inFlight
    obtain ⟨rq, isRq, passes, same⟩ := started.back i post isAfter notQueued
    have wasRead := passes.command ▸ isRead
    have wasInFlight := same ▸ inFlight
    cases isWrite : cmd.isWrite with
    | true =>
      have created : i < s.key.created := by
        by_contra notCreated
        have unused := coh.tracked.linked.unused i (Nat.le_of_not_lt notCreated)
        simp [unused] at isRq
      have mustWrite := unread isWrite i created rq isRq wasInFlight
      simp [wasRead] at mustWrite
    | false =>
      obtain ⟨quiet, unchanging⟩ := coh.flights i rq isRq wasRead wasInFlight
      refine ⟨quiet, ?_, ?_⟩
      · intro pair mem
        rcases reads isWrite pair mem with pre | isNew
        · exact unchanging.reads pair pre
        rw [isNew]
        exact isWrite
      rw [same, passes.reply, accepted, newest_accept_read isWrite]
      exact unchanging.reply
  entry := by
    intro found isFound
    obtain ⟨notOlder, held⟩ := entry found isFound
    refine ⟨notOlder, ?_⟩
    rw [accepted]
    exact held.accept cmd
  returned := returned
  clearing := cleared
  gets := by
    intro i get isGet
    obtain ⟨floor, served⟩ := coh.gets i get isGet
    refine ⟨floor.trans later, served_started started dev ?_ served⟩
    intro _ held
    rw [accepted]
    exact held.accept cmd

theorem findInReadahead (coh : Coherent initial carried s)
    (taken : s.key.findInReadahead = some key) :
    Coherent initial carried { s with key := key } := by
  have isKey := KeyState.findInReadahead_cases taken
  subst isKey
  have isRead : (.retrieve : KvCommand V).isWrite = false := rfl
  have later := version_newest_accept initial s.key.accepted (.retrieve : KvCommand V)
  apply coh.accepting (coh.tracked.ignore isRead) (Started.of_eq rfl) rfl rfl _ _
    (Nat.le_refl _) coh.entry (coh.returned.trans later)
  · intro ticket mem
    exact (coh.clearing ticket mem).trans later
  · intro _ _ mem
    exact .inl mem
  intro isWrite
  simp [KvCommand.isWrite] at isWrite

theorem merged_of_created (isWrite : cmd.isWrite = true)
    (taken : key.ioschedCmd cmd = some next) (created : next.created = key.created) :
    ∃ index buffered, key.hash = some index ∧ key.request index = some buffered ∧
      buffered.stage.inFlight = false := by
  cases KeyState.accepts_of_ioschedCmd taken with
  | fresh =>
    have more : key.created + 1 = key.created := created
    omega
  | behind =>
    have more : key.created + 1 = key.created := created
    omega
  | replacing index buffered hashed isBuffered waits =>
    exact ⟨index, buffered, hashed, isBuffered, waits⟩
  | ignored index buffered hashed isBuffered waits isRead => simp [isWrite] at isRead

theorem ioschedCmd (coh : Coherent initial carried s) {next : SyncState V}
    (taken : s.ioschedCmd cmd = some next) (orderly : s.Orderly (.ioschedCmd cmd)) :
    Coherent initial carried next := by
  obtain ⟨idle, clean⟩ := orderly
  have quiet := coh.carried_none idle
  subst quiet
  obtain ⟨key, accepts, isNext⟩ := map_eq_some_iff.mp taken
  have linked := coh.tracked.linked
  have tracked := coh.tracked.ioschedCmd accepts
  have started := started_ioschedCmd linked accepts
  obtain ⟨dev, accepted, readahead⟩ := ioschedCmd_effect accepts
  have later := version_newest_accept initial s.key.accepted cmd
  rw [← accepted] at later
  have cleared : ∀ ticket ∈ s.clearing, ticket ≤ (newest initial key.accepted).version := by
    intro ticket mem
    exact (coh.clearing ticket mem).trans later
  have reads : cmd.isWrite = false → ∀ pair ∈ key.owes,
      pair ∈ s.key.owes ∨ pair.1 = cmd := by
    intro isRead _ mem
    exact owes_ioschedCmd_read linked isRead accepts mem
  have unread := fun isWrite => (clean isWrite).1
  have entry : ∀ entry, key.readahead = some entry →
      s.floor ≤ entry.version ∧ Held initial s.key.accepted entry := by
    rw [readahead]
    exact coh.entry
  cases isWrite : cmd.isWrite with
  | false =>
    simp only [isWrite, Bool.false_eq_true, if_false] at isNext
    subst isNext
    exact coh.accepting tracked started dev accepted reads unread (Nat.le_refl _) entry
      (coh.returned.trans later) cleared
  | true =>
    have version : (newest initial key.accepted).version = s.key.nextTicket := by
      rw [accepted, newest_accept, KvCommand.version_run isWrite]
      rfl
    have notLater := version ▸ coh.returned.trans later
    simp only [isWrite, if_true] at isNext
    split at isNext
    next created =>
      subst isNext
      apply coh.accepting tracked started dev accepted reads unread notLater _
        version.ge cleared
      intro _ isFound
      obtain ⟨index, buffered, hashed, isBuffered, waits⟩ :=
        merged_of_created isWrite accepts created
      have nothing := (clean isWrite).2 index hashed buffered isBuffered waits
      rw [readahead] at isFound
      simp [isFound] at nothing
    next new =>
      subst isNext
      apply coh.accepting tracked started dev accepted reads unread (Nat.le_refl _) entry
        (coh.returned.trans later)
      intro ticket mem
      rcases mem_cons.mp mem with rfl | pre
      · exact version.ge
      · exact cleared ticket pre

theorem dropEntry (coh : Coherent initial carried s) {floor : Nat}
    {clearing : List Nat} (later : s.floor ≤ floor)
    (returned : floor ≤ (newest initial s.key.accepted).version)
    (cleared : ∀ ticket ∈ clearing, ticket ∈ s.clearing) :
    Coherent initial carried { s with
      key := { s.key with readahead := none }, floor := floor, clearing := clearing } := by
  let key : KeyState V := { s.key with readahead := none }
  have linked : key.Linked := coh.tracked.linked.congr rfl rfl rfl
  have passing : KeyState.Passing s.key key :=
    ⟨fun i post isAfter => ⟨post, isAfter, Passes.refl post⟩,
      fun i rq isRq => ⟨rq, isRq, Passes.refl rq⟩⟩
  constructor
  · exact coh.tracked.still linked passing rfl rfl rfl
  · exact coh.carrier
  · exact coh.known
  · intro i rq isRq isRead inFlight
    obtain ⟨quiet, unchanging⟩ := coh.flights i rq isRq isRead inFlight
    exact ⟨quiet, unchanging.reads, unchanging.reply⟩
  · intro _ isEntry
    cases isEntry
  · exact returned
  · intro ticket mem
    exact coh.clearing ticket (cleared ticket mem)
  intro i get isGet
  obtain ⟨pre, served⟩ := coh.gets i get isGet
  exact ⟨pre.trans later, served_passing passing rfl rfl served⟩

theorem clearReadahead (coh : Coherent initial carried s) {ticket : Nat}
    {next : SyncState V} (taken : s.clearReadahead ticket = some next) :
    Coherent initial carried next := by
  unfold SyncState.clearReadahead at taken
  split at taken
  next isClearing =>
    cases taken
    apply coh.dropEntry (Nat.le_max_left _ _)
    · exact Nat.max_le.mpr ⟨coh.returned, coh.clearing ticket isClearing⟩
    intro _ mem
    exact mem_of_mem_erase mem
  next => cases taken

theorem setPhase (coh : Coherent initial carried s) {phase : GetPhase V}
    (isGet : s.get index = some get) (notWriting : get.phase.isWriting = false)
    (stays : phase.isWriting = false)
    (served : Served initial s.key { get with phase := phase }) :
    Coherent initial carried (s.setPhase index get phase) := by
  constructor
  · exact coh.tracked
  · intro i cmd ticket
    rw [coh.carrier]
    by_cases same : i = index
    · subst same
      have updated : (s.setPhase i get phase).get i = some { get with phase := phase } :=
        update_self ..
      rw [updated, isGet]
      constructor
      · rintro ⟨other, isOther, isWriting⟩
        cases isOther
        simp [isWriting, GetPhase.isWriting] at notWriting
      rintro ⟨other, isOther, isWriting⟩
      cases isOther
      have phaseWriting : phase = .writing cmd ticket := isWriting
      simp [phaseWriting, GetPhase.isWriting] at stays
    · have kept : (s.setPhase index get phase).get i = s.get i := update_of_ne same ..
      rw [kept]
  · intro i other isOther
    rcases update_eq_some isOther with ⟨rfl, -⟩ | ⟨-, isSame⟩
    · exact coh.known i get isGet
    · exact coh.known i other isSame
  · exact coh.flights
  · exact coh.entry
  · exact coh.returned
  · exact coh.clearing
  intro i other isOther
  rcases update_eq_some isOther with ⟨rfl, rfl⟩ | ⟨-, isSame⟩
  · exact ⟨(coh.gets i get isGet).1, served⟩
  · exact coh.gets i other isSame

theorem beginGet (coh : Coherent initial carried s) : Coherent initial carried s.beginGet := by
  have new : s.beginGet.get s.begun = some { floor := s.floor } := update_self ..
  have fresh : s.get s.begun = none := by
    cases isGet : s.get s.begun with
    | none => rfl
    | some get => exact absurd (coh.known _ get isGet) (Nat.lt_irrefl _)
  have old : ∀ i, i ≠ s.begun → s.beginGet.get i = s.get i := fun i apart => update_of_ne apart ..
  constructor
  · exact coh.tracked
  · intro i _ _
    rw [coh.carrier]
    by_cases same : i = s.begun
    · rw [same, new, fresh]
      simp
    · rw [old i same]
  · intro i get isGet
    change i < s.begun + 1
    by_cases same : i = s.begun
    · omega
    · exact (coh.known i get (old i same ▸ isGet)).trans (Nat.lt_succ_self _)
  · exact coh.flights
  · exact coh.entry
  · exact coh.returned
  · exact coh.clearing
  intro i get isGet
  by_cases same : i = s.begun
  · rw [same, new] at isGet
    cases isGet
    exact ⟨Nat.le_refl _, trivial⟩
  · exact coh.gets i get (old i same ▸ isGet)

theorem doReadahead (coh : Coherent initial carried s) {missed : GetPhase V}
    (isGet : s.get index = some get) (notWriting : get.phase.isWriting = false)
    (stays : missed.isWriting = false)
    (served : Served initial s.key { get with phase := missed }) :
    Coherent initial carried (s.doReadahead index get missed) := by
  unfold SyncState.doReadahead
  cases isEntry : s.key.readahead with
  | none => exact coh.setPhase isGet notWriting stays served
  | some entry =>
    obtain ⟨notOlder, held⟩ := coh.entry entry isEntry
    have enough := (coh.gets index get isGet).1.trans notOlder
    have answered : Coherent initial carried (s.setPhase index get (.returned entry)) :=
      coh.setPhase isGet notWriting rfl ⟨enough, held⟩
    exact answered.dropEntry (Nat.le_refl _) coh.returned (fun ticket mem => mem)

theorem device_newest (coh : Coherent initial none s) (nothing : s.key.owes = []) :
    s.key.device = newest initial s.key.accepted := by
  have content := coh.tracked.content
  rw [nothing] at content
  exact content

theorem started_takeOver (isRq : key.request index = some rq) :
    Started key (key.takeOver index rq) := by
  have passes : Passes rq { rq with invalid := true } := ⟨rfl, rfl, rfl, Or.inl rfl⟩
  exact Started.relink isRq passes rfl rfl

theorem cancel (coh : Coherent initial none s) (hashed : s.key.hash = some i)
    (isRq : s.key.request i = some rq) (waits : rq.stage.inFlight = false)
    (unblocked : rq.blockingRq = none) (isRead : rq.command.isWrite = false) :
    Coherent initial none { s with key := s.key.takeOver i rq } where
  tracked := coh.tracked.cancel hashed isRq waits unblocked isRead
  carrier := coh.carrier
  known := coh.known
  flights := by
    intro j post isAfter afterRead inFlight
    have notQueued : post.stage ≠ .queued := by
      intro queued
      simp [queued, Stage.inFlight] at inFlight
    obtain ⟨pre, isBefore, passes, same⟩ :=
      (started_takeOver isRq).back j post isAfter notQueued
    obtain ⟨quiet, unchanging⟩ := coh.flights j pre isBefore (passes.command ▸ afterRead)
      (same ▸ inFlight)
    have nothing : (s.key.takeOver i rq).owes = [] := KeyState.owes_of_unhashed rfl
    refine ⟨quiet, by simp [nothing], ?_⟩
    rw [same, passes.reply]
    exact unchanging.reply
  entry := coh.entry
  returned := coh.returned
  clearing := coh.clearing
  gets := by
    intro j get isGet
    obtain ⟨floor, served⟩ := coh.gets j get isGet
    exact ⟨floor, served_started (started_takeOver isRq) rfl (fun answer held => held) served⟩

theorem takeOver (coh : Coherent initial none s) (isGet : s.get index = some get)
    (hashed : s.key.hash = some i) (isRq : s.key.request i = some rq)
    (waits : rq.stage.inFlight = false) (unblocked : rq.blockingRq = none)
    (isWrite : rq.command.isWrite = true) :
    Coherent initial (some (index, rq.command, rq.ticket)) { s with
      key := s.key.takeOver i rq
      get := Function.update s.get index
        (some { get with phase := .writing rq.command rq.ticket }) } := by
  have owed := coh.tracked.owes_buffered hashed isRq waits unblocked
  have nobody : ∀ {j other cmd ticket}, s.get j = some other →
      other.phase ≠ .writing cmd ticket := by
    intro j other cmd ticket isOther isWriting
    exact nomatch (coh.carrier j cmd ticket).mpr ⟨other, isOther, isWriting⟩
  constructor
  · exact coh.tracked.takeOver hashed isRq waits unblocked
  · intro j _ _
    by_cases same : j = index
    · subst same
      simp
    simp only [update_of_ne same]
    constructor
    · intro isCarrier
      cases isCarrier
      exact absurd rfl same
    rintro ⟨other, isOther, isWriting⟩
    exact absurd isWriting (nobody isOther)
  · intro j other isOther
    rcases update_eq_some isOther with ⟨rfl, -⟩ | ⟨-, isSame⟩
    · exact coh.known j get isGet
    · exact coh.known j other isSame
  · intro j post isAfter afterRead inFlight
    have notQueued : post.stage ≠ .queued := by
      intro queued
      simp [queued, Stage.inFlight] at inFlight
    obtain ⟨pre, isBefore, passes, same⟩ :=
      (started_takeOver isRq).back j post isAfter notQueued
    obtain ⟨-, unchanging⟩ := coh.flights j pre isBefore (passes.command ▸ afterRead)
      (same ▸ inFlight)
    have isRead := unchanging.reads (rq.command, rq.ticket) (by simp [owed])
    simp [isWrite] at isRead
  · exact coh.entry
  · exact coh.returned
  · exact coh.clearing
  intro j other isOther
  rcases update_eq_some isOther with ⟨rfl, rfl⟩ | ⟨-, isSame⟩
  · exact ⟨(coh.gets j get isGet).1, trivial⟩
  obtain ⟨floor, served⟩ := coh.gets j other isSame
  exact ⟨floor, served_started (started_takeOver isRq) rfl (fun answer held => held) served⟩

theorem carryOut {ticket : Nat} (coh : Coherent initial (some (index, cmd, ticket)) s)
    (isGet : s.get index = some get) :
    Coherent initial none { s with
      key := { s.key with device := cmd.run ticket s.key.device }
      get := Function.update s.get index
        (some { get with phase := .returned (cmd.run ticket s.key.device) }) } := by
  let key : KeyState V := { s.key with device := cmd.run ticket s.key.device }
  have tracked := coh.tracked.carryOut
  have nothing : s.key.owes = [] := coh.tracked.alone (by simp)
  have newer : cmd.run ticket s.key.device = newest initial s.key.accepted := by
    have content := tracked.content_of_quiet
    rw [show key.owes = [] from nothing] at content
    exact content
  have later : s.key.device.version ≤ (cmd.run ticket s.key.device).version := by
    have isOwed : (cmd, ticket) ∈ s.key.owes ++ [(cmd, ticket)] := by simp
    exact coh.tracked.version_le_run isOwed
  constructor
  · exact tracked
  · intro j other number
    constructor
    · intro isCarrier
      cases isCarrier
    rintro ⟨found, isFound, isWriting⟩
    rcases update_eq_some isFound with ⟨-, rfl⟩ | ⟨apart, isSame⟩
    · cases isWriting
    have isCarrier := (coh.carrier j other number).mpr ⟨found, isSame, isWriting⟩
    cases isCarrier
    exact absurd rfl apart
  · intro j other isOther
    rcases update_eq_some isOther with ⟨rfl, -⟩ | ⟨-, isSame⟩
    · exact coh.known j get isGet
    · exact coh.known j other isSame
  · intro j rq isRq isRead inFlight
    exact nomatch (coh.flights j rq isRq isRead inFlight).1
  · exact coh.entry
  · exact coh.returned
  · exact coh.clearing
  intro j other isOther
  rcases update_eq_some isOther with ⟨rfl, rfl⟩ | ⟨-, isSame⟩
  · have floor := (coh.gets j get isGet).1
    refine ⟨floor, ?_⟩
    rw [newer]
    exact ⟨floor.trans coh.returned, held_newest initial s.key.accepted⟩
  obtain ⟨floor, served⟩ := coh.gets j other isSame
  refine ⟨floor, served_later served (fun answer held => held) later ?_⟩
  intro _ rq isRq awaited
  have notSubmitted : rq.stage ≠ .submitted := by
    intro sent
    have isOwed := owes_submitted coh.tracked.linked isRq sent
    simp [nothing] at isOwed
  refine ⟨rq, isRq, awaited.started, ?_, ?_⟩
  · intro sent
    exact absurd sent notSubmitted
  intro _
  exact (awaited.after notSubmitted).trans later

theorem lookUp (coh : Coherent initial none s) {next : SyncState V}
    (isGet : s.get index = some get) (notWriting : get.phase.isWriting = false)
    (taken : s.lookUp index get = some next) :
    ∃ carrier, Coherent initial carrier next := by
  obtain ⟨⟨_, _⟩, finds, isNext⟩ := map_eq_some_iff.mp taken
  have floor := (coh.gets index get isGet).1.trans coh.returned
  have linked := coh.tracked.linked
  cases KeyState.finds_of_findAndLock finds with
  | nothing unhashed =>
    have dev := coh.device_newest (KeyState.owes_of_unhashed unhashed)
    rw [← dev] at floor
    rw [← isNext]
    exact ⟨none, coh.setPhase isGet notWriting rfl floor⟩
  | inFlight i rq hashed isRq inFlight =>
    have atDevice := linked.atDevice_of_inFlight isRq hashed inFlight
    have unblocked := linked.unblocked_of_atDevice isRq atDevice
    have owes := KeyState.owes_of_unblocked hashed isRq unblocked
    have awaited : Awaited s.key get.floor rq := by
      constructor
      · intro queued
        simp [queued, Stage.inFlight] at inFlight
      · intro sent
        have owed : s.key.owes = [(rq.command, rq.ticket)] := by
          rw [owes]
          simp [AsyncRequest.owes, sent]
        have content := coh.tracked.content_of_quiet
        rw [owed] at content
        rw [← content] at floor
        exact floor
      intro notSubmitted
      have nothing : s.key.owes = [] := by
        rw [owes]
        rcases atDevice with sent | executed
        · exact absurd sent notSubmitted
        · simp [AsyncRequest.owes, executed]
      rw [← coh.device_newest nothing] at floor
      exact floor
    rw [← isNext]
    exact ⟨none, coh.setPhase isGet notWriting rfl ⟨rq, isRq, awaited⟩⟩
  | pending =>
    rw [← isNext]
    exact ⟨none, coh.setPhase isGet notWriting rfl trivial⟩
  | buffered i rq hashed isRq waits unblocked =>
    rw [← isNext]
    cases isWrite : rq.command.isWrite with
    | true =>
      have carries := coh.takeOver isGet hashed isRq waits unblocked isWrite
      simp only [Found.phase, isWrite, if_true]
      exact ⟨_, carries⟩
    | false =>
      have cancelled := coh.cancel hashed isRq waits unblocked isWrite
      have nothing : (s.key.takeOver i rq).owes = [] := KeyState.owes_of_unhashed rfl
      have dev := cancelled.device_newest nothing
      have enough : get.floor ≤ (s.key.takeOver i rq).device.version := by
        rw [dev]
        exact floor
      simp only [Found.phase, isWrite, Bool.false_eq_true, if_false]
      exact ⟨none, cancelled.setPhase isGet notWriting rfl enough⟩

theorem advance (coh : Coherent initial carried s) {next : SyncState V}
    (taken : s.advance index = some next) (orderly : s.Orderly (.advance index)) :
    ∃ carrier, Coherent initial carrier next := by
  obtain ⟨get, isGet, moves⟩ := bind_eq_some_iff.mp taken
  cases isPhase : get.phase with
  | begun =>
    simp only [isPhase, some.injEq] at moves
    rw [← moves]
    exact ⟨carried, coh.doReadahead isGet (isPhase ▸ rfl) rfl trivial⟩
  | looking =>
    simp only [isPhase] at moves
    have quiet := coh.carried_none (orderly get isGet isPhase)
    subst quiet
    exact coh.lookUp isGet (isPhase ▸ rfl) moves
  | waitsFlight =>
    simp only [isPhase] at moves
    split at moves
    next landed =>
      cases moves
      have served := (coh.gets index get isGet).2
      simp only [Served, isPhase] at served
      obtain ⟨rq, isRq, awaited⟩ := served
      have notSubmitted : rq.stage ≠ .submitted := by
        intro sent
        simp [SyncState.landed, isRq, sent, Stage.inFlight] at landed
      exact ⟨carried, coh.doReadahead isGet (isPhase ▸ rfl) rfl (awaited.after notSubmitted)⟩
    next => cases moves
  | waitsBlocker =>
    simp only [isPhase] at moves
    split at moves
    next =>
      cases moves
      exact ⟨carried, coh.setPhase isGet (isPhase ▸ rfl) rfl trivial⟩
    next => cases moves
  | reading =>
    simp only [isPhase, some.injEq] at moves
    rw [← moves]
    have served := (coh.gets index get isGet).2
    simp only [Served, isPhase] at served
    exact ⟨carried, coh.setPhase isGet (isPhase ▸ rfl) rfl ⟨served, coh.tracked.device⟩⟩
  | writing cmd ticket =>
    simp only [isPhase, some.injEq] at moves
    have isCarried := (coh.carrier index cmd ticket).mpr ⟨get, isGet, isPhase⟩
    subst isCarried
    rw [← moves]
    exact ⟨none, coh.carryOut isGet⟩
  | returned => simp [isPhase] at moves

theorem withKey {key : Option (KeyState V)} {next : SyncState V} (taken : s.withKey key = some next)
    (kept : ∀ moved, key = some moved → Coherent initial carried { s with key := moved }) :
    Coherent initial carried next := by
  obtain ⟨moved, isMoved, isNext⟩ := map_eq_some_iff.mp taken
  rw [← isNext]
  exact kept moved isMoved

theorem step (coh : Coherent initial carried s) {action : SyncStep V}
    {next : SyncState V} (taken : s.step action = some next)
    (orderly : s.Orderly action) : ∃ carrier, Coherent initial carrier next := by
  cases action with
  | ioschedCmd => exact ⟨carried, coh.ioschedCmd taken orderly⟩
  | clearReadahead => exact ⟨carried, coh.clearReadahead taken⟩
  | findInReadahead => exact ⟨carried, withKey taken fun _ => coh.findInReadahead⟩
  | submit => exact ⟨carried, withKey taken fun _ => coh.submit⟩
  | execute => exact ⟨carried, withKey taken fun _ => coh.execute⟩
  | hashDelete => exact ⟨carried, withKey taken fun _ => coh.hashDelete⟩
  | complete => exact ⟨carried, withKey taken fun _ => coh.complete⟩
  | beginGet =>
    cases taken
    exact ⟨carried, coh.beginGet⟩
  | advance => exact coh.advance taken orderly

end Coherent

/-- In every run whose steps are orderly, no get of a key that is attached to its requests answers
with anything older than the writes that had returned before it. -/
theorem gets_current (keyLength : Nat) (unkeyed : Content V) (initial : Option V)
    (steps : List (SyncStep V)) (attached : keyLength ≤ kvcmdInlineKeyMax)
    (orderly : Run.AllMeet (stepOf unkeyed keyLength) Orderly steps (start initial)) :
    Run.AllHold (stepOf unkeyed keyLength) (Current initial) steps (start initial) := by
  rw [stepOf, if_pos attached] at orderly ⊢
  apply Run.allHold_of_allMeet (fun s => ∃ carried, Coherent initial carried s) _ _
    ⟨none, coherent_start initial⟩ orderly
  · rintro _ ⟨_, coherent⟩
    exact coherent.current
  rintro _ _ _ ⟨_, coherent⟩ taken met
  exact coherent.step taken met

/-- A get waits for a store in flight and reads what it stored; a later get takes over a queued
delete. -/
def storeThenDelete : List (SyncStep Nat) :=
  [.ioschedCmd (.store 5), .clearReadahead 1, .submit 0, .execute 0, .beginGet, .advance 0,
    .advance 0, .hashDelete 0, .complete 0, .advance 0, .advance 0, .ioschedCmd .delete,
    .clearReadahead 2, .beginGet, .advance 1, .advance 1, .advance 1]

theorem storeThenDelete_current :
    Run.AllMeet (stepOf { value := none } 16) Orderly storeThenDelete (start (some 3)) ∧
      ((Run.exec (stepOf { value := none } 16) storeThenDelete (start (some 3))).map fun s =>
        (s.get 0, s.get 1)) =
          some (some { floor := 1, phase := .returned { value := some 5, version := 1 } },
            some { floor := 2, phase := .returned { value := none, version := 2 } }) ∧
      Run.AllHold (stepOf { value := none } 16) (Current (some 3)) storeThenDelete
        (start (some 3)) := by
  have orderly : Run.AllMeet (stepOf { value := none } 16) Orderly storeThenDelete
      (start (some 3)) := by
    decide +kernel
  refine ⟨orderly, ?_, gets_current 16 _ _ _ (by decide) orderly⟩
  decide +kernel

theorem not_current_of_older {step : SyncState V → SyncStep V → Option (SyncState V)}
    {initial : Option V} {steps : List (SyncStep V)} {floor : Nat} (answer : Content V)
    (older : answer.version < floor)
    (answered : ((Run.exec step steps (start initial)).bind fun s => s.get 0) =
      some { floor := floor, phase := .returned answer }) :
    ¬ Run.AllHold step (Current initial) steps (start initial) := by
  intro all
  obtain ⟨_, runs, isGet⟩ := bind_eq_some_iff.mp answered
  exact absurd (all.final runs 0 _ _ isGet rfl).1 (Nat.not_le_of_lt older)

/-- A store is accepted while a retrieve is in flight.  Its call returns; then the retrieve
completes and the old value goes to the read-ahead hash, where a get finds it.  And a store of a
long key completes, and a get reads the old value at the device. -/
theorem readahead_of_superseded_value :
    ¬ Run.AllHold (stepOf { value := none } 16) (Current (some 3))
        [.ioschedCmd .retrieve, .submit 0, .execute 0, .ioschedCmd (.store 5), .clearReadahead 2,
          .hashDelete 0, .complete 0, .beginGet, .advance 0] (start (some 3)) ∧
      ¬ Run.AllHold (stepOf { value := none } 17) (Current (some 3))
        [.ioschedCmd (.store 5), .clearReadahead 1, .submit 0, .execute 0, .hashDelete 0,
          .complete 0, .beginGet, .advance 0, .advance 0, .advance 0] (start (some 3)) := by
  constructor
  · apply not_current_of_older { value := some 3, version := 0 } Nat.two_pos
    decide +kernel
  apply not_current_of_older { value := some 3, version := 0 } Nat.one_pos
  decide +kernel

end SyncState

end InsDb.Driver
