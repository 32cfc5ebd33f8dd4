import InsDb.Driver.IoSched

/-!
# What a flush waits for

When a flush returns, the writes accepted before it should have been executed by the device.  A
flush with a key waits for the request in the hash, and the requests of the key before that one
are executed earlier.  A flush without a key waits for the last request of the last queue of the
write daemon only; requests of other queues and requests at the device are not waited for, unless
they block a request of that queue.
-/

namespace InsDb.Driver

open InsDb.Library List Function

variable {K V : Type}

namespace IoSched

variable (s : IoSched K V)

/-- When a flush has returned, the writes accepted before it are done. -/
def Flushed : Prop :=
  ∀ i flush, s.flush i = some flush → flush.phase = .returned →
    ∀ rq ∈ flush.before, s.done rq = true

def blocks [DecidableEq K] (s : IoSched K V) (memq : List (K × Nat))
    (rq : K × Nat) : Bool :=
  memq.any fun other => decide (other.1 = rq.1) &&
    (s.request other).any fun request => decide (request.blockingRq = some rq.2)

def FlushPhase.awaited : FlushPhase K → Option (K × Nat)
  | .scheduling _ found => found
  | .waiting rq _ => some rq
  | _ => none

/-- The look of a flush without a key covers all that it has to wait for: what is not done is the
request that it finds and that no get has taken over, or it blocks a request of the same queue. -/
def Covers [DecidableEq K] (s : IoSched K V) (before : List (K × Nat)) :
    FlushPhase K → Prop
  | .waiting rq memq => ∀ other ∈ before,
      s.done other = true ∨ (other = rq ∧ rq.2 ∉ (s.keys rq.1).carried) ∨
        s.blocks memq other = true
  | _ => ∀ other ∈ before, s.done other = true

/-- No write that a flush has to wait for is in the hands of a synchronous get. -/
def Uncarried (before : List (K × Nat)) : Prop :=
  ∀ rq ∈ before, rq.2 ∉ (s.keys rq.1).carried

def FlushCovers [DecidableEq K] (s : IoSched K V) (flush : Flush K) : Prop :=
  match flush.phase with
  | .begun => s.Uncarried flush.before
  | .scheduling [] none => s.Covers flush.before (FlushPhase.afterLook s)
  | _ => True

def Unawaited (rq : K × Nat) : Prop :=
  ∀ i < s.flushes, ∀ flush ∈ s.flush i, FlushPhase.awaited flush.phase ≠ some rq

def Covered [DecidableEq K] (s : IoSched K V) : IoSchedStep K V → Prop
  | .advanceFlush index => ∀ flush ∈ s.flush index, s.FlushCovers flush
  | .act key .takeOver => ∀ index ∈ (s.keys key).key.hash, s.Unawaited (key, index)
  | _ => True

section Decidable

variable [DecidableEq K] (s : IoSched K V)

instance (before : List (K × Nat)) (phase : FlushPhase K) :
    Decidable (s.Covers before phase) := by
  unfold Covers
  split <;> infer_instance

instance (before : List (K × Nat)) : Decidable (s.Uncarried before) := by
  unfold Uncarried
  infer_instance

instance (flush : Flush K) : Decidable (s.FlushCovers flush) := by
  unfold FlushCovers
  split <;> infer_instance

instance (rq : K × Nat) : Decidable (s.Unawaited rq) := by
  unfold Unawaited
  infer_instance

instance (action : IoSchedStep K V) : Decidable (s.Covered action) := by
  unfold Covered
  split <;> infer_instance

end Decidable

/-- Every request of a memory queue waits there, and in no other place. -/
structure Listed (s : IoSched K V) : Prop where
  queued : ∀ memq rq, rq ∈ s.rqs memq →
    ∃ request, s.request rq = some request ∧ request.stage = .queued
  once : ∀ memq other rq, rq ∈ s.rqs memq → rq ∈ s.rqs other → memq = other
  nodup : ∀ memq, (s.rqs memq).Nodup

/-- The lists of the daemons and the places of the memory queues agree. -/
structure Placed (place : Memq → Place) (mumemqList : Daemon → List Memq)
    (submitting : Daemon → Option Memq) (generation : Nat → MemqType → Nat) : Prop where
  listed : ∀ daemon memq, memq ∈ mumemqList daemon → place memq = .mutable daemon
  nodup : ∀ daemon, (mumemqList daemon).Nodup
  submitting : ∀ daemon memq, submitting daemon = some memq → place memq = .submitting daemon
  active : ∀ cpu type number, generation cpu type ≤ number →
    place (.percpu cpu type number) = .filling

structure Wired (s : IoSched K V) : Prop where
  sound : ∀ key, (s.keys key).Sound
  lists : s.Listed
  places : Placed s.place s.mumemqList s.submitting s.generation

/-- The flush waits for a request, with which all writes before it are done. -/
structure Waits (s : IoSched K V) (before : List (K × Nat)) (rq : K × Nat)
    (memq : List (K × Nat)) : Prop where
  made : ∃ request, s.request rq = some request
  valid : rq ∈ before → s.done rq = true ∨
    ∃ request, s.request rq = some request ∧ request.invalid = false
  covered : ∀ other ∈ before, s.done other = true ∨ other = rq ∨
    ∃ index request, (other.1, index) ∈ memq ∧
      s.request (other.1, index) = some request ∧ request.blockingRq = some other.2
  -- Its queue is in the list, or nothing in it is blocked any more.
  held : (rq ∈ memq ∧ ∃ queue, s.place queue = .mutable .write ∧ s.rqs queue = memq) ∨
    ∀ other ∈ memq, other = rq ∨
      ∃ request, s.request other = some request ∧ request.blockingRq = none

def Progress (flush : Flush K) : Prop :=
  match flush.phase with
  | .scheduling _ (some rq) => s.Waits flush.before rq [rq]
  | .waiting rq memq => s.Waits flush.before rq memq
  | .returned => ∀ rq ∈ flush.before, s.done rq = true
  | _ => True

structure Noted (s : IoSched K V) (flush : Flush K) : Prop where
  touched : ∀ rq ∈ flush.before, rq.1 ∈ s.touched
  made : ∀ rq ∈ flush.before, ∃ request, s.request rq = some request
  ofKey : ∀ key, flush.key = some key → ∀ rq ∈ flush.before, rq.1 = key
  progress : s.Progress flush

structure Waiting (s : IoSched K V) : Prop where
  wired : s.Wired
  known : ∀ i flush, s.flush i = some flush → i < s.flushes
  noted : ∀ i flush, s.flush i = some flush → s.Noted flush

theorem waiting_start (cpus : Nat) (initial : K → Option V) : (start cpus initial).Waiting where
  wired := by
    refine ⟨fun key => CarriedKey.sound_start (initial key), ⟨?_, ?_, ?_⟩, ⟨?_, ?_, ?_, ?_⟩⟩
    · intro memq _ mem
      cases mem
    · intro memq _ _ mem
      cases mem
    · intro memq
      exact nodup_nil
    · intro daemon _ mem
      cases mem
    · intro _
      exact nodup_nil
    · intro _ _ isMemq
      cases isMemq
    intro _ _ _ _
    rfl
  known := by
    intro _ _ isFlush
    cases isFlush
  noted := by
    intro _ _ isFlush
    cases isFlush

theorem Waiting.flushed {s : IoSched K V} (waiting : s.Waiting) : s.Flushed := by
  intro i flush isFlush returned
  have progress := (waiting.noted i flush isFlush).progress
  simp only [Progress, returned] at progress
  exact progress

/-- A step of the keys and the queues, which takes over some requests. -/
structure Moves (s next : IoSched K V) (taken : K × Nat → Prop) : Prop where
  keys : ∀ key, ∃ submits takes,
    CarriedKey.Evolves (s.keys key) (next.keys key) submits takes ∧
      ∀ index, takes = some index → taken (key, index)
  -- A queue leaves the list when nothing in it is blocked.
  queues : ∀ memq, s.place memq = .mutable .write →
    (next.place memq = .mutable .write ∧ next.rqs memq = s.rqs memq) ∨
      s.pending memq = false
  touched : ∀ key ∈ s.touched, key ∈ next.touched

variable {s next : IoSched K V} {taken : K × Nat → Prop}

theorem unblocked_of_pending (wired : s.Wired) {memq : Memq}
    (free : s.pending memq = false) {rq : K × Nat} (mem : rq ∈ s.rqs memq) :
    ∃ request, s.request rq = some request ∧ request.blockingRq = none := by
  obtain ⟨request, isRq, -⟩ := wired.lists.queued memq rq mem
  have notBlocked := any_eq_false.mp free rq mem
  simp only [isRq, Option.any_some, Bool.not_eq_true, Option.isSome_eq_false_iff,
    Option.isNone_iff_eq_none] at notBlocked
  exact ⟨request, isRq, notBlocked⟩

namespace Moves

variable {rq : K × Nat}

section

variable (moves : Moves s next taken)

include moves

theorem done (wired : s.Wired) (isDone : s.done rq = true) : next.done rq = true := by
  obtain ⟨_, _, evolves, -⟩ := moves.keys rq.1
  exact evolves.done (wired.sound rq.1) isDone

theorem made (isMade : ∃ request, s.request rq = some request) :
    ∃ request, next.request rq = some request := by
  obtain ⟨request, isRq⟩ := isMade
  obtain ⟨_, _, evolves, -⟩ := moves.keys rq.1
  obtain ⟨post, isAfter, -⟩ := evolves.request rq.2 request isRq
  exact ⟨post, isAfter⟩

theorem unblocked (free : ∃ request, s.request rq = some request ∧ request.blockingRq = none) :
    ∃ request, next.request rq = some request ∧ request.blockingRq = none := by
  obtain ⟨request, isRq, notBlocked⟩ := free
  obtain ⟨_, _, evolves, -⟩ := moves.keys rq.1
  obtain ⟨post, isAfter, follows⟩ := evolves.request rq.2 request isRq
  exact ⟨post, isAfter, follows.unblocked notBlocked⟩

theorem valid (untaken : ¬ taken rq)
    (isValid : ∃ request, s.request rq = some request ∧ request.invalid = false) :
    ∃ request, next.request rq = some request ∧ request.invalid = false := by
  obtain ⟨request, isRq, valid⟩ := isValid
  obtain ⟨_, _, evolves, onlyTaken⟩ := moves.keys rq.1
  obtain ⟨post, isAfter, follows⟩ := evolves.request rq.2 request isRq
  refine ⟨post, isAfter, follows.valid valid ?_⟩
  intro takesIt
  exact untaken (onlyTaken rq.2 takesIt)

theorem blocked {key : K} {i blocker : Nat} {rq : AsyncRequest V}
    (isRq : s.request (key, i) = some rq)
    (link : rq.blockingRq = some blocker) :
    next.done (key, blocker) = true ∨
      ∃ post, next.request (key, i) = some post ∧ post.blockingRq = some blocker := by
  obtain ⟨_, _, evolves, -⟩ := moves.keys key
  obtain ⟨post, isAfter, follows⟩ := evolves.request i rq isRq
  rcases follows.blocked blocker link with still | ⟨done, isDone, past⟩
  · exact .inr ⟨post, isAfter, still⟩
  · exact .inl (CarriedKey.done_iff.mpr ⟨done, isDone, Or.inl past⟩)

theorem waits (wired : s.Wired) {pre memq : List (K × Nat)} (untaken : ¬ taken rq)
    (waits : s.Waits pre rq memq) :
    next.Waits pre rq memq where
  made := moves.made waits.made
  valid := by
    intro mem
    rcases waits.valid mem with isDone | isValid
    · exact .inl (moves.done wired isDone)
    · exact .inr (moves.valid untaken isValid)
  covered := by
    intro other mem
    rcases waits.covered other mem with isDone | isSame | ⟨i, _, inQueue, isRq, link⟩
    · exact .inl (moves.done wired isDone)
    · exact .inr (.inl isSame)
    rcases moves.blocked isRq link with isDone | ⟨post, isAfter, still⟩
    · exact .inl isDone
    · exact .inr (.inr ⟨i, post, inQueue, isAfter, still⟩)
  held := by
    rcases waits.held with ⟨inQueue, queue, isListed, isQueue⟩ | free
    · rcases moves.queues queue isListed with ⟨stillListed, same⟩ | notPending
      · exact .inl ⟨inQueue, queue, stillListed, same.trans isQueue⟩
      refine .inr fun other mem => Or.inr ?_
      exact moves.unblocked (unblocked_of_pending wired notPending (isQueue ▸ mem))
    refine .inr fun other mem => ?_
    rcases free other mem with isSame | notBlocked
    · exact .inl isSame
    · exact .inr (moves.unblocked notBlocked)

theorem noted (wired : s.Wired) {flush : Flush K}
    (untaken : ∀ rq, taken rq → FlushPhase.awaited flush.phase ≠ some rq)
    (noted : s.Noted flush) :
    next.Noted flush where
  touched := fun rq mem => moves.touched rq.1 (noted.touched rq mem)
  made := fun rq mem => moves.made (noted.made rq mem)
  ofKey := noted.ofKey
  progress := by
    have progress := noted.progress
    cases isPhase : flush.phase with
    | begun => simp [Progress, isPhase]
    | scheduling cpus found =>
      cases found with
      | none => simp [Progress, isPhase]
      | some rq =>
        simp only [Progress, isPhase] at progress ⊢
        apply moves.waits wired _ progress
        intro isTaken
        exact untaken rq isTaken (by simp [isPhase, FlushPhase.awaited])
    | waiting rq =>
      simp only [Progress, isPhase] at progress ⊢
      apply moves.waits wired _ progress
      intro isTaken
      exact untaken rq isTaken (by simp [isPhase, FlushPhase.awaited])
    | returned =>
      simp only [Progress, isPhase] at progress ⊢
      exact fun rq mem => moves.done wired (progress rq mem)

end

end Moves

/-- A step that keeps the keys and the queues in order and leaves the flushes alone. -/
structure Proceeds (s next : IoSched K V) (taken : K × Nat → Prop) : Prop where
  wired : next.Wired
  moves : Moves s next taken
  flush : next.flush = s.flush
  flushes : next.flushes = s.flushes

theorem Proceeds.waiting (proceeds : Proceeds s next taken) (waiting : s.Waiting)
    (untaken : ∀ rq, taken rq → s.Unawaited rq) : next.Waiting where
  wired := proceeds.wired
  known := by
    rw [proceeds.flush, proceeds.flushes]
    exact waiting.known
  noted := by
    intro i flush isFlush
    rw [proceeds.flush] at isFlush
    apply proceeds.moves.noted waiting.wired _ (waiting.noted i flush isFlush)
    intro rq isTaken
    exact untaken rq isTaken i (waiting.known i flush isFlush) flush isFlush

structure SameRequests (s next : IoSched K V) : Prop where
  keys : next.keys = s.keys
  touched : next.touched = s.touched
  rqs : next.rqs = s.rqs
  flush : next.flush = s.flush
  flushes : next.flushes = s.flushes

theorem Listed.congr (lists : s.Listed) (sameKeys : next.keys = s.keys)
    (sameRqs : next.rqs = s.rqs) : next.Listed where
  queued := by
    unfold request
    rw [sameKeys, sameRqs]
    exact lists.queued
  once := sameRqs ▸ lists.once
  nodup := sameRqs ▸ lists.nodup

theorem Proceeds.of_queues (wired : s.Wired) (same : SameRequests s next)
    (places : Placed next.place next.mumemqList next.submitting next.generation)
    (queues : ∀ memq, s.place memq = .mutable .write →
      next.place memq = .mutable .write ∨ s.pending memq = false) :
    Proceeds s next (fun _ => False) where
  wired := ⟨same.keys ▸ wired.sound, wired.lists.congr same.keys same.rqs, places⟩
  moves := by
    constructor
    · intro _
      rw [same.keys]
      exact ⟨none, none, CarriedKey.Evolves.of_eq rfl fun _ => id, nofun⟩
    · intro memq isListed
      rcases queues memq isListed with stillListed | free
      · exact .inl ⟨stillListed, congrFun same.rqs memq⟩
      · exact .inr free
    rw [same.touched]
    exact fun _ => id
  flush := same.flush
  flushes := same.flushes

namespace Placed

variable {place : Memq → Place} {mumemqList : Daemon → List Memq}
  {submitting : Daemon → Option Memq} {generation : Nat → MemqType → Nat} {memq : Memq}
  {daemon : Daemon}

section

variable (placed : Placed place mumemqList submitting generation)

include placed

theorem append (filling : place memq = .filling)
    (inactive : ∀ cpu type number, generation cpu type ≤ number → .percpu cpu type number ≠ memq) :
    Placed (Function.update place memq (.mutable daemon))
      (Function.update mumemqList daemon (mumemqList daemon ++ [memq])) submitting generation := by
  have elsewhere : ∀ {other : Memq} {old : Place}, place other = old → old ≠ .filling →
      other ≠ memq := by
    rintro other old isPlace notFilling rfl
    exact notFilling (isPlace.symm.trans filling)
  have kept : ∀ {other old}, place other = old → old ≠ .filling →
      update place memq (.mutable daemon) other = old := by
    intro other _ isPlace notFilling
    rw [update_of_ne (elsewhere isPlace notFilling)]
    exact isPlace
  constructor
  · apply (forall_update_iff mumemqList fun other list => ∀ queue ∈ list,
      update place memq (.mutable daemon) queue = .mutable other).mpr
    refine ⟨forall_mem_append.mpr ⟨?_, by simp⟩, ?_⟩
    · exact fun queue mem => kept (placed.listed daemon queue mem) (by simp)
    · exact fun other _ queue mem => kept (placed.listed other queue mem) (by simp)
  · apply (forall_update_iff mumemqList fun _ list => list.Nodup).mpr
    refine ⟨nodup_append.mpr ⟨placed.nodup daemon, by simp, ?_⟩, fun other _ => placed.nodup other⟩
    intro queue mem _ isNew
    rw [mem_singleton.mp isNew]
    exact elsewhere (placed.listed daemon queue mem) (by simp)
  · exact fun other queue isSubmitting =>
      kept (placed.submitting other queue isSubmitting) (by simp)
  intro cpu type number later
  rw [update_of_ne (inactive cpu type number later)]
  exact placed.active cpu type number later

theorem perm {list : List Memq} (moved : list.Perm (mumemqList daemon)) :
    Placed place (Function.update mumemqList daemon list) submitting generation := by
  refine ⟨?_, ?_, placed.submitting, placed.active⟩
  · apply (forall_update_iff mumemqList fun other list => ∀ queue ∈ list,
      place queue = .mutable other).mpr
    refine ⟨?_, fun other _ => placed.listed other⟩
    exact fun queue mem => placed.listed daemon queue (moved.mem_iff.mp mem)
  · apply (forall_update_iff mumemqList fun _ list => list.Nodup).mpr
    exact ⟨moved.nodup_iff.mpr (placed.nodup daemon), fun other _ => placed.nodup other⟩

theorem take {rest : List Memq} (isList : mumemqList daemon = memq :: rest) :
    Placed (Function.update place memq (.submitting daemon))
      (Function.update mumemqList daemon rest)
      (Function.update submitting daemon (some memq)) generation := by
  have listed := placed.listed daemon
  have nodup := placed.nodup daemon
  rw [isList] at listed nodup
  have isHead := listed memq mem_cons_self
  obtain ⟨notInRest, restNodup⟩ := nodup_cons.mp nodup
  have kept : ∀ {other old}, place other = old → old ≠ .mutable daemon →
      update place memq (.submitting daemon) other = old := by
    intro other _ isPlace notHead
    have apart : other ≠ memq := by
      rintro rfl
      exact notHead (isPlace.symm.trans isHead)
    rw [update_of_ne apart]
    exact isPlace
  constructor
  · apply (forall_update_iff mumemqList fun other list => ∀ queue ∈ list,
      update place memq (.submitting daemon) queue = .mutable other).mpr
    constructor
    · intro queue mem
      rw [update_of_ne (ne_of_mem_of_not_mem mem notInRest)]
      exact listed queue (mem_cons_of_mem _ mem)
    · exact fun other apart queue mem =>
        kept (placed.listed other queue mem) (by simpa using apart)
  · apply (forall_update_iff mumemqList fun _ list => list.Nodup).mpr
    exact ⟨restNodup, fun other _ => placed.nodup other⟩
  · apply (forall_update_iff submitting fun other queue? => ∀ queue, queue? = some queue →
      update place memq (.submitting daemon) queue = .submitting other).mpr
    constructor
    · rintro _ ⟨rfl⟩
      exact update_self ..
    · exact fun other _ queue isSubmitting =>
        kept (placed.submitting other queue isSubmitting) (by simp)
  · exact fun cpu type number later => kept (placed.active cpu type number later) (by simp)

theorem later {newer : Nat → MemqType → Nat}
    (grows : ∀ cpu type, generation cpu type ≤ newer cpu type) :
    Placed place mumemqList submitting newer := by
  refine ⟨placed.listed, placed.nodup, placed.submitting, ?_⟩
  intro cpu type number later
  exact placed.active cpu type number ((grows cpu type).trans later)

theorem release : Placed place mumemqList (Function.update submitting daemon none) generation := by
  refine ⟨placed.listed, placed.nodup, ?_, placed.active⟩
  apply (forall_update_iff submitting fun other queue? => ∀ queue, queue? = some queue →
    place queue = .submitting other).mpr
  exact ⟨nofun, fun other _ => placed.submitting other⟩

end

end Placed

namespace Wired

section

variable (wired : s.Wired)

include wired

theorem enqueue {memq : Memq} {daemon : Daemon} (filling : s.place memq = .filling)
    (inactive : ∀ cpu type number, s.generation cpu type ≤ number → .percpu cpu type number ≠
      memq) : Proceeds s (s.enqueue memq daemon) (fun _ => False) := by
  unfold IoSched.enqueue
  split
  next =>
    exact .of_queues wired ⟨rfl, rfl, rfl, rfl, rfl⟩ wired.places fun _ isListed => Or.inl isListed
  next =>
    refine .of_queues wired ⟨rfl, rfl, rfl, rfl, rfl⟩ (wired.places.append filling inactive) ?_
    intro other isListed
    have apart : other ≠ memq := by
      rintro rfl
      exact nomatch filling.symm.trans isListed
    exact .inl ((update_of_ne apart ..).trans isListed)

theorem queueBatch {call : Nat} (taken : s.queueBatch call = some next) :
    Proceeds s next (fun _ => False) := by
  unfold IoSched.queueBatch at taken
  split at taken
  next filling =>
    obtain ⟨_, -, rfl⟩ := Option.map_eq_some_iff.mp taken
    exact wired.enqueue filling nofun
  next => cases taken

theorem schedule (cpu : Nat) (type : MemqType) :
    Proceeds s (s.schedule cpu type) (fun _ => False) := by
  let fresh : IoSched K V := { s with
    generation := update s.generation cpu
      (update (s.generation cpu) type (s.generation cpu type + 1)) }
  have here : fresh.generation cpu type = s.generation cpu type + 1 := by
    simp [fresh]
  have grows : ∀ other otherType, s.generation other otherType ≤
      fresh.generation other otherType := by
    intro other otherType
    by_cases same : other = cpu
    · subst same
      by_cases sameType : otherType = type
      · subst sameType
        rw [here]
        exact Nat.le_succ _
      · simp [fresh, sameType]
    · simp [fresh, same]
  have freshWired : fresh.Wired :=
    ⟨wired.sound, wired.lists.congr rfl rfl, wired.places.later grows⟩
  have enqueued : Proceeds fresh (s.schedule cpu type) (fun _ => False) := by
    apply freshWired.enqueue (wired.places.active cpu type _ (Nat.le_refl _))
    intro _ _ _ later same
    cases same
    rw [here] at later
    exact absurd later (Nat.not_succ_le_self _)
  exact ⟨enqueued.wired, ⟨enqueued.moves.keys, enqueued.moves.queues, enqueued.moves.touched⟩,
    enqueued.flush, enqueued.flushes⟩

theorem rotate {daemon : Daemon} (taken : s.rotate daemon = some next) :
    Proceeds s next (fun _ => False) := by
  unfold IoSched.rotate at taken
  split at taken
  next => cases taken
  next memq rest isList =>
    split at taken
    next =>
      cases taken
      have rotated : (rest ++ [memq]).Perm (s.mumemqList daemon) := by
        rw [isList]
        exact perm_append_singleton memq rest
      exact .of_queues wired ⟨rfl, rfl, rfl, rfl, rfl⟩ (wired.places.perm rotated)
        fun queue isListed => Or.inl isListed
    next => cases taken

theorem take {daemon : Daemon} (taken : s.take daemon = some next) :
    Proceeds s next (fun _ => False) := by
  unfold IoSched.take at taken
  split at taken
  next memq rest idle isList =>
    split at taken
    next => cases taken
    next notPending =>
      cases taken
      refine .of_queues wired ⟨rfl, rfl, rfl, rfl, rfl⟩ (wired.places.take isList) ?_
      intro queue isListed
      by_cases same : queue = memq
      · subst same
        exact .inr (by simpa using notPending)
      · exact .inl ((update_of_ne same ..).trans isListed)
  next => cases taken

end

variable [DecidableEq K]

variable {key : K}

theorem of_key (wired : s.Wired) {moved : CarriedKey V} {submits takes : Option Nat}
    (evolves : CarriedKey.Evolves (s.keys key) moved submits takes) (sound : moved.Sound)
    (keys : next.keys = Function.update s.keys key moved)
    (touched : next.touched = s.touched.insert key) (lists : next.Listed)
    (samePlace : next.place = s.place) (sameList : next.mumemqList = s.mumemqList)
    (sameSubmitting : next.submitting = s.submitting)
    (sameGeneration : next.generation = s.generation) (sameFlush : next.flush = s.flush)
    (sameFlushes : next.flushes = s.flushes)
    (queues : ∀ memq, s.place memq = .mutable .write → next.rqs memq = s.rqs memq)
    (onlyTaken : ∀ i, takes = some i → taken (key, i)) :
    Proceeds s next taken where
  wired := by
    refine ⟨?_, lists, ?_⟩
    · rw [keys]
      apply (forall_update_iff s.keys fun _ moved => moved.Sound).mpr
      exact ⟨sound, fun other _ => wired.sound other⟩
    · rw [samePlace, sameList, sameSubmitting, sameGeneration]
      exact wired.places
  moves := by
    constructor
    · intro other
      by_cases same : other = key
      · subst same
        rw [keys, update_self]
        exact ⟨submits, takes, evolves, onlyTaken⟩
      rw [keys, update_of_ne same]
      exact ⟨none, none, CarriedKey.Evolves.of_eq rfl fun _ => id, nofun⟩
    · intro memq isListed
      rw [samePlace]
      exact .inl ⟨isListed, queues memq isListed⟩
    intro _ mem
    rw [touched]
    exact mem_insert_of_mem mem
  flush := sameFlush
  flushes := sameFlushes

variable {rq : K × Nat}

theorem queued_of_key (wired : s.Wired) {moved : CarriedKey V}
    {submits takes : Option Nat} (evolves : CarriedKey.Evolves (s.keys key) moved submits takes)
    (keys : next.keys = Function.update s.keys key moved) {memq : Memq}
    (mem : rq ∈ s.rqs memq) (unsubmitted : rq.1 = key → submits ≠ some rq.2) :
    ∃ request, next.request rq = some request ∧ request.stage = .queued := by
  obtain ⟨request, isRq, queued⟩ := wired.lists.queued memq rq mem
  unfold IoSched.request at isRq ⊢
  rw [keys]
  by_cases same : rq.1 = key
  · subst same
    obtain ⟨post, isAfter, follows⟩ := evolves.request rq.2 request isRq
    rw [update_self]
    exact ⟨post, isAfter, follows.queued queued (unsubmitted rfl)⟩
  rw [update_of_ne same]
  exact ⟨request, isRq, queued⟩

omit [DecidableEq K] in
theorem listed_update (lists : s.Listed) {memq : Memq} {list : List (K × Nat)}
    (rqs : next.rqs = Function.update s.rqs memq list)
    (queued : ∀ queue rq, rq ∈ next.rqs queue →
      ∃ request, next.request rq = some request ∧ request.stage = .queued)
    (nodup : list.Nodup)
    (only : ∀ rq ∈ list, ∀ queue, rq ∈ s.rqs queue → queue = memq) : next.Listed where
  queued := queued
  once := by
    intro queue other rq mem otherMem
    rw [rqs] at mem otherMem
    by_cases same : queue = memq
    · subst same
      rw [update_self] at mem
      by_cases otherSame : other = queue
      · exact otherSame.symm
      rw [update_of_ne otherSame] at otherMem
      exact (only rq mem other otherMem).symm
    rw [update_of_ne same] at mem
    by_cases otherSame : other = memq
    · subst otherSame
      rw [update_self] at otherMem
      exact only rq otherMem queue mem
    rw [update_of_ne otherSame] at otherMem
    exact lists.once queue other rq mem otherMem
  nodup := by
    rw [rqs]
    apply (forall_update_iff s.rqs fun _ list => list.Nodup).mpr
    exact ⟨nodup, fun queue _ => lists.nodup queue⟩

theorem act (wired : s.Wired) {action : KeyAction V} (taken : s.act key action = some next) :
    Proceeds s next (fun rq => rq.1 = key ∧ action.takes (s.keys key) = some rq.2) := by
  unfold IoSched.act at taken
  split at taken
  next elsewhere =>
    obtain ⟨moved, moves, rfl⟩ := Option.map_eq_some_iff.mp taken
    obtain ⟨evolves, sound⟩ := CarriedKey.step_evolves (wired.sound key) moves
    have unsubmitted : action.submits = none := by
      cases action with
      | driver step =>
        cases step with
        | submit => simp [KeyAction.elsewhere] at elsewhere
        | _ => rfl
      | takeOver => rfl
      | carryOut => rfl
    have lists : (s.setKey key moved).Listed := by
      refine ⟨?_, wired.lists.once, wired.lists.nodup⟩
      intro _ _ mem
      apply wired.queued_of_key evolves rfl mem
      simp [unsubmitted]
    apply wired.of_key evolves sound rfl rfl lists rfl rfl rfl rfl rfl rfl fun _ _ => rfl
    exact fun _ takesIt => ⟨rfl, takesIt⟩
  next => cases taken

variable {cmd : KvCommand V}

theorem accept (wired : s.Wired) {memq : Memq} (filling : s.place memq = .filling)
    (taken : s.accept memq key cmd = some next) :
    Proceeds s next (fun _ => False) := by
  obtain ⟨moved, moves, isNext⟩ := Option.map_eq_some_iff.mp taken
  obtain ⟨evolves, sound⟩ := CarriedKey.step_evolves (wired.sound key) moves
  have lists := wired.lists
  split at isNext
  next =>
    subst isNext
    have kept : (s.setKey key moved).Listed := by
      refine ⟨?_, lists.once, lists.nodup⟩
      intro queue rq mem
      exact wired.queued_of_key evolves rfl mem nofun
    exact wired.of_key evolves sound rfl rfl kept rfl rfl rfl rfl rfl rfl (fun _ _ => rfl) nofun
  next more =>
    subst isNext
    let new : K × Nat := (key, (s.keys key).key.created)
    have unused := (wired.sound key).linked.unused _ (Nat.le_refl _)
    have fresh : ∀ queue, new ∉ s.rqs queue := by
      intro queue mem
      obtain ⟨request, isRq, -⟩ := lists.queued queue new mem
      exact nomatch unused.symm.trans isRq
    let next : IoSched K V := { s.setKey key moved with
      rqs := update s.rqs memq (new :: s.rqs memq) }
    have queued : ∀ queue rq, rq ∈ next.rqs queue →
        ∃ request, next.request rq = some request ∧ request.stage = .queued := by
      intro queue rq mem
      have pre : rq = new ∨ rq ∈ s.rqs queue := by
        by_cases same : queue = memq
        · subst same
          simpa [next] using mem
        · exact .inr (by simpa [next, update_of_ne same] using mem)
      rcases pre with rfl | wasThere
      · obtain ⟨request, isRq⟩ := CarriedKey.created_ioschedCmd moves more
        have isNew : next.request new = some request := by
          change (update s.keys key moved key).key.request _ = some request
          rw [update_self]
          exact isRq
        exact ⟨request, isNew, evolves.new _ request isRq unused⟩
      · exact wired.queued_of_key evolves rfl wasThere nofun
    have kept : next.Listed := by
      apply listed_update lists rfl queued
      · exact nodup_cons.mpr ⟨fresh memq, lists.nodup memq⟩
      intro rq mem queue inQueue
      rcases mem_cons.mp mem with rfl | wasThere
      · exact absurd inQueue (fresh queue)
      · exact lists.once queue memq rq inQueue wasThere
    apply wired.of_key evolves sound rfl rfl kept rfl rfl rfl rfl rfl rfl _ nofun
    intro queue isListed
    have apart : queue ≠ memq := by
      rintro rfl
      exact nomatch filling.symm.trans isListed
    exact update_of_ne apart ..

theorem ioschedCmd (wired : s.Wired) {cpu : Nat}
    (taken : s.ioschedCmd cpu key cmd = some next) :
    Proceeds s next (fun _ => False) :=
  wired.accept (wired.places.active cpu _ _ (Nat.le_refl _)) taken

theorem multiIoschedCmd (wired : s.Wired) {call : Nat}
    (taken : s.multiIoschedCmd call key cmd = some next) :
    Proceeds s next (fun _ => False) := by
  unfold IoSched.multiIoschedCmd at taken
  split at taken
  next filling =>
    let chosen : IoSched K V := { s with
      batchDaemon := update s.batchDaemon call (some ((s.batchDaemon call).getD
          (if cmd.isWrite then .batchWrite else .batchRead))) }
    have chosenWired : chosen.Wired := ⟨wired.sound, wired.lists.congr rfl rfl, wired.places⟩
    have accepted := chosenWired.accept filling taken
    exact ⟨accepted.wired, ⟨accepted.moves.keys, accepted.moves.queues, accepted.moves.touched⟩,
      accepted.flush, accepted.flushes⟩
  next => cases taken

theorem submit (wired : s.Wired) {daemon : Daemon}
    (taken : s.submit daemon = some next) : Proceeds s next (fun _ => False) := by
  obtain ⟨memq, isSubmitting, moves⟩ := Option.bind_eq_some_iff.mp taken
  have isPlace := wired.places.submitting daemon memq isSubmitting
  have lists := wired.lists
  split at moves
  next =>
    cases moves
    exact .of_queues wired ⟨rfl, rfl, rfl, rfl, rfl⟩ wired.places.release
      fun queue isListed => Or.inl isListed
  next rq rest isList =>
    obtain ⟨moved, submits, rfl⟩ := Option.map_eq_some_iff.mp moves
    obtain ⟨evolves, sound⟩ := CarriedKey.step_evolves (wired.sound rq.1) submits
    let next : IoSched K V := { s.setKey rq.1 moved with
      rqs := update s.rqs memq rest }
    have nodup := lists.nodup memq
    rw [isList, nodup_cons] at nodup
    have isHead : rq ∈ s.rqs memq := by
      rw [isList]
      exact mem_cons_self
    -- The submitted request is nowhere else.
    have others : ∀ queue other, other ∈ next.rqs queue → other ∈ s.rqs queue ∧ other ≠ rq := by
      intro queue other mem
      by_cases same : queue = memq
      · subst same
        have inRest : other ∈ rest := by simpa [next] using mem
        constructor
        · rw [isList]
          exact mem_cons_of_mem _ inRest
        rintro rfl
        exact nodup.1 inRest
      have wasThere : other ∈ s.rqs queue := by
        simpa [next, update_of_ne same] using mem
      refine ⟨wasThere, ?_⟩
      rintro rfl
      exact same (lists.once queue memq other wasThere isHead)
    have kept : next.Listed := by
      apply listed_update lists rfl _ nodup.2
      · intro other inRest queue inQueue
        apply lists.once queue memq other inQueue
        rw [isList]
        exact mem_cons_of_mem _ inRest
      intro queue other mem
      obtain ⟨wasThere, notSubmitted⟩ := others queue other mem
      apply wired.queued_of_key evolves rfl wasThere
      intro sameKey sameIndex
      exact notSubmitted (Prod.ext sameKey (Option.some.inj sameIndex).symm)
    apply wired.of_key evolves sound rfl rfl kept rfl rfl rfl rfl rfl rfl _ nofun
    intro queue isListed
    have apart : queue ≠ memq := by
      rintro rfl
      exact nomatch isPlace.symm.trans isListed
    exact update_of_ne apart ..

end Wired

namespace Waiting

section

variable (waiting : s.Waiting)

include waiting

/-- A flush that begins or goes on leaves the keys and the queues alone. -/
theorem update_flush {index flushes : Nat} {flush : Flush K} (noted : s.Noted flush)
    (inside : index < flushes) (grows : s.flushes ≤ flushes) :
    { s with
      flush := Function.update s.flush index (some flush), flushes := flushes }.Waiting := by
  have moves : Moves s { s with
      flush := Function.update s.flush index (some flush), flushes := flushes }
      (fun _ => False) := by
    refine ⟨fun other => ?_, fun memq isListed => Or.inl ⟨isListed, rfl⟩, fun _ => id⟩
    exact ⟨none, none, CarriedKey.Evolves.of_eq rfl fun _ => id, nofun⟩
  constructor
  · exact ⟨waiting.wired.sound, waiting.wired.lists.congr rfl rfl, waiting.wired.places⟩
  · intro i other isOther
    rcases KeyState.update_eq_some isOther with ⟨rfl, -⟩ | ⟨-, isSame⟩
    · exact inside
    · exact (waiting.known i other isSame).trans_le grows
  intro i other isOther
  rcases KeyState.update_eq_some isOther with ⟨rfl, rfl⟩ | ⟨-, isSame⟩
  · exact moves.noted waiting.wired nofun noted
  · exact moves.noted waiting.wired nofun (waiting.noted i other isSame)

theorem beginFlush [DecidableEq K] (key : Option K) : (s.beginFlush key).Waiting := by
  apply waiting.update_flush _ (Nat.lt_succ_self _) (Nat.le_succ _)
  let pre := s.pendingWrites.filter fun rq => key.all fun key => decide (rq.1 = key)
  have pends : ∀ rq ∈ pre, rq.1 ∈ s.touched ∧ ∃ request, s.request rq = some request := by
    intro rq mem
    have inAll := (mem_filter.mp mem).1
    obtain ⟨touched, isTouched, inKey⟩ := mem_flatMap.mp inAll
    obtain ⟨made, isWrite⟩ := mem_filter.mp inKey
    obtain ⟨i, -, rfl⟩ := mem_map.mp made
    refine ⟨isTouched, ?_⟩
    cases isRq : s.request (touched, i) with
    | none => simp [isRq] at isWrite
    | some request => exact ⟨request, rfl⟩
  refine ⟨fun rq mem => (pends rq mem).1, fun rq mem => (pends rq mem).2, ?_, trivial⟩
  rintro chosen rfl rq mem
  simpa using (mem_filter.mp mem).2

variable {flush : Flush K}

theorem setPhase {i : Nat} {phase : FlushPhase K} (isFlush : s.flush i = some flush)
    (progress : s.Progress { flush with phase := phase }) :
    (s.setPhase i flush phase).Waiting := by
  have noted := waiting.noted i flush isFlush
  apply waiting.update_flush _ (waiting.known i flush isFlush) (Nat.le_refl _)
  exact ⟨noted.touched, noted.made, noted.ofKey, progress⟩

end

variable {flush : Flush K} {rq : K × Nat} [DecidableEq K]

omit [DecidableEq K] in
theorem located (waiting : s.Waiting) (noted : s.Noted flush)
    (uncarried : s.Uncarried flush.before) (mem : rq ∈ flush.before) :
    s.done rq = true ∨ ∃ hashed, (s.keys rq.1).key.hash = some hashed ∧ (hashed = rq.2 ∨
      ∃ pending, s.request (rq.1, hashed) = some pending ∧ pending.blockingRq = some rq.2) := by
  cases isDone : s.done rq with
  | true => exact .inl rfl
  | false =>
    obtain ⟨_, isRq⟩ := noted.made rq mem
    exact .inr ((waiting.wired.sound rq.1).located isRq isDone (uncarried rq mem))

omit [DecidableEq K] in
theorem afterFind (waiting : s.Waiting) (noted : s.Noted flush)
    (uncarried : s.Uncarried flush.before) :
    s.Progress { flush with phase := FlushPhase.afterFind s flush } := by
  cases isKey : flush.key with
  | some key =>
    cases hashed : (s.keys key).key.hash with
    | none =>
      have phase : FlushPhase.afterFind s flush = .returned := by
        simp only [FlushPhase.afterFind, isKey, hashed]
      rw [phase]
      intro rq mem
      rcases waiting.located noted uncarried mem with isDone | ⟨i, isHashed, -⟩
      · exact isDone
      rw [noted.ofKey key isKey rq mem, hashed] at isHashed
      cases isHashed
    | some i =>
      have phase : FlushPhase.afterFind s flush =
          .scheduling (range s.cpus) (some (key, i)) := by
        simp only [FlushPhase.afterFind, isKey, hashed]
      rw [phase]
      obtain ⟨-, request, isRq, valid, -⟩ := (waiting.wired.sound key).linked.hashed i hashed
      constructor
      · exact ⟨request, isRq⟩
      · exact fun _ => Or.inr ⟨request, isRq, valid⟩
      · intro other mem
        have sameKey := noted.ofKey key isKey other mem
        rcases waiting.located noted uncarried mem with isDone | ⟨_, isHashed, same⟩
        · exact .inl isDone
        rw [sameKey, hashed] at isHashed
        cases isHashed
        rcases same with isOther | ⟨pending, pends, link⟩
        · exact .inr (.inl (Prod.ext sameKey isOther.symm))
        refine .inr (.inr ⟨i, pending, ?_, pends, link⟩)
        rw [sameKey]
        exact mem_cons_self
      · refine .inr fun other mem => Or.inl ?_
        exact mem_singleton.mp mem
  | none =>
    by_cases empty : s.nrRq = 0
    · have phase : FlushPhase.afterFind s flush = .returned := by
        simp only [FlushPhase.afterFind, isKey, empty, if_true]
      rw [phase]
      intro rq mem
      rcases waiting.located noted uncarried mem with isDone | ⟨_, isHashed, -⟩
      · exact isDone
      have unhashed := countP_eq_zero.mp empty rq.1 (noted.touched rq mem)
      simp [isHashed] at unhashed
    · have phase : FlushPhase.afterFind s flush = .scheduling (range s.cpus) none := by
        simp [FlushPhase.afterFind, isKey, empty]
      rw [phase]
      trivial

theorem blocks_iff {memq : List (K × Nat)} :
    s.blocks memq rq = true ↔ ∃ i request, (rq.1, i) ∈ memq ∧
      s.request (rq.1, i) = some request ∧ request.blockingRq = some rq.2 := by
  simp only [blocks, any_eq_true, Bool.and_eq_true, decide_eq_true_eq]
  constructor
  · rintro ⟨⟨_, i⟩, mem, rfl, isBlocked⟩
    cases isRq : s.request (rq.1, i) with
    | none => simp [isRq] at isBlocked
    | some request =>
      exact ⟨i, request, mem, isRq, by simpa [isRq] using isBlocked⟩
  rintro ⟨i, _, mem, isRq, link⟩
  exact ⟨(rq.1, i), mem, rfl, by simp [isRq, link]⟩

theorem afterLook (waiting : s.Waiting) (covers : s.Covers flush.before (FlushPhase.afterLook s)) :
    s.Progress { flush with phase := FlushPhase.afterLook s } := by
  cases isLast : (s.mumemqList .write).getLast? with
  | none =>
    have phase : FlushPhase.afterLook s = .returned := by
      simp only [FlushPhase.afterLook, isLast]
    rw [phase] at covers ⊢
    exact covers
  | some memq =>
    cases isRq : (s.rqs memq).getLast? with
    | none =>
      have phase : FlushPhase.afterLook s = .returned := by
        simp only [FlushPhase.afterLook, isLast, isRq]
      rw [phase] at covers ⊢
      exact covers
    | some rq =>
      have phase : FlushPhase.afterLook s = .waiting rq (s.rqs memq) := by
        simp only [FlushPhase.afterLook, isLast, isRq]
      rw [phase] at covers ⊢
      have inQueue : rq ∈ s.rqs memq := mem_of_getLast? isRq
      have isListed := waiting.wired.places.listed .write memq (mem_of_getLast? isLast)
      obtain ⟨request, isRequest, queued⟩ := waiting.wired.lists.queued memq rq inQueue
      constructor
      · exact ⟨request, isRequest⟩
      · intro mem
        rcases covers rq mem with isDone | ⟨-, free⟩ | isBlocking
        · exact .inl isDone
        · cases invalid : request.invalid with
          | false => exact .inr ⟨request, isRequest, invalid⟩
          | true =>
            have isDone := CarriedKey.done_iff.mpr ⟨request, isRequest, Or.inr ⟨invalid, free⟩⟩
            exact .inl isDone
        -- A request that blocks another one is no longer in a queue.
        obtain ⟨i, pending, -, pends, link⟩ := blocks_iff.mp isBlocking
        have linked := (waiting.wired.sound rq.1).linked
        obtain ⟨-, -, blocker, isBlocker, blocking⟩ :=
          linked.blocked i pending rq.2 pends link
        have inFlight := (linked.blocks rq.2 blocker isBlocker blocking).1
        have isSame : (s.keys rq.1).key.request rq.2 = some request := isRequest
        rw [isSame] at isBlocker
        cases isBlocker
        simp [queued, Stage.inFlight] at inFlight
      · intro other mem
        rcases covers other mem with isDone | ⟨isSame, -⟩ | isBlocking
        · exact .inl isDone
        · exact .inr (.inl isSame)
        · exact .inr (.inr (blocks_iff.mp isBlocking))
      · exact .inl ⟨inQueue, memq, isListed, rfl⟩

omit [DecidableEq K] in
theorem woken_done (waiting : s.Waiting) {pre memq : List (K × Nat)}
    (waits : s.Waits pre rq memq) (woken : s.woken rq = true) :
    ∀ other ∈ pre, s.done other = true := by
  obtain ⟨request, isRq⟩ := waits.made
  have isSame := isRq
  have sound := waiting.wired.sound rq.1
  have finished : request.stage = .completed ∨ request.stage = .dropped := by
    simpa [IoSched.woken, isRq] using woken
  have left : request.stage ≠ .queued := by
    rcases finished with stage | stage <;> simp [stage]
  have free : ∀ other ∈ memq, ∃ request, s.request other = some request ∧
      request.blockingRq = none := by
    have notBlocked : request.blockingRq = none := by
      cases link : request.blockingRq with
      | none => rfl
      | some blocker =>
        exact absurd (sound.linked.blocked rq.2 request blocker isSame link).2.1 left
    rcases waits.held with ⟨inQueue, queue, -, isQueue⟩ | free
    · obtain ⟨_, isFound, queued⟩ := waiting.wired.lists.queued queue rq (isQueue ▸ inQueue)
      rw [isRq] at isFound
      cases isFound
      exact absurd queued left
    intro other mem
    rcases free other mem with rfl | unblocked
    · exact ⟨request, isRq, notBlocked⟩
    · exact unblocked
  intro other mem
  rcases waits.covered other mem with isDone | rfl | ⟨i, _, inQueue, pends, link⟩
  · exact isDone
  · rcases waits.valid mem with isDone | ⟨_, isFound, valid⟩
    · exact isDone
    rw [isRq] at isFound
    cases isFound
    rcases finished with completed | dropped
    · have past : request.stage.past = true := by simp [completed, Stage.past]
      exact CarriedKey.done_iff.mpr ⟨request, isRq, Or.inl past⟩
    have invalid := sound.dropped other.2 request isSame dropped
    simp [valid] at invalid
  · obtain ⟨_, isFound, unblocked⟩ := free (other.1, i) inQueue
    rw [pends] at isFound
    cases isFound
    simp [unblocked] at link

omit [DecidableEq K] in
theorem wake (waiting : s.Waiting) (cpu : Nat) : (s.wake cpu).Waiting := by
  unfold IoSched.wake
  split
  · exact waiting
  · exact (waiting.wired.schedule cpu .write).waiting waiting nofun

omit [DecidableEq K] in
theorem flush_wake (s : IoSched K V) (cpu : Nat) : (s.wake cpu).flush = s.flush := by
  unfold IoSched.wake IoSched.schedule IoSched.enqueue
  split
  · rfl
  dsimp only
  split <;> rfl

theorem advanceFlush (waiting : s.Waiting) {i : Nat} (taken : s.advanceFlush i = some next)
    (covered : s.Covered (.advanceFlush i)) : next.Waiting := by
  obtain ⟨flush, isFlush, moves⟩ := Option.bind_eq_some_iff.mp taken
  have noted := waiting.noted i flush isFlush
  have covers := covered flush isFlush
  cases isPhase : flush.phase with
  | begun =>
    simp only [isPhase, Option.some.injEq] at moves
    simp only [FlushCovers, isPhase] at covers
    rw [← moves]
    exact waiting.setPhase isFlush (waiting.afterFind noted covers)
  | scheduling cpus found =>
    cases cpus with
    | cons cpu =>
      simp only [isPhase, Option.some.injEq] at moves
      rw [← moves]
      have woken := waiting.wake cpu
      have stillFlush : (s.wake cpu).flush i = some flush := by
        rw [flush_wake]
        exact isFlush
      apply woken.setPhase stillFlush
      have progress := (woken.noted i flush stillFlush).progress
      cases found with
      | none => trivial
      | some =>
        simp only [Progress, isPhase] at progress
        exact progress
    | nil =>
      cases found with
      | none =>
        simp only [isPhase, Option.some.injEq] at moves
        simp only [FlushCovers, isPhase] at covers
        rw [← moves]
        exact waiting.setPhase isFlush (waiting.afterLook covers)
      | some =>
        simp only [isPhase, Option.some.injEq] at moves
        rw [← moves]
        have progress := noted.progress
        simp only [Progress, isPhase] at progress
        exact waiting.setPhase isFlush progress
  | waiting =>
    simp only [isPhase] at moves
    split at moves
    next woken =>
      cases moves
      have progress := noted.progress
      simp only [Progress, isPhase] at progress
      exact waiting.setPhase isFlush (waiting.woken_done progress woken)
    next => cases moves
  | returned => simp [isPhase] at moves

theorem step (waiting : s.Waiting) {action : IoSchedStep K V}
    (taken : s.step action = some next) (covered : s.Covered action) : next.Waiting := by
  cases action with
  | ioschedCmd => exact (waiting.wired.ioschedCmd taken).waiting waiting nofun
  | multiIoschedCmd => exact (waiting.wired.multiIoschedCmd taken).waiting waiting nofun
  | queueBatch => exact (waiting.wired.queueBatch taken).waiting waiting nofun
  | schedule cpu type =>
    cases taken
    exact (waiting.wired.schedule cpu type).waiting waiting nofun
  | rotate => exact (waiting.wired.rotate taken).waiting waiting nofun
  | take => exact (waiting.wired.take taken).waiting waiting nofun
  | submit => exact (waiting.wired.submit taken).waiting waiting nofun
  | act key action =>
    apply (waiting.wired.act taken).waiting waiting
    rintro rq ⟨rfl, takesIt⟩
    cases action with
    | driver => cases takesIt
    | takeOver => exact covered rq.2 takesIt
    | carryOut => cases takesIt
  | beginFlush key =>
    cases taken
    exact waiting.beginFlush key
  | advanceFlush => exact waiting.advanceFlush taken covered

end Waiting

variable [DecidableEq K]

/-- In every run in which the looks of the flushes cover what they have to wait for, every flush
that has returned finds the writes before it done. -/
theorem flushes_wait (cpus : Nat) (initial : K → Option V) (steps : List (IoSchedStep K V))
    (covered : Run.AllMeet IoSched.step Covered steps (start cpus initial)) :
    Run.AllHold IoSched.step Flushed steps (start cpus initial) := by
  apply Run.allHold_of_allMeet Waiting _ _ (waiting_start cpus initial) covered
  · intro _ waiting
    exact waiting.flushed
  intro _ _ _ waiting taken met
  exact waiting.step taken met

/-- A flush without a key waits for the only put; then a flush with a key waits for a delete behind
another put. -/
def putsThenFlushes : List (IoSchedStep Nat Nat) :=
  [.ioschedCmd 0 7 (.store 5), .beginFlush none, .advanceFlush 0, .advanceFlush 0, .advanceFlush 0,
    .take .write, .submit .write, .act 7 (.driver (.execute 0)), .act 7 (.driver (.hashDelete 0)),
    .act 7 (.driver (.complete 0)), .advanceFlush 0, .submit .write, .ioschedCmd 0 7 (.store 6),
    .schedule 0 .write, .take .write, .submit .write, .ioschedCmd 0 7 .delete,
    .beginFlush (some 7), .advanceFlush 1, .advanceFlush 1, .advanceFlush 1,
    .act 7 (.driver (.execute 1)), .act 7 (.driver (.hashDelete 1)),
    .act 7 (.driver (.complete 1)), .submit .write, .take .write, .submit .write,
    .act 7 (.driver (.execute 2)), .act 7 (.driver (.hashDelete 2)),
    .act 7 (.driver (.complete 2)), .advanceFlush 1]

theorem putsThenFlushes_wait :
    Run.AllMeet IoSched.step Covered putsThenFlushes (start 1 fun _ => none) ∧
      ((Run.exec IoSched.step putsThenFlushes (start 1 fun _ => none)).map fun s =>
        (s.flush 0, s.flush 1)) =
          some (some { key := none, before := [(7, 0)], phase := .returned },
            some { key := some 7, before := [(7, 1), (7, 2)], phase := .returned }) ∧
      Run.AllHold IoSched.step Flushed putsThenFlushes (start 1 fun _ => none) := by
  have covered : Run.AllMeet IoSched.step Covered putsThenFlushes (start 1 fun _ => none) := by
    decide +kernel
  refine ⟨covered, ?_, flushes_wait 1 _ _ covered⟩
  decide +kernel

/-- A put at the device is not done yet.  A flush without a key finds the list of the write
daemon empty and returns at once. -/
theorem flush_returns_before_put : ¬ Run.AllHold IoSched.step Flushed
      [.ioschedCmd 0 7 (.store 5), .schedule 0 .write, .take .write, .submit .write,
        .beginFlush none, .advanceFlush 0, .advanceFlush 0, .advanceFlush 0]
      (start 1 fun _ : Nat => (none : Option Nat)) := by
  intro all
  have returned : ((Run.exec IoSched.step
      [.ioschedCmd 0 7 (.store 5), .schedule 0 .write, .take .write, .submit .write,
        .beginFlush none, .advanceFlush 0, .advanceFlush 0, .advanceFlush 0]
      (start 1 fun _ : Nat => (none : Option Nat))).map fun s =>
        (s.flush 0, s.done (7, 0))) =
          some (some { key := none, before := [(7, 0)], phase := .returned }, false) := by
    decide +kernel
  obtain ⟨_, runs, observed⟩ := Option.map_eq_some_iff.mp returned
  obtain ⟨isFlush, undone⟩ := Prod.mk.inj observed
  have isDone := all.final runs 0 _ isFlush rfl (7, 0) (by simp)
  simp [undone] at isDone

end IoSched

end InsDb.Driver
