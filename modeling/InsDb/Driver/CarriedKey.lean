import InsDb.Driver.KeyVersions

/-!
# A key whose requests may be taken over

A synchronous get takes a queued write out of the request hash and carries it to the device
itself.  Next to the steps of the driver, a key then has a step that takes a request over and one
that carries its write out.  A request is done once the device has executed its command.
-/

namespace InsDb.Driver

open InsDb.Library Function

variable {V : Type}

def Stage.past : Stage → Bool
  | .executed => true
  | .unhashed => true
  | .completed => true
  | _ => false

structure CarriedKey (V : Type) where
  key : KeyState V
  -- The requests whose write a synchronous get has taken over and not carried out.
  carried : List Nat := []

inductive KeyAction (V : Type) where
  | driver (step : KeyStep V)
  | takeOver
  | carryOut (index : Nat)
deriving DecidableEq, Repr

namespace CarriedKey

variable (s : CarriedKey V)

def done (index : Nat) : Bool :=
  match s.key.request index with
  | none => false
  | some rq => rq.stage.past || (rq.invalid && decide (index ∉ s.carried))

def takeOver : Option (CarriedKey V) :=
  match s.key.hash, s.key.findAndLock with
  | some index, some (.buffered rq, key) =>
    some {
      key := key
      carried := if rq.command.isWrite then index :: s.carried else s.carried }
  | _, _ => none

def carryOut (index : Nat) : Option (CarriedKey V) :=
  if index ∈ s.carried then
    (s.key.request index).map fun rq =>
      { key := { s.key with device := rq.run s.key.device }
        carried := s.carried.erase index }
  else
    none

def step (s : CarriedKey V) : KeyAction V → Option (CarriedKey V)
  | .driver step => (s.key.step step).map fun key => { s with key := key }
  | .takeOver => s.takeOver
  | .carryOut index => s.carryOut index

end CarriedKey

namespace KeyAction

def submits : KeyAction V → Option Nat
  | .driver (.submit index) => some index
  | _ => none

def takes (s : CarriedKey V) : KeyAction V → Option Nat
  | .takeOver => s.key.hash
  | _ => none

end KeyAction

structure Follows (next : KeyState V) (submitted taken : Prop)
    (rq after : AsyncRequest V) : Prop where
  past : rq.stage.past = true → after.stage.past = true
  invalid : rq.invalid = true → after.invalid = true
  queued : rq.stage = .queued → ¬ submitted → after.stage = .queued
  valid : rq.invalid = false → ¬ taken → after.invalid = false
  taken : taken → after.invalid = true
  dropped : after.stage = .dropped → rq.stage = .dropped ∨ after.invalid = true
  unblocked : rq.blockingRq = none → after.blockingRq = none
  -- A request stops being blocked when its blocker has completed.
  blocked : ∀ j, rq.blockingRq = some j → after.blockingRq = some j ∨
    ∃ blocker, next.request j = some blocker ∧ blocker.stage.past = true

theorem Follows.moved {next : KeyState V} {submitted taken : Prop}
    {rq post : AsyncRequest V} (untaken : ¬ taken)
    (past : rq.stage.past = true → post.stage.past = true)
    (queued : rq.stage = .queued → ¬ submitted → post.stage = .queued)
    (dropped : post.stage = .dropped → rq.stage = .dropped ∨ post.invalid = true)
    (sameInvalid : post.invalid = rq.invalid) (sameLink : post.blockingRq = rq.blockingRq) :
    Follows next submitted taken rq post where
  past := past
  invalid := fun invalid => sameInvalid.trans invalid
  queued := queued
  valid := fun valid _ => sameInvalid.trans valid
  taken := fun taken => absurd taken untaken
  dropped := dropped
  unblocked := fun unblocked => sameLink.trans unblocked
  blocked := fun _ blocked => Or.inl (sameLink.trans blocked)

theorem Follows.same {next : KeyState V} {submitted taken : Prop}
    {rq post : AsyncRequest V} (untaken : ¬ taken) (sameStage : post.stage = rq.stage)
    (sameInvalid : post.invalid = rq.invalid) (sameLink : post.blockingRq = rq.blockingRq) :
    Follows next submitted taken rq post := by
  apply Follows.moved untaken _ _ _ sameInvalid sameLink
  · rw [sameStage]
    exact id
  · intro queued _
    exact sameStage.trans queued
  rw [sameStage]
  exact .inl

namespace CarriedKey

structure Sound (s : CarriedKey V) : Prop where
  linked : s.key.Linked
  dropped : ∀ i rq, s.key.request i = some rq → rq.stage = .dropped → rq.invalid = true
  carried : ∀ i ∈ s.carried, ∃ rq, s.key.request i = some rq ∧ rq.invalid = true
  nodup : s.carried.Nodup

theorem sound_start (initial : Option V) :
    Sound ({ key := KeyState.start initial } : CarriedKey V) where
  linked := KeyState.Linked.start initial
  dropped := by
    intro _ _ isRq
    cases isRq
  carried := by simp
  nodup := List.nodup_nil

structure Evolves (s next : CarriedKey V) (submits takes : Option Nat) : Prop where
  request : ∀ i rq, s.key.request i = some rq → ∃ after, next.key.request i = some after ∧
    Follows next.key (submits = some i) (takes = some i) rq after
  -- A request that was not there is queued and valid.
  new : ∀ i after, next.key.request i = some after → s.key.request i = none →
    after.stage = .queued
  hashed : ∀ i, takes = some i → s.key.hash = some i
  carried : ∀ i ∈ next.carried, i ∈ s.carried ∨ takes = some i

variable {s next : CarriedKey V}

variable {index : Nat}

theorem done_iff : s.done index = true ↔ ∃ rq, s.key.request index = some rq ∧
      (rq.stage.past = true ∨ (rq.invalid = true ∧ index ∉ s.carried)) := by
  unfold done
  cases isRq : s.key.request index with
  | none => simp
  | some => simp

variable {submits takes : Option Nat}

theorem Evolves.done (evolves : Evolves s next submits takes) (sound : s.Sound)
    (isDone : s.done index = true) :
    next.done index = true := by
  obtain ⟨rq, isRq, past | ⟨invalid, free⟩⟩ := done_iff.mp isDone
  · obtain ⟨post, isAfter, follows⟩ := evolves.request index rq isRq
    exact done_iff.mpr ⟨post, isAfter, Or.inl (follows.past past)⟩
  obtain ⟨post, isAfter, follows⟩ := evolves.request index rq isRq
  refine done_iff.mpr ⟨post, isAfter, Or.inr ⟨follows.invalid invalid, ?_⟩⟩
  intro carried
  rcases evolves.carried index carried with pre | taken
  · exact free pre
  have hashed := evolves.hashed index taken
  have valid := (sound.linked.hashed_request isRq hashed).1
  simp [invalid] at valid

theorem Sound.located (sound : s.Sound) {rq : AsyncRequest V}
    (isRq : s.key.request index = some rq) (undone : s.done index = false)
    (free : index ∉ s.carried) :
    ∃ hashed, s.key.hash = some hashed ∧ (hashed = index ∨
      ∃ pending, s.key.request hashed = some pending ∧ pending.blockingRq = some index) := by
  simp only [done, isRq, free, not_false_eq_true, decide_true, Bool.and_true,
    Bool.or_eq_false_iff] at undone
  obtain ⟨notPast, valid⟩ := undone
  have atDevice := sound.linked.atDevice index rq isRq
  cases stage : rq.stage with
  | queued => exact ⟨index, sound.linked.queued index rq isRq stage valid, Or.inl rfl⟩
  | submitted =>
    rcases atDevice (Or.inl stage) with hashed | blocking
    · exact ⟨index, hashed, Or.inl rfl⟩
    obtain ⟨-, j, pending, hashed, pends, -, link⟩ :=
      sound.linked.blocks index rq isRq blocking
    exact ⟨j, hashed, Or.inr ⟨pending, pends, link⟩⟩
  | executed => simp [stage, Stage.past] at notPast
  | unhashed => simp [stage, Stage.past] at notPast
  | completed => simp [stage, Stage.past] at notPast
  | dropped =>
    have invalid := sound.dropped index rq isRq stage
    simp [invalid] at valid

theorem Evolves.sound (evolves : Evolves s next submits takes) (sound : s.Sound)
    (linked : next.key.Linked) (nodup : next.carried.Nodup) :
    next.Sound where
  linked := linked
  dropped := by
    intro i post isAfter isDropped
    cases isRq : s.key.request i with
    | none =>
      have queued := evolves.new i post isAfter isRq
      simp [queued] at isDropped
    | some rq =>
      obtain ⟨_, isFound, follows⟩ := evolves.request i rq isRq
      rw [isAfter] at isFound
      cases isFound
      rcases follows.dropped isDropped with pre | invalid
      · exact follows.invalid (sound.dropped i rq isRq pre)
      · exact invalid
  carried := by
    intro i carried
    rcases evolves.carried i carried with pre | taken
    · obtain ⟨rq, isRq, invalid⟩ := sound.carried i pre
      obtain ⟨post, isAfter, follows⟩ := evolves.request i rq isRq
      exact ⟨post, isAfter, follows.invalid invalid⟩
    obtain ⟨-, rq, isRq, -⟩ := sound.linked.hashed i (evolves.hashed i taken)
    obtain ⟨post, isAfter, follows⟩ := evolves.request i rq isRq
    exact ⟨post, isAfter, follows.taken taken⟩
  nodup := nodup

theorem Evolves.of_eq (requests : next.key.request = s.key.request)
    (carried : ∀ i ∈ next.carried, i ∈ s.carried) : Evolves s next none none where
  request := by
    intro i rq isRq
    exact ⟨rq, requests ▸ isRq, Follows.same nofun rfl rfl rfl⟩
  new := by
    intro i _ isAfter isNone
    rw [requests, isNone] at isAfter
    cases isAfter
  hashed := nofun
  carried := fun i mem => Or.inl (carried i mem)

theorem Evolves.update {rq post : AsyncRequest V}
    (isRq : s.key.request index = some rq)
    (requests : next.key.request = Function.update s.key.request index (some post))
    (follows : Follows next.key (submits = some index) (takes = some index) rq post)
    (only : ∀ i, takes = some i → i = index)
    (hashed : ∀ i, takes = some i → s.key.hash = some i)
    (carried : ∀ i ∈ next.carried, i ∈ s.carried ∨ takes = some i) :
    Evolves s next submits takes where
  request := by
    intro i other isOther
    rw [requests]
    by_cases same : i = index
    · subst same
      rw [isRq] at isOther
      cases isOther
      exact ⟨post, update_self .., follows⟩
    refine ⟨other, (update_of_ne same ..).trans isOther, ?_⟩
    exact Follows.same (fun taken => same (only i taken)) rfl rfl rfl
  new := by
    intro _ _ isOther isNone
    rw [requests] at isOther
    rcases KeyState.update_eq_some isOther with ⟨rfl, -⟩ | ⟨-, isSame⟩
    · exact nomatch isNone.symm.trans isRq
    · exact nomatch isNone.symm.trans isSame
  hashed := hashed
  carried := carried

theorem Evolves.add {between : CarriedKey V} (evolves : Evolves s between none none)
    {new : AsyncRequest V} (queued : new.stage = .queued)
    (unused : between.key.request index = none)
    (requests : next.key.request = Function.update between.key.request index (some new))
    (carried : next.carried = between.carried) : Evolves s next none none where
  request := by
    intro i rq isRq
    obtain ⟨post, isAfter, follows⟩ := evolves.request i rq isRq
    have kept : ∀ {j other}, between.key.request j = some other →
        next.key.request j = some other := by
      intro j _ isOther
      have apart : j ≠ index := by
        rintro rfl
        exact nomatch unused.symm.trans isOther
      rw [requests]
      exact (update_of_ne apart ..).trans isOther
    refine ⟨post, kept isAfter, { follows with blocked := ?_ }⟩
    intro j link
    rcases follows.blocked j link with still | ⟨blocker, isBlocker, past⟩
    · exact .inl still
    · exact .inr ⟨blocker, kept isBlocker, past⟩
  new := by
    intro i post isAfter isNone
    rw [requests] at isAfter
    rcases KeyState.update_eq_some isAfter with ⟨-, rfl⟩ | ⟨-, isSame⟩
    · exact queued
    · exact evolves.new i post isSame isNone
  hashed := nofun
  carried := by
    rw [carried]
    exact evolves.carried

variable {key : KeyState V}

theorem evolves_ioschedCmd (linked : s.key.Linked) {cmd : KvCommand V}
    (taken : s.key.ioschedCmd cmd = some key) :
    Evolves s { s with key := key } none none := by
  have unused := linked.unused s.key.created (Nat.le_refl _)
  have refl : Evolves s s none none := Evolves.of_eq rfl fun _ => id
  cases KeyState.accepts_of_ioschedCmd taken with
  | fresh => exact refl.add rfl unused rfl rfl
  | behind index buffered hashed isBuffered =>
    let marked : CarriedKey V :=
      { s with key := s.key.setRequest index { buffered with blocking := true } }
    have marks : Evolves s marked none none := by
      have same : Follows marked.key (none = some index) (none = some index) buffered
          { buffered with blocking := true } := Follows.same nofun rfl rfl rfl
      exact Evolves.update isBuffered rfl same nofun nofun fun _ => Or.inl
    have newest := (linked.hashed index hashed).1
    have apart : s.key.created ≠ index := by omega
    have stillUnused : marked.key.request s.key.created = none :=
      (update_of_ne apart ..).trans unused
    exact marks.add rfl stillUnused rfl rfl
  | replacing index buffered hashed isBuffered =>
    let next : CarriedKey V := { s with key := s.key.replace index buffered cmd }
    have same : Follows next.key (none = some index) (none = some index) buffered
        { buffered with command := cmd, ticket := s.key.nextTicket } :=
      Follows.same nofun rfl rfl rfl
    exact Evolves.update isBuffered rfl same nofun nofun fun _ => Or.inl
  | ignored => exact Evolves.of_eq rfl fun _ => id

theorem created_ioschedCmd {cmd : KvCommand V}
    (taken : s.step (.driver (.ioschedCmd cmd)) = some next)
    (more : next.key.created ≠ s.key.created) :
    ∃ rq, next.key.request s.key.created = some rq := by
  obtain ⟨_, moves, rfl⟩ := Option.map_eq_some_iff.mp taken
  cases KeyState.accepts_of_ioschedCmd moves with
  | fresh => exact ⟨_, update_self ..⟩
  | behind => exact ⟨_, update_self ..⟩
  | replacing => exact absurd rfl more
  | ignored => exact absurd rfl more

theorem evolves_submit (taken : s.key.submit index = some key) :
    Evolves s { s with key := key } (some index) none := by
  obtain ⟨rq, isRq, queued, -, rfl⟩ := KeyState.submit_cases taken
  have moved : Follows (s.key.setRequest index rq.submitted) (some index = some index)
      (none = some index) rq rq.submitted := by
    apply Follows.moved
    · simp
    · simp [queued, Stage.past]
    · intro _ notSubmitted
      exact absurd rfl notSubmitted
    · intro dropped
      cases invalid : rq.invalid with
      | true => exact .inr invalid
      | false => simp [AsyncRequest.submitted, invalid] at dropped
    · rfl
    · rfl
  exact Evolves.update isRq rfl moved (by simp) (by simp) fun _ => Or.inl

theorem evolves_execute (taken : s.key.execute index = some key) :
    Evolves s { s with key := key } none none := by
  obtain ⟨rq, isRq, submitted, isKey⟩ := KeyState.execute_cases taken
  have moved : Follows key (none = some index) (none = some index) rq
      (rq.executed s.key.device) := by
    apply Follows.moved
    · simp
    · simp [submitted, Stage.past]
    · simp [submitted]
    · simp [AsyncRequest.executed]
    · rfl
    · rfl
  subst isKey
  exact Evolves.update isRq rfl moved (by simp) (by simp) fun _ => Or.inl

theorem evolves_hashDelete (taken : s.key.hashDelete index = some key) :
    Evolves s { s with key := key } none none := by
  obtain ⟨rq, isRq, executed, isKey⟩ := KeyState.hashDelete_cases taken
  have moved : Follows key (none = some index) (none = some index) rq
      { rq with stage := .unhashed } := by
    apply Follows.moved
    · simp
    · simp [Stage.past]
    · simp [executed]
    · simp
    · rfl
    · rfl
  subst isKey
  exact Evolves.update isRq rfl moved (by simp) (by simp) fun _ => Or.inl

theorem evolves_complete (linked : s.key.Linked) (taken : s.key.complete index = some key) :
    Evolves s { s with key := key } none none := by
  obtain ⟨rq, isRq, unhashed, blocking⟩ := KeyState.complete_cases taken
  have moved : ∀ {next : KeyState V},
      Follows next (none = some index) (none = some index) rq rq.completed := by
    intro next
    apply Follows.moved
    · simp
    · simp [AsyncRequest.completed, Stage.past]
    · simp [unhashed]
    · simp [AsyncRequest.completed]
    · rfl
    · rfl
  rcases blocking with ⟨blocking, rfl⟩ | ⟨-, rfl⟩
  · obtain ⟨j, pending, -, pends, apart, -, link, unblocked⟩ :=
      linked.unblock_finished isRq blocking
    rw [unblocked]
    let next := (s.key.finished index rq).setRequest j { pending with blockingRq := none }
    have isDone : next.request index = some rq.completed :=
      (update_of_ne apart.symm ..).trans (update_self ..)
    have released : Follows next (none = some j) (none = some j) pending
        { pending with blockingRq := none } := by
      refine ⟨id, id, fun queued _ => queued, fun valid _ => valid, by simp, Or.inl,
        fun _ => rfl, ?_⟩
      intro _ pendingLink
      rw [link] at pendingLink
      cases pendingLink
      exact .inr ⟨rq.completed, isDone, rfl⟩
    constructor
    · intro i other isOther
      by_cases isPendingIndex : i = j
      · subst isPendingIndex
        rw [pends] at isOther
        cases isOther
        exact ⟨_, update_self .., released⟩
      by_cases isIndex : i = index
      · subst isIndex
        rw [isRq] at isOther
        cases isOther
        exact ⟨_, isDone, moved⟩
      have kept : next.request i = some other := (update_of_ne isPendingIndex ..).trans
          ((update_of_ne isIndex ..).trans isOther)
      exact ⟨other, kept, Follows.same (by simp) rfl rfl rfl⟩
    · intro _ _ isAfter isNone
      rcases KeyState.update_eq_some isAfter with ⟨rfl, -⟩ | ⟨-, isFinished⟩
      · simp [pends] at isNone
      rcases KeyState.update_eq_some isFinished with ⟨rfl, -⟩ | ⟨-, isSame⟩
      · simp [isRq] at isNone
      · simp [isSame] at isNone
    · simp
    · exact fun _ => Or.inl
  · exact Evolves.update isRq rfl moved (by simp) (by simp) fun _ => Or.inl

theorem takeOver_cases (taken : s.takeOver = some next) :
    ∃ index rq, s.key.hash = some index ∧ s.key.request index = some rq ∧
      rq.stage.inFlight = false ∧ rq.blockingRq = none ∧
      next = { key := s.key.takeOver index rq
               carried := if rq.command.isWrite then index :: s.carried
                 else s.carried } := by
  unfold takeOver at taken
  split at taken
  next index found key hashed finds =>
    cases KeyState.finds_of_findAndLock finds with
    | buffered i _ isHashed isRq waits unblocked =>
      rw [hashed] at isHashed
      cases isHashed
      exact ⟨index, found, hashed, isRq, waits, unblocked, (Option.some.inj taken).symm⟩
  next => cases taken

theorem evolves_takeOver (taken : s.takeOver = some next) :
    Evolves s next none s.key.hash := by
  obtain ⟨index, rq, hashed, isRq, _, _, rfl⟩ := takeOver_cases taken
  rw [hashed]
  have follows : Follows (s.key.takeOver index rq) (none = some index)
      (some index = some index) rq { rq with invalid := true } := by
    refine ⟨id, fun _ => rfl, fun queued _ => queued, ?_, fun _ => rfl, Or.inl, id, fun _ => Or.inl⟩
    intro _ untaken
    exact absurd rfl untaken
  apply Evolves.update isRq rfl follows
  · rintro i ⟨⟩
    rfl
  · rintro i ⟨⟩
    exact hashed
  intro i mem
  split at mem
  · rcases List.mem_cons.mp mem with rfl | pre
    · exact .inr rfl
    · exact .inl pre
  · exact .inl mem

theorem sound_takeOver (sound : s.Sound) (taken : s.takeOver = some next) : next.Sound := by
  have evolves := evolves_takeOver taken
  obtain ⟨index, rq, hashed, isRq, waits, unblocked, rfl⟩ := takeOver_cases taken
  apply evolves.sound sound
  · exact KeyState.Tracked.linked_takeOver sound.linked hashed isRq waits unblocked
  split
  · apply List.nodup_cons.mpr
    refine ⟨?_, sound.nodup⟩
    intro carried
    obtain ⟨_, isOther, invalid⟩ := sound.carried index carried
    have valid := (sound.linked.hashed_request isOther hashed).1
    simp [invalid] at valid
  · exact sound.nodup

theorem carryOut_cases (taken : s.carryOut index = some next) :
    ∃ rq, s.key.request index = some rq ∧
      next = { key := { s.key with device := rq.run s.key.device }
               carried := s.carried.erase index } := by
  unfold carryOut at taken
  split at taken
  next =>
    obtain ⟨rq, isRq, isNext⟩ := Option.map_eq_some_iff.mp taken
    exact ⟨rq, isRq, isNext.symm⟩
  next => cases taken

theorem step_evolves (sound : s.Sound) {action : KeyAction V}
    (taken : s.step action = some next) :
    Evolves s next action.submits (action.takes s) ∧ next.Sound := by
  cases action with
  | driver step =>
    obtain ⟨key, moves, rfl⟩ := Option.map_eq_some_iff.mp taken
    have linked := sound.linked.step moves
    have evolves : Evolves s { s with key := key } (KeyAction.driver step).submits
        none := by
      cases step with
      | ioschedCmd => exact evolves_ioschedCmd sound.linked moves
      | findInReadahead =>
        have isKey := KeyState.findInReadahead_cases moves
        subst isKey
        exact Evolves.of_eq rfl fun _ => id
      | submit => exact evolves_submit moves
      | execute => exact evolves_execute moves
      | hashDelete => exact evolves_hashDelete moves
      | complete => exact evolves_complete sound.linked moves
      | dropReadahead =>
        cases moves
        exact Evolves.of_eq rfl fun _ => id
    exact ⟨evolves, evolves.sound sound linked sound.nodup⟩
  | takeOver => exact ⟨evolves_takeOver taken, sound_takeOver sound taken⟩
  | carryOut index =>
    obtain ⟨rq, _, rfl⟩ := carryOut_cases taken
    have evolves : Evolves s
        { key := { s.key with device := rq.run s.key.device }
          carried := s.carried.erase index } none none :=
      Evolves.of_eq rfl fun i mem => List.mem_of_mem_erase mem
    have linked : ({ s.key with device := rq.run s.key.device } :
        KeyState V).Linked := sound.linked.congr rfl rfl rfl
    exact ⟨evolves, evolves.sound sound linked (sound.nodup.erase index)⟩

end CarriedKey

end InsDb.Driver
