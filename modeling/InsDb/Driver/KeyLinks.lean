import InsDb.Driver.KeyQueue

/-!
# How the requests of a key hang together

The request in the hash is the newest one.  Every request that waits is the one in the hash,
and every request at the device is the one in the hash or the one that blocks it.
-/

namespace InsDb.Driver

open InsDb.Library Function Option

variable {V : Type}

def Stage.AtDevice (stage : Stage) : Prop :=
  stage = .submitted ∨ stage = .executed

instance (stage : Stage) : Decidable stage.AtDevice := by
  unfold Stage.AtDevice
  infer_instance

theorem Stage.AtDevice.inFlight {stage : Stage} (atDevice : stage.AtDevice) :
    stage.inFlight = true := by
  rcases atDevice with rfl | rfl <;> rfl

namespace KeyState

/-- The invariant of the hash, the stages and the links between requests. -/
@[mk_iff linked_def]
structure Linked (s : KeyState V) : Prop where
  unused : ∀ i, s.created ≤ i → s.request i = none
  hashed : ∀ i, s.hash = some i → i + 1 = s.created ∧
    ∃ rq, s.request i = some rq ∧ rq.invalid = false ∧ rq.blocking = false ∧
      (rq.stage = .queued ∨ rq.stage.AtDevice)
  queued : ∀ i rq, s.request i = some rq → rq.stage = .queued → rq.invalid = false →
    s.hash = some i
  atDevice : ∀ i rq, s.request i = some rq → rq.stage.AtDevice →
    s.hash = some i ∨ rq.blocking = true
  blocks : ∀ i rq, s.request i = some rq → rq.blocking = true →
    rq.stage.inFlight = true ∧ ∃ j pending, s.hash = some j ∧
      s.request j = some pending ∧ pending.stage = .queued ∧ pending.blockingRq = some i
  blocked : ∀ i rq j, s.request i = some rq → rq.blockingRq = some j →
    s.hash = some i ∧ rq.stage = .queued ∧
      ∃ blocker, s.request j = some blocker ∧ blocker.blocking = true

namespace Linked

variable {s : KeyState V}

section

variable (linked : s.Linked) {i : Nat} {rq : AsyncRequest V}
  (isRq : s.request i = some rq)

include linked isRq

theorem hashed_request (hashed : s.hash = some i) :
    rq.invalid = false ∧ rq.blocking = false ∧ (rq.stage = .queued ∨ rq.stage.AtDevice) := by
  obtain ⟨-, _, isFound, facts⟩ := linked.hashed i hashed
  rw [isRq] at isFound
  exact some.inj isFound ▸ facts

theorem atDevice_of_inFlight (hashed : s.hash = some i) (inFlight : rq.stage.inFlight = true) :
    rq.stage.AtDevice := by
  rcases (linked.hashed_request isRq hashed).2.2 with queued | atDevice
  · simp [queued, Stage.inFlight] at inFlight
  · exact atDevice

theorem queued_of_waits (hashed : s.hash = some i) (waits : rq.stage.inFlight = false) :
    rq.stage = .queued := by
  rcases (linked.hashed_request isRq hashed).2.2 with queued | atDevice
  · exact queued
  · simp [atDevice.inFlight] at waits

theorem not_hashed (unhashed : rq.stage = .unhashed) : s.hash ≠ some i := by
  intro hashed
  have atDevice := linked.atDevice_of_inFlight isRq hashed (by simp [unhashed, Stage.inFlight])
  simp [Stage.AtDevice, unhashed] at atDevice

theorem blocked_request (blocking : rq.blocking = true) :
    ∃ j pending, s.hash = some j ∧ s.request j = some pending ∧ j ≠ i ∧
      pending.stage = .queued ∧ pending.blockingRq = some i := by
  obtain ⟨inFlight, j, pending, hashed, pends, queued, link⟩ := linked.blocks i rq isRq blocking
  refine ⟨j, pending, hashed, pends, ?_, queued, link⟩
  rintro rfl
  rw [isRq] at pends
  cases pends
  simp [queued, Stage.inFlight] at inFlight

end

theorem atDevice_unique (linked : s.Linked) {i j : Nat} {rq other : AsyncRequest V}
    (isRq : s.request i = some rq) (isOther : s.request j = some other)
    (atDevice : rq.stage.AtDevice) (otherAtDevice : other.stage.AtDevice) : i = j := by
  have clash : ∀ {k l : Nat} {here there : AsyncRequest V}, s.request k = some here →
      here.stage.AtDevice → s.hash = some k → s.request l = some there →
        there.blocking = true → k = l := by
    intro _ l _ there isHere hereAtDevice hashed isThere blocking
    obtain ⟨-, _, _, alsoHashed, pends, queued, -⟩ := linked.blocks l there isThere blocking
    rw [hashed] at alsoHashed
    rw [← some.inj alsoHashed, isHere] at pends
    rw [← some.inj pends] at queued
    rcases hereAtDevice with stage | stage <;> simp [stage] at queued
  rcases linked.atDevice i rq isRq atDevice with hashed | blocking
  · rcases linked.atDevice j other isOther otherAtDevice with otherHashed | otherBlocking
    · exact some.inj (hashed.symm.trans otherHashed)
    · exact clash isRq atDevice hashed isOther otherBlocking
  rcases linked.atDevice j other isOther otherAtDevice with otherHashed | otherBlocking
  · exact (clash isOther otherAtDevice otherHashed isRq blocking).symm
  obtain ⟨-, _, _, isHashed, pends, -, link⟩ := linked.blocks i rq isRq blocking
  obtain ⟨-, _, _, isHashed', isPending', -, link'⟩ := linked.blocks j other isOther otherBlocking
  rw [isHashed] at isHashed'
  rw [← some.inj isHashed', pends] at isPending'
  rw [← some.inj isPending', link] at link'
  exact some.inj link'

theorem congr (linked : s.Linked) {other : KeyState V}
    (sameRequests : other.request = s.request) (sameHash : other.hash = s.hash)
    (sameCreated : other.created = s.created) : other.Linked := by
  rw [linked_def, sameRequests, sameHash, sameCreated]
  exact (linked_def s).mp linked

end Linked

/-- A change of a request that the hash and the other requests do not notice. -/
structure Unnoticed (s : KeyState V) (index : Nat) (rq new : AsyncRequest V) :
    Prop where
  invalid : new.invalid = rq.invalid
  blocking : new.blocking = rq.blocking
  blockingRq : new.blockingRq = rq.blockingRq
  hashed : s.hash = some index → new.stage = .queued ∨ new.stage.AtDevice
  queued : new.stage = .queued → rq.stage = .queued
  atDevice : new.stage.AtDevice → rq.stage.AtDevice ∨ s.hash = some index
  inFlight : rq.blocking = true → new.stage.inFlight = true
  blocked : rq.blockingRq.isSome = true → new.stage = .queued

theorem update_eq_some {Item : Type} {items : Nat → Option Item} {index i : Nat}
    {new item : Item} (found : Function.update items index (some new) i = some item) :
    (i = index ∧ item = new) ∨ (i ≠ index ∧ items i = some item) := by
  by_cases same : i = index
  · rw [same, update_self] at found
    exact .inl ⟨same, (some.inj found).symm⟩
  rw [update_of_ne same] at found
  exact .inr ⟨same, found⟩

namespace Linked

variable {s : KeyState V}

variable {index : Nat} {rq new : AsyncRequest V}

section

variable (linked : s.Linked)

include linked

theorem setRequest (isRq : s.request index = some rq) (unseen : Unnoticed s index rq new) :
    (s.setRequest index new).Linked where
  unused := by
    intro i above
    have apart : i ≠ index := by
      rintro rfl
      rw [linked.unused i above] at isRq
      cases isRq
    simp only [KeyState.setRequest, update_of_ne apart]
    exact linked.unused i above
  hashed := by
    intro i isHashed
    obtain ⟨newest, found, isFound, valid, unblocking, stage⟩ := linked.hashed i isHashed
    refine ⟨newest, ?_⟩
    by_cases same : i = index
    · rw [same] at isFound isHashed ⊢
      rw [isRq] at isFound
      cases isFound
      exact ⟨new, update_self .., unseen.invalid.trans valid,
        unseen.blocking.trans unblocking, unseen.hashed isHashed⟩
    · exact ⟨found, (update_of_ne same ..).trans isFound, valid, unblocking, stage⟩
  queued := by
    intro i other found queued valid
    rcases update_eq_some found with ⟨rfl, rfl⟩ | ⟨-, isOther⟩
    · exact linked.queued i rq isRq (unseen.queued queued) (unseen.invalid.symm.trans valid)
    · exact linked.queued i other isOther queued valid
  atDevice := by
    intro i other found atDevice
    rcases update_eq_some found with ⟨rfl, rfl⟩ | ⟨-, isOther⟩
    · rcases unseen.atDevice atDevice with pre | isHashed
      · rw [unseen.blocking]
        exact linked.atDevice i rq isRq pre
      · exact .inl isHashed
    · exact linked.atDevice i other isOther atDevice
  blocks := by
    intro i other found blocking
    rcases update_eq_some found with ⟨rfl, rfl⟩ | ⟨-, isOther⟩
    · rw [unseen.blocking] at blocking
      obtain ⟨j, pending, isHashed, pends, apart, queued, link⟩ :=
        linked.blocked_request isRq blocking
      exact ⟨unseen.inFlight blocking, j, pending, isHashed,
        (update_of_ne apart ..).trans pends, queued, link⟩
    obtain ⟨inFlight, j, pending, isHashed, pends, queued, link⟩ :=
      linked.blocks i other isOther blocking
    by_cases same : j = index
    · rw [same] at pends isHashed
      rw [isRq] at pends
      cases pends
      exact ⟨inFlight, index, new, isHashed, update_self ..,
        unseen.blocked (by rw [link]; rfl), unseen.blockingRq.trans link⟩
    · exact ⟨inFlight, j, pending, isHashed, (update_of_ne same ..).trans pends, queued, link⟩
  blocked := by
    intro i other j found link
    have stillBlocks : ∀ blocker, s.request j = some blocker → blocker.blocking = true →
        ∃ blocker, (s.setRequest index new).request j = some blocker ∧ blocker.blocking = true := by
      intro blocker isBlocker blocking
      by_cases same : j = index
      · rw [same] at isBlocker ⊢
        rw [isRq] at isBlocker
        cases isBlocker
        exact ⟨new, update_self .., unseen.blocking.trans blocking⟩
      · exact ⟨blocker, (update_of_ne same ..).trans isBlocker, blocking⟩
    rcases update_eq_some found with ⟨rfl, rfl⟩ | ⟨-, isOther⟩
    · have linkBefore := unseen.blockingRq.symm.trans link
      obtain ⟨isHashed, -, blocker, isBlocker, blocking⟩ := linked.blocked i rq j isRq linkBefore
      exact ⟨isHashed, unseen.blocked (by rw [linkBefore]; rfl),
        stillBlocks blocker isBlocker blocking⟩
    obtain ⟨isHashed, queued, blocker, isBlocker, blocking⟩ := linked.blocked i other j isOther link
    exact ⟨isHashed, queued, stillBlocks blocker isBlocker blocking⟩

theorem addRequest_fresh (unhashed : s.hash = none) (stage : new.stage = .queued)
    (valid : new.invalid = false) (unblocking : new.blocking = false)
    (unblocked : new.blockingRq = none) :
    (s.addRequest new).Linked where
  unused := by
    intro i above
    have apart : i ≠ s.created := by
      simp only [KeyState.addRequest] at above
      omega
    exact (update_of_ne apart ..).trans
      (linked.unused i (by simp only [KeyState.addRequest] at above; omega))
  hashed := by
    intro i isHashed
    cases isHashed
    exact ⟨rfl, new, update_self .., valid, unblocking, Or.inl stage⟩
  queued := by
    intro i rq found queued isValid
    rcases update_eq_some found with ⟨rfl, -⟩ | ⟨-, isRq⟩
    · rfl
    have isHashed := linked.queued i rq isRq queued isValid
    simp [unhashed] at isHashed
  atDevice := by
    intro i rq found atDevice
    rcases update_eq_some found with ⟨rfl, rfl⟩ | ⟨-, isRq⟩
    · exact .inl rfl
    refine .inr ((linked.atDevice i rq isRq atDevice).resolve_left ?_)
    simp [unhashed]
  blocks := by
    intro i rq found blocking
    rcases update_eq_some found with ⟨rfl, rfl⟩ | ⟨-, isRq⟩
    · simp [unblocking] at blocking
    obtain ⟨-, j, -, isHashed, -⟩ := linked.blocks i rq isRq blocking
    simp [unhashed] at isHashed
  blocked := by
    intro i rq j found link
    rcases update_eq_some found with ⟨rfl, rfl⟩ | ⟨-, isRq⟩
    · simp [unblocked] at link
    have isHashed := (linked.blocked i rq j isRq link).1
    simp [unhashed] at isHashed

theorem unblocked_of_atDevice (isRq : s.request index = some rq)
    (atDevice : rq.stage.AtDevice) : rq.blockingRq = none := by
  cases link : rq.blockingRq with
  | none => rfl
  | some j =>
    obtain ⟨-, queued, -⟩ := linked.blocked index rq j isRq link
    rcases atDevice with stage | stage <;> simp [stage] at queued

theorem nobody_blocking {i : Nat} {other : AsyncRequest V} (hashed : s.hash = some index)
    (isRq : s.request index = some rq) (unblocked : rq.blockingRq = none)
    (isOther : s.request i = some other) : other.blocking = false := by
  by_contra blocking
  obtain ⟨-, _, _, isHashed, pends, -, link⟩ :=
    linked.blocks i other isOther (by simpa using blocking)
  rw [hashed] at isHashed
  rw [← some.inj isHashed, isRq] at pends
  rw [← some.inj pends, unblocked] at link
  cases link

theorem nobody_blocked {i : Nat} {other : AsyncRequest V} (hashed : s.hash = some index)
    (isRq : s.request index = some rq) (unblocked : rq.blockingRq = none)
    (isOther : s.request i = some other) : other.blockingRq = none := by
  cases link : other.blockingRq with
  | none => rfl
  | some j =>
    have isHashed := (linked.blocked i other j isOther link).1
    rw [hashed] at isHashed
    rw [← some.inj isHashed, isRq] at isOther
    rw [← some.inj isOther, unblocked] at link
    cases link

theorem addRequest_behind {buffered : AsyncRequest V} (hashed : s.hash = some index)
    (isBuffered : s.request index = some buffered) (atDevice : buffered.stage.AtDevice)
    (stage : new.stage = .queued) (valid : new.invalid = false) (unblocking : new.blocking = false)
    (link : new.blockingRq = some index) :
    ((s.setRequest index { buffered with blocking := true }).addRequest new).Linked := by
  have newest := (linked.hashed index hashed).1
  have unblocked := linked.unblocked_of_atDevice isBuffered atDevice
  have apart : index ≠ s.created := by omega
  -- What the requests are afterwards: the new one, the blocker, and the others as before.
  have found : ∀ {i rq}, ((s.setRequest index { buffered with blocking := true }).addRequest
      new).request i = some rq → (i = s.created ∧ rq = new) ∨
        (i = index ∧ rq = { buffered with blocking := true }) ∨
          (i ≠ index ∧ s.request i = some rq) := by
    intro i rq isRq
    rcases update_eq_some isRq with isNew | ⟨-, pre⟩
    · exact .inl isNew
    · exact .inr (update_eq_some pre)
  have isBlocker : ((s.setRequest index { buffered with blocking := true }).addRequest
      new).request index = some { buffered with blocking := true } :=
    (update_of_ne apart ..).trans (update_self ..)
  constructor
  · intro i above
    have aboveCreated : s.created + 1 ≤ i := above
    have notNew : i ≠ s.created := by omega
    have notIndex : i ≠ index := by omega
    exact (update_of_ne notNew ..).trans
      ((update_of_ne notIndex ..).trans (linked.unused i (by omega)))
  · intro i isHashed
    cases isHashed
    exact ⟨rfl, new, update_self .., valid, unblocking, Or.inl stage⟩
  · intro i rq isRq queued isValid
    rcases found isRq with ⟨rfl, -⟩ | ⟨-, rfl⟩ | ⟨notIndex, pre⟩
    · rfl
    · rcases atDevice with at_ | at_ <;> simp [at_] at queued
    have isHashed := linked.queued i rq pre queued isValid
    rw [hashed] at isHashed
    exact absurd (some.inj isHashed).symm notIndex
  · intro i rq isRq isAtDevice
    rcases found isRq with ⟨rfl, -⟩ | ⟨-, rfl⟩ | ⟨notIndex, pre⟩
    · exact .inl rfl
    · exact .inr rfl
    · exact absurd (linked.atDevice_unique pre isBuffered isAtDevice atDevice) notIndex
  · intro _ _ isRq blocking
    rcases found isRq with ⟨-, rfl⟩ | ⟨rfl, rfl⟩ | ⟨-, pre⟩
    · simp [unblocking] at blocking
    · exact ⟨atDevice.inFlight, s.created, new, rfl, update_self .., stage, link⟩
    have unlinked := linked.nobody_blocking hashed isBuffered unblocked pre
    simp [unlinked] at blocking
  · intro _ _ _ isRq isLink
    rcases found isRq with ⟨rfl, rfl⟩ | ⟨-, rfl⟩ | ⟨-, pre⟩
    · rw [link] at isLink
      cases isLink
      exact ⟨rfl, stage, _, isBlocker, rfl⟩
    · simp [unblocked] at isLink
    have unlinked := linked.nobody_blocked hashed isBuffered unblocked pre
    simp [unlinked] at isLink

theorem leaveHash {post : KeyState V} (hashed : s.hash = some index)
    (isRq : s.request index = some rq) (unblocked : rq.blockingRq = none)
    (gone : new.stage = .queued → new.invalid = true) (away : ¬ new.stage.AtDevice)
    (sameBlocking : new.blocking = rq.blocking) (sameLink : new.blockingRq = rq.blockingRq)
    (requests : post.request = Function.update s.request index (some new))
    (unhashed : post.hash = none) (sameCreated : post.created = s.created) :
    post.Linked := by
  have newest := (linked.hashed index hashed).1
  constructor
  · intro i above
    rw [sameCreated] at above
    rw [requests, update_of_ne (by omega)]
    exact linked.unused i above
  · intro i isHashed
    simp [unhashed] at isHashed
  · intro i other isOther queued valid
    rw [requests] at isOther
    rcases update_eq_some isOther with ⟨-, rfl⟩ | ⟨notIndex, pre⟩
    · simp [gone queued] at valid
    have isHashed := linked.queued i other pre queued valid
    rw [hashed] at isHashed
    exact absurd (some.inj isHashed).symm notIndex
  · intro i other isOther atDevice
    rw [requests] at isOther
    rcases update_eq_some isOther with ⟨-, rfl⟩ | ⟨notIndex, pre⟩
    · exact absurd atDevice away
    rcases linked.atDevice i other pre atDevice with isHashed | blocking
    · rw [hashed] at isHashed
      exact absurd (some.inj isHashed).symm notIndex
    · exact .inr blocking
  · intro _ _ isOther blocking
    rw [requests] at isOther
    rcases update_eq_some isOther with ⟨-, rfl⟩ | ⟨-, pre⟩
    · have free := linked.nobody_blocking hashed isRq unblocked isRq
      simp [sameBlocking, free] at blocking
    have free := linked.nobody_blocking hashed isRq unblocked pre
    simp [free] at blocking
  · intro _ _ _ isOther link
    rw [requests] at isOther
    rcases update_eq_some isOther with ⟨-, rfl⟩ | ⟨-, pre⟩
    · simp [sameLink, unblocked] at link
    have free := linked.nobody_blocked hashed isRq unblocked pre
    simp [free] at link

theorem unblock_finished (isRq : s.request index = some rq) (blocking : rq.blocking = true) :
    ∃ j pending, s.hash = some j ∧ s.request j = some pending ∧ j ≠ index ∧
      pending.stage = .queued ∧ pending.blockingRq = some index ∧
      (s.finished index rq).unblock =
        (s.finished index rq).setRequest j { pending with blockingRq := none } := by
  obtain ⟨j, pending, hashed, pends, apart, queued, link⟩ :=
    linked.blocked_request isRq blocking
  have stillPending : (s.finished index rq).request j = some pending :=
    (update_of_ne apart ..).trans pends
  refine ⟨j, pending, hashed, pends, apart, queued, link, ?_⟩
  have stillHashed : (s.finished index rq).hash = some j := hashed
  simp only [unblock, stillHashed, stillPending]

theorem complete_blocking (isRq : s.request index = some rq)
    (blocking : rq.blocking = true) : (s.finished index rq).unblock.Linked := by
  obtain ⟨j, pending, hashed, pends, apart, queued, link, unblocked⟩ :=
    linked.unblock_finished isRq blocking
  obtain ⟨valid, unblocking, -⟩ := linked.hashed_request pends hashed
  have newest : j + 1 = s.created := (linked.hashed j hashed).1
  rw [unblocked]
  have found : ∀ {i other}, ((s.finished index rq).setRequest j
      { pending with blockingRq := none }).request i = some other →
        (i = j ∧ other = { pending with blockingRq := none }) ∨ (i = index ∧ other = rq.completed) ∨
            (i ≠ j ∧ i ≠ index ∧ s.request i = some other) := by
    intro i other isOther
    rcases update_eq_some isOther with pends | ⟨notPending, pre⟩
    · exact .inl pends
    rcases update_eq_some pre with isCompleted | ⟨notIndex, isBefore⟩
    · exact .inr (.inl isCompleted)
    · exact .inr (.inr ⟨notPending, notIndex, isBefore⟩)
  constructor
  · intro i above
    have aboveCreated : s.created ≤ i := above
    have notIndex : i ≠ index := by
      rintro rfl
      rw [linked.unused i above] at isRq
      cases isRq
    have notPending : i ≠ j := by omega
    exact (update_of_ne notPending ..).trans
      ((update_of_ne notIndex ..).trans (linked.unused i above))
  · intro i isHashed
    have same : j = i := some.inj (hashed.symm.trans isHashed)
    rw [← same]
    exact ⟨newest, _, update_self .., valid, unblocking, Or.inl queued⟩
  · intro i other isOther isQueued isValid
    rcases found isOther with ⟨rfl, -⟩ | ⟨-, rfl⟩ | ⟨-, -, pre⟩
    · exact hashed
    · simp [AsyncRequest.completed] at isQueued
    · exact linked.queued i other pre isQueued isValid
  · intro i other isOther atDevice
    rcases found isOther with ⟨rfl, -⟩ | ⟨-, rfl⟩ | ⟨-, -, pre⟩
    · exact .inl hashed
    · rcases atDevice with stage | stage <;> simp [AsyncRequest.completed] at stage
    · exact linked.atDevice i other pre atDevice
  · intro i other isOther isBlocking
    rcases found isOther with ⟨-, rfl⟩ | ⟨-, rfl⟩ | ⟨-, notIndex, pre⟩
    · simp [unblocking] at isBlocking
    · simp [AsyncRequest.completed] at isBlocking
    obtain ⟨-, k, _, alsoHashed, isAlso, -, alsoLink⟩ := linked.blocks i other pre isBlocking
    rw [hashed] at alsoHashed
    rw [← some.inj alsoHashed, pends] at isAlso
    rw [← some.inj isAlso, link] at alsoLink
    exact absurd (some.inj alsoLink).symm notIndex
  · intro i other k isOther isLink
    rcases found isOther with ⟨-, rfl⟩ | ⟨-, rfl⟩ | ⟨notPending, -, pre⟩
    · cases isLink
    · have isHashed := (linked.blocked index rq k isRq isLink).1
      rw [hashed] at isHashed
      exact absurd (some.inj isHashed) apart
    have isHashed := (linked.blocked i other k pre isLink).1
    rw [hashed] at isHashed
    exact absurd (some.inj isHashed).symm notPending

end

theorem start (initial : Option V) : (KeyState.start initial).Linked where
  unused := fun _ _ => rfl
  hashed := nofun
  queued := nofun
  atDevice := nofun
  blocks := nofun
  blocked := nofun

variable {next : KeyState V}

section

variable (linked : s.Linked)

include linked

theorem ioschedCmd {cmd : KvCommand V} (taken : s.ioschedCmd cmd = some next) :
    next.Linked := by
  cases accepts_of_ioschedCmd taken with
  | fresh unhashed =>
    have accepted : (s.accept cmd).Linked := linked.congr rfl rfl rfl
    exact accepted.addRequest_fresh unhashed rfl rfl rfl rfl
  | behind index buffered hashed isBuffered inFlight =>
    have accepted : (s.accept cmd).Linked := linked.congr rfl rfl rfl
    have atDevice := linked.atDevice_of_inFlight isBuffered hashed inFlight
    exact accepted.addRequest_behind hashed isBuffered atDevice rfl rfl rfl rfl
  | replacing index buffered hashed isBuffered =>
    have unseen : Unnoticed s index buffered
        { buffered with command := cmd, ticket := s.nextTicket } :=
      { invalid := rfl
        blocking := rfl
        blockingRq := rfl
        hashed := fun _ => (linked.hashed_request isBuffered hashed).2.2
        queued := id
        atDevice := Or.inl
        inFlight := fun blocking => (linked.blocks index buffered isBuffered blocking).1
        blocked := by
          intro blocked
          obtain ⟨j, link⟩ := isSome_iff_exists.mp blocked
          exact (linked.blocked index buffered j isBuffered link).2.1 }
    exact (linked.setRequest isBuffered unseen).congr rfl rfl rfl
  | ignored => exact linked.congr rfl rfl rfl

theorem submit (taken : s.submit index = some next) : next.Linked := by
  obtain ⟨rq, isRq, queued, unblocked, rfl⟩ := submit_cases taken
  have unblocking : rq.blocking = false := by
    by_contra blocking
    have inFlight := (linked.blocks index rq isRq (by simpa using blocking)).1
    simp [queued, Stage.inFlight] at inFlight
  apply linked.setRequest isRq
  cases invalid : rq.invalid with
  | true =>
    have notHashed : s.hash ≠ some index := by
      intro hashed
      have valid := (linked.hashed_request isRq hashed).1
      simp [invalid] at valid
    constructor <;> simp [AsyncRequest.submitted, Stage.AtDevice, invalid, unblocking, unblocked,
      notHashed]
  | false =>
    have hashed := linked.queued index rq isRq queued invalid
    constructor <;> simp [AsyncRequest.submitted, Stage.AtDevice, invalid, unblocking, unblocked,
      hashed]

theorem execute (taken : s.execute index = some next) : next.Linked := by
  obtain ⟨rq, isRq, sent, rfl⟩ := execute_cases taken
  have unblocked := linked.unblocked_of_atDevice isRq (Or.inl sent)
  have unseen : Unnoticed s index rq (rq.executed s.device) := by
    constructor <;> simp [AsyncRequest.executed, Stage.AtDevice, Stage.inFlight, sent,
      unblocked]
  exact (linked.setRequest isRq unseen).congr rfl rfl rfl

theorem hashDelete (taken : s.hashDelete index = some next) : next.Linked := by
  obtain ⟨rq, isRq, executed, rfl⟩ := hashDelete_cases taken
  have unblocked := linked.unblocked_of_atDevice isRq (Or.inr executed)
  by_cases hashed : s.hash = some index
  · let new : AsyncRequest V := { rq with stage := .unhashed }
    have gone : new.stage = .queued → new.invalid = true := by
      intro queued
      cases queued
    have away : ¬ new.stage.AtDevice := by
      simp [new, Stage.AtDevice]
    apply linked.leaveHash hashed isRq unblocked gone away rfl rfl
    · rfl
    · simp [hashed]
    · rfl
  have unseen : Unnoticed s index rq { rq with stage := .unhashed } := by
    constructor <;> simp [Stage.AtDevice, Stage.inFlight, unblocked, hashed]
  have sameHash : s.hash.filter (fun hashed => hashed ≠ index) = s.hash := by
    cases isHash : s.hash with
    | none => rfl
    | some other =>
      have apart : other ≠ index := by
        rintro rfl
        exact hashed isHash
      simp [apart]
  rw [sameHash]
  exact (linked.setRequest isRq unseen).congr rfl rfl rfl

theorem complete (taken : s.complete index = some next) : next.Linked := by
  obtain ⟨rq, isRq, unhashed, ⟨blocking, rfl⟩ | ⟨free, rfl⟩⟩ := complete_cases taken
  · exact linked.complete_blocking isRq blocking
  have notHashed := linked.not_hashed isRq unhashed
  have unblocked : rq.blockingRq = none := by
    cases link : rq.blockingRq with
    | none => rfl
    | some j =>
      have queued := (linked.blocked index rq j isRq link).2.1
      simp [unhashed] at queued
  have unseen : Unnoticed s index rq rq.completed := by
    constructor <;> simp [AsyncRequest.completed, Stage.AtDevice, free, unblocked, notHashed]
  exact (linked.setRequest isRq unseen).congr rfl rfl rfl

theorem step {action : KeyStep V} (taken : s.step action = some next) : next.Linked := by
  cases action with
  | ioschedCmd => exact linked.ioschedCmd taken
  | findInReadahead =>
    rw [findInReadahead_cases taken]
    exact linked.congr rfl rfl rfl
  | submit => exact linked.submit taken
  | execute => exact linked.execute taken
  | hashDelete => exact linked.hashDelete taken
  | complete => exact linked.complete taken
  | dropReadahead =>
    cases taken
    exact linked.congr rfl rfl rfl

end

end Linked

end KeyState

end InsDb.Driver
