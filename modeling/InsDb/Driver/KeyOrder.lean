import Mathlib.Data.List.Range
import InsDb.Driver.KeyLinks

/-!
# The commands of a key reach the device in order

The requests that the device has still to execute are the one in the hash and the one that
blocks it. Executing them leaves what all accepted commands together should leave.
-/

namespace InsDb.Driver

open InsDb.Library List Function

variable {V : Type}

/-- The effect of the commands, numbered from 1, one after the other. -/
def settled (initial : Content V) (accepted : List (KvCommand V)) : Content V :=
  accepted.zipIdx.foldl (fun content (cmd, index) => cmd.run (index + 1) content) initial

theorem settled_append (initial : Content V) (accepted : List (KvCommand V))
    (cmd : KvCommand V) :
    settled initial (accepted ++ [cmd]) =
      cmd.run (accepted.length + 1) (settled initial accepted) := by
  simp [settled, zipIdx_append]

def AsyncRequest.owes (rq : AsyncRequest V) : Option (KvCommand V × Nat) :=
  if rq.stage = .queued ∨ rq.stage = .submitted then some (rq.command, rq.ticket) else none

namespace KeyState

def owes (s : KeyState V) : List (KvCommand V × Nat) :=
  match s.hash.bind s.request with
  | none => []
  | some rq => ((rq.blockingRq.bind s.request).toList ++ [rq]).filterMap AsyncRequest.owes

def afterOwed (s : KeyState V) : Content V :=
  s.owes.foldl (fun content (cmd, ticket) => cmd.run ticket content) s.device

variable {s next : KeyState V}

theorem owes_of_unhashed (unhashed : s.hash = none) : s.owes = [] := by
  simp [owes, unhashed]

variable {index : Nat} {rq : AsyncRequest V}

theorem owes_of_hashed (hashed : s.hash = some index) (isRq : s.request index = some rq) :
    s.owes = (rq.blockingRq.bind s.request).toList.filterMap AsyncRequest.owes ++
      rq.owes.toList := by
  cases owed : rq.owes <;> simp [owes, hashed, isRq, owed]

theorem owes_of_unblocked (hashed : s.hash = some index)
    (isRq : s.request index = some rq) (unblocked : rq.blockingRq = none) :
    s.owes = rq.owes.toList := by
  simp [owes_of_hashed hashed isRq, unblocked]

theorem owes_of_blocked {j : Nat} {blocker : AsyncRequest V} (hashed : s.hash = some index)
    (isRq : s.request index = some rq) (blocked : rq.blockingRq = some j)
    (isBlocker : s.request j = some blocker) :
    s.owes = blocker.owes.toList ++ rq.owes.toList := by
  cases owed : blocker.owes <;> simp [owes_of_hashed hashed isRq, blocked, isBlocker, owed]

theorem owes_congr (sameHash : next.hash = s.hash)
    (sameRequest : ∀ index rq, s.hash = some index → s.request index = some rq →
      next.request index = some rq ∧ ∀ j, rq.blockingRq = some j → next.request j = s.request j)
    (linked : s.Linked) : next.owes = s.owes := by
  cases hashed : s.hash with
  | none => rw [owes_of_unhashed hashed, owes_of_unhashed (sameHash.trans hashed)]
  | some index =>
    obtain ⟨-, rq, isRq, -⟩ := linked.hashed index hashed
    obtain ⟨still, sameBlocker⟩ := sameRequest index rq hashed isRq
    rw [owes_of_hashed hashed isRq, owes_of_hashed (sameHash.trans hashed) still]
    cases link : rq.blockingRq with
    | none => rfl
    | some j => simp [sameBlocker j link]

theorem owes_addRequest_fresh {new : AsyncRequest V} (unblocked : new.blockingRq = none)
    (queued : new.stage = .queued) :
    (s.addRequest new).owes = [(new.command, new.ticket)] := by
  have isNew : (s.addRequest new).request s.created = some new := update_self ..
  rw [owes_of_unblocked rfl isNew unblocked]
  simp [AsyncRequest.owes, queued]

section

variable (linked : s.Linked)

include linked

theorem owes_addRequest_behind {buffered new : AsyncRequest V}
    (hashed : s.hash = some index) (isBuffered : s.request index = some buffered)
    (atDevice : buffered.stage.AtDevice) (link : new.blockingRq = some index)
    (queued : new.stage = .queued) :
    ((s.setRequest index { buffered with blocking := true }).addRequest new).owes =
      s.owes ++ [(new.command, new.ticket)] := by
  have newest := (linked.hashed index hashed).1
  have apart : index ≠ s.created := by omega
  have isNew : ((s.setRequest index { buffered with blocking := true }).addRequest
      new).request s.created = some new := update_self ..
  have isBlocker : ((s.setRequest index { buffered with blocking := true }).addRequest
      new).request index = some { buffered with blocking := true } :=
    (update_of_ne apart ..).trans (update_self ..)
  rw [owes_of_blocked rfl isNew link isBlocker,
    owes_of_unblocked hashed isBuffered (linked.unblocked_of_atDevice isBuffered atDevice)]
  simp [AsyncRequest.owes, queued]

theorem owes_replace {buffered : AsyncRequest V} (hashed : s.hash = some index)
    (isBuffered : s.request index = some buffered) (waits : buffered.stage.inFlight = false)
    (cmd : KvCommand V) :
    ∃ front, s.owes = front ++ [(buffered.command, buffered.ticket)] ∧
      (s.replace index buffered cmd).owes = front ++ [(cmd, s.nextTicket)] := by
  obtain ⟨-, unblocking, queued | atDevice⟩ := linked.hashed_request isBuffered hashed
  · have isNew : (s.replace index buffered cmd).request index =
        some { buffered with command := cmd, ticket := s.nextTicket } :=
      update_self ..
    have stillHashed : (s.replace index buffered cmd).hash = some index := hashed
    refine ⟨(buffered.blockingRq.bind s.request).toList.filterMap AsyncRequest.owes, ?_, ?_⟩
    · rw [owes_of_hashed hashed isBuffered]
      simp [AsyncRequest.owes, queued]
    rw [owes_of_hashed stillHashed isNew]
    have sameBlocker : buffered.blockingRq.bind (s.replace index buffered cmd).request =
        buffered.blockingRq.bind s.request := by
      cases link : buffered.blockingRq with
      | none => rfl
      | some j =>
        obtain ⟨-, -, _, isBlocker, blocking⟩ := linked.blocked index buffered j isBuffered link
        have apart : j ≠ index := by
          rintro rfl
          rw [isBuffered] at isBlocker
          cases isBlocker
          simp [unblocking] at blocking
        exact update_of_ne apart ..
    simp only [sameBlocker]
    simp [AsyncRequest.owes, queued]
  · simp [atDevice.inFlight] at waits

theorem owes_submit (isRq : s.request index = some rq) (queued : rq.stage = .queued)
    (unblocked : rq.blockingRq = none) (valid : rq.invalid = false) :
    (s.setRequest index rq.submitted).owes = s.owes := by
  have hashed := linked.queued index rq isRq queued valid
  have isNew : (s.setRequest index rq.submitted).request index = some rq.submitted := update_self ..
  have stillHashed : (s.setRequest index rq.submitted).hash = some index := hashed
  rw [owes_of_unblocked stillHashed isNew unblocked, owes_of_unblocked hashed isRq unblocked]
  simp [AsyncRequest.owes, AsyncRequest.submitted, queued, valid]

theorem owes_execute (isRq : s.request index = some rq) (sent : rq.stage = .submitted)
    (requests : next.request = Function.update s.request index (some (rq.executed
      s.device))) (sameHash : next.hash = s.hash) :
    s.owes = (rq.command, rq.ticket) :: next.owes := by
  have isNew : next.request index = some (rq.executed s.device) := by
    rw [requests, update_self]
  have owed : rq.owes = some (rq.command, rq.ticket) := by
    simp [AsyncRequest.owes, sent]
  have paid : (rq.executed s.device).owes = none := by
    simp [AsyncRequest.owes, AsyncRequest.executed]
  rcases linked.atDevice index rq isRq (Or.inl sent) with hashed | blocking
  · have unblocked := linked.unblocked_of_atDevice isRq (Or.inl sent)
    rw [owes_of_unblocked hashed isRq unblocked,
      owes_of_unblocked (sameHash.trans hashed) isNew unblocked, owed, paid]
    rfl
  obtain ⟨j, pending, hashed, pends, apart, _, link⟩ := linked.blocked_request isRq blocking
  have stillPending : next.request j = some pending := by
    rw [requests, update_of_ne apart, pends]
  rw [owes_of_blocked hashed pends link isRq,
    owes_of_blocked (sameHash.trans hashed) stillPending link isNew, owed, paid]
  rfl

theorem owes_hashDelete (taken : s.hashDelete index = some next) : next.owes = s.owes := by
  obtain ⟨rq, isRq, executed, rfl⟩ := hashDelete_cases taken
  have unowed : rq.owes = none := by
    simp [AsyncRequest.owes, executed]
  rcases linked.atDevice index rq isRq (Or.inr executed) with hashed | blocking
  · have unblocked := linked.unblocked_of_atDevice isRq (Or.inr executed)
    rw [owes_of_unblocked hashed isRq unblocked, unowed]
    exact owes_of_unhashed (by simp [hashed])
  obtain ⟨_, _, hashed, pends, apart, _, link⟩ := linked.blocked_request isRq blocking
  rw [owes_of_blocked hashed pends link isRq, unowed]
  rw [owes_of_blocked _ ((update_of_ne apart ..).trans pends) link (update_self ..)]
  · simp [AsyncRequest.owes]
  · simp [hashed, apart]

theorem owes_complete (taken : s.complete index = some next) : next.owes = s.owes := by
  obtain ⟨rq, isRq, unhashed, ⟨blocking, rfl⟩ | ⟨free, rfl⟩⟩ := complete_cases taken
  · obtain ⟨j, pending, hashed, pends, -, queued, link, unblocked⟩ :=
      linked.unblock_finished isRq blocking
    let done := (s.finished index rq).setRequest j { pending with blockingRq := none }
    have isNew : done.request j = some { pending with blockingRq := none } := update_self ..
    have stillHashed : done.hash = some j := hashed
    rw [unblocked, owes_of_blocked hashed pends link isRq,
      owes_of_unblocked stillHashed isNew rfl]
    simp [AsyncRequest.owes, queued, unhashed]
  have sameHash : (s.finished index rq).hash = s.hash := rfl
  apply owes_congr sameHash _ linked
  intro hashedIndex hashedRq hashed isHashed
  have apart : hashedIndex ≠ index := by
    rintro rfl
    exact linked.not_hashed isRq unhashed hashed
  refine ⟨(update_of_ne apart ..).trans isHashed, ?_⟩
  intro j link
  obtain ⟨-, -, _, isBlocker, blocking⟩ := linked.blocked hashedIndex hashedRq j isHashed link
  have notBlocker : j ≠ index := by
    rintro rfl
    rw [isRq] at isBlocker
    cases isBlocker
    simp [free] at blocking
  exact update_of_ne notBlocker ..

end

structure Ordered (initial : Option V) (s : KeyState V) : Prop where
  linked : s.Linked
  valid : ∀ i rq, s.request i = some rq → rq.invalid = false
  carries : ∀ i rq, s.request i = some rq →
    0 < rq.ticket ∧ s.accepted[rq.ticket - 1]? = some rq.command
  content : s.afterOwed = settled { value := initial } s.accepted
  -- Each number stands once for what became of its command.
  fates : (s.executed ++ s.replaced.map Prod.fst ++ s.ignored ++
    s.owes.map Prod.snd).Perm (List.range' 1 s.accepted.length)
  ascending : (s.executed ++ s.owes.map Prod.snd).Pairwise (· < ·)
  replaced : ∀ pair ∈ s.replaced, pair.1 < pair.2 ∧
    ∃ cmd, s.accepted[pair.2 - 1]? = some cmd ∧ cmd.isWrite = true
  ignored : ∀ ticket ∈ s.ignored, s.accepted[ticket - 1]? = some .retrieve

theorem ordered_start (initial : Option V) : Ordered initial (start initial) where
  linked := Linked.start initial
  valid := nofun
  carries := nofun
  content := rfl
  fates := List.Perm.refl _
  ascending := List.Pairwise.nil
  replaced := by simp [start]
  ignored := by simp [start]

namespace Ordered

variable {initial : Option V}

theorem le_length (ordered : Ordered initial s) {ticket : Nat}
    (mem : ticket ∈ s.executed ++ s.owes.map Prod.snd) :
    ticket ≤ s.accepted.length := by
  have inFates : ticket ∈ s.executed ++ s.replaced.map Prod.fst ++ s.ignored ++
      s.owes.map Prod.snd := by
    simp only [mem_append] at mem ⊢
    tauto
  have inRange := ordered.fates.mem_iff.mp inFates
  simp only [mem_range'_1] at inRange
  omega

theorem getElem?_accept (accepted : List (KvCommand V)) (cmd : KvCommand V) {i : Nat}
    {found : KvCommand V} (isFound : accepted[i]? = some found) :
    (accepted ++ [cmd])[i]? = some found := by
  obtain ⟨inside, -⟩ := List.getElem?_eq_some_iff.mp isFound
  rw [List.getElem?_append_left inside, isFound]

theorem range_accept (accepted : List (KvCommand V)) (cmd : KvCommand V) :
    List.range' 1 (accepted ++ [cmd]).length =
      List.range' 1 accepted.length ++ [accepted.length + 1] := by
  rw [length_append, length_singleton, range'_concat]
  congr 2
  omega

variable {cmd : KvCommand V}

theorem owing (ordered : Ordered initial s) (linked : next.Linked)
    (requests : ∀ i rq, next.request i = some rq →
      (∃ j pre, s.request j = some pre ∧ rq.invalid = pre.invalid ∧
        rq.ticket = pre.ticket ∧ rq.command = pre.command) ∨
      (rq.invalid = false ∧ rq.ticket = s.nextTicket ∧ rq.command = cmd))
    (dev : next.device = s.device) (executed : next.executed = s.executed)
    (replaced : next.replaced = s.replaced) (ignored : next.ignored = s.ignored)
    (accepted : next.accepted = s.accepted ++ [cmd])
    (owed : next.owes = s.owes ++ [(cmd, s.nextTicket)]) : Ordered initial next where
  linked := linked
  valid := by
    intro i rq isRq
    rcases requests i rq isRq with ⟨j, pre, isBefore, same, -⟩ | ⟨valid, -⟩
    · exact same.trans (ordered.valid j pre isBefore)
    · exact valid
  carries := by
    intro i rq isRq
    rw [accepted]
    rcases requests i rq isRq with
      ⟨j, pre, isBefore, -, sameTicket, sameCommand⟩ | ⟨-, isTicket, isCommand⟩
    · obtain ⟨positive, carried⟩ := ordered.carries j pre isBefore
      rw [sameTicket, sameCommand]
      exact ⟨positive, getElem?_accept s.accepted cmd carried⟩
    rw [isTicket, isCommand]
    exact ⟨Nat.succ_pos _, by simp [nextTicket]⟩
  content := by
    have pre := ordered.content
    rw [afterOwed] at pre
    rw [afterOwed, owed, dev, accepted, foldl_append, pre, settled_append]
    rfl
  fates := by
    rw [executed, replaced, ignored, owed, accepted, range_accept, map_append, ← append_assoc]
    exact ordered.fates.append_right _
  ascending := by
    rw [executed, owed, map_append, ← append_assoc]
    apply pairwise_append.mpr
    refine ⟨ordered.ascending, pairwise_singleton _ _, ?_⟩
    intro ticket mem _ isNew
    have atMost := ordered.le_length mem
    simp only [map_cons, map_nil, mem_singleton] at isNew
    rw [isNew, nextTicket]
    omega
  replaced := by
    rw [replaced, accepted]
    intro pair mem
    obtain ⟨later, by_, isBy, isWrite⟩ := ordered.replaced pair mem
    exact ⟨later, by_, getElem?_accept s.accepted cmd isBy, isWrite⟩
  ignored := by
    rw [ignored, accepted]
    intro ticket mem
    exact getElem?_accept s.accepted cmd (ordered.ignored ticket mem)

theorem unchanged (ordered : Ordered initial s) (linked : next.Linked)
    (requests : ∀ i rq, next.request i = some rq → ∃ j pre, s.request j = some pre ∧
      rq.invalid = pre.invalid ∧ rq.ticket = pre.ticket ∧ rq.command = pre.command)
    (dev : next.device = s.device) (executed : next.executed = s.executed)
    (replaced : next.replaced = s.replaced) (ignored : next.ignored = s.ignored)
    (accepted : next.accepted = s.accepted) (owed : next.owes = s.owes) :
    Ordered initial next where
  linked := linked
  valid := by
    intro i rq isRq
    obtain ⟨j, pre, isBefore, same, -⟩ := requests i rq isRq
    exact same.trans (ordered.valid j pre isBefore)
  carries := by
    intro i rq isRq
    obtain ⟨j, pre, isBefore, -, sameTicket, sameCommand⟩ := requests i rq isRq
    rw [accepted, sameTicket, sameCommand]
    exact ordered.carries j pre isBefore
  content := by
    have pre := ordered.content
    rw [afterOwed] at pre
    rw [afterOwed, owed, dev, accepted, pre]
  fates := by
    rw [executed, replaced, ignored, owed, accepted]
    exact ordered.fates
  ascending := by
    rw [executed, owed]
    exact ordered.ascending
  replaced := by
    rw [replaced, accepted]
    exact ordered.replaced
  ignored := by
    rw [ignored, accepted]
    exact ordered.ignored

variable {index : Nat}

theorem same_of_setRequest {rq new : AsyncRequest V}
    {requests : Nat → Option (AsyncRequest V)} (isRq : requests index = some rq)
    (sameInvalid : new.invalid = rq.invalid) (sameTicket : new.ticket = rq.ticket)
    (sameCommand : new.command = rq.command) (i : Nat) (other : AsyncRequest V)
    (isOther : Function.update requests index (some new) i = some other) :
    ∃ j pre, requests j = some pre ∧ other.invalid = pre.invalid ∧
      other.ticket = pre.ticket ∧ other.command = pre.command := by
  rcases update_eq_some isOther with ⟨-, rfl⟩ | ⟨-, isBefore⟩
  · exact ⟨index, rq, isRq, sameInvalid, sameTicket, sameCommand⟩
  · exact ⟨i, other, isBefore, rfl, rfl, rfl⟩

section

variable (ordered : Ordered initial s)

include ordered

theorem ignore : Ordered initial (s.ignore .retrieve) where
  linked := ordered.linked.congr rfl rfl rfl
  valid := ordered.valid
  carries := by
    intro i rq isRq
    obtain ⟨positive, carried⟩ := ordered.carries i rq isRq
    exact ⟨positive, getElem?_accept s.accepted .retrieve carried⟩
  content := by
    have same : (s.ignore .retrieve).afterOwed = s.afterOwed := rfl
    rw [same, ordered.content]
    exact (settled_append _ s.accepted .retrieve).symm
  fates := by
    have added : ((s.ignore .retrieve).executed ++
        (s.ignore .retrieve).replaced.map Prod.fst ++ (s.ignore .retrieve).ignored ++
          (s.ignore .retrieve).owes.map Prod.snd).Perm
        ((s.executed ++ s.replaced.map Prod.fst ++ s.ignored ++
          s.owes.map Prod.snd) ++ [s.nextTicket]) := by
      have sameOwes : (s.ignore .retrieve).owes = s.owes := rfl
      rw [sameOwes]
      simp only [KeyState.ignore, append_assoc]
      apply List.Perm.append_left
      apply List.Perm.append_left
      apply List.Perm.append_left
      exact perm_append_comm
    have range := range_accept s.accepted (.retrieve : KvCommand V)
    exact added.trans ((ordered.fates.append_right _).trans (List.Perm.of_eq range.symm))
  ascending := ordered.ascending
  replaced := by
    intro pair mem
    obtain ⟨later, by_, isBy, isWrite⟩ := ordered.replaced pair mem
    exact ⟨later, by_, getElem?_accept s.accepted .retrieve isBy, isWrite⟩
  ignored := by
    intro ticket mem
    rcases mem_append.mp mem with pre | isNew
    · exact getElem?_accept s.accepted .retrieve (ordered.ignored ticket pre)
    rw [mem_singleton.mp isNew]
    simp [KeyState.ignore, nextTicket]

theorem replacing {buffered : AsyncRequest V}
    (linked : (s.replace index buffered cmd).Linked) (hashed : s.hash = some index)
    (isBuffered : s.request index = some buffered) (waits : buffered.stage.inFlight = false)
    (isWrite : cmd.isWrite = true) :
    Ordered initial (s.replace index buffered cmd) := by
  obtain ⟨front, owed, owes⟩ := owes_replace ordered.linked hashed isBuffered waits cmd
  obtain ⟨_, carried⟩ := ordered.carries index buffered isBuffered
  have inAccepted := (List.getElem?_eq_some_iff.mp carried).1
  constructor
  · exact linked
  · intro i rq isRq
    rcases update_eq_some isRq with ⟨-, rfl⟩ | ⟨-, isBefore⟩
    · exact ordered.valid index buffered isBuffered
    · exact ordered.valid i rq isBefore
  · intro i rq isRq
    rcases update_eq_some isRq with ⟨-, rfl⟩ | ⟨-, isBefore⟩
    · exact ⟨Nat.succ_pos _, by simp [KeyState.replace, nextTicket]⟩
    obtain ⟨alsoPositive, alsoCarried⟩ := ordered.carries i rq isBefore
    exact ⟨alsoPositive, getElem?_accept s.accepted cmd alsoCarried⟩
  · rw [afterOwed, owes, foldl_append]
    exact (KvCommand.run_of_isWrite isWrite _ _ _).trans (settled_append _ s.accepted cmd).symm
  · have range := range_accept s.accepted cmd
    have moved : ((s.replace index buffered cmd).executed ++
        (s.replace index buffered cmd).replaced.map Prod.fst ++
          (s.replace index buffered cmd).ignored ++
            (s.replace index buffered cmd).owes.map Prod.snd).Perm
        ((s.executed ++ s.replaced.map Prod.fst ++ s.ignored ++
          s.owes.map Prod.snd) ++ [s.nextTicket]) := by
      rw [owes, owed]
      simp only [KeyState.replace, map_append, map_cons, map_nil, append_assoc]
      apply List.Perm.append_left
      apply List.Perm.append_left
      -- The number of the replaced command moves from the owed ones to the replaced ones.
      have swapped : ([buffered.ticket] ++ (s.ignored ++ front.map Prod.snd)).Perm
          ((s.ignored ++ front.map Prod.snd) ++ [buffered.ticket]) := perm_append_comm
      simpa only [append_assoc] using swapped.append_right [s.nextTicket]
    exact moved.trans ((ordered.fates.append_right _).trans (List.Perm.of_eq range.symm))
  · have pre := ordered.ascending
    rw [owed, map_append, ← append_assoc] at pre
    rw [owes, map_append, ← append_assoc]
    apply pairwise_append.mpr
    refine ⟨(pairwise_append.mp pre).1, pairwise_singleton _ _, ?_⟩
    intro ticket mem _ isNew
    have inOwed : ticket ∈ s.executed ++ s.owes.map Prod.snd := by
      rw [owed, map_append, ← append_assoc]
      exact mem_append_left _ mem
    have atMost := ordered.le_length inOwed
    simp only [map_cons, map_nil, mem_singleton] at isNew
    rw [isNew, nextTicket]
    omega
  · intro pair mem
    rcases mem_append.mp mem with pre | isNew
    · obtain ⟨later, by_, isBy, byWrite⟩ := ordered.replaced pair pre
      exact ⟨later, by_, getElem?_accept s.accepted cmd isBy, byWrite⟩
    rw [mem_singleton.mp isNew]
    refine ⟨?_, cmd, by simp [KeyState.replace, nextTicket], isWrite⟩
    change buffered.ticket < s.accepted.length + 1
    omega
  · intro ticket mem
    exact getElem?_accept s.accepted cmd (ordered.ignored ticket mem)

theorem execute (taken : s.execute index = some next) : Ordered initial next := by
  have linked := ordered.linked.execute taken
  obtain ⟨rq, isRq, sent, rfl⟩ := execute_cases taken
  let new : KeyState V := { s with
    request := update s.request index (some (rq.executed s.device))
    device := rq.run s.device
    executed := s.executed ++ [rq.ticket] }
  have owed : s.owes = (rq.command, rq.ticket) :: new.owes :=
    owes_execute ordered.linked isRq sent rfl rfl
  have same := fun i other isOther =>
    same_of_setRequest isRq (rfl : (rq.executed s.device).invalid = rq.invalid) rfl rfl i
      other isOther
  constructor
  · exact linked
  · intro i other isOther
    obtain ⟨j, pre, isBefore, sameInvalid, -⟩ := same i other isOther
    exact sameInvalid.trans (ordered.valid j pre isBefore)
  · intro i other isOther
    obtain ⟨j, pre, isBefore, -, sameTicket, sameCommand⟩ := same i other isOther
    rw [sameTicket, sameCommand]
    exact ordered.carries j pre isBefore
  · have pre := ordered.content
    rw [afterOwed, owed, foldl_cons] at pre
    exact pre
  · have fates := ordered.fates
    rw [owed, map_cons] at fates
    refine List.Perm.trans ?_ fates
    have middle : ((s.replaced.map Prod.fst ++ s.ignored) ++
        rq.ticket :: new.owes.map Prod.snd).Perm
          (rq.ticket :: ((s.replaced.map Prod.fst ++ s.ignored) ++
            new.owes.map Prod.snd)) := perm_middle
    simp only [append_assoc] at middle ⊢
    apply List.Perm.append_left
    exact middle.symm
  · have ascending := ordered.ascending
    rw [owed, map_cons] at ascending
    rw [append_assoc, singleton_append]
    exact ascending
  · exact ordered.replaced
  · exact ordered.ignored

theorem ioschedCmd (taken : s.ioschedCmd cmd = some next) : Ordered initial next := by
  have linked := ordered.linked.ioschedCmd taken
  cases accepts_of_ioschedCmd taken with
  | fresh unhashed =>
    apply ordered.owing linked _ rfl rfl rfl rfl rfl
    · rw [owes_of_unhashed unhashed]
      exact owes_addRequest_fresh rfl rfl
    intro i rq isRq
    rcases update_eq_some isRq with ⟨-, rfl⟩ | ⟨-, isBefore⟩
    · exact .inr ⟨rfl, rfl, rfl⟩
    · exact .inl ⟨i, rq, isBefore, rfl, rfl, rfl⟩
  | behind index buffered hashed isBuffered inFlight =>
    have atDevice := ordered.linked.atDevice_of_inFlight isBuffered hashed inFlight
    have accepted := ordered.linked.congr rfl rfl rfl
    apply ordered.owing linked _ rfl rfl rfl rfl rfl
    · exact owes_addRequest_behind accepted hashed isBuffered atDevice rfl rfl
    intro i rq isRq
    rcases update_eq_some isRq with ⟨-, rfl⟩ | ⟨-, isBefore⟩
    · exact .inr ⟨rfl, rfl, rfl⟩
    obtain ⟨j, pre, facts⟩ := same_of_setRequest isBuffered
      (rfl : ({ buffered with blocking := true } : AsyncRequest V).invalid =
        buffered.invalid) rfl rfl i rq isBefore
    exact .inl ⟨j, pre, facts⟩
  | replacing index buffered hashed isBuffered waits isWrite =>
    exact ordered.replacing linked hashed isBuffered waits isWrite
  | ignored index buffered hashed isBuffered waits isRead =>
    cases cmd with
    | retrieve => exact ordered.ignore
    | store => simp [KvCommand.isWrite] at isRead
    | delete => simp [KvCommand.isWrite] at isRead

theorem complete (taken : s.complete index = some next) : Ordered initial next := by
  have linked := ordered.linked.complete taken
  have owed := owes_complete ordered.linked taken
  obtain ⟨rq, isRq, -, ⟨blocking, rfl⟩ | ⟨-, rfl⟩⟩ := complete_cases taken
  · obtain ⟨j, pending, -, pends, apart, -, -, unblocked⟩ :=
      ordered.linked.unblock_finished isRq blocking
    rw [unblocked] at linked owed ⊢
    apply ordered.unchanged linked _ rfl rfl rfl rfl rfl owed
    intro i other isOther
    have stillPending : (s.finished index rq).request j = some pending :=
      (update_of_ne apart ..).trans pends
    obtain ⟨k, pre, isBefore, invalid, ticket, cmd⟩ := same_of_setRequest stillPending
      (rfl : ({ pending with blockingRq := none } : AsyncRequest V).invalid =
        pending.invalid) rfl rfl i other isOther
    obtain ⟨l, first, isFirst, firstInvalid, firstTicket, firstCommand⟩ :=
      same_of_setRequest isRq (rfl : rq.completed.invalid = rq.invalid) rfl rfl k pre isBefore
    exact ⟨l, first, isFirst, invalid.trans firstInvalid, ticket.trans firstTicket,
      cmd.trans firstCommand⟩
  · apply ordered.unchanged linked _ rfl rfl rfl rfl rfl owed
    exact same_of_setRequest isRq (rfl : rq.completed.invalid = rq.invalid) rfl rfl

theorem step {action : KeyStep V} (taken : s.step action = some next) : Ordered initial next := by
  cases action with
  | ioschedCmd => exact ordered.ioschedCmd taken
  | findInReadahead =>
    rw [findInReadahead_cases taken]
    exact ordered.ignore
  | submit index =>
    have linked := ordered.linked.submit taken
    obtain ⟨rq, isRq, queued, unblocked, rfl⟩ := submit_cases taken
    have owed := owes_submit ordered.linked isRq queued unblocked (ordered.valid index rq isRq)
    apply ordered.unchanged linked _ rfl rfl rfl rfl rfl owed
    exact same_of_setRequest isRq (rfl : rq.submitted.invalid = rq.invalid) rfl rfl
  | execute => exact ordered.execute taken
  | hashDelete =>
    have linked := ordered.linked.hashDelete taken
    have owed := owes_hashDelete ordered.linked taken
    obtain ⟨rq, isRq, -, rfl⟩ := hashDelete_cases taken
    apply ordered.unchanged linked _ rfl rfl rfl rfl rfl owed
    exact same_of_setRequest isRq
      (rfl : ({ rq with stage := .unhashed } : AsyncRequest V).invalid = rq.invalid) rfl rfl
  | complete => exact ordered.complete taken
  | dropReadahead =>
    have linked := ordered.linked.step taken
    cases taken
    apply ordered.unchanged linked _ rfl rfl rfl rfl rfl rfl
    intro i rq isRq
    exact ⟨i, rq, isRq, rfl, rfl, rfl⟩

end

end Ordered

/-- At most one command of the key is at the device.  When all requests have completed, the
device holds what all accepted commands leave one after the other, and the commands have been
executed in order, each once, but for those that a later write replaced and for retrieves that
were ignored. -/
structure Serial (initial : Option V) (s : KeyState V) : Prop where
  single : ∀ i j rq other, s.request i = some rq → s.request j = some other →
    rq.stage.AtDevice → other.stage.AtDevice → i = j
  lastWrite : (∀ i rq, s.request i = some rq → rq.stage = .completed) →
    s.device = settled { value := initial } s.accepted
  fates : (∀ i rq, s.request i = some rq → rq.stage = .completed) →
    (s.executed ++ s.replaced.map Prod.fst ++ s.ignored).Perm
      (List.range' 1 s.accepted.length)
  inOrder : s.executed.Pairwise (· < ·)
  replaced : ∀ pair ∈ s.replaced, pair.1 < pair.2 ∧
    ∃ cmd, s.accepted[pair.2 - 1]? = some cmd ∧ cmd.isWrite = true
  ignored : ∀ ticket ∈ s.ignored, s.accepted[ticket - 1]? = some .retrieve

theorem Ordered.serial {initial : Option V} (ordered : Ordered initial s) : Serial initial s := by
  have nothingOwed : (∀ i rq, s.request i = some rq → rq.stage = .completed) → s.owes = [] := by
    intro allCompleted
    cases hashed : s.hash with
    | none => exact owes_of_unhashed hashed
    | some index =>
      obtain ⟨-, rq, isRq, -, -, stage⟩ := ordered.linked.hashed index hashed
      have completed := allCompleted index rq isRq
      rcases stage with queued | sent | executed <;> simp_all
  constructor
  · intro _ _ _ _ isRq isOther atDevice otherAtDevice
    exact ordered.linked.atDevice_unique isRq isOther atDevice otherAtDevice
  · intro allCompleted
    have content := ordered.content
    rw [afterOwed, nothingOwed allCompleted] at content
    exact content
  · intro allCompleted
    have fates := ordered.fates
    rw [nothingOwed allCompleted, map_nil, append_nil] at fates
    exact fates
  · exact (pairwise_append.mp ordered.ascending).1
  · exact ordered.replaced
  · exact ordered.ignored

/-- No retrieve is accepted while a command of the key is queued or the read-ahead hash has the
key. -/
def Unmerged (s : KeyState V) : KeyStep V → Prop
  | .ioschedCmd cmd => cmd.isWrite = false →
    ∀ i ∈ s.hash, ∀ rq ∈ s.request i, rq.stage.inFlight = true
  | .findInReadahead => False
  | _ => True

instance (s : KeyState V) (step : KeyStep V) : Decidable (s.Unmerged step) := by
  unfold Unmerged
  split <;> infer_instance

theorem ignored_of_step {action : KeyStep V} (taken : s.step action = some next)
    (unmerged : s.Unmerged action) : next.ignored = s.ignored := by
  cases action with
  | ioschedCmd cmd =>
    cases accepts_of_ioschedCmd taken with
    | fresh => rfl
    | behind => rfl
    | replacing => rfl
    | ignored i buffered hashed isBuffered waits isRead =>
      have inFlight := unmerged isRead i hashed buffered isBuffered
      exact absurd (waits.symm.trans inFlight) Bool.false_ne_true
  | findInReadahead => exact unmerged.elim
  | submit =>
    obtain ⟨_, _, _, _, rfl⟩ := submit_cases taken
    rfl
  | execute =>
    obtain ⟨_, _, _, rfl⟩ := execute_cases taken
    rfl
  | hashDelete =>
    obtain ⟨_, _, _, rfl⟩ := hashDelete_cases taken
    rfl
  | complete =>
    obtain ⟨rq, _, _, ⟨_, rfl⟩ | ⟨_, rfl⟩⟩ := complete_cases taken
    · unfold unblock
      split
      · rfl
      split <;> rfl
    rfl
  | dropReadahead =>
    cases taken
    rfl

/-- The commands of a key that is attached to its requests are serial in every state of every
run; and if no retrieve is merged, the commands that do not reach the device are those that a
later write replaced. -/
theorem commands_serial (keyLength : Nat) (unkeyed : Content V) (initial : Option V)
    (steps : List (KeyStep V)) (attached : keyLength ≤ kvcmdInlineKeyMax) :
    Run.AllHold (stepOf unkeyed keyLength) (Serial initial) steps (start initial) ∧
      (Run.AllMeet (stepOf unkeyed keyLength) Unmerged steps (start initial) →
        Run.AllHold (stepOf unkeyed keyLength) (fun s => s.ignored = []) steps
          (start initial)) := by
  rw [stepOf, if_pos attached]
  constructor
  · exact Run.allHold_of_invariant (Ordered initial) (fun _ ordered => ordered.serial)
      (fun _ _ _ ordered taken => ordered.step taken) (ordered_start initial)
  intro unmerged
  apply Run.allHold_of_allMeet (fun s => s.ignored = []) (fun _ => id) _ rfl unmerged
  intro _ _ _ none taken met
  exact (ignored_of_step taken met).trans none

/-- A store waits behind a retrieve in flight and is replaced there. -/
def replacedStore : List (KeyStep Nat) :=
  [.ioschedCmd .retrieve, .submit 0, .ioschedCmd (.store 5), .ioschedCmd (.store 6), .execute 0,
    .hashDelete 0, .complete 0, .submit 1, .execute 1, .hashDelete 1, .complete 1]

theorem replacedStore_serial :
    (Run.exec (stepOf { value := none } 16) replacedStore (start none)).map
        (fun s => (s.device, s.executed, s.replaced)) =
      some ({ value := some 6, version := 3 }, [1, 3], [(2, 3)]) ∧
      Run.AllHold (stepOf { value := none } 16) (Serial none) replacedStore (start none) ∧
      Run.AllHold (stepOf { value := none } 16) (fun s => s.ignored = []) replacedStore
        (start none) := by
  have serial := commands_serial 16 { value := none } none replacedStore (by decide)
  exact ⟨by decide +kernel, serial.1, serial.2 (by decide +kernel)⟩

/-- A store of a long key completes and is not on the device; and a retrieve that finds a store
waiting is merged into it, although no write is accepted after it. -/
theorem stored_without_key :
    ¬ Run.AllHold (stepOf { value := none } 17) (Serial none)
        [.ioschedCmd (.store 5), .submit 0, .execute 0, .hashDelete 0, .complete 0]
        (start none) ∧
      ¬ Run.AllHold (stepOf { value := none } 16) (fun s => s.ignored = [])
        [.ioschedCmd (.store 5), .ioschedCmd .retrieve] (start none) := by
  constructor
  · intro serial
    obtain ⟨s, runs, device, accepted, completed⟩ : ∃ s, Run.exec (stepOf { value := none } 17)
        [.ioschedCmd (.store 5), .submit 0, .execute 0, .hashDelete 0, .complete 0] (start none) =
          some s ∧ s.device = { value := none } ∧ s.accepted = [.store 5] ∧
          ∀ i rq, s.request i = some rq → rq.stage = .completed := by
      refine ⟨_, rfl, rfl, rfl, ?_⟩
      intro i rq isRq
      cases i with
      | zero =>
        cases isRq
        rfl
      | succ => cases isRq
    have settled := (serial.final runs).lastWrite completed
    rw [device, accepted] at settled
    exact absurd settled (by decide)
  intro unmerged
  obtain ⟨s, runs, ignored⟩ : ∃ s, Run.exec (stepOf { value := none } 16)
      [.ioschedCmd (.store 5), .ioschedCmd .retrieve] (start none) = some s ∧ s.ignored = [2] :=
    ⟨_, rfl, rfl⟩
  exact absurd ((unmerged.final runs).symm.trans ignored) (by decide)

end KeyState

end InsDb.Driver
