import InsDb.Driver.SyncGet

/-!
# The versions of a key

Every content of a key that the driver passes on is what the accepted commands leave, up to the
one whose number the content has.  The device advances to the newest content through the commands
that it has still to execute, those of the requests and then one that a synchronous get carries.
-/

namespace InsDb.Driver

open InsDb.Library List Function

variable {V : Type}

theorem KvCommand.version_run {cmd : KvCommand V} (isWrite : cmd.isWrite = true)
    (ticket : Nat) (content : Content V) : (cmd.run ticket content).version = ticket := by
  cases cmd with
  | retrieve => simp [KvCommand.isWrite] at isWrite
  | store => rfl
  | delete => rfl

def runAll (commands : List (KvCommand V × Nat)) (content : Content V) : Content V :=
  commands.foldl (fun content (cmd, ticket) => cmd.run ticket content) content

@[simp] theorem runAll_cons (pair : KvCommand V × Nat) (rest : List (KvCommand V × Nat))
    (content : Content V) :
    runAll (pair :: rest) content = runAll rest (pair.1.run pair.2 content) :=
  rfl

theorem runAll_append (front back : List (KvCommand V × Nat)) (content : Content V) :
    runAll (front ++ back) content = runAll back (runAll front content) :=
  foldl_append

theorem runAll_of_reads {cmds : List (KvCommand V × Nat)}
    (reads : ∀ pair ∈ cmds, pair.1.isWrite = false) (content : Content V) :
    runAll cmds content = content := by
  induction cmds generalizing content with
  | nil => rfl
  | cons pair rest ih =>
    rw [runAll_cons, KvCommand.run_of_not_isWrite (reads pair (by simp))]
    exact ih (fun other mem => reads other (by simp [mem])) content

def newest (initial : Option V) (accepted : List (KvCommand V)) : Content V :=
  settled { value := initial } accepted

/-- A content is what the accepted commands leave, up to the one whose number it has. -/
structure Held (initial : Option V) (accepted : List (KvCommand V))
    (content : Content V) : Prop where
  known : content.version ≤ accepted.length
  left : content = newest initial (accepted.take content.version)

variable {initial : Option V} {accepted : List (KvCommand V)} {content : Content V}

theorem newest_accept (cmd : KvCommand V) : newest initial (accepted ++ [cmd]) =
      cmd.run (accepted.length + 1) (newest initial accepted) :=
  settled_append _ accepted cmd

theorem newest_accept_read {cmd : KvCommand V} (isRead : cmd.isWrite = false) :
    newest initial (accepted ++ [cmd]) = newest initial accepted := by
  rw [newest_accept, KvCommand.run_of_not_isWrite isRead]

namespace Held

theorem accept (held : Held initial accepted content) (cmd : KvCommand V) :
    Held initial (accepted ++ [cmd]) content where
  known := by
    rw [length_append]
    exact held.known.trans (Nat.le_add_right _ _)
  left := by
    rw [take_append_of_le_length held.known]
    exact held.left

theorem of_write {cmd : KvCommand V} {ticket : Nat} (positive : 0 < ticket)
    (carried : accepted[ticket - 1]? = some cmd) (isWrite : cmd.isWrite = true)
    (pre : Content V) : Held initial accepted (cmd.run ticket pre) := by
  obtain ⟨inside, isCommand⟩ := List.getElem?_eq_some_iff.mp carried
  have version := KvCommand.version_run isWrite ticket pre
  have upTo : accepted.take ticket = accepted.take (ticket - 1) ++ [cmd] := by
    have last := take_succ_eq_append_getElem inside
    rwa [Nat.sub_add_cancel positive, isCommand] at last
  have number : (accepted.take (ticket - 1)).length + 1 = ticket := by
    rw [length_take]
    omega
  constructor
  · rw [version]
    omega
  rw [version, upTo, newest_accept, number]
  exact KvCommand.run_of_isWrite isWrite ticket _ _

end Held

theorem held_newest (initial : Option V) (accepted : List (KvCommand V)) :
    Held initial accepted (newest initial accepted) := by
  induction accepted using reverseRecOn with
  | nil => exact ⟨Nat.le_refl 0, rfl⟩
  | append_singleton pre cmd ih =>
    rw [newest_accept]
    cases isWrite : cmd.isWrite with
    | false =>
      rw [KvCommand.run_of_not_isWrite isWrite]
      exact ih.accept cmd
    | true => exact Held.of_write (Nat.succ_pos _) (by simp) isWrite _

theorem version_newest_accept (initial : Option V) (accepted : List (KvCommand V))
    (cmd : KvCommand V) :
    (newest initial accepted).version ≤ (newest initial (accepted ++ [cmd])).version := by
  rw [newest_accept]
  cases isWrite : cmd.isWrite with
  | false => rw [KvCommand.run_of_not_isWrite isWrite]
  | true =>
    rw [KvCommand.version_run isWrite]
    exact (held_newest initial accepted).known.trans (Nat.le_succ _)

structure Passes (rq after : AsyncRequest V) : Prop where
  ticket : after.ticket = rq.ticket
  command : after.command = rq.command
  reply : after.reply = rq.reply
  stage : after.stage = rq.stage ∨
    (rq.stage = .queued ∧ (after.stage = .submitted ∨ after.stage = .dropped)) ∨
    (rq.stage = .executed ∧ after.stage = .unhashed) ∨
    (rq.stage = .unhashed ∧ after.stage = .completed)

theorem Passes.refl (rq : AsyncRequest V) : Passes rq rq := ⟨rfl, rfl, rfl, Or.inl rfl⟩

namespace KeyState

structure Passing (s next : KeyState V) : Prop where
  back : ∀ i after, next.request i = some after →
    ∃ rq, s.request i = some rq ∧ Passes rq after
  forth : ∀ i rq, s.request i = some rq →
    ∃ after, next.request i = some after ∧ Passes rq after

namespace Passing

variable {s next : KeyState V}

variable {index : Nat}

theorem update {rq post : AsyncRequest V} (isRq : s.request index = some rq)
    (passes : Passes rq post)
    (requests : next.request = Function.update s.request index (some post)) :
    Passing s next where
  back := by
    intro i other isOther
    rw [requests] at isOther
    rcases update_eq_some isOther with ⟨rfl, rfl⟩ | ⟨-, isBefore⟩
    · exact ⟨rq, isRq, passes⟩
    · exact ⟨other, isBefore, Passes.refl other⟩
  forth := by
    intro i pre isBefore
    rw [requests]
    by_cases same : i = index
    · subst same
      rw [isRq] at isBefore
      cases isBefore
      exact ⟨post, update_self .., passes⟩
    · exact ⟨pre, (update_of_ne same ..).trans isBefore, Passes.refl pre⟩

theorem relinked {between : KeyState V} (passing : Passing s between)
    {rq post : AsyncRequest V} (isRq : between.request index = some rq)
    (requests : next.request = Function.update between.request index (some post))
    (ticket : post.ticket = rq.ticket) (cmd : post.command = rq.command)
    (reply : post.reply = rq.reply) (stage : post.stage = rq.stage) :
    Passing s next := by
  have same : ∀ {first : AsyncRequest V}, Passes first rq → Passes first post := by
    intro first passes
    refine ⟨ticket.trans passes.ticket, cmd.trans passes.command, reply.trans passes.reply, ?_⟩
    rw [stage]
    exact passes.stage
  constructor
  · intro i other isOther
    rw [requests] at isOther
    rcases update_eq_some isOther with ⟨rfl, rfl⟩ | ⟨-, isBefore⟩
    · obtain ⟨first, isFirst, passes⟩ := passing.back i rq isRq
      exact ⟨first, isFirst, same passes⟩
    · exact passing.back i other isBefore
  intro i first isFirst
  obtain ⟨other, isOther, passes⟩ := passing.forth i first isFirst
  rw [requests]
  by_cases isIndex : i = index
  · subst isIndex
    rw [isRq] at isOther
    cases isOther
    exact ⟨post, update_self .., same passes⟩
  · exact ⟨other, (update_of_ne isIndex ..).trans isOther, passes⟩

theorem submit (taken : s.submit index = some next) : Passing s next := by
  obtain ⟨rq, isRq, queued, -, rfl⟩ := submit_cases taken
  apply Passing.update isRq _ rfl
  refine ⟨rfl, rfl, rfl, Or.inr (.inl ⟨queued, ?_⟩)⟩
  cases invalid : rq.invalid <;> simp [AsyncRequest.submitted, invalid]

theorem hashDelete (taken : s.hashDelete index = some next) : Passing s next := by
  obtain ⟨_, isRq, executed, rfl⟩ := hashDelete_cases taken
  apply Passing.update isRq _ rfl
  exact ⟨rfl, rfl, rfl, Or.inr (.inr (.inl ⟨executed, rfl⟩))⟩

theorem complete (linked : s.Linked) (taken : s.complete index = some next) : Passing s next := by
  obtain ⟨rq, isRq, unhashed, blocking⟩ := complete_cases taken
  have finished : Passing s (s.finished index rq) := by
    apply Passing.update isRq _ rfl
    exact ⟨rfl, rfl, rfl, Or.inr (.inr (.inr ⟨unhashed, rfl⟩))⟩
  rcases blocking with ⟨blocking, rfl⟩ | ⟨-, rfl⟩
  · obtain ⟨j, pending, -, pends, apart, -, -, unblocked⟩ :=
      linked.unblock_finished isRq blocking
    rw [unblocked]
    have stillPending : (s.finished index rq).request j = some pending :=
      (update_of_ne apart ..).trans pends
    exact finished.relinked stillPending rfl rfl rfl rfl rfl
  · exact finished

end Passing

theorem owes_of_submit {s next : KeyState V} (linked : s.Linked) {index : Nat}
    (taken : s.submit index = some next) : next.owes = s.owes := by
  obtain ⟨rq, isRq, queued, unblocked, rfl⟩ := submit_cases taken
  cases invalid : rq.invalid with
  | false => exact owes_submit linked isRq queued unblocked invalid
  | true =>
    have sameHash : (s.setRequest index rq.submitted).hash = s.hash := rfl
    apply owes_congr sameHash _ linked
    intro hashedIndex hashedRq hashed isHashed
    have apart : hashedIndex ≠ index := by
      rintro rfl
      have valid := (linked.hashed_request isRq hashed).1
      simp [invalid] at valid
    refine ⟨(update_of_ne apart ..).trans isHashed, ?_⟩
    intro j link
    obtain ⟨-, -, blocker, isBlocker, blocking⟩ :=
      linked.blocked hashedIndex hashedRq j isHashed link
    have notBlocker : j ≠ index := by
      rintro rfl
      have inFlight := (linked.blocks j blocker isBlocker blocking).1
      rw [isRq] at isBlocker
      cases isBlocker
      simp [queued, Stage.inFlight] at inFlight
    exact update_of_ne notBlocker ..

section Unblock

variable (s : KeyState V)

@[simp] theorem unblock_device : s.unblock.device = s.device := by
  unfold unblock
  split
  · rfl
  · split <;> rfl

@[simp] theorem unblock_accepted : s.unblock.accepted = s.accepted := by
  unfold unblock
  split
  · rfl
  · split <;> rfl

@[simp] theorem unblock_readahead : s.unblock.readahead = s.readahead := by
  unfold unblock
  split
  · rfl
  · split <;> rfl

end Unblock

theorem complete_effect {s next : KeyState V} {index : Nat} (taken : s.complete index = some next) :
    next.device = s.device ∧ next.accepted = s.accepted ∧
      ∃ rq, s.request index = some rq ∧ rq.stage = .unhashed ∧
        next.readahead = s.readahead.or rq.read := by
  obtain ⟨rq, isRq, unhashed, ⟨-, rfl⟩ | ⟨-, rfl⟩⟩ := complete_cases taken
  · rw [unblock_device, unblock_accepted, unblock_readahead]
    exact ⟨rfl, rfl, rq, isRq, unhashed, rfl⟩
  · exact ⟨rfl, rfl, rq, isRq, unhashed, rfl⟩

structure Tracked (initial : Option V) (carried : List (KvCommand V × Nat))
    (s : KeyState V) : Prop where
  linked : s.Linked
  carries : ∀ i rq, s.request i = some rq →
    0 < rq.ticket ∧ s.accepted[rq.ticket - 1]? = some rq.command
  device : Held initial s.accepted s.device
  owed : ∀ pair ∈ s.owes ++ carried,
    s.device.version < pair.2 ∧ s.accepted[pair.2 - 1]? = some pair.1
  ascending : (s.owes ++ carried).Pairwise fun pair later => pair.2 < later.2
  content : runAll (s.owes ++ carried) s.device = newest initial s.accepted
  -- A synchronous get takes over a command only when nothing else is on its way.
  alone : carried ≠ [] → s.owes = []

theorem tracked_start (initial : Option V) : Tracked initial [] (start initial) where
  linked := Linked.start initial
  carries := nofun
  device := ⟨Nat.le_refl 0, rfl⟩
  owed := nofun
  ascending := List.Pairwise.nil
  content := rfl
  alone := by
    intro carried
    exact absurd rfl carried

namespace Tracked

variable {s next : KeyState V} {carried : List (KvCommand V × Nat)}

theorem content_of_quiet (tracked : Tracked initial [] s) :
    runAll s.owes s.device = newest initial s.accepted := by
  have content := tracked.content
  rwa [append_nil] at content

variable {pair : KvCommand V × Nat}

theorem version_le_run (tracked : Tracked initial carried s) (mem : pair ∈ s.owes ++ carried) :
    s.device.version ≤ (pair.1.run pair.2 s.device).version := by
  cases isWrite : pair.1.isWrite with
  | false => rw [KvCommand.run_of_not_isWrite isWrite]
  | true =>
    rw [KvCommand.version_run isWrite]
    exact (tracked.owed pair mem).1.le

theorem ticket_le (tracked : Tracked initial carried s) (mem : pair ∈ s.owes ++ carried)
    : pair.2 ≤ s.accepted.length := by
  obtain ⟨_, -⟩ := List.getElem?_eq_some_iff.mp (tracked.owed pair mem).2
  omega

theorem still (tracked : Tracked initial carried s) (linked : next.Linked)
    (passing : Passing s next) (dev : next.device =
      s.device) (accepted : next.accepted = s.accepted)
    (owes : next.owes = s.owes) : Tracked initial carried next where
  linked := linked
  carries := by
    intro i rq isRq
    obtain ⟨pre, isBefore, passes⟩ := passing.back i rq isRq
    rw [accepted, passes.ticket, passes.command]
    exact tracked.carries i pre isBefore
  device := by
    rw [accepted, dev]
    exact tracked.device
  owed := by
    rw [owes, dev, accepted]
    exact tracked.owed
  ascending := by
    rw [owes]
    exact tracked.ascending
  content := by
    rw [owes, dev, accepted]
    exact tracked.content
  alone := by
    rw [owes]
    exact tracked.alone

variable {cmd : KvCommand V}

theorem owing (tracked : Tracked initial [] s) {front : List (KvCommand V × Nat)}
    (linked : next.Linked) (requests : ∀ i rq, next.request i = some rq →
      (∃ pre, s.request i = some pre ∧ rq.ticket = pre.ticket ∧
      rq.command = pre.command) ∨ (rq.ticket = s.nextTicket ∧ rq.command = cmd))
    (dev : next.device = s.device) (accepted : next.accepted = s.accepted ++ [cmd])
    (pre : front.Sublist s.owes) (owes : next.owes = front ++ [(cmd, s.nextTicket)])
    (content : cmd.run s.nextTicket (runAll front s.device) =
      newest initial (s.accepted ++ [cmd])) :
    Tracked initial [] next where
  linked := linked
  carries := by
    intro i rq isRq
    rw [accepted]
    rcases requests i rq isRq with
      ⟨pre, isBefore, sameTicket, sameCommand⟩ | ⟨isTicket, isCommand⟩
    · obtain ⟨positive, carried⟩ := tracked.carries i pre isBefore
      rw [sameTicket, sameCommand]
      exact ⟨positive, Ordered.getElem?_accept s.accepted cmd carried⟩
    rw [isTicket, isCommand]
    exact ⟨Nat.succ_pos _, by simp [nextTicket]⟩
  device := by
    rw [accepted, dev]
    exact tracked.device.accept cmd
  owed := by
    rw [owes, dev, accepted, append_nil]
    intro pair mem
    rcases mem_append.mp mem with inFront | isNew
    · have wasOwed : pair ∈ s.owes ++ [] := mem_append_left _ (pre.subset inFront)
      obtain ⟨behind, carried⟩ := tracked.owed pair wasOwed
      exact ⟨behind, Ordered.getElem?_accept s.accepted cmd carried⟩
    rw [mem_singleton.mp isNew]
    refine ⟨Nat.lt_succ_of_le tracked.device.known, ?_⟩
    simp [nextTicket]
  ascending := by
    rw [owes, append_nil]
    have ascending := tracked.ascending
    rw [append_nil] at ascending
    apply pairwise_append.mpr
    refine ⟨ascending.sublist pre, pairwise_singleton _ _, ?_⟩
    intro pair inFront _ isNew
    have wasOwed : pair ∈ s.owes ++ [] := mem_append_left _ (pre.subset inFront)
    rw [mem_singleton.mp isNew]
    exact Nat.lt_succ_of_le (tracked.ticket_le wasOwed)
  content := by
    rw [owes, dev, accepted, append_nil, runAll_append]
    exact content
  alone := by
    intro carried
    exact absurd rfl carried

theorem ignore (tracked : Tracked initial carried s) (isRead : cmd.isWrite = false) :
    Tracked initial carried (s.ignore cmd) where
  linked := tracked.linked.congr rfl rfl rfl
  carries := by
    intro i rq isRq
    obtain ⟨positive, carried⟩ := tracked.carries i rq isRq
    exact ⟨positive, Ordered.getElem?_accept s.accepted cmd carried⟩
  device := tracked.device.accept cmd
  owed := by
    intro pair mem
    obtain ⟨behind, carried⟩ := tracked.owed pair mem
    exact ⟨behind, Ordered.getElem?_accept s.accepted cmd carried⟩
  ascending := tracked.ascending
  content := tracked.content.trans (newest_accept_read isRead).symm
  alone := tracked.alone

theorem executing (tracked : Tracked initial carried s) (linked : next.Linked)
    (requests : ∀ i rq, next.request i = some rq →
      ∃ pre, s.request i = some pre ∧ rq.ticket = pre.ticket ∧ rq.command = pre.command)
    {later : List (KvCommand V × Nat)} (dev : next.device = pair.1.run pair.2 s.device)
    (accepted : next.accepted = s.accepted)
    (first : s.owes ++ carried = pair :: (next.owes ++ later))
    (alone : later ≠ [] → next.owes = []) : Tracked initial later next where
  linked := linked
  carries := by
    intro i rq isRq
    obtain ⟨pre, isBefore, sameTicket, sameCommand⟩ := requests i rq isRq
    rw [accepted, sameTicket, sameCommand]
    exact tracked.carries i pre isBefore
  device := by
    have isOwed : pair ∈ s.owes ++ carried := by simp [first]
    obtain ⟨behind, isAccepted⟩ := tracked.owed pair isOwed
    rw [accepted, dev]
    cases isWrite : pair.1.isWrite with
    | false =>
      rw [KvCommand.run_of_not_isWrite isWrite]
      exact tracked.device
    | true => exact Held.of_write (Nat.zero_lt_of_lt behind) isAccepted isWrite _
  owed := by
    intro other mem
    have isOwed : other ∈ s.owes ++ carried := by
      rw [first]
      exact mem_cons_of_mem _ mem
    obtain ⟨behind, isAccepted⟩ := tracked.owed other isOwed
    have ascending := tracked.ascending
    rw [first, pairwise_cons] at ascending
    rw [accepted, dev]
    cases isWrite : pair.1.isWrite with
    | false =>
      rw [KvCommand.run_of_not_isWrite isWrite]
      exact ⟨behind, isAccepted⟩
    | true =>
      rw [KvCommand.version_run isWrite]
      exact ⟨ascending.1 other mem, isAccepted⟩
  ascending := by
    have ascending := tracked.ascending
    rw [first, pairwise_cons] at ascending
    exact ascending.2
  content := by
    have content := tracked.content
    rw [first, runAll_cons] at content
    rw [dev, accepted]
    exact content
  alone := alone

theorem ioschedCmd (tracked : Tracked initial [] s)
    (taken : s.ioschedCmd cmd = some next) : Tracked initial [] next := by
  have linked := tracked.linked.ioschedCmd taken
  have appended : cmd.run s.nextTicket (runAll s.owes s.device) =
      newest initial (s.accepted ++ [cmd]) := by
    rw [tracked.content_of_quiet, newest_accept]
    rfl
  cases accepts_of_ioschedCmd taken with
  | fresh unhashed =>
    have nothing : s.owes = [] := owes_of_unhashed unhashed
    apply tracked.owing linked _ rfl rfl (List.Sublist.refl _) _ appended
    · intro i rq isRq
      rcases update_eq_some isRq with ⟨-, rfl⟩ | ⟨-, isBefore⟩
      · exact .inr ⟨rfl, rfl⟩
      · exact .inl ⟨rq, isBefore, rfl, rfl⟩
    rw [owes_addRequest_fresh rfl rfl, nothing]
    rfl
  | behind index buffered hashed isBuffered inFlight =>
    have atDevice := tracked.linked.atDevice_of_inFlight isBuffered hashed inFlight
    apply tracked.owing linked _ rfl rfl (List.Sublist.refl _) _ appended
    · intro i rq isRq
      rcases update_eq_some isRq with ⟨-, rfl⟩ | ⟨-, isOther⟩
      · exact .inr ⟨rfl, rfl⟩
      rcases update_eq_some isOther with ⟨rfl, rfl⟩ | ⟨-, isBefore⟩
      · exact .inl ⟨buffered, isBuffered, rfl, rfl⟩
      · exact .inl ⟨rq, isBefore, rfl, rfl⟩
    · have acceptLinked := tracked.linked.congr rfl rfl rfl
      have isHashed := hashed
      have isRq := isBuffered
      exact owes_addRequest_behind acceptLinked isHashed isRq atDevice rfl rfl
  | replacing index buffered hashed isBuffered waits isWrite =>
    obtain ⟨front, owed, owes⟩ := owes_replace tracked.linked hashed isBuffered waits cmd
    have inFront : front.Sublist s.owes := by
      rw [owed]
      exact sublist_append_left _ _
    apply tracked.owing linked _ rfl rfl inFront owes
    · exact (KvCommand.run_of_isWrite isWrite _ _ _).trans appended
    intro _ rq isRq
    rcases update_eq_some isRq with ⟨-, rfl⟩ | ⟨-, isBefore⟩
    · exact .inr ⟨rfl, rfl⟩
    · exact .inl ⟨rq, isBefore, rfl, rfl⟩
  | ignored index buffered hashed isBuffered waits isRead => exact tracked.ignore isRead

variable {index : Nat}

section

variable (tracked : Tracked initial carried s)

include tracked

theorem submit (taken : s.submit index = some next) : Tracked initial carried next := by
  have owes := owes_of_submit tracked.linked taken
  have linked := tracked.linked.submit taken
  have passing := Passing.submit taken
  obtain ⟨_, -, -, -, rfl⟩ := submit_cases taken
  exact tracked.still linked passing rfl rfl owes

theorem hashDelete (taken : s.hashDelete index = some next) : Tracked initial carried next := by
  have owes := owes_hashDelete tracked.linked taken
  have linked := tracked.linked.hashDelete taken
  have passing := Passing.hashDelete taken
  obtain ⟨_, -, -, rfl⟩ := hashDelete_cases taken
  exact tracked.still linked passing rfl rfl owes

theorem complete (taken : s.complete index = some next) : Tracked initial carried next := by
  obtain ⟨dev, accepted, -⟩ := complete_effect taken
  exact tracked.still (tracked.linked.complete taken) (Passing.complete tracked.linked taken) dev
    accepted (owes_complete tracked.linked taken)

theorem execute (taken : s.execute index = some next) : Tracked initial carried next := by
  have linked := tracked.linked.execute taken
  obtain ⟨rq, isRq, sent, rfl⟩ := execute_cases taken
  let new : KeyState V := { s with
    request := update s.request index (some (rq.executed s.device))
    device := rq.run s.device
    executed := s.executed ++ [rq.ticket] }
  have owed : s.owes = (rq.command, rq.ticket) :: new.owes :=
    owes_execute tracked.linked isRq sent rfl rfl
  have alone : carried ≠ [] → new.owes = [] := by
    intro carries
    have nothing := tracked.alone carries
    simp [owed] at nothing
  have first : s.owes ++ carried = (rq.command, rq.ticket) :: (new.owes ++ carried) := by
    rw [owed]
    rfl
  have dev : new.device = rq.command.run rq.ticket s.device := rfl
  apply tracked.executing linked _ dev rfl first alone
  intro _ other isOther
  rcases update_eq_some isOther with ⟨rfl, rfl⟩ | ⟨-, isBefore⟩
  · exact ⟨rq, isRq, rfl, rfl⟩
  · exact ⟨other, isBefore, rfl, rfl⟩

end

variable {rq : AsyncRequest V}

theorem owes_buffered (tracked : Tracked initial [] s) (hashed : s.hash = some index)
    (isRq : s.request index = some rq) (waits : rq.stage.inFlight = false)
    (unblocked : rq.blockingRq = none) :
    s.owes = [(rq.command, rq.ticket)] := by
  have queued := tracked.linked.queued_of_waits isRq hashed waits
  rw [owes_of_unblocked hashed isRq unblocked]
  simp [AsyncRequest.owes, queued]

theorem linked_takeOver (linked : s.Linked) (hashed : s.hash = some index)
    (isRq : s.request index = some rq) (waits : rq.stage.inFlight = false)
    (unblocked : rq.blockingRq = none) :
    (s.takeOver index rq).Linked := by
  have requests : (s.takeOver index rq).request =
      update s.request index (some { rq with invalid := true }) := rfl
  apply linked.leaveHash hashed isRq unblocked _ _ _ _ requests rfl rfl
  · intro _
    rfl
  · intro atDevice
    have inFlight := Stage.AtDevice.inFlight atDevice
    simp [inFlight] at waits
  · rfl
  · rfl

theorem takeOver_requests (isRq : s.request index = some rq) : Passing s (s.takeOver index rq) := by
  have passes : Passes rq { rq with invalid := true } := ⟨rfl, rfl, rfl, Or.inl rfl⟩
  exact Passing.update isRq passes rfl

theorem takeOver (tracked : Tracked initial [] s) (hashed : s.hash = some index)
    (isRq : s.request index = some rq) (waits : rq.stage.inFlight = false)
    (unblocked : rq.blockingRq = none) :
    Tracked initial [(rq.command, rq.ticket)] (s.takeOver index rq) := by
  have owed := tracked.owes_buffered hashed isRq waits unblocked
  have nothing : (s.takeOver index rq).owes = [] := owes_of_unhashed rfl
  have same : (s.takeOver index rq).owes ++ [(rq.command, rq.ticket)] = s.owes ++ [] := by
    rw [nothing, owed]
    rfl
  constructor
  · exact linked_takeOver tracked.linked hashed isRq waits unblocked
  · intro i other isOther
    obtain ⟨pre, isBefore, passes⟩ := (takeOver_requests isRq).back i other isOther
    rw [passes.ticket, passes.command]
    exact tracked.carries i pre isBefore
  · exact tracked.device
  · rw [same]
    exact tracked.owed
  · rw [same]
    exact tracked.ascending
  · rw [same]
    exact tracked.content
  intro _
  exact nothing

theorem carryOut (tracked : Tracked initial [pair] s) :
    Tracked initial [] { s with device := pair.1.run pair.2 s.device } := by
  have nothing := tracked.alone (cons_ne_nil _ _)
  let next : KeyState V := { s with device := pair.1.run pair.2 s.device }
  have linked : next.Linked := tracked.linked.congr rfl rfl rfl
  have dev : next.device = pair.1.run pair.2 s.device := rfl
  have first : s.owes ++ [pair] = pair :: (next.owes ++ []) := by
    have same : next.owes = s.owes := rfl
    rw [same, nothing]
    rfl
  apply tracked.executing linked _ dev rfl first
  · intro carries
    exact absurd rfl carries
  intro _ rq isRq
  exact ⟨rq, isRq, rfl, rfl⟩

theorem cancel (tracked : Tracked initial [] s) (hashed : s.hash = some index)
    (isRq : s.request index = some rq) (waits : rq.stage.inFlight = false)
    (unblocked : rq.blockingRq = none) (isRead : rq.command.isWrite = false) :
    Tracked initial [] (s.takeOver index rq) := by
  have carried := (tracked.takeOver hashed isRq waits unblocked).carryOut
  rwa [KvCommand.run_of_not_isWrite isRead] at carried

end Tracked

end KeyState

end InsDb.Driver
