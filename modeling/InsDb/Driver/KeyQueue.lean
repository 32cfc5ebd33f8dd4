import Mathlib.Logic.Function.Basic
import InsDb.Library.Run

/-!
# The requests of one key

The kernel driver buffers asynchronous commands. Its request hash has at most one request
for a key. A command that finds a request which is still queued is merged into it; one that
finds a request in flight takes its place in the hash and is blocked until that request has
completed.
-/

namespace InsDb.Driver

open InsDb.Library Option

variable {V : Type}

inductive KvCommand (V : Type) where
  | retrieve
  | store (value : V)
  | delete
deriving DecidableEq, Repr

def KvCommand.isWrite : KvCommand V → Bool
  | .retrieve => false
  | .store _ => true
  | .delete => true

structure Content (V : Type) where
  value : Option V
  version : Nat := 0
deriving DecidableEq, Repr

def KvCommand.run (cmd : KvCommand V) (ticket : Nat) (content : Content V) :
    Content V :=
  match cmd with
  | .retrieve => content
  | .store value => { value := some value, version := ticket }
  | .delete => { value := none, version := ticket }

theorem KvCommand.run_of_isWrite {cmd : KvCommand V} (isWrite : cmd.isWrite = true)
    (ticket : Nat) (content other : Content V) :
    cmd.run ticket content = cmd.run ticket other := by
  cases cmd with
  | retrieve => simp [KvCommand.isWrite] at isWrite
  | store => rfl
  | delete => rfl

theorem KvCommand.run_of_not_isWrite {cmd : KvCommand V}
    (notWrite : cmd.isWrite = false) (ticket : Nat) (content : Content V) :
    cmd.run ticket content = content := by
  cases cmd with
  | retrieve => rfl
  | store => simp [KvCommand.isWrite] at notWrite
  | delete => simp [KvCommand.isWrite] at notWrite

inductive Stage where
  -- In a memory queue.
  | queued
  -- At the device.
  | submitted
  -- Completed by the device; in the fifo of the completion daemon.
  | executed
  -- The daemon has run `kv_hash_delete` for it.
  | unhashed
  | completed
  -- Found invalid by the submission daemon.
  | dropped
deriving DecidableEq, Repr

/-- `KV_async_inFlight_rq`. -/
def Stage.inFlight : Stage → Bool
  | .submitted => true
  | .executed => true
  | .unhashed => true
  | _ => false

/-- `struct kv_async_request`. -/
structure AsyncRequest (V : Type) where
  command : KvCommand V
  -- The number of the accepted command that it carries.
  ticket : Nat
  stage : Stage := .queued
  -- `KV_async_invalid_rq` and `KV_async_blocking_rq`.
  invalid : Bool := false
  blocking : Bool := false
  blockingRq : Option Nat := none
  -- What a retrieve read.
  reply : Option (Content V) := none
deriving DecidableEq, Repr

namespace AsyncRequest

def run (rq : AsyncRequest V) (content : Content V) : Content V :=
  rq.command.run rq.ticket content

def submitted (rq : AsyncRequest V) : AsyncRequest V :=
  { rq with stage := if rq.invalid then .dropped else .submitted }

def executed (rq : AsyncRequest V) (content : Content V) : AsyncRequest V :=
  { rq with
    stage := .executed
    reply := if rq.command.isWrite then none else some content }

def completed (rq : AsyncRequest V) : AsyncRequest V :=
  { rq with stage := .completed, blocking := false }

def read (rq : AsyncRequest V) : Option (Content V) :=
  if rq.command.isWrite then none else rq.reply

end AsyncRequest

structure KeyState (V : Type) where
  device : Content V
  -- The request objects, numbered as they are made.
  request : Nat → Option (AsyncRequest V) := fun _ => none
  created : Nat := 0
  -- `KV_RQ_HASH` and `KV_RA_HASH`.
  hash : Option Nat := none
  readahead : Option (Content V) := none
  accepted : List (KvCommand V) := []
  -- The numbers of the commands that the device executed, those that a later one replaced, with
  -- the later one, and those that were ignored.
  executed : List Nat := []
  replaced : List (Nat × Nat) := []
  ignored : List Nat := []

namespace KeyState

def start (initial : Option V) : KeyState V :=
  { device := { value := initial } }

variable (s : KeyState V)

variable (i : Nat)

variable (rq : AsyncRequest V)

def setRequest : KeyState V :=
  { s with request := Function.update s.request i (some rq) }

def addRequest : KeyState V :=
  { s with
    request := Function.update s.request s.created (some rq)
    created := s.created + 1
    hash := some s.created }

variable (cmd : KvCommand V)

def accept : KeyState V :=
  { s with accepted := s.accepted ++ [cmd] }

def nextTicket : Nat :=
  s.accepted.length + 1

def replace (buffered : AsyncRequest V)
    (cmd : KvCommand V) : KeyState V :=
  { s with
    request := Function.update s.request i
      (some { buffered with command := cmd, ticket := s.nextTicket })
    accepted := s.accepted ++ [cmd]
    replaced := s.replaced ++ [(buffered.ticket, s.nextTicket)] }

def ignore : KeyState V :=
  { s with
    accepted := s.accepted ++ [cmd]
    ignored := s.ignored ++ [s.nextTicket] }

/-- `kv_hash_insert`, and what `nvme_kv_iosched_cmd` does to a buffered request that it finds.
None stands for a restart. -/
def ioschedCmd : Option (KeyState V) :=
  let new : AsyncRequest V := { command := cmd, ticket := s.nextTicket }
  match s.hash with
  | none => some ((s.accept cmd).addRequest new)
  | some i =>
    match s.request i with
    | none => none
    | some buffered =>
      if buffered.stage = .completed ∨ buffered.invalid = true ∨ buffered.blocking = true then
        none
      else if buffered.stage.inFlight then
        some (((s.accept cmd).setRequest i
          { buffered with blocking := true }).addRequest { new with blockingRq := some i })
      else if cmd.isWrite then
        some (s.replace i buffered cmd)
      else
        some (s.ignore cmd)

def findInReadahead : Option (KeyState V) :=
  if s.readahead.isSome then some (s.ignore .retrieve) else none

/-- `__nvme_submit_iosched_kv_cmd` for one request of a memory queue without pending ones. -/
def submit : Option (KeyState V) :=
  (s.request i).bind fun rq =>
    if rq.stage = .queued ∧ rq.blockingRq = none then
      some (s.setRequest i rq.submitted)
    else
      none

def execute : Option (KeyState V) :=
  (s.request i).bind fun rq =>
    if rq.stage = .submitted then
      some { s with
        request := Function.update s.request i (some (rq.executed s.device))
        device := rq.run s.device
        executed := s.executed ++ [rq.ticket] }
    else
      none

/-- `kv_hash_delete` in the completion daemon. -/
def hashDelete : Option (KeyState V) :=
  (s.request i).bind fun rq =>
    if rq.stage = .executed then
      some { s with
        request := Function.update s.request i (some { rq with stage := .unhashed })
        hash := s.hash.filter fun hashed => hashed ≠ i }
    else
      none

def unblock : KeyState V :=
  match s.hash with
  | none => s
  | some i =>
    match s.request i with
    | none => s
    | some pending => s.setRequest i { pending with blockingRq := none }

/-- A completed request, with what it read in the read-ahead hash unless there is an entry. -/
def finished : KeyState V :=
  { s with
    request := Function.update s.request i (some rq.completed)
    readahead := s.readahead.or rq.read }

/-- The rest of a round of `kv_completion_workfn`. -/
def complete : Option (KeyState V) :=
  (s.request i).bind fun rq =>
    if rq.stage = .unhashed then
      let done := s.finished i rq
      some (if rq.blocking then done.unblock else done)
    else
      none

end KeyState

inductive KeyStep (V : Type) where
  | ioschedCmd (cmd : KvCommand V)
  | findInReadahead
  | submit (i : Nat)
  | execute (i : Nat)
  | hashDelete (i : Nat)
  | complete (i : Nat)
  -- The entry of the key leaves the read-ahead hash.
  | dropReadahead
deriving DecidableEq, Repr

def KeyState.step (s : KeyState V) : KeyStep V → Option (KeyState V)
  | .ioschedCmd cmd => s.ioschedCmd cmd
  | .findInReadahead => s.findInReadahead
  | .submit i => s.submit i
  | .execute i => s.execute i
  | .hashDelete i => s.hashDelete i
  | .complete i => s.complete i
  | .dropReadahead => some { s with readahead := none }

/-- `KVCMD_INLINE_KEY_MAX`. -/
def kvcmdInlineKeyMax : Nat := 16

/-!
`init_kv_async_request` leaves `key_addr` of a request null if the key is longer than that.  The
device then gets a command without its key, and what a retrieve reads there is up to it.  A search
that meets the request or the entry reads from no address, and the kernel stops.
-/

section Keyless

variable (unkeyed : Content V)

def KeyState.executeKeyless (s : KeyState V) (i : Nat) : Option (KeyState V) :=
  (s.execute i).bind fun executed =>
    (s.request i).map fun rq =>
      { executed with
        request := Function.update s.request i (some (rq.executed unkeyed))
        device := s.device }

/-- `kv_hash_insert_readahead` searches for the key as well. -/
def KeyState.completeKeyless (s : KeyState V) (i : Nat) : Option (KeyState V) :=
  if s.readahead.isSome && (s.request i).any (!·.command.isWrite) then none else s.complete i

/-- A retrieve also looks into the read-ahead hash. -/
def KeyState.ioschedCmdKeyless (s : KeyState V) (cmd : KvCommand V) : Option (KeyState V) :=
  if s.hash.isSome || (!cmd.isWrite && s.readahead.isSome) then none else s.ioschedCmd cmd

def KeyState.stepKeyless (s : KeyState V) : KeyStep V → Option (KeyState V)
  | .ioschedCmd cmd => s.ioschedCmdKeyless cmd
  | .findInReadahead => none
  | .execute i => s.executeKeyless unkeyed i
  | .complete i => s.completeKeyless i
  | step => s.step step

/-- A step for a key of any length. -/
def KeyState.stepOf (keyLength : Nat) : KeyState V → KeyStep V → Option (KeyState V) :=
  if keyLength ≤ kvcmdInlineKeyMax then KeyState.step else KeyState.stepKeyless unkeyed

end Keyless

namespace KeyState

variable {s next : KeyState V} {i : Nat}

inductive Accepts (s : KeyState V) (cmd : KvCommand V) : KeyState V → Prop where
  | fresh (unhashed : s.hash = none) :
      Accepts s cmd
        ((s.accept cmd).addRequest { command := cmd, ticket := s.nextTicket })
  | behind (i : Nat) (buffered : AsyncRequest V) (hashed : s.hash = some i)
      (isBuffered : s.request i = some buffered)
      (inFlight : buffered.stage.inFlight = true) :
      Accepts s cmd
        (((s.accept cmd).setRequest i { buffered with blocking := true }).addRequest
          { command := cmd, ticket := s.nextTicket, blockingRq := some i })
  | replacing (i : Nat) (buffered : AsyncRequest V) (hashed : s.hash = some i)
      (isBuffered : s.request i = some buffered)
      (waits : buffered.stage.inFlight = false) (isWrite : cmd.isWrite = true) :
      Accepts s cmd (s.replace i buffered cmd)
  | ignored (i : Nat) (buffered : AsyncRequest V) (hashed : s.hash = some i)
      (isBuffered : s.request i = some buffered)
      (waits : buffered.stage.inFlight = false) (isRead : cmd.isWrite = false) :
      Accepts s cmd (s.ignore cmd)

theorem accepts_of_ioschedCmd {cmd : KvCommand V}
    (taken : s.ioschedCmd cmd = some next) : Accepts s cmd next := by
  unfold ioschedCmd at taken
  cases hashed : s.hash with
  | none =>
    simp only [hashed, some.injEq] at taken
    rw [← taken]
    exact .fresh hashed
  | some i =>
    simp only [hashed] at taken
    cases isBuffered : s.request i with
    | none => simp [isBuffered] at taken
    | some buffered =>
      simp only [isBuffered] at taken
      split_ifs at taken with unusable inFlight isWrite
      · rw [← some.inj taken]
        exact .behind i buffered hashed isBuffered inFlight
      · rw [← some.inj taken]
        exact .replacing i buffered hashed isBuffered (Bool.not_eq_true _ ▸ inFlight) isWrite
      rw [← some.inj taken]
      exact .ignored i buffered hashed isBuffered (Bool.not_eq_true _ ▸ inFlight)
        (Bool.not_eq_true _ ▸ isWrite)

theorem findInReadahead_cases (taken : s.findInReadahead = some next) :
    next = s.ignore .retrieve := by
  unfold findInReadahead at taken
  split_ifs at taken
  exact (some.inj taken).symm

theorem submit_cases (taken : s.submit i = some next) :
    ∃ rq, s.request i = some rq ∧ rq.stage = .queued ∧ rq.blockingRq = none ∧
      next = s.setRequest i rq.submitted := by
  obtain ⟨rq, isRq, submits⟩ := bind_eq_some_iff.mp taken
  split_ifs at submits with ready
  exact ⟨rq, isRq, ready.1, ready.2, (some.inj submits).symm⟩

theorem execute_cases (taken : s.execute i = some next) :
    ∃ rq, s.request i = some rq ∧ rq.stage = .submitted ∧ next = { s with
        request := Function.update s.request i (some (rq.executed s.device))
        device := rq.run s.device
        executed := s.executed ++ [rq.ticket] } := by
  obtain ⟨rq, isRq, executes⟩ := bind_eq_some_iff.mp taken
  split_ifs at executes with sent
  exact ⟨rq, isRq, sent, (some.inj executes).symm⟩

theorem hashDelete_cases (taken : s.hashDelete i = some next) :
    ∃ rq, s.request i = some rq ∧ rq.stage = .executed ∧ next = { s with
        request := Function.update s.request i (some { rq with stage := .unhashed })
        hash := s.hash.filter fun hashed => hashed ≠ i } := by
  obtain ⟨rq, isRq, deletes⟩ := bind_eq_some_iff.mp taken
  split_ifs at deletes with executed
  exact ⟨rq, isRq, executed, (some.inj deletes).symm⟩

theorem complete_cases (taken : s.complete i = some next) :
    ∃ rq, s.request i = some rq ∧ rq.stage = .unhashed ∧
      ((rq.blocking = true ∧ next = (s.finished i rq).unblock) ∨
        (rq.blocking = false ∧ next = s.finished i rq)) := by
  obtain ⟨rq, isRq, completes⟩ := bind_eq_some_iff.mp taken
  by_cases unhashed : rq.stage = .unhashed
  · rw [if_pos unhashed] at completes
    refine ⟨rq, isRq, unhashed, ?_⟩
    cases blocking : rq.blocking with
    | true =>
      simp only [blocking, if_true] at completes
      exact .inl ⟨rfl, (some.inj completes).symm⟩
    | false =>
      simp only [blocking] at completes
      exact .inr ⟨rfl, (some.inj completes).symm⟩
  · rw [if_neg unhashed] at completes
    cases completes

end KeyState

end InsDb.Driver
