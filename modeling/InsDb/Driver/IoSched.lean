import InsDb.Driver.CarriedKey

/-!
# Memory queues, daemons and flushes

An asynchronous command puts its request into the active memory queue of its CPU, or into
the queue of its batch. A scheduling daemon moves an active queue to the list of a
submission daemon, which takes the queues without pending requests off the list, one at a
time, and submits their requests.
-/

namespace InsDb.Driver

open InsDb.Library

/-- `ACTIVE_READ` and `ACTIVE_WRITE`. -/
inductive MemqType where
  | read
  | write
deriving DecidableEq, Repr

inductive Daemon where
  | read
  | write
  | batchRead
  | batchWrite
deriving DecidableEq, Repr

def MemqType.daemon : MemqType → Daemon
  | .read => .read
  | .write => .write

/-- The memory queues that are ever made: those of a CPU one after the other, and one for each
call of `nvme_kv_multi_iosched_cmd`. -/
inductive Memq where
  | percpu (cpu : Nat) (type : MemqType) (generation : Nat)
  | batch (call : Nat)
deriving DecidableEq, Repr

inductive Place where
  | filling
  -- In the `mumemq_list` of a daemon.
  | mutable (daemon : Daemon)
  | submitting (daemon : Daemon)
deriving DecidableEq, Repr

variable {K V : Type}

inductive FlushPhase (K : Type) where
  | begun
  -- The CPUs whose active queue is still to be scheduled, and the request found by its key.
  | scheduling (cpus : List Nat) (found : Option (K × Nat))
  -- The request whose `KV_async_flush_wakeup` was set, with the requests of its queue.
  | waiting (rq : K × Nat) (memq : List (K × Nat))
  | returned
deriving DecidableEq, Repr

/-- A call of `nvme_kv_flush_cmd` for writes. -/
structure Flush (K : Type) where
  key : Option K
  -- The requests with a write that were not done when it was called.
  before : List (K × Nat)
  phase : FlushPhase K := .begun
deriving DecidableEq, Repr

structure IoSched (K V : Type) where
  cpus : Nat
  keys : K → CarriedKey V
  -- The keys that have had a request.
  touched : List K := []
  rqs : Memq → List (K × Nat) := fun _ => []
  place : Memq → Place := fun _ => .filling
  generation : Nat → MemqType → Nat := fun _ _ => 0
  batchDaemon : Nat → Option Daemon := fun _ => none
  mumemqList : Daemon → List Memq := fun _ => []
  submitting : Daemon → Option Memq := fun _ => none
  flush : Nat → Option (Flush K) := fun _ => none
  flushes : Nat := 0

namespace IoSched

def start (cpus : Nat) (initial : K → Option V) : IoSched K V :=
  { cpus := cpus
    keys := fun key => { key := KeyState.start (initial key) } }

def request (s : IoSched K V) (rq : K × Nat) : Option (AsyncRequest V) :=
  (s.keys rq.1).key.request rq.2

def done (s : IoSched K V) (rq : K × Nat) : Bool :=
  (s.keys rq.1).done rq.2

def activeMemq (s : IoSched K V) (cpu : Nat) (type : MemqType) : Memq :=
  .percpu cpu type (s.generation cpu type)

/-- `nr_pending` of a memory queue is not 0. -/
def pending (s : IoSched K V) (memq : Memq) : Bool :=
  (s.rqs memq).any fun rq =>
    (s.request rq).any fun request => request.blockingRq.isSome

section Steps

variable [DecidableEq K]

variable (s : IoSched K V)

def setKey (key : K) (next : CarriedKey V) :
    IoSched K V :=
  { s with
    keys := Function.update s.keys key next
    touched := s.touched.insert key }

/-- `kv_hash_insert`; a new request goes to the head of a memory queue. -/
def accept (memq : Memq) (key : K) (command : KvCommand V) :
    Option (IoSched K V) :=
  ((s.keys key).step (.driver (.ioschedCmd command))).map fun next =>
    if next.key.created = (s.keys key).key.created then
      s.setKey key next
    else
      { s.setKey key next with
        rqs := Function.update s.rqs memq
          ((key, (s.keys key).key.created) :: s.rqs memq) }

def ioschedCmd (cpu : Nat) (key : K) (command : KvCommand V) :
    Option (IoSched K V) :=
  s.accept (s.activeMemq cpu (if command.isWrite then .write else .read)) key command

/-- One command of `nvme_kv_multi_iosched_cmd`; the first one chooses the daemon. -/
def multiIoschedCmd (call : Nat) (key : K)
    (command : KvCommand V) : Option (IoSched K V) :=
  if s.place (.batch call) = .filling then
    let daemon := (s.batchDaemon call).getD
      (if command.isWrite then .batchWrite else .batchRead)
    { s with batchDaemon := Function.update s.batchDaemon call (some daemon) }.accept
      (.batch call) key command
  else
    none

def enqueue (memq : Memq) (daemon : Daemon) : IoSched K V :=
  if (s.rqs memq).isEmpty then
    s
  else
    { s with
      place := Function.update s.place memq (.mutable daemon)
      mumemqList := Function.update s.mumemqList daemon (s.mumemqList daemon ++ [memq]) }

/-- The end of `nvme_kv_multi_iosched_cmd`. -/
def queueBatch (call : Nat) : Option (IoSched K V) :=
  if s.place (.batch call) = .filling then
    (s.batchDaemon call).map fun daemon => s.enqueue (.batch call) daemon
  else
    none

/-- `kv_scheduling_workfn`: the CPU gets a new active queue. -/
def schedule (cpu : Nat) (type : MemqType) : IoSched K V :=
  let fresh := { s with
    generation := Function.update s.generation cpu
      (Function.update (s.generation cpu) type (s.generation cpu type + 1)) }
  fresh.enqueue (s.activeMemq cpu type) type.daemon

/-- `kv_submission_workfn` with a queue that has pending requests. -/
def rotate (daemon : Daemon) : Option (IoSched K V) :=
  match s.mumemqList daemon with
  | [] => none
  | memq :: rest =>
    if s.pending memq then
      some { s with
        mumemqList := Function.update s.mumemqList daemon (rest ++ [memq]) }
    else
      none

def take (daemon : Daemon) : Option (IoSched K V) :=
  match s.submitting daemon, s.mumemqList daemon with
  | none, memq :: rest =>
    if s.pending memq then
      none
    else
      some { s with
        place := Function.update s.place memq (.submitting daemon)
        mumemqList := Function.update s.mumemqList daemon rest
        submitting := Function.update s.submitting daemon (some memq) }
  | _, _ => none

/-- A round of `__nvme_submit_iosched_kv_cmd`. -/
def submit (s : IoSched K V) (daemon : Daemon) : Option (IoSched K V) :=
  (s.submitting daemon).bind fun memq =>
    match s.rqs memq with
    | [] => some { s with submitting := Function.update s.submitting daemon none }
    | rq :: rest =>
      ((s.keys rq.1).step (.driver (.submit rq.2))).map fun next =>
        { s.setKey rq.1 next with rqs := Function.update s.rqs memq rest }

def pendingWrites : List (K × Nat) :=
  s.touched.flatMap fun key =>
    ((List.range (s.keys key).key.created).map fun index => (key, index)).filter fun rq =>
      (s.request rq).any (fun request => request.command.isWrite) && !s.done rq

def beginFlush (key : Option K) : IoSched K V :=
  let before := s.pendingWrites.filter fun rq => key.all fun key => decide (rq.1 = key)
  { s with
    flush := Function.update s.flush s.flushes (some { key := key, before := before })
    flushes := s.flushes + 1 }

def setPhase (index : Nat) (flush : Flush K)
    (phase : FlushPhase K) : IoSched K V :=
  { s with flush := Function.update s.flush index (some { flush with phase := phase }) }

/-- `nr_rq` of `KV_RQ_HASH`. -/
def nrRq : Nat :=
  s.touched.countP fun key => (s.keys key).key.hash.isSome

/-- With a key `kv_hash_find_refcnt`, without one the test of `nr_rq`. -/
def FlushPhase.afterFind (flush : Flush K) : FlushPhase K :=
  match flush.key with
  | some key =>
    match (s.keys key).key.hash with
    | none => .returned
    | some index => .scheduling (List.range s.cpus) (some (key, index))
  | none => if s.nrRq = 0 then .returned else .scheduling (List.range s.cpus) none

def FlushPhase.afterLook : FlushPhase K :=
  match (s.mumemqList .write).getLast? with
  | none => .returned
  | some memq =>
    match (s.rqs memq).getLast? with
    | none => .returned
    | some rq => .waiting rq (s.rqs memq)

/-- `KV_async_flush_wakeup` of a request is clear again. -/
def woken (rq : K × Nat) : Bool :=
  (s.request rq).all fun request =>
    decide (request.stage = .completed) || decide (request.stage = .dropped)

def wake (cpu : Nat) : IoSched K V :=
  if (s.rqs (s.activeMemq cpu .write)).isEmpty then s else s.schedule cpu .write

def advanceFlush (index : Nat) : Option (IoSched K V) :=
  (s.flush index).bind fun flush =>
    match flush.phase with
    | .begun => some (s.setPhase index flush (FlushPhase.afterFind s flush))
    | .scheduling (cpu :: rest) found =>
      some ((s.wake cpu).setPhase index flush (.scheduling rest found))
    | .scheduling [] none => some (s.setPhase index flush (FlushPhase.afterLook s))
    | .scheduling [] (some rq) => some (s.setPhase index flush (.waiting rq [rq]))
    | .waiting rq _ => if s.woken rq then some (s.setPhase index flush .returned) else none
    | .returned => none

end Steps

end IoSched

def KeyAction.elsewhere : KeyAction V → Bool
  | .driver (.ioschedCmd _) => false
  | .driver (.submit _) => false
  | _ => true

inductive IoSchedStep (K V : Type) where
  | ioschedCmd (cpu : Nat) (key : K) (command : KvCommand V)
  | multiIoschedCmd (call : Nat) (key : K) (command : KvCommand V)
  | queueBatch (call : Nat)
  | schedule (cpu : Nat) (type : MemqType)
  | rotate (daemon : Daemon)
  | take (daemon : Daemon)
  | submit (daemon : Daemon)
  -- The device, the completion daemon and synchronous gets.
  | act (key : K) (action : KeyAction V)
  | beginFlush (key : Option K)
  | advanceFlush (index : Nat)
deriving DecidableEq, Repr

namespace IoSched

variable [DecidableEq K]

def act (s : IoSched K V) (key : K) (action : KeyAction V) :
    Option (IoSched K V) :=
  if action.elsewhere then ((s.keys key).step action).map (s.setKey key) else none

def step (s : IoSched K V) : IoSchedStep K V → Option (IoSched K V)
  | .ioschedCmd cpu key command => s.ioschedCmd cpu key command
  | .multiIoschedCmd call key command => s.multiIoschedCmd call key command
  | .queueBatch call => s.queueBatch call
  | .schedule cpu type => some (s.schedule cpu type)
  | .rotate daemon => s.rotate daemon
  | .take daemon => s.take daemon
  | .submit daemon => s.submit daemon
  | .act key action => s.act key action
  | .beginFlush key => some (s.beginFlush key)
  | .advanceFlush index => s.advanceFlush index

end IoSched

end InsDb.Driver
