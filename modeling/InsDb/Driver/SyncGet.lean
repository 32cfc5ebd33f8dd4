import InsDb.Driver.KeyOrder

/-!
# Synchronous gets

A synchronous get looks into the read-ahead hash, then into the request hash. It waits for a
request in flight and looks into the read-ahead hash again; it takes over a store or delete
that is still queued and carries it out itself; otherwise it asks the device.
-/

namespace InsDb.Driver

open InsDb.Library

variable {V : Type}

/-- What `kv_hash_find_and_lock` comes back with. -/
inductive Found (V : Type) where
  | nothing
  -- It waits for this request, then returns `inFlight`.
  | inFlight (i : Nat)
  -- It waits for the request that blocks the one in the hash, then looks again.
  | pending (blocker : Nat)
  | buffered (rq : AsyncRequest V)
deriving DecidableEq, Repr

namespace KeyState

def takeOver (s : KeyState V) (i : Nat) (rq : AsyncRequest V) : KeyState V :=
  { s with
    request := Function.update s.request i (some { rq with invalid := true })
    hash := none }

/-- `kv_hash_find_and_lock` up to the point where it waits or returns; none is a restart. -/
def findAndLock (s : KeyState V) : Option (Found V × KeyState V) :=
  match s.hash with
  | none => some (.nothing, s)
  | some i =>
    match s.request i with
    | none => none
    | some rq =>
      if rq.stage = .completed ∨ rq.invalid = true ∨ rq.blocking = true then
        none
      else if rq.stage.inFlight then
        some (.inFlight i, s)
      else
        match rq.blockingRq with
        | some blocker => some (.pending blocker, s)
        | none => some (.buffered rq, s.takeOver i rq)

inductive Finds (s : KeyState V) : Found V → KeyState V → Prop where
  | nothing (unhashed : s.hash = none) : Finds s .nothing s
  | inFlight (i : Nat) (rq : AsyncRequest V) (hashed : s.hash = some i)
      (isRequest : s.request i = some rq) (inFlight : rq.stage.inFlight = true) :
      Finds s (.inFlight i) s
  | pending (blocker : Nat) : Finds s (.pending blocker) s
  | buffered (i : Nat) (rq : AsyncRequest V) (hashed : s.hash = some i)
      (isRequest : s.request i = some rq) (waits : rq.stage.inFlight = false)
      (unblocked : rq.blockingRq = none) :
      Finds s (.buffered rq) (s.takeOver i rq)

theorem finds_of_findAndLock {s next : KeyState V} {found : Found V}
    (taken : s.findAndLock = some (found, next)) : Finds s found next := by
  unfold findAndLock at taken
  cases hashed : s.hash with
  | none =>
    simp only [hashed] at taken
    cases taken
    exact .nothing hashed
  | some i =>
    simp only [hashed] at taken
    cases isRq : s.request i with
    | none => simp [isRq] at taken
    | some rq =>
      simp only [isRq] at taken
      split_ifs at taken with restarts inFlight
      · cases taken
        exact .inFlight i rq hashed isRq inFlight
      cases link : rq.blockingRq with
      | some blocker =>
        simp only [link] at taken
        cases taken
        exact .pending blocker
      | none =>
        simp only [link] at taken
        cases taken
        exact .buffered i rq hashed isRq (by simpa using inFlight) link

end KeyState

inductive GetPhase (V : Type) where
  | begun
  | looking
  | waitsFlight (i : Nat)
  | waitsBlocker (i : Nat)
  -- A retrieve for the device.
  | reading
  -- The store or delete that it took over.
  | writing (command : KvCommand V) (ticket : Nat)
  | returned (answer : Content V)
deriving DecidableEq, Repr

/-- A call of `nvme_kv_cmd` with a retrieve. -/
structure SyncGet (V : Type) where
  -- The number of the last write whose call had returned when the get began.
  floor : Nat
  phase : GetPhase V := .begun
deriving DecidableEq, Repr

structure SyncState (V : Type) where
  key : KeyState V
  get : Nat → Option (SyncGet V) := fun _ => none
  begun : Nat := 0
  -- The writes that have a request and are about to clear the read-ahead hash.
  clearing : List Nat := []
  floor : Nat := 0

namespace SyncState

def start (initial : Option V) : SyncState V :=
  { key := KeyState.start initial }

/-- The writes of `nvme_kv_iosched_cmd`: one that is merged returns at once, one with a request of
its own clears the read-ahead hash first. -/
def ioschedCmd (s : SyncState V) (command : KvCommand V) :
    Option (SyncState V) :=
  (s.key.ioschedCmd command).map fun key =>
    if command.isWrite then
      if key.created = s.key.created then
        { s with key := key, floor := s.key.nextTicket }
      else
        { s with key := key, clearing := s.key.nextTicket :: s.clearing }
    else
      { s with key := key }

variable (s : SyncState V)

/-- `kv_hash_find_and_del_readahead` at the end of a write. -/
def clearReadahead (ticket : Nat) : Option (SyncState V) :=
  if ticket ∈ s.clearing then
    some { s with
      key := { s.key with readahead := none }
      clearing := s.clearing.erase ticket
      floor := max s.floor ticket }
  else
    none

variable (i : Nat)

def setPhase (get : SyncGet V)
    (phase : GetPhase V) : SyncState V :=
  { s with get := Function.update s.get i (some { get with phase := phase }) }

def beginGet : SyncState V :=
  { s with
    get := Function.update s.get s.begun (some { floor := s.floor })
    begun := s.begun + 1 }

/-- `kv_do_readahead`: an entry is taken out and returned. -/
def doReadahead (get : SyncGet V)
    (missed : GetPhase V) : SyncState V :=
  match s.key.readahead with
  | some entry =>
    { s.setPhase i get (.returned entry) with key := { s.key with readahead := none } }
  | none => s.setPhase i get missed

/-- Where a get goes on after `kv_hash_find_and_lock`. -/
def Found.phase : Found V → GetPhase V
  | .nothing => .reading
  | .inFlight i => .waitsFlight i
  | .pending blocker => .waitsBlocker blocker
  | .buffered rq => if rq.command.isWrite then .writing rq.command rq.ticket else .reading

def lookUp (get : SyncGet V) :
    Option (SyncState V) :=
  s.key.findAndLock.map fun (found, key) =>
    { s with
      key := key
      get := Function.update s.get i (some { get with phase := Found.phase found }) }

/-- `KV_async_inFlight_rq` of a request is clear. -/
def landed : Bool :=
  match s.key.request i with
  | none => true
  | some rq => !rq.stage.inFlight

def advance : Option (SyncState V) :=
  (s.get i).bind fun get =>
    match get.phase with
    | .begun => some (s.doReadahead i get .looking)
    | .looking => s.lookUp i get
    | .waitsFlight rq =>
      if s.landed rq then some (s.doReadahead i get .reading) else none
    | .waitsBlocker rq => if s.landed rq then some (s.setPhase i get .looking) else none
    | .reading => some (s.setPhase i get (.returned s.key.device))
    | .writing command ticket =>
      let content := command.run ticket s.key.device
      some { s with
        key := { s.key with device := content }
        get := Function.update s.get i (some { get with phase := .returned content }) }
    | .returned _ => none

end SyncState

inductive SyncStep (V : Type) where
  | ioschedCmd (command : KvCommand V)
  | clearReadahead (ticket : Nat)
  | findInReadahead
  | submit (i : Nat)
  | execute (i : Nat)
  | hashDelete (i : Nat)
  | complete (i : Nat)
  | beginGet
  | advance (get : Nat)
deriving DecidableEq, Repr

namespace SyncState

def withKey (s : SyncState V) (key : Option (KeyState V)) : Option (SyncState V) :=
  key.map fun key => { s with key := key }

def step (s : SyncState V) : SyncStep V → Option (SyncState V)
  | .ioschedCmd command => s.ioschedCmd command
  | .clearReadahead ticket => s.clearReadahead ticket
  | .findInReadahead => s.withKey s.key.findInReadahead
  | .submit i => s.withKey (s.key.submit i)
  | .execute i => s.withKey (s.key.execute i)
  | .hashDelete i => s.withKey (s.key.hashDelete i)
  | .complete i => s.withKey (s.key.complete i)
  | .beginGet => some s.beginGet
  | .advance get => s.advance get

/-- A get finds an entry or a request that has no key. -/
def meetsKeyless (s : SyncState V) (get : SyncGet V) : Bool :=
  match get.phase with
  | .begun => s.key.readahead.isSome
  | .looking => s.key.hash.isSome
  | .waitsFlight _ => s.key.readahead.isSome
  | _ => false

/-- A step for a key that is not attached to its requests. -/
def stepKeyless (unkeyed : Content V) (s : SyncState V) : SyncStep V → Option (SyncState V)
  | .ioschedCmd command => (s.key.ioschedCmdKeyless command).bind fun _ => s.ioschedCmd command
  | .clearReadahead ticket => if s.key.readahead.isSome then none else s.clearReadahead ticket
  | .findInReadahead => none
  | .execute i => s.withKey (s.key.executeKeyless unkeyed i)
  | .complete i => s.withKey (s.key.completeKeyless i)
  | .advance i => if (s.get i).any s.meetsKeyless then none else s.advance i
  | step => s.step step

def stepOf (unkeyed : Content V) (keyLength : Nat) :
    SyncState V → SyncStep V → Option (SyncState V) :=
  if keyLength ≤ kvcmdInlineKeyMax then SyncState.step else SyncState.stepKeyless unkeyed

end SyncState

end InsDb.Driver
