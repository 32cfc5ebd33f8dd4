import Mathlib.Data.List.Forall2
import Mathlib.Data.List.Nodup
import InsDb.Library.Reorder
import InsDb.Driver.SyncGet

/-!
# A synchronous command

`nvme_kv_cmd` serves one command of a user. It looks for the key in the read-ahead hash,
then in the request hash. It waits for a request in flight and looks into the read-ahead
hash again; it takes a buffered request out of its queue, and a get carries out the store or
delete that it took.
-/

namespace InsDb.Driver

open InsDb.Library List Function Option

variable {K V : Type}

def keyNotExistError : Nat := 0x310

/-- `KVS_ERR_EXIST_IN_RA_HASH`. -/
def existInRaHash : Int := -27

/-- `KVS_ERR_KEY_NOT_EXIST`. -/
def keyNotExist : Int := -30

/-- The `NotExistKey` of a get that finds a buffered delete. -/
def notExistKey : Int := 0x10

/-- Linux's `EFAULT` and `EINVAL`, as they are returned. -/
def efault : Int := -14

def einval : Int := -22

/-- `KVS_ERR_INVALID_OPCODE`. -/
def invalidOpcode : Int := -24

/-- `KVS_ERR_INVALID_FLAGS`. -/
def invalidFlags : Int := -25

/-- `KVS_ERR_FAULT`. -/
def kvsErrFault : Int := -29

/-- A completion of the device: `req->errors`, `cqe.result`, and what went to the buffer. -/
structure Reply (V : Type) where
  errors : Nat := 0
  result : Nat := 0
  data : Option V := none
deriving DecidableEq, Repr

/-- What the driver leaves to the device. -/
structure KvSsd (V : Type) where
  -- What it keeps of a value, of which it is told the length in units of four bytes.
  kept : V → V
  -- `cqe.result` of a retrieve, of one without the key, and of a store or delete.
  retrieveResult : V → Nat
  missingResult : Nat
  writeResult : Nat
  -- A delete of a missing key is an error.
  reportsMissing : Bool

/-- A device that keeps values as they are and reports their length. -/
def plainSsd {α : Type} : KvSsd (List α) where
  kept := id
  retrieveResult := List.length
  missingResult := 0
  writeResult := 0
  reportsMissing := false

/-- `kv_sync_request`: the command, and the user's buffer. -/
structure SyncRequest (V : Type) where
  command : KvCommand V
  udataAddr : Bool := true
  udataLength : Nat := 0
deriving DecidableEq, Repr

def SyncRequest.carriesData (request : SyncRequest V) : Bool :=
  request.udataAddr && request.udataLength ≠ 0

section

variable (dev : KvSsd V)

def KvCommand.written : KvCommand V → Option (Option V)
  | .retrieve => none
  | .store value => some (some (dev.kept value))
  | .delete => some none

/-- The device's reply, from what it has for the key. -/
def SyncRequest.reply (request : SyncRequest V) (content : Option V) : Reply V :=
  match request.command, content with
  | .retrieve, some value =>
    { result := dev.retrieveResult value
      data := if request.carriesData then some value else none }
  | .retrieve, none => { errors := keyNotExistError, result := dev.missingResult }
  | .store _, _ => { result := dev.writeResult }
  | .delete, some _ => { result := dev.writeResult }
  | .delete, none =>
    { errors := if dev.reportsMissing then keyNotExistError else 0, result := dev.writeResult }

def kvDevice : Reorder.Service (Option V) (SyncRequest V) (Reply V) where
  writes request := request.command.written dev
  answer := SyncRequest.reply dev

end

/-- What there is for a key in the driver, and on the device.  An entry of the read-ahead hash is
what the device had when it was read, none for a missing key. -/
structure Slot (V : Type) where
  -- In the bucket of the key stands a request of the same key length without its key:
  -- `init_kv_async_request` attaches no key of more than 16 bytes.
  unattached : Bool := false
  readahead : Option (Option V) := none
  -- The request in flight, which the device has not executed.
  inFlight : Option (KvCommand V) := none
  -- The request that is still queued, and whether it is a delete with a `data_length`.
  buffered : Option (KvCommand V) := none
  deleteData : Bool := false
  device : Option V := none
deriving DecidableEq, Repr

/-- Why a command is turned away before the hashes are looked at. -/
inductive Refusal where
  | unreadable
  | flags
  | opcode
  | key
deriving DecidableEq, Repr

/-- The return code of `nvme_kv_cmd`. -/
def Refusal.ret : Refusal → Int
  | .unreadable => efault
  | .flags => einval
  | .opcode => einval
  | .key => efault

/-- What is put into the result field; a command that cannot be read keeps its own. -/
def Refusal.result : Refusal → Int
  | .unreadable => 0
  | .flags => invalidFlags
  | .opcode => invalidOpcode
  | .key => kvsErrFault

/-- A user's command, `nvme_passthru_kv_cmd`. -/
structure SyncCmd (V : Type) where
  refusal : Option Refusal := none
  command : KvCommand V
  dataAddr : Bool := true
  -- The `data_length` of a retrieve or delete; that of a store is its value's.
  dataLength : Nat := 0
deriving DecidableEq, Repr

namespace Slot

variable (slot : Slot V)

def withDevice (content : Option V) : Slot V :=
  { slot with device := content }

/-- The request in flight completes; a retrieve goes to the read-ahead hash, unless there is an
entry. -/
def land (dev : KvSsd V) (request : KvCommand V) : Slot V :=
  { slot with
    inFlight := none
    device := (request.written dev).getD slot.device
    readahead :=
      if request.isWrite then slot.readahead else slot.readahead.or (some slot.device) }

/-- `kv_do_readahead`: the entry is removed; a get is answered from it. -/
def doReadahead (cmd : KvCommand V) :
    Option (Option V) × Slot V :=
  (if cmd.isWrite then none else slot.readahead, { slot with readahead := none })

/-- `kv_hash_find_and_lock`: whether it waited for a request in flight, and the buffered request
that it removed.  One that is blocked is removed once the request before it has completed. -/
def findAndLock (dev : KvSsd V) : Bool × Option (KvCommand V) × Slot V :=
  match slot.inFlight, slot.buffered with
  | none, none => (false, none, slot)
  | some request, none => (true, none, slot.land dev request)
  | none, some buffered => (false, some buffered, { slot with buffered := none })
  | some request, some buffered =>
    (false, some buffered, { slot.land dev request with buffered := none })

end Slot

inductive Lookup (V : Type) where
  -- From the read-ahead hash, at once or after a wait for a request in flight.
  | hit (entry : Option V) (waited : Bool)
  -- A get that carries out a buffered store or delete.
  | takesStore (value : V)
  | takesDelete
  -- By the device.
  | device
  | refused (refusal : Refusal)
  -- The kernel stops: at a key that is not attached, or at `BUG()`.
  | crash
deriving DecidableEq, Repr

/-- A get moves the buffered store or delete to its own request (`kv_move_async_to_sync`), which
has no buffer for the data of a delete. -/
def Lookup.ofBuffered (cmd buffered : KvCommand V) (deleteData : Bool) : Lookup V :=
  match cmd, buffered with
  | .retrieve, .store value => .takesStore value
  | .retrieve, .delete => if deleteData then .crash else .takesDelete
  | _, _ => .device

section

variable (dev : KvSsd V) (slot : Slot V) (cmd : KvCommand V)

def Slot.lookInRequests : Lookup V × Slot V :=
  match slot.findAndLock dev with
  | (true, _, landed) =>
    let next := (landed.doReadahead cmd).2
    match (landed.doReadahead cmd).1 with
    | some entry => (.hit entry true, next)
    | none => (.device, next)
  | (false, some buffered, next) => (.ofBuffered cmd buffered slot.deleteData, next)
  | (false, none, next) => (.device, next)

def Slot.lookInHashes : Lookup V × Slot V :=
  let next := (slot.doReadahead cmd).2
  match (slot.doReadahead cmd).1 with
  | some entry => (.hit entry false, next)
  | none => next.lookInRequests dev cmd

/-- What a command comes to before the device: the checks, then the two hashes. -/
def Slot.lookUp (cmd : SyncCmd V) : Lookup V × Slot V :=
  match cmd.refusal with
  | some refusal => (.refused refusal, slot)
  | none => if slot.unattached then (.crash, slot) else slot.lookInHashes dev cmd.command

end

variable {length : V → Nat} {dev : KvSsd V}

namespace Slot

variable {slot : Slot V}

variable (dev) in
theorem lookUp_of_noFlight (noFlight : slot.inFlight = none) (cmd : SyncCmd V) :
    (slot.lookUp dev cmd).2.inFlight = none ∧
      (slot.lookUp dev cmd).2.device = slot.device := by
  rcases slot with ⟨unattached, readahead, _, buffered, _, _⟩
  rcases cmd with ⟨refusal, command, _, _⟩
  cases noFlight
  cases refusal with
  | some => exact ⟨rfl, rfl⟩
  | none =>
    cases unattached <;> cases command <;> cases readahead <;> cases buffered <;>
      simp [lookUp, lookInHashes, lookInRequests, doReadahead, findAndLock, KvCommand.isWrite]

theorem lookUp_withDevice (noFlight : slot.inFlight = none) (cmd : SyncCmd V)
    (content : Option V) : (slot.withDevice content).lookUp dev cmd =
      ((slot.lookUp dev cmd).1, (slot.lookUp dev cmd).2.withDevice content) := by
  rcases slot with ⟨unattached, readahead, _, buffered, _, _⟩
  rcases cmd with ⟨refusal, command, _, _⟩
  cases noFlight
  cases refusal with
  | some => rfl
  | none =>
    cases unattached <;> cases command <;> cases readahead <;> cases buffered <;>
      simp [withDevice, lookUp, lookInHashes, lookInRequests, doReadahead, findAndLock,
        KvCommand.isWrite]

variable (slot dev) in
theorem findAndLock_noFlight : (slot.findAndLock dev).2.2.inFlight = none := by
  rcases slot with ⟨_, _, inFlight, buffered, _, _⟩
  cases inFlight <;> cases buffered <;> rfl

theorem lookInRequests_noFlight (cmd : KvCommand V) :
    (slot.lookInRequests dev cmd).2.inFlight = none := by
  have landed := slot.findAndLock_noFlight dev
  unfold lookInRequests
  generalize slot.findAndLock dev = found at landed ⊢
  rcases found with ⟨waited, buffered, next⟩
  cases waited with
  | true =>
    dsimp only
    cases (next.doReadahead cmd).1 <;> exact landed
  | false => cases buffered <;> exact landed

end Slot

section

variable (length : V → Nat)

/-- `init_kv_sync_request`. -/
def SyncCmd.request (cmd : SyncCmd V) : SyncRequest V :=
  { command := cmd.command
    udataAddr := cmd.dataAddr
    udataLength := match cmd.command with
      | .store value => length value
      | _ => cmd.dataLength }

/-- The requests that `kv_move_async_to_sync` makes of a buffered store and of a delete. -/
def SyncCmd.takenStore (cmd : SyncCmd V) (value : V) : SyncRequest V :=
  { command := .store value, udataAddr := cmd.dataAddr, udataLength := length value }

def SyncRequest.takenDelete : SyncRequest V :=
  { command := .delete, udataAddr := false }

def Lookup.request (cmd : SyncCmd V) : Lookup V → Option (SyncRequest V)
  | .hit _ _ => none
  | .takesStore value => some (cmd.takenStore length value)
  | .takesDelete => some .takenDelete
  | .device => some (cmd.request length)
  | .refused _ => none
  | .crash => none

end

theorem Slot.noFlight_of_request {slot : Slot V} {cmd : SyncCmd V} {request : SyncRequest V}
    (asks : (slot.lookUp dev cmd).1.request length cmd = some request) :
    (slot.lookUp dev cmd).2.inFlight = none := by
  unfold lookUp at asks ⊢
  cases isRefused : cmd.refusal with
  | some =>
    rw [isRefused] at asks
    cases asks
  | none =>
    rw [isRefused] at asks
    cases stops : slot.unattached with
    | true =>
      rw [stops] at asks
      cases asks
    | false =>
      rw [stops] at asks
      simp only [Bool.false_eq_true, if_false, lookInHashes] at asks ⊢
      generalize (slot.doReadahead cmd.command).1 = entry at asks ⊢
      cases entry with
      | some => cases asks
      | none => exact Slot.lookInRequests_noFlight cmd.command

/-- What the driver writes into the user's command, whose fields were cleared, and into its
buffer. -/
structure UserCmd (V : Type) where
  status : Int := 0
  result : Int := 0
  data : Option V := none
deriving DecidableEq, Repr

/-- What the user sees of a command: the return code, unless it is zero, then the status field. -/
def UserCmd.seen (ret : Int) (cmd : UserCmd V) : UserCmd V :=
  { cmd with status := if ret ≠ 0 then ret else cmd.status }

/-- `__nvme_submit_kv_user_cmd`: the return code and the status field. -/
def submitUserCmd (reply : Reply V) : Int × Int :=
  if reply.errors = keyNotExistError then (0, keyNotExist) else (reply.errors, 0)

/-- The asynchronous get of a read-ahead entry, with the buffer of the synchronous one. -/
def SyncCmd.getRequest (cmd : SyncCmd V) : SyncRequest V :=
  { command := .retrieve, udataAddr := cmd.dataAddr, udataLength := cmd.dataLength }

/-- What a get copies out of a pending store. -/
def SyncCmd.moved (length : V → Nat) (cmd : SyncCmd V) (value : V) : Option V :=
  if cmd.dataAddr = true ∧ length value ≠ 0 then some value else none

section

variable (length : V → Nat) (dev : KvSsd V)

/-- The end of `nvme_kv_cmd`, with what the device has: the return code and the user's command;
none if it does not return. -/
def Lookup.kvCmd (cmd : SyncCmd V) (content : Option V) : Lookup V → Option (Int × UserCmd V)
  | .hit entry _ =>
    let ra := cmd.getRequest.reply dev entry
    some (ra.errors, { status := existInRaHash, result := ra.result, data := ra.data })
  | .takesStore value =>
    let reply := (cmd.takenStore length value).reply dev content
    let submitted := submitUserCmd reply
    some (submitted.1,
      { status := submitted.2
        result := if length value = 0 then reply.result else length value
        data := cmd.moved length value })
  | .takesDelete =>
    let reply := SyncRequest.takenDelete.reply dev content
    some (notExistKey, { status := (submitUserCmd reply).2, result := reply.result })
  | .device =>
    let reply := (cmd.request length).reply dev content
    let submitted := submitUserCmd reply
    some (submitted.1, { status := submitted.2, result := reply.result, data := reply.data })
  | .refused refusal => some (refusal.ret, { result := refusal.result })
  | .crash => none

/-- `nvme_kv_cmd`. -/
def nvmeKvCmd (slot : Slot V) (cmd : SyncCmd V) : Option (UserCmd V) × Slot V :=
  let found := slot.lookUp dev cmd
  let served := found.1.kvCmd length dev cmd found.2.device
  (served.map fun done => done.2.seen done.1,
    found.2.withDevice
      (((found.1.request length cmd).bind fun request => request.command.written dev).getD
        found.2.device))

variable [DecidableEq K]

/-- The calls one after the other, each of them as if the kernel were there. -/
def nvmeKvCmdsFrom (slots : K → Slot V) : List (K × SyncCmd V) → List (Option (UserCmd V))
  | [] => []
  | (key, cmd) :: rest =>
    let served := nvmeKvCmd length dev (slots key) cmd
    served.1 :: nvmeKvCmdsFrom (Function.update slots key served.2) rest

end

/-- Nobody gets anything once the kernel has stopped. -/
def untilCrash : List (Option (UserCmd V)) → List (Option (UserCmd V))
  | [] => []
  | none :: rest => none :: rest.map fun _ => none
  | some cmd :: rest => some cmd :: untilCrash rest

def nvmeKvCmds [DecidableEq K] (length : V → Nat) (dev : KvSsd V) (slots : K → Slot V)
    (cmds : List (K × SyncCmd V)) : List (Option (UserCmd V)) :=
  untilCrash (nvmeKvCmdsFrom length dev slots cmds)

theorem length_untilCrash (cmds : List (Option (UserCmd V))) :
    (untilCrash cmds).length = cmds.length := by
  induction cmds with
  | nil => rfl
  | cons cmd rest ih => cases cmd <;> simp [untilCrash, ih]

theorem untilCrash_eq_self {cmds : List (Option (UserCmd V))} (alive : none ∉ cmds) :
    untilCrash cmds = cmds := by
  induction cmds with
  | nil => rfl
  | cons cmd rest ih =>
    cases cmd with
    | none => exact absurd mem_cons_self alive
    | some => rw [untilCrash, ih fun later => alive (mem_cons_of_mem _ later)]

theorem none_mem_untilCrash {cmds : List (Option (UserCmd V))} (crashes : none ∈ cmds) :
    none ∈ untilCrash cmds := by
  induction cmds with
  | nil => exact crashes
  | cons cmd rest ih =>
    cases cmd with
    | none => exact mem_cons_self
    | some => exact mem_cons_of_mem _ (ih ((mem_cons.mp crashes).resolve_left (by simp)))

/-- A request for the device, numbered by the place of its command in the list. -/
abbrev DeviceRequest (K V : Type) := Reorder.Request K (SyncRequest V)

structure LookedUp (K V : Type) where
  index : Nat
  key : K
  command : SyncCmd V
  lookup : Lookup V
deriving DecidableEq, Repr

namespace LookedUp

def requests (length : V → Nat) (item : LookedUp K V) : List (DeviceRequest K V) :=
  ((item.lookup.request length item.command).map fun request =>
    ⟨item.index, item.key, request⟩).toList

/-- What the single-command path gives, when the device has a content. -/
def served (length : V → Nat) (dev : KvSsd V) (item : LookedUp K V)
    (content : Option V) : Option (UserCmd V) :=
  (item.lookup.kvCmd length dev item.command content).map fun done => done.2.seen done.1

end LookedUp

def lookUpAll [DecidableEq K] (dev : KvSsd V) (index : Nat) (slots : K → Slot V) :
    List (K × SyncCmd V) → List (LookedUp K V) × (K → Slot V)
  | [] => ([], slots)
  | (key, cmd) :: rest =>
    let found := (slots key).lookUp dev cmd
    let later := lookUpAll dev (index + 1) (Function.update slots key found.2) rest
    (⟨index, key, cmd, found.1⟩ :: later.1, later.2)

/-- What the device has once every request that a lookup waits for has completed. -/
def contentAfter [DecidableEq K] (dev : KvSsd V) (index : Nat) (slots : K → Slot V)
    (commands : List (K × SyncCmd V)) (key : K) : Option V :=
  ((lookUpAll dev index slots commands).2 key).device

namespace LookedUp

variable {item : LookedUp K V} {request : DeviceRequest K V}

theorem mem_requests : request ∈ item.requests length ↔
      request.index = item.index ∧ request.key = item.key ∧
        item.lookup.request length item.command = some request.command := by
  unfold requests
  cases asks : item.lookup.request length item.command with
  | none => simp
  | some =>
    constructor
    · intro isRq
      rw [map_some, toList_some, mem_singleton] at isRq
      subst isRq
      exact ⟨rfl, rfl, rfl⟩
    intro fields
    rw [map_some, toList_some, mem_singleton]
    rcases request with ⟨_, _, _⟩
    obtain ⟨sameIndex, sameKey, same⟩ := fields
    cases sameIndex
    cases sameKey
    cases same
    rfl

theorem eq_of_mem_requests {other : DeviceRequest K V} (isRq : request ∈ item.requests length)
    (isOther : other ∈ item.requests length) : request = other := by
  obtain ⟨i, key, asks⟩ := mem_requests.mp isRq
  obtain ⟨otherIndex, otherKey, otherAsks⟩ := mem_requests.mp isOther
  rcases request with ⟨_, _, _⟩
  rcases other with ⟨_, _, _⟩
  simp only at i key asks otherIndex otherKey otherAsks
  rw [i, key, otherIndex, otherKey, some.inj (asks.symm.trans otherAsks)]

theorem requests_eq_nil (asksNothing : item.lookup.request length item.command = none) :
    item.requests length = [] := by
  rw [requests, asksNothing, map_none, toList_none]

theorem served_congr {length : V → Nat} {dev : KvSsd V} {left right : Option V}
    (same : ∀ request ∈ item.requests length, request.command.reply dev left =
        request.command.reply dev right) :
    item.served length dev left = item.served length dev right := by
  rcases item with ⟨i, key, cmd, lookup⟩
  unfold served
  cases lookup with
  | hit => rfl
  | takesStore => rfl
  | takesDelete =>
    have replies := same ⟨i, key, .takenDelete⟩ (mem_requests.mpr ⟨rfl, rfl, rfl⟩)
    simp only [Lookup.kvCmd, replies]
  | device =>
    have replies := same ⟨i, key, cmd.request length⟩ (mem_requests.mpr ⟨rfl, rfl, rfl⟩)
    simp only [Lookup.kvCmd, replies]
  | refused => rfl
  | crash => rfl

end LookedUp

section

variable [DecidableEq K]

variable {slots : K → Slot V} {key : K}

theorem lookUpAll_of_noFlight (cmds : List (K × SyncCmd V)) (i : Nat)
    (noFlight : (slots key).inFlight = none) :
    contentAfter dev i slots cmds key = (slots key).device := by
  unfold contentAfter
  induction cmds generalizing i slots with
  | nil => rfl
  | cons cmd rest ih =>
    rcases cmd with ⟨other, cmd⟩
    by_cases same : key = other
    · subst same
      have kept := Slot.lookUp_of_noFlight dev noFlight cmd
      have now : (update slots key ((slots key).lookUp dev cmd).2 key) =
          ((slots key).lookUp dev cmd).2 := update_self ..
      rw [← kept.2]
      simp only [lookUpAll]
      rw [ih (i + 1) (by rw [now]; exact kept.1), now]
    · have now : update slots other ((slots other).lookUp dev cmd).2 key =
          slots key := update_of_ne same ..
      simp only [lookUpAll]
      rw [ih (i + 1) (by rw [now]; exact noFlight), now]

/-- The slot of a key in the single-command path is the one of the lookups alone, except that the
device may have what an earlier command wrote. -/
def Behind (dev : KvSsd V) (taken : List (DeviceRequest K V)) (key : K) (looked : Slot V)
    (content : Option V) : Prop :=
  content = looked.device ∨
    looked.inFlight = none ∧
      ∃ writer ∈ taken, writer.key = key ∧ writer.command.command.written dev = some content

variable {taken : List (DeviceRequest K V)} {content : Option V}

omit [DecidableEq K] in
theorem Behind.mono {more : List (DeviceRequest K V)} {looked : Slot V}
    (behind : Behind dev taken key looked content) (included : ∀ request ∈ taken, request ∈ more) :
    Behind dev more key looked content := by
  cases behind with
  | inl same => exact .inl same
  | inr wrote =>
    obtain ⟨noFlight, writer, isWriter, ofKey, written⟩ := wrote
    exact .inr ⟨noFlight, writer, included writer isWriter, ofKey, written⟩

variable (length dev) in
omit [DecidableEq K] in
theorem Behind.serve {looked : Slot V} (behind : Behind dev taken key looked content) (i : Nat)
    (cmd : SyncCmd V) :
    ∃ found, Behind dev taken key (looked.lookUp dev cmd).2 found ∧
      nvmeKvCmd length dev (looked.withDevice content) cmd =
        (LookedUp.served length dev
            (⟨i, key, cmd, (looked.lookUp dev cmd).1⟩ : LookedUp K V) found,
          (looked.lookUp dev cmd).2.withDevice
            ((((looked.lookUp dev cmd).1.request length cmd).bind fun request =>
              request.command.written dev).getD found)) := by
  cases behind with
  | inl same =>
    subst same
    exact ⟨(looked.lookUp dev cmd).2.device, .inl rfl, rfl⟩
  | inr wrote =>
    obtain ⟨noFlight, writer, isWriter, ofKey, written⟩ := wrote
    refine ⟨content, .inr ⟨?_, writer, isWriter, ofKey, written⟩, ?_⟩
    · exact (Slot.lookUp_of_noFlight dev noFlight cmd).1
    unfold nvmeKvCmd
    rw [Slot.lookUp_withDevice noFlight cmd content]
    rfl

omit [DecidableEq K] in
theorem Behind.write {item : LookedUp K V} {slot : Slot V}
    (behind : Behind dev taken item.key slot content)
    (landed : ∀ request, item.lookup.request length item.command = some request →
      slot.inFlight = none) :
    Behind dev (item.requests length ++ taken) item.key slot
      (((item.lookup.request length item.command).bind fun request =>
        request.command.written dev).getD content) := by
  have kept : Behind dev (item.requests length ++ taken) item.key slot content :=
    behind.mono fun request isTaken => mem_append_right _ isTaken
  cases asks : item.lookup.request length item.command with
  | none => exact kept
  | some request =>
    cases writes : request.command.written dev with
    | none =>
      rw [bind_some, writes]
      exact kept
    | some =>
      rw [bind_some, writes]
      have isRq : (⟨item.index, item.key, request⟩ : DeviceRequest K V) ∈
          item.requests length := LookedUp.mem_requests.mpr ⟨rfl, rfl, asks⟩
      exact .inr ⟨landed request asks, ⟨item.index, item.key, request⟩,
        mem_append_left _ isRq, rfl, writes⟩

variable (length dev) in
/-- A command is served from one of the contents, or from what an earlier request wrote. -/
def ServedFrom (contents : K → Option V) (all : List (DeviceRequest K V))
    (item : LookedUp K V) (cmd : Option (UserCmd V)) : Prop :=
  ∃ found, cmd = item.served length dev found ∧
    (item.requests length = [] ∨
      ∃ before : List (DeviceRequest K V),
        (∀ request ∈ before, request ∈ all ∧ request.index < item.index) ∧
          Reorder.Reached (kvDevice dev) contents before item.key found)

omit [DecidableEq K] in
theorem ServedFrom.eq_of_independent {contents : K → Option V}
    {all : List (DeviceRequest K V)} {item : LookedUp K V} {cmd : Option (UserCmd V)}
    (served : ServedFrom length dev contents all item cmd)
    (included : ∀ request ∈ item.requests length, request ∈ all)
    (independent : Reorder.Independent (kvDevice dev) contents all) :
    item.served length dev (contents item.key) = cmd := by
  obtain ⟨_, isServed, origin⟩ := served
  rw [isServed]
  apply LookedUp.served_congr
  intro request isRq
  cases origin with
  | inl asksNothing =>
    rw [asksNothing] at isRq
    cases isRq
  | inr reached =>
    obtain ⟨_, earlier, reached⟩ := reached
    obtain ⟨_, sameKey, _⟩ := LookedUp.mem_requests.mp isRq
    rw [← sameKey] at reached
    have answers := independent.answer_eq (included request isRq)
      (fun other isBefore => (earlier other isBefore).1)
      (fun other isBefore => by have := (earlier other isBefore).2; omega) reached
    rw [← sameKey]
    exact answers.symm

theorem nvmeKvCmdsFrom_served {all : List (DeviceRequest K V)}
    (cmds : List (K × SyncCmd V)) (i : Nat) {looked single : K → Slot V}
    {content : K → Option V}
    (slots : ∀ key, single key = (looked key).withDevice (content key))
    (behind : ∀ key, Behind dev taken key (looked key) (content key))
    (older : ∀ request ∈ taken, request ∈ all ∧ request.index < i)
    (included : ∀ item ∈ (lookUpAll dev i looked cmds).1, ∀ request ∈ item.requests length,
      request ∈ all) :
    List.Forall₂ (ServedFrom length dev (contentAfter dev i looked cmds) all)
      (lookUpAll dev i looked cmds).1 (nvmeKvCmdsFrom length dev single cmds) := by
  induction cmds generalizing i looked single content taken with
  | nil => exact .nil
  | cons cmd rest ih =>
    rcases cmd with ⟨key, cmd⟩
    let item : LookedUp K V := ⟨i, key, cmd, ((looked key).lookUp dev cmd).1⟩
    obtain ⟨found, foundBehind, served⟩ := (behind key).serve length dev i cmd
    have landed : ∀ request, item.lookup.request length item.command = some request →
        ((looked key).lookUp dev cmd).2.inFlight = none :=
      fun request asks => Slot.noFlight_of_request asks
    let next := update looked key ((looked key).lookUp dev cmd).2
    let left := ((item.lookup.request length item.command).bind fun request =>
      request.command.written dev).getD found
    have slotsNext : ∀ other, update single key
            (nvmeKvCmd length dev (single key) cmd).2 other =
          (next other).withDevice (update content key left other) := by
      intro other
      by_cases same : other = key
      · subst same
        simp only [next, update_self]
        rw [slots other, served]
      simp only [next, update_of_ne same]
      exact slots other
    have behindNext : ∀ other, Behind dev (item.requests length ++ taken) other (next other)
        (update content key left other) := by
      intro other
      by_cases same : other = key
      · subst same
        simp only [next, update_self]
        exact Behind.write foundBehind landed
      simp only [next, update_of_ne same]
      exact (behind other).mono fun request isTaken => mem_append_right _ isTaken
    have olderNext : ∀ request ∈ item.requests length ++ taken,
        request ∈ all ∧ request.index < i + 1 := by
      intro request isTaken
      cases mem_append.mp isTaken with
      | inl now =>
        have place : request.index = i := (LookedUp.mem_requests.mp now).1
        exact ⟨included item mem_cons_self request now, by omega⟩
      | inr pre =>
        have earlier := older request pre
        exact ⟨earlier.1, by omega⟩
    have later := ih (i + 1) slotsNext behindNext olderNext
      fun other isLater => included other (mem_cons_of_mem item isLater)
    refine .cons ⟨found, ?_, ?_⟩ later
    · rw [slots key, served]
    cases asks : item.lookup.request length item.command with
    | none => exact .inl (LookedUp.requests_eq_nil asks)
    | some request =>
      have noFlight : (next key).inFlight = none := by
        simp only [next, update_self]
        exact landed request asks
      have post : contentAfter dev (i + 1) next rest key =
          ((looked key).lookUp dev cmd).2.device := by
        rw [lookUpAll_of_noFlight rest (i + 1) noFlight]
        simp [next]
      refine .inr ⟨taken, older, ?_⟩
      cases foundBehind with
      | inl same => exact .inl (same.trans post.symm)
      | inr wrote => exact .inr wrote.2

variable (length dev) in
def requestsOf (slots : K → Slot V) (commands : List (K × SyncCmd V)) :
    List (DeviceRequest K V) :=
  (lookUpAll dev 0 slots commands).1.flatMap (LookedUp.requests length)

variable (length dev) in
theorem nvmeKvCmdsFrom_lookups (slots : K → Slot V) (cmds : List (K × SyncCmd V)) :
    List.Forall₂ (ServedFrom length dev (contentAfter dev 0 slots cmds)
        (requestsOf length dev slots cmds))
      (lookUpAll dev 0 slots cmds).1 (nvmeKvCmdsFrom length dev slots cmds) := by
  have none : ∀ request ∈ ([] : List (DeviceRequest K V)),
      request ∈ requestsOf length dev slots cmds ∧ request.index < 0 := by simp
  exact nvmeKvCmdsFrom_served cmds 0 (fun key => rfl) (fun key => .inl rfl) none
    fun item isItem request isRq => mem_flatMap.mpr ⟨item, isItem, isRq⟩

theorem nvmeKvCmdsFrom_of_independent {cmds : List (K × SyncCmd V)}
    (independent : Reorder.Independent (kvDevice dev) (contentAfter dev 0 slots
      cmds) (requestsOf length dev slots cmds)) :
    nvmeKvCmdsFrom length dev slots cmds = (lookUpAll dev 0 slots cmds).1.map fun item =>
        item.served length dev (contentAfter dev 0 slots cmds item.key) := by
  have lookups := nvmeKvCmdsFrom_lookups length dev slots cmds
  have included : ∀ item ∈ (lookUpAll dev 0 slots cmds).1, ∀ request ∈ item.requests length,
      request ∈ requestsOf length dev slots cmds :=
    fun item isItem request isRq => mem_flatMap.mpr ⟨item, isItem, isRq⟩
  have same := ((forall₂_and_left _ _).mpr ⟨included, lookups⟩).imp
    fun item cmd served => served.2.eq_of_independent served.1 independent
  rw [← forall₂_map_left_iff (R := (· = ·)), forall₂_eq_eq_eq] at same
  exact same.symm

variable (dev) in
theorem lookUpAll_index (cmds : List (K × SyncCmd V)) (i : Nat) (slots : K → Slot V) :
    (lookUpAll dev i slots cmds).1.map LookedUp.index = List.range' i cmds.length := by
  induction cmds generalizing i slots with
  | nil => rfl
  | cons cmd rest ih =>
    simp only [lookUpAll, map_cons, length_cons, range'_succ]
    rw [ih]

omit [DecidableEq K] in
theorem index_requests_sublist (items : List (LookedUp K V)) :
    ((items.flatMap (LookedUp.requests length)).map Reorder.Request.index).Sublist
      (items.map LookedUp.index) := by
  induction items with
  | nil => exact .slnil
  | cons item rest ih =>
    rw [flatMap_cons, map_append, map_cons]
    cases asks : item.lookup.request length item.command with
    | none =>
      rw [LookedUp.requests_eq_nil asks]
      exact ih.cons item.index
    | some =>
      simp only [LookedUp.requests, asks, map_some, toList_some,
        map_cons, map_nil, singleton_append]
      exact ih.cons_cons item.index

theorem requestsOf_distinct (slots : K → Slot V) (cmds : List (K × SyncCmd V)) :
    ((requestsOf length dev slots cmds).map Reorder.Request.index).Nodup := by
  apply (index_requests_sublist _).nodup
  rw [lookUpAll_index]
  exact nodup_range'

theorem index_not_mem_requestsOf {cmds : List (K × SyncCmd V)}
    {item : LookedUp K V} (isItem : item ∈ (lookUpAll dev 0 slots cmds).1)
    (asksNothing : item.requests length = []) :
    item.index ∉ (requestsOf length dev slots cmds).map Reorder.Request.index := by
  have nodup : ((lookUpAll dev 0 slots cmds).1.map LookedUp.index).Nodup := by
    rw [lookUpAll_index]
    exact nodup_range'
  intro isIndex
  obtain ⟨_, isRq, sameIndex⟩ := mem_map.mp isIndex
  obtain ⟨other, isOther, ofOther⟩ := mem_flatMap.mp isRq
  have same : other = item := inj_on_of_nodup_map nodup isOther isItem
    ((LookedUp.mem_requests.mp ofOther).1.symm.trans sameIndex)
  rw [same, asksNothing] at ofOther
  cases ofOther

end

end InsDb.Driver
