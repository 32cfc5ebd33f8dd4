import InsDb.Driver.SyncCommand

/-!
# A batch of asynchronous commands

`nvme_kv_multi_iosched_cmd` repeats the body of `nvme_kv_iosched_cmd` in a loop.  It does not
look at the flags, ends at a key it cannot read, and keeps most results to itself.  Here a batch
is compared with its commands issued one by one.
-/

namespace InsDb.Driver

open List Function

/-- `KVS_ERR_EXIST_PENDING_KEY`. -/
def existPendingKey : Int := -26

/-- A command of a user, with the field that the driver stores its result in.  `K` stands for the
keys that are attached to a request, of at most 16 bytes. -/
structure AsyncCmd (K V : Type) where
  flags : Bool := false
  key : K
  /-- None for an opcode that the scheduler does not process. -/
  command : Option (KvCommand V)
  /-- The user's memory of a long key, and of the data of a store, cannot be read. -/
  keyFault : Bool := false
  dataFault : Bool := false
  /-- A delete with a `data_length`. -/
  deleteData : Bool := false
  result : Int := 0

namespace AsyncCmd

variable {K V : Type} [DecidableEq K]

/-- The part that both functions have in common, and the result: the read-ahead hash, the new
request, and `kv_hash_insert` with what follows it. -/
def schedule (slots : K → Slot V) (cmd : AsyncCmd K V) (command : KvCommand V) :
    (K → Slot V) × Int :=
  let slot := slots cmd.key
  if command.isWrite = false ∧ slot.readahead.isSome = true then (slots, existInRaHash)
  else if (command matches .store _) ∧ cmd.dataFault = true then (slots, cmd.result)
  else
    match slot.buffered with
    | some _ =>
      (if command.isWrite then
          update slots cmd.key
            { slot with buffered := some command, deleteData := cmd.deleteData }
        else slots, existPendingKey)
    | none =>
      (update slots cmd.key
        { slot with
          buffered := some command
          deleteData := cmd.deleteData
          readahead := if command.isWrite then none else slot.readahead }, 0)

/-- `nvme_kv_iosched_cmd`. -/
def ioschedCmd (slots : K → Slot V) (cmd : AsyncCmd K V) : (K → Slot V) × Int :=
  if cmd.flags then (slots, invalidFlags)
  else
    match cmd.command with
    | none => (slots, invalidOpcode)
    | some command => if cmd.keyFault then (slots, kvsErrFault) else cmd.schedule slots command

/-- The commands one by one: what the hashes hold then, and the results. -/
def ioschedCmds (slots : K → Slot V) :
    List (AsyncCmd K V) → (K → Slot V) × List Int
  | [] => (slots, [])
  | cmd :: rest =>
    let done := cmd.ioschedCmd slots
    let later := ioschedCmds done.1 rest
    (later.1, done.2 :: later.2)

/-- The loop of `nvme_kv_multi_iosched_cmd`: the hashes, the result fields, and whether the call
ends at a key. -/
def multiLoop (slots : K → Slot V) :
    List (AsyncCmd K V) → (K → Slot V) × List Int × Bool
  | [] => (slots, [], false)
  | cmd :: rest =>
    match cmd.command with
    | none =>
      let later := multiLoop slots rest
      (later.1, invalidOpcode :: later.2.1, later.2.2)
    | some command =>
      if cmd.keyFault then (slots, kvsErrFault :: rest.map result, true)
      else
        let later := multiLoop (cmd.schedule slots command).1 rest
        (later.1, cmd.result :: later.2.1, later.2.2)

/-- `nvme_kv_multi_iosched_cmd`; the last `put_user` goes to the first command. -/
def multiIosched (slots : K → Slot V) (cmds : List (AsyncCmd K V)) :
    (K → Slot V) × List Int :=
  let looped := multiLoop slots cmds
  (looped.1, if looped.2.2 then looped.2.1 else looped.2.1.set 0 0)

/-- The batch leaves the operation and the data of every pending key and every result as the
commands do one by one. -/
def BatchSame (slots : K → Slot V) (cmds : List (AsyncCmd K V)) : Prop :=
  (∀ key, ((multiIosched slots cmds).1 key).buffered = ((ioschedCmds slots cmds).1 key).buffered) ∧
    (multiIosched slots cmds).2 = (ioschedCmds slots cmds).2

omit [DecidableEq K] in
def stops (cmd : AsyncCmd K V) : Bool := cmd.command.isSome && cmd.keyFault

/-- The commands that the batch schedules, as if they had no flags. -/
def scheduled (cmds : List (AsyncCmd K V)) : List (AsyncCmd K V) :=
  (cmds.takeWhile fun cmd => !cmd.stops).map fun cmd => { cmd with flags := false }

/-- What a single command brings to the hashes: it has no flags, and its key and data can be
read. -/
def brought (cmd : AsyncCmd K V) : Option (KvCommand V) :=
  if cmd.flags || cmd.keyFault then none
  else
    match cmd.command with
    | some (.store value) => if cmd.dataFault then none else some (.store value)
    | command => command

def broughtTo (key : K) (cmds : List (AsyncCmd K V)) : List (KvCommand V) :=
  (cmds.filter fun cmd => cmd.key = key).filterMap brought

end AsyncCmd

def lastWrite {V : Type} (commands : List (KvCommand V)) : Option (KvCommand V) :=
  (commands.filter KvCommand.isWrite).getLast?

namespace Slot

variable {V : Type} (slot : Slot V)

/-- The request that is pending behind some commands of the key: the last store or delete, else
the one that was pending before, else a retrieve, unless the read-ahead hash answered it. -/
def pendingAfter (commands : List (KvCommand V)) : Option (KvCommand V) :=
  (lastWrite commands).or
    (slot.buffered.or
      (if slot.readahead.isNone && !commands.isEmpty then some .retrieve else none))

/-- A store or delete removes the entry of the read-ahead hash if it is not merged. -/
def entryAfter (commands : List (KvCommand V)) : Option (Option V) :=
  if slot.buffered.isSome || (lastWrite commands).isNone then slot.readahead else none

end Slot

namespace AsyncCmd

variable {K V : Type} [DecidableEq K]

/-- What a single command behind others has for a result. -/
def expected (slots : K → Slot V) (front : List (AsyncCmd K V)) (cmd : AsyncCmd K V) : Int :=
  if cmd.flags then invalidFlags
  else
    match cmd.command with
    | none => invalidOpcode
    | some command =>
      if cmd.keyFault then kvsErrFault
      else if command.isWrite = false ∧
        ((slots cmd.key).entryAfter (broughtTo cmd.key front)).isSome = true then existInRaHash
      else if (command matches .store _) ∧ cmd.dataFault = true then cmd.result
      else if ((slots cmd.key).pendingAfter (broughtTo cmd.key front)).isSome = true then
        existPendingKey
      else 0

/-- What the result field of a command holds after the batch: zero for the first one, if every
key can be read; the codes that the loop stores; else what the caller had there. -/
def fieldAfter (front : List (AsyncCmd K V)) (cmd : AsyncCmd K V)
    (back : List (AsyncCmd K V)) : Int :=
  if front = [] ∧ (cmd :: back).any stops = false then 0
  else if front.any stops then cmd.result
  else if cmd.stops then kvsErrFault
  else if cmd.command.isNone then invalidOpcode
  else cmd.result

/-- The commands that only one of the two ways schedules leave nothing of their own, and every
field holds in advance what the batch does not store. -/
structure Foreseen (slots : K → Slot V) (cmds : List (AsyncCmd K V)) : Prop where
  pending : ∀ key, (slots key).pendingAfter (broughtTo key (scheduled cmds)) =
    (slots key).pendingAfter (broughtTo key cmds)
  fields : ∀ front cmd back, cmds = front ++ cmd :: back →
    fieldAfter front cmd back = expected slots front cmd

end AsyncCmd

namespace Slot

variable {V : Type} (slot : Slot V)

def hashes : Option (KvCommand V) × Option (Option V) := (slot.buffered, slot.readahead)

/-- What a command does to the two hashes, from the look into the read-ahead hash on. -/
def enter (hashes : Option (KvCommand V) × Option (Option V)) (command : KvCommand V) :
    Option (KvCommand V) × Option (Option V) :=
  if command.isWrite = true then
    (some command, if hashes.1.isSome = true then hashes.2 else none)
  else if hashes.2.isSome = true ∨ hashes.1.isSome = true then hashes
  else (some command, hashes.2)

theorem lastWrite_append (front : List (KvCommand V)) (command : KvCommand V) :
    lastWrite (front ++ [command]) =
      if command.isWrite = true then some command else lastWrite front := by
  by_cases write : command.isWrite = true <;> simp only [lastWrite, filter_append] <;> simp [write]

theorem foldl_enter (commands : List (KvCommand V)) : commands.foldl enter slot.hashes =
    (slot.pendingAfter commands, slot.entryAfter commands) := by
  induction commands using reverseRecOn with
  | nil => simp [hashes, pendingAfter, entryAfter, lastWrite]
  | append_singleton front command ih =>
    rw [foldl_append, foldl_cons, foldl_nil, ih]
    rcases slot with ⟨_, readahead, _, buffered, _, _⟩
    simp only [enter, pendingAfter, entryAfter, lastWrite_append]
    cases command <;> cases lastWrite front <;> cases buffered <;> cases readahead <;>
      cases front <;> simp [KvCommand.isWrite]

end Slot

namespace AsyncCmd

variable {K V : Type} [DecidableEq K]

theorem ioschedCmd_hashes (slots : K → Slot V) (cmd : AsyncCmd K V) (key : K) :
    ((cmd.ioschedCmd slots).1 key).hashes =
      (broughtTo key [cmd]).foldl Slot.enter (slots key).hashes := by
  rcases cmd with ⟨flags, own, command, keyFault, dataFault, _, _⟩
  cases flags <;> cases keyFault <;> rcases command with _ | command <;>
    try (by_cases same : own = key <;> simp [ioschedCmd, broughtTo, brought, same]; done)
  by_cases same : own = key
  · subst same
    generalize isSlot : slots own = slot
    rcases slot with ⟨_, readahead, _, buffered, _, _⟩
    cases command <;> cases dataFault <;> cases readahead <;> cases buffered <;>
      simp [ioschedCmd, schedule, broughtTo, brought, Slot.enter, Slot.hashes, KvCommand.isWrite,
        isSlot]
  have other := Ne.symm same
  have untouched : ∀ slot, update slots own slot key = slots key := fun _ => update_of_ne other _ _
  simp only [ioschedCmd, schedule, Bool.false_eq_true, if_false]
  split_ifs <;> (try split) <;> simp [broughtTo, same, untouched]

theorem ioschedCmds_append (slots : K → Slot V) (front back : List (AsyncCmd K V)) :
    ioschedCmds slots (front ++ back) =
      ((ioschedCmds (ioschedCmds slots front).1 back).1,
        (ioschedCmds slots front).2 ++ (ioschedCmds (ioschedCmds slots front).1 back).2) := by
  induction front generalizing slots with
  | nil => rfl
  | cons cmd rest ih => simp [ioschedCmds, ih]

theorem ioschedCmds_hashes (slots : K → Slot V) (cmds : List (AsyncCmd K V)) (key : K) :
    ((ioschedCmds slots cmds).1 key).hashes =
      (broughtTo key cmds).foldl Slot.enter (slots key).hashes := by
  induction cmds generalizing slots with
  | nil => rfl
  | cons cmd rest ih =>
    have split : broughtTo key (cmd :: rest) = broughtTo key [cmd] ++ broughtTo key rest := by
      simp only [broughtTo, ← filterMap_append, ← filter_append, singleton_append]
    rw [ioschedCmds, ih, ioschedCmd_hashes, split, foldl_append]

theorem ioschedCmd_result (slots : K → Slot V) (front : List (AsyncCmd K V))
    (cmd : AsyncCmd K V) :
    (cmd.ioschedCmd (ioschedCmds slots front).1).2 = expected slots front cmd := by
  have hashes := ioschedCmds_hashes slots front cmd.key
  rw [Slot.foldl_enter] at hashes
  obtain ⟨pending, entry⟩ := Prod.mk.inj hashes
  unfold ioschedCmd expected
  rw [← pending, ← entry]
  cases cmd.flags with
  | true => rfl
  | false =>
    cases cmd.command with
    | none => rfl
    | some command =>
      cases fault : cmd.keyFault with
      | true => simp
      | false =>
        simp only [Bool.false_eq_true, if_false, schedule]
        cases ((ioschedCmds slots front).1 cmd.key).buffered <;> split_ifs <;> simp_all

/-- The result fields after the loop.  They do not depend on the hashes. -/
def fields : List (AsyncCmd K V) → List Int
  | [] => []
  | cmd :: rest =>
    if cmd.stops then kvsErrFault :: rest.map result
    else (if cmd.command.isNone then invalidOpcode else cmd.result) :: fields rest

theorem multiLoop_eq (slots : K → Slot V) (cmds : List (AsyncCmd K V)) : multiLoop slots cmds =
      ((ioschedCmds slots (scheduled cmds)).1, fields cmds, cmds.any stops) := by
  induction cmds generalizing slots with
  | nil => rfl
  | cons cmd rest ih =>
    cases isCommand : cmd.command with
    | none => simp [multiLoop, isCommand, ih, scheduled, fields, stops, ioschedCmds, ioschedCmd]
    | some =>
      cases fault : cmd.keyFault with
      | true => simp [multiLoop, isCommand, fault, scheduled, fields, stops, ioschedCmds]
      | false =>
        simp [multiLoop, isCommand, fault, ih, scheduled, fields, stops, ioschedCmds, ioschedCmd,
          schedule]

omit [DecidableEq K] in
theorem fields_getElem? (front : List (AsyncCmd K V)) (cmd : AsyncCmd K V)
    (back : List (AsyncCmd K V)) : (fields (front ++ cmd :: back))[front.length]? =
      some (if front.any stops then cmd.result else if cmd.stops then kvsErrFault
        else if cmd.command.isNone then invalidOpcode else cmd.result) := by
  induction front with
  | nil => by_cases stops : cmd.stops = true <;> simp [fields, stops]
  | cons first rest ih =>
    by_cases stops : first.stops = true
    · simp [fields, stops]
    simp [fields, stops, ih]

theorem multiIosched_getElem? (slots : K → Slot V) (front : List (AsyncCmd K V))
    (cmd : AsyncCmd K V) (back : List (AsyncCmd K V)) :
    (multiIosched slots (front ++ cmd :: back)).2[front.length]? =
      some (fieldAfter front cmd back) := by
  have field := fields_getElem? front cmd back
  rw [multiIosched, multiLoop_eq]
  cases ends : (front ++ cmd :: back).any stops with
  | false =>
    cases front with
    | nil =>
      have first : fieldAfter [] cmd back = 0 := if_pos ⟨rfl, ends⟩
      simp only [Bool.false_eq_true, if_false]
      rw [first]
      exact getElem?_set_self (List.getElem?_eq_some_iff.mp field).1
    | cons first rest =>
      simp only [Bool.false_eq_true, if_false]
      rw [getElem?_set_ne (by simp), field]
      simp [fieldAfter]
  | true =>
    have later : ¬ (front = [] ∧ (cmd :: back).any stops = false) := by
      rintro ⟨rfl, none⟩
      exact absurd (none.symm.trans ends) Bool.false_ne_true
    simp only [if_true]
    rw [field, fieldAfter, if_neg later]

theorem ioschedCmds_length (slots : K → Slot V) (cmds : List (AsyncCmd K V)) :
    (ioschedCmds slots cmds).2.length = cmds.length := by
  induction cmds generalizing slots with
  | nil => rfl
  | cons cmd rest ih => simp [ioschedCmds, ih]

theorem ioschedCmds_getElem? (slots : K → Slot V) (front : List (AsyncCmd K V))
    (cmd : AsyncCmd K V) (back : List (AsyncCmd K V)) :
    (ioschedCmds slots (front ++ cmd :: back)).2[front.length]? =
      some (expected slots front cmd) := by
  have behind := ioschedCmds_length slots front
  rw [ioschedCmds_append, getElem?_append_right behind.le, behind, Nat.sub_self, ioschedCmds,
    ioschedCmd_result]
  rfl

theorem multiIosched_length (slots : K → Slot V) (cmds : List (AsyncCmd K V)) :
    (multiIosched slots cmds).2.length = cmds.length := by
  have fieldsLength : (fields cmds).length = cmds.length := by
    induction cmds with
    | nil => rfl
    | cons cmd rest ih => by_cases stops : cmd.stops = true <;> simp [fields, stops, ih]
  rw [multiIosched, multiLoop_eq]
  dsimp only
  split_ifs <;> simp [fieldsLength]

/-- A batch is the same exactly if the hashes and the callers' fields are as if it had been
foreseen. -/
theorem batchSame_iff (slots : K → Slot V) (cmds : List (AsyncCmd K V)) :
    BatchSame slots cmds ↔ Foreseen slots cmds := by
  have pending : ∀ key cmds, ((ioschedCmds slots cmds).1 key).buffered =
      (slots key).pendingAfter (broughtTo key cmds) := fun key cmds => by
    have hashes := ioschedCmds_hashes slots cmds key
    rw [Slot.foldl_enter] at hashes
    exact congrArg Prod.fst hashes
  have left : ∀ key, ((multiIosched slots cmds).1 key).buffered =
      (slots key).pendingAfter (broughtTo key (scheduled cmds)) := fun key => by
    rw [multiIosched, multiLoop_eq, pending]
  simp only [BatchSame, left, pending]
  refine ⟨fun same => ⟨same.1, ?_⟩, fun foreseen => ⟨foreseen.pending, ext_getElem? fun i => ?_⟩⟩
  · rintro front cmd back rfl
    have equal := congrArg (·[front.length]?) same.2
    simpa only [multiIosched_getElem?, ioschedCmds_getElem?, Option.some.injEq] using equal
  by_cases within : i < cmds.length
  · -- the list falls apart at the command
    have isSplit : cmds = cmds.take i ++ cmds[i] :: cmds.drop (i + 1) := by
      rw [← drop_eq_getElem_cons within, take_append_drop]
    have reached : (cmds.take i).length = i := length_take_of_le within.le
    have batch := multiIosched_getElem? slots (cmds.take i) cmds[i] (cmds.drop (i + 1))
    have single := ioschedCmds_getElem? slots (cmds.take i) cmds[i] (cmds.drop (i + 1))
    rw [← isSplit, reached] at batch single
    rw [batch, single, foreseen.fields _ _ _ isSplit]
  rw [getElem?_eq_none, getElem?_eq_none]
  · exact (ioschedCmds_length slots cmds).trans_le (Nat.le_of_not_lt within)
  exact (multiIosched_length slots cmds).trans_le (Nat.le_of_not_lt within)

/-- Two stores of one key.  The second one is merged, which only `nvme_kv_iosched_cmd` tells. -/
theorem batch_hides_merge : (ioschedCmds (fun _ : Nat => ({} : Slot Nat))
        [{ key := 0, command := some (.store 1) }, { key := 0, command := some (.store 2) }]).2 =
      [0, existPendingKey] ∧
    ¬ BatchSame (fun _ : Nat => ({} : Slot Nat))
        [{ key := 0, command := some (.store 1) }, { key := 0, command := some (.store 2) }] := by
  refine ⟨by decide +kernel, fun same => ?_⟩
  exact absurd same.2 (by decide +kernel)

end AsyncCmd

end InsDb.Driver
