import InsDb.Driver.SyncCommand

/-!
# A multi-command

`nvme_kv_multi_cmd` takes a list of commands. It looks all of them up first, in their order,
and builds a request for each one that has to go to the device. Then it prepares the
requests, issues them together and waits for the last completion. The device may take them
in any order.
-/

namespace InsDb.Driver

open InsDb.Library List

variable {K V : Type}

/-- `KVCMD_INLINE_KEY_MAX`. -/
def inlineKeyMax : Nat := 16

/-- The return code of `build_sync_rq`. -/
def Refusal.buildRet : Refusal → Int
  | .unreadable => einval
  | refusal => refusal.ret

/-- The end of `build_sync_rq`: the return code and the user's command. -/
def Lookup.build (length : V → Nat) (dev : KvSsd V) (cmd : SyncCmd V) :
    Lookup V → Int × UserCmd V
  | .hit entry waited =>
    let ra := cmd.getRequest.reply dev entry
    (if waited then 0 else ra.errors, { status := existInRaHash, data := ra.data })
  | .takesStore value => (0, { data := cmd.moved length value })
  | .takesDelete => (0, { result := keyNotExist })
  | .device => (0, {})
  | .refused refusal => (refusal.buildRet, { result := refusal.result })
  | .crash => (0, {})

def Lookup.isCrash : Lookup V → Bool
  | .crash => true
  | _ => false

/-- The loop of `nvme_kv_multi_cmd` ends here. -/
def Lookup.halts : Lookup V → Bool
  | .hit none false => true
  | .refused _ => true
  | .crash => true
  | _ => false

/-- What the loop of `nvme_kv_multi_cmd` leaves. -/
structure Built (K V : Type) where
  crashed : Bool
  ret : Int
  -- The users' commands, with their places.
  cmds : List (Nat × UserCmd V)
  requests : List (DeviceRequest K V)
  slots : K → Slot V

/-- The result and the status that the cleanup of `nvme_submit_kv_multicmd` sets. -/
def UserCmd.complete (reply : Reply V) (cmd : UserCmd V) : UserCmd V :=
  { status := if reply.errors = keyNotExistError then keyNotExist else reply.errors
    result := reply.result
    data := reply.data.or cmd.data }

section

variable (length : V → Nat) (dev : KvSsd V) [DecidableEq K]

/-- The loop of `nvme_kv_multi_cmd`, which stops at the first error. -/
def buildSyncRqs (index : Nat) (slots : K → Slot V) :
    List (K × SyncCmd V) → Built K V
  | [] => { crashed := false, ret := 0, cmds := [], requests := [], slots := slots }
  | (key, command) :: rest =>
    let found := (slots key).lookUp dev command
    let built := found.1.build length dev command
    let next := Function.update slots key found.2
    if found.1.isCrash = true ∨ built.1 ≠ 0 then
      { crashed := found.1.isCrash
        ret := built.1
        cmds := (index, built.2) :: rest.mapIdx fun later _ => (index + 1 + later, {})
        requests := []
        slots := next }
    else
      let later := buildSyncRqs (index + 1) next rest
      { later with
        cmds := (index, built.2) :: later.cmds
        requests :=
          ((found.1.request length command).map fun request =>
            ⟨index, key, request⟩).toList ++ later.requests }

variable (keyLength : K → Nat)

/-- The return code of `nvme_submit_kv_multicmd` after it has prepared one more request: mapping
the user's buffer sets it to zero, adding a key that is not inline to the key's length. -/
def prepareRequest (ret : Nat) (request : DeviceRequest K V) : Nat :=
  if inlineKeyMax < keyLength request.key then keyLength request.key
  else if request.command.carriesData then 0
  else ret

def prepareRequests (requests : List (DeviceRequest K V)) : Nat :=
  requests.foldl (prepareRequest keyLength) 0

/-- What `nvme_submit_kv_multicmd` writes into a user's command. -/
def UserCmd.finish (reply : Option (Reply V)) (cmd : UserCmd V) : UserCmd V :=
  match reply with
  | some reply => cmd.complete reply
  | none => cmd

/-- `nvme_kv_multi_cmd`, when the device takes the requests in an order: what each command gets,
nothing if the call does not return. -/
def nvmeKvMultiCmd (slots : K → Slot V) (commands : List (K × SyncCmd V))
    (order : List (DeviceRequest K V)) : List (Option (UserCmd V)) :=
  let built := buildSyncRqs length dev 0 slots commands
  if built.crashed then built.cmds.map fun _ => none
  else if built.ret ≠ 0 then built.cmds.map fun cmd => some (cmd.2.seen built.ret)
  else
    let prepared := prepareRequests keyLength built.requests
    if prepared ≠ 0 then
      -- Nothing is issued; the completions keep what they had.
      built.cmds.map fun cmd => some
        ((cmd.2.finish
          (if cmd.1 ∈ built.requests.map Reorder.Request.index then some {} else none)).seen
            prepared)
    else if built.requests = [] then
      -- No completion signals the end of the wait.
      built.cmds.map fun _ => none
    else
      built.cmds.map fun cmd => some
        ((cmd.2.finish
          (Reorder.answerTo (kvDevice dev) (fun key => (built.slots key).device)
            order cmd.1)).seen 0)

/-- Whatever the order of the device, the multi-command gives each command what it gets in the
single-command path. -/
def SameAsOneByOne (slots : K → Slot V) (commands : List (K × SyncCmd V)) : Prop :=
  ∀ order : List (DeviceRequest K V),
    order.Perm (buildSyncRqs length dev 0 slots commands).requests →
      nvmeKvMultiCmd length dev keyLength slots commands order =
        nvmeKvCmds length dev slots commands

end

/-- A lookup after which both paths write the same: what only the single-command path writes is
what the other one leaves there. -/
def Lookup.Plain (length : V → Nat) (dev : KvSsd V) : Lookup V → Prop
  | .hit (some value) _ => dev.retrieveResult value = 0
  | .hit none _ => False
  | .takesStore value => length value = 0 ∨ length value = dev.writeResult
  | .takesDelete => False
  | .device => True
  | .refused _ => False
  | .crash => False

section

variable (length : V → Nat) (dev : KvSsd V) (keyLength : K → Nat)

/-- The last request that has a long key or carries data has a short key. -/
def Prepares (requests : List (DeviceRequest K V)) : Prop :=
  ∀ request ∈ (requests.filter fun request =>
      decide (inlineKeyMax < keyLength request.key) || request.command.carriesData).getLast?,
    keyLength request.key ≤ inlineKeyMax

variable [DecidableEq K]

structure Unaffected (slots : K → Slot V) (commands : List (K × SyncCmd V)) :
    Prop where
  plain : ∀ item ∈ (lookUpAll dev 0 slots commands).1, item.lookup.Plain length dev
  reaches : commands = [] ∨ requestsOf length dev slots commands ≠ []
  prepares : Prepares keyLength (requestsOf length dev slots commands)
  independent : Reorder.Independent (kvDevice dev)
    (contentAfter dev 0 slots commands) (requestsOf length dev slots commands)

/-- Every command finds in the read-ahead hash that its key is missing, one of them at once. -/
structure AllMissing (slots : K → Slot V) (commands : List (K × SyncCmd V)) : Prop where
  result : dev.missingResult = 0
  missing : ∀ item ∈ (lookUpAll dev 0 slots commands).1, ∃ waited, item.lookup = .hit none waited
  atOnce : ∃ item ∈ (lookUpAll dev 0 slots commands).1, item.lookup = .hit none false

omit [DecidableEq K] in
/-- One command with flags or a wrong opcode, or one whose key cannot be read before others that
cannot be read at all. -/
def RefusedAlike : List (K × SyncCmd V) → Prop
  | [] => False
  | first :: rest =>
    (first.2.refusal = some .flags ∨ first.2.refusal = some .opcode) ∧ rest = [] ∨
      first.2.refusal = some .key ∧ ∀ later ∈ rest, later.2.refusal = some .unreadable

omit [DecidableEq K] in
/-- The kernel stops at the first command. -/
def CrashesFirst (slots : K → Slot V) : List (K × SyncCmd V) → Prop
  | [] => False
  | (key, cmd) :: _ => ((slots key).lookUp dev cmd).1 = .crash

end

section Build

variable (length : V → Nat) (dev : KvSsd V)

theorem Lookup.halts_iff (lookup : Lookup V) (cmd : SyncCmd V) :
    (lookup.isCrash = true ∨ (lookup.build length dev cmd).1 ≠ 0) ↔ lookup.halts = true := by
  cases lookup with
  | hit entry waited => cases entry <;> cases waited <;>
      simp [isCrash, build, halts, SyncRequest.reply, SyncCmd.getRequest, keyNotExistError]
  | takesStore => simp [isCrash, build, halts]
  | takesDelete => simp [isCrash, build, halts]
  | device => simp [isCrash, build, halts]
  | refused refusal => cases refusal <;>
      simp [isCrash, build, halts, Refusal.buildRet, Refusal.ret, einval, efault]
  | crash => simp [isCrash, halts]

variable [DecidableEq K]

theorem buildSyncRqs_of_present (commands : List (K × SyncCmd V)) (i : Nat)
    (slots : K → Slot V)
    (present : ∀ item ∈ (lookUpAll dev i slots commands).1, item.lookup.halts = false) :
    buildSyncRqs length dev i slots commands =
      { crashed := false
        ret := 0
        cmds := (lookUpAll dev i slots commands).1.map fun item =>
          (item.index, (item.lookup.build length dev item.command).2)
        requests := (lookUpAll dev i slots commands).1.flatMap (LookedUp.requests length)
        slots := (lookUpAll dev i slots commands).2 } := by
  induction commands generalizing i slots with
  | nil => rfl
  | cons cmd rest ih =>
    rcases cmd with ⟨key, cmd⟩
    have goesOn := present _ mem_cons_self
    have later := ih (i + 1) (Function.update slots key ((slots key).lookUp dev cmd).2)
      fun item isItem => present item (mem_cons_of_mem _ isItem)
    simp only [buildSyncRqs, lookUpAll, Lookup.halts_iff]
    rw [if_neg (by simpa using goesOn), later]
    rfl

/-- The loop ends at the first lookup that halts; the commands behind it keep their fields. -/
theorem buildSyncRqs_of_halt (commands : List (K × SyncCmd V)) (i : Nat) (slots : K → Slot V)
    {front back : List (LookedUp K V)} {item : LookedUp K V}
    (split : (lookUpAll dev i slots commands).1 = front ++ item :: back)
    (goesOn : ∀ earlier ∈ front, earlier.lookup.halts = false)
    (halts : item.lookup.halts = true) :
    (buildSyncRqs length dev i slots commands).crashed = item.lookup.isCrash ∧
      (buildSyncRqs length dev i slots commands).ret =
        (item.lookup.build length dev item.command).1 ∧
      (buildSyncRqs length dev i slots commands).cmds.map Prod.snd =
        (front ++ [item]).map (fun looked => (looked.lookup.build length dev looked.command).2) ++
          back.map fun _ => ({} : UserCmd V) := by
  induction commands generalizing i slots front with
  | nil => cases front <;> cases split
  | cons cmd rest ih =>
    rcases cmd with ⟨key, cmd⟩
    cases front with
    | nil =>
      have count := congrArg List.length (lookUpAll_index dev rest (i + 1)
        (Function.update slots key ((slots key).lookUp dev cmd).2))
      rw [length_map, length_range'] at count
      obtain ⟨rfl, rfl⟩ := cons.inj split
      simp only [buildSyncRqs, Lookup.halts_iff]
      rw [if_pos halts]
      refine ⟨rfl, rfl, ?_⟩
      simp [mapIdx_eq_zipIdx_map, Function.comp_def, map_const', count]
    | cons first front =>
      obtain ⟨rfl, later⟩ := cons.inj split
      have goes := goesOn _ mem_cons_self
      obtain ⟨crashed, ret, cmds⟩ := ih (i + 1)
        (Function.update slots key ((slots key).lookUp dev cmd).2) later
        fun earlier isEarlier => goesOn earlier (mem_cons_of_mem _ isEarlier)
      simp only [buildSyncRqs, Lookup.halts_iff]
      rw [if_neg (by simpa using goes)]
      exact ⟨crashed, ret, by simp [cmds]⟩

end Build

section

variable (keyLength : K → Nat)

theorem prepareRequests_append (front : List (DeviceRequest K V))
    (rq : DeviceRequest K V) :
    prepareRequests keyLength (front ++ [rq]) =
      prepareRequest keyLength (prepareRequests keyLength front) rq := by
  rw [prepareRequests, foldl_append]
  rfl

theorem prepareRequests_spec (requests : List (DeviceRequest K V)) :
    (prepareRequests keyLength requests = 0 ↔ Prepares keyLength requests) ∧
      (prepareRequests keyLength requests ≠ 0 →
        inlineKeyMax < prepareRequests keyLength requests) := by
  induction requests using reverseRecOn with
  | nil =>
    refine ⟨⟨fun _ rq isLast => ?_, fun _ => rfl⟩, fun isError => absurd rfl isError⟩
    cases isLast
  | append_singleton front rq ih =>
    rw [prepareRequests_append, prepareRequest]
    by_cases long : inlineKeyMax < keyLength rq.key
    · rw [if_pos long]
      refine ⟨⟨fun zero => absurd (zero ▸ long) (Nat.not_lt_zero _), fun prepares => ?_⟩,
        fun _ => long⟩
      have short : keyLength rq.key ≤ inlineKeyMax := by
        apply prepares rq
        simp [filter_append, long]
      exact absurd long (Nat.not_lt.mpr short)
    rw [if_neg long]
    by_cases data : rq.command.carriesData = true
    · rw [if_pos data]
      refine ⟨⟨fun _ last isLast => ?_, fun _ => rfl⟩, fun isError => absurd rfl isError⟩
      simp only [filter_append, filter_cons, data, Bool.or_true, if_true,
        filter_nil, getLast?_append, getLast?_singleton, Option.some_or,
        Option.mem_some_iff] at isLast
      subst isLast
      exact Nat.not_lt.mp long
    rw [if_neg data]
    have same : Prepares keyLength (front ++ [rq]) ↔ Prepares keyLength front := by
      unfold Prepares
      simp [filter_append, long, data]
    rw [same]
    exact ih

end

namespace LookedUp

variable {length : V → Nat} {dev : KvSsd V} {item : LookedUp K V}

theorem served_eq_none_iff {content : Option V} :
    item.served length dev content = none ↔ item.lookup = .crash := by
  unfold served
  cases item.lookup <;> simp [Lookup.kvCmd]

theorem served_hit {value : V} {waited : Bool} (isHit : item.lookup = .hit (some value) waited)
    (content : Option V) :
    item.served length dev content =
      some
        { status := existInRaHash
          result := dev.retrieveResult value
          data := (item.command.getRequest.reply dev (some value)).data } := by
  unfold served
  rw [isHit]
  rfl

theorem served_missing {waited : Bool} (isMissing : item.lookup = .hit none waited)
    (content : Option V) :
    item.served length dev content =
      some { status := keyNotExistError, result := dev.missingResult } := by
  unfold served
  rw [isMissing]
  rfl

theorem served_takesStore {value : V} (takes : item.lookup = .takesStore value)
    (content : Option V) :
    item.served length dev content =
      some
        { status := 0
          result := if length value = 0 then dev.writeResult else length value
          data := item.command.moved length value } := by
  unfold served
  rw [takes]
  rfl

theorem served_takesDelete (takes : item.lookup = .takesDelete) (content : Option V) :
    item.served length dev content =
      some
        { status := notExistKey
          result := (SyncRequest.takenDelete.reply dev content).result } := by
  unfold served
  rw [takes]
  rfl

theorem served_refused {refusal : Refusal} (isRefused : item.lookup = .refused refusal)
    (content : Option V) :
    item.served length dev content =
      some { status := refusal.ret, result := refusal.result } := by
  unfold served
  rw [isRefused]
  cases refusal <;> rfl

variable (length dev) in
/-- What the multi-command gives, with the device's reply if there is a request. -/
def answered (item : LookedUp K V) (reply : Option (Reply V)) : UserCmd V :=
  ((item.lookup.build length dev item.command).2.finish reply).seen 0

theorem served_device (isDevice : item.lookup = .device) (content : Option V) :
    item.served length dev content =
      some (item.answered length dev
        (some ((item.command.request length).reply dev content))) := by
  unfold served answered
  rw [isDevice]
  simp only [Lookup.kvCmd, Lookup.build, UserCmd.finish, UserCmd.complete, UserCmd.seen,
    submitUserCmd, Option.or_none, Option.map_some]
  by_cases missing : ((item.command.request length).reply dev content).errors = keyNotExistError
  · simp [missing]
  by_cases success : ((item.command.request length).reply dev content).errors = 0
  · simp [success, keyNotExistError]
  · simp [missing, success]

theorem served_of_plain (plain : item.lookup.Plain length dev) (content : Option V) :
    item.served length dev content =
      some (item.answered length dev
        ((item.lookup.request length item.command).map fun rq => rq.reply dev content)) := by
  obtain ⟨index, key, command, lookup⟩ := item
  cases lookup with
  | hit entry =>
    cases entry with
    | none => cases plain
    | some v =>
      have empty : dev.retrieveResult v = 0 := plain
      rw [served_hit rfl, empty]
      simp [answered, Lookup.build, Lookup.request, UserCmd.finish, UserCmd.seen]
  | takesStore v =>
    have result : (if length v = 0 then (dev.writeResult : Int) else length v) =
        dev.writeResult := by
      split_ifs with empty
      · rfl
      · exact congrArg _ (Or.resolve_left plain empty)
    rw [served_takesStore rfl, result]
    simp [answered, Lookup.build, Lookup.request, SyncCmd.takenStore, SyncRequest.reply,
      UserCmd.finish, UserCmd.complete, UserCmd.seen, keyNotExistError]
  | takesDelete => cases plain
  | device => exact served_device rfl content
  | refused => cases plain
  | crash => cases plain

theorem plain_of_served (present : item.lookup.halts = false) {content other : Option V}
    (same : item.served length dev content =
      some (item.answered length dev
        ((item.lookup.request length item.command).map fun rq => rq.reply dev other))) :
    item.lookup.Plain length dev := by
  obtain ⟨index, key, command, lookup⟩ := item
  cases lookup with
  | hit entry waited =>
    cases entry with
    | some v =>
      rw [served_hit rfl, Option.some.injEq] at same
      have results := congrArg UserCmd.result same
      change dev.retrieveResult v = 0
      simpa [answered, Lookup.build, Lookup.request, UserCmd.finish, UserCmd.seen]
        using results
    | none =>
      -- Only the single-command path returns the error of an entry that it waited for.
      cases waited with
      | false => cases present
      | true =>
        rw [served_missing rfl, Option.some.injEq] at same
        have statuses := congrArg UserCmd.status same
        simp [answered, Lookup.build, Lookup.request, UserCmd.finish, UserCmd.seen,
          keyNotExistError, existInRaHash] at statuses
  | takesStore v =>
    by_cases empty : length v = 0
    · exact .inl empty
    rw [served_takesStore rfl, if_neg empty, Option.some.injEq] at same
    have results := congrArg UserCmd.result same
    have equal : (length v : Int) = dev.writeResult := by
      simpa [answered, Lookup.build, Lookup.request, SyncCmd.takenStore,
        SyncRequest.reply, UserCmd.finish, UserCmd.complete, UserCmd.seen] using results
    exact .inr (Int.ofNat.inj equal)
  | takesDelete =>
    rw [served_takesDelete rfl, Option.some.injEq] at same
    have statuses := congrArg UserCmd.status same
    simp only [answered, Lookup.build, Lookup.request, Option.map_some, UserCmd.finish,
      UserCmd.complete, UserCmd.seen, notExistKey] at statuses
    cases other with
    | some => simp [SyncRequest.reply, SyncRequest.takenDelete, keyNotExistError] at statuses
    | none =>
      cases missing : dev.reportsMissing <;>
        simp [SyncRequest.reply, SyncRequest.takenDelete, missing, keyNotExistError,
          keyNotExist] at statuses
  | device => exact trivial
  | refused => cases present
  | crash => cases present

/-- The status of a command tells a hit, a missing key and a refusal from the rest. -/
theorem served_cases {content : Option V} {cmd : UserCmd V}
    (isCmd : item.served length dev content = some cmd) :
    (∃ entry waited, item.lookup = .hit (some entry) waited ∧ cmd.status = existInRaHash) ∨
      (∃ waited, item.lookup = .hit none waited ∧ cmd.status = keyNotExistError) ∨
      (∃ refusal, item.lookup = .refused refusal ∧
        cmd = { status := refusal.ret, result := refusal.result }) ∨
      cmd.status = 0 ∨ cmd.status = notExistKey ∨ cmd.status = keyNotExist := by
  cases lookup : item.lookup with
  | hit entry waited =>
    cases entry with
    | some entry =>
      obtain rfl := Option.some.inj ((served_hit lookup content).symm.trans isCmd)
      exact .inl ⟨entry, waited, rfl, rfl⟩
    | none =>
      obtain rfl := Option.some.inj ((served_missing lookup content).symm.trans isCmd)
      exact .inr (.inl ⟨waited, rfl, rfl⟩)
  | takesStore =>
    obtain rfl := Option.some.inj ((served_takesStore lookup content).symm.trans isCmd)
    exact .inr (.inr (.inr (.inl rfl)))
  | takesDelete =>
    obtain rfl := Option.some.inj ((served_takesDelete lookup content).symm.trans isCmd)
    exact .inr (.inr (.inr (.inr (.inl rfl))))
  | device =>
    obtain rfl := Option.some.inj ((served_device lookup content).symm.trans isCmd)
    refine .inr (.inr (.inr ?_))
    simp only [answered, lookup, Lookup.build, UserCmd.finish, UserCmd.complete, UserCmd.seen]
    rcases item.command with ⟨_, command, _, _⟩
    cases command <;> cases content <;> cases missing : dev.reportsMissing <;>
      simp [SyncCmd.request, SyncRequest.reply, keyNotExistError, missing]
  | refused refusal =>
    obtain rfl := Option.some.inj ((served_refused lookup content).symm.trans isCmd)
    exact .inr (.inr (.inl ⟨refusal, rfl, rfl⟩))
  | crash =>
    rw [served_eq_none_iff.mpr lookup] at isCmd
    cases isCmd

theorem missing_of_status {content : Option V} {cmd : UserCmd V}
    (isCmd : item.served length dev content = some cmd)
    (status : cmd.status = keyNotExistError) : ∃ waited, item.lookup = .hit none waited := by
  rcases served_cases isCmd with ⟨_, _, -, hit⟩ | ⟨waited, isMissing, -⟩ | ⟨refusal, -, rfl⟩ |
    zero | deleted | missing
  · cases status.symm.trans hit
  · exact ⟨waited, isMissing⟩
  · cases refusal <;> cases status
  · cases status.symm.trans zero
  · cases status.symm.trans deleted
  · cases status.symm.trans missing

/-- Apart from the two codes of the status field, only a refusal is negative. -/
theorem refused_of_status {content : Option V} {cmd : UserCmd V}
    (isCmd : item.served length dev content = some cmd) (negative : cmd.status < 0)
    (notHit : cmd.status ≠ existInRaHash) (notMissing : cmd.status ≠ keyNotExist) :
    ∃ refusal, item.lookup = .refused refusal ∧
      cmd = { status := refusal.ret, result := refusal.result } := by
  rcases served_cases isCmd with ⟨_, _, -, hit⟩ | ⟨_, -, absent⟩ | isRefused |
    zero | deleted | missing
  · exact absurd hit notHit
  · cases absent ▸ negative
  · exact isRefused
  · cases zero ▸ negative
  · cases deleted ▸ negative
  · exact absurd missing notMissing

theorem status_le_of_request {rq : DeviceRequest K V} (isRq : rq ∈ item.requests length)
    {content : Option V} {cmd : UserCmd V} (isCmd : item.served length dev content = some cmd) :
    cmd.status ≤ inlineKeyMax := by
  have asks := (mem_requests.mp isRq).2.2
  rcases served_cases isCmd with ⟨_, _, isHit, -⟩ | ⟨_, isMissing, -⟩ | ⟨_, isRefused, -⟩ |
    zero | deleted | missing
  · rw [isHit] at asks
    cases asks
  · rw [isMissing] at asks
    cases asks
  · rw [isRefused] at asks
    cases asks
  · rw [zero]
    decide
  · rw [deleted]
    decide
  · rw [missing]
    decide

theorem reply_of_answered (isDevice : item.lookup = .device) {left right : Reply V}
    (same : item.answered length dev (some left) =
      item.answered length dev (some right)) : left = right := by
  simp only [answered, isDevice, Lookup.build, UserCmd.finish, UserCmd.complete, UserCmd.seen,
    Option.or_none, ne_eq, not_true_eq_false, if_false, UserCmd.mk.injEq] at same
  obtain ⟨statuses, results, datas⟩ := same
  have errors : left.errors = right.errors := by
    unfold keyNotExist at statuses
    split_ifs at statuses <;> omega
  rcases left with ⟨_, _, _⟩
  rcases right with ⟨_, _, _⟩
  simp only at errors results datas
  rw [errors, Int.ofNat.inj results, datas]

end LookedUp

section

variable {length : V → Nat} {dev : KvSsd V} {keyLength : K → Nat} [DecidableEq K]
  {slots : K → Slot V} {commands : List (K × SyncCmd V)} {order : List (DeviceRequest K V)}

variable (length dev keyLength slots commands order) in
/-- Either every command gets something or none does. -/
theorem nvmeKvMultiCmd_uniform :
    (∀ cmd ∈ nvmeKvMultiCmd length dev keyLength slots commands order, cmd = none) ∨
      none ∉ nvmeKvMultiCmd length dev keyLength slots commands order := by
  simp only [nvmeKvMultiCmd]
  split_ifs <;> simp

omit [DecidableEq K] in
theorem exists_first_halt {items : List (LookedUp K V)}
    (halts : ∃ item ∈ items, item.lookup.halts = true) :
    ∃ front item back, items = front ++ item :: back ∧
      (∀ earlier ∈ front, earlier.lookup.halts = false) ∧ item.lookup.halts = true := by
  induction items with
  | nil => simp at halts
  | cons first rest ih =>
    by_cases now : first.lookup.halts = true
    · exact ⟨[], first, rest, rfl, by simp, now⟩
    obtain ⟨item, isItem, isHalt⟩ := halts
    have later : item ∈ rest := (mem_cons.mp isItem).resolve_left fun same => now (same ▸ isHalt)
    obtain ⟨front, item, back, split, goesOn, isHalt⟩ := ih ⟨item, later, isHalt⟩
    refine ⟨first :: front, item, back, by rw [split]; rfl, ?_, isHalt⟩
    exact forall_mem_cons.mpr ⟨by simpa using now, goesOn⟩

section Halted

variable {front back : List (LookedUp K V)} {item : LookedUp K V}
  (split : (lookUpAll dev 0 slots commands).1 = front ++ item :: back)
  (goesOn : ∀ earlier ∈ front, earlier.lookup.halts = false)
  (halts : item.lookup.halts = true)

include split goesOn halts

theorem nvmeKvMultiCmd_of_crash (crashes : item.lookup = .crash) :
    ∀ cmd ∈ nvmeKvMultiCmd length dev keyLength slots commands order, cmd = none := by
  obtain ⟨crashed, -, -⟩ := buildSyncRqs_of_halt length dev commands 0 slots split goesOn halts
  have stopped : (buildSyncRqs length dev 0 slots commands).crashed = true := by
    rw [crashed, crashes]
    rfl
  simp [nvmeKvMultiCmd, stopped]

theorem nvmeKvMultiCmd_of_halt (alive : item.lookup ≠ .crash) :
    nvmeKvMultiCmd length dev keyLength slots commands order =
      ((front ++ [item]).map (fun looked => (looked.lookup.build length dev looked.command).2) ++
        back.map fun _ => ({} : UserCmd V)).map fun cmd =>
          some (cmd.seen (item.lookup.build length dev item.command).1) := by
  obtain ⟨crashed, ret, cmds⟩ :=
    buildSyncRqs_of_halt length dev commands 0 slots split goesOn halts
  have notCrash : item.lookup.isCrash = false := by
    cases lookup : item.lookup <;> first | rfl | exact absurd lookup alive
  have isError := (Lookup.halts_iff length dev item.lookup item.command).mpr halts
  rw [notCrash] at crashed isError
  simp only [nvmeKvMultiCmd]
  rw [if_neg (by simp [crashed]), if_pos (ret ▸ isError.resolve_left (by simp)), ret, ← cmds,
    map_map]
  rfl

end Halted

section Present

variable (present : ∀ item ∈ (lookUpAll dev 0 slots commands).1, item.lookup.halts = false)

include present

theorem built_of_present :
    buildSyncRqs length dev 0 slots commands =
      { crashed := false
        ret := 0
        cmds := (lookUpAll dev 0 slots commands).1.map fun item =>
          (item.index, (item.lookup.build length dev item.command).2)
        requests := requestsOf length dev slots commands
        slots := (lookUpAll dev 0 slots commands).2 } :=
  buildSyncRqs_of_present length dev commands 0 slots present

theorem nvmeKvMultiCmd_of_unprepared
    (failed : prepareRequests keyLength (requestsOf length dev slots commands) ≠ 0) :
    ∀ seen ∈ nvmeKvMultiCmd length dev keyLength slots commands order, ∃ cmd, seen = some cmd ∧
      cmd.status = prepareRequests keyLength (requestsOf length dev slots commands) := by
  simp only [nvmeKvMultiCmd, built_of_present present, ne_eq, not_true_eq_false, if_false,
    Bool.false_eq_true]
  rw [if_pos failed]
  intro _ isSeen
  obtain ⟨_, _, rfl⟩ := mem_map.mp isSeen
  exact ⟨_, rfl, if_pos (Int.natCast_ne_zero.mpr failed)⟩

theorem nvmeKvMultiCmd_of_no_requests (noRequests : requestsOf length dev slots commands = []) :
    ∀ cmd ∈ nvmeKvMultiCmd length dev keyLength slots commands order, cmd = none := by
  simp [nvmeKvMultiCmd, built_of_present present, noRequests, prepareRequests]

theorem nvmeKvMultiCmd_of_prepared
    (prepared : prepareRequests keyLength (requestsOf length dev slots commands) = 0)
    (asks : requestsOf length dev slots commands ≠ []) :
    nvmeKvMultiCmd length dev keyLength slots commands order =
      (lookUpAll dev 0 slots commands).1.map fun item =>
        some (item.answered length dev
          (Reorder.answerTo (kvDevice dev) (contentAfter dev 0 slots commands) order
            item.index)) := by
  simp only [nvmeKvMultiCmd, built_of_present present, ne_eq, not_true_eq_false, if_false,
    Bool.false_eq_true, prepared]
  rw [if_neg asks, map_map]
  rfl

end Present

/-- What a command gets one by one comes from its lookup. -/
def LookedUp.Gives (length : V → Nat) (dev : KvSsd V) (item : LookedUp K V)
    (cmd : Option (UserCmd V)) : Prop :=
  ∃ found, cmd = item.served length dev found

variable (length dev slots commands) in
theorem nvmeKvCmdsFrom_gives : List.Forall₂ (LookedUp.Gives length dev)
    (lookUpAll dev 0 slots commands).1 (nvmeKvCmdsFrom length dev slots commands) :=
  (nvmeKvCmdsFrom_lookups length dev slots commands).imp fun _ _ ⟨found, served, _⟩ =>
    ⟨found, served⟩

variable (length) in
theorem exists_given {item : LookedUp K V} (isItem : item ∈ (lookUpAll dev 0 slots commands).1) :
    ∃ cmd ∈ nvmeKvCmdsFrom length dev slots commands, item.Gives length dev cmd := by
  have gives := nvmeKvCmdsFrom_gives length dev slots commands
  obtain ⟨place, bound, isPlace⟩ := getElem_of_mem isItem
  have bound' := gives.length_eq ▸ bound
  exact ⟨_, getElem_mem bound', isPlace ▸ gives.get bound bound'⟩

theorem exists_lookup {cmd : Option (UserCmd V)}
    (isCmd : cmd ∈ nvmeKvCmdsFrom length dev slots commands) :
    ∃ item ∈ (lookUpAll dev 0 slots commands).1, item.Gives length dev cmd := by
  have gives := nvmeKvCmdsFrom_gives length dev slots commands
  obtain ⟨place, bound, isPlace⟩ := getElem_of_mem isCmd
  have bound' := gives.length_eq ▸ bound
  exact ⟨_, getElem_mem bound', isPlace ▸ gives.get bound' bound⟩

theorem none_mem_nvmeKvCmdsFrom : none ∈ nvmeKvCmdsFrom length dev slots commands ↔
    ∃ item ∈ (lookUpAll dev 0 slots commands).1, item.lookup = .crash := by
  constructor
  · intro crashes
    obtain ⟨item, isItem, _, given⟩ := exists_lookup crashes
    exact ⟨item, isItem, LookedUp.served_eq_none_iff.mp given.symm⟩
  · rintro ⟨item, isItem, isCrash⟩
    obtain ⟨_, isCmd, _, given⟩ := exists_given length isItem
    rwa [given, LookedUp.served_eq_none_iff.mpr isCrash] at isCmd

theorem nvmeKvCmds_eq (alive : ∀ item ∈ (lookUpAll dev 0 slots commands).1,
      item.lookup ≠ .crash) :
    nvmeKvCmds length dev slots commands = nvmeKvCmdsFrom length dev slots commands := by
  refine untilCrash_eq_self fun crashes => ?_
  obtain ⟨item, isItem, isCrash⟩ := none_mem_nvmeKvCmdsFrom.mp crashes
  exact alive item isItem isCrash

theorem Lookup.Plain.present {lookup : Lookup V} (plain : lookup.Plain length dev) :
    lookup.halts = false := by
  cases lookup with
  | hit entry => cases entry <;> first | rfl | exact absurd plain id
  | refused => exact absurd plain id
  | crash => exact absurd plain id
  | _ => rfl

omit [DecidableEq K] in
theorem LookedUp.alive_of_present {items : List (LookedUp K V)}
    (present : ∀ item ∈ items, item.lookup.halts = false) :
    ∀ item ∈ items, item.lookup ≠ .crash := by
  intro item isItem isCrash
  have goesOn := present item isItem
  rw [isCrash] at goesOn
  cases goesOn

theorem answerTo_eq_map {item : LookedUp K V} {content : Option V}
    (isItem : item ∈ (lookUpAll dev 0 slots commands).1)
    (moved : order.Perm (requestsOf length dev slots commands))
    (answers : ∀ rq ∈ item.requests length,
      Reorder.answerTo (kvDevice dev) (contentAfter dev 0 slots commands) order
        rq.index = some (rq.command.reply dev content)) :
    Reorder.answerTo (kvDevice dev) (contentAfter dev 0 slots commands) order
        item.index =
      (item.lookup.request length item.command).map fun rq => rq.reply dev content := by
  cases asks : item.lookup.request length item.command with
  | none =>
    have absent := index_not_mem_requestsOf isItem (LookedUp.requests_eq_nil asks)
    rw [← (moved.map Reorder.Request.index).mem_iff] at absent
    exact Reorder.answerTo_eq_none absent
  | some rq =>
    exact answers ⟨item.index, item.key, rq⟩ (LookedUp.mem_requests.mpr ⟨rfl, rfl, asks⟩)

theorem sameAsOneByOne_of_unaffected
    (unaffected : Unaffected length dev keyLength slots commands) :
    SameAsOneByOne length dev keyLength slots commands := by
  have present : ∀ item ∈ (lookUpAll dev 0 slots commands).1, item.lookup.halts = false :=
    fun item isItem => (unaffected.plain item isItem).present
  have prepared := (prepareRequests_spec keyLength _).1.mpr unaffected.prepares
  intro _ moved
  rw [built_of_present present] at moved
  cases unaffected.reaches with
  | inl empty =>
    subst empty
    rfl
  | inr asks =>
    rw [nvmeKvMultiCmd_of_prepared present prepared asks,
      nvmeKvCmds_eq (LookedUp.alive_of_present present),
      nvmeKvCmdsFrom_of_independent unaffected.independent]
    apply map_congr_left
    intro item isItem
    rw [LookedUp.served_of_plain (unaffected.plain item isItem)]
    apply congrArg fun reply => some (item.answered length dev reply)
    apply answerTo_eq_map isItem moved
    intro _ isRq
    rw [← (LookedUp.mem_requests.mp isRq).2.1]
    exact Reorder.answerTo_of_independent unaffected.independent
      (requestsOf_distinct slots commands) moved
      (mem_flatMap.mpr ⟨item, isItem, isRq⟩)

theorem length_lookUpAll : (lookUpAll dev 0 slots commands).1.length = commands.length := by
  have count := congrArg List.length (lookUpAll_index dev commands 0 slots)
  rwa [length_map, length_range'] at count

theorem length_nvmeKvCmds :
    (nvmeKvCmds length dev slots commands).length = commands.length := by
  rw [nvmeKvCmds, length_untilCrash,
    ← (nvmeKvCmdsFrom_gives length dev slots commands).length_eq, length_lookUpAll]

theorem length_nvmeKvMultiCmd :
    (nvmeKvMultiCmd length dev keyLength slots commands order).length = commands.length := by
  have built : ∀ (commands : List (K × SyncCmd V)) (i : Nat) (slots : K → Slot V),
      (buildSyncRqs length dev i slots commands).cmds.length = commands.length := by
    intro commands
    induction commands with
    | nil => exact fun _ _ => rfl
    | cons cmd rest ih =>
      intro i slots
      simp only [buildSyncRqs]
      split_ifs <;> simp [ih]
  simp only [nvmeKvMultiCmd]
  split_ifs <;> simp [built]

/-- Where a command crashes, the multi-command gives nothing to any. -/
theorem sameAsOneByOne_iff_of_crash
    (crashes : ∃ item ∈ (lookUpAll dev 0 slots commands).1, item.lookup = .crash) :
    SameAsOneByOne length dev keyLength slots commands ↔ CrashesFirst dev slots commands := by
  have someNone : none ∈ nvmeKvCmds length dev slots commands :=
    none_mem_untilCrash (none_mem_nvmeKvCmdsFrom.mpr crashes)
  cases commands with
  | nil => cases someNone
  | cons cmd rest =>
    rcases cmd with ⟨key, cmd⟩
    constructor
    · intro same
      by_contra goesOn
      have first : ∃ served, some served ∈ nvmeKvCmds length dev slots ((key, cmd) :: rest) := by
        cases isServed : (nvmeKvCmd length dev (slots key) cmd).1 with
        | none =>
          let item : LookedUp K V := ⟨0, key, cmd, ((slots key).lookUp dev cmd).1⟩
          exact absurd (item.served_eq_none_iff.mp isServed) goesOn
        | some served =>
          exact ⟨served, by simp [nvmeKvCmds, nvmeKvCmdsFrom, isServed, untilCrash]⟩
      obtain ⟨served, isServed⟩ := first
      have multi := same _ (List.Perm.refl _)
      rcases nvmeKvMultiCmd_uniform length dev keyLength slots ((key, cmd) :: rest)
        (buildSyncRqs length dev 0 slots ((key, cmd) :: rest)).requests with all | some
      · cases all _ (multi ▸ isServed)
      · exact some (multi ▸ someNone)
    intro atOnce order _
    have isCrash : ((slots key).lookUp dev cmd).1 = .crash := atOnce
    have multi : ∀ given ∈ nvmeKvMultiCmd length dev keyLength slots ((key, cmd) :: rest) order,
        given = none :=
      nvmeKvMultiCmd_of_crash (List.nil_append _).symm (by simp) (by rw [isCrash]; rfl) isCrash
    have single : nvmeKvCmds length dev slots ((key, cmd) :: rest) =
        none :: (nvmeKvCmdsFrom length dev (Function.update slots key
          (nvmeKvCmd length dev (slots key) cmd).2) rest).map fun _ => none := by
      have served : (nvmeKvCmd length dev (slots key) cmd).1 = none := by
        simp [nvmeKvCmd, isCrash, Lookup.kvCmd]
      simp [nvmeKvCmds, nvmeKvCmdsFrom, served, untilCrash]
    rw [eq_replicate_iff.mpr ⟨length_nvmeKvMultiCmd, multi⟩]
    refine (eq_replicate_iff.mpr ⟨length_nvmeKvCmds, fun cmd isCmd => ?_⟩).symm
    rw [single, map_const'] at isCmd
    exact (mem_cons.mp isCmd).elim id eq_of_mem_replicate

theorem sameAsOneByOne_of_allMissing (missing : AllMissing dev slots commands) :
    SameAsOneByOne length dev keyLength slots commands := by
  obtain ⟨item, isItem, isMissing⟩ := missing.atOnce
  obtain ⟨front, item, back, split, goesOn, halts⟩ :=
    exists_first_halt ⟨item, isItem, by rw [isMissing]; rfl⟩
  have alive : ∀ item ∈ (lookUpAll dev 0 slots commands).1, item.lookup ≠ .crash := by
    intro item isItem isCrash
    obtain ⟨_, isMissing⟩ := missing.missing item isItem
    cases isMissing.symm.trans isCrash
  have atOnce : item.lookup = .hit none false := by
    obtain ⟨waited, isMissing⟩ := missing.missing item (by simp [split])
    rw [isMissing] at halts ⊢
    cases waited with
    | true => cases halts
    | false => rfl
  intro order _
  let seen : UserCmd V := { status := keyNotExistError }
  have multi : ∀ cmd ∈ nvmeKvMultiCmd length dev keyLength slots commands order,
      cmd = some seen := by
    intro cmd isCmd
    rw [nvmeKvMultiCmd_of_halt split goesOn halts (alive item (by simp [split])), map_append,
      map_map, map_map, mem_append, mem_map, mem_map] at isCmd
    have ret : (item.lookup.build length dev item.command).1 = keyNotExistError := by
      rw [atOnce]
      rfl
    rcases isCmd with ⟨earlier, isEarlier, rfl⟩ | ⟨_, _, rfl⟩
    · have inItems : earlier ∈ (lookUpAll dev 0 slots commands).1 := by
        rw [split, append_cons]
        exact mem_append_left _ isEarlier
      obtain ⟨_, isMissing⟩ := missing.missing earlier inItems
      simp only [Function.comp_apply, ret, isMissing]
      rfl
    simp only [Function.comp_apply, ret]
    rfl
  have single : ∀ cmd ∈ nvmeKvCmds length dev slots commands, cmd = some seen := by
    intro cmd isCmd
    rw [nvmeKvCmds_eq alive] at isCmd
    obtain ⟨item, isItem, _, rfl⟩ := exists_lookup isCmd
    obtain ⟨_, isMissing⟩ := missing.missing item isItem
    rw [LookedUp.served_missing isMissing, missing.result]
    rfl
  rw [eq_replicate_iff.mpr ⟨length_nvmeKvMultiCmd, multi⟩,
    eq_replicate_iff.mpr ⟨length_nvmeKvCmds, single⟩]

omit [DecidableEq K] in
theorem Slot.lookUp_refused_iff {slot : Slot V} {cmd : SyncCmd V} {refusal : Refusal} :
    (slot.lookUp dev cmd).1 = .refused refusal ↔ cmd.refusal = some refusal := by
  have notBuffered : ∀ command buffered deleteData,
      Lookup.ofBuffered (V := V) command buffered deleteData ≠ .refused refusal := by
    intro command buffered deleteData
    cases command <;> cases buffered <;> cases deleteData <;> simp [Lookup.ofBuffered]
  cases isRefused : cmd.refusal with
  | some => simp [Slot.lookUp, isRefused]
  | none =>
    simp only [Slot.lookUp, isRefused, Slot.lookInHashes, Slot.lookInRequests, reduceCtorEq,
      iff_false]
    split_ifs
    · simp
    split
    · simp
    split
    · split <;> simp
    · exact notBuffered _ _ _
    · simp

variable (dev) in
theorem lookUpAll_commands (i : Nat) (slots : K → Slot V) (commands : List (K × SyncCmd V)) :
    (lookUpAll dev i slots commands).1.map (fun item => (item.key, item.command)) = commands := by
  induction commands generalizing i slots with
  | nil => rfl
  | cons cmd rest ih => simp [lookUpAll, ih]

theorem lookup_refused_iff {i : Nat} {item : LookedUp K V} {refusal : Refusal}
    (isItem : item ∈ (lookUpAll dev i slots commands).1) :
    item.lookup = .refused refusal ↔ item.command.refusal = some refusal := by
  induction commands generalizing i slots with
  | nil => cases isItem
  | cons cmd rest ih =>
    rcases mem_cons.mp isItem with rfl | later
    · exact Slot.lookUp_refused_iff
    exact ih later

omit [DecidableEq K] in
/-- A command that gets the return code of a refusal from the single-command path was refused. -/
theorem LookedUp.refused_of_gives {item : LookedUp K V} {refusal : Refusal} {cmd : UserCmd V}
    (given : item.Gives length dev (some (cmd.seen refusal.buildRet))) :
    ∃ other, item.lookup = .refused other ∧
      cmd.seen refusal.buildRet = { status := other.ret, result := other.result } := by
  obtain ⟨_, given⟩ := given
  have negative : refusal.buildRet < 0 ∧ refusal.buildRet ≠ existInRaHash ∧
      refusal.buildRet ≠ keyNotExist := by cases refusal <;> decide
  have status : (cmd.seen refusal.buildRet).status = refusal.buildRet :=
    if_pos (Int.ne_of_lt negative.1)
  rw [← status] at negative
  exact LookedUp.refused_of_status given.symm negative.1 negative.2.1 negative.2.2

/-- Only an unreadable command leaves its fields cleared, and only a key has its return code. -/
theorem Refusal.of_seen_cleared {refusal other : Refusal} (readable : refusal ≠ .unreadable)
    (same : ({} : UserCmd V).seen refusal.buildRet =
      { status := other.ret, result := other.result }) :
    other = .unreadable ∧ refusal = .key := by
  have statuses := congrArg UserCmd.status same
  have results := congrArg UserCmd.result same
  cases other with
  | unreadable =>
    cases refusal with
    | unreadable => exact absurd rfl readable
    | flags => cases statuses
    | opcode => cases statuses
    | key => exact ⟨rfl, rfl⟩
  | flags => cases results
  | opcode => cases results
  | key => cases results

/-! A list in which the loop ends early. -/

section Halted

variable {front back : List (LookedUp K V)} {item : LookedUp K V}
  (split : (lookUpAll dev 0 slots commands).1 = front ++ item :: back)
  (goesOn : ∀ earlier ∈ front, earlier.lookup.halts = false)
  (alive : ∀ item ∈ (lookUpAll dev 0 slots commands).1, item.lookup ≠ .crash)
  (same : SameAsOneByOne length dev keyLength slots commands)

include split goesOn alive same

/-- Each command gets one by one the code at which the loop ended. -/
theorem gives_of_sameAsOneByOne (halts : item.lookup.halts = true) :
    (∀ earlier ∈ front ++ [item], earlier.Gives length dev
      (some ((earlier.lookup.build length dev earlier.command).2.seen
        (item.lookup.build length dev item.command).1))) ∧
      ∀ later ∈ back, later.Gives length dev
        (some (({} : UserCmd V).seen (item.lookup.build length dev item.command).1)) := by
  have gives := nvmeKvCmdsFrom_gives length dev slots commands
  rw [← nvmeKvCmds_eq alive, ← same _ (List.Perm.refl _),
    nvmeKvMultiCmd_of_halt split goesOn halts (alive item (by simp [split])), split, map_append,
    map_map, map_map, show front ++ item :: back = (front ++ [item]) ++ back by simp] at gives
  have early := forall₂_take_append _ _ _ gives
  have late := forall₂_drop_append _ _ _ gives
  rw [length_map, take_left, forall₂_map_right_iff, forall₂_same] at early
  rw [length_map, drop_left, forall₂_map_right_iff, forall₂_same] at late
  exact ⟨early, late⟩

theorem allMissing_of_halt (atOnce : item.lookup = .hit none false) :
    AllMissing dev slots commands := by
  obtain ⟨early, late⟩ :=
    gives_of_sameAsOneByOne split goesOn alive same (by rw [atOnce]; rfl)
  have ret : (item.lookup.build length dev item.command).1 = keyNotExistError := by
    rw [atOnce]
    rfl
  rw [ret] at early late
  refine ⟨?_, fun looked isLooked => ?_, item, by simp [split], atOnce⟩
  · obtain ⟨_, given⟩ := early item (by simp)
    rw [LookedUp.served_missing atOnce, atOnce, Option.some.injEq] at given
    exact Int.ofNat.inj (congrArg UserCmd.result given).symm
  rw [split, append_cons, mem_append] at isLooked
  rcases isLooked with isEarly | isLate
  · obtain ⟨_, given⟩ := early looked isEarly
    exact LookedUp.missing_of_status given.symm rfl
  obtain ⟨_, given⟩ := late looked isLate
  exact LookedUp.missing_of_status given.symm rfl

theorem refusedAlike_of_halt {refusal : Refusal} (isRefused : item.lookup = .refused refusal) :
    RefusedAlike commands := by
  obtain ⟨early, late⟩ :=
    gives_of_sameAsOneByOne split goesOn alive same (by rw [isRefused]; rfl)
  have ret : (item.lookup.build length dev item.command).1 = refusal.buildRet := by
    rw [isRefused]
    rfl
  rw [ret] at early late
  -- An earlier command would have ended the loop.
  have first : front = [] := by
    cases front with
    | nil => rfl
    | cons earlier front =>
      obtain ⟨_, isEarly, -⟩ := LookedUp.refused_of_gives (early earlier (by simp))
      have halts := goesOn earlier mem_cons_self
      rw [isEarly] at halts
      cases halts
  subst first
  have own : refusal ≠ .unreadable := by
    rintro rfl
    obtain ⟨_, given⟩ := early item (by simp)
    rw [LookedUp.served_refused isRefused, Option.some.injEq] at given
    cases congrArg UserCmd.status given
  have behind : ∀ later ∈ back, later.lookup = .refused .unreadable ∧ refusal = .key := by
    intro later isLater
    obtain ⟨other, isOther, sameCmd⟩ := LookedUp.refused_of_gives (late later isLater)
    obtain ⟨rfl, isKey⟩ := Refusal.of_seen_cleared own sameCmd
    exact ⟨isOther, isKey⟩
  have inItems : ∀ looked ∈ item :: back, looked ∈ (lookUpAll dev 0 slots commands).1 :=
    fun looked isLooked => split ▸ isLooked
  have asked := lookUpAll_commands dev 0 slots commands
  rw [split, nil_append, map_cons] at asked
  have itself := (lookup_refused_iff (inItems item mem_cons_self)).mp isRefused
  have alone : refusal ≠ .key → back.map (fun later => (later.key, later.command)) = [] := by
    intro notKey
    cases back with
    | nil => rfl
    | cons later => exact absurd (behind later mem_cons_self).2 notKey
  rw [← asked]
  cases refusal with
  | unreadable => exact absurd rfl own
  | flags => exact .inl ⟨.inl itself, alone (by simp)⟩
  | opcode => exact .inl ⟨.inr itself, alone (by simp)⟩
  | key =>
    refine .inr ⟨itself, forall_mem_map.mpr fun later isLater => ?_⟩
    exact (lookup_refused_iff (inItems later (mem_cons_of_mem _ isLater))).mp
      (behind later isLater).1

end Halted

theorem nvmeKvCmdsFrom_unreadable
    (unreadable : ∀ cmd ∈ commands, cmd.2.refusal = some .unreadable) :
    nvmeKvCmdsFrom length dev slots commands = commands.map fun _ => some { status := efault } := by
  induction commands generalizing slots with
  | nil => rfl
  | cons first rest ih =>
    have refused := unreadable first mem_cons_self
    rw [nvmeKvCmdsFrom, ih fun cmd isCmd => unreadable cmd (mem_cons_of_mem _ isCmd)]
    simp [nvmeKvCmd, Slot.lookUp, refused, Lookup.kvCmd, UserCmd.seen, Refusal.ret,
      Refusal.result, efault]

theorem sameAsOneByOne_of_refusedAlike (alike : RefusedAlike commands) :
    SameAsOneByOne length dev keyLength slots commands := by
  intro order _
  cases commands with
  | nil => exact absurd alike id
  | cons first rest =>
    rcases alike with ⟨refused, rfl⟩ | ⟨refused, unreadable⟩
    · rcases refused with refused | refused <;>
        simp [nvmeKvMultiCmd, buildSyncRqs, nvmeKvCmds, nvmeKvCmdsFrom, nvmeKvCmd, Slot.lookUp,
          refused, Lookup.kvCmd, Lookup.build, Lookup.isCrash, UserCmd.seen, untilCrash,
          Refusal.ret, Refusal.buildRet, einval]
    have alive : none ∉ nvmeKvCmdsFrom length dev slots (first :: rest) := by
      simp [nvmeKvCmdsFrom, nvmeKvCmdsFrom_unreadable unreadable, nvmeKvCmd, Slot.lookUp,
        refused, Lookup.kvCmd]
    rw [nvmeKvCmds, untilCrash_eq_self alive, nvmeKvCmdsFrom,
      nvmeKvCmdsFrom_unreadable unreadable]
    simp [nvmeKvMultiCmd, buildSyncRqs, nvmeKvCmd, Slot.lookUp, refused, Lookup.kvCmd,
      Lookup.build, Lookup.isCrash, UserCmd.seen, Refusal.ret, Refusal.buildRet, efault,
      mapIdx_eq_zipIdx_map, Function.comp_def, map_const']

theorem exists_answerTo_lookup {item : LookedUp K V}
    (isItem : item ∈ (lookUpAll dev 0 slots commands).1)
    (moved : order.Perm (requestsOf length dev slots commands)) :
    ∃ content,
      Reorder.answerTo (kvDevice dev) (contentAfter dev 0 slots commands) order item.index =
        (item.lookup.request length item.command).map fun rq => rq.reply dev content := by
  have nodup := (moved.map Reorder.Request.index).nodup_iff.mpr
    (requestsOf_distinct slots commands)
  cases asks : item.requests length with
  | nil =>
    refine ⟨none, answerTo_eq_map isItem moved fun rq isRq => ?_⟩
    rw [asks] at isRq
    cases isRq
  | cons asked =>
    have isAsked := asks ▸ mem_cons_self
    obtain ⟨content, answer⟩ := Reorder.exists_answerTo
      (moved.mem_iff.mpr (mem_flatMap.mpr ⟨item, isItem, isAsked⟩)) nodup
    refine ⟨content, answerTo_eq_map isItem moved fun rq isRq => ?_⟩
    rw [LookedUp.eq_of_mem_requests isRq isAsked]
    exact answer

section Present

variable (present : ∀ item ∈ (lookUpAll dev 0 slots commands).1, item.lookup.halts = false)
  (same : SameAsOneByOne length dev keyLength slots commands)

include present same

theorem multi_eq_single (moved : order.Perm (requestsOf length dev slots commands)) :
    nvmeKvMultiCmd length dev keyLength slots commands order =
      nvmeKvCmdsFrom length dev slots commands := by
  rw [← nvmeKvCmds_eq (LookedUp.alive_of_present present)]
  apply same
  rwa [built_of_present present]

theorem prepared_of_sameAsOneByOne :
    prepareRequests keyLength (requestsOf length dev slots commands) = 0 := by
  by_contra failed
  have asks : requestsOf length dev slots commands ≠ [] := by
    intro none
    rw [none] at failed
    exact failed rfl
  obtain ⟨_, isRq⟩ := exists_mem_of_ne_nil _ asks
  obtain ⟨item, isItem, ofItem⟩ := mem_flatMap.mp isRq
  obtain ⟨seen, isSeen, _, given⟩ := exists_given length isItem
  rw [← multi_eq_single present same (List.Perm.refl _)] at isSeen
  obtain ⟨cmd, rfl, code⟩ := nvmeKvMultiCmd_of_unprepared present failed seen isSeen
  have small := LookedUp.status_le_of_request ofItem given.symm
  have large := (prepareRequests_spec keyLength _).2 failed
  omega

theorem asks_of_sameAsOneByOne :
    commands = [] ∨ requestsOf length dev slots commands ≠ [] := by
  cases commands with
  | nil => exact .inl rfl
  | cons first rest =>
    right
    intro noRequests
    obtain ⟨item, isItem⟩ : ∃ item, item ∈ (lookUpAll dev 0 slots (first :: rest)).1 :=
      ⟨_, mem_cons_self⟩
    obtain ⟨seen, isSeen, _, given⟩ := exists_given length isItem
    rw [← multi_eq_single present same (List.Perm.refl _)] at isSeen
    rw [nvmeKvMultiCmd_of_no_requests present noRequests seen isSeen] at given
    exact LookedUp.alive_of_present present item isItem
      (LookedUp.served_eq_none_iff.mp given.symm)

theorem answered_of_sameAsOneByOne {item : LookedUp K V}
    (isItem : item ∈ (lookUpAll dev 0 slots commands).1) :
    ∃ found, ∀ order : List (DeviceRequest K V),
      order.Perm (requestsOf length dev slots commands) →
        item.served length dev found =
          some (item.answered length dev
            (Reorder.answerTo (kvDevice dev) (contentAfter dev 0 slots commands)
              order item.index)) := by
  have prepared := prepared_of_sameAsOneByOne present same
  have asks : requestsOf length dev slots commands ≠ [] := by
    cases asks_of_sameAsOneByOne present same with
    | inl empty =>
      rw [empty] at isItem
      cases isItem
    | inr asks => exact asks
  have multi := fun (order : List (DeviceRequest K V))
      (moved : order.Perm (requestsOf length dev slots commands)) =>
    (nvmeKvMultiCmd_of_prepared present prepared asks).symm.trans
      (multi_eq_single present same moved)
  have gives := nvmeKvCmdsFrom_gives length dev slots commands
  rw [← multi _ (List.Perm.refl _), forall₂_map_right_iff, forall₂_same] at gives
  obtain ⟨found, given⟩ := gives item isItem
  refine ⟨found, fun order moved => given.symm.trans ?_⟩
  exact map_inj_left.mp ((multi _ (List.Perm.refl _)).trans (multi order moved).symm) item isItem

theorem plain_of_sameAsOneByOne {item : LookedUp K V}
    (isItem : item ∈ (lookUpAll dev 0 slots commands).1) : item.lookup.Plain length dev := by
  obtain ⟨_, always⟩ := answered_of_sameAsOneByOne present same isItem
  have now := always _ (List.Perm.refl _)
  obtain ⟨_, answer⟩ := exists_answerTo_lookup isItem (List.Perm.refl _)
  rw [answer] at now
  exact LookedUp.plain_of_served (present item isItem) now

theorem independent_of_sameAsOneByOne :
    Reorder.Independent (kvDevice dev) (contentAfter dev 0 slots commands)
      (requestsOf length dev slots commands) := by
  apply Reorder.independent_of_answerTo
  intro _ isRq
  obtain ⟨item, isItem, ofItem⟩ := mem_flatMap.mp isRq
  obtain ⟨sameIndex, _, asks⟩ := LookedUp.mem_requests.mp ofItem
  obtain ⟨found, always⟩ := answered_of_sameAsOneByOne present same isItem
  have plain := plain_of_sameAsOneByOne present same isItem
  rw [sameIndex]
  cases lookup : item.lookup with
  | hit =>
    rw [lookup] at asks
    cases asks
  | takesStore =>
    -- The device answers every store alike.
    refine ⟨{ result := dev.writeResult }, fun order moved => ?_⟩
    obtain ⟨_, answer⟩ := exists_answerTo_lookup isItem moved
    rw [answer, lookup]
    rfl
  | takesDelete =>
    rw [lookup] at plain
    exact absurd plain id
  | device =>
    refine ⟨(item.command.request length).reply dev found, fun order moved => ?_⟩
    obtain ⟨_, answer⟩ := exists_answerTo_lookup isItem moved
    rw [lookup] at answer
    have now := always order moved
    rw [LookedUp.served_device lookup, answer, Option.some.injEq] at now
    rw [answer]
    exact congrArg some (LookedUp.reply_of_answered lookup now).symm
  | refused =>
    rw [lookup] at asks
    cases asks
  | crash =>
    rw [lookup] at asks
    cases asks

end Present

end

/-- A value of three bytes in the read-ahead hash, and another key on the device. -/
def oneReadAhead : Nat → Slot (List Nat)
  | 0 => { readahead := some (some [7, 8, 9]), device := some [7, 8, 9] }
  | _ => { device := some [5] }

def getOf (dataLength : Nat) : SyncCmd (List Nat) :=
  { command := .retrieve, dataLength := dataLength }

end InsDb.Driver
