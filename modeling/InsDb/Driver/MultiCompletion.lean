import InsDb.Driver.MultiCommand
import InsDb.Library.Run

/-!
# The completion of a multi-command

`nvme_submit_kv_multicmd` counts the requests it issues, every end of a request counts down,
and the one that reaches zero signals the completion that the call waits for.  Requests may end
before the last one is issued, in any order.
-/

namespace InsDb.Driver

open InsDb.Library.Run List

/-- `multicmd_completion`, with the requests issued and ended so far. -/
structure MulticmdCompletion where
  pendingCount : Int
  signals : Nat := 0
  issued : Nat := 0
  ended : Nat := 0
deriving DecidableEq

inductive MulticmdEvent where
  | issue
  /-- `kv_end_io_multi_sync_rq` of a request that was issued. -/
  | endIo

def multicmdStep (count : Nat) (s : MulticmdCompletion) :
    MulticmdEvent → Option MulticmdCompletion
  | .issue => if s.issued < count then some { s with issued := s.issued + 1 } else none
  | .endIo =>
    if s.ended < s.issued then
      some { s with
        pendingCount := s.pendingCount - 1
        signals := s.signals + if s.pendingCount - 1 = 0 then 1 else 0
        ended := s.ended + 1 }
    else none

/-- In every interleaving the completion is signalled once, when the last request has ended,
and until then something is left to happen. -/
def SignalledOnce (count : Nat) : Prop :=
  ∀ events : List MulticmdEvent,
    AllHold (multicmdStep count) (fun s =>
      s.signals = (if s.ended = count then 1 else 0) ∧
        (s.ended < count → ∃ event, (multicmdStep count s event).isSome = true))
      events { pendingCount := count }

structure MulticmdCompletion.Counts (count : Nat) (s : MulticmdCompletion) : Prop where
  pending : s.pendingCount = count - s.ended
  ended : s.ended ≤ s.issued
  issued : s.issued ≤ count
  signals : s.signals = if s.ended = count then 1 else 0

theorem MulticmdCompletion.Counts.step {count : Nat} {s next : MulticmdCompletion}
    {event : MulticmdEvent} (counts : s.Counts count)
    (taken : multicmdStep count s event = some next) : next.Counts count := by
  obtain ⟨pending, _, issued, signals⟩ := counts
  cases event with
  | issue =>
    simp only [multicmdStep, Option.ite_none_right_eq_some, Option.some.injEq] at taken
    obtain ⟨more, rfl⟩ := taken
    exact ⟨pending, by simp only; omega, more, signals⟩
  | endIo =>
    simp only [multicmdStep, Option.ite_none_right_eq_some, Option.some.injEq] at taken
    obtain ⟨running, rfl⟩ := taken
    refine ⟨by simp only; omega, running, issued, ?_⟩
    simp only [signals, pending]
    split_ifs <;> omega

theorem signalledOnce_iff (count : Nat) : SignalledOnce count ↔ count ≠ 0 := by
  constructor
  · rintro once rfl
    exact absurd (once []).1 (by decide)
  intro some _
  refine allHold_of_invariant (MulticmdCompletion.Counts count) ?_
    (fun _ _ _ counts taken => counts.step taken)
    ⟨by simp, le_rfl, Nat.zero_le _, (if_neg (Ne.symm some)).symm⟩
  rintro s ⟨-, _, _, signals⟩
  refine ⟨signals, fun more => ?_⟩
  by_cases running : s.ended < s.issued
  · exact ⟨.endIo, by simp [multicmdStep, running]⟩
  exact ⟨.issue, by simp [multicmdStep, show s.issued < count by omega]⟩

section Released

variable {K V : Type} [DecidableEq K] (length : V → Nat) (dev : KvSsd V)
  (keyLength : K → Nat) (slots : K → Slot V) (cmds : List (K × SyncCmd V))

/-- The kernel goes on, and the call waits only if every request is built and prepared. -/
def MultiCmdReleased : Prop :=
  let built := buildSyncRqs length dev 0 slots cmds
  built.crashed = false ∧
    (built.ret = 0 → prepareRequests keyLength built.requests = 0 →
      SignalledOnce built.requests.length)

/-- The loop ends before its last command, and not in a crash: a command is refused, or finds
at once in the read-ahead hash that its key is missing. -/
def EndsEarly : Prop :=
  ∃ item, (lookUpAll dev 0 slots cmds).1.find? (·.lookup.halts) = some item ∧
    item.lookup ≠ .crash

end Released

end InsDb.Driver
