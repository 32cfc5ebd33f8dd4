import InsDb.Driver.SyncCommand
import Mathlib.Data.List.Infix

/-!
# What a synchronous get copies

A get that is answered from the read-ahead hash copies as many bytes as its caller asks for out
of the buffer of the asynchronous get, whatever the device put there.  One that is answered from
a pending store copies the whole value, whatever the caller asks for.
-/

namespace InsDb.Driver

open List

/-- The memory at the buffer of an asynchronous get after the device has answered: as many bytes
of the value as the device put there, and what was there before. -/
def readaheadBuffer (memory : Nat → UInt8) (transferred : Nat) (content : Option (List UInt8))
    (offset : Nat) : UInt8 :=
  ((content.getD []).take transferred)[offset]?.getD (memory offset)

namespace Lookup

variable (lookup : Lookup (List UInt8)) (dev : KvSsd (List UInt8)) (transferred : Nat)
  (cmd : SyncCmd (List UInt8))

/-- The value that answers the get from a pending write or an entry of the read-ahead hash; one
that stops the kernel was to be answered by a pending delete. -/
def answer : Lookup (List UInt8) → Option (Option (List UInt8))
  | .hit entry _ => some entry
  | .takesStore value => some (some value)
  | .takesDelete => some none
  | .crash => some none
  | .device => none
  | .refused _ => none

/-- What the device reports for it, in the case of a pending write once it has carried it out. -/
def deviceReport : Lookup (List UInt8) → Nat
  | .hit entry _ => (cmd.getRequest.reply dev entry).result
  | .takesStore value => (cmd.getRequest.reply dev (some (dev.kept value))).result
  | _ => (cmd.getRequest.reply dev none).result

/-- The bytes that the driver copies to the caller: `copy_to_user` in `kv_do_readahead` with the
length of the caller, in `kv_move_async_to_sync` with the length of the stored value. -/
def copied (memory : Nat → UInt8) : Lookup (List UInt8) → List UInt8
  | .hit entry _ =>
    if cmd.dataAddr then (range cmd.dataLength).map (readaheadBuffer memory transferred entry)
    else []
  | .takesStore value => if cmd.dataAddr then value else []
  | _ => []

/-- Whatever is in the memory of the kernel, the get copies no more than the caller's length and
the value's, only bytes of the value, and reports what the device reports for the value. -/
def CopiesSafely : Prop :=
  ∀ (memory : Nat → UInt8) (content entry : Option (List UInt8)), lookup.answer = some entry →
    (lookup.copied transferred cmd memory).length ≤ cmd.dataLength ∧
    (lookup.copied transferred cmd memory).length ≤ (entry.getD []).length ∧
    lookup.copied transferred cmd memory <+: entry.getD [] ∧
    (lookup.kvCmd List.length dev cmd content).map (·.2.result) =
      some (lookup.deviceReport dev cmd : Int)

def LengthsFit : Lookup (List UInt8) → Prop
  | .hit entry _ =>
    cmd.dataAddr = true → cmd.dataLength ≤ transferred ∧ cmd.dataLength ≤ (entry.getD []).length
  | .takesStore value =>
    (cmd.dataAddr = true → value.length ≤ cmd.dataLength) ∧
      dev.retrieveResult (dev.kept value) =
        if value.length = 0 then dev.writeResult else value.length
  | .takesDelete => dev.writeResult = dev.missingResult
  | .crash => False
  | .device => True
  | .refused _ => True

/-- Within what the device put there and the value only bytes of the value are copied; past it
they depend on the memory. -/
theorem copied_hit_iff (entry : Option (List UInt8)) {dataLength : Nat}
    (within : dataLength ≤ (entry.getD []).length) :
    (∀ memory, (range dataLength).map (readaheadBuffer memory transferred entry) <+:
      entry.getD []) ↔ dataLength ≤ transferred := by
  have taken : ∀ offset < transferred, offset < dataLength → ∀ memory,
      readaheadBuffer memory transferred entry offset = (entry.getD [])[offset]?.getD 0 := by
    intro offset inBuffer asked memory
    have inValue : offset < (entry.getD []).length := by omega
    rw [readaheadBuffer, getElem?_take_of_lt inBuffer, getElem?_eq_getElem inValue,
      Option.getD_some, Option.getD_some]
  constructor
  · intro copies
    by_contra beyond
    have past : ∀ byte, (entry.getD [])[transferred]? = some byte := by
      intro byte
      have agree := (copies fun _ => byte).getElem (i := transferred) (by simpa using beyond)
      have leftover : readaheadBuffer (fun _ => byte) transferred entry transferred = byte := by
        rw [readaheadBuffer, getElem?_eq_none (length_take_le ..), Option.getD_none]
      rw [getElem_map, getElem_range, leftover] at agree
      rw [agree, getElem?_eq_getElem]
    exact absurd ((past 0).symm.trans (past 1)) (by decide)
  intro _ memory
  refine prefix_iff_eq_take.mpr (ext_getElem (by simp; omega) fun offset asked inTake => ?_)
  have inRange : offset < dataLength := by simpa using asked
  rw [getElem_map, getElem_range, taken offset (by omega) inRange memory, getElem_take,
    getElem?_eq_getElem (by omega), Option.getD_some]

/-- A get copies safely exactly if its lengths fit. -/
theorem copiesSafely_iff :
    lookup.CopiesSafely dev transferred cmd ↔ lookup.LengthsFit dev transferred cmd := by
  cases lookup with
  | hit entry =>
    simp only [CopiesSafely, copied, answer, kvCmd, LengthsFit, deviceReport, Option.some.injEq,
      forall_eq', Option.map_some, and_true]
    cases hasBuffer : cmd.dataAddr with
    | false => simp
    | true =>
      simp only [if_true, length_map, length_range, forall_const]
      constructor
      · intro safe
        have within := (safe fun _ => 0).2.1
        exact ⟨(copied_hit_iff transferred entry within).mp fun memory => (safe memory).2.2, within⟩
      rintro ⟨fits, within⟩ memory
      exact ⟨le_rfl, within, (copied_hit_iff transferred entry within).mpr fits memory⟩
  | takesStore value =>
    simp only [CopiesSafely, copied, answer, kvCmd, LengthsFit, deviceReport, Option.some.injEq,
      forall_eq', Option.map_some, Option.getD_some, SyncCmd.takenStore, SyncCmd.getRequest,
      SyncRequest.reply]
    have cast : (if value.length = 0 then (dev.writeResult : Int) else value.length) =
        (if value.length = 0 then dev.writeResult else value.length : Nat) := by
      split_ifs <;> rfl
    rw [cast, Int.ofNat_inj, eq_comm (a := dev.retrieveResult _)]
    cases cmd.dataAddr <;> simp
  | takesDelete =>
    simp only [CopiesSafely, copied, answer, kvCmd, LengthsFit, deviceReport, Option.some.injEq,
      forall_eq', Option.map_some, SyncCmd.getRequest, SyncRequest.reply]
    constructor
    · intro safe
      have report := (safe (fun _ => 0) (some [])).2.2.2
      exact Int.ofNat_inj.mp (by simpa [SyncRequest.takenDelete] using report)
    intro same memory content
    refine ⟨Nat.zero_le _, Nat.zero_le _, nil_prefix, ?_⟩
    cases content <;> simp [SyncRequest.takenDelete, same]
  | crash => simp [CopiesSafely, answer, kvCmd, LengthsFit]
  | device => simp [CopiesSafely, answer, LengthsFit]
  | refused => simp [CopiesSafely, answer, LengthsFit]

end Lookup

/-- Whatever the driver has for a key and whatever a caller asks for, a synchronous get copies
safely exactly if the lengths fit for the request or the entry that answers it. -/
theorem get_copiesSafely_iff (dev : KvSsd (List UInt8)) (slot : Slot (List UInt8))
    (transferred : Nat) (cmd : SyncCmd (List UInt8)) :
    (slot.lookUp dev cmd).1.CopiesSafely dev transferred cmd ↔
      (slot.lookUp dev cmd).1.LengthsFit dev transferred cmd :=
  Lookup.copiesSafely_iff _ dev transferred cmd

/-- A caller asks for eight bytes, the read-ahead entry has a value of three. -/
theorem get_copies_past_value :
    ¬ (({ readahead := some (some [1, 2, 3]) } : Slot (List UInt8)).lookUp plainSsd
      { command := .retrieve, dataLength := 8 }).1.CopiesSafely plainSsd 3
        { command := .retrieve, dataLength := 8 } := by
  intro safe
  exact absurd (safe (fun _ => 0) none _ rfl).2.1 (by decide)

end InsDb.Driver
