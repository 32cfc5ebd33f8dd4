import InsDb.BatchBytes
import InsDb.Library.Parts

/-!
# Reading and storing byte strings

Numbers of a fixed width read from the front of a string, and strings stored in several
requests.  A reader that would run past the end of its input gives nothing.
-/

namespace InsDb

open InsDb.Library List
open Varint (Bytes)

def encodeFixed64 (value : Nat) : Bytes :=
  encodeFixed32 value ++ encodeFixed32 (value / 2 ^ 32)

@[simp] theorem length_encodeFixed64 (v : Nat) : (encodeFixed64 v).length = 8 := rfl

theorem decodeFixed_append (width more : Nat) {bytes : Bytes} (full : bytes.length = width)
    (rest : Bytes) :
    decodeFixed (width + more) (bytes ++ rest) =
      decodeFixed width bytes + 256 ^ width * decodeFixed more rest := by
  induction bytes generalizing width with
  | nil =>
    subst full
    simp [decodeFixed]
  | cons byte bytes ih =>
    subst full
    have later := ih bytes.length rfl
    rw [length_cons, Nat.add_right_comm, cons_append, decodeFixed, later, decodeFixed, pow_succ]
    ring

theorem decodeFixed_take {width count : Nat} (enough : width ≤ count) (bytes : Bytes) :
    decodeFixed width (bytes.take count) = decodeFixed width bytes := by
  induction width generalizing count bytes with
  | zero => simp [decodeFixed]
  | succ width ih =>
    have positive : 1 ≤ count := Nat.le_trans (Nat.le_add_left 1 width) enough
    obtain ⟨_, rfl⟩ := Nat.exists_eq_add_of_le' positive
    cases bytes with
    | nil => rw [take_nil]
    | cons => rw [take_succ_cons, decodeFixed, decodeFixed, ih (Nat.le_of_succ_le_succ enough)]

theorem decodeFixed_encodeFixed64 (v : Nat) (rest : Bytes) :
    decodeFixed 8 (encodeFixed64 v ++ rest) = v % 2 ^ 64 := by
  have low := decodeFixed_encodeFixed32 v []
  have high := decodeFixed_encodeFixed32 (v / 2 ^ 32) rest
  rw [append_nil] at low
  rw [encodeFixed64, append_assoc, decodeFixed_append 4 4 (length_encodeFixed32 v), low, high]
  omega

/-- The number of `width` bytes at the front. -/
def takeFixed (width : Nat) (input : Bytes) : Option (Nat × Bytes) :=
  if width ≤ input.length then
    some (decodeFixed width input, input.drop width)
  else
    none

theorem takeFixed_encodeFixed16_mod (v : Nat) (rest : Bytes) :
    takeFixed 2 (encodeFixed16 v ++ rest) = some (v % 2 ^ 16, rest) := by
  rw [takeFixed, decodeFixed_encodeFixed16, if_pos (by simp)]
  rfl

theorem takeFixed_encodeFixed16 {v : Nat} (fits : v < 2 ^ 16) (rest : Bytes) :
    takeFixed 2 (encodeFixed16 v ++ rest) = some (v, rest) := by
  rw [takeFixed_encodeFixed16_mod, Nat.mod_eq_of_lt fits]

theorem takeFixed_encodeFixed32 {v : Nat} (fits : v < 2 ^ 32) (rest : Bytes) :
    takeFixed 4 (encodeFixed32 v ++ rest) = some (v, rest) := by
  rw [takeFixed, decodeFixed_encodeFixed32, Nat.mod_eq_of_lt fits, if_pos (by simp)]
  rfl

theorem takeFixed_encodeFixed64 {v : Nat} (fits : v < 2 ^ 64) (rest : Bytes) :
    takeFixed 8 (encodeFixed64 v ++ rest) = some (v, rest) := by
  rw [takeFixed, decodeFixed_encodeFixed64, Nat.mod_eq_of_lt fits, if_pos (by simp)]
  rfl

theorem takeFixed_suffix {width v : Nat} {input rest : Bytes}
    (taken : takeFixed width input = some (v, rest)) : rest = input.drop width := by
  unfold takeFixed at taken
  split_ifs at taken
  cases taken
  rfl

theorem takeFixed_length {width v : Nat} {input rest : Bytes}
    (taken : takeFixed width input = some (v, rest)) : width + rest.length = input.length := by
  unfold takeFixed at taken
  split_ifs at taken with enough
  cases taken
  rw [length_drop]
  omega

/-- `count` bytes at the front. -/
def takeBytes (count : Nat) (input : Bytes) : Option (Bytes × Bytes) :=
  if count ≤ input.length then
    some (input.take count, input.drop count)
  else
    none

theorem takeBytes_append (bytes rest : Bytes) :
    takeBytes bytes.length (bytes ++ rest) = some (bytes, rest) := by
  simp [takeBytes]

theorem takeBytes_some {count : Nat} {input bytes rest : Bytes}
    (taken : takeBytes count input = some (bytes, rest)) :
    input = bytes ++ rest ∧ bytes.length = count := by
  unfold takeBytes at taken
  split_ifs at taken with enough
  cases taken
  exact ⟨(take_append_drop count input).symm, length_take_of_le enough⟩

theorem length_le_length_flatMap {α : Type} {encode : α → Bytes}
    (nonempty : ∀ v, 0 < (encode v).length) (values : List α) :
    values.length ≤ (values.flatMap encode).length := by
  induction values with
  | nil => exact Nat.zero_le _
  | cons v =>
    have first := nonempty v
    rw [length_cons, flatMap_cons, length_append]
    omega

theorem unmaskCrc_maskCrc {crc : Nat} (fits : crc < 2 ^ 32) : unmaskCrc (maskCrc crc) = crc := by
  have rotated : crc / 2 ^ 15 + crc % 2 ^ 15 * 2 ^ 17 < 2 ^ 32 := by omega
  have low : (crc / 2 ^ 15 + crc % 2 ^ 15 * 2 ^ 17) / 2 ^ 17 = crc % 2 ^ 15 := by omega
  have high : (crc / 2 ^ 15 + crc % 2 ^ 15 * 2 ^ 17) % 2 ^ 17 = crc / 2 ^ 15 := by omega
  have added : ∀ rot < 2 ^ 32,
      ((rot + 0xa282ead8) % 2 ^ 32 + 2 ^ 32 - 0xa282ead8) % 2 ^ 32 = rot := by
    intro _ _
    omega
  simp only [unmaskCrc, maskCrc, added _ rotated, low, high]
  omega

theorem maskCrc_lt (crc : Nat) : maskCrc crc < 2 ^ 32 := Nat.mod_lt _ (by decide)

/-- The constant is spelled like this in the source. -/
def kDeviceRquestMaxSize : Nat := 2 ^ 21

/-- The number of requests for `size` bytes, computed in 32 bits and kept in 16. -/
def numRequests (size : Nat) : Nat :=
  (size + kDeviceRquestMaxSize - 1) % 2 ^ 32 / kDeviceRquestMaxSize % 2 ^ 16

/-- `Env::Get` of one part into a buffer of `size` bytes: as much of the stored value as the
buffer takes. -/
def deviceGet (device : Nat → Option Bytes) (size splitSeq : Nat) : Option Bytes :=
  (device splitSeq).map (List.take size)

theorem numRequests_covers {size : Nat} (small : size + kDeviceRquestMaxSize ≤ 2 ^ 32) :
    size ≤ kDeviceRquestMaxSize * numRequests size := by
  simp only [numRequests, kDeviceRquestMaxSize] at *
  omega

theorem numRequests_eq_zero {size : Nat} (wraps : 2 ^ 32 < size + kDeviceRquestMaxSize)
    (fits : size < 2 ^ 32) : numRequests size = 0 := by
  simp only [numRequests, kDeviceRquestMaxSize] at *
  omega

theorem numRequests_le (size : Nat) :
    kDeviceRquestMaxSize * numRequests size + kDeviceRquestMaxSize ≤ 2 ^ 32 := by
  simp only [numRequests, kDeviceRquestMaxSize]
  omega

theorem deviceGet_length_le {dev : Nat → Option Bytes} {size splitSeq : Nat} {part : Bytes}
    (got : deviceGet dev size splitSeq = some part) : part.length ≤ size := by
  obtain ⟨stored, -, rfl⟩ := Option.map_eq_some_iff.mp got
  exact length_take_le size stored

theorem deviceGet_eq {dev : Nat → Option Bytes} {size splitSeq : Nat}
    (large : ∀ part, dev splitSeq = some part → part.length ≤ size) :
    deviceGet dev size splitSeq = dev splitSeq := by
  unfold deviceGet
  cases stored : dev splitSeq with
  | none => rfl
  | some part => rw [Option.map_some, take_of_length_le (large part stored)]

theorem deviceGet_firstPart (data : Bytes) (more : Nat) (dev : Nat → Option Bytes) :
    deviceGet (Parts.store (Parts.split kDeviceRquestMaxSize (more + 1) data) dev)
      kDeviceRquestMaxSize 0 = some (data.take kDeviceRquestMaxSize) := by
  have stored : Parts.store (Parts.split kDeviceRquestMaxSize (more + 1) data) dev 0 =
      some (data.take kDeviceRquestMaxSize) := by
    simp [Parts.store, Parts.split]
  rw [deviceGet, stored, Option.map_some, take_take, Nat.min_self]

theorem collect_laterParts (data : Bytes) (more : Nat) (dev : Nat → Option Bytes) {size : Nat}
    (large : min (data.length - kDeviceRquestMaxSize) kDeviceRquestMaxSize ≤ size) :
    Parts.collect
        (deviceGet (Parts.store (Parts.split kDeviceRquestMaxSize (more + 1) data) dev) size)
          1 more =
      some (Parts.split kDeviceRquestMaxSize more (data.drop kDeviceRquestMaxSize)).flatten := by
  have stored := Parts.collect_store [data.take kDeviceRquestMaxSize]
    (Parts.split kDeviceRquestMaxSize more (data.drop kDeviceRquestMaxSize)) dev
  rw [Parts.length_split] at stored
  rw [← stored]
  apply Parts.collect_congr
  intro _ above _
  apply deviceGet_eq
  intro _ found
  obtain ⟨i, rfl⟩ := Nat.exists_eq_add_of_le' above
  have inside : i < (Parts.split kDeviceRquestMaxSize more
      (data.drop kDeviceRquestMaxSize)).length := by
    rw [Parts.length_split]
    omega
  rw [Parts.split, Parts.store_of_lt (Nat.succ_lt_succ inside), getElem_cons_succ] at found
  cases found
  have bounds := Parts.length_le_of_mem_split (getElem_mem inside)
  rw [length_drop] at bounds
  exact (Nat.le_min.mpr ⟨bounds.2, bounds.1⟩).trans large

end InsDb
