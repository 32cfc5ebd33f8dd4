import InsDb.TableImage
import Mathlib.Tactic.Ring

/-!
# The varint coding as the source spells it

`EncodeVarint16` and `EncodeVarint32` are unrolled, `EncodeVarint64` and `VarintLength` loop, and
the decoders loop over the shift behind a fast path for one byte.  They are compared with the
varints that the formats are described with, and read back in any order they were appended in.
-/

namespace InsDb.VarintCoding

open InsDb.Library Varint List

def encodeVarint16 (v : Nat) : Bytes :=
  if v < 1 <<< 7 then [.ofNat v]
  else if v < 1 <<< 14 then [.ofNat (v ||| 128), .ofNat (v >>> 7)]
  else [.ofNat (v ||| 128), .ofNat (v >>> 7 ||| 128), .ofNat (v >>> 14)]

def encodeVarint32 (v : Nat) : Bytes :=
  if v < 1 <<< 7 then [.ofNat v]
  else if v < 1 <<< 14 then [.ofNat (v ||| 128), .ofNat (v >>> 7)]
  else if v < 1 <<< 21 then [.ofNat (v ||| 128), .ofNat (v >>> 7 ||| 128), .ofNat (v >>> 14)]
  else if v < 1 <<< 28 then
    [.ofNat (v ||| 128), .ofNat (v >>> 7 ||| 128), .ofNat (v >>> 14 ||| 128), .ofNat (v >>> 21)]
  else
    [.ofNat (v ||| 128), .ofNat (v >>> 7 ||| 128), .ofNat (v >>> 14 ||| 128),
      .ofNat (v >>> 21 ||| 128), .ofNat (v >>> 28)]

def encodeVarint64 (v : Nat) : Bytes :=
  if v < 128 then [.ofNat v] else .ofNat (v &&& 127 ||| 128) :: encodeVarint64 (v >>> 7)
termination_by v
decreasing_by
  rw [Nat.shiftRight_eq_div_pow]
  omega

def varintLength (v : Nat) : Nat :=
  if v < 128 then 1 else varintLength (v >>> 7) + 1
termination_by v
decreasing_by
  rw [Nat.shiftRight_eq_div_pow]
  omega

/-- The loops of `GetVarint16PtrFallback`, `GetVarint32PtrFallback` and `GetVarint64Ptr`; the input
is what lies before the limit. -/
def getVarintPtrFallback (width lastShift : Nat) : (shift result : Nat) → Bytes →
    Option (Nat × Bytes)
  | _, _, [] => none
  | shift, result, byte :: rest =>
    if shift ≤ lastShift then
      if byte.toNat &&& 128 ≠ 0 then
        getVarintPtrFallback width lastShift (shift + 7)
          (result ||| (byte.toNat &&& 127) <<< shift % 2 ^ width) rest
      else
        some (result ||| byte.toNat <<< shift % 2 ^ width, rest)
    else
      none

/-- The fast path in front of the loop. -/
def getVarintPtr (width lastShift : Nat) : Bytes → Option (Nat × Bytes)
  | [] => none
  | byte :: rest =>
    if byte.toNat &&& 128 = 0 then
      some (byte.toNat, rest)
    else
      getVarintPtrFallback width lastShift 0 0 (byte :: rest)

def getVarint16Ptr : Bytes → Option (Nat × Bytes) := getVarintPtr 16 14

def getVarint32Ptr : Bytes → Option (Nat × Bytes) := getVarintPtr 32 28

def getVarint64Ptr : Bytes → Option (Nat × Bytes) := getVarintPtrFallback 64 63 0 0

inductive Width where
  | w16
  | w32
  | w64

namespace Width

def bits : Width → Nat
  | w16 => 16
  | w32 => 32
  | w64 => 64

def encodeVarint : Width → Nat → Bytes
  | w16 => encodeVarint16
  | w32 => encodeVarint32
  | w64 => encodeVarint64

def getVarintPtr : Width → Bytes → Option (Nat × Bytes)
  | w16 => getVarint16Ptr
  | w32 => getVarint32Ptr
  | w64 => getVarint64Ptr

end Width

inductive Item where
  | varint (width : Width) (value : BitVec width.bits)
  | slice (data : Bytes)

/-- `PutVarint16`, `PutVarint32`, `PutVarint64` and `PutLengthPrefixedSlice`, which passes the
length as a 32-bit number. -/
def Item.put : Item → Bytes
  | .varint width value => width.encodeVarint value.toNat
  | .slice data => encodeVarint32 (data.length % 2 ^ 32) ++ data

/-- The width of a number; none for a slice. -/
def Item.kind : Item → Option Width
  | .varint width _ => some width
  | .slice _ => none

/-- `GetVarint16`, `GetVarint32`, `GetVarint64` and `GetLengthPrefixedSlice`: what is returned, and
the input that is left.  A slice that is not complete leaves what is behind its length. -/
def get : Option Width → Bytes → Option Item × Bytes
  | some width, input =>
    match width.getVarintPtr input with
    | some (value, rest) => (some (.varint width (.ofNat _ value)), rest)
    | none => (none, input)
  | none, input =>
    match getVarint32Ptr input with
    | some (length, rest) =>
      if length ≤ rest.length then
        (some (.slice (rest.take length)), rest.drop length)
      else
        (none, rest)
    | none => (none, input)

def getAll : List (Option Width) → Bytes → Option (List Item × Bytes)
  | [], input => some ([], input)
  | kind :: kinds, input =>
    match get kind input with
    | (some item, rest) => (getAll kinds rest).map fun (items, rest) => (item :: items, rest)
    | (none, _) => none

/-- What is appended is read back in order up to the bytes behind it, and not out of less; no reader
goes past the end of its input; and the lengths of numbers are known. -/
structure ReadsBack (items : List Item) : Prop where
  returned : ∀ trailing, getAll (items.map Item.kind) (items.flatMap Item.put ++ trailing) =
    some (items, trailing)
  truncated : ∀ input, input <+: items.flatMap Item.put → input ≠ items.flatMap Item.put →
    getAll (items.map Item.kind) input = none
  within : ∀ kind input, (get kind input).2 <:+ input
  sized : ∀ (width : Width) (value : BitVec width.bits),
    varintLength value.toNat = (width.encodeVarint value.toNat).length

theorem and_128 : ∀ byte < 256, (byte &&& 128 = 0 ↔ byte < 128) ∧
    (128 ≤ byte → byte &&& 127 = byte - 128) := by
  decide +kernel

theorem shiftLeft_or {result shift width : Nat} (low : result < 2 ^ shift) (inside : shift ≤ width)
    (value : Nat) :
    result ||| value <<< shift % 2 ^ width = (result + value * 2 ^ shift) % 2 ^ width := by
  have small : result % 2 ^ width = result :=
    Nat.mod_eq_of_lt (low.trans_le (Nat.pow_le_pow_right Nat.two_pos inside))
  rw [← small, ← Nat.or_mod_two_pow, small, Nat.or_comm, ← Nat.shiftLeft_add_eq_or_of_lt low,
    Nat.shiftLeft_eq, Nat.add_comm]

theorem getVarintPtrFallback_eq {width k left result : Nat} (low : result < 2 ^ (7 * k))
    (inside : 7 * (k + left) ≤ width) (input : Bytes) :
    getVarintPtrFallback width (7 * (k + left)) (7 * k) result input =
      (decode (left + 1) input).map fun (value, rest) =>
        ((result + value * 2 ^ (7 * k)) % 2 ^ width, rest) := by
  induction input generalizing k left result with
  | nil => rfl
  | cons byte rest ih =>
    obtain ⟨ends, continues⟩ := and_128 byte.toNat byte.toNat_lt
    have here : 7 * k ≤ width := by omega
    rw [getVarintPtrFallback, if_pos (by omega), decode]
    by_cases last : byte.toNat < 128
    · rw [if_neg (not_not_intro (ends.mpr last)), if_pos last, shiftLeft_or low here,
        Option.map_some]
    rw [if_pos (mt ends.mp last), if_neg last, continues (Nat.not_lt.mp last),
      shiftLeft_or low here]
    cases left with
    | zero =>
      cases rest with
      | nil => rfl
      | cons =>
        rw [getVarintPtrFallback, if_neg (by omega)]
        rfl
    | succ left =>
      have room : 7 * (k + (left + 1)) = 7 * (k + 1 + left) := by omega
      have power : 2 ^ (7 * (k + 1)) = 128 * 2 ^ (7 * k) := by
        rw [Nat.mul_add_one, Nat.pow_add, Nat.mul_comm]
      have group : (byte.toNat - 128 + 1) * 2 ^ (7 * k) ≤ 128 * 2 ^ (7 * k) :=
        Nat.mul_le_mul_right _ (by have := byte.toNat_lt; omega)
      rw [Nat.add_one_mul] at group
      have fits : (result + (byte.toNat - 128) * 2 ^ (7 * k)) % 2 ^ width < 2 ^ (7 * (k + 1)) :=
        (Nat.mod_le _ _).trans_lt (by omega)
      rw [room, show 7 * k + 7 = 7 * (k + 1) from rfl, ih fits (room ▸ inside), Option.map_map]
      congr 1
      funext decoded
      simp only [Function.comp, Nat.mod_add_mod, power]
      ring_nf

theorem loop_eq {width left : Nat} (inside : 7 * left ≤ width) (input : Bytes) :
    getVarintPtrFallback width (7 * left) 0 0 input =
      (decode (left + 1) input).map fun (value, rest) => (value % 2 ^ width, rest) := by
  have low : 0 < 2 ^ (7 * 0) := Nat.one_pos
  rw [← Nat.zero_add left] at inside
  have loop := getVarintPtrFallback_eq low inside input
  simpa only [Nat.zero_add, Nat.mul_zero, Nat.pow_zero, Nat.mul_one] using loop

theorem getVarintPtr_eq {width left : Nat} (inside : 7 * left ≤ width) (wide : 7 ≤ width)
    (input : Bytes) :
    getVarintPtr width (7 * left) input =
      (decode (left + 1) input).map fun (value, rest) => (value % 2 ^ width, rest) := by
  cases input with
  | nil => rfl
  | cons byte =>
    rw [getVarintPtr, loop_eq inside]
    obtain ⟨ends, -⟩ := and_128 byte.toNat byte.toNat_lt
    split_ifs with last
    · have small := ends.mp last
      have fits : byte.toNat < 2 ^ width :=
        small.trans_le (Nat.pow_le_pow_right Nat.two_pos wide)
      simp only [decode, small, if_true, Option.map_some, Nat.mod_eq_of_lt fits]
    · rfl

theorem or_128 (v : Nat) : UInt8.ofNat (v ||| 128) = UInt8.ofNat (v % 128 + 128) := by
  have bits : ∀ byte < 256, (byte ||| 128) = byte % 128 + 128 := by decide +kernel
  have low := bits (v % 2 ^ 8) (Nat.mod_lt _ (by decide))
  have mod : (v ||| 128) % 2 ^ 8 = v % 2 ^ 8 ||| 128 := Nat.or_mod_two_pow
  apply UInt8.toNat_inj.mp
  rw [UInt8.toNat_ofNat', UInt8.toNat_ofNat', mod, low]
  omega

theorem encodeVarint64_eq (groups v : Nat) (fits : v < 2 ^ (7 * (groups + 1))) :
    encodeVarint64 v = encode (groups + 1) v := by
  induction groups generalizing v with
  | zero =>
    have small : v < 128 := by simpa using fits
    rw [encodeVarint64, encode, if_pos small, if_pos small]
  | succ groups ih =>
    rw [encodeVarint64, encode]
    split_ifs
    · rfl
    have low : v &&& 127 = v % 128 := Nat.and_two_pow_sub_one_eq_mod v 7
    have high : v / 128 < 2 ^ (7 * (groups + 1)) := by
      rw [Nat.div_lt_iff_lt_mul (by decide)]
      rwa [Nat.mul_add_one, Nat.pow_add] at fits
    rw [low, or_128, Nat.mod_mod, Nat.shiftRight_eq_div_pow, ih _ high]

theorem varintLength_eq (v : Nat) : varintLength v = (encodeVarint64 v).length := by
  fun_induction varintLength v with
  | case1 v small => rw [encodeVarint64, if_pos small, length_singleton]
  | case2 v large ih => rw [encodeVarint64, if_neg large, length_cons, ih]

namespace Width

/-- The bytes of the longest encoding, less one. -/
def more : Width → Nat
  | w16 => 2
  | w32 => 4
  | w64 => 9

variable (width : Width)

theorem bits_le : 2 ^ width.bits ≤ 2 ^ (7 * (width.more + 1)) := by
  cases width <;> decide

theorem encodeVarint_eq {v : Nat} (fits : v < 2 ^ width.bits) :
    width.encodeVarint v = encode (width.more + 1) v := by
  cases width with
  | w64 => exact encodeVarint64_eq 9 v (fits.trans_le (bits_le w64))
  | _ =>
    simp only [bits] at fits
    simp only [encodeVarint, encodeVarint16, encodeVarint32, more, encode, or_128,
      Nat.shiftRight_eq_div_pow, Nat.div_div_eq_div_mul]
    split_ifs <;> first | rfl | omega

theorem getVarintPtr_eq (input : Bytes) : width.getVarintPtr input =
    (decode (width.more + 1) input).map fun (value, rest) => (value % 2 ^ width.bits, rest) := by
  cases width with
  | w64 => exact loop_eq (by decide : 7 * 9 ≤ 64) input
  | w16 => exact VarintCoding.getVarintPtr_eq (by decide : 7 * 2 ≤ 16) (by decide) input
  | w32 => exact VarintCoding.getVarintPtr_eq (by decide : 7 * 4 ≤ 32) (by decide) input

theorem getVarintPtr_append {value : Nat} {input rest : Bytes} (extra : Bytes)
    (read : width.getVarintPtr input = some (value, rest)) :
    width.getVarintPtr (input ++ extra) = some (value, rest ++ extra) := by
  rw [getVarintPtr_eq] at read ⊢
  obtain ⟨_, decoded, same⟩ := Option.map_eq_some_iff.mp read
  cases same
  rw [decode_append decoded extra]
  rfl

theorem getVarintPtr_suffix {value : Nat} {input rest : Bytes}
    (read : width.getVarintPtr input = some (value, rest)) : rest <:+ input := by
  rw [getVarintPtr_eq] at read
  obtain ⟨_, decoded, same⟩ := Option.map_eq_some_iff.mp read
  cases same
  exact skip_of_decode decoded ▸ skip_suffix_self input

theorem getVarintPtr_encodeVarint {v : Nat} (fits : v < 2 ^ width.bits) (tail : Bytes) :
    width.getVarintPtr (width.encodeVarint v ++ tail) = some (v, tail) := by
  rw [getVarintPtr_eq, encodeVarint_eq width fits,
    decode_encode _ v tail (fits.trans_le width.bits_le)]
  simp only [Option.map_some, Nat.mod_eq_of_lt fits]

end Width

theorem readers_agree :
    getVarint16Ptr = getVarint16 ∧ getVarint32Ptr = getVarint32 ∧ getVarint64Ptr = getVarint64 :=
  ⟨funext Width.w16.getVarintPtr_eq, funext Width.w32.getVarintPtr_eq,
    funext Width.w64.getVarintPtr_eq⟩

theorem get_within (kind : Option Width) (input : Bytes) : (get kind input).2 <:+ input := by
  cases kind with
  | some width =>
    rw [get]
    split
    next read => exact width.getVarintPtr_suffix read
    next => exact suffix_rfl
  | none =>
    rw [get]
    split
    next read =>
      have behind := Width.w32.getVarintPtr_suffix read
      split_ifs
      · exact (drop_suffix _ _).trans behind
      · exact behind
    next => exact suffix_rfl

theorem get_append {kind : Option Width} {input rest : Bytes} {item : Item} (extra : Bytes)
    (read : get kind input = (some item, rest)) :
    get kind (input ++ extra) = (some item, rest ++ extra) := by
  cases kind with
  | some width =>
    rw [get] at read ⊢
    split at read <;> cases read
    next found => rw [width.getVarintPtr_append extra found]
  | none =>
    rw [get] at read ⊢
    split at read
    next length behind found =>
      split_ifs at read with enough <;> cases read
      have more : length ≤ (behind ++ extra).length := by
        rw [length_append]
        omega
      rw [show getVarint32Ptr (input ++ extra) = _ from Width.w32.getVarintPtr_append extra found]
      simp only [if_pos more, take_append_of_le_length enough, drop_append_of_le_length enough]
    next => cases read

theorem getAll_append {kinds : List (Option Width)} {input rest : Bytes} {items : List Item}
    (extra : Bytes) (read : getAll kinds input = some (items, rest)) :
    getAll kinds (input ++ extra) = some (items, rest ++ extra) := by
  induction kinds generalizing input items with
  | nil =>
    cases read
    rfl
  | cons kind kinds ih =>
    rw [getAll] at read ⊢
    split at read
    next found =>
      obtain ⟨_, later, same⟩ := Option.map_eq_some_iff.mp read
      cases same
      simp only [get_append extra found, ih later, Option.map_some]
    next => cases read

def Item.Short : Item → Prop
  | .varint _ _ => True
  | .slice data => data.length < 2 ^ 32

/-- A slice is read back up to the length that is left of its own in 32 bits. -/
theorem get_slice (data trailing : Bytes) :
    get none (Item.put (.slice data) ++ trailing) =
      (some (.slice (data.take (data.length % 2 ^ 32))),
        data.drop (data.length % 2 ^ 32) ++ trailing) := by
  have less : data.length % 2 ^ 32 ≤ data.length := Nat.mod_le _ _
  have read : getVarint32Ptr (encodeVarint32 (data.length % 2 ^ 32) ++ (data ++ trailing)) =
      some (data.length % 2 ^ 32, data ++ trailing) :=
    Width.w32.getVarintPtr_encodeVarint (Nat.mod_lt _ (by decide)) (data ++ trailing)
  have enough : data.length % 2 ^ 32 ≤ (data ++ trailing).length := by
    rw [length_append]
    omega
  simp only [Item.put, append_assoc, get, read, if_pos enough, take_append_of_le_length less,
    drop_append_of_le_length less]

theorem get_put {item : Item} (short : item.Short) (trailing : Bytes) :
    get item.kind (item.put ++ trailing) = (some item, trailing) := by
  cases item with
  | varint width value =>
    simp only [Item.kind, Item.put, get, width.getVarintPtr_encodeVarint value.isLt,
      BitVec.ofNat_toNat, BitVec.setWidth_eq]
  | slice data =>
    rw [Item.kind, get_slice, Nat.mod_eq_of_lt short, take_length, drop_length, nil_append]

theorem returned_iff (items : List Item) :
    (∀ trailing, getAll (items.map Item.kind) (items.flatMap Item.put ++ trailing) =
      some (items, trailing)) ↔ ∀ item ∈ items, item.Short := by
  induction items with
  | nil => simp [getAll]
  | cons item items ih =>
    rw [forall_mem_cons, ← ih]
    simp only [map_cons, flatMap_cons, append_assoc, getAll]
    by_cases short : item.Short
    · simp [get_put short, short]
    · cases item with
      | varint => exact absurd trivial short
      | slice data =>
        have cut : data.take (data.length % 2 ^ 32) ≠ data := by
          intro same
          have lengths := congrArg length same
          rw [length_take] at lengths
          exact short (by rw [Item.Short]; omega)
        simp only [short, false_and, iff_false, Item.kind, get_slice, not_forall]
        refine ⟨[], fun read => ?_⟩
        obtain ⟨_, -, same⟩ := Option.map_eq_some_iff.mp read
        injection same with same
        injection same with same
        injection same with same
        exact cut same

/-- Numbers and slices are read back as they were appended exactly if every slice is shorter than
4 GiB. -/
theorem readsBack_iff (items : List Item) : ReadsBack items ↔ ∀ item ∈ items, item.Short := by
  rw [← returned_iff]
  refine ⟨fun reads => reads.returned, fun returned => ⟨returned, ?_, get_within, ?_⟩⟩
  · rintro input ⟨missing, whole⟩ shorter
    cases read : getAll (items.map Item.kind) input with
    | none => rfl
    | some result =>
      have all := returned []
      rw [← whole, append_nil, getAll_append missing read, Option.some.injEq, Prod.mk.injEq] at all
      obtain ⟨-, nothing⟩ := append_eq_nil_iff.mp all.2
      rw [nothing, append_nil] at whole
      exact absurd whole shorter
  · intro width value
    rw [varintLength_eq, width.encodeVarint_eq value.isLt,
      encodeVarint64_eq _ _ (value.isLt.trans_le width.bits_le)]

/-- A slice of 4 GiB comes back empty. -/
theorem slice_of_four_gib_is_cut : ¬ ReadsBack [.slice (replicate (2 ^ 32) 0)] := by
  intro reads
  have short : (replicate (2 ^ 32) (0 : UInt8)).length < 2 ^ 32 :=
    (returned_iff _).mp reads.returned _ mem_cons_self
  rw [length_replicate] at short
  exact Nat.lt_irrefl _ short

end InsDb.VarintCoding
