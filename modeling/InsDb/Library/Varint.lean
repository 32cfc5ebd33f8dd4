import Mathlib.Data.Nat.Basic
import Mathlib.Tactic.Ring

/-!
# Base-128 varints

A number is written as groups of seven bits, lowest group first, every byte but
the last with its high bit set.  A reader that accepts at most `groups` bytes is
what a fixed-width decoder loop amounts to: five groups for 32-bit values, ten
for 64-bit ones.
-/

namespace InsDb.Library.Varint

abbrev Bytes := List UInt8

/-- The bytes of `value`, at most `groups` of them.  The group count only bounds
the recursion; `decode_encode` needs the value to fit. -/
def encode : Nat → Nat → Bytes
  | 0, _ => []
  | groups + 1, value =>
    if value < 128 then
      [UInt8.ofNat value]
    else
      UInt8.ofNat (value % 128 + 128) :: encode groups (value / 128)

/-- The value at the start of `input` and the bytes after it.  Nothing is returned
when the input ends inside the value or more than `groups` bytes continue it. -/
def decode : Nat → Bytes → Option (Nat × Bytes)
  | 0, _ => none
  | _ + 1, [] => none
  | groups + 1, byte :: rest =>
    if byte.toNat < 128 then
      some (byte.toNat, rest)
    else
      (decode groups rest).map fun (high, remaining) =>
        (byte.toNat - 128 + 128 * high, remaining)

theorem byte_toNat {v : Nat} (small : v < 256) : (UInt8.ofNat v).toNat = v :=
  UInt8.toNat_ofNat_of_lt small

theorem decode_encode (groups v : Nat) (tail : Bytes) (fits : v < 2 ^ (7 * (groups + 1))) :
    decode (groups + 1) (encode (groups + 1) v ++ tail) = some (v, tail) := by
  induction groups generalizing v with
  | zero =>
    have small : v < 128 := by simpa using fits
    have byte : (UInt8.ofNat v).toNat = v := byte_toNat (by omega)
    simp [encode, decode, small, byte]
  | succ groups ih =>
    by_cases small : v < 128
    · have byte : (UInt8.ofNat v).toNat = v := byte_toNat (by omega)
      rw [encode, if_pos small, List.cons_append, List.nil_append, decode, byte, if_pos small]
    have byte : (UInt8.ofNat (v % 128 + 128)).toNat = v % 128 + 128 := byte_toNat (by omega)
    have power : 2 ^ (7 * (groups + 1 + 1)) = 128 * 2 ^ (7 * (groups + 1)) := by
      rw [Nat.mul_add 7 (groups + 1), Nat.pow_add]
      ring
    have highFits : v / 128 < 2 ^ (7 * (groups + 1)) := by
      rw [Nat.div_lt_iff_lt_mul (by norm_num), Nat.mul_comm]
      omega
    rw [encode, if_neg small, List.cons_append, decode, byte, if_neg (by omega),
      ih (v / 128) highFits, Option.map_some, Option.some.injEq, Prod.mk.injEq]
    exact ⟨by omega, rfl⟩

theorem decode_append {groups v : Nat} {input rest : Bytes}
    (decoded : decode groups input = some (v, rest)) (more : Bytes) :
    decode groups (input ++ more) = some (v, rest ++ more) := by
  induction groups generalizing v input with
  | zero => cases decoded
  | succ groups ih =>
    cases input with
    | nil => cases decoded
    | cons byte =>
      rw [decode] at decoded
      rw [List.cons_append, decode]
      by_cases last : byte.toNat < 128
      · rw [if_pos last] at decoded ⊢
        cases decoded
        rfl
      rw [if_neg last] at decoded ⊢
      obtain ⟨⟨_, _⟩, decodedHigh, same⟩ := Option.map_eq_some_iff.mp decoded
      cases same
      rw [ih decodedHigh, Option.map_some]

theorem length_encode_le (groups v : Nat) : (encode groups v).length ≤ groups := by
  induction groups generalizing v with
  | zero => exact Nat.le_refl 0
  | succ groups ih =>
    rw [encode]
    by_cases small : v < 128
    · rw [if_pos small, List.length_singleton]
      omega
    rw [if_neg small, List.length_cons]
    exact Nat.succ_le_succ (ih (v / 128))

/-- What is behind the first byte that ends a value.  A reader that starts anywhere inside a
value ends where the value ends. -/
def skip : Bytes → Bytes
  | [] => []
  | byte :: rest => if byte.toNat < 128 then rest else skip rest

theorem skip_of_decode {groups v : Nat} {input rest : Bytes}
    (decoded : decode groups input = some (v, rest)) : skip input = rest := by
  induction groups generalizing v input with
  | zero => cases decoded
  | succ groups ih =>
    cases input with
    | nil => cases decoded
    | cons byte =>
      rw [decode] at decoded
      rw [skip]
      by_cases last : byte.toNat < 128
      · rw [if_pos last] at decoded ⊢
        cases decoded
        rfl
      rw [if_neg last] at decoded ⊢
      obtain ⟨⟨_, _⟩, decodedHigh, same⟩ := Option.map_eq_some_iff.mp decoded
      cases same
      exact ih decodedHigh

theorem skip_suffix_self (input : Bytes) : skip input <:+ input := by
  induction input with
  | nil => exact List.suffix_rfl
  | cons byte rest ih =>
    rw [skip]
    by_cases last : byte.toNat < 128
    · rw [if_pos last]
      exact List.suffix_cons byte rest
    rw [if_neg last]
    exact ih.trans (List.suffix_cons byte rest)

theorem skip_suffix {later input : Bytes} (isLater : later <:+ input) :
    skip later <:+ skip input := by
  obtain ⟨pre, rfl⟩ := isLater
  induction pre with
  | nil => exact List.suffix_rfl
  | cons byte pre ih =>
    rw [List.cons_append, skip]
    by_cases last : byte.toNat < 128
    · rw [if_pos last]
      exact (skip_suffix_self later).trans (List.suffix_append pre later)
    rw [if_neg last]
    exact ih

end InsDb.Library.Varint
