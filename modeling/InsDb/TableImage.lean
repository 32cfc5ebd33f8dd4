import InsDb.LogRecord

/-!
# The device format of an SKTable

`DeviceFormatBuilder` writes 40 bytes of numbers, the rows, and a second block with the
decoding base key and the offsets of the rows.  A row begins with the distances to the row
before and after it, which recovery does not skip when it looks for the begin key.
-/

namespace InsDb

open InsDb.Library
open Varint (Bytes)

/-- A key and its column info, as `SKTable.rows` has them. -/
structure TableRow where
  key : Bytes
  colInfo : Bytes
deriving DecidableEq, Repr

def encodeFixed16 (value : Nat) : Bytes :=
  [UInt8.ofNat (value % 256), UInt8.ofNat (value / 2 ^ 8 % 256)]

def encodeVarint16 (value : Nat) : Bytes := Varint.encode 3 value

def getVarint16 (input : Bytes) : Option (Nat × Bytes) :=
  (Varint.decode 3 input).map fun (value, rest) => (value % 2 ^ 16, rest)

/-- The number of bytes that a key has in common with the base key of the table. -/
def sharedLength : Bytes → Bytes → Nat
  | first :: base, byte :: key => if first = byte then sharedLength base key + 1 else 0
  | _, _ => 0

/-- A key against the base key.  As long as there is none (`EncodeFirstKey`) the key is copied as
a whole; `EncodeKey` counts in 16 bits (and would count for ever if the keys had 2^16 bytes in
common). -/
def encodeKey (base key : Bytes) : Bytes :=
  let shared := sharedLength base key % 2 ^ 16
  let nonShared := (key.length - shared) % 2 ^ 16
  encodeVarint16 shared ++ (encodeVarint16 nonShared ++
    (if base = [] then key else (key.drop shared).take nonShared))

/-- A row after one of `prevDiff` bytes. -/
def encodeKeyRow (base : Bytes) (prevDiff : Nat) (row : TableRow) : Bytes :=
  let keyInfo := encodeKey base row.key ++ row.colInfo
  encodeFixed16 prevDiff ++ (encodeFixed16 (4 + keyInfo.length) ++ keyInfo)

/-- `begin_key_of_target`: the first key that is not empty. -/
def nextBase (base : Bytes) (row : TableRow) : Bytes := if base = [] then row.key else base

def encodeKeyRows : Bytes → Nat → List TableRow → List Bytes
  | _, _, [] => []
  | base, prevDiff, row :: rest =>
    encodeKeyRow base prevDiff row ::
      encodeKeyRows (nextBase base row) (encodeKeyRow base prevDiff row).length rest

variable (rows : List TableRow)

def tableRows : List Bytes := encodeKeyRows [] 0 rows

def baseKey : Bytes := rows.foldl nextBase []

/-- The offsets of the rows, beginning at `offset`. -/
def rowOffsets : Nat → List Bytes → List Nat
  | _, [] => []
  | offset, row :: rest => offset :: rowOffsets (offset + row.length) rest

def sktdfBeginKeyOffset : Nat := 40

def sktdfNrKeyOffset : Nat := 8

def sizeAlignment (alignShift : Fin 31) (size : Nat) : Nat :=
  (size + (kRequestAlignSize alignShift - 1)) / kRequestAlignSize alignShift *
    kRequestAlignSize alignShift

theorem sizeAlignment_bounds (alignShift : Fin 31) (size : Nat) :
    size ≤ sizeAlignment alignShift size ∧
      sizeAlignment alignShift size < size + kRequestAlignSize alignShift := by
  have positive : 0 < kRequestAlignSize alignShift := Nat.two_pow_pos _
  have lower := Nat.div_add_mod (size + (kRequestAlignSize alignShift - 1))
    (kRequestAlignSize alignShift)
  have rest := Nat.mod_lt (size + (kRequestAlignSize alignShift - 1)) positive
  rw [Nat.mul_comm] at lower
  unfold sizeAlignment
  omega

/-- The begin key as `LoadBeginsKeysAndCLeanupSKTableMeta` takes it from the bytes after the
header. -/
def beginKeyOf (body : Bytes) : Option (Except Status Bytes) :=
  (getVarint16 body).bind fun (shared, rest) =>
    if shared ≠ 0 then
      some (.error (.corruption "begin key shared a portion"))
    else
      (getVarint16 rest).map fun (length, key) => .ok (key.take length)

end InsDb
