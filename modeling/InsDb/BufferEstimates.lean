import InsDb.KeyBlockMeta
import InsDb.TableImage
import Mathlib.Algebra.Order.BigOperators.Group.List

/-!
# The buffers that are reserved for metas and blocks

Before a key-block meta or a key block is written, its size is estimated by a function of
its own.  For both, the bytes written and the bytes estimated differ entry by entry by what
is written against what is reserved for the entry's varints and time stamp, so that whether
the buffer is large enough is a comparison of two sums.
-/

namespace InsDb

open InsDb.Library List
open Varint (Bytes)

variable (info : LoggedRequest)

/-- `TrxnInfo::GetEstimatedBufferSize` for a put; a `Transaction` has 16 bytes. -/
def LoggedRequest.estimatedPutSize : Nat :=
  if info.isTrxn then 27 + 16 * info.merged.length else 0

/-- `TrxnInfo::GetEstimatedBufferSize` for a delete. -/
def LoggedRequest.estimatedDelSize : Nat :=
  if info.isTrxn then 29 + info.key.length + 16 * info.merged.length else 2

/-- `KBPM_HEADER_SIZE`: the bitmap and the number of keys. -/
def kbpmHeaderSize : Nat := 5

/-- A key-block meta with its log part, or without it once the log is gone. -/
inductive BlockMeta where
  | logged (info : LoggedMeta)
  | primary (bitmap orgKeyCnt : Nat)

/-- `KeyBlockPrimaryMeta::GetEstimatedBufferSize`. -/
def BlockMeta.estimatedBufferSize : BlockMeta → Nat
  | .logged info =>
    10 + (info.puts.map LoggedRequest.estimatedPutSize).sum +
      (info.dels.map LoggedRequest.estimatedDelSize).sum + kbpmHeaderSize
  | .primary _ _ => kbpmHeaderSize

/-- `KeyBlockPrimaryMeta::BuildDeviceFormatKeyBlockMeta`. -/
def BlockMeta.buildDeviceFormat : BlockMeta → Bytes
  | .logged info => info.buildDeviceFormat
  | .primary bitmap orgKeyCnt => encodeFixed32 bitmap ++ [UInt8.ofNat orgKeyCnt, 0, 0]

/-- The bytes of the varints of a recorded transaction and of those merged into it. -/
def LoggedRequest.varintSize : Nat :=
  if info.isTrxn then info.encodeInfo.length else 0

/-- What the estimate has for them. -/
def LoggedRequest.reservedSize : Nat :=
  if info.isTrxn then 26 + 16 * info.merged.length else 0

theorem length_encodePuts (offset : Nat) (puts : List LoggedRequest) :
    (encodePuts offset puts).length + (puts.map LoggedRequest.reservedSize).sum =
      (puts.map LoggedRequest.estimatedPutSize).sum + (puts.map LoggedRequest.varintSize).sum := by
  induction puts generalizing offset with
  | nil => rfl
  | cons info rest ih =>
    have balance : (info.encodePut offset).length + info.reservedSize =
        info.estimatedPutSize + info.varintSize := by
      unfold LoggedRequest.encodePut LoggedRequest.reservedSize LoggedRequest.estimatedPutSize
        LoggedRequest.varintSize
      cases info.isTrxn with
      | false => rfl
      | true =>
        simp only [if_true, length_cons]
        omega
    have later := ih (offset + 1)
    simp only [encodePuts, length_append, map_cons, sum_cons]
    omega

theorem length_encodeDels (dels : List LoggedRequest) :
    (dels.flatMap LoggedRequest.encodeDel).length + (dels.map LoggedRequest.reservedSize).sum =
      (dels.map LoggedRequest.estimatedDelSize).sum + (dels.map LoggedRequest.varintSize).sum := by
  induction dels with
  | nil => rfl
  | cons info =>
    have balance : info.encodeDel.length + info.reservedSize =
        info.estimatedDelSize + info.varintSize := by
      unfold LoggedRequest.encodeDel LoggedRequest.reservedSize LoggedRequest.estimatedDelSize
        LoggedRequest.varintSize
      cases info.isTrxn with
      | false => rfl
      | true =>
        simp only [if_true, length_append, length_cons, length_encodeFixed16]
        omega
    simp only [flatMap_cons, length_append, map_cons, sum_cons]
    omega

theorem meta_within_estimate_iff (blockMeta : BlockMeta) :
    blockMeta.buildDeviceFormat.length ≤ blockMeta.estimatedBufferSize ↔
      ∃ info, blockMeta = .logged info ∧
        ((info.puts ++ info.dels).map LoggedRequest.varintSize).sum ≤
          ((info.puts ++ info.dels).map LoggedRequest.reservedSize).sum := by
  cases blockMeta with
  | primary => simp [BlockMeta.buildDeviceFormat, BlockMeta.estimatedBufferSize, kbpmHeaderSize]
  | logged info =>
    have puts := length_encodePuts 0 info.puts
    have dels := length_encodeDels info.dels
    simp only [BlockMeta.logged.injEq, exists_eq_left', BlockMeta.buildDeviceFormat,
      BlockMeta.estimatedBufferSize, kbpmHeaderSize, LoggedMeta.buildDeviceFormat,
      length_append, length_cons, length_encodeFixed32, length_encodeFixed64,
      map_append, sum_append]
    omega

theorem primary_meta_exceeds_estimate : (BlockMeta.primary 1 1).buildDeviceFormat.length = 7 ∧
      (BlockMeta.primary 1 1).estimatedBufferSize = 5 ∧
      ¬ (BlockMeta.primary 1 1).buildDeviceFormat.length ≤
        (BlockMeta.primary 1 1).estimatedBufferSize := by
  decide

/-- A pending put: whether the TTL of its column is on when the worker packs it is apart from
the time stamp that it got when it was written. -/
structure PendingPut where
  keySize : Nat
  valueSize : Nat
  ts : Nat
  ttlEnabled : Bool
deriving DecidableEq, Repr

inductive PendingRequest where
  | put (put : PendingPut)
  | del
deriving DecidableEq, Repr

def kMaxInternalValueSize : Nat := 0x100000

def kMaxRequestPerKeyBlock : Nat := 32

variable (put : PendingPut)

/-- The worker's estimate for one put, with `KEY_BLOCK_SIZE_APPENDIX`. -/
def PendingPut.ivalueSize : Nat :=
  put.valueSize + put.keySize + 12 + (if put.ttlEnabled then 8 else 0)

structure Packing where
  estimate : Nat := 6
  puts : List PendingPut := []
  dels : Nat := 0
deriving DecidableEq, Repr

/-- The loop of `WorkerThread` over the pending requests: a put that does not fit is left in
the queue with its size taken back, unless it would be the first request. -/
def Packing.pack (packing : Packing) : List PendingRequest → Packing
  | [] => packing
  | .put put :: rest =>
    if kMaxInternalValueSize < packing.estimate + put.ivalueSize ∧
        (packing.puts ≠ [] ∨ packing.dels ≠ 0) then
      packing
    else if packing.puts.length + 1 = kMaxRequestPerKeyBlock ∨
        packing.dels = kMaxRequestPerKeyBlock then
      { packing with estimate := packing.estimate + put.ivalueSize, puts := packing.puts ++ [put] }
    else
      pack { packing with
        estimate := packing.estimate + put.ivalueSize, puts := packing.puts ++ [put] } rest
  | .del :: rest =>
    if packing.puts.length = kMaxRequestPerKeyBlock ∨
        packing.dels + 1 = kMaxRequestPerKeyBlock then
      { packing with dels := packing.dels + 1 }
    else
      pack { packing with dels := packing.dels + 1 } rest

/-- The size the worker allocates. -/
def Packing.estimatedSize (packing : Packing) (alignShift : Fin 31) : Nat :=
  sizeAlignment alignShift (packing.estimate + 4)

/-- The value size is shifted by 11 bits in 32 bits. -/
def PendingPut.sizes : Nat :=
  put.valueSize * 2 ^ 11 % 2 ^ 32 ||| put.keySize

/-- The bytes of one put behind the offsets: sizes, value, key, column and time stamp. -/
def PendingPut.kvSize : Nat :=
  (encodeVarint32 put.sizes).length + put.valueSize + put.keySize + 1 +
    (if put.ts ≠ 0 then 8 else 0)

/-- The size that `BuildKeyBlock` returns. -/
def Packing.blockSize (packing : Packing) : Nat :=
  4 * (packing.puts.length + 1) + (packing.puts.map PendingPut.kvSize).sum

theorem Packing.pack_estimate (queue : List PendingRequest) (packing : Packing)
    (counted : packing.estimate = 6 + (packing.puts.map PendingPut.ivalueSize).sum) :
    (packing.pack queue).estimate =
      6 + ((packing.pack queue).puts.map PendingPut.ivalueSize).sum := by
  induction queue generalizing packing with
  | nil => exact counted
  | cons rq rest ih =>
    cases rq with
    | del =>
      rw [pack]
      split_ifs
      · exact counted
      · exact ih _ counted
    | put put =>
      have more : packing.estimate + put.ivalueSize =
          6 + ((packing.puts ++ [put]).map PendingPut.ivalueSize).sum := by
        simp only [map_append, sum_append, map_singleton, sum_singleton]
        omega
      rw [pack]
      split_ifs
      · exact counted
      · exact more
      · exact ih _ more

/-- The bytes of the sizes and the time stamp of a put. -/
def PendingPut.extraSize : Nat :=
  (encodeVarint32 put.sizes).length + (if put.ts ≠ 0 then 8 else 0)

/-- What the estimate has for them. -/
def PendingPut.reservedExtra : Nat :=
  7 + (if put.ttlEnabled then 8 else 0)

theorem sum_kvSize (puts : List PendingPut) : 4 * puts.length + (puts.map PendingPut.kvSize).sum +
        (puts.map PendingPut.reservedExtra).sum =
      (puts.map PendingPut.ivalueSize).sum + (puts.map PendingPut.extraSize).sum := by
  induction puts with
  | nil => rfl
  | cons put =>
    have balance : 4 + put.kvSize + put.reservedExtra = put.ivalueSize + put.extraSize := by
      unfold PendingPut.kvSize PendingPut.reservedExtra PendingPut.ivalueSize PendingPut.extraSize
      omega
    simp only [map_cons, sum_cons, length_cons]
    omega

/-- The padding of the estimate to the request size. -/
def Packing.padding (packing : Packing) (alignShift : Fin 31) : Nat :=
  packing.estimatedSize alignShift - (packing.estimate + 4)

theorem block_within_estimate_iff (alignShift : Fin 31) (queue : List PendingRequest) :
    (({} : Packing).pack queue).blockSize ≤ (({} : Packing).pack queue).estimatedSize alignShift ↔
      ((({} : Packing).pack queue).puts.map PendingPut.extraSize).sum ≤
        6 + ((({} : Packing).pack queue).puts.map PendingPut.reservedExtra).sum +
          (({} : Packing).pack queue).padding alignShift := by
  have counted := Packing.pack_estimate queue {} rfl
  generalize ({} : Packing).pack queue = packing at counted ⊢
  have balance := sum_kvSize packing.puts
  have aligned : packing.estimate + 4 ≤ packing.estimatedSize alignShift :=
    (sizeAlignment_bounds alignShift _).1
  unfold Packing.blockSize Packing.padding
  omega

/-- Three stamped puts whose column has its TTL switched off before they are packed. -/
theorem block_exceeds_estimate : let queue := replicate 3 (PendingRequest.put ⟨1, 1, 1, false⟩)
    (({} : Packing).pack queue).blockSize = 55 ∧
      (({} : Packing).pack queue).estimatedSize 2 = 52 ∧
      ¬ (({} : Packing).pack queue).blockSize ≤ (({} : Packing).pack queue).estimatedSize 2 := by
  decide

end InsDb
