import InsDb.Row
import InsDb.TrxnGroups
import InsDb.WorkerLog
import InsDb.WriteBatch

/-!
# The log record

A clean-up round decides which of the taken key blocks are to be deleted, writes the log
record with their internal keys, and deletes them.  After a crash, recovery reads the
record and is to delete the same blocks again.
-/

namespace InsDb

open InsDb.Library List
open Varint (Bytes)

/-- `kRequestAlignSize` is 4 or 4096, or the option `align_size`.  It is an `int` and must be a
power of two. -/
def kRequestAlignSize (alignShift : Fin 31) : Nat := 2 ^ alignShift.val

/-- The bytes that fill `size` up to a multiple of `align`. -/
def paddingSize (align size : Nat) : Nat :=
  if size % align = 0 then 0 else align - size % align

/-- `MaxCompressedLength` of Snappy, the space that a compressor may ask for. -/
def maxCompressedLength (size : Nat) : Nat := 32 + size + size / 6

structure Snappy where
  compress : Bytes → Bytes
  uncompress : Bytes → Bytes
  lossless : ∀ data, uncompress (compress data) = data
  bounded : ∀ data, (compress data).length ≤ maxCompressedLength data.length

/-- What the log record depends on: the checksum, the alignment of requests and, where it is
built in, the compressor. -/
structure LogFormat where
  crc32c : Bytes → Nat
  alignShift : Fin 31
  snappy : Option Snappy

def encodeFixed32 (value : Nat) : Bytes :=
  [UInt8.ofNat (value % 256), UInt8.ofNat (value / 2 ^ 8 % 256),
    UInt8.ofNat (value / 2 ^ 16 % 256), UInt8.ofNat (value / 2 ^ 24 % 256)]

/-- The little-endian number of the first `width` bytes. -/
def decodeFixed : Nat → Bytes → Nat
  | 0, _ => 0
  | _, [] => 0
  | width + 1, byte :: rest => byte.toNat + 256 * decodeFixed width rest

def overwrite (offset : Nat) (patch bytes : Bytes) : Bytes :=
  bytes.take offset ++ patch ++ bytes.drop (offset + patch.length)

/-- `crc32c::Mask`. -/
def maskCrc (crc : Nat) : Nat :=
  (crc / 2 ^ 15 + crc % 2 ^ 15 * 2 ^ 17 + 0xa282ead8) % 2 ^ 32

/-- `crc32c::Unmask`. -/
def unmaskCrc (masked : Nat) : Nat :=
  let rot := (masked + 2 ^ 32 - 0xa282ead8) % 2 ^ 32
  rot / 2 ^ 17 + rot % 2 ^ 17 * 2 ^ 15

/-- The two buffers of a `LogRecordKey`, as far as their sizes reach. -/
structure LogRecordKey where
  buffer : Bytes := []
  ioBuffer : Bytes := []
deriving DecidableEq, Repr

namespace LogRecordKey

def appendHeaderSpace (key : LogRecordKey) : LogRecordKey :=
  { key with buffer := key.buffer ++ List.replicate 4 0 }

def encodeIKeySeqList (ikeySeqs : List Nat) : Bytes :=
  encodeVarint32 ikeySeqs.length ++ ikeySeqs.flatMap encodeVarint64

def appendIKeySeqList (key : LogRecordKey) (ikeySeqs : List Nat) : LogRecordKey :=
  { key with buffer := key.buffer ++ encodeIKeySeqList ikeySeqs }

def encodeTrxnGroupList (ranges : List TrxnGroupRange) : Bytes :=
  encodeVarint32 ranges.length ++
    ranges.flatMap fun range => encodeVarint64 range.start ++ encodeVarint64 range.stop

def appendTrxnGroupList (key : LogRecordKey) (ranges : List TrxnGroupRange) : LogRecordKey :=
  { key with buffer := key.buffer ++ encodeTrxnGroupList ranges }

/-- `SetIOBufferPaddingSize`.  What would go past the end of the string is not part of it. -/
def setIOBufferPaddingSize (snappyCompress : Bool) (padding : Nat) (ioBuffer : Bytes) : Bytes :=
  (overwrite 4 (encodeFixed32 ((if snappyCompress then 0x8000 else 0) ||| padding))
    ioBuffer).take ioBuffer.length

/-- `BuildIOBuffer` up to the checksum, from the padded buffer. -/
def frame (format : LogFormat) (padding : Nat) (padded : Bytes) : Bytes :=
  match format.snappy with
  | none => setIOBufferPaddingSize false padding padded
  | some snappy =>
    let compressed := List.replicate 4 0 ++ snappy.compress (padded.drop 4)
    if compressed.length < padded.length - padded.length / 8 then
      let unaligned := compressed.length % kRequestAlignSize format.alignShift
      let padding := (kRequestAlignSize format.alignShift - unaligned) % 2 ^ 16
      -- an aligned size gets no padding, but its padding size is that of a whole request
      setIOBufferPaddingSize true padding
        (if unaligned = 0 then compressed else compressed ++ List.replicate padding 0)
    else
      setIOBufferPaddingSize false padding padded

/-- `BuildIOBuffer`.  The header has four bytes, so the padding size is written over the first
four bytes of the body. -/
def buildIOBuffer (format : LogFormat) (key : LogRecordKey) : LogRecordKey :=
  let padding := paddingSize (kRequestAlignSize format.alignShift) key.buffer.length % 2 ^ 16
  let padded := key.buffer ++ List.replicate padding 0
  let framed := frame format padding padded
  { buffer := padded
    ioBuffer := overwrite 0 (encodeFixed32 (maskCrc (format.crc32c (framed.drop 4)))) framed }

/-- `Load`.  The device writes into memory that is only reserved: the size of the string
stays 0. -/
def load (record : Option Bytes) : Status × LogRecordKey :=
  match record with
  | none => (.notFound "log record", {})
  | some _ => (.ok, { buffer := [], ioBuffer := [] })

/-- `DecodeBuffer` returns false, or stops the process. -/
inductive DecodeError where
  | failed
  | crashed
deriving DecidableEq, Repr

structure Decoded where
  workersNextIKeySeqs : List Nat
  completedTrxnGroups : List TrxnGroupRange
  deletedIKeySeqs : List Nat
deriving DecidableEq, Repr

def orFail {α : Type} : Option α → Except DecodeError α
  | some value => .ok value
  | none => .error .failed

/-- `count` values, one after the other. -/
def getCounted {α : Type} (get : Bytes → Option (α × Bytes)) :
    Nat → Bytes → Option (List α × Bytes)
  | 0, input => some ([], input)
  | count + 1, input =>
    (get input).bind fun (value, rest) =>
      (getCounted get count rest).map fun (values, remaining) => (value :: values, remaining)

def getTrxnGroupRange (input : Bytes) : Option (TrxnGroupRange × Bytes) :=
  (getVarint64 input).bind fun (start, rest) =>
    (getVarint64 rest).map fun (stop, remaining) => (⟨start, stop⟩, remaining)

/-- The first number of the list is the smallest key and stands for itself too; the others
are differences to it. -/
def absoluteIKeySeqs : List Nat → List Nat
  | [] => []
  | smallest :: differences =>
    smallest :: differences.map fun difference => (difference + smallest) % 2 ^ 64

def parseBody (workerCount : Nat) (body : Bytes) : Except DecodeError Decoded := do
  let (nrWorkers, body) ← orFail (getVarint32 body)
  if nrWorkers ≠ workerCount then throw .crashed
  let (nexts, body) ← orFail (getCounted getVarint64 nrWorkers body)
  let (nrGroups, body) ← orFail (getVarint32 body)
  -- the number of groups, too, is compared with the number of workers
  if nrGroups ≠ workerCount then throw .crashed
  let (groups, body) ← orFail (getCounted getTrxnGroupRange nrGroups body)
  let (nrDeleted, body) ← orFail (getVarint32 body)
  let (deleted, _) ← orFail (getCounted getVarint64 nrDeleted body)
  return ⟨nexts, groups, absoluteIKeySeqs deleted⟩

/-- `DecodeBuffer`.  The checksum is compared over fewer bytes than it was computed over.  The
lists are parsed from the whole of the record, header included, or, if it was compressed, from
the string that it is uncompressed into, which keeps its size. -/
def decodeBuffer (format : LogFormat) (workerCount : Nat) (key : LogRecordKey) :
    Except DecodeError Decoded := do
  let record := key.ioBuffer
  if record.length < 4 then throw .failed
  let crc := unmaskCrc (decodeFixed 4 record)
  if record.length < 4 + 2 then throw .failed
  let flags := decodeFixed 2 (record.drop 4)
  let padding := flags % 2 ^ 15
  if kRequestAlignSize format.alignShift ≤ padding then throw .failed
  -- below this the sizes wrap around, and the checksum runs through all of memory
  if record.length < 8 + padding + 4 then throw .crashed
  let body := (record.drop 8).take (record.length - 8 - padding)
  if format.crc32c (body.take (body.length - 4)) ≠ crc then throw .failed
  if flags < 2 ^ 15 then parseBody workerCount record
  else
    match format.snappy with
    | none => throw .failed
    | some snappy =>
      let uncompressed := snappy.uncompress body
      parseBody workerCount
        ((uncompressed ++ key.buffer.drop uncompressed.length).take key.buffer.length)

end LogRecordKey

structure KeyBlockPrimaryMeta where
  keyBlockBitmap : Nat
  refCnt : Nat
deriving DecidableEq, Repr

structure CleanupRound where
  workerNextIKeySeq : List Nat
  completedTrxnGroups : List TrxnGroupRange
  kbmlCleanup : List KeyBlockMetaLog
  keyBlock : Nat → KeyBlockPrimaryMeta

namespace CleanupRound

variable (round : CleanupRound)

def smallestIKey : Nat :=
  round.kbmlCleanup.foldl (fun smallest kbml => min smallest kbml.ikeySeq) ulongMax

def isLive (kbml : KeyBlockMetaLog) : Bool :=
  decide ((round.keyBlock kbml.ikeySeq).keyBlockBitmap ≠ 0 ∨
    (round.keyBlock kbml.ikeySeq).refCnt ≠ 0)

/-- The blocks that `WorkerLogCleanupDelete` deletes from the device. -/
def deleteList : List Nat :=
  (round.kbmlCleanup.filter fun kbml => !round.isLive kbml).map (·.ikeySeq)

def deleteSeqList : List Nat :=
  round.smallestIKey :: round.deleteList.map (· - round.smallestIKey)

/-- The record that the round leaves on the device.  Nothing is written if no block is to be
deleted. -/
def logRecord (format : LogFormat) (round : CleanupRound) (before : Option Bytes) :
    Option Bytes :=
  if round.kbmlCleanup = [] ∨ round.deleteSeqList.length = 1 then before
  else
    let key : LogRecordKey := {}
    some (((((key.appendHeaderSpace.appendIKeySeqList round.workerNextIKeySeq).appendTrxnGroupList
      round.completedTrxnGroups).appendIKeySeqList round.deleteSeqList).buildIOBuffer
        format).ioBuffer)

end CleanupRound

variable (format : LogFormat)

/-- The key blocks that `RunRecovery` deletes: up to the first zero of the decoded list. -/
def recoveryDeletes (workerCount : Nat) (record : Option Bytes) :
    List Nat :=
  match LogRecordKey.load record with
  | (.ok, key) =>
    match key.decodeBuffer format workerCount with
    | .ok decoded => decoded.deletedIKeySeqs.takeWhile (· ≠ 0)
    | .error _ => []
  | _ => []

namespace LogRecordKey

theorem getCounted_encode_map {α β : Type} {get : Bytes → Option (β × Bytes)}
    {encode : α → Bytes} {read : α → β} {values : List α} (reads : ∀ v ∈ values, ∀ tail,
      get (encode v ++ tail) = some (read v, tail)) (tail : Bytes) :
    getCounted get values.length (values.flatMap encode ++ tail) =
      some (values.map read, tail) := by
  induction values with
  | nil => rfl
  | cons v values ih =>
    have first := reads v mem_cons_self
    have later := ih fun other inList => reads other (mem_cons_of_mem _ inList)
    simp [getCounted, first, later]

theorem getCounted_encode {α : Type} {get : Bytes → Option (α × Bytes)} {encode : α → Bytes}
    {values : List α} (readsBack : ∀ v ∈ values, ∀ tail,
      get (encode v ++ tail) = some (v, tail)) (tail : Bytes) :
    getCounted get values.length (values.flatMap encode ++ tail) = some (values, tail) := by
  rw [getCounted_encode_map readsBack, map_id']

end LogRecordKey

namespace CleanupRound

theorem mem_deleteList_iff (round : CleanupRound) (ikeySeq : Nat) : ikeySeq ∈ round.deleteList ↔
      ∃ kbml ∈ round.kbmlCleanup, round.isLive kbml = false ∧ kbml.ikeySeq = ikeySeq := by
  simp [deleteList, and_assoc]

end CleanupRound

theorem recoveryDeletes_eq_nil (workerCount : Nat)
    (record : Option Bytes) : recoveryDeletes format workerCount record = [] := by
  cases record <;> rfl

/-- Recovery deletes the blocks that the round decided to delete, and no live one. -/
structure CleanupRound.Redone (round : CleanupRound) (deleted : List Nat) : Prop where
  same : ∀ ikeySeq, ikeySeq ∈ deleted ↔ ikeySeq ∈ round.deleteList
  dead : ∀ kbml ∈ round.kbmlCleanup, round.isLive kbml = true → kbml.ikeySeq ∉ deleted

/-- Recovery redoes the deletions of a round exactly if the round decided on none. -/
theorem recovery_redoes_deletions_iff (format : LogFormat) (workerCount : Nat)
    (round : CleanupRound) (before : Option Bytes) :
    round.Redone (recoveryDeletes format workerCount (round.logRecord format before)) ↔
      ∀ kbml ∈ round.kbmlCleanup, round.isLive kbml = true := by
  rw [recoveryDeletes_eq_nil]
  constructor
  · rintro ⟨same, -⟩ kbml taken
    by_contra dead
    have isDead : round.isLive kbml = false := by simpa using dead
    have deleted := (round.mem_deleteList_iff kbml.ikeySeq).mpr ⟨kbml, taken, isDead, rfl⟩
    exact not_mem_nil ((same kbml.ikeySeq).mpr deleted)
  intro allLive
  refine ⟨?_, by simp⟩
  intro _
  rw [round.mem_deleteList_iff]
  constructor
  · intro inNil
    exact absurd inNil not_mem_nil
  rintro ⟨kbml, taken, dead, -⟩
  rw [allLive kbml taken] at dead
  cases dead

/-- One worker has handed one block to clean-up, which has no valid column left. -/
def emptyBlockRound : CleanupRound where
  workerNextIKeySeq := [1089]
  completedTrxnGroups := [⟨0, 0⟩]
  kbmlCleanup := [⟨1088, 1089, 1⟩]
  keyBlock := fun _ => ⟨0, 0⟩

/-- Requests of four bytes, no compression, and a checksum that is always zero. -/
def plainFormat : LogFormat := ⟨fun _ => 0, 2, none⟩

theorem recovery_misses_deleted_block : emptyBlockRound.deleteList = [1088] ∧
      ¬ emptyBlockRound.Redone
        (recoveryDeletes plainFormat 1 (emptyBlockRound.logRecord plainFormat none)) := by
  refine ⟨by decide, ?_⟩
  rintro ⟨same, -⟩
  have missed := (same 1088).mpr (by decide)
  revert missed
  decide

end InsDb
