import InsDb.Coding
import InsDb.Library.Layout

/-!
# Key blocks

A worker packs the values of up to 32 puts into one key block: a table of offsets, then for
every put its sizes, value, key, column id and time stamp. The block is framed with a
checksum and a word that holds the number of puts and the stored size, compressed if that
pays, and written.
-/

namespace InsDb

open InsDb.Library List
open Varint (Bytes)

/-- A put with the time stamp that it got when it was written; whether the TTL of its column is
on is found out when it is packed. -/
structure BlockPut where
  key : Bytes
  value : Bytes
  colId : Nat
  ts : Nat
  ttlEnabled : Bool
  key_lt : key.length < 2048
  value_lt : value.length < 2 ^ 21
deriving DecidableEq, Repr

inductive BlockRequest where
  | put (put : BlockPut)
  | del (key : Bytes) (colId : Nat)
deriving DecidableEq, Repr

def BlockRequest.put? : BlockRequest → Option BlockPut
  | .put entry => some entry
  | .del _ _ => none

/-- Requests that get a key block: at least one put, and at most 32 of each type. -/
structure SubmitList where
  requests : List BlockRequest
  some_put : requests.filterMap BlockRequest.put? ≠ []
  puts_le : (requests.filterMap BlockRequest.put?).length ≤ 32
  dels_le : requests.length ≤ (requests.filterMap BlockRequest.put?).length + 32
deriving DecidableEq, Repr

def SubmitList.puts (list : SubmitList) : List BlockPut :=
  list.requests.filterMap BlockRequest.put?

/-- `KEYBLOCK_VALUE_SIZE_SHIFT` is 11. -/
def BlockPut.sizes (put : BlockPut) : Nat :=
  put.value.length <<< 11 ||| put.key.length

def BlockPut.kvInfo (put : BlockPut) : Bytes :=
  encodeVarint32 put.sizes ++ put.value ++ put.key ++ [UInt8.ofNat put.colId] ++
    (if put.ts ≠ 0 then encodeFixed64 put.ts else [])

/-- An offset with `KEYBLOCK_TTL_MASK` set for a put with a time stamp. -/
def BlockPut.slot (offset : Nat) (put : BlockPut) : Nat :=
  offset ||| (if put.ts ≠ 0 then 1 <<< 31 else 0)

/-- The filled slots of the offset table and the bytes behind the table. -/
structure BlockState where
  slots : List Nat := []
  kv : Bytes := []
deriving DecidableEq, Repr

/-- One round of `BuildKeyBlock`.  A delete also writes the current offset, into a slot that
the next request or the total size overwrites. -/
def BlockState.step (start : Nat) (s : BlockState) : BlockRequest → BlockState
  | .put entry =>
    { slots := s.slots ++ [entry.slot (start + s.kv.length)]
      kv := s.kv ++ entry.kvInfo }
  | .del _ _ => s

def SubmitList.tableSize (list : SubmitList) : Nat :=
  4 * (list.puts.length + 1)

/-- `BuildKeyBlock`. -/
def SubmitList.buildKeyBlock (list : SubmitList) : Bytes :=
  let s := list.requests.foldl (BlockState.step list.tableSize) {}
  (s.slots ++ [list.tableSize + s.kv.length]).flatMap encodeFixed32 ++ s.kv

/-- The size of the buffer that the worker allocates for the block. -/
def SubmitList.estimatedSize (list : SubmitList) (alignShift : Fin 31) : Nat :=
  sizeAlignment alignShift (6 + (list.puts.map fun put =>
    put.value.length + put.key.length + 12 + (if put.ttlEnabled then 8 else 0)).sum + 4)

def SubmitList.blockSize (list : SubmitList) : Nat :=
  list.tableSize + (list.puts.map fun put => put.kvInfo.length).sum

structure BlockFormat where
  snappy : Snappy
  compression : Bool
  crc32c : Bytes → UInt32
  alignShift : Fin 31

section

variable (format : BlockFormat)

/-- Compression is used where it saves an eighth of the block. -/
def BlockFormat.smaller (block : Bytes) : Bool :=
  format.compression &&
    decide ((format.snappy.compress block).length < block.length - block.length / 8)

def BlockFormat.data (block : Bytes) : Bytes :=
  if format.smaller block then format.snappy.compress block else block

/-- `kb_keycnt_size_loc`: the number of puts, a flag for compression and the size of the data. -/
def BlockFormat.keycntSize (putCnt : Nat) (block : Bytes) : Nat :=
  putCnt <<< 24 ||| (if format.smaller block then 1 <<< 31 else 0) ||| (format.data block).length

def BlockFormat.frame (putCnt : Nat) (block : Bytes) : Bytes :=
  let keycntSize := format.keycntSize putCnt block
  let checked := encodeFixed32 keycntSize ++ format.data block
  encodeFixed32 (maskCrc (format.crc32c (checked.take (keycntSize % 2 ^ 24 + 4))).toNat) ++ checked

/-- The block in the worker's device buffer.  Nothing is returned where the worker goes past the
end of that buffer: the compressed data is written to it before it is known whether it is
used, and the request is rounded up. -/
def frameKeyBlock (putCnt : Nat) (block : Bytes) : Option Bytes :=
  if (format.compression = true ∧
        kDeviceRquestMaxSize < 8 + (format.snappy.compress block).length) ∨
      kDeviceRquestMaxSize < sizeAlignment format.alignShift (8 + (format.data block).length) then
    none
  else
    some (format.frame putCnt block)

/-- What goes to the device: the frame and, up to the request size, what the buffer had from
earlier blocks. -/
def storedKeyBlock (frame stale : Bytes) : Bytes :=
  (frame ++ stale).take (sizeAlignment format.alignShift frame.length)

/-- `LoadValue` with the stored size of the block; `contents` is the whole I/O buffer.  Without
compression as many bytes are copied as the frame has, from behind its header. -/
def loadValue (ivalueSize : Nat) (contents : Bytes) : Option Bytes :=
  let keycntSize := decodeFixed 4 (contents.drop 4)
  let size := keycntSize % 2 ^ 24
  if unmaskCrc (decodeFixed 4 contents) ≠
      (format.crc32c ((contents.drop 4).take (size + 4))).toNat then none
  else if keycntSize.testBit 31 then some (format.snappy.uncompress ((contents.drop 8).take size))
  else if kDeviceRquestMaxSize < 8 + ivalueSize then none
  else some ((contents.drop 8).take ivalueSize)

def SubmitList.loaded (list : SubmitList) (stale ioStale : Bytes) : Option Bytes :=
  if list.estimatedSize format.alignShift < list.buildKeyBlock.length then none
  else
    (frameKeyBlock format list.puts.length list.buildKeyBlock).bind fun frame =>
      loadValue format frame.length (storedKeyBlock format frame stale ++ ioStale)

end

/-- `KEYBLOCK_OFFSET_MASK` keeps 31 bits. -/
def dataOffset (raw : Bytes) (i : Nat) : Nat :=
  decodeFixed 4 (raw.drop (4 * i)) % 2 ^ 31

/-- The sizes of the entry at an index and the bytes of the block behind them. -/
def entrySizes (raw : Bytes) (i : Nat) : Option (Nat × Bytes) :=
  let dataSize := (dataOffset raw (i + 1) + 2 ^ 32 - dataOffset raw i) % 2 ^ 32
  let data := raw.drop (dataOffset raw i)
  (getVarint32 (data.take dataSize)).map fun (sizes, parse) =>
    (sizes, data.drop ((data.take dataSize).length - parse.length))

def getValueFromKeyBlock (raw : Bytes) (i : Nat) : Option Bytes :=
  (entrySizes raw i).bind fun (sizes, parse) =>
    (takeBytes (sizes / 2 ^ 11) parse).map Prod.fst

def getKeyFromKeyBlock (raw : Bytes) (i : Nat) : Option Bytes :=
  (entrySizes raw i).bind fun (sizes, parse) =>
    (takeBytes (sizes % 2 ^ 11) (parse.drop (sizes / 2 ^ 11))).map Prod.fst

/-- Every put is found at its index, whatever the buffers had in them before. -/
def SubmitList.ReadsBack (list : SubmitList) (format : BlockFormat) : Prop :=
  ∀ stale ioStale : Bytes, ∃ raw, list.loaded format stale ioStale = some raw ∧
    ∀ i put, list.puts[i]? = some put →
      getValueFromKeyBlock raw i = some put.value ∧ getKeyFromKeyBlock raw i = some put.key

/-- The block is not longer than estimated, and everything that is written or copied stays within
one request. -/
structure SubmitList.Fits (list : SubmitList) (format : BlockFormat) : Prop where
  estimated : list.blockSize ≤ list.estimatedSize format.alignShift
  compressed : format.compression = true →
    8 + (format.snappy.compress list.buildKeyBlock).length ≤ kDeviceRquestMaxSize
  stored : sizeAlignment format.alignShift (8 + (format.data list.buildKeyBlock).length) ≤
    kDeviceRquestMaxSize
  copied : format.smaller list.buildKeyBlock = false → 16 + list.blockSize ≤ kDeviceRquestMaxSize

namespace SubmitList

def entries (list : SubmitList) : List Bytes := list.puts.map BlockPut.kvInfo

def slots (list : SubmitList) : List Nat :=
  List.zipWith BlockPut.slot (Layout.starts list.tableSize list.entries) list.puts

end SubmitList

theorem BlockState.foldl_step (start : Nat) (requests : List BlockRequest) (s : BlockState) :
    requests.foldl (BlockState.step start) s =
      { slots := s.slots ++ List.zipWith BlockPut.slot (Layout.starts (start + s.kv.length)
            ((requests.filterMap BlockRequest.put?).map BlockPut.kvInfo))
          (requests.filterMap BlockRequest.put?)
        kv := s.kv ++ ((requests.filterMap BlockRequest.put?).map BlockPut.kvInfo).flatten } := by
  induction requests generalizing s with
  | nil => simp
  | cons rq rest ih =>
    rw [foldl_cons, ih]
    cases rq with
    | put =>
      simp [BlockState.step, BlockRequest.put?, Layout.starts, Nat.add_assoc]
    | del => rfl

namespace SubmitList

theorem buildKeyBlock_eq (list : SubmitList) : list.buildKeyBlock =
      (list.slots ++ [list.blockSize]).flatMap encodeFixed32 ++ list.entries.flatten := by
  have size : list.blockSize = list.tableSize + list.entries.flatten.length := by
    simp [blockSize, entries, Function.comp_def]
  simp only [buildKeyBlock, BlockState.foldl_step, nil_append, length_nil, Nat.add_zero, size]
  rfl

theorem length_slots (list : SubmitList) : list.slots.length = list.puts.length := by
  rw [slots, length_zipWith, Layout.length_starts, entries, length_map, Nat.min_self]

theorem length_flatMap_encodeFixed32 (values : List Nat) :
    (values.flatMap encodeFixed32).length = 4 * values.length := by
  induction values with
  | nil => rfl
  | cons v rest ih =>
    rw [flatMap_cons, length_append, ih, length_encodeFixed32, length_cons]
    omega

theorem length_table (list : SubmitList) :
    ((list.slots ++ [list.blockSize]).flatMap encodeFixed32).length = list.tableSize := by
  rw [length_flatMap_encodeFixed32, length_append, length_slots, length_singleton, tableSize]

theorem blockSize_eq (list : SubmitList) :
    list.blockSize = list.tableSize + list.entries.flatten.length := by
  simp [blockSize, entries, Function.comp_def]

theorem length_buildKeyBlock (list : SubmitList) : list.buildKeyBlock.length = list.blockSize := by
  rw [buildKeyBlock_eq, length_append, length_table, blockSize_eq]

def startOf (list : SubmitList) (i : Nat) : Nat :=
  list.tableSize + (list.entries.take i).flatten.length

end SubmitList

theorem BlockPut.slot_mod {offset : Nat} (small : offset < 2 ^ 31) (put : BlockPut) :
    put.slot offset % 2 ^ 32 % 2 ^ 31 = offset := by
  have kept : put.slot offset % 2 ^ 31 = offset := by
    rw [BlockPut.slot, Nat.or_mod_two_pow, Nat.mod_eq_of_lt small]
    split_ifs
    · simp
    · simp
  rw [Nat.mod_mod_of_dvd _ (by decide), kept]

namespace SubmitList

theorem startOf_le (list : SubmitList) (i : Nat) : list.startOf i ≤ list.blockSize := by
  rw [startOf, blockSize_eq]
  exact Nat.add_le_add_left (Layout.length_flatten_take_le list.entries i) _

theorem length_entries (list : SubmitList) : list.entries.length = list.puts.length := length_map ..

variable {i : Nat}

theorem table_word (list : SubmitList) (small : list.blockSize < 2 ^ 31)
    (inside : i ≤ list.puts.length) :
    ∃ word, (list.slots ++ [list.blockSize])[i]? = some word ∧
      word % 2 ^ 32 % 2 ^ 31 = list.startOf i := by
  rcases Nat.lt_or_eq_of_le inside with pre | rfl
  · have inEntries : i < list.entries.length := by
      rw [list.length_entries]
      exact pre
    refine ⟨list.puts[i].slot (list.startOf i), ?_, ?_⟩
    · rw [getElem?_append_left (by rw [length_slots]; exact pre), slots,
        getElem?_zipWith, Layout.getElem?_starts inEntries,
        getElem?_eq_getElem pre]
      rfl
    · exact BlockPut.slot_mod ((list.startOf_le i).trans_lt small) _
  refine ⟨list.blockSize, ?_, ?_⟩
  · rw [getElem?_append_right (by rw [length_slots]), length_slots, Nat.sub_self]
    rfl
  rw [startOf, ← list.length_entries, take_length, ← blockSize_eq]
  omega

theorem dataOffset_build (list : SubmitList) (small : list.blockSize < 2 ^ 31)
    (inside : i ≤ list.puts.length) (extra : Bytes) :
    dataOffset (list.buildKeyBlock ++ extra) i = list.startOf i := by
  obtain ⟨_, atIndex, masked⟩ := list.table_word small inside
  obtain ⟨inTable, rfl⟩ := List.getElem?_eq_some_iff.mp atIndex
  have dropped : (list.buildKeyBlock ++ extra).drop (4 * i) =
      ((list.slots ++ [list.blockSize]).drop i).flatMap encodeFixed32 ++
        (list.entries.flatten ++ extra) := by
    have below : 4 * i ≤ ((list.slots ++ [list.blockSize]).flatMap encodeFixed32).length := by
      rw [length_flatMap_encodeFixed32]
      omega
    rw [buildKeyBlock_eq, append_assoc, drop_append_of_le_length below,
      Layout.drop_flatMap length_encodeFixed32]
  rw [dataOffset, dropped, drop_eq_getElem_cons inTable, flatMap_cons,
    append_assoc, decodeFixed_encodeFixed32, masked]

theorem drop_startOf (list : SubmitList) {put : BlockPut} (atIndex : list.puts[i]? = some put)
    (extra : Bytes) :
    (list.buildKeyBlock ++ extra).drop (list.startOf i) =
      put.kvInfo ++ ((list.entries.drop (i + 1)).flatten ++ extra) := by
  obtain ⟨inside, rfl⟩ := List.getElem?_eq_some_iff.mp atIndex
  have inEntries : i < list.entries.length := by
    rw [list.length_entries]
    exact inside
  have entry : list.entries[i] = list.puts[i].kvInfo := getElem_map ..
  have fewer := Layout.length_flatten_take_le list.entries i
  rw [startOf, ← list.length_table, buildKeyBlock_eq, append_assoc, ← drop_drop,
    drop_left, drop_append_of_le_length fewer, Layout.drop_flatten,
    drop_eq_getElem_cons inEntries, flatten_cons, entry, append_assoc]

theorem startOf_succ (list : SubmitList) {put : BlockPut} (atIndex : list.puts[i]? = some put) :
    list.startOf (i + 1) = list.startOf i + put.kvInfo.length := by
  obtain ⟨inside, rfl⟩ := List.getElem?_eq_some_iff.mp atIndex
  have inEntries : i < list.entries.length := by
    rw [list.length_entries]
    exact inside
  have entry : list.entries[i] = list.puts[i].kvInfo := getElem_map ..
  rw [startOf, startOf, take_succ_eq_append_getElem inEntries, flatten_append,
    length_append, entry, flatten_singleton, Nat.add_assoc]

end SubmitList

theorem BlockPut.sizes_eq (put : BlockPut) :
    put.sizes = put.value.length * 2 ^ 11 + put.key.length := by
  rw [BlockPut.sizes, ← Nat.shiftLeft_add_eq_or_of_lt put.key_lt, Nat.shiftLeft_eq]

theorem BlockPut.sizes_lt (put : BlockPut) : put.sizes < 2 ^ 32 := by
  have key := put.key_lt
  have v := put.value_lt
  rw [put.sizes_eq]
  omega

section

variable (list : SubmitList) (small : list.blockSize < 2 ^ 31) {i : Nat} {put : BlockPut}
  (atIndex : list.puts[i]? = some put) (extra : Bytes)

include list small atIndex extra

theorem SubmitList.entrySizes_build : ∃ rest, entrySizes (list.buildKeyBlock ++ extra) i =
      some (put.sizes, put.value ++ (put.key ++ rest)) := by
  have inside := (List.getElem?_eq_some_iff.mp atIndex).1
  have here := list.dataOffset_build small (Nat.le_of_lt inside) extra
  have next := list.dataOffset_build small inside extra
  have dataSize : (dataOffset (list.buildKeyBlock ++ extra) (i + 1) + 2 ^ 32 -
      dataOffset (list.buildKeyBlock ++ extra) i) % 2 ^ 32 = put.kvInfo.length := by
    have total := list.startOf_le (i + 1)
    rw [here, next]
    rw [list.startOf_succ atIndex] at total ⊢
    omega
  have data := list.drop_startOf atIndex extra
  have parsed : getVarint32 put.kvInfo = some (put.sizes, put.value ++ (put.key ++
      ([UInt8.ofNat put.colId] ++ if put.ts ≠ 0 then encodeFixed64 put.ts else []))) := by
    rw [BlockPut.kvInfo]
    simp only [append_assoc]
    exact getVarint32_encode put.sizes_lt _
  have header : put.kvInfo.length - (put.value ++ (put.key ++
      ([UInt8.ofNat put.colId] ++ if put.ts ≠ 0 then encodeFixed64 put.ts else []))).length =
      (encodeVarint32 put.sizes).length := by
    rw [BlockPut.kvInfo]
    simp only [length_append]
    omega
  refine ⟨[UInt8.ofNat put.colId] ++ (if put.ts ≠ 0 then encodeFixed64 put.ts else []) ++
    ((list.entries.drop (i + 1)).flatten ++ extra), ?_⟩
  simp only [entrySizes, dataSize]
  simp only [here, data, take_left, parsed, Option.map_some, header]
  rw [BlockPut.kvInfo]
  simp

theorem SubmitList.reads_build :
    getValueFromKeyBlock (list.buildKeyBlock ++ extra) i = some put.value ∧
      getKeyFromKeyBlock (list.buildKeyBlock ++ extra) i = some put.key := by
  obtain ⟨_, sizes⟩ := list.entrySizes_build small atIndex extra
  have keySize := put.key_lt
  have valuePart : put.sizes / 2 ^ 11 = put.value.length := by
    rw [put.sizes_eq]
    omega
  have keyPart : put.sizes % 2 ^ 11 = put.key.length := by
    rw [put.sizes_eq]
    omega
  simp only [getValueFromKeyBlock, getKeyFromKeyBlock, sizes, Option.bind_some, valuePart,
    keyPart, drop_left, takeBytes_append, Option.map_some, and_self]

end

theorem BlockPut.length_kvInfo_le (put : BlockPut) : put.kvInfo.length ≤ 2 ^ 22 := by
  have sizes := Varint.length_encode_le 5 put.sizes
  have key := put.key_lt
  have value := put.value_lt
  have stamp : (if put.ts ≠ 0 then encodeFixed64 put.ts else []).length ≤ 8 := by
    split_ifs <;> simp
  simp only [BlockPut.kvInfo, encodeVarint32, length_append, length_singleton]
  omega

theorem SubmitList.blockSize_lt (list : SubmitList) : list.blockSize < 2 ^ 31 := by
  have few : list.puts.length ≤ 32 := list.puts_le
  have each : ∀ puts : List BlockPut,
      (puts.map fun put => put.kvInfo.length).sum ≤ puts.length * 2 ^ 22 := by
    intro puts
    induction puts with
    | nil => exact Nat.le_refl 0
    | cons put =>
      have first := put.length_kvInfo_le
      simp only [map_cons, sum_cons, length_cons]
      omega
  have all := each list.puts
  rw [SubmitList.blockSize, SubmitList.tableSize]
  omega

theorem keycntSize_word {putCnt size : Nat} (few : putCnt ≤ 32) (small : size < 2 ^ 24)
    (flag : Bool) :
    (putCnt <<< 24 ||| (if flag then 1 <<< 31 else 0) ||| size) < 2 ^ 32 ∧
      (putCnt <<< 24 ||| (if flag then 1 <<< 31 else 0) ||| size) % 2 ^ 24 = size ∧
      (putCnt <<< 24 ||| (if flag then 1 <<< 31 else 0) ||| size).testBit 31 = flag := by
  have countPart : putCnt <<< 24 < 2 ^ 31 := by
    rw [Nat.shiftLeft_eq]
    omega
  have flagPart : (if flag then 1 <<< 31 else 0) < 2 ^ 32 := by
    cases flag <;> decide
  refine ⟨?_, ?_, ?_⟩
  · exact Nat.or_lt_two_pow (Nat.or_lt_two_pow (by omega) flagPart) (by omega)
  · have noCount : putCnt <<< 24 % 2 ^ 24 = 0 := by
      rw [Nat.shiftLeft_eq, Nat.mul_mod_left]
    have noFlag : (if flag then 1 <<< 31 else 0) % 2 ^ 24 = 0 := by
      cases flag <;> decide
    rw [Nat.or_mod_two_pow, Nat.or_mod_two_pow, noCount, noFlag, Nat.mod_eq_of_lt small,
      Nat.zero_or, Nat.zero_or]
  have noCount := Nat.testBit_lt_two_pow countPart
  have noSize : size.testBit 31 = false := Nat.testBit_lt_two_pow (by omega)
  have flagBit : (if flag then 1 <<< 31 else 0).testBit 31 = flag := by
    cases flag <;> decide
  rw [Nat.testBit_or, Nat.testBit_or, noCount, noSize, flagBit, Bool.false_or, Bool.or_false]

section

variable (format : BlockFormat)

theorem loadValue_checked {keycntSize : Nat} {data : Bytes} (wordFits : keycntSize < 2 ^ 32)
    (size : keycntSize % 2 ^ 24 = data.length) (tail : Bytes) (ivalueSize : Nat) :
    loadValue format ivalueSize
        (encodeFixed32 (maskCrc (format.crc32c ((encodeFixed32 keycntSize ++ data).take
          (keycntSize % 2 ^ 24 + 4))).toNat) ++ (encodeFixed32 keycntSize ++ data) ++ tail) =
      if keycntSize.testBit 31 then some (format.snappy.uncompress data)
      else if kDeviceRquestMaxSize < 8 + ivalueSize then none
      else some ((data ++ tail).take ivalueSize) := by
  have whole : (encodeFixed32 keycntSize ++ data).take (keycntSize % 2 ^ 24 + 4) =
      encodeFixed32 keycntSize ++ data := by
    apply take_of_length_le
    rw [length_append, length_encodeFixed32, size, Nat.add_comm]
  rw [whole]
  generalize stored : format.crc32c (encodeFixed32 keycntSize ++ data) = crc
  have crcRead : unmaskCrc (decodeFixed 4 (encodeFixed32 (maskCrc crc.toNat) ++
      (encodeFixed32 keycntSize ++ data) ++ tail)) = crc.toNat := by
    rw [append_assoc, decodeFixed_encodeFixed32, Nat.mod_eq_of_lt (maskCrc_lt _),
      unmaskCrc_maskCrc crc.toNat_lt]
  have afterCrc : (encodeFixed32 (maskCrc crc.toNat) ++ (encodeFixed32 keycntSize ++ data) ++
      tail).drop 4 = encodeFixed32 keycntSize ++ (data ++ tail) := by
    rw [append_assoc, drop_left' (length_encodeFixed32 _), append_assoc]
  have afterWord : (encodeFixed32 (maskCrc crc.toNat) ++ (encodeFixed32 keycntSize ++ data) ++
      tail).drop 8 = data ++ tail := by
    rw [show (8 : Nat) = 4 + 4 from rfl, ← drop_drop, afterCrc, drop_left' (length_encodeFixed32 _)]
  have word : decodeFixed 4 (encodeFixed32 keycntSize ++ (data ++ tail)) = keycntSize := by
    rw [decodeFixed_encodeFixed32, Nat.mod_eq_of_lt wordFits]
  have checked : (encodeFixed32 keycntSize ++ (data ++ tail)).take (data.length + 4) =
      encodeFixed32 keycntSize ++ data := by
    rw [← append_assoc]
    apply take_left'
    rw [length_append, length_encodeFixed32, Nat.add_comm]
  simp only [loadValue, afterCrc, afterWord, word, size, checked, crcRead, stored, ne_eq,
    not_true_eq_false, if_false, take_left]

theorem frameKeyBlock_eq_some_iff (putCnt : Nat) (block frame : Bytes) :
    frameKeyBlock format putCnt block = some frame ↔
      ((format.compression = true →
          8 + (format.snappy.compress block).length ≤ kDeviceRquestMaxSize) ∧
        sizeAlignment format.alignShift (8 + (format.data block).length) ≤
          kDeviceRquestMaxSize) ∧ format.frame putCnt block = frame := by
  rw [frameKeyBlock]
  split_ifs with overflow
  · simp only [false_iff, not_and]
    rintro ⟨compressed, stored⟩
    rcases overflow with ⟨isOn, long⟩ | long
    · exact absurd (compressed isOn) (Nat.not_le_of_lt long)
    · exact absurd stored (Nat.not_le_of_lt long)
  · rw [not_or, not_and, Nat.not_lt, Nat.not_lt] at overflow
    rw [Option.some.injEq]
    exact (and_iff_right overflow).symm

/-- A block that is framed is loaded again, with what stands behind it in the buffer, unless it
is not compressed and the copy goes past the end of the buffer. -/
theorem loadValue_frame {putCnt : Nat} (few : putCnt ≤ 32) {block : Bytes}
    (fits : 8 + (format.data block).length ≤ kDeviceRquestMaxSize) (tail : Bytes) :
    ∃ extra, loadValue format (format.frame putCnt block).length
        (format.frame putCnt block ++ tail) =
      if format.smaller block = false ∧ kDeviceRquestMaxSize < 16 + block.length then none
      else some (block ++ extra) := by
  have requestSize : kDeviceRquestMaxSize < 2 ^ 24 := by decide
  obtain ⟨wordFits, size, flag⟩ := keycntSize_word few
    (show (format.data block).length < 2 ^ 24 by omega) (format.smaller block)
  have loads : loadValue format (format.frame putCnt block).length
      (format.frame putCnt block ++ tail) = _ := loadValue_checked format wordFits size tail _
  rw [loads, flag]
  have frameLength : (format.frame putCnt block).length = (format.data block).length + 8 := by
    simp only [BlockFormat.frame, length_append, length_encodeFixed32]
    omega
  cases isSmaller : format.smaller block with
  | true =>
    have isData : format.data block = format.snappy.compress block := by
      rw [BlockFormat.data, isSmaller, if_pos rfl]
    refine ⟨[], ?_⟩
    rw [if_pos rfl, if_neg (by simp), isData, format.snappy.lossless, append_nil]
  | false =>
    have isData : format.data block = block := by
      rw [BlockFormat.data, isSmaller, if_neg (by simp)]
    have copied : 8 + (block.length + 8) = 16 + block.length := by omega
    refine ⟨tail.take 8, ?_⟩
    simp only [Bool.false_eq_true, if_false, true_and]
    rw [frameLength, isData, copied, take_length_add_append]

theorem storedKeyBlock_append (frame stale ioStale : Bytes) :
    ∃ tail, storedKeyBlock format frame stale ++ ioStale = frame ++ tail := by
  obtain ⟨more, size⟩ :=
    Nat.exists_eq_add_of_le (sizeAlignment_bounds format.alignShift frame.length).1
  refine ⟨stale.take more ++ ioStale, ?_⟩
  rw [storedKeyBlock, size, take_length_add_append, append_assoc]

variable {format} {list : SubmitList}

theorem SubmitList.Fits.loaded (fits : list.Fits format) (stale ioStale : Bytes) :
    ∃ extra, list.loaded format stale ioStale = some (list.buildKeyBlock ++ extra) := by
  have size := list.length_buildKeyBlock
  have framed := (frameKeyBlock_eq_some_iff format list.puts.length list.buildKeyBlock _).mpr
    ⟨⟨fits.compressed, fits.stored⟩, rfl⟩
  obtain ⟨tail, isStored⟩ := storedKeyBlock_append format
    (format.frame list.puts.length list.buildKeyBlock) stale ioStale
  obtain ⟨extra, loads⟩ := loadValue_frame format list.puts_le
    ((sizeAlignment_bounds _ _).1.trans fits.stored) tail
  refine ⟨extra, ?_⟩
  rw [SubmitList.loaded, if_neg (Nat.not_lt.mpr (size ▸ fits.estimated)), framed, Option.bind_some,
    isStored]
  refine loads.trans (if_neg ?_)
  rintro ⟨plain, long⟩
  exact absurd (fits.copied plain) (Nat.not_le_of_lt (size ▸ long))

theorem SubmitList.fits_of_loaded {raw : Bytes} (isLoaded : list.loaded format [] [] = some raw) :
    list.Fits format := by
  have size := list.length_buildKeyBlock
  rw [SubmitList.loaded] at isLoaded
  split_ifs at isLoaded with short
  obtain ⟨frame, framed, loads⟩ := Option.bind_eq_some_iff.mp isLoaded
  obtain ⟨⟨compressed, stored⟩, rfl⟩ := (frameKeyBlock_eq_some_iff ..).mp framed
  refine ⟨size ▸ Nat.not_lt.mp short, compressed, stored, ?_⟩
  intro plain
  obtain ⟨tail, isStored⟩ := storedKeyBlock_append format
    (format.frame list.puts.length list.buildKeyBlock) [] []
  obtain ⟨_, again⟩ := loadValue_frame format list.puts_le
    ((sizeAlignment_bounds _ _).1.trans stored) tail
  rw [isStored] at loads
  by_contra long
  rw [← size] at long
  have nothing := again.trans (if_pos ⟨plain, Nat.lt_of_not_le long⟩)
  exact absurd (nothing.symm.trans loads) (Option.some_ne_none _).symm

/-- Every put can be read back exactly if the block is within its estimate, and the compressed
data, the request and the copy of a block that is not compressed are within one request. -/
theorem keyBlock_readsBack_iff (list : SubmitList) (format : BlockFormat) :
    list.ReadsBack format ↔ list.Fits format := by
  constructor
  · intro readsBack
    obtain ⟨_, isLoaded, -⟩ := readsBack [] []
    exact SubmitList.fits_of_loaded isLoaded
  intro fits stale ioStale
  obtain ⟨extra, isLoaded⟩ := fits.loaded stale ioStale
  refine ⟨list.buildKeyBlock ++ extra, isLoaded, ?_⟩
  intro _ _ atIndex
  exact list.reads_build list.blockSize_lt atIndex extra

end

def onePutList (value : Bytes) (value_lt : value.length < 2 ^ 21) : SubmitList where
  requests := [.put
    { key := [107], value := value, colId := 0, ts := 0, ttlEnabled := false
      key_lt := by decide, value_lt := value_lt }]
  some_put := List.cons_ne_nil _ _
  puts_le := by change 1 ≤ 32; decide
  dels_le := by change 1 ≤ 1 + 32; decide

theorem length_lt_blockSize (v : Bytes) (value_lt : v.length < 2 ^ 21) :
    v.length < (onePutList v value_lt).blockSize := by
  change v.length < 4 * (1 + 1) + ((_ ++ v ++ _ ++ _ ++ _).length + 0)
  simp only [length_append]
  omega

def longestValueList : SubmitList :=
  onePutList (List.replicate (2 ^ 21 - 1) 0) (by rw [List.length_replicate]; omega)

theorem le_maxCompressedLength (size : Nat) : size ≤ maxCompressedLength size := by
  rw [maxCompressedLength]
  omega

/-- The compressor that leaves its data as they are. -/
def plainSnappy : Snappy where
  compress data := data
  uncompress data := data
  lossless _ := rfl
  bounded data := le_maxCompressedLength data.length

def plainBlockFormat : BlockFormat where
  snappy := plainSnappy
  compression := false
  crc32c := fun _ => 0
  alignShift := plainFormat.alignShift

theorem longest_value_overflows :
    frameKeyBlock plainBlockFormat longestValueList.puts.length longestValueList.buildKeyBlock =
        none ∧
      ¬ longestValueList.ReadsBack plainBlockFormat := by
  have size : 2 ^ 21 - 1 < longestValueList.blockSize := by
    have longer := length_lt_blockSize (replicate (2 ^ 21 - 1) 0) (by rw [length_replicate]; omega)
    exact length_replicate.symm.trans_lt longer
  have long : kDeviceRquestMaxSize <
      sizeAlignment 2 (8 + longestValueList.buildKeyBlock.length) := by
    have rounded := (sizeAlignment_bounds 2 (8 + longestValueList.buildKeyBlock.length)).1
    rw [SubmitList.length_buildKeyBlock] at rounded ⊢
    rw [kDeviceRquestMaxSize]
    omega
  have overflow : frameKeyBlock plainBlockFormat longestValueList.puts.length
      longestValueList.buildKeyBlock = none := by
    have plain : ∀ block, plainBlockFormat.data block = block := fun _ => rfl
    rw [frameKeyBlock, plain]
    exact if_pos (Or.inr long)
  refine ⟨overflow, ?_⟩
  intro readsBack
  obtain ⟨_, loaded, -⟩ := readsBack [] []
  rw [SubmitList.loaded, overflow, Option.bind_none] at loaded
  split_ifs at loaded

/-- What `DecodeAllKeyMeta` puts into a `ColumnInfo`.  The column id is a member of the
transaction info, to which the null pointer stands. -/
structure DecodedKeyMeta where
  key : Bytes
  colId : Option Nat
  ttl : Nat
  kbIndex : Nat
  kbSize : Nat
deriving DecidableEq, Repr

/-- `DecodeAllKeyMeta`.  The number of keys is taken from the first two bytes of the block, and
nothing of an entry is read.  `nullKey` is what the constructor of the key's string makes of
the null pointer that it is given; it may throw. -/
def decodeAllKeyMeta (nullKey : Option Bytes) (dataSize : Nat) (raw : Bytes) :
    Option (List DecodedKeyMeta) :=
  let nrKey := decodeFixed 2 raw
  if nrKey = 0 then some []
  else
    nullKey.map fun key => (List.range nrKey).map fun i =>
      { key := key, colId := none, ttl := 0, kbIndex := i % 256, kbSize := dataSize }

/-- One entry for each put, with its key, column id, time stamp and index. -/
def SubmitList.DecodesAll (list : SubmitList) (nullKey : Option Bytes) (dataSize : Nat)
    (extra : Bytes) : Prop :=
  ∃ metas, decodeAllKeyMeta nullKey dataSize (list.buildKeyBlock ++ extra) = some metas ∧
    metas.map (fun info => (info.key, info.colId, info.ttl, info.kbIndex)) =
      list.puts.mapIdx fun i put => (put.key, some put.colId, put.ts, i)

theorem decodeFixed_low (v : Nat) (rest : Bytes) :
    decodeFixed 2 (encodeFixed32 v ++ rest) = v % 2 ^ 16 := by
  have low := decodeFixed_encodeFixed16 v
  rw [encodeFixed32]
  exact low _

theorem SubmitList.decodeFixed_build (list : SubmitList) (extra : Bytes) :
    decodeFixed 2 (list.buildKeyBlock ++ extra) = list.tableSize := by
  have few : list.tableSize < 2 ^ 16 := by
    have puts := list.puts_le
    change 4 * (list.puts.length + 1) < 2 ^ 16
    change list.puts.length ≤ 32 at puts
    omega
  obtain ⟨first, _, puts⟩ := exists_cons_of_ne_nil (show list.puts ≠ [] from list.some_put)
  have slot : first.slot list.tableSize % 2 ^ 16 = list.tableSize := by
    rw [BlockPut.slot, Nat.or_mod_two_pow, Nat.mod_eq_of_lt few]
    split_ifs <;> simp
  have firstWord : ∃ tail, list.buildKeyBlock ++ extra =
      encodeFixed32 (first.slot list.tableSize) ++ tail := by
    rw [list.buildKeyBlock_eq, SubmitList.slots, SubmitList.entries, puts, map_cons,
      Layout.starts, zipWith_cons_cons, cons_append, flatMap_cons,
      append_assoc, append_assoc]
    exact ⟨_, rfl⟩
  obtain ⟨_, bytes⟩ := firstWord
  rw [bytes, decodeFixed_low, slot]

/-- Recovery finds more entries in a block than it has puts, whatever the block. -/
theorem keyBlock_never_decodesAll (list : SubmitList) (nullKey : Option Bytes) (dataSize : Nat)
    (extra : Bytes) : ¬ list.DecodesAll nullKey dataSize extra := by
  rintro ⟨_, decoded, same⟩
  have nonempty : list.tableSize ≠ 0 := by
    rw [SubmitList.tableSize]
    omega
  rw [decodeAllKeyMeta, list.decodeFixed_build, if_neg nonempty] at decoded
  obtain ⟨_, -, rfl⟩ := Option.map_eq_some_iff.mp decoded
  have count := congrArg length same
  rw [length_map, length_map, length_range, length_mapIdx, SubmitList.tableSize] at count
  omega

/-- One put with the value `[118]` and the key `[107]`: two slots and five bytes. -/
theorem one_put_decodes_as_eight :
    (∃ metas, decodeAllKeyMeta (some []) 16 (onePutList [118] (by decide)).buildKeyBlock =
        some metas ∧ metas.length = 8) ∧
      ¬ (onePutList [118] (by decide)).DecodesAll (some []) 16 [] := by
  have decoded : ∃ metas, decodeAllKeyMeta (some []) 16
      (onePutList [118] (by decide)).buildKeyBlock = some metas ∧ metas.length = 8 :=
    ⟨_, rfl, rfl⟩
  refine ⟨decoded, ?_⟩
  rintro ⟨_, same, entries⟩
  obtain ⟨_, decoded, count⟩ := decoded
  rw [append_nil, decoded] at same
  obtain rfl := Option.some.inj same
  have lengths := congrArg length entries
  rw [length_map, count] at lengths
  revert lengths
  decide

end InsDb
