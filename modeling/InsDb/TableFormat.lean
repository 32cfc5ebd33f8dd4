import InsDb.Coding

/-!
# Device tables as bytes

The image of a table that a flush writes: forty bytes of numbers, the rows, the decoding base
key and the offsets of the rows, with everything behind the first row compressed if that saves
an eighth.  A loaded table is read in two ways, by its array of offsets and by the distances
from row to row.
-/

namespace InsDb

open InsDb.Library List
open Varint (Bytes)

@[ext]
structure SKTableHeader where
  crc1 : Nat
  crc2 : Nat
  nrKey : Nat
  info2 : Nat
  compStart : Nat
  sktSize : Nat
  largestSeqNum : Nat
  nextID : Nat
  preallocID : Nat
deriving DecidableEq, Repr

namespace SKTableHeader

structure Fits (header : SKTableHeader) : Prop where
  crc1_lt : header.crc1 < 2 ^ 32
  crc2_lt : header.crc2 < 2 ^ 32
  nrKey_lt : header.nrKey < 2 ^ 32
  info2_lt : header.info2 < 2 ^ 32
  compStart_lt : header.compStart < 2 ^ 32
  sktSize_lt : header.sktSize < 2 ^ 32
  largestSeqNum_lt : header.largestSeqNum < 2 ^ 64
  nextID_lt : header.nextID < 2 ^ 32
  preallocID_lt : header.preallocID < 2 ^ 32

def encode (header : SKTableHeader) : Bytes :=
  encodeFixed32 header.crc1 ++ (encodeFixed32 header.crc2 ++ (encodeFixed32 header.nrKey ++
    (encodeFixed32 header.info2 ++ (encodeFixed32 header.compStart ++
      (encodeFixed32 header.sktSize ++ (encodeFixed64 header.largestSeqNum ++
        (encodeFixed32 header.nextID ++ encodeFixed32 header.preallocID)))))))

@[simp] theorem length_encode (header : SKTableHeader) : header.encode.length = 40 := rfl

theorem drop_encode (header : SKTableHeader) (body : Bytes) :
    (header.encode ++ body).drop sktdfBeginKeyOffset = body :=
  drop_left' header.length_encode

def decode (image : Bytes) : SKTableHeader where
  crc1 := decodeFixed 4 image
  crc2 := decodeFixed 4 (image.drop 4)
  nrKey := decodeFixed 4 (image.drop sktdfNrKeyOffset)
  info2 := decodeFixed 4 (image.drop 12)
  compStart := decodeFixed 4 (image.drop 16)
  sktSize := decodeFixed 4 (image.drop 20)
  largestSeqNum := decodeFixed 8 (image.drop 24)
  nextID := decodeFixed 4 (image.drop 32)
  preallocID := decodeFixed 4 (image.drop 36)

theorem decode_encode {header : SKTableHeader} (fits : header.Fits) (body : Bytes) :
    decode (header.encode ++ body) = header := by
  have number : ∀ {v : Nat} (rest : Bytes), v < 2 ^ 32 →
      decodeFixed 4 (encodeFixed32 v ++ rest) = v := by
    intro _ rest small
    rw [decodeFixed_encodeFixed32, Nat.mod_eq_of_lt small]
  have seq : ∀ rest, decodeFixed 8 (encodeFixed64 header.largestSeqNum ++ rest) =
      header.largestSeqNum := by
    intro _
    rw [decodeFixed_encodeFixed64, Nat.mod_eq_of_lt fits.largestSeqNum_lt]
  apply SKTableHeader.ext
  · exact number _ fits.crc1_lt
  · exact number _ fits.crc2_lt
  · exact number _ fits.nrKey_lt
  · exact number _ fits.info2_lt
  · exact number _ fits.compStart_lt
  · exact number _ fits.sktSize_lt
  · exact seq _
  · exact number _ fits.nextID_lt
  · exact number _ fits.preallocID_lt

def flagCompression : Nat := 2 ^ 31

def setSizes (header : SKTableHeader) (info2 sktSize : Nat) : SKTableHeader :=
  { header with info2 := info2, sktSize := sktSize }

def uncompressed (header : SKTableHeader) (ulength : Nat) : SKTableHeader :=
  header.setSizes (header.info2 - flagCompression) ulength

theorem Fits.setSizes {header : SKTableHeader} (fits : header.Fits) {info2 sktSize : Nat}
    (info2_lt : info2 < 2 ^ 32) (sktSize_lt : sktSize < 2 ^ 32) :
    (header.setSizes info2 sktSize).Fits :=
  { fits with info2_lt := info2_lt, sktSize_lt := sktSize_lt }

theorem Fits.uncompressed {header : SKTableHeader} (fits : header.Fits) {ulength : Nat}
    (small : ulength < 2 ^ 32) : (header.uncompressed ulength).Fits :=
  fits.setSizes ((Nat.sub_le _ _).trans_lt fits.info2_lt) small

end SKTableHeader

open SKTableHeader (flagCompression)

def infoTwo (rows : List TableRow) : Bytes :=
  encodeFixed16 (baseKey rows).length ++ (baseKey rows ++
    (rowOffsets sktdfBeginKeyOffset (tableRows rows)).flatMap encodeFixed32)

def storedRows (rows : List TableRow) : Bytes := (tableRows rows).flatten ++ infoTwo rows

def infoTwoOffset (rows : List TableRow) : Nat :=
  sktdfBeginKeyOffset + (tableRows rows).flatten.length

/-- `compression_start_ofs`: the end of the first row. -/
def compressionStart (rows : List TableRow) : Nat :=
  sktdfBeginKeyOffset + ((tableRows rows).head?.map List.length).getD 0

/-- A table that a flush has built; `SanitizeOptions` keeps the size of a table within 2 MiB. -/
structure FlushTable where
  sktid : Nat
  rows : List TableRow
  largestSeqNum : Nat
  nextID : Nat
  preallocID : Nat
  fits : sktdfBeginKeyOffset + (storedRows rows).length ≤ 2 * 1024 * 1024
  largestSeqNum_lt : largestSeqNum < 2 ^ 64
  nextID_lt : nextID < 2 ^ 32
  preallocID_lt : preallocID < 2 ^ 32

namespace FlushTable

variable (t : FlushTable)

def front : Bytes :=
  (storedRows t.rows).take (compressionStart t.rows - sktdfBeginKeyOffset)

def rest : Bytes :=
  (storedRows t.rows).drop (compressionStart t.rows - sktdfBeginKeyOffset)

def header (stale : Nat × Nat) (flag sktSize : Nat) : SKTableHeader where
  crc1 := stale.1 % 2 ^ 32
  crc2 := stale.2 % 2 ^ 32
  -- `stored_key_count` has 16 bits
  nrKey := t.rows.length % 2 ^ 16
  info2 := infoTwoOffset t.rows + flag
  compStart := compressionStart t.rows
  sktSize := sktSize
  largestSeqNum := t.largestSeqNum
  nextID := t.nextID
  preallocID := t.preallocID

end FlushTable

structure DeviceTable where
  header : SKTableHeader
  body : Bytes
deriving DecidableEq, Repr

namespace DeviceTable

def bytes (image : DeviceTable) : Bytes := image.header.encode ++ image.body

def setCrc1 (image : DeviceTable) (crc1 : Nat) : DeviceTable :=
  { image with header := { image.header with crc1 := crc1 } }

def setCrc2 (image : DeviceTable) (crc2 : Nat) : DeviceTable :=
  { image with header := { image.header with crc2 := crc2 } }

def withCrc2 (crc32c : Bytes → Nat) (image : DeviceTable) : DeviceTable :=
  image.setCrc2 (maskCrc (crc32c
    ((image.bytes.drop sktdfNrKeyOffset).take (image.header.compStart - sktdfNrKeyOffset))))

def withCrc1 (crc32c : Bytes → Nat) (image : DeviceTable) : DeviceTable :=
  image.setCrc1 (maskCrc (crc32c
    ((image.bytes.drop 4).take (image.header.compStart + image.header.sktSize - 4))))

/-- `FlushSKTableMem` computes the checksums before it writes the table. -/
def withChecksums (crc32c : Bytes → Nat) (image : DeviceTable) : DeviceTable :=
  if image.header.compStart = 0 then image else (image.withCrc2 crc32c).withCrc1 crc32c

end DeviceTable

/-- What a flush depends on besides the table: the checksum, the compression, the alignment of
requests, and what the memory held where nothing is written. -/
structure FlushContext where
  crc32c : Bytes → Nat
  crc32c_lt : ∀ bytes, crc32c bytes < 2 ^ 32
  snappy : Option Snappy
  alignShift : Fin 31
  stale : Nat × Nat
  slack : Nat → UInt8

namespace FlushTable

variable (t : FlushTable) (context : FlushContext)

def alignment (size : Nat) : Bytes :=
  (List.range (sizeAlignment context.alignShift size - size)).map context.slack

/-- A kept table with `rest` behind its first row. -/
def imageWith (flag : Nat) (rest : Bytes) : DeviceTable where
  header := t.header context.stale flag rest.length
  body := t.front ++
    (rest ++ alignment context (compressionStart t.rows + rest.length))

def emptiedImage : DeviceTable where
  header :=
    { crc1 := context.stale.1 % 2 ^ 32, crc2 := context.stale.2 % 2 ^ 32, nrKey := 0
      info2 := 0, compStart := 0, sktSize := 0, largestSeqNum := 0
      nextID := t.nextID, preallocID := t.preallocID }
  body := alignment context sktdfBeginKeyOffset

/-- `DeviceFormatBuilder`.  The rest is compressed if that saves an eighth of it. -/
def deviceFormatBuilder : DeviceTable :=
  if t.rows.length % 2 ^ 16 ≠ 0 ∨ t.sktid = 1 then
    match context.snappy with
    | none => t.imageWith context 0 t.rest
    | some snappy =>
      if (snappy.compress t.rest).length < t.rest.length - t.rest.length / 8 then
        t.imageWith context flagCompression (snappy.compress t.rest)
      else
        t.imageWith context 0 t.rest
  else
    t.emptiedImage context

def image : Bytes := ((t.deviceFormatBuilder context).withChecksums context.crc32c).bytes

end FlushTable

/-- `SKTDFCacheNode` of a table that comes from the device.  A checksum that does not fit
aborts, and a table without a compression start makes the checksum run out of the buffer. -/
def loadTable (crc32c : Bytes → Nat) (snappy : Option Snappy) (image : Bytes) : Option Bytes :=
  let header := SKTableHeader.decode image
  if header.compStart = 0 then
    none
  else if unmaskCrc header.crc1 ≠
      crc32c ((image.drop 4).take (header.compStart + header.sktSize - 4)) then
    none
  else if header.info2 < flagCompression then
    some image
  else
    snappy.map fun snappy =>
      let rest := snappy.uncompress ((image.drop header.compStart).take header.sktSize)
      (header.uncompressed rest.length).encode ++
        ((image.drop sktdfBeginKeyOffset).take (header.compStart - sktdfBeginKeyOffset) ++ rest)

/-- `GetKeyWithOffset`: the row at `offset` and the offset of the next one, 0 after the last. -/
def getKeyWithOffset (data : Bytes) (offset : Nat) : Option (TableRow × Nat) := do
  let info2 := (SKTableHeader.decode data).info2
  let (_, row) ← takeFixed 2 (data.drop offset)
  let (size, row) ← takeFixed 2 row
  -- the size of the slice would wrap
  if size < 4 then none
  let (keyInfo, _) ← takeBytes (size - 4) row
  let (shared, keyInfo) ← getVarint16 keyInfo
  let (sharedPart, _) ← takeBytes shared (data.drop (info2 + 2))
  let (nonShared, keyInfo) ← getVarint16 keyInfo
  let (nonSharedPart, colInfo) ← takeBytes nonShared keyInfo
  return (⟨sharedPart ++ nonSharedPart, colInfo⟩,
    if size + offset = info2 then 0 else size + offset)

def walkOffsets (data : Bytes) : Nat → Bytes → Option (List TableRow)
  | 0, _ => some []
  | count + 1, keyOffset => do
      let (offset, keyOffset) ← takeFixed 4 keyOffset
      let (row, _) ← getKeyWithOffset data offset
      let rows ← walkOffsets data count keyOffset
      return row :: rows

def rowsByOffset (data : Bytes) : Option (List TableRow) := do
  let header := SKTableHeader.decode data
  let (baseSize, infoTwo) ← takeFixed 2 (data.drop header.info2)
  walkOffsets data header.nrKey (infoTwo.drop baseSize)

/-- The rows from `offset` on, as `LoadSKTable` visits them. -/
def followRows (data : Bytes) : Nat → Nat → Option (List TableRow)
  | 0, _ => none
  | fuel + 1, offset => do
      let (row, next) ← getKeyWithOffset data offset
      if next = 0 then
        return [row]
      else
        let rows ← followRows data fuel next
        return row :: rows

/-- A row has at least four bytes, so that the loop ends within as many rounds as there are
bytes. -/
def rowsByDistance (data : Bytes) : Option (List TableRow) :=
  if (SKTableHeader.decode data).nrKey = 0 then
    some []
  else
    followRows data data.length sktdfBeginKeyOffset

namespace DeviceTable

variable {crc32c : Bytes → Nat} {image : DeviceTable}

theorem decode_bytes (fits : image.header.Fits) : SKTableHeader.decode image.bytes = image.header :=
  SKTableHeader.decode_encode fits image.body

theorem drop_bytes (image : DeviceTable) : image.bytes.drop sktdfBeginKeyOffset = image.body :=
  image.header.drop_encode image.body

theorem setCrc1_fits {crc1 : Nat} (fits : image.header.Fits) (small : crc1 < 2 ^ 32) :
    (image.setCrc1 crc1).header.Fits :=
  { fits with crc1_lt := small }

theorem setCrc2_fits {crc2 : Nat} (fits : image.header.Fits) (small : crc2 < 2 ^ 32) :
    (image.setCrc2 crc2).header.Fits :=
  { fits with crc2_lt := small }

theorem drop_four_setCrc1 (image : DeviceTable) (crc1 : Nat) :
    (image.setCrc1 crc1).bytes.drop 4 = image.bytes.drop 4 := by
  simp only [bytes, SKTableHeader.encode, setCrc1, append_assoc]
  rw [drop_left' (length_encodeFixed32 _), drop_left' (length_encodeFixed32 _)]

structure Accepted (crc32c : Bytes → Nat) (image : DeviceTable) : Prop where
  fits : image.header.Fits
  started : image.header.compStart ≠ 0
  checksum : unmaskCrc image.header.crc1 = crc32c
    ((image.bytes.drop 4).take (image.header.compStart + image.header.sktSize - 4))

theorem loadTable_plain {crc32c : Bytes → Nat} (accepted : image.Accepted crc32c)
    (plain : image.header.info2 < flagCompression) (snappy : Option Snappy) :
    loadTable crc32c snappy image.bytes = some image.bytes := by
  unfold loadTable
  rw [decode_bytes accepted.fits]
  rw [if_neg accepted.started, if_neg (not_not.mpr accepted.checksum), if_pos plain]

theorem loadTable_compressed {crc32c : Bytes → Nat} (accepted : image.Accepted crc32c)
    (compressed : flagCompression ≤ image.header.info2) (snappy : Snappy) {front data tail : Bytes}
    (body : image.body = front ++ (snappy.compress data ++ tail))
    (compStart : image.header.compStart = sktdfBeginKeyOffset + front.length)
    (sktSize : image.header.sktSize = (snappy.compress data).length) :
    loadTable crc32c (some snappy) image.bytes =
      some ((image.header.uncompressed data.length).encode ++ (front ++ data)) := by
  have pre : image.body.take (image.header.compStart - sktdfBeginKeyOffset) = front := by
    rw [compStart, Nat.add_sub_cancel_left, body, take_left]
  have behind : (image.bytes.drop image.header.compStart).take image.header.sktSize =
      snappy.compress data := by
    rw [compStart, ← drop_drop, image.drop_bytes, body, drop_left, sktSize, take_left]
  unfold loadTable
  rw [decode_bytes accepted.fits, drop_bytes]
  rw [if_neg accepted.started, if_neg (not_not.mpr accepted.checksum),
    if_neg (Nat.not_lt.mpr compressed), Option.map_some, behind, snappy.lossless, pre]

theorem setCrc1_accepted {crc32c : Bytes → Nat} {crc1 : Nat} (fits : image.header.Fits)
    (started : image.header.compStart ≠ 0) (small : crc1 < 2 ^ 32)
    (checksum : unmaskCrc crc1 = crc32c
      ((image.bytes.drop 4).take (image.header.compStart + image.header.sktSize - 4))) :
    (image.setCrc1 crc1).Accepted crc32c where
  fits := setCrc1_fits fits small
  started := started
  checksum := by
    rw [drop_four_setCrc1]
    exact checksum

theorem withChecksums_eq {crc32c : Bytes → Nat} (crc32c_lt : ∀ bytes, crc32c bytes < 2 ^ 32)
    (fits : image.header.Fits) (started : image.header.compStart ≠ 0) : ∃ crc1 crc2,
      image.withChecksums crc32c = (image.setCrc2 crc2).setCrc1 crc1 ∧
        (image.withChecksums crc32c).Accepted crc32c ∧
        unmaskCrc crc2 = crc32c ((image.bytes.drop sktdfNrKeyOffset).take
          (image.header.compStart - sktdfNrKeyOffset)) := by
  obtain ⟨crc2, begun, small, checksum⟩ : ∃ crc2, image.withCrc2 crc32c = image.setCrc2 crc2 ∧
      crc2 < 2 ^ 32 ∧ unmaskCrc crc2 = crc32c ((image.bytes.drop sktdfNrKeyOffset).take
        (image.header.compStart - sktdfNrKeyOffset)) :=
    ⟨_, rfl, maskCrc_lt _, unmaskCrc_maskCrc (crc32c_lt _)⟩
  refine ⟨_, crc2, by rw [withChecksums, if_neg started, begun, withCrc1], ?_, checksum⟩
  rw [withChecksums, if_neg started, begun, withCrc1]
  exact setCrc1_accepted (setCrc2_fits fits small) started (maskCrc_lt _)
    (unmaskCrc_maskCrc (crc32c_lt _))

end DeviceTable

end InsDb
