import InsDb.TableLoading

/-!
# What recovery reads of a table

`LoadBeginsKeysAndCLeanupSKTableMeta` and `ReadSKTableInfo` on the images that the program
writes: the first table of a new database, the flushed tables and the header of an emptied one.
-/

namespace InsDb

open InsDb.Library List
open Varint (Bytes)
open SKTableHeader (flagCompression)

/-- `BuildFirstSKTable`, before the padding. -/
def firstSKTable (largestSeqNum preallocID : Nat) : DeviceTable where
  header :=
    { crc1 := 0, crc2 := 0, nrKey := 0, info2 := sktdfBeginKeyOffset
      compStart := sktdfBeginKeyOffset, sktSize := 2, largestSeqNum := largestSeqNum
      nextID := 0, preallocID := preallocID }
  body := encodeFixed16 0

def buildFirstSKTable (crc32c : Bytes → Nat) (alignShift : Fin 31)
    (largestSeqNum preallocID : Nat) : Bytes :=
  let contents := ((firstSKTable largestSeqNum preallocID).withChecksums crc32c).bytes
  contents ++ List.replicate (paddingSize (kRequestAlignSize alignShift) contents.length) 0xff

/-- What the program writes under the key of a table, with the begin key that the table has in
memory. -/
inductive WrittenTable
  | first (largestSeqNum : UInt64) (preallocID : UInt32)
  | flushed (t : FlushTable) (beginKey : Bytes)

/-- Snappy puts the length in front of what it makes of the data. -/
structure ImageContext extends FlushContext where
  two_le_compress : ∀ compressor ∈ snappy, ∀ data, data ≠ [] →
    2 ≤ (compressor.compress data).length

namespace WrittenTable

def image (context : ImageContext) : WrittenTable → Bytes
  | .first largestSeqNum preallocID =>
    buildFirstSKTable context.crc32c context.alignShift largestSeqNum.toNat preallocID.toNat
  | .flushed t _ => t.image context.toFlushContext

def beginKey : WrittenTable → Bytes
  | .first _ _ => []
  | .flushed _ beginKey => beginKey

def nextID : WrittenTable → Nat
  | .first _ _ => 0
  | .flushed t _ => t.nextID

def preallocID : WrittenTable → Nat
  | .first _ preallocID => preallocID.toNat
  | .flushed t _ => t.preallocID

end WrittenTable

/-- The begin key and the ids that `LoadBeginsKeysAndCLeanupSKTableMeta` takes from a table,
before it looks at other keys of the device.  Its buffer has 2048 bytes. -/
def loadBeginKey (value : Bytes) : Option (Except Status (Bytes × Nat × Nat)) :=
  let buffer := value.take 2048
  if buffer.length < 48 then
    some (.error (.corruption "sktable is invalid"))
  else
    let header := SKTableHeader.decode buffer
    if 2048 < header.compStart then
      some (.error (.notSupported "first key is too big"))
    else
      (beginKeyOf (buffer.drop sktdfBeginKeyOffset)).map fun result =>
        result.map fun beginKey => (beginKey, header.nextID, header.preallocID)

structure SKTableInfo where
  nextID : Nat
  preallocID : Nat
  largestSeqNum : Nat
deriving DecidableEq, Repr

/-- `ReadSKTableInfo`; its buffer takes any table.  Below the first checksummed byte the length
for the checksum would wrap. -/
def readSKTableInfo (crc32c : Bytes → Nat) (value : Bytes) : Option (Except Status SKTableInfo) :=
  let header := SKTableHeader.decode value
  if value.length ≤ header.compStart then
    some (.error (.corruption "invalid compress offset"))
  else if header.compStart < sktdfNrKeyOffset then
    none
  else if unmaskCrc header.crc2 ≠ crc32c
      ((value.drop sktdfNrKeyOffset).take (header.compStart - sktdfNrKeyOffset)) then
    some (.error (.corruption "begin key crc mismstch"))
  else
    some (.ok ⟨header.nextID, header.preallocID, header.largestSeqNum⟩)

namespace WrittenTable

def Accepted (written : WrittenTable) (context : ImageContext) : Prop :=
  loadBeginKey (written.image context) =
      some (.ok (written.beginKey, written.nextID, written.preallocID)) ∧
    ∃ largestSeqNum, readSKTableInfo context.crc32c (written.image context) =
      some (.ok ⟨written.nextID, written.preallocID, largestSeqNum⟩)

end WrittenTable

theorem loadBeginKey_short {v : Bytes} (short : v.length < 48) :
    loadBeginKey v = some (.error (.corruption "sktable is invalid")) := by
  unfold loadBeginKey
  rw [if_pos]
  rw [length_take]
  omega

namespace DeviceTable

variable {image : DeviceTable}

theorem take_bytes (image : DeviceTable) {count : Nat} (header : sktdfBeginKeyOffset ≤ count) :
    image.bytes.take count =
      image.header.encode ++ image.body.take (count - sktdfBeginKeyOffset) := by
  rw [bytes, take_append, take_of_length_le header]
  rfl

theorem loadBeginKey_bytes (fits : image.header.Fits) (long : 48 ≤ image.bytes.length) :
    loadBeginKey image.bytes = if 2048 < image.header.compStart then
        some (.error (.notSupported "first key is too big"))
      else
        (beginKeyOf (image.body.take (2048 - sktdfBeginKeyOffset))).map fun result =>
          result.map fun beginKey => (beginKey, image.header.nextID, image.header.preallocID) := by
  have enough : ¬ (image.bytes.take 2048).length < 48 := by
    rw [length_take]
    omega
  unfold loadBeginKey
  rw [if_neg enough, image.take_bytes (by decide), SKTableHeader.decode_encode fits,
    SKTableHeader.drop_encode]

theorem drop_eight_setCrcs (image : DeviceTable) (crc1 crc2 : Nat) :
    ((image.setCrc2 crc2).setCrc1 crc1).bytes.drop sktdfNrKeyOffset =
      image.bytes.drop sktdfNrKeyOffset := by
  have twice : sktdfNrKeyOffset = 4 + 4 := rfl
  simp only [bytes, SKTableHeader.encode, setCrc1, setCrc2, append_assoc, twice, ← drop_drop]
  simp only [drop_left' (length_encodeFixed32 _)]

theorem take_header (image : DeviceTable) :
    (image.bytes.drop sktdfNrKeyOffset).take (sktdfBeginKeyOffset - sktdfNrKeyOffset) =
      image.header.encode.drop sktdfNrKeyOffset := by
  have length : image.header.encode.length = sktdfBeginKeyOffset := rfl
  rw [bytes, drop_append_of_le_length (by rw [length]; decide)]
  apply take_left'
  rw [length_drop, length]

theorem length_bytes (image : DeviceTable) :
    image.bytes.length = sktdfBeginKeyOffset + image.body.length :=
  length_append

theorem length_setCrc1 (image : DeviceTable) (crc1 : Nat) :
    (image.setCrc1 crc1).bytes.length = image.bytes.length := rfl

theorem length_setCrc2 (image : DeviceTable) (crc2 : Nat) :
    (image.setCrc2 crc2).bytes.length = image.bytes.length := rfl

theorem length_withChecksums (crc32c : Bytes → Nat) (image : DeviceTable) :
    (image.withChecksums crc32c).bytes.length = image.bytes.length := by
  by_cases notStarted : image.header.compStart = 0
  · rw [withChecksums, if_pos notStarted]
  · rw [withChecksums, if_neg notStarted, withCrc1, length_setCrc1, withCrc2, length_setCrc2]

theorem readSKTableInfo_bytes {crc32c : Bytes → Nat} (fits : image.header.Fits)
    (inside : image.header.compStart < image.bytes.length)
    (started : sktdfNrKeyOffset ≤ image.header.compStart)
    (checksum : unmaskCrc image.header.crc2 = crc32c ((image.bytes.drop sktdfNrKeyOffset).take
      (image.header.compStart - sktdfNrKeyOffset))) :
    readSKTableInfo crc32c image.bytes =
      some (.ok ⟨image.header.nextID, image.header.preallocID, image.header.largestSeqNum⟩) := by
  unfold readSKTableInfo
  rw [decode_bytes fits]
  rw [if_neg (Nat.not_le.mpr inside), if_neg (Nat.not_lt.mpr started),
    if_neg (not_not.mpr checksum)]

theorem readSKTableInfo_withChecksums {crc32c : Bytes → Nat}
    (crc32c_lt : ∀ bytes, crc32c bytes < 2 ^ 32) (fits : image.header.Fits)
    (started : sktdfNrKeyOffset ≤ image.header.compStart)
    (inside : image.header.compStart < image.bytes.length) :
    readSKTableInfo crc32c (image.withChecksums crc32c).bytes =
      some (.ok ⟨image.header.nextID, image.header.preallocID, image.header.largestSeqNum⟩) := by
  have nonzero : image.header.compStart ≠ 0 := by
    unfold sktdfNrKeyOffset at started
    omega
  obtain ⟨crc1, crc2, sealed, accepted, checksum⟩ := withChecksums_eq crc32c_lt fits nonzero
  rw [← image.drop_eight_setCrcs crc1 crc2] at checksum
  rw [sealed] at accepted ⊢
  exact readSKTableInfo_bytes accepted.fits inside started checksum

theorem loadBeginKey_withChecksums {crc32c : Bytes → Nat}
    (crc32c_lt : ∀ bytes, crc32c bytes < 2 ^ 32) (fits : image.header.Fits)
    (started : image.header.compStart ≠ 0) (long : 48 ≤ image.bytes.length) {rest : Bytes}
    (zeros : image.body = 0 :: 0 :: rest) :
    loadBeginKey (image.withChecksums crc32c).bytes = if 2048 < image.header.compStart then
        some (.error (.notSupported "first key is too big"))
      else
        some (.ok ([], image.header.nextID, image.header.preallocID)) := by
  obtain ⟨_, _, sealed, accepted, -⟩ := withChecksums_eq crc32c_lt fits started
  rw [sealed] at accepted ⊢
  have noKey : beginKeyOf (image.body.take (2048 - sktdfBeginKeyOffset)) = some (.ok []) := by
    rw [zeros]
    rfl
  rw [loadBeginKey_bytes accepted.fits long]
  change (if 2048 < image.header.compStart then _ else
    (beginKeyOf (image.body.take (2048 - sktdfBeginKeyOffset))).map _) = _
  rw [noKey]
  rfl

end DeviceTable

namespace FlushTable

variable (t : FlushTable)

theorem length_imageWith (context : FlushContext) (flag : Nat) (rest : Bytes) :
    (t.imageWith context flag rest).bytes.length =
      sizeAlignment context.alignShift (compressionStart t.rows + rest.length) := by
  have start := compressionStart_bounds t.rows
  have aligned :=
    (sizeAlignment_bounds context.alignShift (compressionStart t.rows + rest.length)).1
  rw [DeviceTable.length_bytes, imageWith, length_append, length_append, t.length_front, alignment,
    length_map, length_range]
  omega

theorem two_le_length_rest : 2 ≤ t.rest.length := by
  have start := compressionStart_bounds t.rows
  have whole := t.length_rest
  have stored : infoTwoOffset t.rows + 2 ≤
      sktdfBeginKeyOffset + (storedRows t.rows).length := by
    simp only [infoTwoOffset, storedRows, infoTwo, length_append, length_encodeFixed16]
    omega
  omega

theorem exists_imageWith (context : ImageContext)
    (kept : t.rows.length % 2 ^ 16 ≠ 0 ∨ t.sktid = 1) : ∃ flag rest,
      t.deviceFormatBuilder context.toFlushContext =
          t.imageWith context.toFlushContext flag rest ∧
        flag ≤ flagCompression ∧ rest.length ≤ t.rest.length ∧ 2 ≤ rest.length := by
  have long := t.two_le_length_rest
  have nonempty : t.rest ≠ [] := ne_nil_of_length_pos (by omega)
  have plain : 0 ≤ flagCompression ∧ t.rest.length ≤ t.rest.length ∧
      2 ≤ t.rest.length := ⟨Nat.zero_le _, Nat.le_refl _, long⟩
  rw [deviceFormatBuilder, if_pos kept]
  cases compression : context.snappy with
  | none => exact ⟨0, t.rest, rfl, plain⟩
  | some snappy =>
    dsimp only
    by_cases saves : (snappy.compress t.rest).length < t.rest.length - t.rest.length / 8
    · rw [if_pos saves]
      have output := context.two_le_compress snappy compression t.rest nonempty
      exact ⟨flagCompression, snappy.compress t.rest, rfl, Nat.le_refl _,
        saves.le.trans (Nat.sub_le _ _), output⟩
    rw [if_neg saves]
    exact ⟨0, t.rest, rfl, plain⟩

theorem length_encodeVarint16_pos (v : Nat) : 0 < (encodeVarint16 v).length := by
  unfold encodeVarint16 Varint.encode
  split_ifs <;> exact Nat.zero_lt_succ _

theorem front_zeros (nonempty : t.rows ≠ []) : ∃ later, t.front = 0 :: 0 :: later ∧
    4 ≤ later.length := by
  obtain ⟨first, _, rows⟩ := exists_cons_of_ne_nil nonempty
  have front : t.front = encodeKeyRow [] 0 first := by
    rw [FlushTable.front, compressionStart, storedRows, rows, tableRows, encodeKeyRows,
      head?_cons, Option.map_some, Option.getD_some, Nat.add_sub_cancel_left,
      flatten_cons, append_assoc, take_left]
  refine ⟨encodeFixed16 (4 + (encodeKey [] first.key ++ first.colInfo).length) ++
    (encodeKey [] first.key ++ first.colInfo), front, ?_⟩
  have shared := length_encodeVarint16_pos (sharedLength [] first.key % 2 ^ 16)
  have nonShared := length_encodeVarint16_pos
    ((first.key.length - sharedLength [] first.key % 2 ^ 16) % 2 ^ 16)
  simp only [encodeKey, length_append, length_encodeFixed16]
  omega

/-- What recovery makes of a kept table whose image has 48 bytes and begins with two zeros. -/
theorem accepted_of_long (context : ImageContext)
    (kept : t.rows.length % 2 ^ 16 ≠ 0 ∨ t.sktid = 1)
    (long : 48 ≤ (t.deviceFormatBuilder context.toFlushContext).bytes.length)
    (zeros : ∃ rest, (t.deviceFormatBuilder context.toFlushContext).body = 0 :: 0 :: rest) :
    loadBeginKey (t.image context.toFlushContext) = (if 2048 < compressionStart t.rows then
          some (.error (.notSupported "first key is too big"))
        else
          some (.ok ([], t.nextID, t.preallocID))) ∧
      readSKTableInfo context.crc32c (t.image context.toFlushContext) =
        some (.ok ⟨t.nextID, t.preallocID, t.largestSeqNum⟩) := by
  obtain ⟨flag, rest, image, flagFits, restFits, some⟩ := t.exists_imageWith context kept
  obtain ⟨_, zeros⟩ := zeros
  have fits := t.header_fits context.toFlushContext flagFits restFits
  have start := compressionStart_bounds t.rows
  have length := t.length_imageWith context.toFlushContext flag rest
  have aligned :=
    (sizeAlignment_bounds context.alignShift (compressionStart t.rows + rest.length)).1
  rw [image] at long zeros
  rw [FlushTable.image, image]
  constructor
  · exact DeviceTable.loadBeginKey_withChecksums context.crc32c_lt fits
      (t.started context.toFlushContext flag rest) long zeros
  apply DeviceTable.readSKTableInfo_withChecksums context.crc32c_lt fits
  · change sktdfNrKeyOffset ≤ compressionStart t.rows
    unfold sktdfNrKeyOffset
    unfold sktdfBeginKeyOffset at start
    omega
  change compressionStart t.rows < _
  omega

theorem long_of_rows (context : ImageContext) (nonempty : t.rows ≠ [])
    (kept : t.rows.length % 2 ^ 16 ≠ 0 ∨ t.sktid = 1) :
    48 ≤ (t.deviceFormatBuilder context.toFlushContext).bytes.length ∧
      ∃ rest, (t.deviceFormatBuilder context.toFlushContext).body = 0 :: 0 :: rest := by
  obtain ⟨flag, rest, image, -, -, some⟩ := t.exists_imageWith context kept
  obtain ⟨_, front, _⟩ := t.front_zeros nonempty
  have frontLength := t.length_front
  have aligned :=
    (sizeAlignment_bounds context.alignShift (compressionStart t.rows + rest.length)).1
  rw [front, length_cons, length_cons] at frontLength
  unfold sktdfBeginKeyOffset at frontLength
  rw [image, length_imageWith]
  refine ⟨by omega, _, show t.front ++ _ = 0 :: 0 :: _ by rw [front]; rfl⟩

/-- The first table without rows has two bytes behind its header, which are not compressed. -/
theorem builder_of_noRows (context : ImageContext) (noRows : t.rows = []) (first : t.sktid = 1) :
    (t.deviceFormatBuilder context.toFlushContext).bytes.length =
        sizeAlignment context.alignShift 42 ∧
      ∃ rest, (t.deviceFormatBuilder context.toFlushContext).body = 0 :: 0 :: rest := by
  have front : t.front = [] := by
    rw [FlushTable.front, noRows]
    rfl
  have rest : t.rest = [0, 0] := by
    rw [FlushTable.rest, noRows]
    rfl
  have start : compressionStart t.rows = 40 := by
    rw [noRows]
    rfl
  have plain : t.deviceFormatBuilder context.toFlushContext =
      t.imageWith context.toFlushContext 0 t.rest := by
    rw [deviceFormatBuilder, if_pos (Or.inr first)]
    cases compression : context.snappy with
    | none => rfl
    | some snappy =>
      have output := context.two_le_compress snappy compression t.rest (by simp [rest])
      dsimp only
      rw [if_neg]
      rw [rest] at output ⊢
      exact Nat.not_lt.mpr output
  have body : (t.imageWith context.toFlushContext 0 t.rest).body = t.front ++ (t.rest ++ _) := rfl
  rw [plain, length_imageWith, start, body, rest, front]
  exact ⟨rfl, _, rfl⟩

end FlushTable

theorem le_sizeAlignment_iff (alignShift : Fin 31) :
    48 ≤ sizeAlignment alignShift 42 ↔ 3 ≤ alignShift.val := by
  revert alignShift
  decide

theorem le_paddedSize_iff (alignShift : Fin 31) :
    48 ≤ 42 + paddingSize (kRequestAlignSize alignShift) 42 ↔ 3 ≤ alignShift.val := by
  revert alignShift
  decide

namespace WrittenTable

/-- A flushed table with an empty begin key that was not emptied, of which the first row ends
within the buffer.  Without a row, and for the table of a new database, only the alignment
makes the image long enough. -/
def Recoverable (alignShift : Fin 31) : WrittenTable → Prop
  | .first _ _ => 3 ≤ alignShift.val
  | .flushed t beginKey =>
    (t.rows.length % 2 ^ 16 ≠ 0 ∨ t.sktid = 1) ∧ beginKey = [] ∧
      if t.rows = [] then 3 ≤ alignShift.val else compressionStart t.rows ≤ 2048

theorem length_first_image (context : ImageContext) (largestSeqNum : UInt64)
    (preallocID : UInt32) :
    ((first largestSeqNum preallocID).image context).length =
      42 + paddingSize (kRequestAlignSize context.alignShift) 42 := by
  have contents := DeviceTable.length_withChecksums context.crc32c
    (firstSKTable largestSeqNum.toNat preallocID.toNat)
  have unpadded : (firstSKTable largestSeqNum.toNat preallocID.toNat).bytes.length = 42 := rfl
  rw [image, buildFirstSKTable, length_append, length_replicate, contents, unpadded]

theorem firstSKTable_fits (largestSeqNum : UInt64) (preallocID : UInt32) :
    (firstSKTable largestSeqNum.toNat preallocID.toNat).header.Fits where
  crc1_lt := Nat.two_pow_pos 32
  crc2_lt := Nat.two_pow_pos 32
  nrKey_lt := Nat.two_pow_pos 32
  info2_lt := show 40 < 2 ^ 32 by decide
  compStart_lt := show 40 < 2 ^ 32 by decide
  sktSize_lt := show 2 < 2 ^ 32 by decide
  largestSeqNum_lt := largestSeqNum.toNat_lt
  nextID_lt := Nat.two_pow_pos 32
  preallocID_lt := preallocID.toNat_lt

/-- The table that recovery finds in the image of the first one: the padding is part of its
body. -/
theorem exists_first_image (context : ImageContext) (largestSeqNum : UInt64)
    (preallocID : UInt32) :
    ∃ (table : DeviceTable) (padding : Bytes),
      (first largestSeqNum preallocID).image context = table.bytes ∧ table.header.Fits ∧
        table.header.compStart = sktdfBeginKeyOffset ∧ table.body = 0 :: 0 :: padding ∧
        table.header.nextID = 0 ∧ table.header.preallocID = preallocID.toNat ∧
        unmaskCrc table.header.crc2 = context.crc32c
          ((table.bytes.drop sktdfNrKeyOffset).take
            (table.header.compStart - sktdfNrKeyOffset)) := by
  have fits := firstSKTable_fits largestSeqNum preallocID
  generalize isTable : firstSKTable largestSeqNum.toNat preallocID.toNat = table at fits
  have start : table.header.compStart = sktdfBeginKeyOffset := by
    subst isTable
    rfl
  obtain ⟨crc1, crc2, sealed, accepted, checksum⟩ := DeviceTable.withChecksums_eq
    context.crc32c_lt fits (by rw [start]; decide)
  generalize isPadding : List.replicate (paddingSize (kRequestAlignSize context.alignShift)
    (table.withChecksums context.crc32c).bytes.length) (0xff : UInt8) = padding
  refine ⟨⟨((table.setCrc2 crc2).setCrc1 crc1).header, table.body ++ padding⟩, padding,
    ?_, ?_, start, ?_, ?_, ?_, ?_⟩
  · rw [image, buildFirstSKTable, isTable, isPadding, sealed, DeviceTable.bytes,
      DeviceTable.bytes, append_assoc]
    rfl
  · rw [sealed] at accepted
    exact accepted.fits
  · rw [← isTable]
    rfl
  · rw [← isTable]
    rfl
  · rw [← isTable]
    rfl
  · -- The checksum covers a part of the header, in front of the padding.
    have same := table.drop_eight_setCrcs crc1 crc2
    rw [start, ← same, DeviceTable.take_header] at checksum
    refine checksum.trans (congrArg context.crc32c ?_)
    change _ = List.take (table.header.compStart - sktdfNrKeyOffset) _
    rw [start, DeviceTable.take_header]

theorem first_accepted (context : ImageContext) (largestSeqNum : UInt64) (preallocID : UInt32)
    (long : 48 ≤ ((first largestSeqNum preallocID).image context).length) :
    (first largestSeqNum preallocID).Accepted context := by
  obtain ⟨table, padding, bytes, fits, start, zeros, nextID, prealloc, checksum⟩ :=
    exists_first_image context largestSeqNum preallocID
  rw [bytes] at long
  constructor
  · have noKey : beginKeyOf (table.body.take (2048 - sktdfBeginKeyOffset)) = some (.ok []) := by
      rw [zeros]
      rfl
    rw [bytes, DeviceTable.loadBeginKey_bytes fits long, start, if_neg (by decide), noKey,
      nextID, prealloc]
    rfl
  · refine ⟨table.header.largestSeqNum, ?_⟩
    rw [bytes, DeviceTable.readSKTableInfo_bytes fits
      (by rw [start, sktdfBeginKeyOffset]; omega) (by rw [start]; decide) checksum, nextID,
      prealloc]
    rfl

theorem emptied_not_accepted (context : ImageContext) {t : FlushTable} {beginKey : Bytes}
    (emptied : ¬ (t.rows.length % 2 ^ 16 ≠ 0 ∨ t.sktid = 1)) :
    ¬ (flushed t beginKey).Accepted context := by
  rintro ⟨-, largestSeqNum, info⟩
  generalize isTable : t.emptiedImage context.toFlushContext = table
  have fits : table.header.Fits := by
    subst isTable
    exact
      { crc1_lt := Nat.mod_lt _ (Nat.two_pow_pos 32)
        crc2_lt := Nat.mod_lt _ (Nat.two_pow_pos 32)
        nrKey_lt := Nat.two_pow_pos 32
        info2_lt := Nat.two_pow_pos 32
        compStart_lt := Nat.two_pow_pos 32
        sktSize_lt := Nat.two_pow_pos 32
        largestSeqNum_lt := Nat.two_pow_pos 64
        nextID_lt := t.nextID_lt
        preallocID_lt := t.preallocID_lt }
  have start : table.header.compStart = 0 := by
    subst isTable
    rfl
  have bytes : (flushed t beginKey).image context = table.bytes := by
    rw [image, FlushTable.image, FlushTable.deviceFormatBuilder, if_neg emptied, isTable,
      DeviceTable.withChecksums, if_pos start]
  have long : ¬ table.bytes.length ≤ 0 := by
    rw [table.length_bytes]
    unfold sktdfBeginKeyOffset
    omega
  rw [bytes, readSKTableInfo, DeviceTable.decode_bytes fits, start, if_neg long,
    if_pos (by decide)] at info
  cases info

theorem accepted_iff_of_long (context : ImageContext) {t : FlushTable} (beginKey : Bytes)
    (kept : t.rows.length % 2 ^ 16 ≠ 0 ∨ t.sktid = 1)
    (long : 48 ≤ (t.deviceFormatBuilder context.toFlushContext).bytes.length)
    (zeros : ∃ rest, (t.deviceFormatBuilder context.toFlushContext).body = 0 :: 0 :: rest) :
    (flushed t beginKey).Accepted context ↔
      beginKey = [] ∧ compressionStart t.rows ≤ 2048 := by
  obtain ⟨loaded, info⟩ := t.accepted_of_long context kept long zeros
  constructor
  · intro accepted
    have found := accepted.1
    rw [image, loaded] at found
    by_cases tooLong : 2048 < compressionStart t.rows
    · rw [if_pos tooLong] at found
      cases found
    rw [if_neg tooLong] at found
    refine ⟨?_, Nat.not_lt.mp tooLong⟩
    injection found with found
    injection found with found
    exact (Prod.mk.inj found).1.symm
  · rintro ⟨rfl, short⟩
    refine ⟨?_, t.largestSeqNum, info⟩
    rw [image, loaded, if_neg (Nat.not_lt.mpr short)]
    rfl

/-- Recovery accepts exactly the images of tables that were not emptied, with an empty begin key,
a short first row and, without one, an alignment of at least eight bytes: the distances in front
of the first key are taken for the lengths of its parts. -/
theorem image_accepted_iff (written : WrittenTable) (context : ImageContext) :
    written.Accepted context ↔ written.Recoverable context.alignShift := by
  cases written with
  | first largestSeqNum preallocID =>
    have length := length_first_image context largestSeqNum preallocID
    rw [Recoverable, ← le_paddedSize_iff, ← length]
    refine ⟨?_, first_accepted context largestSeqNum preallocID⟩
    intro accepted
    by_contra short
    have found := accepted.1
    rw [loadBeginKey_short (Nat.lt_of_not_le short)] at found
    cases found
  | flushed t beginKey =>
    by_cases kept : t.rows.length % 2 ^ 16 ≠ 0 ∨ t.sktid = 1
    · rw [Recoverable, and_iff_right kept]
      by_cases noRows : t.rows = []
      · have first : t.sktid = 1 := kept.resolve_left (by simp [noRows])
        obtain ⟨length, zeros⟩ := t.builder_of_noRows context noRows first
        have start : compressionStart t.rows ≤ 2048 := by
          rw [noRows]
          decide
        rw [if_pos noRows, ← le_sizeAlignment_iff, ← length]
        by_cases long : 48 ≤ (t.deviceFormatBuilder context.toFlushContext).bytes.length
        · rw [accepted_iff_of_long context beginKey kept long zeros]
          simp [start, long]
        · have short : ((flushed t beginKey).image context).length < 48 := by
            rw [image, FlushTable.image, DeviceTable.length_withChecksums]
            exact Nat.lt_of_not_le long
          refine ⟨?_, fun recoverable => absurd recoverable.2 long⟩
          intro accepted
          have found := accepted.1
          rw [loadBeginKey_short short] at found
          cases found
      · obtain ⟨long, zeros⟩ := t.long_of_rows context noRows kept
        rw [if_neg noRows, accepted_iff_of_long context beginKey kept long zeros]
    · refine ⟨?_, fun recoverable => absurd recoverable.1 kept⟩
      exact fun accepted => absurd accepted (emptied_not_accepted context kept)

/-- At an alignment of four bytes recovery rejects the table that a new database begins with. -/
theorem firstTable_not_accepted :
    ¬ ∃ context : ImageContext, context.alignShift = 2 ∧ (first 1 2).Accepted context := by
  rintro ⟨context, four, accepted⟩
  have length := length_first_image context 1 2
  have found := accepted.1
  rw [loadBeginKey_short] at found
  · cases found
  rw [length, four]
  decide

end WrittenTable

end InsDb
