import InsDb.Coding
import InsDb.WorkerChain

/-!
# The manifest

At a normal shutdown the manifest takes down the counters, the next internal key of every
worker and the tables in their order; it is stored in as many requests as it needs.  The next
start reads it back, possibly with another number of workers.
-/

namespace InsDb

open InsDb.Library List
open Varint (Bytes)

structure ManifestTable where
  id : Nat
  sktdfSize : Nat
  beginKey : Bytes
deriving DecidableEq, Repr

/-- The numbers are within their types; the size of a begin key is kept in 16 bits. -/
structure ManifestTable.Fits (table : ManifestTable) : Prop where
  id_lt : table.id < 2 ^ 32
  sktdfSize_lt : table.sktdfSize < 2 ^ 32
  beginKey_lt : table.beginKey.length < 2 ^ 16

structure UserKeyComparator where
  less : Bytes → Bytes → Bool
  asymm : ∀ first second, less first second = true → less second first = false

/-- The manifest at a normal shutdown.  The next internal keys are those of
`LogState.storedKeys`; that they are distinct and from the generator holds after every run. -/
structure ManifestState (comparator : UserKeyComparator) where
  tables : List ManifestTable
  nextInSDBKeySeqNum : Nat
  sequenceNumber : Nat
  nextSKTableID : Nat
  workerNextIKeySeqs : List Nat
  tables_fit : ∀ table ∈ tables, table.Fits
  sorted : tables.Pairwise fun first second =>
    comparator.less first.beginKey second.beginKey = true
  nextInSDBKeySeqNum_lt : nextInSDBKeySeqNum < 2 ^ 64
  sequenceNumber_lt : sequenceNumber < 2 ^ 64
  nextSKTableID_lt : nextSKTableID < 2 ^ 32
  workers_lt : workerNextIKeySeqs.length < 2 ^ 31
  nexts_nodup : workerNextIKeySeqs.Nodup
  nexts_bounds : ∀ next ∈ workerNextIKeySeqs,
    kUnusedNextInternalKey ≤ next ∧ next < nextInSDBKeySeqNum
  started : kUnusedNextInternalKey ≤ nextInSDBKeySeqNum

def ManifestTable.encode (table : ManifestTable) : Bytes :=
  encodeFixed32 table.id ++ (encodeFixed32 table.sktdfSize ++
    (encodeVarint32 table.beginKey.length ++ table.beginKey))

namespace ManifestState

variable {comparator : UserKeyComparator} (s : ManifestState comparator)

def body : Bytes :=
  encodeFixed64 s.nextInSDBKeySeqNum ++ (encodeFixed64 s.sequenceNumber ++
    (encodeFixed32 s.nextSKTableID ++ (encodeFixed32 s.tables.length ++
      (encodeFixed32 s.workerNextIKeySeqs.length ++
        (s.workerNextIKeySeqs.flatMap encodeFixed64 ++
          s.tables.flatMap ManifestTable.encode)))))

def contents (crc32c : Bytes → Nat) : Bytes :=
  encodeFixed32 (8 + s.body.length) ++
    (encodeFixed32 (maskCrc (crc32c s.body)) ++ s.body)

def paddedSize (alignShift : Fin 31) : Nat :=
  8 + s.body.length + paddingSize (kRequestAlignSize alignShift) (8 + s.body.length)

/-- `BuildManifest`.  All sizes have 32 bits, and the number of requests has 16. -/
def buildManifest (alignShift : Fin 31) (crc32c : Bytes → Nat) (device : Nat → Option Bytes) :
    Nat → Option Bytes :=
  let contents := s.contents crc32c
  let padded := contents ++
    List.replicate (paddingSize (kRequestAlignSize alignShift) (contents.length % 2 ^ 32)) 0xff
  let mfSize := padded.length % 2 ^ 32
  Parts.store (Parts.split kDeviceRquestMaxSize (numRequests mfSize) (padded.take mfSize)) device

end ManifestState

/-- `std::string::resize`. -/
def resizeString (size : Nat) (bytes : Bytes) : Bytes :=
  bytes.take size ++ List.replicate (size - bytes.length) 0

/-- `ReadManifest`.  The padding is that of the size in the header. -/
def readManifest (alignShift : Fin 31) (crc32c : Bytes → Nat)
    (device : Nat → Option Bytes) : Option Bytes := do
  let first ← deviceGet device kDeviceRquestMaxSize 0
  let (mfSize, afterSize) ← takeFixed 4 first
  let (crc, _) ← takeFixed 4 afterSize
  let numMf := numRequests (mfSize + paddingSize (kRequestAlignSize alignShift) mfSize)
  let later ← Parts.collect (deviceGet device kDeviceRquestMaxSize) 1 (numMf - 1)
  let contents := resizeString mfSize (first ++ later)
  -- a size below that of the header wraps around
  if contents.length < 8 then none
  else if unmaskCrc crc = crc32c (contents.drop 8) then some contents
  else none

def getManifestTable (parse : Bytes) : Option (ManifestTable × Bytes) := do
  let (id, parse) ← takeFixed 4 parse
  let (sktdfSize, parse) ← takeFixed 4 parse
  let (beginKeySize, parse) ← getVarint32 parse
  let (beginKey, parse) ← takeBytes beginKeySize parse
  some ({ id := id % 2 ^ 30, sktdfSize := sktdfSize, beginKey := beginKey }, parse)

/-- `InsertSKTableMem`: a table goes to its place in the order, unless its begin key is there
already. -/
def insertSKTableMem (comparator : UserKeyComparator) (table : ManifestTable) :
    List ManifestTable → List ManifestTable
  | [] => [table]
  | first :: rest =>
    if comparator.less table.beginKey first.beginKey then table :: first :: rest
    else if comparator.less first.beginKey table.beginKey then
      first :: insertSKTableMem comparator table rest
    else
      first :: rest

structure RestoredManifest where
  tables : List ManifestTable
  nextInSDBKeySeqNum : Nat
  sequenceNumber : Nat
  nextSKTableID : Nat
  workerNextIKeySeqs : List Nat
deriving DecidableEq, Repr

/-- `InitManifest`. -/
def initManifest (comparator : UserKeyComparator) (alignShift : Fin 31) (crc32c : Bytes → Nat)
    (writeWorkerCount : Nat) (device : Nat → Option Bytes) : Option RestoredManifest := do
  let contents ← readManifest alignShift crc32c device
  let (next, data) ← takeFixed 8 (contents.drop 8)
  let (sequenceNumber, data) ← takeFixed 8 data
  let (nextSKTableID, data) ← takeFixed 4 data
  let (sktinfoCount, data) ← takeFixed 4 data
  let (workerCount, parse) ← takeFixed 4 data
  let (nextSeq, parse) ← LogRecordKey.getCounted (takeFixed 8) workerCount parse
  let workers := initNextInSDBKeySeqNum nextSeq writeWorkerCount next
  let (tables, _) ← LogRecordKey.getCounted getManifestTable sktinfoCount parse
  some
    { tables := tables.foldl (fun list table => insertSKTableMem comparator table list) []
      nextInSDBKeySeqNum := workers.2
      sequenceNumber := sequenceNumber
      nextSKTableID := nextSKTableID
      workerNextIKeySeqs := (List.range writeWorkerCount).map workers.1 }

/-- `count` calls of `GenerateNextInSDBKeySeqNum`. -/
def generateInSDBKeySeqNums : Nat → Nat → List Nat
  | 0, _ => []
  | count + 1, next => next :: generateInSDBKeySeqNums count (next + 1)

def ManifestTable.masked (table : ManifestTable) : ManifestTable :=
  { table with id := table.id % 2 ^ 30 }

theorem ManifestTable.masked_eq_iff (t : ManifestTable) :
    t.masked = t ↔ t.id < 2 ^ 30 := by
  constructor
  · intro same
    have sameId : t.id % 2 ^ 30 = t.id := congrArg ManifestTable.id same
    omega
  intro small
  have sameId := Nat.mod_eq_of_lt small
  rw [ManifestTable.masked, sameId]

theorem getManifestTable_encode {t : ManifestTable} (fits : t.Fits) (tail : Bytes) :
    getManifestTable (t.encode ++ tail) = some (t.masked, tail) := by
  have keySize : t.beginKey.length < 2 ^ 32 := fits.beginKey_lt.trans (by decide)
  simp only [getManifestTable, ManifestTable.encode, append_assoc,
    takeFixed_encodeFixed32 fits.id_lt, takeFixed_encodeFixed32 fits.sktdfSize_lt,
    getVarint32_encode keySize, takeBytes_append, Option.bind_eq_bind, Option.bind_some]
  rfl

theorem insertSKTableMem_last {comparator : UserKeyComparator} {t : ManifestTable}
    {list : List ManifestTable}
    (last : ∀ first ∈ list, comparator.less first.beginKey t.beginKey = true) :
    insertSKTableMem comparator t list = list ++ [t] := by
  induction list with
  | nil => rfl
  | cons first rest ih =>
    have pre := last first mem_cons_self
    have notBefore := comparator.asymm _ _ pre
    have later := ih fun other inRest => last other (mem_cons_of_mem _ inRest)
    rw [insertSKTableMem, if_neg (by simp [notBefore]), if_pos pre, later, cons_append]

theorem foldl_insertSKTableMem {comparator : UserKeyComparator} (pre : List ManifestTable)
    {ts : List ManifestTable} (sorted : (pre ++ ts).Pairwise fun first second =>
      comparator.less first.beginKey second.beginKey = true) :
    ts.foldl (fun list t => insertSKTableMem comparator t list) pre =
      pre ++ ts := by
  induction ts generalizing pre with
  | nil => rw [foldl_nil, append_nil]
  | cons t ts ih =>
    have last : ∀ first ∈ pre, comparator.less first.beginKey t.beginKey = true :=
      fun first inPre =>
        (pairwise_append.mp sorted).2.2 first inPre t mem_cons_self
    have regrouped : pre ++ t :: ts = pre ++ [t] ++ ts := by simp
    rw [regrouped] at sorted
    rw [foldl_cons, insertSKTableMem_last last, ih (pre ++ [t]) sorted, regrouped]

theorem generateInSDBKeySeqNums_eq (count next : Nat) :
    generateInSDBKeySeqNums count next = List.range' next count := by
  induction count generalizing next with
  | zero => rfl
  | succ count ih => rw [generateInSDBKeySeqNums, ih, range'_succ]

theorem StartUp.nodup_later (startUp : StartUp) (count : Nat) :
    ((List.range startUp.workerCount).map startUp.seq ++
      generateInSDBKeySeqNums count startUp.counter).Nodup := by
  rw [generateInSDBKeySeqNums_eq]
  apply List.Nodup.append _ (nodup_range' _)
  · intro _ inWorkers inGenerated
    obtain ⟨w, below, rfl⟩ := mem_map.mp inWorkers
    have issued := startUp.issued w (mem_range.mp below)
    have generated := (mem_range'_1.mp inGenerated).1
    omega
  apply List.Nodup.map_on _ nodup_range
  intro left leftIn right rightIn same
  by_contra different
  exact startUp.distinct left (mem_range.mp leftIn) right (mem_range.mp rightIn) different same

namespace ManifestState

variable {comparator : UserKeyComparator} (s : ManifestState comparator)

variable (crc32c : Bytes → Nat)

theorem length_contents : (s.contents crc32c).length = 8 + s.body.length := by
  simp only [contents, length_append, length_encodeFixed32]
  omega

theorem drop_contents : (s.contents crc32c).drop 8 = s.body := by
  rw [contents, ← append_assoc]
  exact drop_left' rfl

theorem takeFixed_contents (size : Nat) (tail : Bytes) :
    takeFixed 4 ((s.contents crc32c ++ tail).take (8 + size)) = some ((8 + s.body.length) % 2 ^ 32,
          encodeFixed32 (maskCrc (crc32c s.body)) ++ (s.body ++ tail).take size) ∧
      takeFixed 4 (encodeFixed32 (maskCrc (crc32c s.body)) ++ (s.body ++ tail).take size) =
        some (maskCrc (crc32c s.body), (s.body ++ tail).take size) := by
  have front : (s.contents crc32c ++ tail).take (8 + size) =
      encodeFixed32 (8 + s.body.length) ++ (encodeFixed32 (maskCrc (crc32c s.body)) ++
        (s.body ++ tail).take size) := by
    have header : s.contents crc32c ++ tail =
        (encodeFixed32 (8 + s.body.length) ++ encodeFixed32 (maskCrc (crc32c s.body))) ++
          (s.body ++ tail) := by
      simp [contents]
    rw [header, take_append, take_of_length_le (by simp), append_assoc]
    congr 3
    simp
  refine ⟨?_, takeFixed_encodeFixed32 (maskCrc_lt _) _⟩
  rw [front, takeFixed, decodeFixed_encodeFixed32, if_pos (by simp)]
  rfl

theorem paddedSize_le_of_lt (alignShift : Fin 31) {size : Nat} (below : size < 2 ^ 32) :
    size + paddingSize (kRequestAlignSize alignShift) size ≤ 2 ^ 32 := by
  obtain ⟨blocks, whole⟩ : kRequestAlignSize alignShift ∣ 2 ^ 32 := Nat.pow_dvd_pow 2 (by omega)
  have positive : 0 < kRequestAlignSize alignShift := Nat.two_pow_pos _
  rw [whole] at below ⊢
  have parts := Nat.div_add_mod size (kRequestAlignSize alignShift)
  have rest := Nat.mod_lt size positive
  have next : kRequestAlignSize alignShift * (size / kRequestAlignSize alignShift + 1) ≤
      kRequestAlignSize alignShift * blocks :=
    Nat.mul_le_mul_left _ (Nat.div_lt_of_lt_mul below)
  rw [Nat.mul_succ] at next
  unfold paddingSize
  split_ifs <;> omega

variable {alignShift : Fin 31}

theorem readManifest_build {crc32c : Bytes → Nat} (fits : ∀ bytes, crc32c bytes < 2 ^ 32)
    (small : s.paddedSize alignShift + kDeviceRquestMaxSize ≤ 2 ^ 32) (dev : Nat → Option Bytes) :
    readManifest alignShift crc32c (s.buildManifest alignShift crc32c dev) =
      some (s.contents crc32c) := by
  have sizeSmall : 8 + s.body.length < 2 ^ 32 := by
    simp only [paddedSize, kDeviceRquestMaxSize] at small
    omega
  have paddedSmall : s.paddedSize alignShift < 2 ^ 32 := by
    simp only [kDeviceRquestMaxSize] at small
    omega
  have covers := numRequests_covers small
  obtain ⟨more, count⟩ : ∃ more, numRequests (s.paddedSize alignShift) = more + 1 := by
    apply Nat.exists_eq_add_one.mpr
    apply Nat.pos_of_ne_zero
    intro none
    rw [none, paddedSize] at covers
    omega
  have length := s.length_contents crc32c
  generalize isPadded : s.contents crc32c ++
    replicate (paddingSize (kRequestAlignSize alignShift) (8 + s.body.length)) 0xff = padded
  have paddedLength : padded.length = s.paddedSize alignShift := by
    rw [← isPadded, length_append, length_replicate, length, paddedSize]
  have written : s.buildManifest alignShift crc32c dev =
      Parts.store (Parts.split kDeviceRquestMaxSize (more + 1) padded) dev := by
    simp only [buildManifest, length, Nat.mod_eq_of_lt sizeSmall, isPadded, paddedLength,
      Nat.mod_eq_of_lt paddedSmall, count]
    rw [← paddedLength, take_length]
  have laterCovers : (padded.drop kDeviceRquestMaxSize).length ≤ kDeviceRquestMaxSize * more := by
    rw [count, Nat.mul_succ] at covers
    rw [length_drop, paddedLength]
    omega
  have laterParts := collect_laterParts padded more dev (Nat.min_le_right _ _)
  have header := s.takeFixed_contents crc32c (kDeviceRquestMaxSize - 8)
    (replicate (paddingSize (kRequestAlignSize alignShift) (8 + s.body.length)) 0xff)
  have wide : 8 ≤ kDeviceRquestMaxSize := by
    simp only [kDeviceRquestMaxSize]
    omega
  rw [isPadded, Nat.add_sub_of_le wide, Nat.mod_eq_of_lt sizeSmall] at header
  have resized : resizeString (8 + s.body.length) padded = s.contents crc32c := by
    rw [resizeString, ← isPadded, take_left' length, length_append, length,
      Nat.sub_eq_zero_of_le (Nat.le_add_right _ _), replicate_zero, append_nil]
  have requests : numRequests (8 + s.body.length +
      paddingSize (kRequestAlignSize alignShift) (8 + s.body.length)) = more + 1 := count
  simp only [readManifest, Option.bind_eq_bind]
  rw [written, deviceGet_firstPart, Option.bind_some, header.1, Option.bind_some]
  rw [header.2, Option.bind_some]
  rw [requests, Nat.add_sub_cancel, laterParts, Option.bind_some,
    Parts.flatten_split laterCovers, take_append_drop, resized, if_neg (by omega),
    drop_contents, unmaskCrc_maskCrc (fits _), if_pos rfl]

end ManifestState

theorem readManifest_some {alignShift : Fin 31} {crc32c : Bytes → Nat} {dev : Nat → Option Bytes}
    {contents : Bytes} (read : readManifest alignShift crc32c dev = some contents) :
    ∃ first mfSize afterSize crc rest, deviceGet dev kDeviceRquestMaxSize 0 = some first ∧
      takeFixed 4 first = some (mfSize, afterSize) ∧ takeFixed 4 afterSize = some (crc, rest) ∧
      contents.length = mfSize ∧ 8 ≤ contents.length ∧
      unmaskCrc crc = crc32c (contents.drop 8) := by
  simp only [readManifest, Option.bind_eq_bind, Option.bind_eq_some_iff, Prod.exists] at read
  obtain ⟨first, got, mfSize, afterSize, readSize, crc, rest, readCrc, _, -, made⟩ := read
  split_ifs at made with short same
  cases made
  refine ⟨first, mfSize, afterSize, crc, rest, got, readSize, readCrc, ?_,
    Nat.le_of_not_lt short, same⟩
  rw [resizeString, length_append, length_take, length_replicate]
  omega

namespace ManifestState

variable {comparator : UserKeyComparator} (s : ManifestState comparator)

/-- A checksum that tells apart what fits into 32-bit sizes, header included, from what does
not. -/
def sizeChecksum (bytes : Bytes) : Nat := if bytes.length < 2 ^ 32 - 8 then 0 else 1

theorem sizeChecksum_lt (bytes : Bytes) : sizeChecksum bytes < 2 ^ 32 := by
  unfold sizeChecksum
  split_ifs <;> decide

theorem not_readManifest_build {alignShift : Fin 31}
    (large : 2 ^ 32 < s.paddedSize alignShift + kDeviceRquestMaxSize) :
    readManifest alignShift sizeChecksum (s.buildManifest alignShift sizeChecksum fun _ => none) =
      none := by
  rw [Option.eq_none_iff_forall_not_mem]
  intro _ read
  obtain ⟨_, _, _, _, _, got, readSize, readCrc, length, _, same⟩ := readManifest_some read
  have size := s.length_contents sizeChecksum
  simp only [buildManifest, size] at got
  generalize isPadded : s.contents sizeChecksum ++ replicate
    (paddingSize (kRequestAlignSize alignShift) ((8 + s.body.length) % 2 ^ 32)) 0xff = padded at got
  have paddedLength : padded.length = 8 + s.body.length +
      paddingSize (kRequestAlignSize alignShift) ((8 + s.body.length) % 2 ^ 32) := by
    rw [← isPadded, length_append, length_replicate, size]
  obtain ⟨more, count⟩ : ∃ more, numRequests (padded.length % 2 ^ 32) = more + 1 := by
    apply Nat.exists_eq_add_one.mpr
    apply Nat.pos_of_ne_zero
    intro none
    rw [none] at got
    cases got
  have written : padded.length % 2 ^ 32 + kDeviceRquestMaxSize ≤ 2 ^ 32 := by
    by_contra wraps
    have none := numRequests_eq_zero (Nat.lt_of_not_le wraps) (Nat.mod_lt _ (by decide))
    omega
  have oversized : 2 ^ 32 ≤ 8 + s.body.length := by
    by_contra fits
    have small := Nat.lt_of_not_le fits
    rw [Nat.mod_eq_of_lt small] at paddedLength
    have bound := paddedSize_le_of_lt alignShift small
    rw [← paddedLength] at bound
    rw [paddedSize, ← paddedLength] at large
    by_cases whole : padded.length = 2 ^ 32
    · rw [whole, Nat.mod_self] at count
      cases count
    rw [Nat.mod_eq_of_lt (by omega)] at written
    omega
  rw [count, deviceGet_firstPart, take_take] at got
  cases got
  obtain ⟨more, place⟩ : ∃ more, min kDeviceRquestMaxSize (padded.length % 2 ^ 32) = 8 + more := by
    have sizeBytes := takeFixed_length readSize
    have crcBytes := takeFixed_length readCrc
    rw [length_take] at sizeBytes
    exact Nat.exists_eq_add_of_le (by omega)
  have header := s.takeFixed_contents sizeChecksum more (replicate
    (paddingSize (kRequestAlignSize alignShift) ((8 + s.body.length) % 2 ^ 32)) 0xff)
  rw [isPadded, ← place, readSize] at header
  obtain ⟨sizeIs, afterIs⟩ := Prod.mk.inj (Option.some.inj header.1)
  rw [← afterIs, readCrc] at header
  obtain ⟨crcIs, -⟩ := Prod.mk.inj (Option.some.inj header.2)
  rw [crcIs, unmaskCrc_maskCrc (sizeChecksum_lt _), sizeChecksum, sizeChecksum, if_neg (by omega),
    if_pos] at same
  · cases same
  rw [length_drop, length, sizeIs]
  omega

theorem tables_length_le : s.tables.length ≤ s.body.length := by
  have each : s.tables.length ≤ (s.tables.flatMap ManifestTable.encode).length := by
    apply length_le_length_flatMap
    intro _
    simp only [ManifestTable.encode, length_append, length_encodeFixed32]
    omega
  simp only [body, length_append]
  omega

variable (writeWorkerCount : Nat)

def startUp : StartUp :=
  .ofStored s.workerNextIKeySeqs s.nextInSDBKeySeqNum writeWorkerCount s.nexts_nodup
    s.nexts_bounds s.started

def restored : RestoredManifest where
  tables := s.tables.map ManifestTable.masked
  nextInSDBKeySeqNum := (s.startUp writeWorkerCount).counter
  sequenceNumber := s.sequenceNumber
  nextSKTableID := s.nextSKTableID
  workerNextIKeySeqs := (List.range writeWorkerCount).map (s.startUp writeWorkerCount).seq

theorem initManifest_build {alignShift : Fin 31} {crc32c : Bytes → Nat}
    (fits : ∀ bytes, crc32c bytes < 2 ^ 32)
    (small : s.paddedSize alignShift + kDeviceRquestMaxSize ≤ 2 ^ 32) (writeWorkerCount : Nat)
    (dev : Nat → Option Bytes) :
    initManifest comparator alignShift crc32c writeWorkerCount
        (s.buildManifest alignShift crc32c dev) =
      some (s.restored writeWorkerCount) := by
  have read := s.readManifest_build fits small dev
  have tablesLt : s.tables.length < 2 ^ 32 := by
    have atMost := s.tables_length_le
    simp only [paddedSize, kDeviceRquestMaxSize] at small
    omega
  have workersLt : s.workerNextIKeySeqs.length < 2 ^ 32 := s.workers_lt.trans (by decide)
  have nexts := LogRecordKey.getCounted_encode (fun next inNexts tail => takeFixed_encodeFixed64
      ((s.nexts_bounds next inNexts).2.trans s.nextInSDBKeySeqNum_lt) tail)
    (s.tables.flatMap ManifestTable.encode)
  have ts := LogRecordKey.getCounted_encode_map
    (fun t inTables tail => getManifestTable_encode (s.tables_fit t inTables) tail) []
  rw [append_nil] at ts
  have sorted : ([] ++ s.tables.map ManifestTable.masked).Pairwise
      fun (first second : ManifestTable) =>
        comparator.less first.beginKey second.beginKey = true := by
    rw [nil_append, pairwise_map]
    exact s.sorted
  have inOrder := foldl_insertSKTableMem [] sorted
  simp only [initManifest, read, drop_contents, body, Option.bind_eq_bind, Option.bind_some,
    takeFixed_encodeFixed64 s.nextInSDBKeySeqNum_lt,
    takeFixed_encodeFixed64 s.sequenceNumber_lt,
    takeFixed_encodeFixed32 s.nextSKTableID_lt, takeFixed_encodeFixed32 tablesLt,
    takeFixed_encodeFixed32 workersLt, nexts, ts, inOrder, nil_append]
  rfl

/-- The next start has the same tables in the same order and the same counters, and every one of
its workers has a next internal key of its own that is not generated again.  The generator has
gone on by one number for each worker that had none. -/
structure RestoredBy (writeWorkerCount : Nat) (restored : RestoredManifest) : Prop where
  tables : restored.tables = s.tables
  sequenceNumber : restored.sequenceNumber = s.sequenceNumber
  nextSKTableID : restored.nextSKTableID = s.nextSKTableID
  nextInSDBKeySeqNum : restored.nextInSDBKeySeqNum =
    s.nextInSDBKeySeqNum + (writeWorkerCount - s.workerNextIKeySeqs.length)
  workers : restored.workerNextIKeySeqs.length = writeWorkerCount
  distinct : ∀ count, (restored.workerNextIKeySeqs ++
    generateInSDBKeySeqNums count restored.nextInSDBKeySeqNum).Nodup

/-- Whatever the checksum function and whatever is on the device before. -/
def Restores (alignShift : Fin 31) : Prop :=
  ∀ crc32c : Bytes → Nat, (∀ bytes, crc32c bytes < 2 ^ 32) → ∀ device,
    ∃ restored, initManifest comparator alignShift crc32c writeWorkerCount
        (s.buildManifest alignShift crc32c device) = some restored ∧
      s.RestoredBy writeWorkerCount restored

theorem restoredBy_restored_iff : s.RestoredBy writeWorkerCount (s.restored writeWorkerCount) ↔
      ∀ t ∈ s.tables, t.id < 2 ^ 30 := by
  constructor
  · intro same t inTables
    rw [← t.masked_eq_iff]
    have ts : s.tables.map ManifestTable.masked = s.tables := same.tables
    rw [← map_id s.tables, map_map] at ts
    exact map_inj_left.mp ts t inTables
  intro small
  refine ⟨?_, rfl, rfl, ?_, ?_, (s.startUp writeWorkerCount).nodup_later⟩
  · conv_rhs => rw [← map_id s.tables]
    apply map_congr_left
    intro t inTables
    exact t.masked_eq_iff.mpr (small t inTables)
  · change s.nextInSDBKeySeqNum +
      (writeWorkerCount - min s.workerNextIKeySeqs.length writeWorkerCount) = _
    omega
  · exact length_map _ |>.trans length_range

end ManifestState

/-- The next start restores the manifest exactly if no identifier of a table uses the two upper
bits and the padded size and one request more stay within 32 bits. -/
theorem manifest_restored_iff {comparator : UserKeyComparator} (s : ManifestState comparator)
    (writeWorkerCount : Nat) (alignShift : Fin 31) :
    s.Restores writeWorkerCount alignShift ↔ (∀ table ∈ s.tables, table.id < 2 ^ 30) ∧
        s.paddedSize alignShift + kDeviceRquestMaxSize ≤ 2 ^ 32 := by
  constructor
  · intro restores
    have small : s.paddedSize alignShift + kDeviceRquestMaxSize ≤ 2 ^ 32 := by
      by_contra large
      have unread := s.not_readManifest_build (Nat.lt_of_not_le large)
      obtain ⟨_, init, -⟩ :=
        restores ManifestState.sizeChecksum ManifestState.sizeChecksum_lt fun _ => none
      simp only [initManifest, unread, Option.bind_eq_bind, Option.bind_none] at init
      cases init
    refine ⟨?_, small⟩
    obtain ⟨_, init, same⟩ := restores (fun _ => 0) (fun _ => by decide) fun _ => none
    rw [s.initManifest_build (fun _ => by decide) small] at init
    cases init
    exact (s.restoredBy_restored_iff writeWorkerCount).mp same
  · rintro ⟨ids, small⟩ _ fits device
    exact ⟨_, s.initManifest_build fits small writeWorkerCount device,
      (s.restoredBy_restored_iff writeWorkerCount).mpr ids⟩

def bytewiseComparator : UserKeyComparator where
  less first second := decide (first < second)
  asymm := by
    intro first second less
    rw [decide_eq_true_eq] at less
    rw [decide_eq_false_iff_not]
    exact List.lt_asymm less

theorem largeId_sequenceNumber_lt : 7 < 2 ^ 64 := by decide

def largeIdManifest : ManifestState bytewiseComparator where
  tables := [⟨2 ^ 30, 4096, []⟩]
  nextInSDBKeySeqNum := 1089
  sequenceNumber := 7
  nextSKTableID := 2 ^ 30 + 1
  workerNextIKeySeqs := [1088]
  tables_fit := by
    intro table inTables
    rw [List.mem_singleton] at inTables
    subst inTables
    exact ⟨by decide, by decide, by decide⟩
  sorted := List.pairwise_singleton _ _
  nextInSDBKeySeqNum_lt := by decide
  sequenceNumber_lt := largeId_sequenceNumber_lt
  nextSKTableID_lt := by decide
  workers_lt := by decide
  nexts_nodup := List.nodup_singleton _
  nexts_bounds := by decide
  started := by decide

theorem large_id_not_restored : ¬ largeIdManifest.Restores 1 2 := by
  intro restores
  have small : largeIdManifest.paddedSize 2 + kDeviceRquestMaxSize ≤ 2 ^ 32 := by decide
  obtain ⟨_, init, same⟩ := restores (fun _ => 0) (fun _ => by decide) fun _ => none
  rw [largeIdManifest.initManifest_build (fun _ => by decide) small] at init
  cases init
  have tables := same.tables
  revert tables
  decide

end InsDb
