import InsDb.Coding
import InsDb.VerticalMerge

/-!
# The device format of a key-block meta

Beside the block a worker writes its meta: the bitmap of the valid keys, the transactions of
the puts and of the deletes, and the internal key of the worker's next block.  The number of
merged transactions is written as a varint and read as two bytes, so that behind every
transaction the reader is ahead of the writer.  A varint ends where it ends from wherever it is
read, so the reader never falls back: it runs out of bytes before the next internal key.
-/

namespace InsDb

open InsDb.Library List Option
open Varint (Bytes)

/-- A `TrxnInfo` with the key and the column of its request. -/
structure LoggedRequest extends TrxnInfo where
  key : Bytes
  colId : Nat
deriving DecidableEq, Repr

namespace LoggedRequest

def isTrxn (info : LoggedRequest) : Bool :=
  decide (info.merged ≠ [] ∨ info.head.id ≠ 0)

structure Fits (info : LoggedRequest) : Prop where
  id_lt : info.head.id < 2 ^ 64
  count_lt : info.head.count < 2 ^ 32
  seqNumber_lt : info.head.seqNumber < 2 ^ 32
  smallestTrxnId_lt : info.smallestTrxnId < 2 ^ 64
  merged_lt : info.merged.length < 2 ^ 16
  -- a request without a transaction has nothing merged into it
  headed : info.head.id = 0 → info.merged = []

def encodeMerged (trxn : Transaction) : Bytes :=
  encodeVarint32 trxn.count ++ encodeVarint32 trxn.seqNumber ++ encodeVarint64 trxn.id

def encodeInfo (info : LoggedRequest) : Bytes :=
  encodeVarint64 info.smallestTrxnId ++ (encodeVarint32 info.head.count ++
    (encodeVarint32 info.head.seqNumber ++
      (encodeVarint64
          (if info.head.id ≠ 0 then (info.head.id + 2 ^ 64 - info.smallestTrxnId) % 2 ^ 64
          else 0) ++
        (encodeVarint16 info.merged.length ++ info.merged.flatMap encodeMerged))))

def encodePut (offset : Nat) (info : LoggedRequest) : Bytes :=
  if info.isTrxn then UInt8.ofNat offset :: info.encodeInfo else []

/-- A delete without a transaction is written as `InvalidDelTrxn`. -/
def encodeDel (info : LoggedRequest) : Bytes :=
  if info.isTrxn then
    encodeFixed16 info.key.length ++ (info.key ++ (UInt8.ofNat info.colId :: info.encodeInfo))
  else
    [0xff, 0xff]

end LoggedRequest

/-- A key-block meta with its log part: one entry for each put and each delete of the block. -/
structure LoggedMeta where
  bitmap : Nat
  orgKeyCnt : Nat
  puts : List LoggedRequest
  dels : List LoggedRequest
  nextIKeySeq : Nat
  bitmap_lt : bitmap < 2 ^ 32
  orgKeyCnt_le : orgKeyCnt ≤ 32
  puts_le : puts.length ≤ 32
  dels_le : dels.length ≤ 32
  fits : ∀ info ∈ puts ++ dels, info.Fits
  nextIKeySeq_lt : nextIKeySeq < 2 ^ 64

def encodePuts : Nat → List LoggedRequest → Bytes
  | _, [] => []
  | offset, info :: puts => info.encodePut offset ++ encodePuts (offset + 1) puts

/-- `BuildDeviceFormatKeyBlockMeta`. -/
def LoggedMeta.buildDeviceFormat (info : LoggedMeta) : Bytes :=
  encodeFixed32 info.bitmap ++ (UInt8.ofNat info.orgKeyCnt :: (UInt8.ofNat info.puts.length ::
    (encodePuts 0 info.puts ++ (UInt8.ofNat info.dels.length ::
      (info.dels.flatMap LoggedRequest.encodeDel ++ encodeFixed64 info.nextIKeySeq)))))

/-! ## Reading

A read past the end of the buffer and a write past the end of an array give nothing, like
`false`. -/

def getByte : Bytes → Option (UInt8 × Bytes)
  | [] => none
  | byte :: rest => some (byte, rest)

/-- `DecodeTransactionInfo`.  `InitMemory` takes the number of merged transactions for one that
includes the head and reserves one less, so that storing the last of them writes past the end
of the array: only an entry without merged transactions is decoded. -/
def decodeTransactionInfo (key : Bytes) (colId : Nat) (df : Bytes) :
    Option (LoggedRequest × Bytes) := do
  let (smallestTrxnId, df) ← getVarint64 df
  let (count, df) ← getVarint32 df
  let (seqNumber, df) ← getVarint32 df
  let (id, df) ← getVarint64 df
  let (mergedTrxnCnt, df) ← takeFixed 2 df
  if mergedTrxnCnt = 0 then
    some
      ({ key := key
         colId := colId
         head :=
           { count := count, seqNumber := seqNumber, id := (id + smallestTrxnId) % 2 ^ 64 }
         smallestTrxnId := smallestTrxnId
         merged := [] }, df)
  else
    none

/-- The loop of `DecodePutTransactionList`, with the offsets. -/
def decodePuts : Nat → Bytes → Option (List (Nat × LoggedRequest) × Bytes)
  | 0, df => some ([], df)
  | count + 1, df => do
      let (keyOffset, df) ← getByte df
      let (info, df) ← decodeTransactionInfo [] 0 df
      let (later, df) ← decodePuts count df
      some ((keyOffset.toNat, info) :: later, df)

/-- One entry of `DecodeDelTransactionList`, behind the size of its key. -/
def decodeDel (keySize : Nat) (df : Bytes) : Option (LoggedRequest × Bytes) := do
  let (key, df) ← takeBytes keySize df
  let (colId, df) ← getByte df
  decodeTransactionInfo key colId.toNat df

/-- The loop of `DecodeDelTransactionList`. -/
def decodeDels : Nat → Bytes → Option (List LoggedRequest × Bytes)
  | 0, df => some ([], df)
  | count + 1, df => do
      let (keySize, df) ← takeFixed 2 df
      if keySize = 0xffff then decodeDels count df
      else do
        let (info, df) ← decodeDel keySize df
        let (later, df) ← decodeDels count df
        some (info :: later, df)

def noTrxn : LoggedRequest :=
  { key := [], colId := 0, head := {}, smallestTrxnId := 0, merged := [] }

/-- `SetHeadTrxn` at the offset of every decoded put. -/
def restorePuts (decoded : List (Nat × LoggedRequest)) : Option (List LoggedRequest) :=
  decoded.foldlM (fun puts (offset, info) =>
      if offset < puts.length then some (puts.set offset info) else none)
    (List.replicate decoded.length noTrxn)

/-- A key-block meta as recovery has it; the log part only if a transaction was decoded. -/
structure RestoredMeta where
  bitmap : Nat
  orgKeyCnt : Nat
  puts : List LoggedRequest := []
  dels : List LoggedRequest := []
  nextIKeySeq : Option Nat := none
deriving DecidableEq, Repr

/-- `InitWithDeviceFormat`. -/
def initWithDeviceFormat (buffer : Bytes) : Option RestoredMeta := do
  let (bitmap, df) ← takeFixed 4 buffer
  let (orgKeyCnt, df) ← getByte df
  let (nrPuts, df) ← getByte df
  let (decodedPuts, df) ← decodePuts nrPuts.toNat df
  let (nrDeletes, df) ← getByte df
  let (dels, df) ← decodeDels nrDeletes.toNat df
  let (nextIKeySeq, _) ← takeFixed 8 df
  if decodedPuts = [] ∧ dels = [] then
    some { bitmap := bitmap, orgKeyCnt := orgKeyCnt.toNat }
  else do
    let puts ← restorePuts decodedPuts
    some { bitmap := bitmap, orgKeyCnt := orgKeyCnt.toNat, puts := puts, dels := dels,
           nextIKeySeq := some nextIKeySeq }

/-- The transactions among the requests of one type, each with its offset: key, column, head and
merged transactions. -/
def transactions (infos : List LoggedRequest) :
    List (Nat × Bytes × Nat × Transaction × List Transaction) :=
  infos.zipIdx.filterMap fun (info, offset) =>
    if info.isTrxn then some (offset, info.key, info.colId, info.head, info.merged) else none

/-- Recovery has the bitmap, the key count, the transactions and the next internal key. -/
structure LoggedMeta.RestoredAs (info : LoggedMeta) (restored : RestoredMeta) : Prop where
  bitmap : restored.bitmap = info.bitmap
  orgKeyCnt : restored.orgKeyCnt = info.orgKeyCnt
  puts : transactions restored.puts = transactions info.puts
  dels : transactions restored.dels = transactions info.dels
  nextIKeySeq : restored.nextIKeySeq = some info.nextIKeySeq

def LoggedMeta.Restores (info : LoggedMeta) : Prop :=
  ∃ restored, initWithDeviceFormat info.buildDeviceFormat = some restored ∧
    info.RestoredAs restored

variable {input rest : Bytes} {v : Nat}

theorem skip_of_getVarint64 (read : getVarint64 input = some (v, rest)) :
    Varint.skip input = rest := by
  obtain ⟨⟨_, _⟩, decoded, same⟩ := map_eq_some_iff.mp read
  cases same
  exact Varint.skip_of_decode decoded

theorem skip_of_getVarint32 (read : getVarint32 input = some (v, rest)) :
    Varint.skip input = rest := by
  obtain ⟨⟨_, _⟩, decoded, same⟩ := map_eq_some_iff.mp read
  cases same
  exact Varint.skip_of_decode decoded

theorem takeFixed_two_zero (taken : takeFixed 2 input = some (0, rest)) :
    input = 0 :: 0 :: rest := by
  unfold takeFixed at taken
  split_ifs at taken with enough
  obtain ⟨zero, rfl⟩ := Prod.mk.injEq .. ▸ some.inj taken
  match input, enough, zero with
  | low :: high :: rest, _, zero =>
    simp only [decodeFixed, Nat.mul_zero, Nat.add_zero] at zero
    have lowZero : low = 0 := UInt8.toNat_inj.mp (by simpa using (by omega : low.toNat = 0))
    have highZero : high = 0 := UInt8.toNat_inj.mp (by simpa using (by omega : high.toNat = 0))
    rw [lowZero, highZero]
    rfl

def skipNumbers (input : Bytes) : Bytes :=
  Varint.skip (Varint.skip (Varint.skip (Varint.skip input)))

theorem skipNumbers_suffix {later : Bytes} (isLater : later <:+ input) :
    skipNumbers later <:+ skipNumbers input :=
  Varint.skip_suffix (Varint.skip_suffix (Varint.skip_suffix (Varint.skip_suffix isLater)))

theorem skipNumbers_suffix_self (input : Bytes) : skipNumbers input <:+ input :=
  (Varint.skip_suffix_self _).trans ((Varint.skip_suffix_self _).trans
    ((Varint.skip_suffix_self _).trans (Varint.skip_suffix_self _)))

variable {df : Bytes} {info : LoggedRequest}

theorem decodeTransactionInfo_some {key : Bytes} {col : Nat}
    (decoded : decodeTransactionInfo key col df = some (info, rest)) :
    info.key = key ∧ info.merged = [] ∧ skipNumbers df = 0 :: 0 :: rest := by
  simp only [decodeTransactionInfo, bind_eq_bind, bind_eq_some_iff, Prod.exists] at decoded
  obtain ⟨_, _, readSmallest, _, _, readCount, _,
    _, readSeq, _, _, readId, _, _, readCnt, made⟩ := decoded
  split_ifs at made with none
  subst none
  cases made
  refine ⟨rfl, rfl, ?_⟩
  rw [skipNumbers, skip_of_getVarint64 readSmallest, skip_of_getVarint32 readCount,
    skip_of_getVarint32 readSeq, skip_of_getVarint64 readId]
  exact takeFixed_two_zero readCnt

variable {keySize : Nat}

theorem decodeDel_some (decoded : decodeDel keySize df = some (info, rest)) :
    info.key.length = keySize ∧ info.merged = [] ∧
      skipNumbers (df.drop (keySize + 1)) = 0 :: 0 :: rest := by
  simp only [decodeDel, bind_eq_bind, bind_eq_some_iff, Prod.exists] at decoded
  obtain ⟨_, _, readKey, col, afterCol, readCol, readInfo⟩ := decoded
  obtain ⟨sameKey, noMerged, zeros⟩ := decodeTransactionInfo_some readInfo
  unfold takeBytes at readKey
  split_ifs at readKey with enough
  cases readKey
  have c : df.drop keySize = col :: afterCol := by
    cases left : df.drop keySize with
    | nil =>
      rw [left] at readCol
      cases readCol
    | cons =>
      rw [left] at readCol
      cases readCol
      rfl
  refine ⟨?_, noMerged, ?_⟩
  · rw [sameKey, length_take]
    omega
  rw [← drop_drop, c]
  exact zeros

theorem drop_suffix_drop {later : Bytes} (isLater : later <:+ input) (count : Nat) :
    later.drop count <:+ input.drop count := by
  obtain ⟨pre, rfl⟩ := isLater
  rw [drop_append]
  have further : later.drop count <:+ later.drop (count - pre.length) := by
    have split : count - pre.length + (count - (count - pre.length)) = count := by omega
    rw [← split, ← drop_drop]
    rw [split]
    exact drop_suffix _ _
  exact further.trans (suffix_append _ _)

namespace LoggedRequest

theorem skipNumbers_encodeInfo {info : LoggedRequest} (fits : info.Fits) (tail : Bytes) :
    skipNumbers (info.encodeInfo ++ tail) =
      encodeVarint16 info.merged.length ++ (info.merged.flatMap encodeMerged ++ tail) := by
  have difference : (if info.head.id ≠ 0 then
      (info.head.id + 2 ^ 64 - info.smallestTrxnId) % 2 ^ 64 else 0) < 2 ^ 64 := by
    split_ifs
    · exact Nat.mod_lt _ (by decide)
    · decide
  simp only [encodeInfo, append_assoc, skipNumbers]
  rw [skip_of_getVarint64 (getVarint64_encode fits.smallestTrxnId_lt _),
    skip_of_getVarint32 (getVarint32_encode fits.count_lt _),
    skip_of_getVarint32 (getVarint32_encode fits.seqNumber_lt _),
    skip_of_getVarint64 (getVarint64_encode difference _)]

theorem drop_encodeDel {info : LoggedRequest} (isTrxn : info.isTrxn = true) (tail : Bytes) :
    (info.encodeDel ++ tail).drop (info.key.length + 3) = info.encodeInfo ++ tail := by
  rw [encodeDel, if_pos isTrxn]
  have front : encodeFixed16 info.key.length ++
      (info.key ++ (UInt8.ofNat info.colId :: info.encodeInfo)) ++ tail =
      (encodeFixed16 info.key.length ++ info.key ++ [UInt8.ofNat info.colId]) ++
        (info.encodeInfo ++ tail) := by
    simp
  rw [front]
  apply drop_left'
  simp only [length_append, length_encodeFixed16, length_singleton]
  omega

end LoggedRequest

def fromTrxn (dels : List LoggedRequest) : List LoggedRequest :=
  dels.dropWhile fun info => !info.isTrxn

variable {dels : List LoggedRequest} {tail : Bytes}

theorem zero_suffix_fromTrxn
    (isSuffix : 0 :: rest <:+ dels.flatMap LoggedRequest.encodeDel ++ tail) :
    0 :: rest <:+ (fromTrxn dels).flatMap LoggedRequest.encodeDel ++ tail := by
  induction dels with
  | nil => exact isSuffix
  | cons info dels ih =>
    cases isTrxn : info.isTrxn with
    | true =>
      rw [fromTrxn, dropWhile_cons_of_neg (by simp [isTrxn])]
      exact isSuffix
    | false =>
      rw [fromTrxn, dropWhile_cons_of_pos (by simp [isTrxn])]
      apply ih
      have bytes : (info :: dels).flatMap LoggedRequest.encodeDel ++ tail =
          0xff :: 0xff :: (dels.flatMap LoggedRequest.encodeDel ++ tail) := by
        simp [LoggedRequest.encodeDel, isTrxn]
      rw [bytes] at isSuffix
      rcases suffix_cons_iff.mp isSuffix with same | later
      · cases same
      rcases suffix_cons_iff.mp later with same | inRest
      · cases same
      · exact inRest

/-- The reader has passed the start of the next delete with a transaction. -/
def Ahead (rest : Bytes) (dels : List LoggedRequest) (tail : Bytes) : Prop :=
  rest <:+ (fromTrxn dels).flatMap LoggedRequest.encodeDel ++ tail ∧
    rest.length < ((fromTrxn dels).flatMap LoggedRequest.encodeDel ++ tail).length

theorem Ahead.of_zero (isSuffix : 0 :: rest <:+ dels.flatMap LoggedRequest.encodeDel ++ tail) :
    Ahead rest dels tail := by
  have passed := zero_suffix_fromTrxn isSuffix
  have shorter := passed.length_le
  rw [length_cons] at shorter
  exact ⟨(suffix_cons 0 rest).trans passed, shorter⟩

theorem Ahead.later {later : Bytes} (ahead : Ahead rest dels tail) (isLater : later <:+ rest) :
    Ahead later dels tail :=
  ⟨isLater.trans ahead.1, isLater.length_le.trans_lt ahead.2⟩

theorem Ahead.step {decoded : LoggedRequest} {afterSize : Bytes} (isTrxn : info.isTrxn = true)
    (fits : info.Fits)
    (isSuffix : df <:+ info.encodeDel ++ (dels.flatMap LoggedRequest.encodeDel ++ tail))
    (readSize : takeFixed 2 df = some (keySize, afterSize))
    (read : decodeDel keySize afterSize = some (decoded, rest)) (sameKey : decoded.key = info.key)
    (sameMerged : decoded.merged = info.merged) :
    Ahead rest dels tail := by
  obtain ⟨keyLength, noMerged, zeros⟩ := decodeDel_some read
  have numbers := skipNumbers_suffix (drop_suffix_drop isSuffix (info.key.length + 3))
  rw [LoggedRequest.drop_encodeDel isTrxn, LoggedRequest.skipNumbers_encodeInfo fits, ← sameMerged,
    noMerged] at numbers
  have place : df.drop (info.key.length + 3) = afterSize.drop (keySize + 1) := by
    rw [takeFixed_suffix readSize, drop_drop, ← keyLength, sameKey]
    congr 1
    omega
  rw [place, zeros] at numbers
  change 0 :: 0 :: rest <:+ 0 :: (dels.flatMap LoggedRequest.encodeDel ++ tail) at numbers
  apply Ahead.of_zero
  rcases suffix_cons_iff.mp numbers with same | later
  · exact tail_eq_of_cons_eq same ▸ suffix_rfl
  · exact (suffix_cons 0 (0 :: rest)).trans later

variable {count : Nat} {infos : List LoggedRequest}

theorem decodeDels_succ (decoded : decodeDels (count + 1) df = some (infos, rest)) :
    ∃ keySize afterSize, takeFixed 2 df = some (keySize, afterSize) ∧
      ((keySize = 0xffff ∧ decodeDels count afterSize = some (infos, rest)) ∨
        ∃ info next later, keySize ≠ 0xffff ∧ decodeDel keySize afterSize = some (info, next) ∧
          decodeDels count next = some (later, rest) ∧ infos = info :: later) := by
  simp only [decodeDels, bind_eq_bind, bind_eq_some_iff, Prod.exists] at decoded
  obtain ⟨keySize, afterSize, readSize, round⟩ := decoded
  refine ⟨keySize, afterSize, readSize, ?_⟩
  split_ifs at round with invalid
  · exact .inl ⟨invalid, round⟩
  simp only [bind_eq_some_iff, Prod.exists] at round
  obtain ⟨info, next, readInfo, later, _, readLater, made⟩ := round
  cases made
  exact .inr ⟨info, next, later, invalid, readInfo, readLater, rfl⟩

theorem decodeDel_suffix (decoded : decodeDel keySize df = some (info, rest)) : rest <:+ df := by
  obtain ⟨-, -, zeros⟩ := decodeDel_some decoded
  have numbers := skipNumbers_suffix_self (df.drop (keySize + 1))
  rw [zeros] at numbers
  exact (suffix_cons 0 rest).trans ((suffix_cons 0 (0 :: rest)).trans
    (numbers.trans (drop_suffix _ _)))

def keysAndMerged (infos : List LoggedRequest) : List (Bytes × List Transaction) :=
  (infos.filter LoggedRequest.isTrxn).map fun info => (info.key, info.merged)

theorem keysAndMerged_cons_of_isTrxn (isTrxn : info.isTrxn = true) (infos : List LoggedRequest) :
    keysAndMerged (info :: infos) = (info.key, info.merged) :: keysAndMerged infos := by
  rw [keysAndMerged, filter_cons_of_pos isTrxn, map_cons]
  rfl

theorem keysAndMerged_cons_of_not (noTrxn : info.isTrxn = false) (infos : List LoggedRequest) :
    keysAndMerged (info :: infos) = keysAndMerged infos := by
  rw [keysAndMerged, filter_cons_of_neg (by simp [noTrxn])]
  rfl

theorem keysAndMerged_fromTrxn (dels : List LoggedRequest) :
    keysAndMerged (fromTrxn dels) = keysAndMerged dels := by
  induction dels with
  | nil => rfl
  | cons info dels ih =>
    cases isTrxn : info.isTrxn with
    | true => rw [fromTrxn, dropWhile_cons_of_neg (by simp [isTrxn])]
    | false =>
      rw [fromTrxn, dropWhile_cons_of_pos (by simp [isTrxn]), keysAndMerged_cons_of_not isTrxn]
      exact ih

theorem fromTrxn_cases (dels : List LoggedRequest) :
    fromTrxn dels = [] ∨ ∃ info later, fromTrxn dels = info :: later ∧ info.isTrxn = true := by
  induction dels with
  | nil => exact .inl rfl
  | cons info dels ih =>
    cases isTrxn : info.isTrxn with
    | true =>
      refine .inr ⟨info, dels, ?_, isTrxn⟩
      rw [fromTrxn, dropWhile_cons_of_neg (by simp [isTrxn])]
    | false =>
      rw [fromTrxn, dropWhile_cons_of_pos (by simp [isTrxn])]
      exact ih

theorem Ahead.round (isSuffix : df <:+ (fromTrxn dels).flatMap LoggedRequest.encodeDel ++ tail)
    (fits : ∀ info ∈ dels, info.Fits) (decoded : decodeDels (count + 1) df = some (infos, rest))
    (same : keysAndMerged infos = keysAndMerged dels) :
    ∃ next left later, Ahead next left tail ∧ (∀ info ∈ left, info.Fits) ∧
      decodeDels count next = some (later, rest) ∧ keysAndMerged later = keysAndMerged left := by
  obtain ⟨_, afterSize, readSize, round⟩ := decodeDels_succ decoded
  have afterAhead : Ahead afterSize dels tail := by
    have size := takeFixed_length readSize
    have shorter : afterSize.length < df.length := by omega
    rw [takeFixed_suffix readSize] at shorter ⊢
    exact ⟨(drop_suffix _ _).trans isSuffix, shorter.trans_le isSuffix.length_le⟩
  rcases round with ⟨-, readLater⟩ | ⟨info, next, later, -, readInfo, readLater, rfl⟩
  · exact ⟨afterSize, dels, infos, afterAhead, fits, readLater, same⟩
  cases isTrxn : info.isTrxn with
  | false =>
    rw [keysAndMerged_cons_of_not isTrxn] at same
    exact ⟨next, dels, later, afterAhead.later (decodeDel_suffix readInfo), fits, readLater, same⟩
  | true =>
    rw [keysAndMerged_cons_of_isTrxn isTrxn, ← keysAndMerged_fromTrxn dels] at same
    rcases fromTrxn_cases dels with none | ⟨written, others, first, writtenTrxn⟩
    · rw [none] at same
      cases same
    have inDels : ∀ info ∈ written :: others, info ∈ dels := by
      intro _ inRest
      rw [← first] at inRest
      exact (dropWhile_suffix _).subset inRest
    rw [first, keysAndMerged_cons_of_isTrxn writtenTrxn] at same
    have heads := head_eq_of_cons_eq same
    rw [first, flatMap_cons, append_assoc] at isSuffix
    have ahead := Ahead.step writtenTrxn (fits written (inDels written mem_cons_self))
      isSuffix readSize readInfo (congrArg Prod.fst heads) (congrArg Prod.snd heads)
    exact ⟨next, others, later, ahead,
      fun other inOthers => fits other (inDels other (mem_cons_of_mem _ inOthers)),
      readLater, tail_eq_of_cons_eq same⟩

theorem keysAndMerged_eq_nil_iff (dels : List LoggedRequest) :
    keysAndMerged dels = [] ↔ fromTrxn dels = [] := by
  rw [← keysAndMerged_fromTrxn]
  constructor
  · intro empty
    rcases fromTrxn_cases dels with none | ⟨_, _, first, isTrxn⟩
    · exact none
    rw [first, keysAndMerged_cons_of_isTrxn isTrxn] at empty
    cases empty
  intro none
  rw [none]
  rfl

theorem Ahead.run (ahead : Ahead df dels tail) (fits : ∀ info ∈ dels, info.Fits)
    (decoded : decodeDels count df = some (infos, rest))
    (same : keysAndMerged infos = keysAndMerged dels) : rest.length < tail.length := by
  induction count generalizing df dels infos with
  | zero =>
    cases decoded
    have shorter := ahead.2
    rw [(keysAndMerged_eq_nil_iff dels).mp same.symm, flatMap_nil, nil_append] at shorter
    exact shorter
  | succ count ih =>
    obtain ⟨_, _, _, nextAhead, leftFit, readLater, sameLater⟩ :=
      Ahead.round ahead.1 fits decoded same
    exact ih nextAhead leftFit readLater sameLater

theorem decodeDels_not_trxn (noTrxn : info.isTrxn = false) (count : Nat) (tail : Bytes) :
    decodeDels (count + 1) (info.encodeDel ++ tail) = decodeDels count tail := by
  rw [LoggedRequest.encodeDel, if_neg (by simp [noTrxn])]
  simp [decodeDels, takeFixed, decodeFixed]

theorem decodeDels_all_not_trxn (dels : List LoggedRequest) (none : keysAndMerged dels = [])
    (tail : Bytes) :
    decodeDels dels.length (dels.flatMap LoggedRequest.encodeDel ++ tail) = some ([], tail) := by
  induction dels with
  | nil => rfl
  | cons info dels ih =>
    cases isTrxn : info.isTrxn with
    | true =>
      rw [keysAndMerged_cons_of_isTrxn isTrxn] at none
      cases none
    | false =>
      rw [keysAndMerged_cons_of_not isTrxn] at none
      rw [length_cons, flatMap_cons, append_assoc, decodeDels_not_trxn isTrxn]
      exact ih none

theorem decodeDels_in_step (some : keysAndMerged dels ≠ []) (fits : ∀ info ∈ dels, info.Fits)
    (decoded : decodeDels count (dels.flatMap LoggedRequest.encodeDel ++ tail) =
      .some (infos, rest))
    (same : keysAndMerged infos = keysAndMerged dels) : rest.length < tail.length := by
  induction dels generalizing count with
  | nil => exact absurd rfl some
  | cons info dels ih =>
    cases count with
    | zero =>
      cases decoded
      exact absurd same.symm some
    | succ =>
      cases isTrxn : info.isTrxn with
      | false =>
        rw [keysAndMerged_cons_of_not isTrxn] at some same
        rw [flatMap_cons, append_assoc, decodeDels_not_trxn isTrxn] at decoded
        exact ih some (fun other inDels => fits other (mem_cons_of_mem _ inDels)) decoded same
      | true =>
        have whole : fromTrxn (info :: dels) = info :: dels := by
          rw [fromTrxn, dropWhile_cons_of_neg (by simp [isTrxn])]
        rw [← whole] at decoded
        obtain ⟨_, _, _, ahead, leftFit, readLater, sameLater⟩ :=
          Ahead.round suffix_rfl fits decoded same
        exact ahead.run leftFit readLater sameLater

theorem decodePuts_succ {infos : List (Nat × LoggedRequest)}
    (decoded : decodePuts (count + 1) df = some (infos, rest)) :
    ∃ keyOffset afterOffset info next later, df = keyOffset :: afterOffset ∧
      decodeTransactionInfo [] 0 afterOffset = some (info, next) ∧
      decodePuts count next = some (later, rest) ∧ infos = (keyOffset.toNat, info) :: later := by
  simp only [decodePuts, bind_eq_bind, bind_eq_some_iff, Prod.exists] at decoded
  obtain ⟨keyOffset, afterOffset, readOffset, info, next, readInfo, later, _, readLater,
    made⟩ := decoded
  cases made
  cases df with
  | nil => cases readOffset
  | cons =>
    cases readOffset
    exact ⟨keyOffset, afterOffset, info, next, later, rfl, readInfo, readLater, rfl⟩

theorem decodePuts_zero {offset : UInt8} {infos : List (Nat × LoggedRequest)}
    (decoded : decodePuts (count + 1) (offset :: df) = some (infos, rest)) : 0 :: rest <:+ df := by
  induction count generalizing offset df infos with
  | zero =>
    obtain ⟨_, _, _, _, _, bytes, readInfo, readLater, -⟩ := decodePuts_succ decoded
    cases bytes
    cases readLater
    obtain ⟨-, -, zeros⟩ := decodeTransactionInfo_some readInfo
    have numbers := skipNumbers_suffix_self df
    rw [zeros] at numbers
    exact (suffix_cons 0 (0 :: rest)).trans numbers
  | succ count ih =>
    obtain ⟨_, _, _, _, _, bytes, readInfo, readLater, -⟩ := decodePuts_succ decoded
    cases bytes
    obtain ⟨-, -, zeros⟩ := decodeTransactionInfo_some readInfo
    have numbers := skipNumbers_suffix_self df
    rw [zeros] at numbers
    obtain ⟨nextOffset, afterNext, -, -, -, nextBytes, -⟩ := decodePuts_succ readLater
    rw [nextBytes] at readLater numbers
    have inNext := (suffix_cons nextOffset afterNext).trans ((suffix_cons 0 _).trans ((suffix_cons 0
      _).trans numbers))
    exact (ih readLater).trans inNext

theorem decodePuts_suffix {infos : List (Nat × LoggedRequest)}
    (decoded : decodePuts count df = some (infos, rest)) : rest <:+ df := by
  cases count with
  | zero =>
    cases decoded
    exact suffix_rfl
  | succ =>
    obtain ⟨keyOffset, afterOffset, -, -, -, bytes, -⟩ := decodePuts_succ decoded
    rw [bytes] at decoded ⊢
    exact (suffix_cons 0 rest).trans ((decodePuts_zero decoded).trans
      (suffix_cons keyOffset afterOffset))

theorem encodePuts_cases (offset : Nat) (puts : List LoggedRequest) : encodePuts offset puts = [] ∨
      ∃ first info later, offset ≤ first ∧ first + later.length < offset + puts.length ∧
        info ∈ puts ∧ encodePuts offset puts =
          UInt8.ofNat first :: (info.encodeInfo ++ encodePuts (first + 1) later) := by
  induction puts generalizing offset with
  | nil => exact .inl rfl
  | cons info puts ih =>
    cases isTrxn : info.isTrxn with
    | true =>
      refine .inr ⟨offset, info, puts, le_refl _, ?_, mem_cons_self, ?_⟩
      · rw [length_cons]
        omega
      · rw [encodePuts, LoggedRequest.encodePut, if_pos isTrxn, cons_append]
    | false =>
      have passed : encodePuts offset (info :: puts) = encodePuts (offset + 1) puts := by
        rw [encodePuts, LoggedRequest.encodePut, if_neg (by simp [isTrxn]), nil_append]
      rw [passed]
      rcases ih (offset + 1) with none | ⟨first, put, later, _, _, inPuts, bytes⟩
      · exact .inl none
      refine .inr ⟨first, put, later, by omega, ?_, mem_cons_of_mem _ inPuts, bytes⟩
      rw [length_cons]
      omega

theorem encodePuts_ne_zero {offset : Nat} {puts : List LoggedRequest} {bytes : Bytes}
    (positive : 0 < offset) (room : offset + puts.length ≤ 256)
    (zero : encodePuts offset puts ++ tail = 0 :: bytes) : tail = 0 :: bytes := by
  rcases encodePuts_cases offset puts with none | ⟨first, _, _, _, _, -, written⟩
  · rw [none] at zero
    exact zero
  rw [written] at zero
  have isZero : UInt8.ofNat first = 0 := head_eq_of_cons_eq zero
  have v := congrArg UInt8.toNat isZero
  rw [Varint.byte_toNat (by omega)] at v
  change first = 0 at v
  omega

theorem encodeVarint16_zero {bytes : Bytes} (small : v < 2 ^ 16)
    (zero : encodeVarint16 v ++ tail = 0 :: bytes) : v = 0 ∧ tail = bytes := by
  have decoded := Varint.decode_encode 2 v tail (by omega)
  change Varint.decode 3 (encodeVarint16 v ++ tail) = some (v, tail) at decoded
  rw [zero] at decoded
  cases decoded
  exact ⟨rfl, rfl⟩

theorem LoggedRequest.decode_first_put {decoded : LoggedRequest} {first nrDeletes : Nat}
    {later : List LoggedRequest} {deletes next : Bytes} (fits : info.Fits)
    (room : first + 1 + later.length ≤ 256) (deletesLt : nrDeletes < 256)
    (read : decodeTransactionInfo [] 0 (info.encodeInfo ++ (encodePuts (first + 1) later ++
      (UInt8.ofNat nrDeletes :: deletes))) = some (decoded, next)) :
    nrDeletes = 0 ∧ next = deletes := by
  obtain ⟨-, -, zeros⟩ := decodeTransactionInfo_some read
  rw [LoggedRequest.skipNumbers_encodeInfo fits] at zeros
  obtain ⟨noMerged, afterCount⟩ := encodeVarint16_zero fits.merged_lt zeros
  rw [length_eq_zero_iff.mp noMerged, flatMap_nil, nil_append] at afterCount
  have count := encodePuts_ne_zero (Nat.succ_pos first) room afterCount
  have isZero := congrArg UInt8.toNat (head_eq_of_cons_eq count)
  rw [Varint.byte_toNat deletesLt] at isZero
  exact ⟨isZero, (tail_eq_of_cons_eq count).symm⟩

theorem keysAndMerged_eq_transactions (infos : List LoggedRequest) : keysAndMerged infos =
      (transactions infos).map fun (_, key, _, _, merged) => (key, merged) := by
  have general : ∀ offset, keysAndMerged infos =
      ((infos.zipIdx offset).filterMap fun (info, offset) =>
        if info.isTrxn then some (offset, info.key, info.colId, info.head, info.merged)
        else none).map fun (_, key, _, _, merged) => (key, merged) := by
    induction infos with
    | nil =>
      intro offset
      rfl
    | cons info infos ih =>
      intro offset
      cases isTrxn : info.isTrxn with
      | true =>
        rw [keysAndMerged_cons_of_isTrxn isTrxn, ih (offset + 1)]
        simp [isTrxn]
      | false =>
        rw [keysAndMerged_cons_of_not isTrxn, ih (offset + 1)]
        simp [isTrxn]
  exact general 0

theorem initWithDeviceFormat_some {buffer : Bytes} {restored : RestoredMeta}
    (init : initWithDeviceFormat buffer = some restored) :
    ∃ bitmap afterBitmap orgKeyCnt afterCnt nrPuts afterPutCnt decodedPuts afterPuts nrDeletes
        afterDelCnt dels afterDels nextIKeySeq rest,
      takeFixed 4 buffer = some (bitmap, afterBitmap) ∧
      afterBitmap = orgKeyCnt :: afterCnt ∧ afterCnt = nrPuts :: afterPutCnt ∧
      decodePuts nrPuts.toNat afterPutCnt = some (decodedPuts, afterPuts) ∧
      afterPuts = nrDeletes :: afterDelCnt ∧
      decodeDels nrDeletes.toNat afterDelCnt = some (dels, afterDels) ∧
      takeFixed 8 afterDels = some (nextIKeySeq, rest) ∧
      (restored.nextIKeySeq = none ∨ ¬ (decodedPuts = [] ∧ dels = []) ∧ restored.dels = dels) := by
  have cons : ∀ {input : Bytes} {byte : UInt8} {rest : Bytes},
      getByte input = some (byte, rest) → input = byte :: rest := by
    intro input _ rest read
    cases input with
    | nil => cases read
    | cons =>
      cases read
      rfl
  simp only [initWithDeviceFormat, bind_eq_bind, bind_eq_some_iff, Prod.exists] at init
  obtain ⟨bitmap, afterBitmap, readBitmap, orgKeyCnt, afterCnt, readCnt, nrPuts, afterPutCnt,
    readPutCnt, decodedPuts, afterPuts, readPuts, nrDeletes, afterDelCnt, readDelCnt, dels,
    afterDels, readDels, nextIKeySeq, rest, readNext, made⟩ := init
  refine ⟨bitmap, afterBitmap, orgKeyCnt, afterCnt, nrPuts, afterPutCnt, decodedPuts, afterPuts,
    nrDeletes, afterDelCnt, dels, afterDels, nextIKeySeq, rest, readBitmap, cons readCnt,
    cons readPutCnt, readPuts, cons readDelCnt, readDels, readNext, ?_⟩
  split_ifs at made with none
  · cases made
    exact .inl rfl
  obtain ⟨_, -, same⟩ := bind_eq_some_iff.mp made
  cases same
  exact .inr ⟨none, rfl⟩

namespace LoggedMeta

theorem ahead_after_puts (info : LoggedMeta) {nrDeletes : UInt8} {afterDelCnt tail : Bytes}
    {decodedPuts : List (Nat × LoggedRequest)} (some : info.puts ≠ [])
    (decoded : decodePuts info.puts.length (encodePuts 0 info.puts ++
        (UInt8.ofNat info.dels.length :: (info.dels.flatMap LoggedRequest.encodeDel ++ tail))) =
      .some (decodedPuts, nrDeletes :: afterDelCnt)) :
    Ahead afterDelCnt info.dels tail := by
  obtain ⟨count, length⟩ : ∃ count, info.puts.length = count + 1 :=
    Nat.exists_eq_succ_of_ne_zero (length_pos_iff.mpr some).ne'
  have delsLe := info.dels_le
  have putsLe := info.puts_le
  rw [length] at decoded
  rcases encodePuts_cases 0 info.puts with none | ⟨first, put, _, -, _, inPuts, written⟩
  · -- the delete count is taken for the offset of the first put
    rw [none, nil_append] at decoded
    have ahead := Ahead.of_zero (decodePuts_zero decoded)
    exact ahead.later (suffix_cons nrDeletes afterDelCnt)
  rw [written, cons_append, append_assoc] at decoded
  obtain ⟨_, _, _, _, _, bytes, readInfo, readLater, -⟩ := decodePuts_succ decoded
  cases bytes
  have putFits := info.fits put (mem_append_left _ inPuts)
  obtain ⟨noDels, isNext⟩ := LoggedRequest.decode_first_put putFits (by omega) (by omega) readInfo
  have empty := length_eq_zero_iff.mp noDels
  have inTail := decodePuts_suffix readLater
  rw [isNext] at inTail
  rw [empty] at inTail ⊢
  have shorter := inTail.length_le
  rw [length_cons] at shorter
  exact ⟨(suffix_cons nrDeletes afterDelCnt).trans inTail, shorter⟩

theorem takeFixed_buildDeviceFormat (info : LoggedMeta) {bitmap : Nat} {rest : Bytes}
    (taken : takeFixed 4 info.buildDeviceFormat = some (bitmap, rest)) :
    rest = UInt8.ofNat info.orgKeyCnt :: (UInt8.ofNat info.puts.length ::
      (encodePuts 0 info.puts ++ (UInt8.ofNat info.dels.length ::
        (info.dels.flatMap LoggedRequest.encodeDel ++ encodeFixed64 info.nextIKeySeq)))) := by
  rw [takeFixed_suffix taken, buildDeviceFormat]
  exact drop_left' (length_encodeFixed32 _)

end LoggedMeta

/-- Whatever the requests of the block carry, recovery does not get back the meta that was
written: it fails, reads past the end or loses the next internal key. -/
theorem keyBlockMeta_never_restored (info : LoggedMeta) : ¬ info.Restores := by
  rintro ⟨restored, init, same⟩
  obtain ⟨_, _, _, _, _, _, decodedPuts, _, _, _, dels, _, _, _, readBitmap, rfl, rfl, readPuts,
    rfl, readDels, readNext, ending⟩ := initWithDeviceFormat_some init
  have delsLe := info.dels_le
  have putsLe := info.puts_le
  have start := info.takeFixed_buildDeviceFormat readBitmap
  rw [cons.injEq, cons.injEq] at start
  obtain ⟨-, rfl, rfl⟩ := start
  rw [Varint.byte_toNat (by omega)] at readPuts
  have enough := takeFixed_length readNext
  have tailLength : (encodeFixed64 info.nextIKeySeq).length = 8 := length_encodeFixed64 _
  have delsFit : ∀ del ∈ info.dels, del.Fits :=
    fun del inDels => info.fits del (mem_append_right _ inDels)
  obtain ⟨someTrxn, logged⟩ : ¬ (decodedPuts = [] ∧ dels = []) ∧ restored.dels = dels := by
    rcases ending with noLog | logged
    · rw [same.nextIKeySeq] at noLog
      cases noLog
    · exact logged
  have sameDels : keysAndMerged dels = keysAndMerged info.dels := by
    rw [keysAndMerged_eq_transactions, keysAndMerged_eq_transactions, ← same.dels, logged]
  by_cases noPuts : info.puts = []
  · rw [noPuts] at readPuts
    cases readPuts
    rw [Varint.byte_toNat (by omega)] at readDels
    by_cases noTrxn : keysAndMerged info.dels = []
    · rw [decodeDels_all_not_trxn info.dels noTrxn] at readDels
      cases readDels
      exact someTrxn ⟨rfl, rfl⟩
    have short := decodeDels_in_step noTrxn delsFit readDels sameDels
    omega
  · have short := (info.ahead_after_puts noPuts readPuts).run delsFit readDels sameDels
    omega

def onePlainPut : LoggedMeta :=
  { bitmap := 1
    orgKeyCnt := 1
    puts := [noTrxn]
    dels := []
    nextIKeySeq := 7
    bitmap_lt := by decide
    orgKeyCnt_le := by decide
    puts_le := by decide
    dels_le := by decide
    fits := by
      intro info inPuts
      rw [List.append_nil, List.mem_singleton] at inPuts
      rw [inPuts]
      exact ⟨by decide, by decide, by decide, by decide, by decide, fun _ => rfl⟩
    nextIKeySeq_lt := by decide }

theorem plain_put_not_restored :
    initWithDeviceFormat onePlainPut.buildDeviceFormat = none ∧ ¬ onePlainPut.Restores := by
  have failed : initWithDeviceFormat onePlainPut.buildDeviceFormat = none := by decide
  refine ⟨failed, ?_⟩
  rintro ⟨_, init, -⟩
  rw [failed] at init
  cases init

end InsDb
