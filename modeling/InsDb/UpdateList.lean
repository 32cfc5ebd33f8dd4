import InsDb.Coding

/-!
# The update list of an SKTable

A flush writes the key blocks whose metas it is about to delete or change in front of the
table, in parts of at most the request size.  After a crash recovery puts the parts together
and decodes the two lists.
-/

namespace InsDb

open InsDb.Library List
open Varint (Bytes)

def RequestType.code : RequestType → Int
  | .put => 0
  | .del => 1

structure UpdateEntry where
  ikeySeq : Nat
  offset : Nat
  requestType : RequestType
  ikeySeq_lt : ikeySeq < 2 ^ 64
  offset_lt : offset < 32
deriving DecidableEq, Repr

structure DecodedUpdate where
  ikeySeq : Nat
  offset : Nat
  requestType : Int
deriving DecidableEq, Repr

variable (entry : UpdateEntry)

def UpdateEntry.decoded : DecodedUpdate :=
  ⟨entry.ikeySeq, entry.offset, entry.requestType.code⟩

def UpdateEntry.encode : Bytes :=
  encodeVarint64 entry.ikeySeq ++
    [UInt8.ofNat (entry.offset ||| entry.requestType.code.toNat <<< 7)]

variable (alignShift : Fin 31)

/-- The entries of both lists behind three numbers, padded; the total size is filled in last. -/
def updateListBytes (deleted updated : List UpdateEntry) : Bytes :=
  let entries := encodeFixed32 deleted.length ++ encodeFixed32 updated.length ++
    deleted.flatMap UpdateEntry.encode ++ updated.flatMap UpdateEntry.encode
  let size := 4 + entries.length
  let padding := paddingSize (kRequestAlignSize alignShift) size
  encodeFixed32 (size + padding) ++ entries ++ List.replicate padding 0xff

structure UpdateListBuffer where
  bytes : Bytes
  sized : decodeFixed 4 bytes = bytes.length % 2 ^ 32
  header : 12 ≤ bytes.length

theorem length_updateListBytes (deleted updated : List UpdateEntry) :
    (updateListBytes alignShift deleted updated).length =
      12 + (deleted.flatMap UpdateEntry.encode).length +
        (updated.flatMap UpdateEntry.encode).length +
        paddingSize (kRequestAlignSize alignShift) (12 +
          (deleted.flatMap UpdateEntry.encode).length +
          (updated.flatMap UpdateEntry.encode).length) := by
  simp only [updateListBytes, length_append, length_encodeFixed32, length_replicate]
  have sizes : 4 + (4 + 4 + (deleted.flatMap UpdateEntry.encode).length +
      (updated.flatMap UpdateEntry.encode).length) =
      12 + (deleted.flatMap UpdateEntry.encode).length +
        (updated.flatMap UpdateEntry.encode).length := by
    omega
  rw [sizes]

/-- `BuildUpdateList`. -/
def buildUpdateList (deleted updated : List UpdateEntry) : UpdateListBuffer where
  bytes := updateListBytes alignShift deleted updated
  sized := by
    simp only [updateListBytes, List.append_assoc, decodeFixed_encodeFixed32, List.length_append,
      length_encodeFixed32, List.length_replicate]
    congr 1
    omega
  header := by
    rw [length_updateListBytes]
    omega

/-- The value of a `char` on the platforms where it is signed. -/
def signedChar (byte : UInt8) : Int :=
  if byte.toNat < 128 then byte.toNat else byte.toNat - 256

def getUpdateEntry (input : Bytes) : Option (DecodedUpdate × Bytes) :=
  match getVarint64 input with
  | some (ikeySeq, packed :: rest) =>
    some (⟨ikeySeq, packed.toNat % 128, signedChar packed >>> (7 : Nat)⟩, rest)
  | _ => none

/-- `count` entries; on a malformed one the list stays as it is by then. -/
def getUpdateEntries : Nat → Bytes → List DecodedUpdate × Option Bytes
  | 0, input => ([], some input)
  | count + 1, input =>
    match getUpdateEntry input with
    | some (entry, rest) =>
      let later := getUpdateEntries count rest
      (entry :: later.1, later.2)
    | none => ([], none)

/-- How a function ends: with a return statement, or at the end of a body that has none. -/
inductive Ending where
  | returned (success : Bool)
  | withoutValue
deriving DecidableEq, Repr

structure DecodedUpdateList where
  ending : Ending
  deleted : List DecodedUpdate
  updated : List DecodedUpdate
deriving DecidableEq, Repr

/-- `DecodeUpdateList`.  Its only return statements are the two for a malformed entry. -/
def decodeUpdateList (buffer : Bytes) (size : Nat) : DecodedUpdateList :=
  let buf := buffer.take size
  let delCnt := decodeFixed 4 (buf.drop 4)
  let updateCnt := decodeFixed 4 (buf.drop 8)
  match getUpdateEntries delCnt (buf.drop 12) with
  | (deleted, none) => ⟨.returned false, deleted, []⟩
  | (deleted, some rest) =>
    match getUpdateEntries updateCnt rest with
    | (updated, none) => ⟨.returned false, deleted, updated⟩
    | (updated, some _) => ⟨.withoutValue, deleted, updated⟩

/-- The entry as it comes back: the shift of a signed byte makes −1 of a delete. -/
def UpdateEntry.readBack : DecodedUpdate :=
  ⟨entry.ikeySeq, entry.offset, -entry.requestType.code⟩

private theorem packed_byte (offset : Fin 32) (requestType : RequestType) :
    (UInt8.ofNat (offset ||| requestType.code.toNat <<< 7)).toNat % 128 = offset ∧
      signedChar (UInt8.ofNat (offset ||| requestType.code.toNat <<< 7)) >>> (7 : Nat) =
        -requestType.code := by
  cases requestType <;> revert offset <;> decide

theorem getUpdateEntry_encode (tail : Bytes) :
    getUpdateEntry (entry.encode ++ tail) = some (entry.readBack, tail) := by
  obtain ⟨offset, requestType⟩ := packed_byte ⟨entry.offset, entry.offset_lt⟩ entry.requestType
  unfold UpdateEntry.encode getUpdateEntry
  rw [append_assoc, getVarint64_encode entry.ikeySeq_lt, singleton_append]
  simp only [offset, requestType, UpdateEntry.readBack]

theorem getUpdateEntries_encode (entries : List UpdateEntry) (tail : Bytes) :
    getUpdateEntries entries.length (entries.flatMap UpdateEntry.encode ++ tail) =
      (entries.map UpdateEntry.readBack, some tail) := by
  induction entries with
  | nil => rfl
  | cons entry entries ih =>
    rw [flatMap_cons, append_assoc, length_cons, getUpdateEntries, getUpdateEntry_encode]
    simp [ih]

theorem UpdateEntry.length_encode_pos : 0 < entry.encode.length := by
  rw [UpdateEntry.encode, length_append, length_singleton]
  omega

theorem decodeUpdateList_build {deleted updated : List UpdateEntry}
    (fits : (updateListBytes alignShift deleted updated).length < 2 ^ 32) :
    decodeUpdateList (buildUpdateList alignShift deleted updated).bytes
        ((buildUpdateList alignShift deleted updated).bytes.length % 2 ^ 32) =
      ⟨.withoutValue, deleted.map UpdateEntry.readBack, updated.map UpdateEntry.readBack⟩ := by
  have counts := length_updateListBytes alignShift deleted updated
  have deletedFit : deleted.length < 2 ^ 32 := by
    have shorter := length_le_length_flatMap UpdateEntry.length_encode_pos deleted
    omega
  have updatedFit : updated.length < 2 ^ 32 := by
    have shorter := length_le_length_flatMap UpdateEntry.length_encode_pos updated
    omega
  have delCnt : decodeFixed 4 ((updateListBytes alignShift deleted updated).drop 4) =
      deleted.length := by
    change decodeFixed 4 (encodeFixed32 deleted.length ++ _) = _
    rw [decodeFixed_encodeFixed32, Nat.mod_eq_of_lt deletedFit]
  have updateCnt : decodeFixed 4 ((updateListBytes alignShift deleted updated).drop 8) =
      updated.length := by
    change decodeFixed 4 (encodeFixed32 updated.length ++ _) = _
    rw [decodeFixed_encodeFixed32, Nat.mod_eq_of_lt updatedFit]
  obtain ⟨tail, entries⟩ : ∃ tail, (updateListBytes alignShift deleted updated).drop 12 =
      deleted.flatMap UpdateEntry.encode ++ (updated.flatMap UpdateEntry.encode ++ tail) := by
    simp only [updateListBytes, append_assoc]
    exact ⟨_, rfl⟩
  change decodeUpdateList (updateListBytes alignShift deleted updated)
    ((updateListBytes alignShift deleted updated).length % 2 ^ 32) = _
  simp only [decodeUpdateList, Nat.mod_eq_of_lt fits, take_length, delCnt, updateCnt,
    entries, getUpdateEntries_encode]

theorem readBack_eq_decoded_iff : entry.readBack = entry.decoded ↔ entry.requestType = .put := by
  cases type : entry.requestType <;>
    simp [UpdateEntry.readBack, UpdateEntry.decoded, RequestType.code, type]

/-- Decoding reports success and returns the lists that were built in. -/
def ReportsSame (deleted updated : List UpdateEntry) : Prop :=
  let list := buildUpdateList alignShift deleted updated
  decodeUpdateList list.bytes (list.bytes.length % 2 ^ 32) =
    ⟨.returned true, deleted.map UpdateEntry.decoded, updated.map UpdateEntry.decoded⟩

theorem decodeUpdateList_ending (buffer : Bytes) (size : Nat) :
    (decodeUpdateList buffer size).ending ≠ .returned true := by
  unfold decodeUpdateList
  simp only
  split
  · simp
  · split <;> simp

/-- No buffer is decoded with success; and of one whose size fits, the lists come back exactly
if all their entries are puts. -/
theorem updateList_never_reported (alignShift : Fin 31) (deleted updated : List UpdateEntry) :
    ¬ ReportsSame alignShift deleted updated ∧
      ((updateListBytes alignShift deleted updated).length < 2 ^ 32 →
        ((decodeUpdateList (buildUpdateList alignShift deleted updated).bytes
              ((buildUpdateList alignShift deleted updated).bytes.length % 2 ^ 32)).deleted =
            deleted.map UpdateEntry.decoded ∧
          (decodeUpdateList (buildUpdateList alignShift deleted updated).bytes
              ((buildUpdateList alignShift deleted updated).bytes.length % 2 ^ 32)).updated =
            updated.map UpdateEntry.decoded ↔
          ∀ entry ∈ deleted ++ updated, entry.requestType = .put)) := by
  constructor
  · intro same
    apply decodeUpdateList_ending (buildUpdateList alignShift deleted updated).bytes
      ((buildUpdateList alignShift deleted updated).bytes.length % 2 ^ 32)
    exact congrArg DecodedUpdateList.ending same
  intro fits
  rw [decodeUpdateList_build alignShift fits]
  simp [readBack_eq_decoded_iff, or_imp, forall_and]

def deletedColumn : UpdateEntry := ⟨1088, 3, .del, by decide, by decide⟩

theorem deleted_column_not_reported :
    decodeUpdateList (buildUpdateList 2 [] [deletedColumn]).bytes 16 =
        ⟨.withoutValue, [], [⟨1088, 3, -1⟩]⟩ ∧
      ¬ ReportsSame 2 [] [deletedColumn] := by
  unfold ReportsSame
  decide

/-- The writes of the flush: part `i` of the list goes to the split sequence `i`. -/
def writeUpdateList (list : UpdateListBuffer) (device : Nat → Option Bytes) :
    Nat → Option Bytes :=
  let updateListSize := list.bytes.length % 2 ^ 32
  if updateListSize = 0 then device
  else
    Parts.store
      (Parts.split kDeviceRquestMaxSize (numRequests updateListSize)
        (list.bytes.take updateListSize)) device

/-- The reads of `CleanupSktUpdateList`.  The remaining size is not counted down, so the later
parts are all read with the same buffer size. -/
def readUpdateList (device : Nat → Option Bytes) : Option Bytes :=
  (deviceGet device kDeviceRquestMaxSize 0).bind fun first =>
    let dataSize := decodeFixed 4 first
    if kDeviceRquestMaxSize < dataSize then
      let remainSize := (dataSize + 2 ^ 32 - first.length) % 2 ^ 32
      (Parts.collect (deviceGet device (min remainSize kDeviceRquestMaxSize)) 1
        (numRequests dataSize - 1)).map fun rest => first ++ rest
    else
      some first

theorem length_readUpdateList_le {dev : Nat → Option Bytes} {contents : Bytes}
    (read : readUpdateList dev = some contents) :
    contents.length + kDeviceRquestMaxSize ≤ 2 ^ 32 := by
  obtain ⟨first, got, rest⟩ := Option.bind_eq_some_iff.mp read
  have firstLength := deviceGet_length_le got
  have bound := numRequests_le (decodeFixed 4 first)
  by_cases more : kDeviceRquestMaxSize < decodeFixed 4 first
  · rw [if_pos more] at rest
    obtain ⟨_, collected, rfl⟩ := Option.map_eq_some_iff.mp rest
    have partLength : ∀ number part,
        deviceGet dev (min ((decodeFixed 4 first + 2 ^ 32 - first.length) % 2 ^ 32)
          kDeviceRquestMaxSize) number = some part → part.length ≤ kDeviceRquestMaxSize := by
      intro _ _ gotPart
      exact (deviceGet_length_le gotPart).trans (Nat.min_le_right _ _)
    have laterLength := Parts.length_collect_le partLength collected
    rw [length_append]
    simp only [kDeviceRquestMaxSize] at *
    omega
  · rw [if_neg more] at rest
    cases rest
    simp only [kDeviceRquestMaxSize] at *
    omega

theorem readUpdateList_write {list : UpdateListBuffer}
    (small : list.bytes.length + kDeviceRquestMaxSize ≤ 2 ^ 32) (dev : Nat → Option Bytes) :
    readUpdateList (writeUpdateList list dev) = some list.bytes := by
  have size : list.bytes.length % 2 ^ 32 = list.bytes.length := by
    apply Nat.mod_eq_of_lt
    simp only [kDeviceRquestMaxSize] at small
    omega
  have nonempty : list.bytes.length ≠ 0 := by
    have header := list.header
    omega
  have covers := numRequests_covers small
  obtain ⟨more, count⟩ : ∃ more, numRequests list.bytes.length = more + 1 := by
    apply Nat.exists_eq_add_one.mpr
    apply Nat.pos_of_ne_zero
    intro none
    rw [none] at covers
    omega
  have written : writeUpdateList list dev =
      Parts.store (Parts.split kDeviceRquestMaxSize (more + 1) list.bytes) dev := by
    simp only [writeUpdateList, size, if_neg nonempty, take_length, count]
  have firstPart : deviceGet (writeUpdateList list dev) kDeviceRquestMaxSize 0 =
      some (list.bytes.take kDeviceRquestMaxSize) := by
    rw [written, deviceGet_firstPart]
  have dataSize : decodeFixed 4 (list.bytes.take kDeviceRquestMaxSize) = list.bytes.length := by
    rw [decodeFixed_take (by simp [kDeviceRquestMaxSize]), list.sized, size]
  rw [readUpdateList, firstPart, Option.bind_some]
  simp only [dataSize]
  by_cases long : kDeviceRquestMaxSize < list.bytes.length
  · have firstLength : (list.bytes.take kDeviceRquestMaxSize).length = kDeviceRquestMaxSize := by
      rw [length_take]
      omega
    have remainSize : (list.bytes.length + 2 ^ 32 - kDeviceRquestMaxSize) % 2 ^ 32 =
        list.bytes.length - kDeviceRquestMaxSize := by
      omega
    have rest := collect_laterParts list.bytes more dev (Nat.le_refl _)
    have restCovers : (list.bytes.drop kDeviceRquestMaxSize).length ≤
        kDeviceRquestMaxSize * more := by
      rw [count, Nat.mul_succ] at covers
      rw [length_drop]
      omega
    rw [if_pos long, firstLength, remainSize, count, Nat.add_sub_cancel, written, rest,
      Parts.flatten_split restCovers, Option.map_some, take_append_drop]
  · rw [if_neg long, take_of_length_le (Nat.le_of_not_lt long)]

/-- The update list is put together again exactly if its size and one request more stay within
32 bits. -/
theorem updateList_reassembled_iff (list : UpdateListBuffer) (device : Nat → Option Bytes) :
    readUpdateList (writeUpdateList list device) = some list.bytes ↔
      list.bytes.length + kDeviceRquestMaxSize ≤ 2 ^ 32 := by
  constructor
  · exact length_readUpdateList_le
  intro small
  exact readUpdateList_write small device

def oversizedUpdateList : UpdateListBuffer where
  bytes := encodeFixed32 (2 ^ 32 - 2 ^ 21 + 4) ++ List.replicate (2 ^ 32 - 2 ^ 21) 0
  sized := by
    rw [decodeFixed_encodeFixed32, List.length_append, length_encodeFixed32,
      List.length_replicate, Nat.add_comm]
  header := by
    rw [List.length_append, length_encodeFixed32, List.length_replicate]
    omega

theorem oversized_update_list_lost :
    readUpdateList (writeUpdateList oversizedUpdateList fun _ => none) = none ∧
      readUpdateList (writeUpdateList oversizedUpdateList fun _ => none) ≠
        some oversizedUpdateList.bytes := by
  have length : oversizedUpdateList.bytes.length = 2 ^ 32 - 2 ^ 21 + 4 := by
    change (encodeFixed32 _ ++ replicate _ _).length = _
    rw [length_append, length_encodeFixed32, length_replicate, Nat.add_comm]
  have nothing : writeUpdateList oversizedUpdateList (fun _ => none) = fun _ => none := by
    have requests : numRequests (2 ^ 32 - 2 ^ 21 + 4) = 0 := by
      apply numRequests_eq_zero <;> simp [kDeviceRquestMaxSize]
    simp only [writeUpdateList, length]
    rw [if_neg (by omega), Nat.mod_eq_of_lt (by omega), requests]
    rfl
  rw [nothing]
  have unread : readUpdateList (fun _ => none) = none := rfl
  rw [unread]
  exact ⟨rfl, (Option.some_ne_none _).symm⟩

end InsDb
