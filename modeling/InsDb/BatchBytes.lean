import InsDb.TableImage

/-!
# The bytes of a write batch

A `WriteBatch` is one string: the number of records, then the records.  `Iterate` walks the
string and calls a handler, and `ReadRecordFromWriteBatch` reads the record at one offset.  The
two decoders are written out separately in the source.
-/

namespace InsDb

open InsDb.Library List
open Varint (Bytes)

theorem decodeFixed_encodeFixed32 (v : Nat) (rest : Bytes) :
    decodeFixed 4 (encodeFixed32 v ++ rest) = v % 2 ^ 32 := by
  simp [encodeFixed32, decodeFixed, UInt8.toNat_ofNat']
  omega

theorem decodeFixed_encodeFixed16 (v : Nat) (rest : Bytes) :
    decodeFixed 2 (encodeFixed16 v ++ rest) = v % 2 ^ 16 := by
  simp [encodeFixed16, decodeFixed, UInt8.toNat_ofNat']
  omega

@[simp] theorem length_encodeFixed32 (v : Nat) : (encodeFixed32 v).length = 4 := rfl

@[simp] theorem length_encodeFixed16 (v : Nat) : (encodeFixed16 v).length = 2 := rfl

def putSlice (slice : Bytes) : Bytes :=
  encodeFixed32 slice.length ++ slice

/-- The inverse, with the bytes after it; none if it would read past the end. -/
def takeSlice (input : Bytes) : Option (Bytes × Bytes) :=
  let len := decodeFixed 4 input
  if 4 + len ≤ input.length then
    some ((input.drop 4).take len, (input.drop 4).drop len)
  else
    none

def takeFixed16 (input : Bytes) : Option (Nat × Bytes) :=
  if 2 ≤ input.length then
    some (decodeFixed 2 input, input.drop 2)
  else
    none

theorem takeSlice_putSlice {slice : Bytes} (fits : slice.length < 2 ^ 32) (rest : Bytes) :
    takeSlice (putSlice slice ++ rest) = some (slice, rest) := by
  have len : decodeFixed 4 (putSlice slice ++ rest) = slice.length := by
    rw [putSlice, append_assoc, decodeFixed_encodeFixed32]
    exact Nat.mod_eq_of_lt fits
  have dropped : (putSlice slice ++ rest).drop 4 = slice ++ rest := by
    rw [putSlice, append_assoc]
    exact drop_left' (length_encodeFixed32 _)
  simp only [takeSlice, len, dropped]
  rw [if_pos (by simp [putSlice]), take_left, drop_left]

theorem takeFixed16_encodeFixed16 {v : Nat} (fits : v < 2 ^ 16) (rest : Bytes) :
    takeFixed16 (encodeFixed16 v ++ rest) = some (v, rest) := by
  rw [takeFixed16, decodeFixed_encodeFixed16, Nat.mod_eq_of_lt fits, if_pos (by simp)]
  rfl

inductive ValueType where
  | deletion
  | value
  | merge
deriving DecidableEq, Repr

def ValueType.tag : ValueType → UInt8
  | .deletion => 0
  | .value => 1
  | .merge => 2

def ValueType.ofTag (tag : UInt8) : Option ValueType :=
  if tag = ValueType.value.tag then
    some .value
  else if tag = ValueType.merge.tag then
    some .merge
  else if tag = ValueType.deletion.tag then
    some .deletion
  else
    none

@[simp] theorem ValueType.ofTag_tag (type : ValueType) : ofTag type.tag = some type := by
  cases type <;> decide

/-- `WriteBatch` as the source has it: `rep_`. -/
structure BatchRep where
  rep : Bytes
deriving DecidableEq, Repr

namespace BatchRep

def kHeader : Nat := 4

/-- `WriteBatch::Clear`, which is also the constructor. -/
def clear : BatchRep :=
  { rep := List.replicate kHeader 0 }

variable (batch : BatchRep)

def count : Nat :=
  decodeFixed 4 batch.rep

/-- The beginning of `Put`, `Merge` and `Delete`: one record more, of a type. -/
def addRecord (type : ValueType) (body : Bytes) : BatchRep :=
  { rep := overwrite 0 (encodeFixed32 (batch.count + 1)) batch.rep ++ type.tag :: body }

def put (key value : Bytes) (colId : Nat) : BatchRep :=
  batch.addRecord .value (putSlice key ++ putSlice value ++ encodeFixed16 colId)

def merge (batch : BatchRep) (key value : Bytes) (colId : Nat) : BatchRep :=
  batch.addRecord .merge (putSlice key ++ putSlice value ++ encodeFixed16 colId)

def delete (key : Bytes) (colId : Nat) : BatchRep :=
  batch.addRecord .deletion (putSlice key ++ encodeFixed16 colId)

def apply : Record Bytes Bytes → BatchRep
  | .put key value colId => batch.put key value colId
  | .merge key value colId => batch.merge key value colId
  | .delete key colId => batch.delete key colId

def build (calls : List (Record Bytes Bytes)) : BatchRep :=
  calls.foldl apply clear

/-- `WriteBatch::Append`. -/
def append (batch source : BatchRep) : BatchRep :=
  { rep := overwrite 0 (encodeFixed32 (batch.count + source.count)) batch.rep ++
      source.rep.drop kHeader }

end BatchRep

/-- `WriteBatch::Handler`, as what its members do to a state. -/
structure BatchHandler (State : Type) where
  put : Bytes → Bytes → Nat → State → State
  merge : Bytes → Bytes → Nat → State → Status × State
  delete : Bytes → Nat → State → State
  -- `Continue`.
  proceeds : State → Bool × State

namespace BatchHandler

variable {State : Type}

/-- After the loop of `Iterate`. -/
def finish (count found : Nat) : Status :=
  if found ≠ count then .corruption "WriteBatch has wrong count" else .ok

/-- The loop of `Iterate`, after `found` records; none if it would read past the end.  Each
round takes bytes, so that the length of the input is enough fuel. -/
def iterateLoop (handler : BatchHandler State) (count : Nat) :
    Nat → Nat → Bytes → State → Option (Status × State)
  | _, found, [], s => some (finish count found, s)
  | 0, _, _ :: _, _ => none
  | fuel + 1, found, tag :: afterTag, s =>
    let (goesOn, s) := handler.proceeds s
    if goesOn = false then
      some (finish count found, s)
    else do
      let (key, afterKey) ← takeSlice afterTag
      match ValueType.ofTag tag with
      | some .value =>
        let (value, afterValue) ← takeSlice afterKey
        let (colId, rest) ← takeFixed16 afterValue
        iterateLoop handler count fuel (found + 1) rest (handler.put key value colId s)
      | some .merge =>
        let (value, afterValue) ← takeSlice afterKey
        let (colId, rest) ← takeFixed16 afterValue
        match handler.merge key value colId s with
        | (.ok, s) => iterateLoop handler count fuel (found + 1) rest s
        | (status, s) => some (status, s)
      | some .deletion =>
        let (colId, rest) ← takeFixed16 afterKey
        iterateLoop handler count fuel (found + 1) rest (handler.delete key colId s)
      | none => some (.corruption "unknown WriteBatch tag", s)

end BatchHandler

/-- `WriteBatch::Iterate`. -/
def BatchRep.iterate {State : Type} (batch : BatchRep) (handler : BatchHandler State)
    (s : State) : Option (Status × State) :=
  if batch.rep.length < kHeader then
    some (.corruption "malformed WriteBatch (too small)", s)
  else
    handler.iterateLoop batch.count batch.rep.length 0 (batch.rep.drop kHeader) s

/-- What `ReadRecordFromWriteBatch` writes through its pointers, blob and xid apart, which it
does not touch. -/
structure RecordOut where
  tag : UInt8
  columnFamily : Nat
  key : Bytes
  value : Bytes
deriving DecidableEq, Repr

/-- `ReadRecordFromWriteBatch`; `value` is what the pointer points to before.  None if it would
read past the end. -/
def readRecordFromWriteBatch (input : Bytes) (value : Bytes) : Option (Status × RecordOut) := do
  let (tag, afterTag) ← input.head?.map fun tag => (tag, input.tail)
  let (key, afterKey) ← takeSlice afterTag
  match ValueType.ofTag tag with
  | some .value =>
    let (value, afterValue) ← takeSlice afterKey
    let (columnFamily, _) ← takeFixed16 afterValue
    return (.ok, { tag, columnFamily, key, value })
  | some .deletion =>
    let (columnFamily, _) ← takeFixed16 afterKey
    return (.ok, { tag, columnFamily, key, value })
  | some .merge =>
    let (value, afterValue) ← takeSlice afterKey
    let (columnFamily, _) ← takeFixed16 afterValue
    return (.ok, { tag, columnFamily, key, value })
  | none => return (.corruption "unknown WriteBatch tag", { tag, columnFamily := 0, key, value })

inductive WriteType where
  | putRecord
  | mergeRecord
  | deleteRecord
deriving DecidableEq, Repr

/-- The outputs of `GetEntryFromDataOffset`. -/
structure EntryOut where
  type : WriteType
  key : Bytes
  value : Bytes
deriving DecidableEq, Repr

/-- `WriteBatch::GetEntryFromDataOffset`.  The outputs hold what they held before where nothing is
written; they are none if a pointer is null.  The status of the read is not looked at. -/
def BatchRep.getEntryFromDataOffset (batch : BatchRep) (dataOffset : Nat)
    (outputs : Option EntryOut) : Option (Status × Option EntryOut) :=
  match outputs with
  | none => some (.invalidArgument "Output parameters cannot be null", none)
  | some before =>
    if dataOffset = batch.rep.length then
      some (.notFound "reached end of batch", some before)
    else if batch.rep.length < dataOffset then
      some (.invalidArgument "data offset exceed write batch size", some before)
    else do
      let (_, record) ← readRecordFromWriteBatch (batch.rep.drop dataOffset) before.value
      match ValueType.ofTag record.tag with
      | some .value => return (.ok, some ⟨.putRecord, record.key, record.value⟩)
      | some .deletion => return (.ok, some ⟨.deleteRecord, record.key, record.value⟩)
      | some .merge => return (.ok, some ⟨.mergeRecord, record.key, record.value⟩)
      | none => return (.corruption "unknown WriteBatch tag",
          some ⟨before.type, record.key, record.value⟩)

theorem encodeFixed32_congr {left right : Nat} (same : left % 2 ^ 32 = right % 2 ^ 32) :
    encodeFixed32 left = encodeFixed32 right := by
  simp only [encodeFixed32, cons.injEq, and_true]
  refine ⟨?_, ?_, ?_, ?_⟩ <;> congr 1 <;> omega

def Record.type : Record Bytes Bytes → ValueType
  | .put _ _ _ => .value
  | .merge _ _ _ => .merge
  | .delete _ _ => .deletion

def Record.colId : Record Bytes Bytes → Nat
  | .put _ _ colId => colId
  | .merge _ _ colId => colId
  | .delete _ colId => colId

def Record.body : Record Bytes Bytes → Bytes
  | .put key value colId => putSlice key ++ putSlice value ++ encodeFixed16 colId
  | .merge key value colId => putSlice key ++ putSlice value ++ encodeFixed16 colId
  | .delete key colId => putSlice key ++ encodeFixed16 colId

def Record.bytes (record : Record Bytes Bytes) : Bytes :=
  record.type.tag :: record.body

theorem Record.length_bytes (record : Record Bytes Bytes) : 7 ≤ record.bytes.length := by
  cases record <;> simp [bytes, body, putSlice] <;> omega

namespace BatchRep

def Holds (batch : BatchRep) (records : List (Record Bytes Bytes)) : Prop :=
  batch.rep = encodeFixed32 records.length ++ records.flatMap Record.bytes

theorem apply_eq_addRecord (batch : BatchRep) (record : Record Bytes Bytes) :
    batch.apply record = batch.addRecord record.type record.body := by
  cases record <;> rfl

theorem holds_clear : clear.Holds [] := by
  rfl

theorem overwrite_header {count : Nat} {header data : Bytes} (isHeader : header.length = 4) :
    overwrite 0 (encodeFixed32 count) (header ++ data) = encodeFixed32 count ++ data := by
  have dropped : (header ++ data).drop 4 = data := drop_left' isHeader
  simp [overwrite, dropped]

section

variable {batch : BatchRep} {records : List (Record Bytes Bytes)} (holds : batch.Holds records)

include holds

theorem Holds.count : batch.count = records.length % 2 ^ 32 := by
  rw [BatchRep.count, holds, decodeFixed_encodeFixed32]

theorem Holds.apply (record : Record Bytes Bytes) :
    (batch.apply record).Holds (records ++ [record]) := by
  have counted : encodeFixed32 (batch.count + 1) = encodeFixed32 (records ++ [record]).length := by
    apply encodeFixed32_congr
    rw [holds.count, List.length_append, length_singleton]
    omega
  rw [Holds, apply_eq_addRecord, addRecord, counted, holds,
    overwrite_header (length_encodeFixed32 _)]
  simp [Record.bytes]

theorem Holds.foldl_apply (calls : List (Record Bytes Bytes)) :
    (calls.foldl BatchRep.apply batch).Holds (records ++ calls) := by
  induction calls generalizing batch records with
  | nil => simpa using holds
  | cons call rest ih => simpa using ih (holds.apply call)

end

theorem holds_build (calls : List (Record Bytes Bytes)) : (build calls).Holds calls :=
  holds_clear.foldl_apply calls

theorem Holds.drop {batch : BatchRep} {records : List (Record Bytes Bytes)}
    (holds : batch.Holds records) : batch.rep.drop kHeader = records.flatMap Record.bytes := by
  rw [holds]
  exact drop_left' (length_encodeFixed32 _)

theorem Holds.append {batch source : BatchRep} {records others : List (Record Bytes Bytes)}
    (holds : batch.Holds records) (sourceHolds : source.Holds others) :
    (batch.append source).Holds (records ++ others) := by
  have counted : encodeFixed32 (batch.count + source.count) =
      encodeFixed32 (records ++ others).length := by
    apply encodeFixed32_congr
    rw [holds.count, sourceHolds.count, List.length_append]
    omega
  rw [Holds, BatchRep.append, counted, sourceHolds.drop, holds,
    overwrite_header (length_encodeFixed32 _)]
  simp

theorem Holds.length {batch : BatchRep} {records : List (Record Bytes Bytes)}
    (holds : batch.Holds records) :
    batch.rep.length = 4 + (records.flatMap Record.bytes).length := by
  rw [holds, List.length_append, length_encodeFixed32]

end BatchRep

/-- The lengths fit into a fixed32, and the column id is a `uint16_t`. -/
def Record.Fits : Record Bytes Bytes → Prop
  | .put key value colId => key.length < 2 ^ 32 ∧ value.length < 2 ^ 32 ∧ colId < 2 ^ 16
  | .merge key value colId => key.length < 2 ^ 32 ∧ value.length < 2 ^ 32 ∧ colId < 2 ^ 16
  | .delete key colId => key.length < 2 ^ 32 ∧ colId < 2 ^ 16

namespace BatchHandler

variable {State : Type}

variable (handler : BatchHandler State)

def handle : Record Bytes Bytes → State → Status × State
  | .put key value colId, s => (.ok, handler.put key value colId s)
  | .merge key value colId, s => handler.merge key value colId s
  | .delete key colId, s => (.ok, handler.delete key colId s)

/-- What `Iterate` is for: the records go to the handler in order, until it wants no more or
a merge fails. -/
def replay (handler : BatchHandler State) (count found : Nat) :
    List (Record Bytes Bytes) → State → Status × State
  | [], s => (finish count found, s)
  | record :: rest, s =>
    let (goesOn, s) := handler.proceeds s
    if goesOn = false then
      (finish count found, s)
    else
      match handler.handle record s with
      | (.ok, s) => handler.replay count (found + 1) rest s
      | (status, s) => (status, s)

theorem iterateLoop_bytes (count fuel found : Nat)
    {record : Record Bytes Bytes} (fits : record.Fits) (rest : Bytes) (s : State) :
    handler.iterateLoop count (fuel + 1) found (record.bytes ++ rest) s =
      let (goesOn, s) := handler.proceeds s
      if goesOn = false then
        some (finish count found, s)
      else
        match handler.handle record s with
        | (.ok, s) => handler.iterateLoop count fuel (found + 1) rest s
        | (status, s) => some (status, s) := by
  cases record with
  | put =>
    obtain ⟨keyFits, valueFits, colFits⟩ := fits
    simp [Record.bytes, Record.body, Record.type, iterateLoop, takeSlice_putSlice keyFits,
      takeSlice_putSlice valueFits, takeFixed16_encodeFixed16 colFits, handle]
  | merge =>
    obtain ⟨keyFits, valueFits, colFits⟩ := fits
    simp [Record.bytes, Record.body, Record.type, iterateLoop, takeSlice_putSlice keyFits,
      takeSlice_putSlice valueFits, takeFixed16_encodeFixed16 colFits, handle]
  | delete =>
    obtain ⟨keyFits, colFits⟩ := fits
    simp [Record.bytes, Record.body, Record.type, iterateLoop, takeSlice_putSlice keyFits,
      takeFixed16_encodeFixed16 colFits, handle]

theorem iterateLoop_flatMap (count : Nat)
    {records : List (Record Bytes Bytes)} (fits : ∀ record ∈ records, record.Fits) (fuel : Nat)
    (enough : records.length ≤ fuel) (found : Nat) (s : State) :
    handler.iterateLoop count fuel found (records.flatMap Record.bytes) s =
      some (handler.replay count found records s) := by
  induction records generalizing fuel found s with
  | nil => rw [flatMap_nil, iterateLoop, replay]
  | cons record rest ih =>
    obtain ⟨left, rfl⟩ : ∃ left, fuel = left + 1 := by
      exact ⟨fuel - 1, by simp only [length_cons] at enough; omega⟩
    have restFits : ∀ other ∈ rest, other.Fits :=
      fun other mem => fits other (mem_cons_of_mem _ mem)
    have restEnough : rest.length ≤ left := by
      simp only [length_cons] at enough
      omega
    rw [flatMap_cons, iterateLoop_bytes handler count left found
      (fits record mem_cons_self), replay]
    rcases handler.proceeds s with ⟨goesOn, s⟩
    cases goesOn with
    | false => rfl
    | true =>
      rcases handled : handler.handle record s with ⟨status, s⟩
      cases status with
      | ok => simpa [handled] using ih restFits left restEnough (found + 1) s
      | _ => simp [handled]

/-- A handler that always continues and whose `Merge` succeeds. -/
structure Obliging (handler : BatchHandler State) : Prop where
  continues : ∀ s, (handler.proceeds s).1 = true
  merges : ∀ key value colId s, (handler.merge key value colId s).1 = .ok

def deliver (s : State) (record : Record Bytes Bytes) : State :=
  (handler.handle record (handler.proceeds s).2).2

theorem Obliging.handle {handler : BatchHandler State} (obliging : handler.Obliging)
    (record : Record Bytes Bytes) (s : State) : (handler.handle record s).1 = .ok := by
  cases record with
  | put => rfl
  | merge key v col => exact obliging.merges key v col s
  | delete => rfl

theorem Obliging.replay {handler : BatchHandler State} (obliging : handler.Obliging)
    (found : Nat) (records : List (Record Bytes Bytes)) (s : State) :
    handler.replay (found + records.length) found records s =
      (.ok, records.foldl handler.deliver s) := by
  induction records generalizing found s with
  | nil => simp [BatchHandler.replay, finish]
  | cons record rest ih =>
    have delivered : handler.handle record (handler.proceeds s).2 =
        (.ok, handler.deliver s record) := by
      rw [← obliging.handle record (handler.proceeds s).2]
      rfl
    have counted : found + (record :: rest).length = found + 1 + rest.length := by
      simp only [length_cons]
      omega
    rw [BatchHandler.replay, counted]
    simp only [obliging.continues s, delivered, Bool.true_eq_false, if_false]
    exact ih (found + 1) (handler.deliver s record)

end BatchHandler

namespace BatchRep

variable {State : Type} {batch : BatchRep} {records : List (Record Bytes Bytes)}

theorem Holds.length_records (holds : batch.Holds records) :
    4 + 7 * records.length ≤ batch.rep.length := by
  have summed : 7 * records.length ≤ (records.flatMap Record.bytes).length := by
    clear holds
    induction records with
    | nil => simp
    | cons record =>
      have least := record.length_bytes
      simp only [length_cons, flatMap_cons, List.length_append]
      omega
  rw [holds.length]
  omega

theorem Holds.iterate (holds : batch.Holds records) (fits : ∀ record ∈ records, record.Fits)
    (few : records.length < 2 ^ 32) (handler : BatchHandler State) (s : State) :
    batch.iterate handler s = some (handler.replay records.length 0 records s) := by
  have size := holds.length_records
  rw [BatchRep.iterate, if_neg (by simp only [kHeader]; omega), holds.drop, holds.count,
    Nat.mod_eq_of_lt few]
  exact handler.iterateLoop_flatMap records.length fits batch.rep.length (by omega) 0 s

/-- What a read of a record leaves in the outputs; a deletion has no value to write. -/
def entryOf (before : EntryOut) : Record Bytes Bytes → EntryOut
  | .put key value _ => ⟨.putRecord, key, value⟩
  | .merge key value _ => ⟨.mergeRecord, key, value⟩
  | .delete key _ => ⟨.deleteRecord, key, before.value⟩

theorem readRecordFromWriteBatch_bytes {record : Record Bytes Bytes} (fits : record.Fits)
    (rest pre : Bytes) :
    readRecordFromWriteBatch (record.bytes ++ rest) pre = some (.ok,
        match record with
        | .put key v col => ⟨ValueType.value.tag, col, key, v⟩
        | .merge key v col => ⟨ValueType.merge.tag, col, key, v⟩
        | .delete key col => ⟨ValueType.deletion.tag, col, key, pre⟩) := by
  cases record with
  | put =>
    obtain ⟨keyFits, valueFits, colFits⟩ := fits
    simp [Record.bytes, Record.body, Record.type, readRecordFromWriteBatch,
      takeSlice_putSlice keyFits, takeSlice_putSlice valueFits,
      takeFixed16_encodeFixed16 colFits]
  | merge =>
    obtain ⟨keyFits, valueFits, colFits⟩ := fits
    simp [Record.bytes, Record.body, Record.type, readRecordFromWriteBatch,
      takeSlice_putSlice keyFits, takeSlice_putSlice valueFits,
      takeFixed16_encodeFixed16 colFits]
  | delete =>
    obtain ⟨keyFits, colFits⟩ := fits
    simp [Record.bytes, Record.body, Record.type, readRecordFromWriteBatch,
      takeSlice_putSlice keyFits, takeFixed16_encodeFixed16 colFits]

theorem Holds.drop_offset (holds : batch.Holds records) {i : Nat} {record : Record Bytes Bytes}
    (isRecord : records[i]? = some record) :
    batch.rep.drop (build (records.take i)).rep.length =
      record.bytes ++ (records.drop (i + 1)).flatMap Record.bytes := by
  obtain ⟨_, isThere⟩ := List.getElem?_eq_some_iff.mp isRecord
  have split : records = records.take i ++ record :: records.drop (i + 1) := by
    rw [← isThere, List.getElem_cons_drop, List.take_append_drop]
  have bytes : batch.rep = (encodeFixed32 records.length ++
      (records.take i).flatMap Record.bytes) ++
        (record.bytes ++ (records.drop (i + 1)).flatMap Record.bytes) := by
    rw [holds, append_assoc, ← flatMap_cons, ← flatMap_append, ← split]
  rw [bytes]
  apply drop_left'
  rw [(holds_build (records.take i)).length, List.length_append, length_encodeFixed32]

theorem Holds.getEntryFromDataOffset (holds : batch.Holds records)
    (fits : ∀ record ∈ records, record.Fits) {i : Nat} {record : Record Bytes Bytes}
    (isRecord : records[i]? = some record) (pre : EntryOut) :
    batch.getEntryFromDataOffset (build (records.take i)).rep.length (some pre) =
      some (.ok, some (entryOf pre record)) := by
  have dropped := holds.drop_offset isRecord
  have inside : (build (records.take i)).rep.length < batch.rep.length := by
    have least := record.length_bytes
    have length := congrArg List.length dropped
    simp only [List.length_drop, List.length_append] at length
    omega
  have fitsHere := fits record (mem_of_getElem? isRecord)
  rw [BatchRep.getEntryFromDataOffset]
  simp only [Nat.ne_of_lt inside, Nat.lt_asymm inside, if_false, dropped,
    readRecordFromWriteBatch_bytes fitsHere, Option.bind_eq_bind, Option.bind_some]
  cases record <;> simp [entryOf]

theorem Holds.fits (holds : batch.Holds records) (small : batch.rep.length < 2 ^ 32)
    (columns : ∀ record ∈ records, record.colId < 2 ^ 16) :
    ∀ record ∈ records, record.Fits := by
  intro record mem
  have c := columns record mem
  have within : record.bytes.length ≤ (records.flatMap Record.bytes).length := by
    obtain ⟨_, _, rfl⟩ := append_of_mem mem
    simp only [flatMap_append, flatMap_cons, List.length_append]
    omega
  have size := holds.length
  cases record with
  | put =>
    simp only [Record.bytes, Record.body, putSlice, length_cons, List.length_append] at within
    exact ⟨by omega, by omega, c⟩
  | merge =>
    simp only [Record.bytes, Record.body, putSlice, length_cons, List.length_append] at within
    exact ⟨by omega, by omega, c⟩
  | delete =>
    simp only [Record.bytes, Record.body, putSlice, length_cons, List.length_append] at within
    exact ⟨by omega, c⟩

/-- A batch replays a sequence of calls: every handler that goes along gets exactly these calls
in order and `Iterate` returns OK, the count is their number, and a read at the offset that a call
wrote to gives its type, key and value. -/
structure Replays (batch : BatchRep) (calls : List (Record Bytes Bytes)) : Prop where
  iterates : ∀ {State : Type} (handler : BatchHandler State), handler.Obliging → ∀ s,
    batch.iterate handler s = some (.ok, calls.foldl handler.deliver s)
  counts : batch.count = calls.length
  reads : ∀ (index : Nat) (call : Record Bytes Bytes), calls[index]? = some call → ∀ before,
    batch.getEntryFromDataOffset (build (calls.take index)).rep.length (some before) =
      some (.ok, some (entryOf before call))

theorem Holds.replays (holds : batch.Holds records) (fits : ∀ record ∈ records, record.Fits)
    (few : records.length < 2 ^ 32) : batch.Replays records where
  iterates handler obliging s := by
    have replayed := obliging.replay 0 records s
    rw [Nat.zero_add] at replayed
    rw [holds.iterate fits few, replayed]
  counts := by
    rw [holds.count, Nat.mod_eq_of_lt few]
  reads index call isCall pre := holds.getEntryFromDataOffset fits isCall pre

/-- A batch replays the calls that built it, and two batches appended replay the calls of the
first followed by those of the second. -/
theorem build_replays (calls others : List (Record Bytes Bytes))
    (columns : ∀ record ∈ calls ++ others, record.colId < 2 ^ 16)
    (small : (build calls).rep.length < 2 ^ 32) (otherSmall : (build others).rep.length < 2 ^ 32) :
    (build calls).Replays calls ∧
      ((build calls).append (build others)).Replays (calls ++ others) := by
  have holds := holds_build calls
  have otherHolds := holds_build others
  have size := holds.length_records
  have otherSize := otherHolds.length_records
  have fits := holds.fits small fun record member => columns record (mem_append_left _ member)
  have otherFits := otherHolds.fits otherSmall fun record member =>
    columns record (mem_append_right _ member)
  have allFit : ∀ record ∈ calls ++ others, record.Fits := by
    intro record member
    rcases mem_append.mp member with first | second
    · exact fits record first
    · exact otherFits record second
  constructor
  · exact holds.replays fits (by omega)
  apply (holds.append otherHolds).replays allFit
  rw [List.length_append]
  omega

/-- A put and a deletion, with a merge appended. -/
theorem put_delete_merge_replays :
    let calls : List (Record Bytes Bytes) := [.put [1, 2] [3] 0, .delete [1, 2] 7]
    let others : List (Record Bytes Bytes) := [.merge [4] [] 65535]
    (∀ record ∈ calls ++ others, record.colId < 2 ^ 16) ∧ (build calls).Replays calls ∧
        ((build calls).append (build others)).Replays (calls ++ others) :=
  ⟨by decide, build_replays _ _ (by decide) (by decide) (by decide)⟩

end BatchRep

section Write

variable [LinearOrder Bytes]

/-- `WriteBatchInternal` as a handler; it does not override `Continue`. -/
def WriteBatchInternal.asHandler : BatchHandler (WriteBatchInternal Bytes Bytes) where
  put key value colId handler := handler.store ⟨key, colId, .put value⟩
  merge key value colId handler :=
    match handler.change (.merge key value colId) with
    | .error status => (status, handler)
    | .ok change => (.ok, handler.store change)
  delete key colId handler := handler.store ⟨key, colId, .del⟩
  proceeds handler := (true, handler)

theorem replay_asHandler (count found : Nat) (records : List (Record Bytes Bytes))
    (handler : WriteBatchInternal Bytes Bytes) :
    WriteBatchInternal.asHandler.replay count found records handler =
      iterateFrom count found records handler := by
  induction records generalizing found handler with
  | nil =>
    by_cases same : found = count <;>
      simp [BatchHandler.replay, BatchHandler.finish, iterateFrom, same]
  | cons record rest ih =>
    rw [BatchHandler.replay, iterateFrom]
    cases record with
    | put => exact ih (found + 1) _
    | delete => exact ih (found + 1) _
    | merge key v col =>
      simp only [WriteBatchInternal.asHandler, BatchHandler.handle, WriteBatchInternal.change]
      cases handler.db.callMergeOperator key (handler.db.get none key col) v with
      | none => rfl
      | some => exact ih (found + 1) _

theorem iterate_build_asHandler {calls : List (Record Bytes Bytes)}
    (columns : ∀ record ∈ calls, record.colId < 2 ^ 16)
    (small : (BatchRep.build calls).rep.length < 2 ^ 32)
    (handler : WriteBatchInternal Bytes Bytes) :
    (BatchRep.build calls).iterate WriteBatchInternal.asHandler handler =
      some (WriteBatch.iterate ⟨calls.length, calls⟩ handler) := by
  have holds := BatchRep.holds_build calls
  have size := holds.length_records
  rw [holds.iterate (holds.fits small columns) (by omega), replay_asHandler]
  rfl

end Write

end InsDb
