import InsDb.Column
import InsDb.Library.Varint

/-!
# Rows of a device-format SKTable

A row holds the valid columns of one user key: a column count and, per column, the column
id, a byte with the key-block offset and two flags, the internal key, the size of the key
block and, when flagged, the begin sequence number and the time stamp. `encodeRow` is what
`DeviceFormatBuilder` writes.
-/

namespace InsDb

open InsDb.Library List

abbrev Bytes := List UInt8

structure RowColumn where
  colId : Nat
  offset : Nat
  ikeySeq : Nat
  ivalueSize : Nat
  -- The numbers behind the two flags; a row may end after a flag.
  seq : Option Nat
  ts : Option Nat
  hasSeq : Bool := seq.isSome
  hasTs : Bool := ts.isSome
deriving DecidableEq, Repr

def getVarint64 (input : Bytes) : Option (Nat × Bytes) :=
  (Varint.decode 10 input).map fun (value, rest) => (value % 2 ^ 64, rest)

def getVarint32 (input : Bytes) : Option (Nat × Bytes) :=
  (Varint.decode 5 input).map fun (value, rest) => (value % 2 ^ 32, rest)

def encodeVarint64 (value : Nat) : Bytes := Varint.encode 10 value

def encodeVarint32 (value : Nat) : Bytes := Varint.encode 5 value

def getFlagged (flag : Bool) (input : Bytes) : Option Nat × Bytes :=
  match flag, getVarint64 input with
  | true, some (value, rest) => (some value, rest)
  | _, _ => (none, input)

/-- The column at the start of `input` and the bytes after it.  When the bytes end inside a
number, its variable keeps what the column before left in it. -/
def parseColumn (ikeySeq ivalueSize : Nat) (input : Bytes) : Option (RowColumn × Bytes) :=
  match input with
  | idByte :: flagByte :: rest =>
    let ikey := (getVarint64 rest).getD (ikeySeq, rest)
    let ivalue := (getVarint32 ikey.2).getD (ivalueSize, ikey.2)
    let hasSeq := flagByte.toNat.testBit 7
    let hasTs := flagByte.toNat.testBit 6
    let seq := getFlagged hasSeq ivalue.2
    let ts := getFlagged hasTs seq.2
    some
      ({ colId := idByte.toNat % 64
         offset := flagByte.toNat % 64
         ikeySeq := ikey.1
         ivalueSize := ivalue.1
         seq := seq.1
         ts := ts.1
         hasSeq := hasSeq
         hasTs := hasTs }, ts.2)
  | _ => none

/-- At most `count` columns; the row ends where no id and flag bytes are left. -/
def parseColumns : Nat → Nat → Nat → Bytes → List RowColumn
  | 0, _, _, _ => []
  | count + 1, ikeySeq, ivalueSize, input =>
    match parseColumn ikeySeq ivalueSize input with
    | some (column, rest) =>
      column :: parseColumns count column.ikeySeq column.ivalueSize rest
    | none => []

/-- The columns of a row.  The empty slice stands for a row that is not there. -/
def rowColumns : Bytes → List RowColumn
  | [] => []
  | count :: rest => parseColumns count.toNat 0 0 rest

/-- The flag and offset byte: `SEQ_NUM_SHIFT` is 7 and `TTL_SHIFT` is 6. -/
def flagAndOffset (kbOffset : Nat) (hasSeq hasTs : Bool) : Nat :=
  kbOffset ||| (if hasSeq then 128 else 0) ||| (if hasTs then 64 else 0)

variable {V : Type}

/-- One valid column as `DeviceFormatBuilder` writes it.  `smallest_snap_seq` is a
local that stays 0, so the sequence flag is always set; the number itself is
written only when it is not 0. -/
def encodeColumn (colId : Nat) (node : ColumnNode V) : Bytes :=
  let smallestSnapSeq := 0
  let hasSeq := decide (smallestSnapSeq ≤ node.beginSeq)
  let seqNum := if hasSeq then node.beginSeq else 0
  [UInt8.ofNat colId, UInt8.ofNat (flagAndOffset node.kbOffset hasSeq (node.ts ≠ 0))] ++
    encodeVarint64 node.ikeySeq ++ encodeVarint32 node.ivalueSize ++
    (if seqNum ≠ 0 then encodeVarint64 seqNum else []) ++
    (if node.ts ≠ 0 then encodeVarint64 node.ts else [])

def encodeRow (valid : List (Nat × ColumnNode V)) : Bytes :=
  UInt8.ofNat valid.length ::
    valid.flatMap fun (colId, node) => encodeColumn colId node

variable (flushed : Bool)

/-- The sequence number of a column in a point read and in a fetch.  `flushed` is
`HasBeenFlushed`: before its first flush a table's sequence numbers belong to an earlier
run. -/
def RowColumn.ownSeq (carried : Nat) (column : RowColumn) : Nat :=
  if column.hasSeq ∧ flushed then column.seq.getD carried else 0

def RowColumn.ownTs (carried : Nat) (column : RowColumn) : Nat :=
  if column.hasTs then column.ts.getD carried else 0

/-- `SKTableMem::GetColumnInfo` from given values of its two running variables: the first
column with the id answers, if its sequence number and time stamp admit the read.  A zero
internal key stands for "no column". -/
def getFrom (flushed : Bool) (colId seqNum curTime ttl : Nat) :
    Nat → Nat → List RowColumn → Option RowColumn
  | _, _, [] => none
  | seq, ts, column :: rest =>
    if column.colId = colId then
      if column.ownSeq flushed seq ≤ seqNum ∧
          (column.ownTs ts = 0 ∨ ttl = 0 ∨ curTime < expiry (column.ownTs ts) ttl) ∧
          column.ikeySeq ≠ 0 then
        some column
      else
        none
    else
      getFrom flushed colId seqNum curTime ttl (column.seq.getD seq) (column.ts.getD ts) rest

def getColumnInfo (columns : List RowColumn) (colId seqNum curTime ttl : Nat) :
    Option RowColumn :=
  getFrom flushed colId seqNum curTime ttl 0 0 columns

/-- The iterator's running sequence number at the column it looks for. -/
def RowColumn.iterSeq (seq : Nat) (column : RowColumn) : Nat :=
  if column.hasSeq then
    if flushed then column.seq.getD seq else 0
  else
    seq

/-- `SKTableMem::FillIterScaratchPadWithColumnInfo` from given values of its two
running variables: a column without a flag keeps what an earlier column of the row
left in them.  Returns the column and its sequence number. -/
def fillFrom (flushed : Bool) (colId seqNum curTime ttl : Nat) :
    Nat → Nat → List RowColumn → Option (RowColumn × Nat)
  | _, _, [] => none
  | seq, ts, column :: rest =>
    if column.colId = colId then
      if column.iterSeq flushed seq ≤ seqNum ∧
          (column.ts.getD ts = 0 ∨ curTime < expiry (column.ts.getD ts) ttl) then
        some (column, column.iterSeq flushed seq)
      else
        none
    else
      fillFrom flushed colId seqNum curTime ttl (column.seq.getD seq) (column.ts.getD ts) rest

def fillIterScratchPadWithColumnInfo (columns : List RowColumn)
    (colId seqNum curTime ttl : Nat) : Option (RowColumn × Nat) :=
  fillFrom flushed colId seqNum curTime ttl 0 0 columns

/-- The nodes that `InsertColumnNodes` makes of the columns, with their column ids;
`validSeq` is `HasBeenFlushed`. -/
def fetchedNodes (validSeq : Bool) : Nat → Nat → List RowColumn → List (Nat × ColumnNode V)
  | _, _, [] => []
  | seq, ts, column :: rest =>
    (column.colId,
      ColumnNode.fetched (column.ownSeq validSeq seq) (column.ownTs ts) column.ikeySeq
        column.ivalueSize column.offset) ::
      fetchedNodes validSeq (column.ownSeq validSeq seq) (column.ownTs ts) rest

/-- A node whose numbers fit into the fields of a row.  A node that begins at 0 does not:
its sequence number is flagged and not written. -/
structure ColumnNode.Encodable (node : ColumnNode V) : Prop where
  kbOffset_lt : node.kbOffset < 64
  ikeySeq_lt : node.ikeySeq < 2 ^ 64
  ivalueSize_lt : node.ivalueSize < 2 ^ 32
  begun : 0 < node.beginSeq
  beginSeq_lt : node.beginSeq < 2 ^ 64
  ts_lt : node.ts < 2 ^ 64

def ColumnNode.rowColumn (colId : Nat) (node : ColumnNode V) : RowColumn :=
  { colId := colId
    offset := node.kbOffset
    ikeySeq := node.ikeySeq
    ivalueSize := node.ivalueSize
    seq := some node.beginSeq
    ts := if node.ts = 0 then none else some node.ts }

private theorem flag_byte (offset : Fin 64) (hasTs : Bool) :
    (UInt8.ofNat (flagAndOffset offset true hasTs)).toNat % 64 = offset ∧
      (UInt8.ofNat (flagAndOffset offset true hasTs)).toNat.testBit 7 = true ∧
      (UInt8.ofNat (flagAndOffset offset true hasTs)).toNat.testBit 6 = hasTs := by
  revert offset hasTs
  decide

theorem getVarint64_encode {v : Nat} (fits : v < 2 ^ 64) (tail : Bytes) :
    getVarint64 (encodeVarint64 v ++ tail) = some (v, tail) := by
  have decoded := Varint.decode_encode 9 v tail (by omega)
  simp only [getVarint64, encodeVarint64, decoded, Option.map_some, Nat.mod_eq_of_lt fits]

theorem getVarint32_encode {v : Nat} (fits : v < 2 ^ 32) (tail : Bytes) :
    getVarint32 (encodeVarint32 v ++ tail) = some (v, tail) := by
  have decoded := Varint.decode_encode 4 v tail (by omega)
  simp only [getVarint32, encodeVarint32, decoded, Option.map_some, Nat.mod_eq_of_lt fits]

theorem getFlagged_encode {v : Nat} (fits : v < 2 ^ 64) (tail : Bytes) :
    getFlagged (decide (v ≠ 0)) ((if v ≠ 0 then encodeVarint64 v else []) ++ tail) =
      (if v = 0 then none else some v, tail) := by
  by_cases isZero : v = 0
  · simp [isZero, getFlagged]
  simp [isZero, getFlagged, getVarint64_encode fits]

theorem parseColumn_bytes {col : Nat} (small : col < 64) {node : ColumnNode V}
    (kbOffset_lt : node.kbOffset < 64) (ikeySeq_lt : node.ikeySeq < 2 ^ 64)
    (ivalueSize_lt : node.ivalueSize < 2 ^ 32) (ikeySeq ivalueSize : Nat) (tail : Bytes) :
    parseColumn ikeySeq ivalueSize (encodeColumn col node ++ tail) =
      let seq := getFlagged true
        ((if node.beginSeq ≠ 0 then encodeVarint64 node.beginSeq else []) ++
          ((if node.ts ≠ 0 then encodeVarint64 node.ts else []) ++ tail))
      let ts := getFlagged (decide (node.ts ≠ 0)) seq.2
      some
        ({ colId := col
           offset := node.kbOffset
           ikeySeq := node.ikeySeq
           ivalueSize := node.ivalueSize
           seq := seq.1
           ts := ts.1
           hasSeq := true
           hasTs := decide (node.ts ≠ 0) }, ts.2) := by
  have idByte : (UInt8.ofNat col).toNat % 64 = col := by
    rw [Varint.byte_toNat (by omega), Nat.mod_eq_of_lt small]
  obtain ⟨offset, hasSeq, hasTs⟩ := flag_byte ⟨node.kbOffset, kbOffset_lt⟩
    (decide (node.ts ≠ 0))
  simp only [encodeColumn, Nat.zero_le, decide_true, if_true, append_assoc, cons_append,
    nil_append, parseColumn, getVarint64_encode ikeySeq_lt, getVarint32_encode ivalueSize_lt,
    Option.getD_some, idByte, offset, hasSeq, hasTs]

theorem parseColumn_encode {col : Nat} (small : col < 64) {node : ColumnNode V}
    (encodable : node.Encodable) (ikeySeq ivalueSize : Nat) (tail : Bytes) :
    parseColumn ikeySeq ivalueSize (encodeColumn col node ++ tail) =
      some (node.rowColumn col, tail) := by
  have begun : node.beginSeq ≠ 0 := Nat.ne_of_gt encodable.begun
  have seq := getFlagged_encode encodable.beginSeq_lt
    ((if node.ts ≠ 0 then encodeVarint64 node.ts else []) ++ tail)
  have ts := getFlagged_encode encodable.ts_lt tail
  rw [parseColumn_bytes small encodable.kbOffset_lt encodable.ikeySeq_lt encodable.ivalueSize_lt]
  simp only [begun, ne_eq, not_false_eq_true, decide_true, if_true, if_false] at seq ts ⊢
  rw [seq, ts]
  by_cases noTs : node.ts = 0 <;> simp [ColumnNode.rowColumn, noTs]

theorem parseColumns_encode {valid : List (Nat × ColumnNode V)}
    (encodable : ∀ entry ∈ valid, entry.1 < 64 ∧ entry.2.Encodable) (ikeySeq ivalueSize : Nat) :
    parseColumns valid.length ikeySeq ivalueSize
        (valid.flatMap fun (col, node) => encodeColumn col node) =
      valid.map fun (col, node) => node.rowColumn col := by
  induction valid generalizing ikeySeq ivalueSize with
  | nil => rfl
  | cons entry rest ih =>
    obtain ⟨small, fits⟩ := encodable entry mem_cons_self
    rw [flatMap_cons, length_cons, parseColumns, parseColumn_encode small fits]
    simp only [map_cons]
    rw [ih fun other mem => encodable other (mem_cons_of_mem _ mem)]

theorem rowColumns_encodeRow {valid : List (Nat × ColumnNode V)} (count : valid.length < 256)
    (encodable : ∀ entry ∈ valid, entry.1 < 64 ∧ entry.2.Encodable) :
    rowColumns (encodeRow valid) = valid.map fun (col, node) => node.rowColumn col := by
  rw [encodeRow, rowColumns, Varint.byte_toNat count]
  exact parseColumns_encode encodable 0 0

end InsDb
