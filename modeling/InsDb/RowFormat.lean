import InsDb.TableRows
import Mathlib.Data.List.Perm.Subperm

/-!
# The columns of a row

What the readers of a row make of the columns that `DeviceFormatBuilder` wrote.  The sequence
number is always flagged but written only if it is not 0, and a column id is read in six bits.
-/

namespace InsDb

open InsDb.Library List

variable {V : Type}

/-- The valid columns of a key in the order in which they are written.  A column id is one byte
in all interfaces. -/
structure ValidColumns (V : Type) where
  columns : List (Nat × ColumnNode V)
  ascending : columns.Pairwise fun entry later => entry.1 < later.1
  colId_lt : ∀ entry ∈ columns, entry.1 < 256
  kbOffset_lt : ∀ entry ∈ columns, entry.2.kbOffset < 32
  ikeySeq_lt : ∀ entry ∈ columns, entry.2.ikeySeq < 2 ^ 64
  ivalueSize_lt : ∀ entry ∈ columns, entry.2.ivalueSize < 2 ^ 32
  beginSeq_lt : ∀ entry ∈ columns, entry.2.beginSeq < 2 ^ 64
  ts_lt : ∀ entry ∈ columns, entry.2.ts < 2 ^ 64

structure ColumnScratchPad where
  ikeySeq : Nat
  ivalueSize : Nat
  offset : Nat
deriving DecidableEq, Repr

def RowColumn.scratchPad (column : RowColumn) : ColumnScratchPad :=
  ⟨column.ikeySeq, column.ivalueSize, column.offset⟩

def ColumnNode.scratchPad (node : ColumnNode V) : ColumnScratchPad :=
  ⟨node.ikeySeq, node.ivalueSize, node.kbOffset⟩

/-- The column that `GetColumnInfo` copies to the scratch pad; its caller takes a zero internal
key for no column. -/
def columnInfoFrom (flushed : Bool) (colId seqNum curTime ttl : Nat) :
    Nat → Nat → List RowColumn → Option RowColumn
  | _, _, [] => none
  | seq, ts, column :: rest =>
    if column.colId = colId then
      if column.ownSeq flushed seq ≤ seqNum ∧
          (column.ownTs ts = 0 ∨ ttl = 0 ∨ curTime < expiry (column.ownTs ts) ttl) then
        some column
      else
        none
    else
      columnInfoFrom flushed colId seqNum curTime ttl (column.seq.getD seq)
        (column.ts.getD ts) rest

/-- A point read takes the copied column unless its internal key is zero. -/
theorem getFrom_eq_filter (flushed : Bool) (col seqNum curTime ttl seq ts : Nat)
    (columns : List RowColumn) :
    getFrom flushed col seqNum curTime ttl seq ts columns =
      (columnInfoFrom flushed col seqNum curTime ttl seq ts columns).filter fun column =>
        column.ikeySeq ≠ 0 := by
  induction columns generalizing seq ts with
  | nil => rfl
  | cons column rest ih =>
    rw [getFrom, columnInfoFrom]
    by_cases same : column.colId = col
    · rw [if_pos same, if_pos same]
      by_cases admits : column.ownSeq flushed seq ≤ seqNum ∧
          (column.ownTs ts = 0 ∨ ttl = 0 ∨ curTime < expiry (column.ownTs ts) ttl)
      · simp [admits, Option.filter_some]
      · rw [if_neg admits, if_neg fun all => admits ⟨all.1, all.2.1⟩]
        rfl
    · rw [if_neg same, if_neg same]
      exact ih _ _

namespace ValidColumns

variable (valid : ValidColumns V)

def row : Bytes := encodeRow valid.columns

/-- What `GetColumnInfo` should copy: the column with the id, if a reader may see it. -/
def columnInfo (colId seqNum curTime ttl : Nat) : Option ColumnScratchPad :=
  (valid.columns.find? fun entry => entry.1 = colId).bind fun entry =>
    if entry.2.beginSeq ≤ seqNum ∧
        (entry.2.ts = 0 ∨ ttl = 0 ∨ curTime < expiry entry.2.ts ttl) then
      some entry.2.scratchPad
    else
      none

variable (entry : Nat × ColumnNode V)

/-- What `InsertColumnNodes` should make of a column. -/
def fetchedEntry : Nat × ColumnNode V :=
  (entry.1, ColumnNode.fetched entry.2.beginSeq entry.2.ts entry.2.ikeySeq entry.2.ivalueSize
    entry.2.kbOffset)

/-- All readers of a flushed table find the columns: a point read for every column, sequence
number and time, a fetch, and the reader of the first row of a table, whose key and other rows
do not matter. -/
structure ReadBack : Prop where
  columnInfo : ∀ colId seqNum curTime ttl,
    (columnInfoFrom true colId seqNum curTime ttl 0 0 (rowColumns valid.row)).map
        RowColumn.scratchPad = valid.columnInfo colId seqNum curTime ttl
  nodes : fetchedNodes true 0 0 (rowColumns valid.row) = valid.columns.map fetchedEntry
  beginRow : ∀ {data key : Bytes} {rest : List TableRow},
    Loaded data (⟨key, valid.row⟩ :: rest) → rowSize [] ⟨key, valid.row⟩ < 2 ^ 16 →
      (getKeyWithOffset data sktdfBeginKeyOffset).map Prod.fst = some ⟨key, valid.row⟩

variable {valid}

variable {entry : Nat × ColumnNode V}

theorem encodable (inColumns : entry ∈ valid.columns) (begun : entry.2.beginSeq ≠ 0) :
    entry.2.Encodable where
  kbOffset_lt := (valid.kbOffset_lt entry inColumns).trans (by decide)
  ikeySeq_lt := valid.ikeySeq_lt entry inColumns
  ivalueSize_lt := valid.ivalueSize_lt entry inColumns
  begun := Nat.pos_of_ne_zero begun
  beginSeq_lt := valid.beginSeq_lt entry inColumns
  ts_lt := valid.ts_lt entry inColumns

theorem beginRow_read {data key : Bytes} {rest : List TableRow}
    (loaded : Loaded data (⟨key, valid.row⟩ :: rest))
    (small : rowSize [] ⟨key, valid.row⟩ < 2 ^ 16) :
    (getKeyWithOffset data sktdfBeginKeyOffset).map Prod.fst = some ⟨key, valid.row⟩ := by
  rw [loaded.rowsAt.getKeyWithOffset_eq (by decide) small, Option.map_some]

theorem length_le (small : ∀ entry ∈ valid.columns, entry.1 < 64) : valid.columns.length ≤ 64 := by
  have nodup := pairwise_map.mpr (valid.ascending.imp Nat.ne_of_lt)
  have subset : valid.columns.map Prod.fst ⊆ range 64 := by
    intro _ inIds
    obtain ⟨entry, inColumns, rfl⟩ := mem_map.mp inIds
    exact mem_range.mpr (small entry inColumns)
  have length := (subperm_of_subset nodup subset).length_le
  rwa [length_map, length_range] at length

theorem ownTs_rowColumn (ts : Nat) :
    (entry.2.rowColumn entry.1).ownTs ts = entry.2.ts := by
  by_cases noTs : entry.2.ts = 0 <;> simp [ColumnNode.rowColumn, RowColumn.ownTs, noTs]

theorem ownSeq_rowColumn (seq : Nat) :
    (entry.2.rowColumn entry.1).ownSeq true seq = entry.2.beginSeq := rfl

variable {columns : List (Nat × ColumnNode V)}

theorem columnInfoFrom_rowColumn (col seqNum curTime ttl seq ts : Nat) :
    (columnInfoFrom true col seqNum curTime ttl seq ts
        (columns.map fun entry => entry.2.rowColumn entry.1)).map RowColumn.scratchPad =
      (columns.find? fun entry => entry.1 = col).bind fun entry =>
        if entry.2.beginSeq ≤ seqNum ∧
            (entry.2.ts = 0 ∨ ttl = 0 ∨ curTime < expiry entry.2.ts ttl) then
          some entry.2.scratchPad
        else
          none := by
  induction columns generalizing seq ts with
  | nil => rfl
  | cons entry rest ih =>
    rw [map_cons, columnInfoFrom, ownSeq_rowColumn, ownTs_rowColumn]
    by_cases same : entry.1 = col
    · rw [if_pos (show (entry.2.rowColumn entry.1).colId = col from same),
        find?_cons_of_pos (by simp [same]), Option.bind_some]
      split_ifs <;> rfl
    rw [if_neg (show ¬ (entry.2.rowColumn entry.1).colId = col from same),
      find?_cons_of_neg (by simp [same]), ih]

theorem fetchedNodes_rowColumn (columns : List (Nat × ColumnNode V)) (seq ts : Nat)
    (more : List RowColumn) :
    fetchedNodes true seq ts ((columns.map fun entry => entry.2.rowColumn entry.1) ++ more) =
      columns.map fetchedEntry ++
        fetchedNodes true (columns.foldl (fun _ entry => entry.2.beginSeq) seq)
          (columns.foldl (fun _ entry => entry.2.ts) ts) more := by
  induction columns generalizing seq ts with
  | nil => rfl
  | cons entry rest ih =>
    rw [map_cons, cons_append, fetchedNodes, ownSeq_rowColumn, ownTs_rowColumn, ih]
    rfl

theorem parseColumns_append (encodable : ∀ entry ∈ columns, entry.1 < 64 ∧ entry.2.Encodable)
    (more : Nat) (tail : Bytes) (ikeySeq ivalueSize : Nat) : ∃ carriedKey carriedSize,
      parseColumns (columns.length + more) ikeySeq ivalueSize
          ((columns.flatMap fun (col, node) => encodeColumn col node) ++ tail) =
        (columns.map fun entry => entry.2.rowColumn entry.1) ++
          parseColumns more carriedKey carriedSize tail := by
  induction columns generalizing ikeySeq ivalueSize with
  | nil => exact ⟨ikeySeq, ivalueSize, by rw [length_nil, Nat.zero_add]; rfl⟩
  | cons entry rest ih =>
    obtain ⟨small, fits⟩ := encodable entry mem_cons_self
    obtain ⟨carriedKey, carriedSize, later⟩ := ih
      (fun other inRest => encodable other (mem_cons_of_mem _ inRest))
      entry.2.ikeySeq entry.2.ivalueSize
    refine ⟨carriedKey, carriedSize, ?_⟩
    rw [flatMap_cons, length_cons, Nat.add_right_comm, parseColumns,
      append_assoc, parseColumn_encode small fits]
    simp only [map_cons, cons_append]
    rw [← later]
    rfl

theorem colId_lt_of_parsed {count ikeySeq ivalueSize : Nat} {input : Bytes} {c : RowColumn}
    (parsed : c ∈ parseColumns count ikeySeq ivalueSize input) : c.colId < 64 := by
  induction count generalizing ikeySeq ivalueSize input with
  | zero => cases parsed
  | succ count ih =>
    match input with
    | [] => cases parsed
    | [_] => cases parsed
    | idByte :: flagByte :: rest =>
      rcases mem_cons.mp parsed with rfl | later
      · exact Nat.mod_lt _ (by decide)
      · exact ih later

theorem mem_of_fetched {seq ts : Nat} {columns : List RowColumn}
    (fetched : entry ∈ fetchedNodes true seq ts columns) :
    ∃ c ∈ columns, c.colId = entry.1 := by
  induction columns generalizing seq ts with
  | nil => cases fetched
  | cons c rest ih =>
    rcases mem_cons.mp fetched with rfl | later
    · exact ⟨c, mem_cons_self, rfl⟩
    obtain ⟨other, inRest, same⟩ := ih later
    exact ⟨other, mem_cons_of_mem _ inRest, same⟩

theorem getFlagged_small {byte : Nat} (small : byte < 64) (tail : Bytes) :
    getFlagged true (UInt8.ofNat byte :: tail) = (some byte, tail) := by
  have v : (UInt8.ofNat byte).toNat = byte := Varint.byte_toNat (by omega)
  have decoded : Varint.decode 10 (UInt8.ofNat byte :: tail) = some (byte, tail) := by
    rw [Varint.decode, v, if_pos (by omega)]
  simp only [getFlagged, getVarint64, decoded, Option.map_some,
    Nat.mod_eq_of_lt (show byte < 2 ^ 64 by omega)]

theorem lone_of_zero_read {node : ColumnNode V} {post : List (Nat × ColumnNode V)}
    {carried : Nat} (ts_lt : node.ts < 2 ^ 64)
    (later : ∀ entry ∈ post, 0 < entry.1 ∧ entry.1 < 64)
    (read : (getFlagged true ((if node.ts ≠ 0 then encodeVarint64 node.ts else []) ++
      post.flatMap fun (col, node) => encodeColumn col node)).1.getD carried = 0) :
    node.ts = 0 ∧ post = [] ∧ carried = 0 := by
  by_cases noTs : node.ts = 0
  · rw [if_neg (not_not.mpr noTs), nil_append] at read
    cases post with
    | nil => exact ⟨noTs, rfl, read⟩
    | cons entry =>
      obtain ⟨positive, small⟩ := later entry mem_cons_self
      simp only [flatMap_cons, encodeColumn, append_assoc, cons_append,
        getFlagged_small small, Option.getD_some] at read
      exact absurd read (Nat.ne_of_gt positive)
  have flagged := getFlagged_encode ts_lt
    (post.flatMap fun (col, node) => encodeColumn col node)
  simp only [noTs, ne_eq, not_false_eq_true, decide_true, if_true, if_false] at flagged read
  rw [flagged] at read
  exact absurd read noTs

theorem foldl_beginSeq_ne_zero (begun : ∀ entry ∈ columns, entry.2.beginSeq ≠ 0)
    (nonempty : columns ≠ []) (seq : Nat) :
    columns.foldl (fun _ entry => entry.2.beginSeq) seq ≠ 0 := by
  rcases eq_nil_or_concat columns with empty | ⟨_, last, rfl⟩
  · exact absurd empty nonempty
  rw [concat_eq_append, foldl_append]
  exact begun last (by simp)

theorem small_of_nodes
    (nodes : fetchedNodes true 0 0 (rowColumns valid.row) = valid.columns.map fetchedEntry) :
    ∀ entry ∈ valid.columns, entry.1 < 64 := by
  intro entry inColumns
  have fetched : fetchedEntry entry ∈ fetchedNodes true 0 0 (rowColumns valid.row) := by
    rw [nodes]
    exact mem_map_of_mem inColumns
  obtain ⟨c, inRow, same⟩ := mem_of_fetched fetched
  rw [← show c.colId = entry.1 from same]
  exact colId_lt_of_parsed inRow

theorem lone_of_nodes
    (nodes : fetchedNodes true 0 0 (rowColumns valid.row) = valid.columns.map fetchedEntry)
    {pre post : List (Nat × ColumnNode V)}
    (columns : valid.columns = pre ++ entry :: post)
    (begun : ∀ other ∈ pre, other.2.beginSeq ≠ 0) (zero : entry.2.beginSeq = 0) :
    valid.columns = [entry] ∧ entry.2.ts = 0 := by
  have small := small_of_nodes nodes
  have inColumns : entry ∈ valid.columns := by simp [columns]
  have sorted := valid.ascending
  rw [columns, pairwise_append, pairwise_cons] at sorted
  have later : ∀ other ∈ post, 0 < other.1 ∧ other.1 < 64 := by
    intro other inAfter
    have above := sorted.2.1.1 other inAfter
    exact ⟨by omega, small other (by simp [columns, inAfter])⟩
  have earlier : ∀ other ∈ pre, other.1 < 64 ∧ other.2.Encodable := by
    intro other inBefore
    have inColumns : other ∈ valid.columns := by simp [columns, inBefore]
    exact ⟨small other inColumns, encodable inColumns (begun other inBefore)⟩
  obtain ⟨carriedKey, carriedSize, parsed⟩ := parseColumns_append earlier (post.length + 1)
    (encodeColumn entry.1 entry.2 ++ post.flatMap fun (col, node) => encodeColumn col node)
    0 0
  have row : rowColumns valid.row = (pre.map fun other => other.2.rowColumn other.1) ++
      parseColumns (post.length + 1) carriedKey carriedSize (encodeColumn entry.1 entry.2 ++
        post.flatMap fun (col, node) => encodeColumn col node) := by
    have count : (UInt8.ofNat valid.columns.length).toNat = pre.length + (post.length + 1) := by
      rw [Varint.byte_toNat (by have := length_le small; omega), columns, length_append,
        length_cons]
    rw [ValidColumns.row, encodeRow, rowColumns, count, columns, flatMap_append,
      flatMap_cons]
    exact parsed
  rw [row, fetchedNodes_rowColumn, columns, map_append, map_cons] at nodes
  have heads := append_cancel_left nodes
  rw [parseColumns, parseColumn_bytes (small entry inColumns)
    ((valid.kbOffset_lt entry inColumns).trans (by decide)) (valid.ikeySeq_lt entry inColumns)
    (valid.ivalueSize_lt entry inColumns)] at heads
  have read := congrArg (fun node => node.2.beginSeq) (cons.inj heads).1
  simp only [RowColumn.ownSeq, and_self, if_true, ColumnNode.fetched, fetchedEntry, zero, ne_eq,
    not_true_eq_false, if_false, nil_append] at read
  obtain ⟨noTs, noAfter, carried⟩ := lone_of_zero_read (valid.ts_lt entry inColumns) later read
  have noBefore : pre = [] := by
    by_contra nonempty
    exact foldl_beginSeq_ne_zero begun nonempty 0 carried
  rw [columns, noBefore, noAfter]
  exact ⟨rfl, noTs⟩

theorem exists_first_zero (zero : ¬ ∀ entry ∈ valid.columns, entry.2.beginSeq ≠ 0) :
    ∃ pre entry post, valid.columns = pre ++ entry :: post ∧
      (∀ other ∈ pre, other.2.beginSeq ≠ 0) ∧ entry.2.beginSeq = 0 := by
  cases first : valid.columns.find? fun entry => entry.2.beginSeq = 0 with
  | none =>
    rw [find?_eq_none] at first
    exact absurd (by simpa using first) zero
  | some entry =>
    obtain ⟨isZero, pre, post, columns, earlier⟩ := find?_eq_some_iff_append.mp first
    exact ⟨pre, entry, post, columns, by simpa using earlier, by simpa using isZero⟩

theorem readBack_of_begun (small : ∀ entry ∈ valid.columns, entry.1 < 64)
    (begun : ∀ entry ∈ valid.columns, entry.2.beginSeq ≠ 0) : valid.ReadBack := by
  have few := length_le small
  have row : rowColumns valid.row = valid.columns.map fun entry => entry.2.rowColumn entry.1 :=
    rowColumns_encodeRow (by omega) fun entry inColumns =>
      ⟨small entry inColumns, encodable inColumns (begun entry inColumns)⟩
  refine ⟨?_, ?_, beginRow_read⟩
  · intro col seq curTime ttl
    rw [row]
    exact columnInfoFrom_rowColumn col seq curTime ttl 0 0
  have fetched := fetchedNodes_rowColumn valid.columns 0 0 []
  rw [append_nil] at fetched
  rw [row, fetched]
  exact append_nil _

theorem readBack_of_lone (lone : valid.columns = [entry]) (small : entry.1 < 64)
    (noTs : entry.2.ts = 0) (zero : entry.2.beginSeq = 0) :
    valid.ReadBack := by
  have inColumns : entry ∈ valid.columns := by simp [lone]
  have row : rowColumns valid.row =
      [{ colId := entry.1
         offset := entry.2.kbOffset
         ikeySeq := entry.2.ikeySeq
         ivalueSize := entry.2.ivalueSize
         seq := none
         ts := none
         hasSeq := true
         hasTs := false }] := by
    have parsed := parseColumn_bytes small
      ((valid.kbOffset_lt entry inColumns).trans (by decide)) (valid.ikeySeq_lt entry inColumns)
      (valid.ivalueSize_lt entry inColumns) 0 0 []
    rw [append_nil] at parsed
    simp only [zero, noTs, ne_eq, not_true_eq_false, if_false, nil_append] at parsed
    rw [ValidColumns.row, lone, encodeRow, flatMap_singleton]
    change parseColumns 1 0 0 (encodeColumn entry.1 entry.2) = _
    rw [parseColumns, parsed]
    rfl
  refine ⟨?_, ?_, beginRow_read⟩
  · intro col _ _ _
    rw [row, columnInfo, lone]
    by_cases same : entry.1 = col
    · simp [columnInfoFrom, same, RowColumn.ownSeq, RowColumn.ownTs, zero, noTs,
        RowColumn.scratchPad, ColumnNode.scratchPad]
    · simp [columnInfoFrom, same]
  · rw [row, lone]
    simp [fetchedNodes, fetchedEntry, RowColumn.ownSeq, RowColumn.ownTs, zero, noTs]

/-- The readers find the columns of a row exactly if all ids have six bits and either all
columns begin after 0 or a single column has no time stamp. -/
theorem columns_readBack_iff (valid : ValidColumns V) :
    valid.ReadBack ↔
      (∀ entry ∈ valid.columns, entry.1 < 64) ∧
        ((∀ entry ∈ valid.columns, entry.2.beginSeq ≠ 0) ∨
          ∃ entry, valid.columns = [entry] ∧ entry.2.ts = 0) := by
  constructor
  · intro readBack
    refine ⟨small_of_nodes readBack.nodes, ?_⟩
    by_cases begun : ∀ entry ∈ valid.columns, entry.2.beginSeq ≠ 0
    · exact .inl begun
    obtain ⟨_, entry, _, columns, earlier, zero⟩ := exists_first_zero begun
    exact .inr ⟨entry, lone_of_nodes readBack.nodes columns earlier zero⟩
  rintro ⟨small, begun | ⟨entry, lone, noTs⟩⟩
  · exact readBack_of_begun small begun
  by_cases zero : entry.2.beginSeq = 0
  · exact readBack_of_lone lone (small entry (by simp [lone])) noTs zero
  · exact readBack_of_begun small (by simp [lone, zero])

/-- Two columns of which the first begins at 0, as after a fetch from a table that this run has
not flushed. -/
def twoColumns : ValidColumns Nat where
  columns := [(0, .fetched 0 0 7 3 0), (1, .fetched 5 0 8 3 1)]
  ascending := by decide
  colId_lt := by decide
  kbOffset_lt := by decide
  ikeySeq_lt := by decide
  ivalueSize_lt := by decide
  beginSeq_lt := by decide
  ts_lt := by decide

/-- The id of the second column is taken for the sequence number of the first. -/
theorem twoColumns_not_readBack : ¬ twoColumns.ReadBack := by
  intro readBack
  have lone := lone_of_nodes readBack.nodes
    (show twoColumns.columns = [] ++ (0, .fetched 0 0 7 3 0) :: [(1, .fetched 5 0 8 3 1)] from rfl)
    (by simp) rfl
  cases lone.1

end ValidColumns

end InsDb
