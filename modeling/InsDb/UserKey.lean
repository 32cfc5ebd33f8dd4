import InsDb.Row

/-!
# Reading one column of one key

A key is read from two places: the `UserKey` in memory, if there is one, and its row in the
device-format table. `getRead` is the part of `DBImpl::Get` after the key was looked up in
both; `padRead` is what `BuildIteratorScratchPad` does with the same pair.
-/

namespace InsDb

variable {V : Type}

structure UserKey (V : Type) where
  columns : Nat → ColumnData V := fun _ => {}
  dirty : Bool := false
  -- Every column of the device row has been inserted into the column lists.
  fetched : Bool := false

/-- A table row as the readers see it: its columns, and whether the table has been
flushed since the database was opened. -/
structure DeviceRow where
  columns : List RowColumn := []
  flushed : Bool := true
deriving DecidableEq, Repr

/-- When, at which sequence number and with which TTL a column is read. -/
structure ReadPoint where
  seqNum : Nat
  curTime : Nat
  ttl : Nat
deriving DecidableEq, Repr

namespace UserKey

def getColumnNode (user : UserKey V) (col : Nat) (point : ReadPoint) :
    ColumnLookup (ColumnNode V) :=
  (user.columns col).getColumnNode point.curTime point.seqNum point.ttl

def empty : UserKey V := {}

def setColumn (user : UserKey V) (col : Nat) (data : ColumnData V) : UserKey V :=
  { user with columns := Function.update user.columns col data }

@[simp] theorem setColumn_columns (user : UserKey V) (col other : Nat) (data : ColumnData V) :
    (user.setColumn col data).columns other =
      if other = col then data else user.columns other := by
  simp [setColumn, Function.update_apply]

/-- `UserKey::InsertColumnNodes`: every column of the row is inserted at the back of its
list.  The row is parsed as a whole before, its columns are inserted in order. -/
def insertColumnNodes (user : UserKey V) (row : DeviceRow) : UserKey V :=
  (fetchedNodes row.flushed 0 0 row.columns).foldl
    (fun user column =>
      user.setColumn column.1 ((user.columns column.1).insertColumnNode column.2).2)
    user

end UserKey

namespace DeviceRow

variable (row : DeviceRow)

/-- `GetValueUsingSKTDF`. -/
def getValue (col : Nat) (point : ReadPoint) : Option (Designator V) :=
  (getColumnInfo row.flushed row.columns col point.seqNum point.curTime point.ttl).map
    fun column => .keyBlock column.ikeySeq column.offset

def padEntry (col : Nat) (point : ReadPoint) :
    Option (Designator V × Nat) :=
  (fillIterScratchPadWithColumnInfo row.flushed row.columns col point.seqNum point.curTime
    point.ttl).map fun (column, seq) => (.keyBlock column.ikeySeq column.offset, seq)

def visible (col : Nat) (point : ReadPoint) : Bool :=
  (fillIterScratchPadWithColumnInfo row.flushed row.columns col point.seqNum point.curTime
    point.ttl).isSome

theorem padEntry_eq_none_iff (col : Nat) (point : ReadPoint) :
    (row.padEntry col point : Option (Designator V × Nat)) = none ↔
      row.visible col point = false := by
  simp [padEntry, visible]

end DeviceRow

/-- `DBImpl::Get` on the key found in the hash map and its row; an absent row has no
columns. -/
def getRead (user : Option (UserKey V)) (row : DeviceRow) (col : Nat)
    (point : ReadPoint) : Option (Designator V) :=
  match user with
  | none => row.getValue col point
  | some user =>
    match user.getColumnNode col point with
    | .found node => some node.designator
    -- The `deleted` flag is not looked at.
    | .deleted | .absent => if user.fetched then none else row.getValue col point

/-- One key of `BuildIteratorScratchPad`: `GetColumnNode` is called without a TTL. -/
def padRead (user : Option (UserKey V)) (row : DeviceRow) (col : Nat)
    (point : ReadPoint) : Option (Designator V × Nat) :=
  match user with
  | none => row.padEntry col point
  | some user =>
    match user.getColumnNode col { point with ttl := 0 } with
    | .found node => some (node.designator, node.beginSeq)
    | .deleted => none
    | .absent => if user.fetched then none else row.padEntry col point

variable {pre post : UserKey V} {row : DeviceRow} {col : Nat} {point : ReadPoint}

theorem getRead_congr (sameFetched : post.fetched = pre.fetched)
    (sameView : (post.getColumnNode col point).map ColumnNode.view =
      (pre.getColumnNode col point).map ColumnNode.view) :
    getRead (some post) row col point = getRead (some pre) row col point := by
  simp only [getRead, sameFetched]
  cases afterLookup : post.getColumnNode col point <;>
    cases beforeLookup : pre.getColumnNode col point <;>
    simp_all [ColumnLookup.map, ColumnNode.view]

theorem padRead_congr (sameFetched : post.fetched = pre.fetched)
    (sameView : (post.getColumnNode col { point with ttl := 0 }).map ColumnNode.view =
      (pre.getColumnNode col { point with ttl := 0 }).map ColumnNode.view) :
    padRead (some post) row col point = padRead (some pre) row col point := by
  simp only [padRead, sameFetched]
  cases afterLookup : post.getColumnNode col { point with ttl := 0 } <;>
    cases beforeLookup : pre.getColumnNode col { point with ttl := 0 } <;>
    simp_all [ColumnLookup.map, ColumnNode.view]

theorem getRead_congr_of_not_found (sameFetched : post.fetched = pre.fetched)
    (beforeNone : ∀ node, pre.getColumnNode col point ≠ .found node)
    (afterNone : ∀ node, post.getColumnNode col point ≠ .found node) :
    getRead (some post) row col point = getRead (some pre) row col point := by
  simp only [getRead, sameFetched]
  cases afterLookup : post.getColumnNode col point <;>
    cases beforeLookup : pre.getColumnNode col point <;>
    simp_all

end InsDb
