import InsDb.Library.OuterJoin
import InsDb.SKTable

/-!
# Iterator scratch pads

An iterator reads a table through a scratch pad, the list of all keys of the table that
its snapshot sees in one column, built by `SKTableMem::BuildIteratorScratchPad` in one
pass over the key map and the rows.  This module relates a pad to what `DBImpl::Get`
returns key by key.
-/

namespace InsDb

open InsDb.Library Option

variable {K V : Type} [LinearOrder K]

variable (t : SKTable K V)

def SKTable.padEntry (col : Nat) (point : ReadPoint)
    (user : Option (UserKey V)) (row : Option Bytes) : Option (Designator V × Nat) :=
  padRead user { columns := rowColumns (row.getD []), flushed := t.hasBeenFlushed } col
    point

/-- The pass of `BuildIteratorScratchPad` over the key map and the rows. -/
def SKTable.padEntries (col : Nat) (point : ReadPoint) :
    List (K × Designator V × Nat) :=
  OuterJoin.collect (fun _ user row => t.padEntry col point user row)
    (OuterJoin.join t.keymap t.rows)

def SKTable.buildPad (col : Nat) (point : ReadPoint) :
    IterScratchPad K V :=
  { entries := (t.padEntries col point).map fun entry => (entry.1, entry.2.1)
    beginSeq := ((t.padEntries col point).map fun entry => entry.2.2).foldl max 0
    lastSeq := point.seqNum
    builtFor := point }

/-- `SKTableMem::BuildIteratorScratchPad`: the pad is not built for a key that belongs
to the next table. -/
def SKTable.buildIteratorScratchPad (nextBegin : Option K)
    (key : Option K) (col : Nat) (point : ReadPoint) : Option (IterScratchPad K V) :=
  match nextBegin, key with
  | some next, some key => if next ≤ key then none else some (t.buildPad col point)
  | _, _ => some (t.buildPad col point)

variable {t : SKTable K V}

section

variable (sorted : t.Sorted) (col : Nat) (point : ReadPoint)

include sorted col point

theorem padEntries_ascending : Rows.Ascending (t.padEntries col point) :=
  OuterJoin.collect_ascending _ (OuterJoin.join_ascending sorted.keymap sorted.rows)

theorem buildPad_ascending : Rows.Ascending (t.buildPad col point).entries := by
  rw [Rows.Ascending, SKTable.buildPad, List.pairwise_map]
  exact padEntries_ascending sorted col point

theorem get_padEntries (key : K) : Rows.get (t.padEntries col point) key =
      padRead (Rows.get t.keymap key) (t.deviceRow key) col point := by
  apply OuterJoin.get_collect_join (fun _ user row => t.padEntry col point user row)
    sorted.keymap sorted.rows key
  rfl

theorem get_buildPad (key : K) : Rows.get (t.buildPad col point).entries key =
      (padRead (Rows.get t.keymap key) (t.deviceRow key) col point).map Prod.fst := by
  rw [← get_padEntries sorted, SKTable.buildPad, Rows.get_map_snd]

end

/-- The first column with the id and what the earlier columns of the row left in the
two running variables of a reader. -/
def locate (col : Nat) : Nat → Nat → List RowColumn → Option (RowColumn × Nat × Nat)
  | _, _, [] => none
  | seq, ts, column :: rest =>
    if column.colId = col then
      some (column, seq, ts)
    else
      locate col (column.seq.getD seq) (column.ts.getD ts) rest

variable (flushed : Bool)

/-- The test of a point read: a time stamp only counts while the TTL is enabled. -/
def RowColumn.getAdmits (point : ReadPoint) (carriedSeq carriedTs : Nat)
    (column : RowColumn) : Bool :=
  decide (column.ownSeq flushed carriedSeq ≤ point.seqNum ∧
    (column.ownTs carriedTs = 0 ∨ point.ttl = 0 ∨
      point.curTime < expiry (column.ownTs carriedTs) point.ttl) ∧
    column.ikeySeq ≠ 0)

/-- The test of an iterator: the time stamp counts also while the TTL is disabled, and
a column without one takes the one carried along the row. -/
def RowColumn.padAdmits (point : ReadPoint) (carriedSeq carriedTs : Nat)
    (column : RowColumn) : Bool :=
  decide (column.iterSeq flushed carriedSeq ≤ point.seqNum ∧
    (column.ts.getD carriedTs = 0 ∨
      point.curTime < expiry (column.ts.getD carriedTs) point.ttl))

/-- Both tests decide alike on the column of the row that they look at. -/
def DeviceRow.TestsAgree (row : DeviceRow) (col : Nat) (point : ReadPoint) : Prop :=
  ∀ column carriedSeq carriedTs,
    locate col 0 0 row.columns = some (column, carriedSeq, carriedTs) →
    column.padAdmits row.flushed point carriedSeq carriedTs =
      column.getAdmits row.flushed point carriedSeq carriedTs

/-- The column of the row passes the test of a point read and stores the value at the
designated place. -/
def DeviceRow.Holds (row : DeviceRow) (col : Nat) (point : ReadPoint)
    (place : Designator V) : Prop :=
  ∃ column carriedSeq carriedTs,
    locate col 0 0 row.columns = some (column, carriedSeq, carriedTs) ∧
      column.getAdmits row.flushed point carriedSeq carriedTs = true ∧
      place = .keyBlock column.ikeySeq column.offset

/-- When a pad entry and a point read of one key agree.  A version in memory that
counts as deleted must not hide a row that the point read falls back to, a Put in
memory must not be expired, and a row must pass both tests or none. -/
def PadAgrees (user : Option (UserKey V)) (row : DeviceRow) (col : Nat)
    (point : ReadPoint) : Prop :=
  match user with
  | none => row.TestsAgree col point
  | some user =>
    match (user.columns col).stopNode point.seqNum with
    | none => user.fetched = true ∨ row.TestsAgree col point
    | some node =>
      if node.hidden point.curTime 0 = true then
        user.fetched = true ∨ ∀ place : Designator V, ¬ row.Holds col point place
      else
        node.hidden point.curTime point.ttl = false ∨
          (user.fetched = false ∧ row.Holds col point node.designator)

theorem getFrom_eq_locate (col seq ts : Nat) (point : ReadPoint) (columns : List RowColumn) :
    getFrom flushed col point.seqNum point.curTime point.ttl seq ts columns =
      ((locate col seq ts columns).filter fun located =>
        located.1.getAdmits flushed point located.2.1 located.2.2).map Prod.fst := by
  induction columns generalizing seq ts with
  | nil => rfl
  | cons c rest ih =>
    by_cases same : c.colId = col
    · simp only [getFrom, locate, if_pos same, filter_some, RowColumn.getAdmits, decide_eq_true_eq]
      split_ifs <;> rfl
    · simpa [getFrom, locate, same] using ih (c.seq.getD seq) (c.ts.getD ts)

theorem fillFrom_eq_locate (col seq ts : Nat) (point : ReadPoint) (columns : List RowColumn) :
    (fillFrom flushed col point.seqNum point.curTime point.ttl seq ts columns).map Prod.fst =
      ((locate col seq ts columns).filter fun located =>
        located.1.padAdmits flushed point located.2.1 located.2.2).map Prod.fst := by
  induction columns generalizing seq ts with
  | nil => rfl
  | cons c rest ih =>
    by_cases same : c.colId = col
    · simp only [fillFrom, locate, if_pos same, filter_some, RowColumn.padAdmits, decide_eq_true_eq]
      split_ifs <;> rfl
    · simpa [fillFrom, locate, same] using ih (c.seq.getD seq) (c.ts.getD ts)

section Row

variable {row : DeviceRow} {col : Nat} {point : ReadPoint}

theorem getValue_eq_locate : (row.getValue col point : Option (Designator V)) =
      ((locate col 0 0 row.columns).filter fun located =>
        located.1.getAdmits row.flushed point located.2.1 located.2.2).map
          fun located => .keyBlock located.1.ikeySeq located.1.offset := by
  unfold DeviceRow.getValue getColumnInfo
  rw [getFrom_eq_locate, Option.map_map]
  rfl

theorem padEntry_eq_locate : (row.padEntry col point : Option (Designator V × Nat)).map Prod.fst =
      ((locate col 0 0 row.columns).filter fun located =>
        located.1.padAdmits row.flushed point located.2.1 located.2.2).map
          fun located => .keyBlock located.1.ikeySeq located.1.offset := by
  have filled := congrArg
    (Option.map fun c => (.keyBlock c.ikeySeq c.offset : Designator V))
    (fillFrom_eq_locate row.flushed col 0 0 point row.columns)
  simpa [DeviceRow.padEntry, fillIterScratchPadWithColumnInfo, Function.comp_def] using filled

theorem row_reads_agree_iff :
    (row.padEntry col point : Option (Designator V × Nat)).map Prod.fst =
        row.getValue col point ↔ row.TestsAgree col point := by
  rw [padEntry_eq_locate, getValue_eq_locate]
  cases found : locate col 0 0 row.columns with
  | none => simp [DeviceRow.TestsAgree, found]
  | some located =>
    obtain ⟨c, carriedSeq, carriedTs⟩ := located
    have oneColumn : row.TestsAgree col point ↔
        c.padAdmits row.flushed point carriedSeq carriedTs =
          c.getAdmits row.flushed point carriedSeq carriedTs := by
      constructor
      · exact fun agree => agree c carriedSeq carriedTs found
      rintro agree _ _ _ foundAgain
      obtain ⟨rfl, rfl, rfl⟩ := by simpa [found] using foundAgain
      exact agree
    rw [oneColumn]
    cases pad : c.padAdmits row.flushed point carriedSeq carriedTs <;>
      cases get : c.getAdmits row.flushed point carriedSeq carriedTs <;>
      simp [filter_some, pad, get]

theorem getValue_eq_some_iff (place : Designator V) :
    row.getValue col point = some place ↔ row.Holds col point place := by
  rw [getValue_eq_locate]
  cases found : locate col 0 0 row.columns with
  | none => simp [DeviceRow.Holds, found]
  | some located =>
    obtain ⟨c, carriedSeq, carriedTs⟩ := located
    have oneColumn : row.Holds col point place ↔
        c.getAdmits row.flushed point carriedSeq carriedTs = true ∧
          place = .keyBlock c.ikeySeq c.offset := by
      constructor
      · rintro ⟨_, _, _, foundAgain, holds⟩
        obtain ⟨rfl, rfl, rfl⟩ := by simpa [found] using foundAgain
        exact holds
      · exact fun holds => ⟨c, carriedSeq, carriedTs, found, holds⟩
    rw [oneColumn]
    cases get : c.getAdmits row.flushed point carriedSeq carriedTs
    · simp [filter_some, get]
    simp only [filter_some, get, if_true, map_some, some.injEq, true_and]
    exact eq_comm

theorem getValue_eq_none_iff : (row.getValue col point : Option (Designator V)) = none ↔
      ∀ place : Designator V, ¬ row.Holds col point place := by
  rw [eq_none_iff_forall_ne_some]
  exact forall_congr' fun place => not_congr (getValue_eq_some_iff place)

end Row

theorem hidden_of_hidden_without_ttl {node : ColumnNode V} {curTime : Nat}
    (hidden : node.hidden curTime 0 = true) (ttl : Nat) : node.hidden curTime ttl = true := by
  simp only [ColumnNode.hidden, ne_eq, not_true_eq_false, decide_false, Bool.false_and,
    Bool.or_false, Bool.or_eq_true] at hidden ⊢
  exact hidden.imp_left Or.inl

theorem padRead_eq_getRead_iff (user : Option (UserKey V)) (row : DeviceRow) (col : Nat)
    (point : ReadPoint) :
    (padRead user row col point).map Prod.fst = getRead user row col point ↔
      PadAgrees user row col point := by
  cases user with
  | none => exact row_reads_agree_iff
  | some user =>
    simp only [padRead, getRead, PadAgrees, UserKey.getColumnNode,
      ColumnData.getColumnNode_of_stopNode]
    cases (user.columns col).stopNode point.seqNum with
    | none =>
      cases user.fetched
      · simpa using row_reads_agree_iff
      · simp
    | some node =>
      by_cases deleted : node.hidden point.curTime 0 = true
      · -- Deleted for both; only the point read goes on to the row.
        have alsoDeleted := hidden_of_hidden_without_ttl deleted point.ttl
        simp only [ColumnNode.answer, deleted, alsoDeleted, if_true, map_none]
        cases user.fetched
        · simpa using eq_comm.trans getValue_eq_none_iff
        · simp
      by_cases expired : node.hidden point.curTime point.ttl = true
      · simp only [ColumnNode.answer, deleted, expired, if_true]
        cases user.fetched
        · simpa using eq_comm.trans (getValue_eq_some_iff node.designator)
        · simp
      · simp [ColumnNode.answer, deleted, expired]

theorem buildIteratorScratchPad_eq_buildPad {nextBegin key : Option K} {col : Nat}
    {point : ReadPoint} {pad : IterScratchPad K V}
    (built : t.buildIteratorScratchPad nextBegin key col point = some pad) :
    pad = t.buildPad col point := by
  unfold SKTable.buildIteratorScratchPad at built
  split at built
  · split_ifs at built
    exact (some.inj built).symm
  · exact (some.inj built).symm

/-- A pad built once the queued keys are in the key map holds, for a key of the table,
what `Get` at the same read point designates exactly under `PadAgrees`. -/
theorem scratch_pad_entry_eq_get_iff {t : SKTable K V} (sorted : t.Sorted)
    {nextBegin seekKey : Option K} {col : Nat} {point : ReadPoint}
    {pad : IterScratchPad K V}
    (built : t.insertUserKeyToKeyMap.2.buildIteratorScratchPad nextBegin seekKey col point =
      some pad)
    (key : K) :
    Rows.get pad.entries key = t.get key col point ↔
      PadAgrees (t.findUserKey key) (t.deviceRow key) col point := by
  rw [buildIteratorScratchPad_eq_buildPad built, get_buildPad sorted.insertUserKeyToKeyMap,
    SKTable.get_insertUserKeyToKeyMap sorted, SKTable.insertUserKeyToKeyMap_deviceRow]
  exact padRead_eq_getRead_iff ..

/-- Key 1 was flushed with sequence number 10 and then deleted at 20 through a `UserKey`
that never fetched the row. -/
def deletedOverRow : SKTable Nat Nat :=
  { beginKey := 0
    keyQueue :=
      [(1, UserKey.setColumn { dirty := true } 0
        { colList := [{ requestType := .del, beginSeq := 20, endSeq := 20 }]
          latestColNode := some 20 })]
    rows :=
      [(1, encodeRow
        [(0, ({ requestType := .put, beginSeq := 10, ikeySeq := 2000, kbOffset := 3 } :
          ColumnNode Nat))])]
    hasBeenFlushed := true }

theorem deletedOverRow_sorted : deletedOverRow.Sorted :=
  ⟨by simp [deletedOverRow, Rows.Ascending], by simp [deletedOverRow, Rows.Ascending],
    by simp [deletedOverRow], by simp [deletedOverRow]⟩

/-- A snapshot older than the delete reads the row both ways. -/
theorem scratch_pad_entry_eq_get_before_delete : deletedOverRow.Sorted ∧
      deletedOverRow.insertUserKeyToKeyMap.2.buildIteratorScratchPad none (some 1) 0
          { seqNum := 15, curTime := 100, ttl := 0 } =
        some
          { entries := [(1, .keyBlock 2000 3)]
            beginSeq := 10
            lastSeq := 15
            builtFor := ⟨15, 100, 0⟩ } ∧
      Rows.get [(1, (.keyBlock 2000 3 : Designator Nat))] 1 =
        deletedOverRow.get 1 0 { seqNum := 15, curTime := 100, ttl := 0 } := by
  have built : deletedOverRow.insertUserKeyToKeyMap.2.buildIteratorScratchPad none (some 1) 0
      { seqNum := 15, curTime := 100, ttl := 0 } =
        some
          { entries := [(1, .keyBlock 2000 3)]
            beginSeq := 10
            lastSeq := 15
            builtFor := ⟨15, 100, 0⟩ } := by
    decide
  refine ⟨deletedOverRow_sorted, built, ?_⟩
  refine (scratch_pad_entry_eq_get_iff deletedOverRow_sorted built 1).mpr (Or.inr ?_)
  intro _ _ _ found
  have located : locate 0 0 0 (deletedOverRow.deviceRow 1).columns =
      some (⟨0, 3, 2000, 0, some 10, none, true, false⟩, 0, 0) := by
    decide
  obtain ⟨rfl, rfl, rfl⟩ := by simpa [located] using found
  decide

/-- After the delete the pad no longer holds the key, but `Get` returns the flushed value. -/
theorem get_reads_row_below_pending_delete : deletedOverRow.Sorted ∧
      deletedOverRow.insertUserKeyToKeyMap.2.buildIteratorScratchPad none (some 1) 0
          { seqNum := 25, curTime := 100, ttl := 0 } =
        some { entries := [], beginSeq := 0, lastSeq := 25, builtFor := ⟨25, 100, 0⟩ } ∧
      deletedOverRow.get 1 0 { seqNum := 25, curTime := 100, ttl := 0 } = some (.keyBlock 2000 3) :=
  ⟨deletedOverRow_sorted, by decide, by decide⟩

end InsDb
