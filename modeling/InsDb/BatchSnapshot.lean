import InsDb.WriteBatch
import Mathlib.Logic.Relation

/-!
# Snapshots taken while a batch is stored

Every update of a batch takes a sequence number of its own, and a snapshot holds the
number that was taken last.  A snapshot that another thread creates between two updates
of a batch therefore sees the first of them and not the second; one that is created
before the first or after the last sees none or all.  An update is not visible as soon as it has
its number: `UpdateColumn` puts the node into the list, and readers find it once
`SetLatestColumnNode` has designated it.  They do not take the lock of the column.
-/

namespace InsDb

open InsDb.Library List

variable {K V : Type} [LinearOrder K]

def Db.readsAt (db : Db K V) (seqNum time : Nat) (key : K) (col : Nat) :
    Option (Designator V × Nat) × Option (Designator V) :=
  let point : ReadPoint := { seqNum := seqNum, curTime := time, ttl := db.ttlList col }
  (padRead (db.findUserKey key) (db.deviceRow key) col point,
    getRead (db.findUserKey key) (db.deviceRow key) col point)

theorem Stored.readsAt_below {pre post : Db K V} {key : K} {col : Nat}
    {node : ColumnNode V} (stored : Stored pre post key col node)
    (beforeWF : pre.WellFormed) (afterWF : post.WellFormed)
    (begins : node.beginSeq = pre.sequenceNumber + 1) {seq : Nat}
    (below : seq < node.beginSeq) (time : Nat) (readKey : K) (readCol : Nat) :
    post.readsAt seq time readKey readCol = pre.readsAt seq time readKey readCol := by
  unfold Db.readsAt Db.findUserKey Db.deviceRow Db.findSKTableMem
  rw [stored.beginKeys, stored.ttlList]
  generalize tableIndex readKey pre.beginKeys = i
  cases isTable : post.tables[i]? with
  | none =>
    obtain ⟨_, -, ts⟩ := stored.tables
    have isBefore : pre.tables[i]? = none := by
      rw [ts, getElem?_modify] at isTable
      exact Option.map_eq_none_iff.mp isTable
    rw [isBefore]
  | some changed =>
    obtain ⟨t, isBefore, rfl | updated⟩ := stored.table isTable
    · rw [isBefore]
    have users := beforeWF.users t (mem_of_getElem? isBefore)
    have afterUsers := afterWF.users changed (mem_of_getElem? isTable)
    rw [stored.sequence, ← begins] at afterUsers
    obtain ⟨pads, gets⟩ := updated.reads_below users afterUsers readKey readCol
      { seqNum := seq, curTime := time, ttl := pre.ttlList readCol } below
    simp only [isBefore, Option.bind_some]
    rw [pads, gets]

/-- No column of a row is newer than `bound`. -/
def DeviceRow.Below (row : DeviceRow) (bound : Nat) : Prop :=
  ∀ c ∈ row.columns, c.seq.getD 0 ≤ bound

section Above

variable {bound first second : Nat} (firstAbove : bound ≤ first) (secondAbove : bound ≤ second)

include firstAbove secondAbove

theorem ColumnData.WellFormed.getColumnNode_above {data : ColumnData V}
    (wellFormed : data.WellFormed) (below : data.Below bound) (curTime ttl : Nat) :
    data.getColumnNode curTime first ttl = data.getColumnNode curTime second ttl := by
  have sameCovers : ∀ node ∈ data.colList, node.covers first = node.covers second := by
    intro node mem
    obtain ⟨begun, ended⟩ := below node mem
    rw [Bool.eq_iff_iff, ColumnNode.covers_iff, ColumnNode.covers_iff]
    simp only [begun.trans firstAbove, begun.trans secondAbove, true_and]
    rcases ended with openEnd | closed
    · simp only [openEnd, true_or]
    simp [Nat.not_lt.mpr (closed.trans firstAbove),Nat.not_lt.mpr (closed.trans secondAbove)]
  rw [wellFormed.getColumnNode_eq, wellFormed.getColumnNode_eq]
  unfold lookupIn
  rw [find_congr sameCovers]

omit firstAbove secondAbove in
theorem carried_below {c : RowColumn} (columnBelow : c.seq.getD 0 ≤ bound) {seq : Nat}
    (seqBelow : seq ≤ bound) : c.seq.getD seq ≤ bound := by
  cases isSeq : c.seq with
  | none => simpa using seqBelow
  | some => simpa [isSeq] using columnBelow

section

variable (flushed : Bool) (col curTime ttl : Nat) {columns : List RowColumn}
  (below : ∀ c ∈ columns, c.seq.getD 0 ≤ bound) {seq : Nat} (seqBelow : seq ≤ bound)
  (ts : Nat)

include flushed col curTime ttl below seqBelow ts

theorem fillFrom_above : fillFrom flushed col first curTime ttl seq ts columns =
      fillFrom flushed col second curTime ttl seq ts columns := by
  induction columns generalizing seq ts with
  | nil => rfl
  | cons c rest ih =>
    have own := carried_below (below c mem_cons_self) seqBelow
    have iterBelow : c.iterSeq flushed seq ≤ bound := by
      unfold RowColumn.iterSeq
      split_ifs
      · exact own
      · exact Nat.zero_le _
      · exact seqBelow
    simp only [fillFrom]
    rw [ih (fun later mem => below later (mem_cons_of_mem _ mem)) own]
    simp [iterBelow.trans firstAbove, iterBelow.trans secondAbove]

theorem getFrom_above : getFrom flushed col first curTime ttl seq ts columns =
      getFrom flushed col second curTime ttl seq ts columns := by
  induction columns generalizing seq ts with
  | nil => rfl
  | cons c rest ih =>
    have own := carried_below (below c mem_cons_self) seqBelow
    have ownBelow : c.ownSeq flushed seq ≤ bound := by
      unfold RowColumn.ownSeq
      split_ifs
      · exact own
      · exact Nat.zero_le _
    simp only [getFrom]
    rw [ih (fun later mem => below later (mem_cons_of_mem _ mem)) own]
    simp [ownBelow.trans firstAbove, ownBelow.trans secondAbove]

end

theorem UserKey.WellFormed.getColumnNode_above {user : UserKey V}
    (wellFormed : user.WellFormed bound) (col : Nat) (point : ReadPoint) :
    user.getColumnNode col { point with seqNum := first } =
      user.getColumnNode col { point with seqNum := second } :=
  (wellFormed col).1.getColumnNode_above firstAbove secondAbove (wellFormed col).2 _ _

theorem DeviceRow.Below.getValue_above {row : DeviceRow} (below : row.Below bound) (col : Nat)
    (point : ReadPoint) :
    (row.getValue col { point with seqNum := first } : Option (Designator V)) =
      row.getValue col { point with seqNum := second } := by
  unfold DeviceRow.getValue getColumnInfo
  rw [getFrom_above firstAbove secondAbove row.flushed col _ _ below (Nat.zero_le _)]

theorem DeviceRow.Below.padEntry_above {row : DeviceRow} (below : row.Below bound) (col : Nat)
    (point : ReadPoint) :
    (row.padEntry col { point with seqNum := first } : Option (Designator V × Nat)) =
      row.padEntry col { point with seqNum := second } := by
  unfold DeviceRow.padEntry fillIterScratchPadWithColumnInfo
  rw [fillFrom_above firstAbove secondAbove row.flushed col _ _ below (Nat.zero_le _)]

theorem readsAt_above {db : Db K V} (wellFormed : db.WellFormed)
    (isBound : bound = db.sequenceNumber) (rows : ∀ key, (db.deviceRow key).Below bound)
    (time : Nat) (key : K) (col : Nat) :
    db.readsAt first time key col = db.readsAt second time key col := by
  unfold Db.readsAt
  cases found : db.findUserKey key with
  | none =>
    exact Prod.ext ((rows key).padEntry_above firstAbove secondAbove col ⟨first, time, _⟩)
      ((rows key).getValue_above firstAbove secondAbove col ⟨first, time, _⟩)
  | some user =>
    have userWF : user.WellFormed bound := by
      obtain ⟨t, isTable, inTable⟩ := Option.bind_eq_some_iff.mp found
      rw [isBound]
      exact wellFormed.users t (mem_of_getElem? isTable) key user inTable
    have padNode := userWF.getColumnNode_above firstAbove secondAbove col ⟨first, time, 0⟩
    have getNode := userWF.getColumnNode_above firstAbove secondAbove col
      ⟨first, time, db.ttlList col⟩
    have padRow : ((db.deviceRow key).padEntry col _ : Option (Designator V × Nat)) = _ :=
      (rows key).padEntry_above firstAbove secondAbove col ⟨first, time, db.ttlList col⟩
    have getRow : ((db.deviceRow key).getValue col _ : Option (Designator V)) = _ :=
      (rows key).getValue_above firstAbove secondAbove col ⟨first, time, db.ttlList col⟩
    simp only [padRead, getRead, padNode, getNode, padRow, getRow]

end Above

/-- Where a thread is with the next update of its batch. -/
inductive Storing where
  | idle
  -- `GenerateSequenceNumber` has been called.
  | numbered
  -- `UpdateColumn` has been called, `SetLatestColumnNode` has not.
  | linked
deriving DecidableEq, Repr

/-- A key after `UpdateColumn` for one of its columns. -/
def UserKey.linkNode (user : UserKey V) (colId : Nat) (node : ColumnNode V) (force : Bool) :
    UserKey V :=
  match (user.columns colId).updateColumn node force with
  | (.failInsert, _) => user
  | (_, data) => { user.setColumn colId data with dirty := true }

/-- `Store` up to the end of `UpdateColumn`. -/
def Db.updateColumn (db : Db K V) (trxn : Transaction) (time : Nat) (key : K) (colId : Nat)
    (update : Update V) : Db K V :=
  let node := update.node (db.timeStamp colId time) (db.sequenceNumber + 1)
  { db.setUserKey key (((db.findUserKey key).getD .empty).linkNode colId node trxn.isLast) with
    sequenceNumber := db.sequenceNumber + 1 }

/-- What the other threads see. -/
def WriteBatchInternal.seen (handler : WriteBatchInternal K V) :
    Storing → List (BatchUpdate K V) → Db K V
  | .numbered, _ => { handler.db with sequenceNumber := handler.db.sequenceNumber + 1 }
  | .linked, change :: _ =>
    handler.db.updateColumn handler.trxn handler.time change.key change.colId change.update
  | _, _ => handler.db

/-- One thread stores the updates of a batch, another one calls `GetSnapshot` in the states that
satisfy `may`, and time passes. -/
inductive BatchStep (may : Storing → List (BatchUpdate K V) → Prop) :
    Storing × List (BatchUpdate K V) × WriteBatchInternal K V →
      Storing × List (BatchUpdate K V) × WriteBatchInternal K V → Prop
  | generateSequenceNumber (change : BatchUpdate K V) (rest : List (BatchUpdate K V))
      (handler : WriteBatchInternal K V) :
      BatchStep may (.idle, change :: rest, handler) (.numbered, change :: rest, handler)
  | updateColumn (change : BatchUpdate K V) (rest : List (BatchUpdate K V))
      (handler : WriteBatchInternal K V) :
      BatchStep may (.numbered, change :: rest, handler) (.linked, change :: rest, handler)
  | setLatestColumnNode (change : BatchUpdate K V) (rest : List (BatchUpdate K V))
      (handler : WriteBatchInternal K V) :
      BatchStep may (.linked, change :: rest, handler) (.idle, rest, handler.store change)
  | getSnapshot (storing : Storing) (rest : List (BatchUpdate K V))
      (handler : WriteBatchInternal K V) (allowed : may storing rest) :
      BatchStep may (storing, rest, handler) (storing, rest, { handler with
        db.snapshots := (handler.seen storing rest).createSnapshot.2.snapshots })
  | tick (storing : Storing) (rest : List (BatchUpdate K V)) (handler : WriteBatchInternal K V)
      (now : Nat) :
      BatchStep may (storing, rest, handler) (storing, rest, { handler with db.now := now })

/-- No update of the batch has its number, or the last one is designated. -/
def Undivided (changes : List (BatchUpdate K V)) (storing : Storing)
    (rest : List (BatchUpdate K V)) : Prop :=
  storing = .idle ∧ (rest = changes ∨ rest = [])

section Linked

variable {data : ColumnData V} {node : ColumnNode V} {seq : Nat}

/-- The old latest node is still designated; it is the second of the list. -/
theorem ColumnData.WellFormed.getColumnNode_linked (wellFormed : data.WellFormed)
    (fresh : ∀ old ∈ data.colList, old.beginSeq < node.beginSeq) (below : seq < node.beginSeq)
    (curTime ttl : Nat) :
    (({ data with
          colList := node.closeDelete :: closeNewest node.beginSeq data.colList } :
        ColumnData V).getColumnNode curTime seq ttl).map ColumnNode.view =
      (data.getColumnNode curTime seq ttl).map ColumnNode.view := by
  rw [wellFormed.getColumnNode_eq, ← lookup_update_below below]
  have notBegun : ¬ node.closeDelete.covers seq = true := by
    rw [ColumnNode.covers_iff, ColumnNode.closeDelete_beginSeq]
    omega
  have latest := wellFormed.latest
  rw [lookupIn, find?_cons_of_neg notBegun]
  cases listed : data.colList with
  | nil =>
    rw [listed] at latest
    simp [ColumnData.getColumnNode, ColumnData.latestNode, latest, closeNewest]
  | cons old older =>
    rw [listed] at latest
    obtain ⟨closed, isClosed, begins⟩ : ∃ closed,
        closeNewest node.beginSeq (old :: older) = closed :: older ∧
          closed.beginSeq = old.beginSeq := by
      simp only [closeNewest]
      split_ifs
      · exact ⟨_, rfl, rfl⟩
      · exact ⟨_, rfl, rfl⟩
    have newer : node.beginSeq ≠ old.beginSeq :=
      Nat.ne_of_gt (fresh old (listed ▸ mem_cons_self))
    rw [isClosed]
    by_cases covers : closed.covers seq = true <;>
      simp [ColumnData.getColumnNode, ColumnData.latestNode, latest, newer, begins, covers,
        lookupIn]

theorem Db.deviceRow_setUserKey (db : Db K V) (key : K) (user : UserKey V) (readKey : K) :
    (db.setUserKey key user).deviceRow readKey = db.deviceRow readKey := by
  unfold Db.deviceRow Db.findSKTableMem
  rw [Db.beginKeys_setUserKey, Db.setUserKey, getElem?_modify]
  cases db.tables[tableIndex readKey db.beginKeys]? with
  | none => rfl
  | some =>
    split_ifs
    · exact SKTable.setUserKey_deviceRow ..
    · rfl

theorem Db.readsAt_setUserKey {db : Db K V} {key : K} {user : UserKey V} {time : Nat}
    (sameFetched : user.fetched = ((db.findUserKey key).getD .empty).fetched)
    (sameView : ∀ col ttl, (user.getColumnNode col ⟨seq, time, ttl⟩).map ColumnNode.view =
      (((db.findUserKey key).getD .empty).getColumnNode col ⟨seq, time, ttl⟩).map
        ColumnNode.view) (readKey : K) (readCol : Nat) :
    (db.setUserKey key user).readsAt seq time readKey readCol =
      db.readsAt seq time readKey readCol := by
  by_cases noTables : db.tables = []
  · simp [Db.setUserKey, noTables, Db.readsAt, Db.findUserKey, Db.deviceRow, Db.findSKTableMem]
  simp only [Db.readsAt, Db.findUserKey_setUserKey db noTables, Db.deviceRow_setUserKey]
  split_ifs with same
  · subst same
    rw [← padRead_getD (db.findUserKey key), ← getRead_getD (db.findUserKey key)]
    exact Prod.ext (padRead_congr sameFetched (sameView readCol 0))
      (getRead_congr sameFetched (sameView readCol _))
  · rfl

theorem UserKey.WellFormed.linkNode {user : UserKey V} {bound : Nat}
    (wellFormed : user.WellFormed bound) (node : ColumnNode V) (col : Nat) (force : Bool)
    (fresh : bound < node.beginSeq) (below : seq < node.beginSeq) (time : Nat) :
    (user.linkNode col node force).fetched = user.fetched ∧
      ∀ other ttl, ((user.linkNode col node force).getColumnNode other ⟨seq, time, ttl⟩).map
          ColumnNode.view =
        (user.getColumnNode other ⟨seq, time, ttl⟩).map ColumnNode.view := by
  by_cases cancelled : (user.columns col).cancels node force
  · rw [UserKey.linkNode, ColumnData.updateColumn_of_cancels cancelled]
    exact ⟨rfl, fun _ _ => rfl⟩
  have linked : user.linkNode col node force =
      { user.setColumn col { user.columns col with
          colList := node.closeDelete :: closeNewest node.beginSeq (user.columns col).colList } with
        dirty := true } := by
    rw [UserKey.linkNode, ColumnData.updateColumn_of_not_cancels cancelled]
    cases (user.columns col).colList.head? with
    | none => rfl
    | some =>
      simp only [scheduleStatus]
      split_ifs <;> rfl
  rw [linked]
  refine ⟨rfl, fun other ttl => ?_⟩
  by_cases same : other = col
  · subst same
    obtain ⟨columnWF, bounded⟩ := wellFormed other
    simp only [UserKey.getColumnNode, UserKey.setColumn_columns, if_true]
    apply columnWF.getColumnNode_linked _ below
    intro old mem
    have begun := (bounded old mem).1
    omega
  · simp [UserKey.getColumnNode, same]

/-- The numbers before that of the update read as if `UpdateColumn` had not been called. -/
theorem Db.WellFormed.readsAt_updateColumn {db : Db K V} (wellFormed : db.WellFormed)
    (trxn : Transaction) (storeTime : Nat) (key : K) (col : Nat) (update : Update V)
    (old : seq ≤ db.sequenceNumber) (time : Nat) (readKey : K) (readCol : Nat) :
    (db.updateColumn trxn storeTime key col update).readsAt seq time readKey readCol =
      db.readsAt seq time readKey readCol := by
  have userWF : ((db.findUserKey key).getD .empty).WellFormed db.sequenceNumber := by
    cases found : db.findUserKey key with
    | none => exact UserKey.wellFormed_empty _
    | some user =>
      obtain ⟨t, isTable, inTable⟩ := Option.bind_eq_some_iff.mp found
      exact wellFormed.users t (mem_of_getElem? isTable) key user inTable
  have begins := update.node_beginSeq (db.timeStamp col storeTime) (db.sequenceNumber + 1)
  have fresh : db.sequenceNumber <
      (update.node (db.timeStamp col storeTime) (db.sequenceNumber + 1)).beginSeq := by omega
  have below : seq <
      (update.node (db.timeStamp col storeTime) (db.sequenceNumber + 1)).beginSeq := by omega
  obtain ⟨fetched, views⟩ := userWF.linkNode _ col trxn.isLast fresh below time
  exact Db.readsAt_setUserKey fetched views readKey readCol

end Linked

structure BatchInvariant (start : Db K V) (changes rest : List (BatchUpdate K V))
    (db : Db K V) : Prop where
  wellFormed : db.WellFormed
  begun : rest.length ≤ changes.length
  sequence : db.sequenceNumber + rest.length = start.sequenceNumber + changes.length
  rows : ∀ key, (db.deviceRow key).Below start.sequenceNumber
  reads : ∀ seqNum, seqNum ≤ start.sequenceNumber → ∀ time key col,
    db.readsAt seqNum time key col = start.readsAt seqNum time key col
  snapshots : ∀ snapshot ∈ db.snapshots, snapshot.seqNum ≤ start.sequenceNumber ∨
    rest = [] ∧ snapshot.seqNum = db.sequenceNumber

theorem Stored.deviceRow {pre post : Db K V} {key : K} {col : Nat}
    {node : ColumnNode V} (stored : Stored pre post key col node) (readKey : K) :
    post.deviceRow readKey = pre.deviceRow readKey := by
  obtain ⟨user, -, ts⟩ := stored.tables
  rw [← pre.deviceRow_setUserKey key user]
  unfold Db.deviceRow Db.findSKTableMem Db.beginKeys
  rw [ts]
  rfl

omit [LinearOrder K] in
theorem Db.mem_snapshots_createSnapshot {db : Db K V} {snap : Snapshot}
    (mem : snap ∈ db.createSnapshot.2.snapshots) :
    snap ∈ db.snapshots ∨ snap.seqNum = db.sequenceNumber := by
  unfold Db.createSnapshot at mem
  cases newest : db.snapshots.head? with
  | none =>
    simp only [newest, mem_cons] at mem
    rcases mem with rfl | old
    · exact .inr rfl
    · exact .inl old
  | some =>
    simp only [newest] at mem
    split_ifs at mem
    · exact .inl mem
    rcases mem_cons.mp mem with rfl | old
    · exact .inr rfl
    · exact .inl old

namespace BatchInvariant

variable {start : Db K V} {changes rest : List (BatchUpdate K V)}
  {handler : WriteBatchInternal K V}

theorem store {change : BatchUpdate K V}
    (inv : BatchInvariant start changes (change :: rest) handler.db)
    (small : start.sequenceNumber + changes.length < ulongMax) :
    BatchInvariant start changes rest (handler.store change).db := by
  have stored := stored_store handler.db handler.trxn handler.time change.key change.colId
    change.update
  have begins := change.update.node_beginSeq
    (handler.db.timeStamp change.colId handler.time) (handler.db.sequenceNumber + 1)
  have sequence := inv.sequence
  have begun := inv.begun
  rw [length_cons] at sequence begun
  have afterWF := inv.wellFormed.store handler.trxn handler.time change.key change.colId
    change.update (by omega)
  refine ⟨afterWF, by omega, ?_, ?_, ?_, ?_⟩
  · have next : (handler.store change).db.sequenceNumber = handler.db.sequenceNumber + 1 :=
      stored.sequence
    omega
  · intro key
    have sameRow : (handler.store change).db.deviceRow key = handler.db.deviceRow key :=
      stored.deviceRow key
    rw [sameRow]
    exact inv.rows key
  · intro seq old time key col
    rw [← inv.reads seq old time key col]
    exact stored.readsAt_below inv.wellFormed afterWF begins (by omega) time key col
  intro snap mem
  have older := stored.snapshots ▸ mem
  rcases inv.snapshots snap older with pre | ⟨done, -⟩
  · exact .inl pre
  · cases done

theorem createSnapshot (inv : BatchInvariant start changes rest handler.db)
    (undivided : rest = changes ∨ rest = []) :
    BatchInvariant start changes rest
      { handler.db with snapshots := handler.db.createSnapshot.2.snapshots } := by
  refine ⟨⟨inv.wellFormed.sorted, inv.wellFormed.users⟩, inv.begun,
    inv.sequence, inv.rows, inv.reads, ?_⟩
  intro snap mem
  rcases Db.mem_snapshots_createSnapshot mem with older | fresh
  · exact inv.snapshots snap older
  rcases undivided with rfl | done
  · left
    have sequence := inv.sequence
    omega
  · exact .inr ⟨done, fresh⟩

theorem tick (inv : BatchInvariant start changes rest handler.db) (now : Nat) :
    BatchInvariant start changes rest { handler.db with now := now } :=
  ⟨⟨inv.wellFormed.sorted, inv.wellFormed.users⟩, inv.begun,
    inv.sequence, inv.rows, inv.reads, inv.snapshots⟩

theorem run {handler final : WriteBatchInternal K V} {storing : Storing}
    (initial : BatchInvariant handler.db changes changes handler.db)
    (small : handler.db.sequenceNumber + changes.length < ulongMax)
    (run : Relation.ReflTransGen (BatchStep (Undivided changes)) (.idle, changes, handler)
      (storing, rest, final)) : BatchInvariant handler.db changes rest final.db := by
  generalize isLast : (storing, rest, final) = last at run
  induction run generalizing storing rest final with
  | refl =>
    cases isLast
    exact initial
  | tail _ step ih =>
    subst isLast
    cases step with
    | generateSequenceNumber => exact ih rfl
    | updateColumn => exact ih rfl
    | setLatestColumnNode => exact (ih rfl).store small
    | getSnapshot _ _ pre allowed =>
      obtain ⟨rfl, undivided⟩ := allowed
      exact (ih rfl).createSnapshot undivided
    | tick _ _ pre now => exact (ih rfl).tick now

end BatchInvariant

theorem Db.WellFormed.readsAt_seen {handler : WriteBatchInternal K V} {seq : Nat}
    (wellFormed : handler.db.WellFormed) (storing : Storing) (rest : List (BatchUpdate K V))
    (old : seq ≤ handler.db.sequenceNumber) (time : Nat) (key : K) (col : Nat) :
    (handler.seen storing rest).readsAt seq time key col =
      handler.db.readsAt seq time key col := by
  cases storing with
  | idle => rfl
  | numbered => rfl
  | linked =>
    cases rest with
    | nil => rfl
    | cons => exact wellFormed.readsAt_updateColumn _ _ _ _ _ old time key col

theorem WriteBatchInternal.readsAt_seen_nil (handler : WriteBatchInternal K V) (storing : Storing)
    (seq time : Nat) (key : K) (col : Nat) :
    (handler.seen storing []).readsAt seq time key col =
      handler.db.readsAt seq time key col := by
  cases storing <;> rfl

def twoUpdates : List (BatchUpdate Nat Nat) := [⟨1, 0, .put 10⟩, ⟨2, 0, .put 20⟩]

def beginTwo : WriteBatchInternal Nat Nat := .initWBI oneTable 2

def storeTwo : WriteBatchInternal Nat Nat :=
  (beginTwo.store ⟨1, 0, .put 10⟩).store ⟨2, 0, .put 20⟩

/-- The three steps of an update. -/
theorem storeSteps {may : Storing → List (BatchUpdate K V) → Prop} (change : BatchUpdate K V)
    (rest : List (BatchUpdate K V)) (handler : WriteBatchInternal K V) :
    Relation.ReflTransGen (BatchStep may) (.idle, change :: rest, handler)
      (.idle, rest, handler.store change) :=
  .tail (.tail (.single (.generateSequenceNumber change rest handler))
    (.updateColumn change rest handler)) (.setLatestColumnNode change rest handler)

theorem oneTable_rows_below (key : Nat) : (oneTable.deviceRow key).Below 0 := by
  intro _ mem
  simp [oneTable, Db.deviceRow, Db.findSKTableMem, Db.beginKeys, tableIndex, SKTable.deviceRow,
    Rows.get, rowColumns] at mem

def snapshotAfter : WriteBatchInternal Nat Nat :=
  { storeTwo with db.snapshots := storeTwo.db.createSnapshot.2.snapshots }

/-- `GetSnapshot` after the second put has its number. -/
def snapshotWithin : WriteBatchInternal Nat Nat :=
  let first := beginTwo.store ⟨1, 0, .put 10⟩
  { first with db.snapshots :=
      (first.seen .numbered [⟨2, 0, .put 20⟩]).createSnapshot.2.snapshots }

end InsDb
