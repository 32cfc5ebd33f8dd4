import InsDb.SKTable
import InsDb.Transaction

/-!
# The database

`Db` is the state that the write path, the readers and the workers share: the SKTables in
key order, the sequence number, the live snapshots, the transaction groups and the pending
requests. A `UserKey` of the hash map lives in the table whose range has its key.
-/

namespace InsDb

open InsDb.Library List

structure Snapshot where
  seqNum : Nat
  time : Nat
deriving DecidableEq, Repr

structure Db (K V : Type) where
  tables : List (SKTable K V)
  sequenceNumber : Nat := 0
  -- Newest first.
  snapshots : List Snapshot := []
  trxns : TrxnGroups := {}
  -- Request nodes by identity, in queue order.
  pendingReq : List (Nat × RequestNode K) := []
  nextRequest : Nat := 0
  -- The values of the key blocks on the device, by internal key and offset.
  keyBlocks : Nat → Nat → Option V := fun _ _ => none
  ttlEnabledList : Nat → Bool := fun _ => false
  ttlList : Nat → Nat := fun _ => 0
  now : Nat := 0
  mergeOperator : Option (K → Option V → V → Option V) := none

variable {K V : Type} [LinearOrder K]

/-- The index of the last table that begins at or before the key, and 0 when the key is
below the first one (`Manifest::FindSKTableMem`, given the begin keys in order). -/
def tableIndex (key : K) : List K → Nat
  | [] => 0
  | _ :: rest =>
    match rest with
    | [] => 0
    | next :: _ => if next ≤ key then tableIndex key rest + 1 else 0

theorem tableIndex_cons_cons (key first second : K) (rest : List K) :
    tableIndex key (first :: second :: rest) =
      if second ≤ key then tableIndex key (second :: rest) + 1 else 0 := rfl

theorem tableIndex_lt {begins : List K} (nonempty : begins ≠ []) (key : K) :
    tableIndex key begins < begins.length := by
  induction begins with
  | nil => exact absurd rfl nonempty
  | cons first rest ih =>
    cases rest with
    | nil => simp [tableIndex]
    | cons =>
      have bound := ih (by simp)
      rw [tableIndex_cons_cons]
      split_ifs
      · simpa using bound
      · simp

theorem begin_le_of_tableIndex {begins : List K} {key begin : K}
    (notFirst : tableIndex key begins ≠ 0)
    (isBegin : begins[tableIndex key begins]? = some begin) : begin ≤ key := by
  induction begins with
  | nil => simp at isBegin
  | cons first rest ih =>
    cases rest with
    | nil => simp [tableIndex] at notFirst
    | cons second rest =>
      rw [tableIndex_cons_cons] at notFirst isBegin
      split_ifs at notFirst isBegin with below
      · rw [getElem?_cons_succ] at isBegin
        by_cases atSecond : tableIndex key (second :: rest) = 0
        · rw [atSecond, getElem?_cons_zero] at isBegin
          exact Option.some.inj isBegin ▸ below
        · exact ih atSecond isBegin
      · exact absurd rfl notFirst

theorem lt_begin_of_tableIndex {begins : List K} {key begin : K}
    (isBegin : begins[tableIndex key begins + 1]? = some begin) : key < begin := by
  induction begins with
  | nil => simp at isBegin
  | cons first rest ih =>
    cases rest with
    | nil => simp [tableIndex] at isBegin
    | cons =>
      rw [tableIndex_cons_cons] at isBegin
      split_ifs at isBegin with below
      · rw [getElem?_cons_succ] at isBegin
        exact ih isBegin
      rw [Nat.zero_add, getElem?_cons_succ, getElem?_cons_zero] at isBegin
      exact Option.some.inj isBegin ▸ not_le.mp below

namespace Db

variable (db : Db K V)

def beginKeys : List K :=
  db.tables.map SKTable.beginKey

def findSKTableMem (key : K) : Option (SKTable K V) :=
  db.tables[tableIndex key db.beginKeys]?

/-- `Manifest::FindUserKeyFromHashMap`. -/
def findUserKey (db : Db K V) (key : K) : Option (UserKey V) :=
  (db.findSKTableMem key).bind fun table => table.findUserKey key

def deviceRow (db : Db K V) (key : K) : DeviceRow :=
  match db.findSKTableMem key with
  | some table => table.deviceRow key
  | none => {}

def setUserKey (db : Db K V) (key : K) (user : UserKey V) : Db K V :=
  { db with
    tables := db.tables.modify (tableIndex key db.beginKeys) fun table =>
      table.setUserKey key user }

theorem beginKeys_setUserKey (key : K) (user : UserKey V) :
    (db.setUserKey key user).beginKeys = db.beginKeys := by
  unfold beginKeys setUserKey
  apply ext_getElem?
  intro i
  rw [getElem?_map, getElem?_map, getElem?_modify]
  cases db.tables[i]? with
  | none => rfl
  | some => by_cases isIndex : tableIndex key db.beginKeys = i <;> simp [isIndex]

theorem findUserKey_setUserKey (nonempty : db.tables ≠ []) (key : K)
    (user : UserKey V) (other : K) :
    (db.setUserKey key user).findUserKey other =
      if key = other then some user else db.findUserKey other := by
  have begins : db.beginKeys ≠ [] := by simpa [beginKeys] using nonempty
  have inside : tableIndex key db.beginKeys < db.tables.length := by
    simpa [beginKeys] using tableIndex_lt begins key
  unfold findUserKey findSKTableMem
  rw [beginKeys_setUserKey]
  simp only [setUserKey, getElem?_modify]
  by_cases sameTable : tableIndex key db.beginKeys = tableIndex other db.beginKeys
  · rw [← sameTable, getElem?_eq_getElem inside]
    simp [SKTable.findUserKey_setUserKey]
  have differ : key ≠ other := by
    rintro rfl
    exact sameTable rfl
  simp [sameTable, differ]

variable (snapshot : Option Snapshot)

/-- The sequence number and the time a read uses: those of its snapshot, or the largest
number and the present. -/
def readPoint (colId : Nat) : ReadPoint :=
  match snapshot with
  | some snapshot =>
    { seqNum := snapshot.seqNum, curTime := snapshot.time, ttl := db.ttlList colId }
  | none => { seqNum := ulongMax, curTime := db.now, ttl := db.ttlList colId }

/-- The stored value that `DBImpl::Get` finds. -/
def designate (key : K) (colId : Nat) :
    Option (Designator V) :=
  getRead (db.findUserKey key) (db.deviceRow key) colId (db.readPoint snapshot colId)

def load : Designator V → Option V
  | .inMemory value => some value
  | .keyBlock ikeySeq kbOffset => db.keyBlocks ikeySeq kbOffset

/-- `DBImpl::Get`; `none` is `NotFound`, the only other status it returns. -/
def get (key : K) (colId : Nat) :
    Option V :=
  (db.designate snapshot key colId).bind db.load

/-- `Manifest::__CreateSnapshot`: a snapshot at the same sequence number is shared. -/
def createSnapshot : Snapshot × Db K V :=
  let fresh : Snapshot := { seqNum := db.sequenceNumber, time := db.now }
  match db.snapshots.head? with
  | some newest =>
    if newest.seqNum = db.sequenceNumber then
      (newest, db)
    else
      (fresh, { db with snapshots := fresh :: db.snapshots })
  | none => (fresh, { db with snapshots := fresh :: db.snapshots })

end Db

inductive Update (V : Type) where
  | put (value : V)
  | del
deriving DecidableEq, Repr

def Update.node (update : Update V) (ts seqNum : Nat) : ColumnNode V :=
  match update with
  | .put value => { requestType := .put, beginSeq := seqNum, ts := ts, userValue := some value }
  | .del => { requestType := .del, beginSeq := seqNum, ts := ts }

/-- How an accepted update gets to a worker: in a request of its own, in one of its own
because the pending request belongs to another transaction group, or together with the
pending request. -/
inductive Scheduling where
  | schedule
  | splitGroup
  | join
deriving DecidableEq, Repr

def ColumnData.scheduling (data : ColumnData V) (status : InsertColumnNodeStatus)
    (tgid : Nat) : Scheduling :=
  if status = .needToSchedule then
    .schedule
  else if tgid ≠ data.lastTGID then
    .splitGroup
  else
    .join

def ColumnNode.setTransaction (node : ColumnNode V) : ColumnNode V :=
  { node with transaction := true }

def ColumnNode.setTGIDSplit (node : ColumnNode V) : ColumnNode V :=
  { node with tgidSplit := true }

/-- The flags `Store` sets: the new node belongs to a transaction, and the node that was
the latest ends its transaction group. -/
def ColumnNode.flag (beginSeq : Nat) (inTransaction : Bool) (splitAt : Option Nat)
    (node : ColumnNode V) : ColumnNode V :=
  if node.beginSeq = beginSeq ∧ inTransaction = true then
    node.setTransaction
  else if some node.beginSeq = splitAt then
    node.setTGIDSplit
  else
    node

/-- The column after the rest of `Store`: `data` is what `UpdateColumn` left. -/
def ColumnData.record (data : ColumnData V) (beginSeq : Nat) (trxn : Transaction)
    (freshRequest : Nat) (how : Scheduling) : ColumnData V :=
  { colList :=
      data.colList.map
        (ColumnNode.flag beginSeq (decide (trxn.id ≠ 0))
          (if how = .splitGroup then data.latestColNode else none))
    latestColNode := some beginSeq
    lastTGID := trxn.group
    requestNode := if how = .join then data.requestNode else some freshRequest }

/-- The pending queue after `Store`: the latest node of a request is fixed when its group
ends, and a transaction that joins is pushed to its deque. -/
def queueRequest (pending : List (Nat × RequestNode K)) (key : K) (colId : Nat)
    (data : ColumnData V) (trxn : Transaction) (freshRequest : Nat) :
    Scheduling → List (Nat × RequestNode K)
  | .schedule => pending ++ [(freshRequest, RequestNode.init key colId trxn)]
  | .splitGroup =>
    (pending.map fun request =>
      if some request.1 = data.requestNode then
        (request.1, { request.2 with latestColNode := data.latestColNode })
      else
        request) ++
      [(freshRequest, RequestNode.init key colId trxn)]
  | .join =>
    pending.map fun request =>
      if some request.1 = data.requestNode ∧ trxn.id ≠ 0 then
        (request.1, request.2.insertTrxn trxn)
      else
        request

def assignTrxnID (trxn : Transaction) (groups : TrxnGroups) : Transaction × TrxnGroups :=
  if 1 < trxn.count ∧ trxn.id = 0 then
    ({ trxn with id := (groups.getTrxnID trxn.count).1 }, (groups.getTrxnID trxn.count).2)
  else
    (trxn, groups)

namespace Db

variable (db : Db K V)

def timeStamp (colId time : Nat) : Nat :=
  if db.ttlEnabledList colId then time else 0

/-- `Store` when `UpdateColumn` refused the update: the sequence number is lost, and a
new key stays behind without a column node. -/
def cancelUpdate (trxn : Transaction) (key : K) : Db K V × Transaction :=
  let user := (db.findUserKey key).getD .empty
  ({ db.setUserKey key user with
      sequenceNumber := db.sequenceNumber + 1
      trxns := if trxn.id ≠ 0 then db.trxns.decTrxnGroup trxn.group 1 else db.trxns },
    trxn.cancelOne)

/-- `Store` when `UpdateColumn` left `data` for the column. -/
def recordUpdate (trxn : Transaction) (key : K) (colId : Nat)
    (status : InsertColumnNodeStatus) (data : ColumnData V) : Db K V × Transaction :=
  let user := (db.findUserKey key).getD .empty
  let assigned := assignTrxnID trxn db.trxns
  let how := data.scheduling status assigned.1.group
  let recorded := data.record (db.sequenceNumber + 1) assigned.1 db.nextRequest how
  ({ db.setUserKey key { user.setColumn colId recorded with dirty := true } with
      sequenceNumber := db.sequenceNumber + 1
      trxns := assigned.2
      pendingReq := queueRequest db.pendingReq key colId data assigned.1 db.nextRequest how
      nextRequest := db.nextRequest + 1 },
    assigned.1.advance)

/-- `WriteBatchInternal::Store` at time `time`. -/
def store (trxn : Transaction) (time : Nat) (key : K) (colId : Nat) (update : Update V) :
    Db K V × Transaction :=
  let user := (db.findUserKey key).getD .empty
  let node := update.node (db.timeStamp colId time) (db.sequenceNumber + 1)
  match (user.columns colId).updateColumn node trxn.isLast with
  | (.failInsert, _) => db.cancelUpdate trxn key
  | (status, data) => db.recordUpdate trxn key colId status data

end Db

end InsDb
