import InsDb.ColumnHistory
import InsDb.FlushKey

/-!
# The history of a key

A key is written, its pending versions are submitted by workers, its table is flushed, its row is
fetched, and the key is evicted from memory, in any order.  There are no snapshots and no column
has a TTL.  `lastWrite` remembers what a reader should find; nothing else looks at it.

An evicted `UserKey` goes to a pool with its pointers to the latest nodes, which are deleted.  The
next key that is written gets it as it is, and a read of a column that the key does not have then
follows such a pointer.
-/

namespace InsDb

open InsDb.Library

variable {V : Type}

structure KeyHistory (V : Type) where
  user : Option (UserKey V) := none
  row : Option Bytes := none
  -- `HasBeenFlushed` of the table that has the key.
  hasBeenFlushed : Bool := false
  sequenceNumber : Nat := 1
  -- The values of the key blocks on the device, by internal key and offset.
  keyBlocks : Nat → Nat → Option V := fun _ _ => none
  -- The last update of each column, with its sequence number.
  lastWrite : Nat → Option (Nat × Update V) := fun _ => none

inductive KeyStep (V : Type) where
  -- A write to another key takes the next sequence number.
  | otherKey
  -- If the key is not in memory, its `UserKey` comes with pointers for the `recycled` columns.
  | write (colId : Nat) (update : Update V) (force : Bool) (trxn : Transaction)
      (freshRequest : Nat) (recycled : List Nat)
  -- The three parts of a worker's turn.
  | beginSubmit (colId colNode workerId : Nat)
  | doVerticalMerge (colId colNode : Nat)
  | submit (colId colNode ikeySeq kbOffset ivalueSize : Nat)
  -- `InsertDeviceFormatUserKey` for a key in memory.  For another one it calls `InsertUserKey`,
  -- which is not implemented, and then inserts the columns into no key.
  | fetch
  -- `full` is whether the table has no room left when the builder comes to the key.
  | flush (full : Bool) (curTime : Nat) (trxnGroupCompleted : ColumnNode V → Bool)
  | evict

def Designator.load (keyBlocks : Nat → Nat → Option V) : Designator V → Option V
  | .inMemory value => some value
  | .keyBlock ikeySeq kbOffset => keyBlocks ikeySeq kbOffset

def placeValue (keyBlocks : Nat → Nat → Option V) (ikeySeq kbOffset : Nat)
    (value : Option V) : Nat → Nat → Option V :=
  fun otherSeq otherOffset =>
    if otherSeq = ikeySeq ∧ otherOffset = kbOffset then value else keyBlocks otherSeq otherOffset

def plainInfo (count curTime : Nat) (trxnGroupCompleted : ColumnNode V → Bool) :
    BuilderInfo V :=
  { snapshots := []
    curTime := curTime
    ttlList := fun _ => 0
    kMaxColumnCount := count
    trxnGroupCompleted := trxnGroupCompleted }

/-- A key that has no room in the table is built again for the next one. -/
def flushKey (info : BuilderInfo V) (flushed full : Bool) (user : Option (UserKey V))
    (row : Option Bytes) : KeyLeft V :=
  let left := buildKey info flushed full user row
  if left.startsNext then buildKey info flushed false left.user left.row else left

namespace KeyHistory

variable (count : Nat) (s : KeyHistory V)

def column (colId : Nat) : ColumnData V :=
  (s.user.getD .empty).columns colId

def setColumn (colId : Nat) (data : ColumnData V) : KeyHistory V :=
  { s with user := some ((s.user.getD .empty).setColumn colId data) }

def node? (colId colNode : Nat) : Option (ColumnNode V) :=
  (s.column colId).colList.find? fun node => node.beginSeq = colNode

def deviceRow : DeviceRow :=
  rowOf s.hasBeenFlushed s.row

def write (colId : Nat) (update : Update V) (force : Bool) (trxn : Transaction)
    (freshRequest : Nat) : KeyHistory V :=
  { s with
    user := some ((s.user.getD .empty).updateColumn colId
      (update.node 0 (s.sequenceNumber + 1)) force trxn freshRequest)
    sequenceNumber := s.sequenceNumber + 1
    lastWrite := Function.update s.lastWrite colId (some (s.sequenceNumber + 1, update)) }

/-- One step.  Sequence numbers stay below `kMaxSequenceNumber`; a worker takes a pending node, and
gives a node that it is submitting a place in a key block that was not written before. -/
def step : KeyStep V → Option (KeyHistory V)
  | .otherKey =>
    if s.sequenceNumber + 1 < ulongMax then
      some { s with sequenceNumber := s.sequenceNumber + 1 }
    else
      none
  | .write colId update force trxn freshRequest _ =>
    if s.sequenceNumber + 1 < ulongMax ∧ colId < count then
      some (s.write colId update force trxn freshRequest)
    else
      none
  | .beginSubmit colId colNode workerId =>
    match s.node? colId colNode with
    | some node =>
      if node.ikeySeq = 0 ∧ 0 < workerId ∧ workerId < kUnusedNextInternalKey then
        some (s.setColumn colId
          ((s.column colId).modifyNode colNode (ColumnNode.beginSubmit workerId)))
      else
        none
    | none => none
  | .doVerticalMerge colId colNode =>
    match s.node? colId colNode with
    | some node =>
      if 0 < node.ikeySeq ∧ node.ikeySeq < kUnusedNextInternalKey then
        some (s.setColumn colId ((s.column colId).doVerticalMerge [] colNode))
      else
        none
    | none => none
  | .submit colId colNode ikeySeq kbOffset ivalueSize =>
    match s.node? colId colNode with
    | some node =>
      if (0 < node.ikeySeq ∧ node.ikeySeq < kUnusedNextInternalKey) ∧
          (kUnusedNextInternalKey ≤ ikeySeq ∧ ikeySeq < ulongMax) ∧ kbOffset < 64 ∧
          ivalueSize < 2 ^ 32 ∧ (s.keyBlocks ikeySeq kbOffset).isNone = true then
        some
          { s.setColumn colId
              ((s.column colId).modifyNode colNode
                (ColumnNode.updateColumnNode ikeySeq kbOffset ivalueSize)) with
            keyBlocks := placeValue s.keyBlocks ikeySeq kbOffset node.userValue }
      else
        none
    | none => none
  | .fetch =>
    match s.user, s.row with
    | some user, some bytes =>
      some { s with user := some (user.fetchRow s.hasBeenFlushed (some bytes)) }
    | _, _ => none
  | .flush full curTime trxnGroupCompleted =>
    let left := flushKey (plainInfo count curTime trxnGroupCompleted) s.hasBeenFlushed full
      s.user s.row
    some { s with user := left.user, row := left.row, hasBeenFlushed := true }
  | .evict =>
    match s.user with
    | some user => if user.dirty then none else some { s with user := none }
    | none => none

/-- `DBImpl::Get` without a snapshot. -/
def get (colId time : Nat) : Option V :=
  (getRead s.user s.deviceRow colId
    { seqNum := ulongMax, curTime := time, ttl := 0 }).bind (Designator.load s.keyBlocks)

def written (colId : Nat) : Option V :=
  match s.lastWrite colId with
  | some (_, .put value) => some value
  | _ => none

def ReadsLastWrite : Prop :=
  ∀ colId time, s.get colId time = s.written colId

/-- A delete finds the key fetched, or no version of the column in its row. -/
def DeletesFetched : KeyStep V → Prop
  | .write colId .del _ _ _ _ =>
    s.user.any UserKey.fetched = true ∨
      (getColumnInfo s.hasBeenFlushed s.deviceRow.columns colId ulongMax 0 0).isNone = true
  | _ => True

instance : ∀ action : KeyStep V, Decidable (s.DeletesFetched action)
  | .write _ .del _ _ _ _ => inferInstanceAs (Decidable (_ ∨ _))
  | .write _ (.put _) _ _ _ _ => isTrue trivial
  | .otherKey => isTrue trivial
  | .beginSubmit .. => isTrue trivial
  | .doVerticalMerge .. => isTrue trivial
  | .submit .. => isTrue trivial
  | .fetch => isTrue trivial
  | .flush .. => isTrue trivial
  | .evict => isTrue trivial

end KeyHistory

/-- A key whose `UserKey` comes from the pool. -/
structure PooledKey (V : Type) where
  history : KeyHistory V := {}
  -- The columns without nodes whose `latest_col_node_` points to a deleted one.
  stale : List Nat := []

namespace PooledKey

variable (count : Nat) (s : PooledKey V)

/-- The pointers before a step, with those of a `UserKey` that it takes from the pool. -/
def pointers : KeyStep V → List Nat
  | .write _ _ _ _ _ recycled => if s.history.user.isNone then recycled else s.stale
  | _ => s.stale

/-- A node that goes into the empty list of a column is designated. -/
def step (action : KeyStep V) : Option (PooledKey V) :=
  (s.history.step count action).map fun next =>
    { history := next
      stale := (s.pointers action).filter fun colId =>
        next.user.any fun user => (user.columns colId).colList.isEmpty }

/-- `DBImpl::Get`; `none` if it follows a pointer to a deleted node. -/
def get (colId time : Nat) : Option (Option V) :=
  if colId ∈ s.stale then none else some (s.history.get colId time)

def ReadsLastWrite : Prop :=
  ∀ colId time, s.get colId time = some (s.history.written colId)

/-- A delete finds the key fetched, or no version of the column in its row; and a `UserKey` from
the pool has a pointer for no column but the written one. -/
def Ordinary (action : KeyStep V) : Prop :=
  s.history.DeletesFetched action ∧
    match action with
    | .write colId _ _ _ _ recycled =>
      s.history.user.isNone = true → ∀ other ∈ recycled, other = colId
    | _ => True

instance (action : KeyStep V) : Decidable (s.Ordinary action) := by
  unfold Ordinary
  cases action <;> infer_instance

end PooledKey

end InsDb
