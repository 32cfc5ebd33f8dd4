import InsDb.Store

/-!
# Write batches

`WriteBatchInternal` is the handler that `WriteBatch::Iterate` drives: it stores the records
of a batch one after the other, as the updates of one transaction. A merge reads the key,
calls the merge operator and stores the result as a put.
-/

namespace InsDb

open InsDb.Library

inductive Status where
  | ok
  | notFound (message : String)
  | corruption (message : String)
  | notSupported (message : String)
  | invalidArgument (message : String)
  | ioError (message : String)
deriving DecidableEq, Repr

inductive Record (K V : Type) where
  | put (key : K) (value : V) (colId : Nat)
  | merge (key : K) (value : V) (colId : Nat)
  | delete (key : K) (colId : Nat)
deriving DecidableEq, Repr

structure WriteBatch (K V : Type) where
  -- The fixed32 of the header.
  count : Nat
  records : List (Record K V)
deriving DecidableEq, Repr

/-- An update as `Store` gets it. -/
structure BatchUpdate (K V : Type) where
  key : K
  colId : Nat
  update : Update V
deriving DecidableEq, Repr

structure WriteBatchInternal (K V : Type) where
  db : Db K V
  trxn : Transaction
  -- `ttl_`, the time at which the batch began.
  time : Nat

variable {K V : Type} [LinearOrder K]

omit [LinearOrder K] in
/-- `DBImpl::CallMergeOperator`. -/
def Db.callMergeOperator (db : Db K V) (key : K) (existing : Option V)
    (value : V) : Option V :=
  db.mergeOperator.bind fun operator => operator key existing value

namespace WriteBatchInternal

omit [LinearOrder K] in
/-- `WriteBatchInternal::InitWBI`. -/
def initWBI (db : Db K V) (count : Nat) : WriteBatchInternal K V :=
  { db := db, trxn := { count := count, seqNumber := 0, id := 0 }, time := db.now }

def store (handler : WriteBatchInternal K V) (change : BatchUpdate K V) :
    WriteBatchInternal K V :=
  let stored := handler.db.store handler.trxn handler.time change.key change.colId change.update
  { handler with db := stored.1, trxn := stored.2 }

def storeAll (handler : WriteBatchInternal K V) (changes : List (BatchUpdate K V)) :
    WriteBatchInternal K V :=
  changes.foldl store handler

/-- The update a record stores.  `Get` ends with `OK` or `NotFound`, so that its lookup
cannot fail in a merge. -/
def change (handler : WriteBatchInternal K V) :
    Record K V → Except Status (BatchUpdate K V)
  | .put key value colId => .ok ⟨key, colId, .put value⟩
  | .merge key value colId =>
    match handler.db.callMergeOperator key (handler.db.get none key colId) value with
    | none => .error (.invalidArgument "Merge operator returned failure")
    | some merged => .ok ⟨key, colId, .put merged⟩
  | .delete key colId => .ok ⟨key, colId, .del⟩

end WriteBatchInternal

/-- The loop of `WriteBatch::Iterate`; `found` records have been handled. -/
def iterateFrom (count found : Nat) :
    List (Record K V) → WriteBatchInternal K V →
      Status × WriteBatchInternal K V
  | [], handler =>
    if found = count then
      (.ok, handler)
    else
      (.corruption "WriteBatch has wrong count", handler)
  | record :: rest, handler =>
    match handler.change record with
    | .error status => (status, handler)
    | .ok change => iterateFrom count (found + 1) rest (handler.store change)

/-- `WriteBatch::Iterate`. -/
def WriteBatch.iterate (batch : WriteBatch K V) (handler : WriteBatchInternal K V) :
    Status × WriteBatchInternal K V :=
  iterateFrom batch.count 0 batch.records handler

/-- `DBImpl::Write`: the status of `Iterate` is not looked at. -/
def Db.write (db : Db K V) (batch : WriteBatch K V) : Status × Db K V :=
  (.ok, (batch.iterate (.initWBI db batch.count)).2.db)

/-- `DBImpl::Put`. -/
def Db.put (db : Db K V) (key : K) (value : V) (colId : Nat) : Db K V :=
  (db.write { count := 1, records := [.put key value colId] }).2

/-- `DBImpl::Delete`. -/
def Db.delete (db : Db K V) (key : K) (colId : Nat) : Db K V :=
  (db.write { count := 1, records := [.delete key colId] }).2

/-- The updates that `Iterate` stores: all records up to a merge that fails. -/
def resolve : List (Record K V) → WriteBatchInternal K V →
    List (BatchUpdate K V)
  | [], _ => []
  | record :: rest, handler =>
    match handler.change record with
    | .error _ => []
    | .ok change => change :: resolve rest (handler.store change)

def performAll : List (Record K V) → WriteBatchInternal K V →
    Option (WriteBatchInternal K V)
  | [], handler => some handler
  | record :: rest, handler =>
    match handler.change record with
    | .error _ => none
    | .ok change => performAll rest (handler.store change)

theorem iterateFrom_handler (count found : Nat) (records : List (Record K V))
    (handler : WriteBatchInternal K V) :
    (iterateFrom count found records handler).2 = handler.storeAll (resolve records handler) := by
  induction records generalizing handler found with
  | nil =>
    unfold iterateFrom
    split_ifs
    · rfl
    · rfl
  | cons record rest ih =>
    simp only [iterateFrom, resolve]
    cases handler.change record with
    | error => rfl
    | ok change => exact ih (found + 1) (handler.store change)

theorem resolve_length_le (records : List (Record K V)) (handler : WriteBatchInternal K V) :
    (resolve records handler).length ≤ records.length := by
  induction records generalizing handler with
  | nil => exact Nat.le_refl 0
  | cons record rest ih =>
    simp only [resolve]
    cases handler.change record with
    | error => exact Nat.zero_le _
    | ok change => exact Nat.succ_le_succ (ih (handler.store change))

theorem iterateFrom_of_error {front back : List (Record K V)} {record : Record K V}
    {handler reached : WriteBatchInternal K V} {status : Status} (count found : Nat)
    (performed : performAll front handler = some reached)
    (fails : reached.change record = .error status) :
    iterateFrom count found (front ++ record :: back) handler = (status, reached) := by
  induction front generalizing handler found with
  | nil =>
    obtain rfl := Option.some.inj performed
    simp [iterateFrom, fails]
  | cons first rest ih =>
    simp only [performAll] at performed
    cases changed : handler.change first with
    | error => simp only [changed, reduceCtorEq] at performed
    | ok =>
      simp only [changed] at performed
      simp only [List.cons_append, iterateFrom, changed]
      exact ih (found + 1) performed

theorem WriteBatchInternal.change_eq_error_iff (handler : WriteBatchInternal K V)
    (record : Record K V) (status : Status) :
    handler.change record = .error status ↔
      status = .invalidArgument "Merge operator returned failure" ∧
        ∃ key v col, record = .merge key v col ∧
          handler.db.callMergeOperator key (handler.db.get none key col) v = none := by
  cases record with
  | put => simp [change]
  | delete => simp [change]
  | merge key v col =>
    simp only [change]
    cases called : handler.db.callMergeOperator key (handler.db.get none key col) v with
    | none => simp [called, eq_comm]
    | some =>
      simp only [reduceCtorEq, false_iff, not_and, not_exists]
      rintro - key' value' colId' same
      obtain ⟨rfl, rfl, rfl⟩ : key = key' ∧ v = value' ∧ col = colId' := by
        simpa using same
      simp [called]

/-- The merge at `position` of the batch fails, all records before it being stored. -/
def WriteBatch.FailsAt (batch : WriteBatch K V) (db : Db K V) (position : Nat)
    (reached : WriteBatchInternal K V) : Prop :=
  performAll (batch.records.take position) (.initWBI db batch.count) = some reached ∧
    ∃ record status, batch.records[position]? = some record ∧
      reached.change record = .error status

def Db.SameReads (before after : Db K V) : Prop :=
  ∀ snapshot key colId, after.get snapshot key colId = before.get snapshot key colId

theorem WriteBatch.iterate_of_failsAt {batch : WriteBatch K V} {db : Db K V}
    {pos : Nat} {reached : WriteBatchInternal K V}
    (fails : batch.FailsAt db pos reached) :
    batch.iterate (.initWBI db batch.count) =
      (.invalidArgument "Merge operator returned failure", reached) := by
  obtain ⟨performed, _, status, isRecord, isError⟩ := fails
  obtain ⟨_, rfl⟩ := List.getElem?_eq_some_iff.mp isRecord
  have cut : batch.records =
      batch.records.take pos ++ batch.records[pos] :: batch.records.drop (pos + 1) := by
    rw [List.getElem_cons_drop, List.take_append_drop]
  unfold WriteBatch.iterate
  rw [cut, iterateFrom_of_error batch.count 0 performed isError,
    ((reached.change_eq_error_iff _ status).mp isError).1]

/-- `Iterate` reports the failed merge, but `Write` returns `OK` and leaves the updates
before it in the database. -/
theorem write_of_failed_merge {batch : WriteBatch K V} {db : Db K V} {position : Nat}
    {reached : WriteBatchInternal K V} (fails : batch.FailsAt db position reached) :
    db.write batch = (.ok, reached.db) ∧
      ¬ ((db.write batch).1 ≠ .ok ∧ db.SameReads (db.write batch).2) := by
  have written : db.write batch = (.ok, reached.db) := by
    unfold Db.write
    rw [WriteBatch.iterate_of_failsAt fails]
  refine ⟨written, ?_⟩
  rintro ⟨notOk, -⟩
  rw [written] at notOk
  exact notOk rfl

def putThenMerge : WriteBatch Nat Nat :=
  { count := 2, records := [.put 1 10 0, .merge 1 5 0] }

theorem putThenMerge_failsAt : putThenMerge.FailsAt oneTable 1
      ((WriteBatchInternal.initWBI oneTable 2).store ⟨1, 0, .put 10⟩) :=
  ⟨rfl, .merge 1 5 0, _, rfl, rfl⟩

theorem write_of_failed_merge_after_put : putThenMerge.FailsAt oneTable 1
        ((WriteBatchInternal.initWBI oneTable 2).store ⟨1, 0, .put 10⟩) ∧
      oneTable.write putThenMerge =
        (.ok, ((WriteBatchInternal.initWBI oneTable 2).store ⟨1, 0, .put 10⟩).db) ∧
      ¬ ((oneTable.write putThenMerge).1 ≠ .ok ∧
        oneTable.SameReads (oneTable.write putThenMerge).2) :=
  ⟨putThenMerge_failsAt, write_of_failed_merge putThenMerge_failsAt⟩

/-- The put before the failed merge stays and is read, and `Write` reports success. -/
theorem failed_merge_leaves_put : putThenMerge.FailsAt oneTable 1
        ((WriteBatchInternal.initWBI oneTable 2).store ⟨1, 0, .put 10⟩) ∧
      (oneTable.write putThenMerge).1 = .ok ∧ oneTable.get none 1 0 = none ∧
      (oneTable.write putThenMerge).2.get none 1 0 = some 10 :=
  ⟨putThenMerge_failsAt, rfl, by decide, by decide⟩

end InsDb
