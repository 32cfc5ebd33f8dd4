import InsDb.WriteBatch

/-!
# The transaction entries of a batch

Every update of a batch that is not cancelled hands its transaction, with the id and the
count it has at that moment, to a request node: to its own, or to the waiting one that it
joins.  A worker writes the newest of a node as the transaction of its log entry and the
others as merged transactions.
-/

namespace InsDb

open InsDb.Library List Function

variable {K V : Type} [LinearOrder K]

def Update.requestType : Update V → RequestType
  | .put _ => .put
  | .del => .del

theorem Update.node_requestType (update : Update V) (ts seq : Nat) :
    (update.node ts seq).requestType = update.requestType := by
  cases update <;> rfl

variable (db : Db K V)

def Db.newestType (key : K) (col : Nat) : Option RequestType :=
  (((db.findUserKey key).getD .empty).columns col).colList.head?.map ColumnNode.requestType

def Redundant (change : BatchUpdate K V) : Prop :=
  change.update.requestType = .del ∧ db.newestType change.key change.colId = some .del

instance (db : Db K V) (change : BatchUpdate K V) :
    Decidable (Redundant db change) :=
  inferInstanceAs (Decidable (_ ∧ _))

namespace WriteBatchInternal

variable (handler : WriteBatchInternal K V) (change : BatchUpdate K V)

/-- `UpdateColumn` refuses the update. -/
def cancelled : Bool :=
  decide (Redundant handler.db change ∧ handler.trxn.isLast = false)

def recorded : Option Transaction :=
  if handler.cancelled change then
    none
  else
    some (assignTrxnID handler.trxn handler.db.trxns).1

end WriteBatchInternal

def logged : List (BatchUpdate K V) → WriteBatchInternal K V → List Transaction
  | [], _ => []
  | change :: rest, handler =>
    (handler.recorded change).toList ++ logged rest (handler.store change)

namespace WriteBatchInternal

variable {handler : WriteBatchInternal K V} {change : BatchUpdate K V}

theorem cancelled_iff : handler.cancelled change = true ↔
      (((handler.db.findUserKey change.key).getD .empty).columns change.colId).cancels
        (change.update.node (handler.db.timeStamp change.colId handler.time)
          (handler.db.sequenceNumber + 1)) handler.trxn.isLast := by
  unfold cancelled
  rw [decide_eq_true_iff]
  unfold ColumnData.cancels Redundant Db.newestType
  rw [Update.node_requestType, Option.map_eq_some_iff]
  constructor
  · rintro ⟨⟨isDel, newest⟩, notLast⟩
    exact ⟨isDel, notLast, newest⟩
  rintro ⟨isDel, notLast, newest⟩
  exact ⟨⟨isDel, newest⟩, notLast⟩

theorem store_of_cancelled (cancelled : handler.cancelled change = true) : handler.store change =
      { handler with
        db := (handler.db.cancelUpdate handler.trxn change.key).1
        trxn := handler.trxn.cancelOne } := by
  unfold store
  rw [Db.store_of_cancels (cancelled_iff.mp cancelled)]
  rfl

theorem store_of_accepted (accepted : handler.cancelled change = false) : ∃ status data,
      (∃ older, data.colList = (change.update.node (handler.db.timeStamp change.colId handler.time)
          (handler.db.sequenceNumber + 1)).closeDelete :: older) ∧
      data.requestNode =
        (((handler.db.findUserKey change.key).getD .empty).columns change.colId).requestNode ∧
      (status ≠ .needToSchedule → ∃ old, (((handler.db.findUserKey change.key).getD .empty).columns
          change.colId).colList.head? = some old ∧ old.ikeySeq = 0) ∧
      handler.store change = { handler with
          db := (handler.db.recordUpdate handler.trxn change.key change.colId status data).1
          trxn := (assignTrxnID handler.trxn handler.db.trxns).1.advance } := by
  have notCancelled := mt cancelled_iff.mpr (Bool.eq_false_iff.mp accepted)
  obtain ⟨data, list, rq, status, waits, stored⟩ := Db.store_of_not_cancels notCancelled
  refine ⟨status, data, ⟨_, list⟩, rq, waits, ?_⟩
  unfold store
  rw [stored]
  rfl

theorem trxn_store_of_accepted (accepted : handler.cancelled change = false) :
    (handler.store change).trxn = (assignTrxnID handler.trxn handler.db.trxns).1.advance := by
  obtain ⟨_, _, -, -, -, stored⟩ := store_of_accepted accepted
  rw [stored]

theorem trxns_store_of_accepted (accepted : handler.cancelled change = false) :
    (handler.store change).db.trxns = (assignTrxnID handler.trxn handler.db.trxns).2 := by
  obtain ⟨_, _, -, -, -, stored⟩ := store_of_accepted accepted
  rw [stored]
  rfl

theorem tables_store_ne_nil (nonempty : handler.db.tables ≠ [])
    (change : BatchUpdate K V) : (handler.store change).db.tables ≠ [] := by
  obtain ⟨_, -, ts⟩ :=
    (stored_store handler.db handler.trxn handler.time change.key change.colId change.update).tables
  intro empty
  have changed : (handler.store change).db.tables = _ := ts
  rw [empty] at changed
  have length := congrArg length changed
  rw [length_modify] at length
  exact nonempty (eq_nil_of_length_eq_zero length.symm)

theorem newestType_store (nonempty : handler.db.tables ≠ []) (key : K) (col : Nat) :
    (handler.store change).db.newestType key col = if change.key = key ∧ change.colId = col then
        some change.update.requestType
      else
        handler.db.newestType key col := by
  cases decided : handler.cancelled change with
  | true =>
    obtain ⟨⟨isDel, newestDel⟩, -⟩ := of_decide_eq_true decided
    rw [store_of_cancelled decided]
    have same : (handler.db.cancelUpdate handler.trxn change.key).1.newestType key col =
        handler.db.newestType key col := by
      unfold Db.newestType
      rw [show (handler.db.cancelUpdate handler.trxn change.key).1.findUserKey key = _ from
        handler.db.findUserKey_setUserKey nonempty change.key _ key]
      split_ifs with sameKey
      · rw [sameKey, Option.getD_some]
      · rfl
    rw [same]
    split_ifs with sameColumn
    · rw [← sameColumn.1, ← sameColumn.2, newestDel, isDel]
    · rfl
  | false =>
    obtain ⟨status, data, ⟨_, list⟩, -, -, stored⟩ := store_of_accepted decided
    rw [stored]
    unfold Db.newestType
    rw [show (handler.db.recordUpdate handler.trxn change.key change.colId status
      data).1.findUserKey key = _ from
        handler.db.findUserKey_setUserKey nonempty change.key _ key]
    by_cases sameKey : change.key = key
    · rw [if_pos sameKey, Option.getD_some]
      simp only [UserKey.setColumn]
      by_cases sameCol : change.colId = col
      · rw [if_pos ⟨sameKey, sameCol⟩, sameCol, update_self]
        simp only [ColumnData.record, list, map_cons, head?_cons, Option.map_some]
        rw [((unnoticed_flag _ _ _).sameView _).requestType, ColumnNode.closeDelete_requestType,
          Update.node_requestType]
      rw [if_neg (fun both => sameCol both.2),
        update_of_ne (fun same => sameCol same.symm), sameKey]
    · rw [if_neg sameKey, if_neg (fun both => sameKey both.1)]

end WriteBatchInternal

omit [LinearOrder K] in
def Db.pendingTrxns : List Transaction :=
  db.pendingReq.flatMap fun request => request.2.trxnDeque

omit [LinearOrder K] in
def Db.requests : List Nat :=
  db.pendingReq.map Prod.fst

/-- A column whose newest version waits for a worker has its request in the queue. -/
structure Db.RequestsLinked (db : Db K V) : Prop where
  distinct : db.requests.Nodup
  fresh : ∀ request ∈ db.requests, request < db.nextRequest
  linked : ∀ key col old,
    (((db.findUserKey key).getD .empty).columns col).colList.head? = some old →
      old.ikeySeq = 0 → ∃ request ∈ db.requests,
        (((db.findUserKey key).getD .empty).columns col).requestNode = some request

omit [LinearOrder K] in
theorem map_fst_queueRequest (pending : List (Nat × RequestNode K)) (key : K) (col : Nat)
    (data : ColumnData V) (trxn : Transaction) (fresh : Nat) (how : Scheduling) :
    (queueRequest pending key col data trxn fresh how).map Prod.fst = if how = .join then
        pending.map Prod.fst
      else
        pending.map Prod.fst ++ [fresh] := by
  have kept : ∀ (test : Nat × RequestNode K → Prop) [DecidablePred test]
      (change : RequestNode K → RequestNode K),
      (pending.map fun rq => if test rq then (rq.1, change rq.2) else rq).map
        Prod.fst = pending.map Prod.fst := by
    intro _ _ _
    rw [map_map]
    apply map_congr_left
    intro rq _
    simp only [comp_apply]
    split_ifs
    · rfl
    · rfl
  cases how with
  | schedule => simp [queueRequest]
  | splitGroup =>
    simp only [queueRequest, map_append, map_cons, map_nil, reduceCtorEq, if_false]
    rw [kept (fun rq => some rq.1 = data.requestNode)
      (fun rq => { rq with latestColNode := data.latestColNode })]
  | join =>
    simp only [queueRequest, if_true]
    rw [kept (fun rq => some rq.1 = data.requestNode ∧ trxn.id ≠ 0)
      (fun rq => rq.insertTrxn trxn)]

omit [LinearOrder K] in
theorem flatMap_insertTrxn_perm {pending : List (Nat × RequestNode K)}
    (nodup : (pending.map Prod.fst).Nodup) {rq : Nat}
    (mem : rq ∈ pending.map Prod.fst) (trxn : Transaction) :
    ((pending.map fun waiting =>
        if waiting.1 = rq then (waiting.1, waiting.2.insertTrxn trxn) else waiting).flatMap
      fun waiting => waiting.2.trxnDeque).Perm
      ((pending.flatMap fun waiting => waiting.2.trxnDeque) ++ [trxn]) := by
  induction pending with
  | nil => simp at mem
  | cons first rest ih =>
    simp only [map_cons, nodup_cons] at nodup
    simp only [map_cons, flatMap_cons]
    by_cases isFirst : first.1 = rq
    · -- No later request has the same identity.
      have untouched : (rest.map fun waiting =>
          if waiting.1 = rq then (waiting.1, waiting.2.insertTrxn trxn) else waiting) =
            rest := by
        conv_rhs => rw [← map_id rest]
        apply map_congr_left
        intro _ isLater
        rw [if_neg, id_eq]
        rintro rfl
        exact nodup.1 (isFirst ▸ mem_map_of_mem isLater)
      rw [untouched, if_pos isFirst]
      simp only [RequestNode.insertTrxn, append_assoc]
      exact List.Perm.append_left _ perm_append_comm
    · rw [if_neg isFirst, append_assoc]
      apply List.Perm.append_left
      apply ih nodup.2
      simpa [Ne.symm isFirst] using mem

omit [LinearOrder K] in
theorem flatMap_queueRequest_perm {pending : List (Nat × RequestNode K)}
    (nodup : (pending.map Prod.fst).Nodup) (key : K) (col : Nat)
    (data : ColumnData V) (trxn : Transaction) (fresh : Nat) {how : Scheduling}
    (joined : how = .join → ∃ rq ∈ pending.map Prod.fst, data.requestNode = some rq) :
    ((queueRequest pending key col data trxn fresh how).flatMap
        fun waiting => waiting.2.trxnDeque).Perm
      ((pending.flatMap fun waiting => waiting.2.trxnDeque) ++
        [trxn].filter fun entry => decide (entry.id ≠ 0)) := by
  have own : (RequestNode.init key col trxn).trxnDeque =
      [trxn].filter fun entry => decide (entry.id ≠ 0) := by
    by_cases noId : trxn.id = 0 <;> simp [RequestNode.init, noId]
  cases how with
  | schedule =>
    simp only [queueRequest, flatMap_append, flatMap_singleton, own]
    exact List.Perm.refl _
  | splitGroup =>
    simp only [queueRequest, flatMap_append, flatMap_singleton, own, flatMap_map]
    apply List.Perm.append_right
    apply List.Perm.of_eq
    congr 1
    funext rq
    split_ifs
    · rfl
    · rfl
  | join =>
    obtain ⟨_, mem, isRq⟩ := joined rfl
    simp only [queueRequest, isRq, Option.some.injEq]
    by_cases noId : trxn.id = 0
    · simp [noId]
    simp only [noId, ne_eq, not_false_eq_true, and_true, filter_cons, decide_true,
      if_true, filter_nil]
    exact flatMap_insertTrxn_perm nodup mem trxn

theorem Db.RequestsLinked.cancelUpdate {db : Db K V} (linked : db.RequestsLinked)
    (nonempty : db.tables ≠ []) (trxn : Transaction) (key : K) :
    (db.cancelUpdate trxn key).1.RequestsLinked := by
  refine ⟨linked.distinct, linked.fresh, ?_⟩
  intro other col old newest waiting
  have found : ((db.cancelUpdate trxn key).1.findUserKey other).getD .empty =
      (db.findUserKey other).getD .empty := by
    rw [show (db.cancelUpdate trxn key).1.findUserKey other = _ from
      db.findUserKey_setUserKey nonempty key _ other]
    split_ifs with same
    · rw [same, Option.getD_some]
    · rfl
  rw [found] at newest ⊢
  exact linked.linked other col old newest waiting

section Recorded

variable {db : Db K V} {key : K} {col : Nat} {status : InsertColumnNodeStatus}
  {data : ColumnData V}

theorem Db.RequestsLinked.joined (linked : db.RequestsLinked) (tgid : Nat)
    (sameRequest : data.requestNode =
      (((db.findUserKey key).getD .empty).columns col).requestNode)
    (waits : status ≠ .needToSchedule → ∃ old,
      (((db.findUserKey key).getD .empty).columns col).colList.head? = some old ∧ old.ikeySeq = 0)
    (joins : data.scheduling status tgid = .join) :
    ∃ rq ∈ db.requests, data.requestNode = some rq := by
  have scheduled : status ≠ .needToSchedule := by
    rintro rfl
    simp [ColumnData.scheduling] at joins
  obtain ⟨old, newest, waiting⟩ := waits scheduled
  rw [sameRequest]
  exact linked.linked key col old newest waiting

theorem Db.RequestsLinked.recordUpdate (linked : db.RequestsLinked) (nonempty : db.tables ≠ [])
    (trxn : Transaction) (sameRequest : data.requestNode =
      (((db.findUserKey key).getD .empty).columns col).requestNode)
    (waits : status ≠ .needToSchedule → ∃ old,
      (((db.findUserKey key).getD .empty).columns col).colList.head? = some old ∧
        old.ikeySeq = 0) :
    (db.recordUpdate trxn key col status data).1.RequestsLinked := by
  have joined := linked.joined (assignTrxnID trxn db.trxns).1.group sameRequest waits
  have requests : (db.recordUpdate trxn key col status data).1.requests =
      if data.scheduling status (assignTrxnID trxn db.trxns).1.group = .join then
        db.requests
      else
        db.requests ++ [db.nextRequest] := map_fst_queueRequest ..
  have kept : ∀ rq ∈ db.requests,
      rq ∈ (db.recordUpdate trxn key col status data).1.requests := by
    intro rq mem
    rw [requests]
    split_ifs
    · exact mem
    · exact mem_append_left _ mem
  refine ⟨?_, ?_, ?_⟩
  · rw [requests]
    split_ifs
    · exact linked.distinct
    rw [← concat_eq_append]
    exact linked.distinct.concat fun mem => Nat.lt_irrefl _ (linked.fresh _ mem)
  · intro rq mem
    rw [requests] at mem
    split_ifs at mem
    · exact Nat.lt_succ_of_lt (linked.fresh rq mem)
    rcases mem_append.mp mem with old | new
    · exact Nat.lt_succ_of_lt (linked.fresh rq old)
    obtain rfl := mem_singleton.mp new
    exact Nat.lt_succ_self _
  intro other col' old newest waiting
  rw [show (db.recordUpdate trxn key col status data).1.findUserKey other = _ from
    db.findUserKey_setUserKey nonempty key _ other] at newest ⊢
  by_cases sameKey : key = other
  · subst sameKey
    rw [if_pos rfl, Option.getD_some] at newest ⊢
    simp only [UserKey.setColumn] at newest ⊢
    by_cases sameCol : col' = col
    · rw [sameCol, update_self] at newest ⊢
      simp only [ColumnData.record]
      split_ifs with joins
      · obtain ⟨rq, mem, isRq⟩ := joined joins
        exact ⟨rq, kept rq mem, isRq⟩
      refine ⟨db.nextRequest, ?_, rfl⟩
      rw [requests, if_neg joins]
      simp
    · rw [update_of_ne sameCol] at newest ⊢
      obtain ⟨rq, mem, isRq⟩ := linked.linked key col' old newest waiting
      exact ⟨rq, kept rq mem, isRq⟩
  · rw [if_neg sameKey] at newest ⊢
    obtain ⟨rq, mem, isRq⟩ := linked.linked other col' old newest waiting
    exact ⟨rq, kept rq mem, isRq⟩

end Recorded

theorem Db.RequestsLinked.store {handler : WriteBatchInternal K V}
    (linked : handler.db.RequestsLinked) (nonempty : handler.db.tables ≠ [])
    (change : BatchUpdate K V) :
    (handler.store change).db.RequestsLinked ∧ (handler.store change).db.pendingTrxns.Perm
        (handler.db.pendingTrxns ++
          (handler.recorded change).toList.filter fun entry => decide (entry.id ≠ 0)) := by
  cases decided : handler.cancelled change with
  | true =>
    rw [WriteBatchInternal.store_of_cancelled decided]
    refine ⟨linked.cancelUpdate nonempty handler.trxn change.key, ?_⟩
    simp only [WriteBatchInternal.recorded, decided, if_true, Option.toList_none,
      filter_nil, append_nil]
    exact List.Perm.refl _
  | false =>
    obtain ⟨_, data, -, sameRequest, waits, stored⟩ := WriteBatchInternal.store_of_accepted decided
    rw [stored]
    refine ⟨linked.recordUpdate nonempty handler.trxn sameRequest waits, ?_⟩
    simp only [WriteBatchInternal.recorded, decided, Bool.false_eq_true, if_false,
      Option.toList_some]
    exact flatMap_queueRequest_perm linked.distinct _ _ data _ _ (linked.joined _ sameRequest waits)

theorem pendingTrxns_storeAll (changes : List (BatchUpdate K V))
    {handler : WriteBatchInternal K V} (linked : handler.db.RequestsLinked)
    (nonempty : handler.db.tables ≠ []) :
    (handler.storeAll changes).db.pendingTrxns.Perm (handler.db.pendingTrxns ++
        (logged changes handler).filter fun entry => decide (entry.id ≠ 0)) := by
  induction changes generalizing handler with
  | nil => simp [WriteBatchInternal.storeAll, logged]
  | cons change rest ih =>
    obtain ⟨linked', queued⟩ := linked.store nonempty change
    have later := ih linked' (WriteBatchInternal.tables_store_ne_nil nonempty change)
    simp only [logged, filter_append]
    rw [← append_assoc]
    exact later.trans (queued.append_right _)

end InsDb
