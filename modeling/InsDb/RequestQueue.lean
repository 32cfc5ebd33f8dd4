import InsDb.PendingNodes

/-!
# The queue and the columns

A column whose newest node is pending has one request that is open to further updates; the
other requests of the column have a fixed node.  `Db.Queued` says this of all columns, and
each step of the write path and of the workers keeps it.
-/

namespace InsDb

open InsDb.Library List ColumnNode

variable {K V : Type} [LinearOrder K]

/-- The column list is in order, its newest node is the latest one and does not end a
transaction group. -/
structure ColumnData.Ordered (data : ColumnData V) (bound : Nat) : Prop where
  descending : data.colList.Pairwise fun newer older => older.beginSeq < newer.beginSeq
  bounded : ∀ node ∈ data.colList, node.beginSeq ≤ bound
  latest : data.latestColNode = data.colList.head?.map ColumnNode.beginSeq
  unsplit : ∀ node, data.colList.head? = some node → node.tgidSplit = false

namespace ColumnData.Ordered

variable {data : ColumnData V} {bound : Nat}

theorem distinct (ordered : data.Ordered bound) : (data.colList.map ColumnNode.beginSeq).Nodup := by
  rw [List.Nodup, pairwise_map]
  exact ordered.descending.imp fun above => Nat.ne_of_gt above

theorem mono (ordered : data.Ordered bound) {larger : Nat} (grows : bound ≤ larger) :
    data.Ordered larger :=
  ⟨ordered.descending, fun node mem => Nat.le_trans (ordered.bounded node mem) grows,
    ordered.latest, ordered.unsplit⟩

end ColumnData.Ordered

/-- A column has an open request exactly as long as its newest node is pending. -/
structure Db.Queued (db : Db K V) : Prop where
  nonempty : db.tables ≠ []
  ordered : ∀ key col, (db.column key col).Ordered db.sequenceNumber
  separate : ∀ key col node other otherCol otherNode, node ∈ (db.column key col).colList →
    otherNode ∈ (db.column other otherCol).colList → node.beginSeq = otherNode.beginSeq →
      key = other ∧ col = otherCol
  distinct : db.requests.Nodup
  fresh : ∀ request ∈ db.requests, request < db.nextRequest
  pending : ∀ key col node, (db.column key col).colList.head? = some node →
    node.ikeySeq = 0 → ∃ id, (db.column key col).requestNode = some id
  waiting : ∀ key col id, (db.column key col).requestNode = some id →
    ∃ request, (id, request) ∈ db.pendingReq ∧ request.key = key ∧ request.colId = col ∧
      request.latestColNode = none
  openRequest : ∀ id request, (id, request) ∈ db.pendingReq → request.latestColNode = none →
    (db.column request.key request.colId).requestNode = some id ∧
      ∃ node, (db.column request.key request.colId).colList.head? = some node ∧
        node.ikeySeq = 0

variable (seqNum : Nat)

def ColumnNode.closedAt (old : ColumnNode V) : ColumnNode V :=
  if old.requestType = .put ∧ old.endSeq = ulongMax then { old with endSeq := seqNum } else old

/-- What an update changes of the newest node: its end, and the mark that its group ends. -/
def ColumnNode.below (how : Scheduling) (old : ColumnNode V) :
    ColumnNode V :=
  if how = .splitGroup then (old.closedAt seqNum).setTGIDSplit else old.closedAt seqNum

theorem ColumnNode.closedAt_same (old : ColumnNode V) :
    (old.closedAt seqNum).beginSeq = old.beginSeq ∧
      (old.closedAt seqNum).transaction = old.transaction ∧
      (old.closedAt seqNum).ikeySeq = old.ikeySeq ∧
      (old.closedAt seqNum).tgidSplit = old.tgidSplit := by
  unfold closedAt
  split_ifs
  · exact ⟨rfl, rfl, rfl, rfl⟩
  · exact ⟨rfl, rfl, rfl, rfl⟩

theorem ColumnNode.below_same (how : Scheduling) (old : ColumnNode V) :
    (old.below seqNum how).beginSeq = old.beginSeq ∧
      (old.below seqNum how).transaction = old.transaction ∧
      (old.below seqNum how).ikeySeq = old.ikeySeq ∧
      (old.below seqNum how).tgidSplit = (decide (how = .splitGroup) || old.tgidSplit) := by
  obtain ⟨seq, flag, ikey, split⟩ := closedAt_same seqNum old
  unfold below
  split_ifs with splits
  · exact ⟨seq, flag, ikey, by simp [setTGIDSplit, splits]⟩
  · exact ⟨seq, flag, ikey, by simp [split, splits]⟩

def Update.linkedNode (update : Update V) (ts seqNum : Nat) (trxn : Transaction) :
    ColumnNode V :=
  if trxn.id ≠ 0 then
    (update.node ts seqNum).closeDelete.setTransaction
  else
    (update.node ts seqNum).closeDelete

theorem Update.linkedNode_spec (update : Update V) (ts seqNum : Nat) (trxn : Transaction) :
    (update.linkedNode ts seqNum trxn).beginSeq = seqNum ∧
      (update.linkedNode ts seqNum trxn).ikeySeq = 0 ∧
      (update.linkedNode ts seqNum trxn).tgidSplit = false ∧
      (update.linkedNode ts seqNum trxn).transaction = decide (trxn.id ≠ 0) := by
  cases update <;> by_cases noId : trxn.id = 0 <;>
    simp [Update.linkedNode, noId, Update.node, closeDelete, setTransaction]

theorem closeNewest_eq_modifyHead (nodes : List (ColumnNode V)) :
    closeNewest seqNum nodes = nodes.modifyHead (ColumnNode.closedAt seqNum) := by
  cases nodes <;> rfl

variable (data : ColumnData V)

def ColumnData.schedulingOf (tgid : Nat) : Scheduling :=
  data.scheduling
    (match data.colList.head? with
      | some old => scheduleStatus old
      | none => .needToSchedule) tgid

theorem ColumnData.Ordered.record_colList {data : ColumnData V} {bound seqNum : Nat}
    (ordered : data.Ordered bound) (fresh : bound < seqNum) (update : Update V) (ts : Nat)
    (trxn : Transaction) (freshRequest : Nat) (how : Scheduling) :
    (ColumnData.record { data with
        colList := (update.node ts seqNum).closeDelete :: closeNewest seqNum data.colList }
      seqNum trxn freshRequest how).colList =
      update.linkedNode ts seqNum trxn ::
        data.colList.modifyHead (ColumnNode.below seqNum how) := by
  simp only [ColumnData.record, map_cons, closeNewest_eq_modifyHead]
  congr 1
  · have begins : (update.node ts seqNum).closeDelete.beginSeq = seqNum := by
      rw [closeDelete_beginSeq, Update.node_beginSeq]
    have notSplit : some seqNum ≠ if how = .splitGroup then data.latestColNode else none := by
      split_ifs
      · rw [ordered.latest]
        intro isNewest
        obtain ⟨node, newest, _⟩ := Option.map_eq_some_iff.mp isNewest.symm
        have := ordered.bounded node (mem_of_head? newest)
        omega
      · simp
    unfold flag Update.linkedNode
    rw [begins]
    by_cases noId : trxn.id = 0
    · rw [if_neg (by simp [noId]), if_neg notSplit, if_neg (by simp [noId])]
    · rw [if_pos (by simp [noId]), if_pos noId]
  · cases listed : data.colList with
    | nil => rfl
    | cons old older =>
      have oldSeq := (closedAt_same seqNum old).1
      have oldBound := ordered.bounded old (by simp [listed])
      have newest : data.latestColNode = some old.beginSeq := by
        rw [ordered.latest, listed]
        rfl
      have desc := ordered.descending
      rw [listed] at desc
      simp only [modifyHead_cons, map_cons, newest]
      congr 1
      · unfold flag below
        rw [if_neg (by rw [oldSeq]; omega), oldSeq]
        by_cases splits : how = .splitGroup
        · simp [splits]
        · simp [splits]
      conv_rhs => rw [← map_id older]
      apply map_congr_left
      intro node mem
      rw [id_eq]
      have lower := (pairwise_cons.mp desc).1 node mem
      unfold flag
      rw [if_neg (by omega), if_neg]
      split_ifs
      · intro isOld
        have := Option.some.inj isOld
        omega
      · simp

def ColumnData.pushed (node : ColumnNode V) (tgid freshRequest : Nat)
    (how : Scheduling) : ColumnData V :=
  { colList := node :: data.colList.modifyHead (ColumnNode.below node.beginSeq how)
    latestColNode := some node.beginSeq
    lastTGID := tgid
    requestNode := if how = .join then data.requestNode else some freshRequest }

structure Accepted (pre post : Db K V) (key : K) (col : Nat) (trxn : Transaction)
    (node : ColumnNode V) : Prop where
  fresh : node.beginSeq = pre.sequenceNumber + 1
  pending : node.ikeySeq = 0
  unsplit : node.tgidSplit = false
  flagged : node.transaction = decide (trxn.id ≠ 0)
  nonempty : post.tables ≠ []
  sequence : post.sequenceNumber = pre.sequenceNumber + 1
  column : ∀ other otherCol, post.column other otherCol =
    if key = other ∧ col = otherCol then
      (pre.column key col).pushed node trxn.group pre.nextRequest
        ((pre.column key col).schedulingOf trxn.group)
    else
      pre.column other otherCol
  queue : post.pendingReq = queueRequest pre.pendingReq key col (pre.column key col)
    trxn pre.nextRequest ((pre.column key col).schedulingOf trxn.group)
  nextRequest : post.nextRequest = pre.nextRequest + 1

omit [LinearOrder K] in
theorem queueRequest_congr (pending : List (Nat × RequestNode K)) (key : K) (col : Nat)
    {data other : ColumnData V} (sameRequest : data.requestNode = other.requestNode)
    (sameLatest : data.latestColNode = other.latestColNode) (trxn : Transaction)
    (fresh : Nat) (how : Scheduling) :
    queueRequest pending key col data trxn fresh how =
      queueRequest pending key col other trxn fresh how := by
  cases how with
  | schedule => rfl
  | splitGroup => simp only [queueRequest, sameRequest, sameLatest]
  | join => simp only [queueRequest, sameRequest]

theorem Db.Queued.accepted {db : Db K V} (queued : db.Queued) {trxn : Transaction}
    {time : Nat} {key : K} {col : Nat} {update : Update V}
    (notCancelled : ¬ (db.column key col).cancels
      (update.node (db.timeStamp col time) (db.sequenceNumber + 1)) trxn.isLast) :
    Accepted db (db.store trxn time key col update).1 key col (assignTrxnID trxn db.trxns).1
        (update.linkedNode (db.timeStamp col time) (db.sequenceNumber + 1)
          (assignTrxnID trxn db.trxns).1) ∧
      (db.store trxn time key col update).1.trxns = (assignTrxnID trxn db.trxns).2 ∧
      (db.store trxn time key col update).2 = (assignTrxnID trxn db.trxns).1.advance := by
  obtain ⟨begins, pending, unsplit, flagged⟩ := update.linkedNode_spec (db.timeStamp col time)
    (db.sequenceNumber + 1) (assignTrxnID trxn db.trxns).1
  have updated := ColumnData.updateColumn_of_not_cancels notCancelled
  rw [Update.node_beginSeq] at updated
  have stored : db.store trxn time key col update = db.recordUpdate trxn key col
        ((db.column key col).updateColumn
          (update.node (db.timeStamp col time) (db.sequenceNumber + 1)) trxn.isLast).1
        { db.column key col with
          colList := (update.node (db.timeStamp col time) (db.sequenceNumber + 1)).closeDelete ::
            closeNewest (db.sequenceNumber + 1) (db.column key col).colList } := by
    unfold Db.store
    dsimp only
    rw [← Db.column, updated]
    cases (db.column key col).colList.head? with
    | none => rfl
    | some =>
      simp only [scheduleStatus]
      split_ifs <;> rfl
  rw [stored, updated]
  refine ⟨⟨begins, pending, unsplit, flagged, ?_, rfl, ?_, ?_, rfl⟩, rfl, rfl⟩
  · exact Db.setUserKey_tables_ne_nil queued.nonempty key _
  · intro other col'
    have recorded := (queued.ordered key col).record_colList (Nat.lt_succ_self _) update
      (db.timeStamp col time) (assignTrxnID trxn db.trxns).1 db.nextRequest
      ((db.column key col).schedulingOf (assignTrxnID trxn db.trxns).1.group)
    refine (Db.column_setUserKey queued.nonempty key _ other col').trans ?_
    by_cases sameKey : key = other
    · subst sameKey
      by_cases sameCol : col = col'
      · subst sameCol
        rw [if_pos rfl, if_pos ⟨rfl, rfl⟩]
        unfold ColumnData.pushed
        rw [begins, ← recorded]
        simp only [UserKey.setColumn, Function.update_self]
        rfl
      · rw [if_pos rfl, if_neg fun both => sameCol both.2]
        simp only [UserKey.setColumn, Function.update_of_ne (Ne.symm sameCol)]
        rfl
    · rw [if_neg sameKey, if_neg fun both => sameKey both.1]
  · exact queueRequest_congr _ _ _ rfl rfl _ _ _

omit [LinearOrder K] in
def RequestNode.requeued (trxn : Transaction) (how : Scheduling)
    (id : Nat) (request : RequestNode K) : RequestNode K :=
  if some id = data.requestNode then
    match how with
    | .schedule => request
    | .splitGroup => { request with latestColNode := data.latestColNode }
    | .join => if trxn.id ≠ 0 then request.insertTrxn trxn else request
  else
    request

omit [LinearOrder K] in
theorem RequestNode.requeued_column (trxn : Transaction)
    (how : Scheduling) (id : Nat) (rq : RequestNode K) :
    (rq.requeued data trxn how id).key = rq.key ∧
      (rq.requeued data trxn how id).colId = rq.colId := by
  by_cases isOpen : some id = data.requestNode
  · cases how with
    | schedule => simp [RequestNode.requeued]
    | splitGroup => simp [RequestNode.requeued, isOpen]
    | join => by_cases noId : trxn.id = 0 <;>
        simp [RequestNode.requeued, isOpen, noId, RequestNode.insertTrxn]
  · simp [RequestNode.requeued, isOpen]

omit [LinearOrder K] in
theorem RequestNode.requeued_latest (trxn : Transaction)
    (how : Scheduling) (id : Nat) (rq : RequestNode K) :
    (rq.requeued data trxn how id).latestColNode =
      if some id = data.requestNode ∧ how = .splitGroup then
        data.latestColNode
      else
        rq.latestColNode := by
  unfold RequestNode.requeued
  by_cases isOpen : some id = data.requestNode
  · rw [if_pos isOpen]
    cases how with
    | schedule => simp
    | splitGroup => simp [isOpen]
    | join => split_ifs <;> simp_all [RequestNode.insertTrxn]
  · simp [isOpen]

omit [LinearOrder K] in
theorem queueRequest_eq (pending : List (Nat × RequestNode K)) (key : K) (col : Nat)
    (data : ColumnData V) (trxn : Transaction) (fresh : Nat) (how : Scheduling) :
    queueRequest pending key col data trxn fresh how =
      (pending.map fun rq => (rq.1, rq.2.requeued data trxn how rq.1)) ++
        if how = .join then [] else [(fresh, RequestNode.init key col trxn)] := by
  cases how with
  | schedule =>
    have same : (pending.map fun rq =>
        (rq.1, rq.2.requeued data trxn .schedule rq.1)) = pending := by
      conv_rhs => rw [← map_id pending]
      apply map_congr_left
      intro rq _
      simp [RequestNode.requeued]
    rw [same]
    rfl
  | splitGroup =>
    simp only [queueRequest, reduceCtorEq, if_false]
    congr 1
    apply map_congr_left
    intro rq _
    by_cases isOpen : some rq.1 = data.requestNode
    · simp [RequestNode.requeued, isOpen]
    · simp [RequestNode.requeued, isOpen]
  | join =>
    simp only [queueRequest, if_true, append_nil]
    apply map_congr_left
    intro rq _
    unfold RequestNode.requeued
    by_cases isOpen : some rq.1 = data.requestNode
    · by_cases noId : trxn.id = 0
      · simp [noId]
      · simp [isOpen, noId]
    · simp [isOpen]

theorem ColumnData.schedulingOf_cases (tgid : Nat) :
    (data.schedulingOf tgid = .schedule ∧ ∀ old, data.colList.head? = some old → old.ikeySeq ≠ 0) ∨
      (data.schedulingOf tgid ≠ .schedule ∧
        ∃ old, data.colList.head? = some old ∧ old.ikeySeq = 0) := by
  unfold ColumnData.schedulingOf ColumnData.scheduling
  cases data.colList.head? with
  | none => simp
  | some old =>
    by_cases waits : old.ikeySeq = 0
    · right
      simp only [scheduleStatus, waits, if_true, reduceCtorEq, if_false]
      refine ⟨?_, old, rfl, waits⟩
      split_ifs <;> simp
    left
    simp [scheduleStatus, waits]

theorem map_beginSeq_modifyHead (nodes : List (ColumnNode V)) (seqNum : Nat) (how : Scheduling) :
    (nodes.modifyHead (ColumnNode.below seqNum how)).map ColumnNode.beginSeq =
      nodes.map ColumnNode.beginSeq := by
  cases nodes with
  | nil => rfl
  | cons old =>
    simp only [modifyHead_cons, map_cons]
    rw [(below_same seqNum how old).1]

theorem ColumnData.Ordered.pushed {data : ColumnData V} {bound : Nat}
    (ordered : data.Ordered bound) {node : ColumnNode V} (fresh : node.beginSeq = bound + 1)
    (unsplit : node.tgidSplit = false) (tgid freshRequest : Nat) (how : Scheduling) :
    (data.pushed node tgid freshRequest how).Ordered (bound + 1) := by
  have sameSeqs := map_beginSeq_modifyHead data.colList node.beginSeq how
  have lower : ∀ old ∈ data.colList.modifyHead (below node.beginSeq how), old.beginSeq ≤ bound := by
    intro old mem
    have listed := @List.mem_map_of_mem _ _ _ _ beginSeq mem
    rw [sameSeqs] at listed
    obtain ⟨original, isOriginal, sameSeq⟩ := mem_map.mp listed
    rw [← sameSeq]
    exact ordered.bounded original isOriginal
  refine ⟨pairwise_cons.mpr ⟨?_, ?_⟩, ?_, rfl, ?_⟩
  · intro old mem
    have := lower old mem
    omega
  · have desc := ordered.descending
    rw [← pairwise_map (f := beginSeq) (R := fun newer older => older < newer)]
      at desc ⊢
    rw [sameSeqs]
    exact desc
  · intro other mem
    rcases mem_cons.mp mem with rfl | older
    · omega
    have := lower other older
    omega
  intro _ isNewest
  obtain rfl := Option.some.inj isNewest
  exact unsplit

namespace Accepted

variable {pre post : Db K V} {key : K} {col : Nat} {trxn : Transaction}
  {node : ColumnNode V}

section

variable (accepted : Accepted pre post key col trxn node)

include accepted

theorem column_self : post.column key col = (pre.column key col).pushed node trxn.group
      pre.nextRequest ((pre.column key col).schedulingOf trxn.group) := by
  rw [accepted.column, if_pos ⟨rfl, rfl⟩]

theorem column_of_ne {other : K} {col' : Nat} (differs : ¬ (key = other ∧ col = col')) :
    post.column other col' = pre.column other col' := by
  rw [accepted.column, if_neg differs]

theorem mem_column {other : K} {col' : Nat} {listed : ColumnNode V}
    (mem : listed ∈ (post.column other col').colList) :
    (key = other ∧ col = col' ∧ listed = node) ∨
      ∃ old ∈ (pre.column other col').colList, old.beginSeq = listed.beginSeq := by
  by_cases same : key = other ∧ col = col'
  · obtain ⟨rfl, rfl⟩ := same
    rw [accepted.column_self] at mem
    rcases mem_cons.mp mem with isNew | older
    · exact .inl ⟨rfl, rfl, isNew⟩
    right
    have inMap := @List.mem_map_of_mem _ _ _ _ beginSeq older
    rw [map_beginSeq_modifyHead] at inMap
    exact mem_map.mp inMap
  · rw [accepted.column_of_ne same] at mem
    exact .inr ⟨listed, mem, rfl⟩

theorem mem_pendingReq {id : Nat} {rq : RequestNode K}
    (mem : (id, rq) ∈ post.pendingReq) :
    (∃ old, (id, old) ∈ pre.pendingReq ∧ rq = old.requeued (pre.column key col) trxn
          ((pre.column key col).schedulingOf trxn.group) id) ∨
      ((pre.column key col).schedulingOf trxn.group ≠ .join ∧
        id = pre.nextRequest ∧ rq = RequestNode.init key col trxn) := by
  rw [accepted.queue, queueRequest_eq] at mem
  rcases mem_append.mp mem with kept | added
  · obtain ⟨⟨_, old⟩, isOld, same⟩ := mem_map.mp kept
    obtain ⟨rfl, rfl⟩ := Prod.mk.inj same
    exact .inl ⟨old, isOld, rfl⟩
  split_ifs at added with joins
  · exact absurd added not_mem_nil
  obtain ⟨rfl, rfl⟩ := Prod.mk.inj (mem_singleton.mp added)
  exact .inr ⟨joins, rfl, rfl⟩

theorem requeued_mem {id : Nat} {rq : RequestNode K}
    (mem : (id, rq) ∈ pre.pendingReq) :
    (id, rq.requeued (pre.column key col) trxn
      ((pre.column key col).schedulingOf trxn.group) id) ∈ post.pendingReq := by
  rw [accepted.queue, queueRequest_eq]
  apply mem_append_left
  exact mem_map.mpr ⟨(id, rq), mem, rfl⟩

theorem init_mem (notJoined : (pre.column key col).schedulingOf trxn.group ≠ .join) :
    (pre.nextRequest, RequestNode.init key col trxn) ∈ post.pendingReq := by
  rw [accepted.queue, queueRequest_eq, if_neg notJoined]
  simp

end

end Accepted

theorem Db.Queued.request_unique {db : Db K V} (queued : db.Queued) {id : Nat}
    {left right : RequestNode K} (isLeft : (id, left) ∈ db.pendingReq)
    (isRight : (id, right) ∈ db.pendingReq) : left = right := by
  have inPairs := inj_on_of_nodup_map queued.distinct isLeft isRight rfl
  exact (Prod.mk.inj inPairs).2

theorem Db.Queued.column_of_request {db : Db K V} (queued : db.Queued) {key : K}
    {col id : Nat} {rq : RequestNode K} (mem : (id, rq) ∈ db.pendingReq)
    (isRq : (db.column key col).requestNode = some id) :
    rq.key = key ∧ rq.colId = col ∧ rq.latestColNode = none := by
  obtain ⟨_, isLinked, sameKey, sameCol, isOpen⟩ := queued.waiting key col id isRq
  obtain rfl := queued.request_unique mem isLinked
  exact ⟨sameKey, sameCol, isOpen⟩

theorem Db.Queued.of_accepted {pre post : Db K V} {key : K} {col : Nat}
    {trxn : Transaction} {node : ColumnNode V} (queued : pre.Queued)
    (accepted : Accepted pre post key col trxn node) : post.Queued := by
  have cases := (pre.column key col).schedulingOf_cases trxn.group
  have requests : post.requests = if (pre.column key col).schedulingOf trxn.group = .join then
        pre.requests
      else
        pre.requests ++ [pre.nextRequest] := by
    unfold Db.requests
    rw [accepted.queue]
    exact map_fst_queueRequest ..
  refine ⟨accepted.nonempty, ?_, ?_, ?_, ?_, ?_, ?_, ?_⟩
  · intro other col'
    rw [accepted.sequence]
    by_cases same : key = other ∧ col = col'
    · obtain ⟨rfl, rfl⟩ := same
      rw [accepted.column_self]
      exact (queued.ordered key col).pushed accepted.fresh accepted.unsplit _ _ _
    rw [accepted.column_of_ne same]
    exact (queued.ordered other col').mono (Nat.le_succ _)
  · intro _ _ _ _ _ _ inLeft inRight sameSeq
    have old_lt : ∀ other col', ∀ old ∈ (pre.column other col').colList,
        old.beginSeq ≠ node.beginSeq := by
      intro other col' old mem
      have := (queued.ordered other col').bounded old mem
      have := accepted.fresh
      omega
    rcases accepted.mem_column inLeft with ⟨rfl, rfl, rfl⟩ | ⟨leftOld, inLeftOld, leftSeq⟩
    · rcases accepted.mem_column inRight with ⟨rfl, rfl, rfl⟩ | ⟨rightOld, inRightOld, rightSeq⟩
      · exact ⟨rfl, rfl⟩
      · exact absurd (rightSeq.trans sameSeq.symm) (old_lt _ _ rightOld inRightOld)
    rcases accepted.mem_column inRight with ⟨rfl, rfl, rfl⟩ | ⟨rightOld, inRightOld, rightSeq⟩
    · exact absurd (leftSeq.trans sameSeq) (old_lt _ _ leftOld inLeftOld)
    exact queued.separate _ _ leftOld _ _ rightOld inLeftOld inRightOld
      ((leftSeq.trans sameSeq).trans rightSeq.symm)
  · rw [requests]
    split_ifs
    · exact queued.distinct
    rw [← concat_eq_append]
    exact queued.distinct.concat fun mem => Nat.lt_irrefl _ (queued.fresh _ mem)
  · intro rq mem
    rw [accepted.nextRequest]
    rw [requests] at mem
    split_ifs at mem
    · exact Nat.lt_succ_of_lt (queued.fresh rq mem)
    rcases mem_append.mp mem with old | new
    · exact Nat.lt_succ_of_lt (queued.fresh rq old)
    obtain rfl := mem_singleton.mp new
    exact Nat.lt_succ_self _
  · intro other col' newest isNewest waits
    by_cases same : key = other ∧ col = col'
    · obtain ⟨rfl, rfl⟩ := same
      rw [accepted.column_self]
      simp only [ColumnData.pushed]
      split_ifs with joins
      · rcases cases with ⟨schedules, -⟩ | ⟨-, old, isOld, oldWaits⟩
        · rw [schedules] at joins
          cases joins
        · exact queued.pending key col old isOld oldWaits
      · exact ⟨_, rfl⟩
    · rw [accepted.column_of_ne same] at isNewest ⊢
      exact queued.pending other col' newest isNewest waits
  · intro other col' id isRq
    by_cases same : key = other ∧ col = col'
    · obtain ⟨rfl, rfl⟩ := same
      rw [accepted.column_self] at isRq
      simp only [ColumnData.pushed] at isRq
      split_ifs at isRq with joins
      · obtain ⟨rq, mem, sameKey, sameCol, isOpen⟩ := queued.waiting key col id isRq
        have c := rq.requeued_column (pre.column key col) trxn
          ((pre.column key col).schedulingOf trxn.group) id
        refine ⟨_, accepted.requeued_mem mem, c.1.trans sameKey, c.2.trans sameCol, ?_⟩
        rw [RequestNode.requeued_latest, if_neg (by simp [joins])]
        exact isOpen
      · obtain rfl := Option.some.inj isRq
        exact ⟨_, accepted.init_mem joins, rfl, rfl, rfl⟩
    rw [accepted.column_of_ne same] at isRq
    obtain ⟨rq, mem, sameKey, sameCol, isOpen⟩ := queued.waiting other col' id isRq
    have c := rq.requeued_column (pre.column key col) trxn
      ((pre.column key col).schedulingOf trxn.group) id
    refine ⟨_, accepted.requeued_mem mem, c.1.trans sameKey, c.2.trans sameCol, ?_⟩
    rw [RequestNode.requeued_latest, if_neg]
    · exact isOpen
    rintro ⟨isOther, -⟩
    obtain ⟨otherKey, otherColumn, -⟩ := queued.column_of_request mem isOther.symm
    exact same ⟨otherKey.symm.trans sameKey, otherColumn.symm.trans sameCol⟩
  · intro id rq mem isOpen
    rcases accepted.mem_pendingReq mem with ⟨old, isOld, rfl⟩ | ⟨notJoined, rfl, rfl⟩
    · have c := old.requeued_column (pre.column key col) trxn
        ((pre.column key col).schedulingOf trxn.group) id
      rw [RequestNode.requeued_latest] at isOpen
      rw [c.1, c.2]
      split_ifs at isOpen with splits
      · -- A request whose node is fixed now is not open.
        rcases cases with ⟨schedules, -⟩ | ⟨-, newest, isNewest, -⟩
        · rw [schedules] at splits
          cases splits.2
        rw [(queued.ordered key col).latest, isNewest] at isOpen
        cases isOpen
      obtain ⟨isRq, newest, isNewest, waits⟩ := queued.openRequest id old isOld isOpen
      by_cases same : key = old.key ∧ col = old.colId
      · rw [← same.1, ← same.2] at isRq isNewest ⊢
        have joins : (pre.column key col).schedulingOf trxn.group = .join := by
          rcases cases with ⟨-, taken⟩ | ⟨notScheduled, -⟩
          · exact absurd waits (taken newest isNewest)
          cases how : (pre.column key col).schedulingOf trxn.group with
          | schedule => exact absurd how notScheduled
          | splitGroup => exact absurd ⟨isRq.symm, how⟩ splits
          | join => rfl
        rw [accepted.column_self]
        simp only [ColumnData.pushed, if_pos joins]
        exact ⟨isRq, node, rfl, accepted.pending⟩
      · rw [accepted.column_of_ne same]
        exact ⟨isRq, newest, isNewest, waits⟩
    · rw [show (RequestNode.init key col trxn).key = key from rfl,
        show (RequestNode.init key col trxn).colId = col from rfl, accepted.column_self]
      simp only [ColumnData.pushed, if_neg notJoined]
      exact ⟨trivial, node, rfl, accepted.pending⟩

end InsDb
