import InsDb.TransactionConservation

/-!
# Running out of transaction groups

A transaction whose updates are submitted before the next one begins has a group of its
own: `DecTrxnGroup` moves the next id to the following group.  It shifts a 32-bit group
number, so that the next id is 0 again after 2^27 - 1 such transactions, and the ids of the
groups that were completed long ago are handed out a second time.
-/

namespace InsDb

open InsDb.Library InsDb.Library.Run List

variable {K V : Type} [LinearOrder K]

namespace TrxnState

/-- A column with one version, which waits in the request `request`. -/
def singleColumn (node : ColumnNode V) (tgid request : Nat) : ColumnData V :=
  { colList := [node]
    latestColNode := some node.beginSeq
    lastTGID := tgid
    requestNode := some request }

/-- Everything that the put of a batch does to a column without a version. -/
structure PutStored (before after : TrxnState K V) (index : Nat) (key : K)
    (trxn : Transaction) (batch : BatchState K V) (node : ColumnNode V) : Prop where
  threaded : after.Threaded
  taken : after.taken = before.taken
  built : after.built = before.built
  batches : after.batches = before.batches.set index batch
  manifest : after.manifest = before.storeManifest trxn false
  queue : after.db.pendingReq = before.db.pendingReq ++
    [(before.db.nextRequest, RequestNode.init key 0 (assignTrxnID trxn before.db.trxns).1)]
  flagged : node.transaction = decide ((assignTrxnID trxn before.db.trxns).1.id ≠ 0)
  column : after.db.column key 0 =
    singleColumn node (assignTrxnID trxn before.db.trxns).1.group before.db.nextRequest
  others : ∀ other, key ≠ other → after.db.column other 0 = before.db.column other 0

theorem storeNext_put {s : TrxnState K V} (threaded : s.Threaded) {i : Nat}
    {key : K} {v : V} {rest : List (Record K V)} {trxn : Transaction} {time : Nat}
    (isBatch : s.batches[i]? = some ⟨.put key v 0 :: rest, trxn, time⟩)
    (empty : s.db.column key 0 = {}) :
    ∃ post node, s.step (.storeNext i none) = some post ∧ PutStored s post i key trxn
        ⟨rest, (assignTrxnID trxn s.db.trxns).1.advance, time⟩ node := by
  have accepted : (⟨s.db, trxn, time⟩ : WriteBatchInternal K V).cancelled
      ⟨key, 0, .put v⟩ = false := by
    apply decide_eq_false
    rintro ⟨⟨isDel, -⟩, -⟩
    cases isDel
  have notCancelled := mt WriteBatchInternal.cancelled_iff.mpr (Bool.eq_false_iff.mp accepted)
  obtain ⟨isAccepted, -, -⟩ := threaded.queued.accepted notCancelled
  have schedules : (s.db.column key 0).schedulingOf
      (assignTrxnID trxn s.db.trxns).1.group = .schedule := by
    rw [empty]
    rfl
  refine ⟨s.stored i ⟨.put key v 0 :: rest, trxn, time⟩ rest ⟨key, 0, .put v⟩, _,
    ?_, Balanced.threaded_of_accepted threaded i rest accepted, rfl, rfl, ?_, ?_, ?_,
    isAccepted.flagged, ?_, ?_⟩
  · change s.storeNext i none = _
    unfold TrxnState.storeNext
    rw [isBatch]
    rfl
  · change s.batches.set i ⟨rest, _, time⟩ = _
    rw [WriteBatchInternal.trxn_store_of_accepted accepted]
  · have stored := @Balanced.stored_manifest _ _ _ s i
      ⟨.put key v 0 :: rest, trxn, time⟩ rest ⟨key, 0, .put v⟩
    rw [stored, accepted]
  · have queue := isAccepted.queue
    rw [schedules] at queue
    exact queue
  · have c := isAccepted.column_self
    rw [schedules, empty] at c
    exact c
  intro _ differs
  exact isAccepted.column_of_ne fun both => differs both.1

/-- What is left after some steps of a worker on the column of `key`. -/
structure Worked (before after : TrxnState K V) (key : K)
    (queue : List (Nat × RequestNode K)) (taken built : List (Submission K))
    (manifest : TrxnManifest) : Prop where
  threaded : after.Threaded
  queue : after.db.pendingReq = queue
  taken : after.taken = taken
  built : after.built = built
  batches : after.batches = before.batches
  manifest : after.manifest = manifest
  others : ∀ other, key ≠ other → after.db.column other 0 = before.db.column other 0

section Single

variable {s : TrxnState K V} {key : K} {trxn : Transaction}
  {rest : List (Nat × RequestNode K)} {node : ColumnNode V}

theorem take_first (threaded : s.Threaded) {id tgid rq : Nat}
    (queue : s.db.pendingReq = (id, RequestNode.init key 0 trxn) :: rest)
    (c : s.db.column key 0 = singleColumn node tgid rq) (hasId : trxn.id ≠ 0)
    (taken : s.taken = []) (built : s.built = []) :
    ∃ post, s.step (.take 0 0) = some post ∧
      Worked s post key rest [⟨key, 0, node.beginSeq, [trxn], 0⟩] [] s.manifest ∧
      (post.db.column key 0).colList = [node.beginSubmit 1] := by
  have designated : s.db.designated (RequestNode.init key 0 trxn) = some node.beginSeq := by
    change (s.db.column key 0).latestColNode = _
    rw [c]
    rfl
  obtain ⟨db, takes⟩ : ∃ db, s.db.takeRequest 1 0 =
      some (⟨key, 0, node.beginSeq, [trxn], 0⟩, db) := by
    unfold Db.takeRequest
    rw [queue]
    simp only [getElem?_cons_zero, designated, Option.map_some, Option.some.injEq,
      Prod.mk.injEq, exists_eq_right']
    simp [RequestNode.init, hasId]
  obtain ⟨_, takenRequest, isTaken⟩ := threaded.queued.taken takes
  have sameKey := isTaken.key.symm
  have sameCol := isTaken.colId.symm
  have reworked := isTaken.reworked
  have inColumn := isTaken.column
  rw [sameKey, sameCol] at reworked inColumn
  refine ⟨{ s with db := db, taken := s.taken ++ [⟨key, 0, node.beginSeq, [trxn], 0⟩] },
    ?_, ⟨?_, ?_, ?_, built, rfl, ?_, ?_⟩, ?_⟩
  · change (s.db.takeRequest 1 0).map _ = _
    rw [takes]
    rfl
  · exact threaded.of_taken isTaken Nat.one_ne_zero rfl rfl rfl rfl
  · rw [isTaken.queue, queue]
    rfl
  · rw [taken]
    rfl
  · exact manifest_of_groups isTaken.trxns rfl rfl rfl
  · intro other differs
    exact reworked.others other 0 fun both => differs both.1
  rw [inColumn, c]
  simp [ColumnData.modifyNode, singleColumn]

theorem build_first (threaded : s.Threaded) {seq : Nat}
    (taken : s.taken = [⟨key, 0, seq, [trxn], 0⟩]) (built : s.built = [])
    (c : (s.db.column key 0).colList = [node]) (flagged : node.transaction = true) :
    ∃ post sub, s.step (.build 0) = some post ∧
      Worked s post key s.db.pendingReq [] [sub] s.manifest ∧
      sub.key = key ∧ sub.colId = 0 ∧ sub.trxnGroupID = trxn.group := by
  have mem : ⟨key, 0, seq, [trxn], 0⟩ ∈ s.taken := by
    rw [taken]
    exact mem_singleton_self _
  obtain ⟨-, head, older, -, -, -, -, visited⟩ := threaded.visited mem
  obtain ⟨post, builds⟩ : ∃ post, s.build 0 = some post := by
    unfold TrxnState.build Db.buildRequest
    rw [taken]
    simp only [getElem?_cons_zero, visited, Option.map_some]
    exact ⟨_, rfl⟩
  obtain ⟨sub, done, newer, older, head, isBuilt, marked, owned⟩ :=
    threaded.built_of_step builds
  have isSubmission : sub = ⟨key, 0, seq, [trxn], 0⟩ := by
    have atPosition := isBuilt.atPosition
    rw [taken] at atPosition
    exact (Option.some.inj atPosition).symm
  subst isSubmission
  have whole := isBuilt.whole
  rw [nodesOf, c] at whole
  obtain ⟨rfl, rfl, rfl⟩ : newer = [] ∧ head = node ∧ older = [] := by
    cases newer with
    | nil =>
      obtain ⟨isHead, isOlder⟩ := cons.inj whole
      exact ⟨rfl, isHead.symm, isOlder.symm⟩
    | cons => simp at whole
  refine ⟨post, done, builds, ⟨threaded.of_built isBuilt marked owned, isBuilt.queue, ?_, ?_,
    isBuilt.batches, isBuilt.manifest, ?_⟩, isBuilt.key, isBuilt.colId, ?_⟩
  · rw [isBuilt.taken, taken]
    rfl
  · rw [isBuilt.built, built]
    rfl
  · intro other differs
    exact isBuilt.reworked.others other 0 fun both => differs both.1
  rw [isBuilt.trxnGroupID, if_pos flagged]
  unfold trxnInfo
  rw [if_pos flagged]
  rfl

theorem submit_first (threaded : s.Threaded) {sub : Submission K} {tgid : Nat}
    (taken : s.taken = []) (built : s.built = [sub])
    (isKey : sub.key = key) (isCol : sub.colId = 0)
    (group : sub.trxnGroupID = tgid) (hasGroup : tgid ≠ 0) :
    ∃ post, s.step (.submit 0 kUnusedNextInternalKey 0 0) = some post ∧
      Worked s post key s.db.pendingReq [] [] (s.manifest.decTrxnGroup tgid) := by
  obtain ⟨post, submits⟩ : ∃ post, s.submit 0 kUnusedNextInternalKey 0 0 = some post := by
    unfold TrxnState.submit
    rw [built]
    exact ⟨_, rfl⟩
  obtain ⟨done, sent⟩ := threaded.submitted_of_step submits
  have isSubmission : done = sub := by
    have atPosition := sent.atPosition
    rw [built] at atPosition
    exact (Option.some.inj atPosition).symm
  subst isSubmission
  refine ⟨post, submits, threaded.of_submitted sent, sent.queue, ?_, ?_,
    sent.batches, ?_, ?_⟩
  · rw [sent.taken, taken]
  · rw [sent.built, built]
    rfl
  · rw [sent.manifest, group, if_pos hasGroup]
  intro other differs
  rw [← isKey] at differs
  exact sent.reworked.others other 0 fun both => differs both.1

def workFirst : List (TrxnAction K V) :=
  [.take 0 0, .build 0, .submit 0 kUnusedNextInternalKey 0 0]

theorem exec_workFirst (threaded : s.Threaded) {id tgid rq : Nat}
    (queue : s.db.pendingReq = (id, RequestNode.init key 0 trxn) :: rest)
    (taken : s.taken = []) (built : s.built = [])
    (c : s.db.column key 0 = singleColumn node tgid rq)
    (flagged : node.transaction = true) (hasGroup : trxn.group ≠ 0) :
    ∃ post, exec step workFirst s = some post ∧
      Worked s post key rest [] [] (s.manifest.decTrxnGroup trxn.group) := by
  have hasId : trxn.id ≠ 0 := by
    intro noId
    apply hasGroup
    unfold Transaction.group
    rw [noId]
    rfl
  obtain ⟨_, takes, isTaken, inColumn⟩ := take_first threaded queue c hasId taken built
  obtain ⟨_, _, builds, isBuilt, isKey, isCol, group⟩ := build_first isTaken.threaded
    isTaken.taken isTaken.built inColumn flagged
  obtain ⟨third, submits, isDone⟩ := submit_first isBuilt.threaded isBuilt.taken isBuilt.built
    isKey isCol group hasGroup
  refine ⟨third, ?_, isDone.threaded, ?_, isDone.taken, isDone.built, ?_, ?_, ?_⟩
  · simp [workFirst, exec, takes, builds, submits]
  · rw [isDone.queue, isBuilt.queue, isTaken.queue]
  · rw [isDone.batches, isBuilt.batches, isTaken.batches]
  · rw [isDone.manifest, isBuilt.manifest, isTaken.manifest]
  intro other differs
  rw [isDone.others other differs, isBuilt.others other differs, isTaken.others other differs]

end Single

end TrxnState

theorem TrxnManifest.decTrxnGroup_completed (manifest : TrxnManifest) (tgid : Nat) :
    (manifest.decTrxnGroup tgid).completed = if manifest.groups.completes tgid 1 then
        manifest.completed ++ [tgid]
      else
        manifest.completed := by
  unfold TrxnManifest.decTrxnGroup
  split_ifs
  · rfl
  · rfl

theorem TrxnManifest.groups_of_two {manifest : TrxnManifest} {tgid : Nat}
    (groups : manifest.groups = { nextTrxnId := 32 * tgid }) :
    (((manifest.getTrxnID 2).decTrxnGroup tgid).decTrxnGroup tgid).groups =
        { nextTrxnId := 32 * (tgid + 1) % 2 ^ 32 } ∧
      (((manifest.getTrxnID 2).decTrxnGroup tgid).decTrxnGroup tgid).completed =
        manifest.completed ++ [tgid] := by
  have inGroup : (32 * tgid) >>> tgidShift = tgid := by
    simp only [tgidShift, Nat.shiftRight_eq_div_pow]
    omega
  have isNext : (32 * tgid + 1) >>> tgidShift = tgid := by
    simp only [tgidShift, Nat.shiftRight_eq_div_pow]
    omega
  have shifted : (tgid + 1) <<< tgidShift = 32 * (tgid + 1) := by
    simp only [tgidShift, Nat.shiftLeft_eq]
    omega
  have opened : (manifest.getTrxnID 2).groups =
      { nextTrxnId := 32 * tgid + 1, uncompleted := [(tgid, 2)] } := by
    unfold TrxnManifest.getTrxnID TrxnGroups.getTrxnID
    rw [groups]
    simp [inGroup, Rows.set]
  have halfway : ((manifest.getTrxnID 2).decTrxnGroup tgid).groups =
      { nextTrxnId := 32 * tgid + 1, uncompleted := [(tgid, 1)] } := by
    rw [TrxnManifest.decTrxnGroup_groups, opened]
    simp [TrxnGroups.decTrxnGroup, Rows.get, Rows.set]
  have openStays : (manifest.getTrxnID 2).groups.completes tgid 1 = false := by
    rw [opened]
    simp [TrxnGroups.completes, Rows.get]
  have completes : ((manifest.getTrxnID 2).decTrxnGroup tgid).groups.completes tgid 1 = true := by
    rw [halfway]
    simp [TrxnGroups.completes, Rows.get]
  constructor
  · rw [TrxnManifest.decTrxnGroup_groups, halfway]
    simp [TrxnGroups.decTrxnGroup, Rows.get, isNext, shifted]
  rw [TrxnManifest.decTrxnGroup_completed, if_pos completes,
    TrxnManifest.decTrxnGroup_completed, if_neg (by simp [openStays])]
  rfl

def transactionRound (n : Nat) : List (TrxnAction Nat Nat) :=
  .beginBatch [.put (2 * n) 0 0, .put (2 * n + 1) 0 0] ::
    .storeNext n none :: .storeNext n none ::
      (TrxnState.workFirst ++ TrxnState.workFirst)

def transactionRounds : Nat → List (TrxnAction Nat Nat)
  | 0 => []
  | n + 1 => transactionRounds n ++ transactionRound n

/-- Nothing waits after `n` rounds, and the next id is the first one of a group. -/
structure Settled (n : Nat) (s : TrxnState Nat Nat) : Prop where
  threaded : s.Threaded
  queue : s.db.pendingReq = []
  taken : s.taken = []
  built : s.built = []
  batches : s.batches.length = n
  groups : s.manifest.groups = { nextTrxnId := 32 * (n + 1) % 2 ^ 32 }
  completed : s.manifest.completed = (List.range n).map (· + 1)
  fresh : ∀ key, 2 * n ≤ key → s.db.column key 0 = {}

theorem settled_newDb : Settled 0 { db := newDb } := by
  refine ⟨newDb_opened.balanced.threaded, rfl, rfl, rfl, rfl, rfl, rfl, ?_⟩
  intro key _
  exact newDb_column key 0

theorem Settled.round {n : Nat} {s : TrxnState Nat Nat} (settled : Settled n s)
    (small : n + 1 < 2 ^ 27) :
    ∃ post, exec TrxnState.step (transactionRound n) s = some post ∧ Settled (n + 1) post := by
  have groups : s.manifest.groups = { nextTrxnId := 32 * (n + 1) } := by
    rw [settled.groups, Nat.mod_eq_of_lt (by omega)]
  have trxns : s.db.trxns = { nextTrxnId := 32 * (n + 1) } := groups
  -- The batch begins.
  let begun : TrxnState Nat Nat := { s with
      batches := s.batches ++
        [⟨[.put (2 * n) 0 0, .put (2 * n + 1) 0 0], { count := 2 }, s.db.now⟩] }
  have begins : s.step (.beginBatch [.put (2 * n) 0 0, .put (2 * n + 1) 0 0]) = some begun := rfl
  have begunThreaded : begun.Threaded :=
    settled.threaded.of_same (fun _ _ => rfl) settled.threaded.queued.nonempty rfl rfl
      (Nat.le_refl _) rfl rfl fun _ _ => rfl
  have atBatch : begun.batches[n]? =
      some ⟨[.put (2 * n) 0 0, .put (2 * n + 1) 0 0], { count := 2 }, s.db.now⟩ := by
    change (s.batches ++ _)[n]? = _
    rw [← settled.batches]
    simp
  have length : begun.batches.length = n + 1 := by
    rw [length_append, settled.batches]
    rfl
  -- The first put opens the group.
  obtain ⟨first, _, stores, isFirst⟩ := TrxnState.storeNext_put begunThreaded atBatch
    (settled.fresh (2 * n) (Nat.le_refl _))
  have assigned : assignTrxnID { count := 2 } begun.db.trxns =
      ({ count := 2, id := 32 * (n + 1) }, (begun.db.trxns.getTrxnID 2).2) := by
    rw [trxns]
    rfl
  have firstManifest : first.manifest = s.manifest.getTrxnID 2 := isFirst.manifest
  have firstQueue := isFirst.queue
  have firstColumn := isFirst.column
  have firstFlag := isFirst.flagged
  have firstBatches := isFirst.batches
  rw [assigned] at firstQueue firstColumn firstFlag firstBatches
  have inGroup : ({ count := 2, id := 32 * (n + 1) } : Transaction).group = n + 1 := by
    simp only [Transaction.group, tgidShift, Nat.shiftRight_eq_div_pow]
    omega
  -- The second put belongs to the same transaction.
  have atSecond : first.batches[n]? = some ⟨[.put (2 * n + 1) 0 0],
      { count := 2, seqNumber := 1, id := 32 * (n + 1) }, s.db.now⟩ := by
    rw [firstBatches, getElem?_set_self (by omega)]
    rfl
  have secondEmpty := (isFirst.others (2 * n + 1) (by omega)).trans (settled.fresh (2 * n + 1) (by
    omega))
  obtain ⟨second, _, storesSecond, isSecond⟩ :=
    TrxnState.storeNext_put isFirst.threaded atSecond secondEmpty
  have hasId : ¬ (1 < 2 ∧ 32 * (n + 1) = 0) := by omega
  have assignedSecond : (assignTrxnID { count := 2, seqNumber := 1, id := 32 * (n + 1) }
      first.db.trxns).1 = { count := 2, seqNumber := 1, id := 32 * (n + 1) } := by
    unfold assignTrxnID
    rw [if_neg hasId]
  have secondManifest : second.manifest = s.manifest.getTrxnID 2 := by
    rw [isSecond.manifest, ← firstManifest]
    unfold TrxnState.storeManifest
    rw [if_neg (by simp), if_neg hasId]
  have secondQueue := isSecond.queue
  have secondColumn := isSecond.column
  have secondFlag := isSecond.flagged
  rw [assignedSecond] at secondQueue secondColumn secondFlag
  rw [firstQueue, show begun.db.pendingReq = [] from settled.queue] at secondQueue
  -- A worker submits both.
  obtain ⟨_, worksFirst, isThird⟩ := TrxnState.exec_workFirst isSecond.threaded secondQueue
    ((isSecond.taken.trans isFirst.taken).trans settled.taken)
    ((isSecond.built.trans isFirst.built).trans settled.built)
    ((isSecond.others (2 * n) (by omega)).trans firstColumn)
    (firstFlag.trans (decide_eq_true (by simp)))
    (by rw [inGroup]; omega)
  obtain ⟨fourth, worksSecond, isFourth⟩ := TrxnState.exec_workFirst isThird.threaded isThird.queue
    isThird.taken isThird.built ((isThird.others (2 * n + 1) (by omega)).trans secondColumn)
    (secondFlag.trans (decide_eq_true (by simp)))
    (show ({ count := 2, id := 32 * (n + 1) } : Transaction).group ≠ 0 by rw [inGroup]; omega)
  have manifest : fourth.manifest =
      ((s.manifest.getTrxnID 2).decTrxnGroup (n + 1)).decTrxnGroup (n + 1) := by
    have secondGroup : ({ count := 2, seqNumber := 1, id := 32 * (n + 1) } : Transaction).group =
        n + 1 := inGroup
    rw [isFourth.manifest, isThird.manifest, inGroup, secondGroup, secondManifest]
  obtain ⟨closedGroups, closedCompleted⟩ := TrxnManifest.groups_of_two groups
  refine ⟨fourth, ?_, isFourth.threaded, isFourth.queue, isFourth.taken, isFourth.built, ?_, ?_,
    ?_, ?_⟩
  · unfold transactionRound
    simp only [exec, begins, stores, storesSecond, Option.bind_some]
    rw [exec_append, worksFirst]
    exact worksSecond
  · rw [isFourth.batches, isThird.batches, isSecond.batches, List.length_set, isFirst.batches,
      List.length_set, length]
  · rw [manifest, closedGroups]
  · rw [manifest, closedCompleted, settled.completed, range_succ, map_append]
    rfl
  intro key _
  rw [isFourth.others key (by omega), isThird.others key (by omega),
    isSecond.others key (by omega), isFirst.others key (by omega)]
  exact settled.fresh key (by omega)

theorem settled_rounds {n : Nat} (small : n < 2 ^ 27) :
    ∃ s, exec TrxnState.step (transactionRounds n) { db := newDb } = some s ∧ Settled n s := by
  induction n with
  | zero => exact ⟨_, rfl, settled_newDb⟩
  | succ n ih =>
    obtain ⟨_, runs, settled⟩ := ih (by omega)
    obtain ⟨post, round, settledAfter⟩ := settled.round small
    refine ⟨post, ?_, settledAfter⟩
    rw [transactionRounds, exec_append, runs]
    exact round

def largeBatch (n : Nat) : List (TrxnAction Nat Nat) :=
  [.beginBatch (.put (2 * n) 0 0 :: .put (2 * n + 1) 0 0 :: List.replicate 4095 (.put 0 0 0)),
   .storeNext n none, .storeNext n none]

theorem Settled.reuses {n : Nat} {s : TrxnState Nat Nat} (settled : Settled n s)
    (wraps : 32 * (n + 1) % 2 ^ 32 = 0) :
    ∃ post, exec TrxnState.step (largeBatch n) s = some post ∧
      post.completed = s.completed ∧ post.handedOut.getLast? = some 32 ∧
      post.openEntries 1 ≠ 0 := by
  have trxns : s.db.trxns = { nextTrxnId := 0 } := by
    have groups : s.db.trxns = _ := settled.groups
    rw [groups, wraps]
  generalize isRest : replicate 4095 (Record.put 0 0 0 : Record Nat Nat) = rest
  have size : rest.length = 4095 := by rw [← isRest, length_replicate]
  let begun : TrxnState Nat Nat := { s with
      batches := s.batches ++
        [⟨.put (2 * n) 0 0 :: .put (2 * n + 1) 0 0 :: rest, { count := 4097 }, s.db.now⟩] }
  have begins : s.step (.beginBatch (.put (2 * n) 0 0 :: .put (2 * n + 1) 0 0 :: rest)) =
      some begun := by
    unfold TrxnState.step
    simp only [length_cons, size]
    rfl
  have begunThreaded : begun.Threaded :=
    settled.threaded.of_same (fun _ _ => rfl) settled.threaded.queued.nonempty rfl rfl
      (Nat.le_refl _) rfl rfl fun _ _ => rfl
  have atBatch : begun.batches[n]? = some
      ⟨.put (2 * n) 0 0 :: .put (2 * n + 1) 0 0 :: rest, { count := 4097 }, s.db.now⟩ := by
    change (s.batches ++ _)[n]? = _
    rw [← settled.batches]
    simp
  have length : begun.batches.length = n + 1 := by
    rw [length_append, settled.batches]
    rfl
  obtain ⟨first, _, stores, isFirst⟩ := TrxnState.storeNext_put begunThreaded atBatch
    (settled.fresh (2 * n) (Nat.le_refl _))
  have firstManifest := isFirst.manifest
  have firstTrxns : first.db.trxns = { nextTrxnId := 32, uncompleted := [(0, 4097)] } := by
    have groups : first.db.trxns = (s.db.trxns.getTrxnID 4097).2 :=
      congrArg TrxnManifest.groups firstManifest
    rw [groups, trxns]
    rfl
  have assigned : (assignTrxnID { count := 4097 } begun.db.trxns).1 = { count := 4097 } := by
    rw [trxns]
    rfl
  have firstBatches := isFirst.batches
  rw [assigned] at firstBatches
  have atSecond : first.batches[n]? = some
      ⟨.put (2 * n + 1) 0 0 :: rest, { count := 4097, seqNumber := 1 }, s.db.now⟩ := by
    rw [firstBatches, getElem?_set_self (by omega)]
    rfl
  have secondEmpty := (isFirst.others (2 * n + 1) (by omega)).trans (settled.fresh (2 * n + 1) (by
    omega))
  obtain ⟨second, _, storesSecond, isSecond⟩ :=
    TrxnState.storeNext_put isFirst.threaded atSecond secondEmpty
  have secondManifest : second.manifest = first.manifest.getTrxnID 4097 := isSecond.manifest
  have secondTrxn : (assignTrxnID { count := 4097, seqNumber := 1 } first.db.trxns).1 =
      { count := 4097, seqNumber := 1, id := 32 } := by
    rw [firstTrxns]
    rfl
  have secondBatches := isSecond.batches
  rw [secondTrxn] at secondBatches
  refine ⟨second, ?_, ?_, ?_, ?_⟩
  · unfold largeBatch
    rw [isRest]
    simp [exec, begins, stores, storesSecond]
  · have completed := congrArg TrxnManifest.completed secondManifest
    rw [firstManifest] at completed
    exact completed
  · have handedOut := congrArg TrxnManifest.handedOut secondManifest
    change second.handedOut = first.handedOut ++ [first.db.trxns.nextTrxnId] at handedOut
    rw [handedOut, firstTrxns, getLast?_concat]
  have inBatches : ⟨rest, { count := 4097, seqNumber := 2, id := 32 }, s.db.now⟩ ∈
      second.batches := by
    rw [secondBatches]
    apply List.mem_set
    have := congrArg List.length firstBatches
    rw [List.length_set] at this
    omega
  have held := le_sum_of_mem (mem_map_of_mem (f := BatchState.openIn 1) inBatches)
  have isOpen : BatchState.openIn 1 (⟨rest, { count := 4097, seqNumber := 2, id := 32 },
      s.db.now⟩ : BatchState Nat Nat) = 4095 := by
    simp [BatchState.openIn, Transaction.group, tgidShift]
  unfold TrxnState.openEntries
  omega

/-- An id of the first group is handed out again long after the group was completed. -/
theorem completed_group_is_reused :
    (∃ s, exec TrxnState.step (transactionRounds (2 ^ 27 - 1) ++ largeBatch (2 ^ 27 - 1))
          { db := newDb } = some s ∧
        1 ∈ s.completed ∧ s.handedOut.getLast? = some 32) ∧
      ¬ AllHold TrxnState.step (fun s => s.manifest.Conserved s.openEntries)
        (transactionRounds (2 ^ 27 - 1) ++ largeBatch (2 ^ 27 - 1)) { db := newDb } := by
  have last : ∃ n, n = 2 ^ 27 - 1 := ⟨_, rfl⟩
  obtain ⟨n, isLast⟩ := last
  rw [← isLast]
  obtain ⟨s, rounds, settled⟩ := settled_rounds (show n < 2 ^ 27 by omega)
  obtain ⟨after, reuses, completed, handedOut, isOpen⟩ := settled.reuses (by omega)
  have runs : exec TrxnState.step (transactionRounds n ++ largeBatch n) { db := newDb } =
      some after := by
    rw [exec_append, rounds]
    exact reuses
  have isCompleted : 1 ∈ after.completed := by
    have before : s.completed = _ := settled.completed
    rw [completed, before]
    exact mem_map.mpr ⟨0, mem_range.mpr (by omega), rfl⟩
  refine ⟨⟨after, runs, isCompleted, handedOut⟩, ?_⟩
  intro conserved
  exact isOpen ((conserved.final runs).added 1 |>.mp isCompleted).2

end InsDb
