import Mathlib.Data.List.Perm.Basic
import InsDb.TransactionEntries

/-!
# Every open entry is in one request

`Threaded` ties the queue, the submit lists and the column lists to what has become of the
updates: the nodes of every request that waits or was taken are the applied entries whose
transactions it carries, and a node that is built is one applied entry.  Each step of a
batch or a worker keeps it.
-/

namespace InsDb

open InsDb.Library List ColumnNode

variable {K V : Type} [LinearOrder K]

theorem TrxnManifest.decTrxnGroup_groups (manifest : TrxnManifest) (tgid : Nat) :
    (manifest.decTrxnGroup tgid).groups = manifest.groups.decTrxnGroup tgid 1 := by
  unfold TrxnManifest.decTrxnGroup
  split_ifs <;> rfl

theorem TrxnManifest.foldl_groups (merged : List Transaction) (manifest : TrxnManifest) :
    (merged.foldl (fun manifest trxn => manifest.decTrxnGroup trxn.group) manifest).groups =
      merged.foldl (fun groups trxn => groups.decTrxnGroup trxn.group 1) manifest.groups := by
  induction merged generalizing manifest with
  | nil => rfl
  | cons trxn rest ih =>
    rw [foldl_cons, foldl_cons, ih, TrxnManifest.decTrxnGroup_groups]

namespace TrxnState

def heads (s : TrxnState K V) : List Nat :=
  (s.db.waiting ++ s.taken).map Submission.colNode

omit [LinearOrder K] in
theorem manifest_of_groups {s : TrxnState K V} {manifest : TrxnManifest}
    (groups : s.db.trxns = manifest.groups) (ranges : s.ranges = manifest.ranges)
    (handedOut : s.handedOut = manifest.handedOut)
    (completed : s.completed = manifest.completed) : s.manifest = manifest := by
  unfold TrxnState.manifest
  rw [groups, ranges, handedOut, completed]

def nodesOf (s : TrxnState K V) (sub : Submission K) :
    List (ColumnNode V) :=
  (s.db.column sub.key sub.colId).colList

structure Threaded (s : TrxnState K V) : Prop where
  queued : s.db.Queued
  distinct : ((s.db.waiting ++ (s.taken ++ s.built)).map Submission.colNode).Nodup
  threads : ∀ sub ∈ s.db.waiting ++ s.taken,
    Thread s.entries s.heads (s.nodesOf sub) sub.colNode
      sub.trxnDeque
  marked : ∀ sub ∈ s.taken ++ s.built,
    Marked (s.nodesOf sub) sub.colNode
  finished : ∀ sub ∈ s.built,
    (s.entries sub.colNode).fate = .applied ∧
      sub.trxnGroupID = (s.entries sub.colNode).trxnId >>> tgidShift

namespace Threaded

variable {s : TrxnState K V}

section

variable (threaded : s.Threaded) {sub : Submission K}
  (mem : sub ∈ s.db.waiting ++ (s.taken ++ s.built))

include threaded mem

theorem mem_column : ∃ node ∈ s.nodesOf sub, node.beginSeq = sub.colNode := by
  rw [← append_assoc] at mem
  rcases mem_append.mp mem with unbuilt | isBuilt
  · exact (threaded.threads sub unbuilt).mem
  obtain ⟨node, isNode, isDesignated, -⟩ :=
    threaded.marked sub (mem_append_right _ isBuilt)
  exact ⟨node, isNode, isDesignated⟩

theorem colNode_le : sub.colNode ≤ s.db.sequenceNumber := by
  obtain ⟨node, isNode, isDesignated⟩ := threaded.mem_column mem
  rw [← isDesignated]
  exact (threaded.queued.ordered _ _).bounded node isNode

end

theorem node_le (threaded : s.Threaded) (sub : Submission K)
    {node : ColumnNode V} (mem : node ∈ s.nodesOf sub) :
    node.beginSeq ≤ s.db.sequenceNumber :=
  (threaded.queued.ordered _ _).bounded node mem

theorem nodes_distinct (threaded : s.Threaded) (sub : Submission K) :
    ((s.nodesOf sub).map ColumnNode.beginSeq).Nodup :=
  (threaded.queued.ordered _ _).distinct

theorem of_same {post : TrxnState K V} (threaded : s.Threaded)
    (columns : ∀ key col, post.db.column key col = s.db.column key col)
    (nonempty : post.db.tables ≠ []) (queue : post.db.pendingReq = s.db.pendingReq)
    (nextRequest : post.db.nextRequest = s.db.nextRequest)
    (sequence : s.db.sequenceNumber ≤ post.db.sequenceNumber)
    (taken : post.taken = s.taken) (built : post.built = s.built)
    (entries : ∀ seq, seq ≤ s.db.sequenceNumber →
      post.entries seq = s.entries seq) : post.Threaded := by
  have queued := threaded.queued
  have waiting : post.db.waiting = s.db.waiting := by
    unfold Db.waiting
    rw [queue]
    apply filterMap_congr
    intro rq _
    apply Db.submissionOf_congr rfl rfl rfl
    apply Db.designated_congr
    intro _
    rw [columns]
  have nodes : ∀ sub, post.nodesOf sub = s.nodesOf sub := by
    intro sub
    unfold nodesOf
    rw [columns]
  have heads : post.heads = s.heads := by
    unfold TrxnState.heads
    rw [waiting, taken]
  refine ⟨⟨nonempty, ?_, ?_, ?_, ?_, ?_, ?_, ?_⟩, ?_, ?_, ?_, ?_⟩
  · intro key col
    rw [columns]
    exact (queued.ordered key col).mono sequence
  · intro key col node other col' otherNode
    rw [columns, columns]
    exact queued.separate key col node other col' otherNode
  · unfold Db.requests
    rw [queue]
    exact queued.distinct
  · unfold Db.requests
    rw [queue, nextRequest]
    exact queued.fresh
  · intro key col
    rw [columns]
    exact queued.pending key col
  · intro key col
    rw [columns, queue]
    exact queued.waiting key col
  · intro id rq
    rw [columns, queue]
    exact queued.openRequest id rq
  · rw [waiting, taken, built]
    exact threaded.distinct
  · intro sub mem
    rw [waiting, taken] at mem
    rw [heads, nodes]
    refine (threaded.threads sub mem).congr ?_ (fun _ _ isHead => isHead)
    intro node isNode
    exact entries node.beginSeq (threaded.node_le sub isNode)
  · intro sub mem
    rw [taken, built] at mem
    rw [nodes]
    exact threaded.marked sub mem
  intro sub mem
  rw [built] at mem
  rw [entries _ (threaded.colNode_le (by simp [mem]))]
  exact threaded.finished sub mem

section Update

variable {post : TrxnState K V} {key : K} {col : Nat} {trxn : Transaction}
  {node : ColumnNode V}

theorem thread_of_accepted (threaded : s.Threaded)
    (accepted : Accepted s.db post.db key col trxn node)
    (entries : ∀ seq, seq ≤ s.db.sequenceNumber →
      post.entries seq = s.entries seq) {sub : Submission K}
    {heads : List Nat}
    (thread : Thread s.entries s.heads (s.nodesOf sub) sub.colNode
      sub.trxnDeque)
    (fewer : ∀ seq, seq ≤ s.db.sequenceNumber → seq ∈ heads →
      seq ∈ s.heads) :
    Thread post.entries heads (post.nodesOf sub) sub.colNode
      sub.trxnDeque := by
  have kept : Thread post.entries heads (s.nodesOf sub) sub.colNode
      sub.trxnDeque := by
    apply thread.congr
    · intro listed mem
      exact entries listed.beginSeq (threaded.node_le sub mem)
    intro listed mem
    exact fewer listed.beginSeq (threaded.node_le sub mem)
  by_cases same : key = sub.key ∧ col = sub.colId
  · obtain ⟨rfl, rfl⟩ := same
    unfold nodesOf
    rw [accepted.column_self]
    exact kept.push node (fun old => (below_same _ _ old).1)
      (fun old => (below_same _ _ old).2.1)
  unfold nodesOf
  rw [accepted.column_of_ne same]
  exact kept

theorem marked_of_accepted (accepted : Accepted s.db post.db key col trxn node)
    {sub : Submission K}
    (isMarked : Marked (s.nodesOf sub) sub.colNode) :
    Marked (post.nodesOf sub) sub.colNode := by
  by_cases same : key = sub.key ∧ col = sub.colId
  · obtain ⟨rfl, rfl⟩ := same
    unfold nodesOf
    rw [accepted.column_self]
    exact isMarked.push node (fun old => (below_same _ _ old).1)
      (fun old => (below_same _ _ old).2.2.1)
  unfold nodesOf
  rw [accepted.column_of_ne same]
  exact isMarked

theorem thread_of_own (accepted : Accepted s.db post.db key col trxn node)
    (entry : post.entries node.beginSeq = { trxnId := trxn.id, fate := .applied })
    (notJoined : (s.db.column key col).schedulingOf trxn.group ≠ .join)
    (heads : List Nat) :
    Thread post.entries heads
      (post.nodesOf (Accepted.ownSubmission key col trxn node)) node.beginSeq
      (Accepted.ownSubmission key col trxn node).trxnDeque := by
  have nodes : post.nodesOf (Accepted.ownSubmission key col trxn node) =
      node :: (s.db.column key col).colList.modifyHead
        (below node.beginSeq
          ((s.db.column key col).schedulingOf trxn.group)) := by
    unfold nodesOf Accepted.ownSubmission
    rw [accepted.column_self]
    rfl
  rw [nodes]
  apply Thread.ofNew
  · rw [entry]
  · rw [entry, accepted.flagged, decide_eq_true_iff]
  · rw [entry, accepted.flagged, Accepted.ownSubmission]
    by_cases noId : trxn.id = 0
    · simp [noId]
    · simp [noId]
  intro _ isBelow
  rw [head?_modifyHead] at isBelow
  obtain ⟨old, isOld, rfl⟩ := Option.map_eq_some_iff.mp isBelow
  obtain ⟨-, -, sameKey, split⟩ := below_same node.beginSeq
    ((s.db.column key col).schedulingOf trxn.group) old
  apply Bool.eq_false_iff.mpr
  intro passes
  obtain ⟨pending, unsplit⟩ := mergeable_iff.mp passes
  rcases (s.db.column key col).schedulingOf_cases trxn.group with
    ⟨-, taken⟩ | ⟨notScheduled, -⟩
  · exact taken old isOld (sameKey.symm.trans pending)
  cases how : (s.db.column key col).schedulingOf trxn.group with
  | schedule => exact notScheduled how
  | splitGroup =>
    rw [split, how] at unsplit
    cases unsplit
  | join => exact notJoined how

section

variable (threaded : s.Threaded) (accepted : Accepted s.db post.db key col trxn node)

include threaded accepted

theorem of_accepted_own (taken : post.taken = s.taken) (built : post.built = s.built)
    (entry : post.entries node.beginSeq = { trxnId := trxn.id, fate := .applied })
    (entries : ∀ seq, seq ≤ s.db.sequenceNumber → post.entries seq = s.entries
      seq) (notJoined : (s.db.column key col).schedulingOf trxn.group ≠ .join) :
    post.Threaded := by
  have fresh := accepted.fresh
  have waiting := accepted.waiting_of_own threaded.queued notJoined
  have fewer : ∀ seq, seq ≤ s.db.sequenceNumber → seq ∈ post.heads →
      seq ∈ s.heads := by
    intro _ within isHead
    unfold TrxnState.heads at isHead ⊢
    rw [waiting, taken] at isHead
    simp only [map_append, mem_append, map_cons, map_nil,
      mem_singleton] at isHead ⊢
    rcases isHead with (isOld | rfl) | isTaken
    · exact .inl isOld
    · exact absurd within (by simp only [Accepted.ownSubmission]; omega)
    · exact .inr isTaken
  refine ⟨threaded.queued.of_accepted accepted, ?_, ?_, ?_, ?_⟩
  · rw [waiting, taken, built, append_assoc, singleton_append]
    refine ((perm_middle.map _).nodup_iff).mpr (nodup_cons.mpr ⟨?_, threaded.distinct⟩)
    intro isOld
    obtain ⟨sub, mem, _⟩ := mem_map.mp isOld
    have within := threaded.colNode_le mem
    have ownNode : (Accepted.ownSubmission key col trxn node).colNode = node.beginSeq := rfl
    omega
  · intro sub mem
    rw [waiting, taken, append_assoc, singleton_append] at mem
    rcases mem_cons.mp (perm_middle.mem_iff.mp mem) with rfl | isOld
    · exact thread_of_own accepted entry notJoined post.heads
    · exact threaded.thread_of_accepted accepted entries (threaded.threads sub isOld) fewer
  · intro sub mem
    rw [taken, built] at mem
    exact marked_of_accepted accepted (threaded.marked sub mem)
  intro sub mem
  rw [built] at mem
  rw [entries _ (threaded.colNode_le (by simp [mem]))]
  exact threaded.finished sub mem

theorem thread_of_join
    (entry : post.entries node.beginSeq = { trxnId := trxn.id, fate := .applied })
    (entries : ∀ seq, seq ≤ s.db.sequenceNumber → post.entries seq = s.entries
      seq) (joins : (s.db.column key col).schedulingOf trxn.group = .join)
    {old : ColumnNode V} (isOld : (s.db.column key col).colList.head? = some old)
    (waits : old.ikeySeq = 0) {trxnDeque : List Transaction} {heads : List Nat}
    (thread : Thread s.entries s.heads (s.db.column key col).colList old.beginSeq
      trxnDeque) (freed : old.beginSeq ∉ heads)
    (fewer : ∀ seq, seq ≤ s.db.sequenceNumber → seq ∈ heads → seq ∈ s.heads) :
    Thread post.entries heads (post.db.column key col).colList node.beginSeq
      (trxnDeque ++ if trxn.id = 0 then [] else [trxn]) := by
  have ordered := threaded.queued.ordered key col
  obtain ⟨older, listed⟩ : ∃ older, (s.db.column key col).colList = old :: older :=
    head?_eq_some_iff.mp isOld
  have nodup := ordered.distinct
  have within := ordered.bounded
  rw [listed] at thread nodup within
  have kept : Thread post.entries s.heads (old :: older) old.beginSeq trxnDeque := by
    apply thread.congr
    · intro other mem
      exact entries other.beginSeq (within other mem)
    · exact fun _ _ isHead => isHead
  obtain ⟨sameSeq, sameFlag, sameKey, split⟩ := below_same node.beginSeq .join old
  have nodes : (post.db.column key col).colList =
      node :: old.below node.beginSeq .join :: older := by
    rw [accepted.column_self, joins]
    simp [ColumnData.pushed, listed]
  rw [nodes]
  apply kept.join nodup sameSeq sameFlag
  · apply mergeable_iff.mpr
    rw [sameKey, split, ordered.unsplit old isOld]
    exact ⟨waits, rfl⟩
  · rw [entry]
  · rw [entry, accepted.flagged, decide_eq_true_iff]
  · rw [entry, accepted.flagged]
    by_cases noId : trxn.id = 0
    · simp [noId]
    · simp [noId]
  · exact freed
  intro other mem
  exact fewer other.beginSeq (within other (mem_cons_of_mem _ mem))

theorem of_accepted_join (taken : post.taken = s.taken) (built : post.built = s.built)
    (entry : post.entries node.beginSeq = { trxnId := trxn.id, fate := .applied })
    (entries : ∀ seq, seq ≤ s.db.sequenceNumber → post.entries seq = s.entries
      seq) (joins : (s.db.column key col).schedulingOf trxn.group = .join) :
    post.Threaded := by
  have fresh := accepted.fresh
  obtain ⟨front, back, trxnDeque, old, isOld, waits, pre, waiting⟩ :=
    accepted.waiting_of_join threaded.queued joins
  have nodup := threaded.distinct
  rw [pre, append_assoc, cons_append] at nodup
  have apart := nodup_cons.mp ((perm_middle.map Submission.colNode).nodup_iff.mp nodup)
  have others : ∀ sub,
      sub ∈ front ++ (back ++ (s.taken ++ s.built)) →
        sub ∈ s.db.waiting ++ (s.taken ++ s.built) := by
    intro sub mem
    rw [pre]
    simp only [mem_append, mem_cons] at mem ⊢
    tauto
  have othersHeads : ∀ seq, seq ∈ (front ++ (back ++ s.taken)).map Submission.colNode →
      seq ≠ old.beginSeq ∧ seq ≠ node.beginSeq ∧ seq ∈ s.heads := by
    intro seq isOther
    obtain ⟨sub, mem, rfl⟩ := mem_map.mp isOther
    have inAll : sub ∈ front ++ (back ++ (s.taken ++ s.built)) := by
      simp only [mem_append] at mem ⊢
      tauto
    have within := threaded.colNode_le (others sub inAll)
    refine ⟨?_, by omega, ?_⟩
    · intro isOldHead
      exact apart.1 (mem_map.mpr ⟨sub, inAll, isOldHead⟩)
    apply mem_map_of_mem
    rw [pre]
    simp only [mem_append, mem_cons] at mem ⊢
    tauto
  have heads : post.heads = (front ++
      { key := key
        colId := col
        colNode := node.beginSeq
        trxnDeque := trxnDeque ++ if trxn.id = 0 then [] else [trxn] } ::
        (back ++ s.taken)).map Submission.colNode := by
    unfold TrxnState.heads
    rw [waiting, taken, append_assoc, cons_append]
  have isHead : ∀ seq, seq ∈ post.heads → seq = node.beginSeq ∨
      seq ∈ (front ++ (back ++ s.taken)).map Submission.colNode := by
    intro seq mem
    rw [heads] at mem
    exact mem_cons.mp ((perm_middle.map Submission.colNode).mem_iff.mp mem)
  have fewer : ∀ seq, seq ≤ s.db.sequenceNumber → seq ∈ post.heads →
      seq ∈ s.heads := by
    intro seq within mem
    rcases isHead seq mem with rfl | isOther
    · omega
    · exact (othersHeads seq isOther).2.2
  refine ⟨threaded.queued.of_accepted accepted, ?_, ?_, ?_, ?_⟩
  · rw [waiting, taken, built, append_assoc, cons_append]
    refine ((perm_middle.map _).nodup_iff).mpr (nodup_cons.mpr ⟨?_, apart.2⟩)
    intro isOther
    obtain ⟨sub, mem, sameNode⟩ := mem_map.mp isOther
    have within := threaded.colNode_le (others sub mem)
    simp only at sameNode
    omega
  · intro sub mem
    rw [waiting, taken, append_assoc, cons_append] at mem
    rcases mem_cons.mp (perm_middle.mem_iff.mp mem) with rfl | isOther
    · have thread := threaded.threads
        { key := key, colId := col, colNode := old.beginSeq, trxnDeque := trxnDeque }
        (by rw [pre]; simp)
      apply threaded.thread_of_join accepted entry entries joins isOld waits thread _ fewer
      intro isFreed
      rcases isHead _ isFreed with isNew | isElse
      · have := (threaded.queued.ordered key col).bounded old (mem_of_head? isOld)
        omega
      · exact (othersHeads _ isElse).1 rfl
    apply threaded.thread_of_accepted accepted entries _ fewer
    apply threaded.threads
    rw [pre]
    simp only [mem_append, mem_cons] at isOther ⊢
    tauto
  · intro sub mem
    rw [taken, built] at mem
    exact marked_of_accepted accepted (threaded.marked sub mem)
  intro sub mem
  rw [built] at mem
  rw [entries _ (threaded.colNode_le (by simp [mem]))]
  exact threaded.finished sub mem

end

end Update

section Worker

variable {post : TrxnState K V}

theorem nodesOf_of_modified {key : K} {col designated : Nat}
    {change : ColumnNode V → ColumnNode V}
    (reworked : s.db.Reworked post.db key col)
    (c : (post.db.column key col).colList =
      (s.db.column key col).colList.map fun node =>
        if node.beginSeq = designated then change node else node)
    (sub : Submission K) :
    post.nodesOf sub = s.nodesOf sub ∨
      post.nodesOf sub = (s.nodesOf sub).map fun node =>
        if node.beginSeq = designated then change node else node := by
  unfold nodesOf
  by_cases same : key = sub.key ∧ col = sub.colId
  · obtain ⟨rfl, rfl⟩ := same
    exact .inr c
  · exact .inl (by rw [reworked.others _ _ same])

section

variable (threaded : s.Threaded) {workerId pos id : Nat} {rq : RequestNode K}
  {sub : Submission K}
  (isTaken : Taken s.db post.db workerId pos id rq sub)

include threaded isTaken

theorem newest_ne_of_taken (plain : sub.trxnGroupID = 0)
    (isFixed : rq.latestColNode.isSome = true) {newest : ColumnNode V}
    (isNewest : (s.db.column rq.key rq.colId).colList.head? = some newest)
    (waits : newest.ikeySeq = 0) : newest.beginSeq ≠ sub.colNode := by
  have queued := threaded.queued
  obtain ⟨openId, isOpenId⟩ := queued.pending _ _ newest isNewest waits
  obtain ⟨linked, isLinked, sameKey, sameCol, isOpen⟩ := queued.waiting _ _ openId isOpenId
  have stays : (openId, linked) ∈ post.db.pendingReq := by
    apply isTaken.mem_of_ne isLinked
    intro isSame
    rw [← (Prod.mk.inj isSame).2, isOpen] at isFixed
    cases isFixed
  have designates : s.db.submissionOf linked = some
      { key := linked.key, colId := linked.colId, colNode := newest.beginSeq,
        trxnDeque := linked.trxnDeque } := by
    unfold Db.submissionOf Db.designated
    rw [isOpen, Option.none_or, sameKey, sameCol, (queued.ordered _ _).latest, isNewest]
    rfl
  have waiting : newest.beginSeq ∈ post.db.waiting.map Submission.colNode := by
    have kept := (isTaken.reworked.submissionOf linked).trans designates
    refine mem_map.mpr
      ⟨⟨linked.key, linked.colId, newest.beginSeq, linked.trxnDeque, 0⟩, ?_, rfl⟩
    exact mem_filterMap.mpr ⟨(openId, linked), stays, kept⟩
  have nodup := threaded.distinct
  rw [map_append] at nodup
  have apart := ((isTaken.waiting plain).map Submission.colNode).nodup_iff.mp
    (nodup_append.mp nodup).1
  intro isSame
  exact (nodup_cons.mp apart).1 (isSame ▸ waiting)

theorem of_taken (w : workerId ≠ 0) (plain : sub.trxnGroupID = 0)
    (taken : post.taken = s.taken ++ [sub]) (built : post.built = s.built)
    (entries : post.entries = s.entries) : post.Threaded := by
  have perm := isTaken.waiting plain
  have headsPerm : (s.db.waiting ++ s.taken).Perm (post.db.waiting ++ post.taken) := by
    rw [taken, ← append_assoc]
    exact (perm.append_right s.taken).trans (perm_append_singleton _ _).symm
  have allPerm : (s.db.waiting ++ (s.taken ++ s.built)).Perm
      (post.db.waiting ++ (post.taken ++ post.built)) := by
    rw [built, ← append_assoc, ← append_assoc]
    exact headsPerm.append_right s.built
  have sameHeads : ∀ seq, seq ∈ post.heads ↔ seq ∈ s.heads :=
    fun seq => ((headsPerm.map Submission.colNode).mem_iff).symm
  have wasWaiting := perm.mem_iff.mpr mem_cons_self
  have isHead : sub.colNode ∈ s.heads :=
    mem_map_of_mem (mem_append_left _ wasWaiting)
  have c : (post.db.column rq.key rq.colId).colList =
      (s.db.column rq.key rq.colId).colList.map fun node =>
        if node.beginSeq = sub.colNode then node.beginSubmit workerId else node := by
    rw [isTaken.column]
    rfl
  have nodes := nodesOf_of_modified isTaken.reworked c
  refine ⟨threaded.queued.of_taken isTaken w
      fun isFixed newest isNewest waits =>
        threaded.newest_ne_of_taken isTaken plain isFixed isNewest waits,
    (allPerm.map Submission.colNode).nodup_iff.mp threaded.distinct, ?_, ?_, ?_⟩
  · intro other mem
    have thread := threaded.threads other (headsPerm.mem_iff.mpr mem)
    have modified : Thread s.entries s.heads (post.nodesOf other) other.colNode
        other.trxnDeque := by
      rcases nodes other with same | changed
      · rw [same]
        exact thread
      rw [changed]
      exact thread.modify (fun _ => rfl) (fun _ => rfl) (fun _ => w) (Or.inl isHead)
    rw [entries]
    exact modified.congr (fun _ _ => rfl) fun node _ isOther => (sameHeads _).mp isOther
  · intro other mem
    rw [taken, built, append_assoc, singleton_append] at mem
    rcases mem_cons.mp (perm_middle.mem_iff.mp mem) with rfl | isOld
    · obtain ⟨node, isNode, isDesignated⟩ := (threaded.threads other
        (mem_append_left _ wasWaiting)).mem
      have inColumn : post.nodesOf other = (s.nodesOf other).map fun node =>
          if node.beginSeq = other.colNode then node.beginSubmit workerId else node := by
        unfold nodesOf
        rw [isTaken.key, isTaken.colId]
        exact c
      rw [inColumn]
      refine ⟨node.beginSubmit workerId, mem_map.mpr ⟨node, isNode, if_pos isDesignated⟩,
        isDesignated, w⟩
    have isMarked := threaded.marked other isOld
    rcases nodes other with same | changed
    · rw [same]
      exact isMarked
    rw [changed]
    exact isMarked.modify _ (fun _ => rfl) fun _ => w
  · intro other mem
    rw [built] at mem
    rw [entries]
    exact threaded.finished other mem

end

theorem visited (threaded : s.Threaded) {sub : Submission K}
    (mem : sub ∈ s.taken) :
    ∃ newer head older, s.nodesOf sub = newer ++ head :: older ∧
      head.beginSeq = sub.colNode ∧ head.ikeySeq ≠ 0 ∧
      Owned s.entries s.heads sub.trxnDeque head (older.takeWhile mergeable) ∧
      s.db.visited sub = some (head, older.takeWhile mergeable) := by
  obtain ⟨newer, head, older, whole, isHead, owned⟩ :=
    threaded.threads sub (mem_append_right _ mem)
  have nodup := threaded.nodes_distinct sub
  have isMarked := threaded.marked sub (mem_append_left _ mem)
  have marked := isMarked.of_mem nodup (by rw [whole]; simp) isHead
  refine ⟨newer, head, older, whole, isHead, marked, owned, ?_⟩
  rw [whole] at nodup
  have split := splitAtNode_of_append nodup
  unfold Db.visited
  rw [← isHead, show (s.db.column sub.key sub.colId).colList = _ from whole,
    split]

structure Built (before post : TrxnState K V) (pos : Nat)
    (sub built : Submission K) (newer older : List (ColumnNode V))
    (head : ColumnNode V) : Prop where
  atPosition : before.taken[pos]? = some sub
  whole : before.nodesOf sub = newer ++ head :: older
  isHead : head.beginSeq = sub.colNode
  key : built.key = sub.key
  colId : built.colId = sub.colId
  colNode : built.colNode = sub.colNode
  trxnGroupID : built.trxnGroupID =
    if head.transaction then
      (trxnInfo head (older.takeWhile mergeable) sub.trxnDeque).head.group
    else
      0
  reworked : before.db.Reworked post.db sub.key sub.colId
  column : post.db.column sub.key sub.colId =
    (before.db.column sub.key sub.colId).doVerticalMerge
      (before.db.snapshots.map Snapshot.seqNum) head.beginSeq
  queue : post.db.pendingReq = before.db.pendingReq
  taken : post.taken = before.taken.eraseIdx pos
  built : post.built = before.built ++ [built]
  batches : post.batches = before.batches
  entries : ∀ seqNum, post.entries seqNum =
    if seqNum ∈ (older.takeWhile mergeable).map ColumnNode.beginSeq then
      { before.entries seqNum with fate := .merged }
    else
      before.entries seqNum
  manifest : post.manifest =
    (trxnInfo head (older.takeWhile mergeable) sub.trxnDeque).merged.foldl
      (fun manifest trxn => manifest.decTrxnGroup trxn.group) before.manifest

theorem built_of_step (threaded : s.Threaded) {pos : Nat}
    (builds : s.build pos = some post) :
    ∃ sub built newer older head, Built s post pos sub built newer older
        head ∧ head.ikeySeq ≠ 0 ∧
      Owned s.entries s.heads sub.trxnDeque head (older.takeWhile mergeable) := by
  unfold TrxnState.build at builds
  cases found : s.taken[pos]? with
  | none => simp [found] at builds
  | some sub =>
    rw [found] at builds
    obtain ⟨newer, head, older, whole, isHead, marked, owned, visited⟩ :=
      threaded.visited (mem_of_getElem? found)
    have seqs : s.mergedSeqs sub =
        (older.takeWhile mergeable).map beginSeq := by
      unfold TrxnState.mergedSeqs
      rw [visited]
    unfold Db.buildRequest at builds
    simp only [visited, Option.map_some, Option.some.injEq, ← isHead, seqs] at builds
    obtain ⟨reworked, c⟩ := threaded.queued.reworked_setColumn
      ((threaded.queued.ordered sub.key sub.colId).reworked_doVerticalMerge whole
        (s.db.snapshots.map Snapshot.seqNum)).1
      (congrArg (fun s => s.db.tables) builds).symm
      (congrArg (fun s => s.db.sequenceNumber) builds).symm
      (congrArg (fun s => s.db.nextRequest) builds).symm
    refine ⟨sub,
      { sub with
        colNode := head.beginSeq
        trxnDeque := []
        trxnGroupID :=
          if head.transaction then
            (trxnInfo head (older.takeWhile mergeable) sub.trxnDeque).head.group
          else
            0 },
      newer, older, head, ⟨found, whole, isHead, rfl, rfl, isHead, rfl, reworked, c,
        ?_, ?_, ?_, ?_, ?_, ?_⟩, marked, owned⟩
    all_goals subst builds
    · rfl
    · rfl
    · rfl
    · rfl
    · exact fun seq => rfl
    apply manifest_of_groups _ rfl rfl rfl
    rw [TrxnManifest.foldl_groups]
    rfl

section Build

variable {pos : Nat} {sub built : Submission K}
  {newer older : List (ColumnNode V)} {head : ColumnNode V}

section

variable (builds : Built s post pos sub built newer older head)

include builds

theorem Built.mem : sub ∈ s.taken :=
  mem_of_getElem? builds.atPosition

theorem Built.takenPerm : s.taken.Perm (sub :: post.taken) := by
  obtain ⟨inside, isAt⟩ := List.getElem?_eq_some_iff.mp builds.atPosition
  rw [builds.taken, ← isAt]
  exact (List.getElem_cons_eraseIdx_perm inside).symm

theorem Built.colNodes :
    ((s.db.waiting ++ (s.taken ++ s.built)).map Submission.colNode).Perm
      ((post.db.waiting ++ (post.taken ++ post.built)).map Submission.colNode) := by
  rw [builds.reworked.waiting builds.queue, builds.built]
  simp only [map_append, map_cons, map_nil]
  apply List.Perm.append_left
  have moved := builds.takenPerm.map Submission.colNode
  rw [map_cons, ← builds.colNode] at moved
  refine (moved.append_right _).trans ?_
  rw [cons_append, ← append_assoc]
  exact (perm_append_singleton _ _).symm

end

section

variable (threaded : s.Threaded)
  (builds : Built s post pos sub built newer older head)

include threaded builds

theorem Built.nodes :
    ∃ kept, post.nodesOf sub =
      newer ++ head.clearTransaction :: (kept ++ stopAt (older.dropWhile mergeable)) := by
  have whole := builds.whole
  have nodup := threaded.nodes_distinct sub
  rw [whole] at nodup
  have merged : post.nodesOf sub =
      mergeList (s.db.snapshots.map Snapshot.seqNum) head.beginSeq
        (s.nodesOf sub) := by
    unfold nodesOf
    rw [builds.column]
    rfl
  rw [whole, mergeList_of_append nodup] at merged
  exact ⟨_, merged⟩

theorem thread_of_built (marked : head.ikeySeq ≠ 0)
    (owned : Owned s.entries s.heads sub.trxnDeque head (older.takeWhile
      mergeable)) {other : Submission K} (mem : other ∈ s.db.waiting ++ post.taken)
    (fewer : ∀ seq ∈ post.heads, seq ∈ s.heads)
    (apart : other.colNode ≠ sub.colNode) :
    Thread post.entries post.heads (post.nodesOf other) other.colNode other.trxnDeque := by
  have wasUnbuilt : other ∈ s.db.waiting ++ s.taken := by
    simp only [mem_append] at mem ⊢
    exact mem.imp_right fun left =>
      builds.takenPerm.mem_iff.mpr (mem_cons_of_mem _ left)
  have thread := threaded.threads other wasUnbuilt
  have isHead : other.colNode ∈ s.heads := mem_map_of_mem wasUnbuilt
  have same : ∀ seq, seq ∉ (older.takeWhile mergeable).map beginSeq →
      post.entries seq = s.entries seq := by
    intro _ notVisited
    rw [builds.entries, if_neg notVisited]
  have inColumn : ∀ node ∈ older.takeWhile mergeable, node ∈ s.nodesOf sub := by
    intro node visited
    rw [builds.whole]
    have := (takeWhile_sublist mergeable).subset visited
    simp [this]
  by_cases sameCol : sub.key = other.key ∧ sub.colId = other.colId
  · have pre : s.nodesOf other = newer ++ head :: older := by
      rw [← builds.whole]
      unfold nodesOf
      rw [sameCol.1, sameCol.2]
    obtain ⟨kept, nodes⟩ := builds.nodes threaded
    have afterwards : post.nodesOf other =
        newer ++ head.clearTransaction :: (kept ++ stopAt (older.dropWhile mergeable)) := by
      rw [← nodes]
      unfold nodesOf
      rw [sameCol.1, sameCol.2]
    have nodup := threaded.nodes_distinct other
    rw [pre] at thread nodup
    rw [afterwards]
    refine thread.merge nodup marked (by rw [builds.isHead]; exact apart) ?_ same fewer kept
    intro node visited isOther
    exact owned.skips node visited (isOther ▸ isHead)
  · have untouched : post.nodesOf other = s.nodesOf other := by
      unfold nodesOf
      rw [builds.reworked.others _ _ sameCol]
    rw [untouched]
    refine thread.congr ?_ fun node _ => fewer node.beginSeq
    intro node listed
    apply same
    intro isVisited
    obtain ⟨visited, inRun, sameSeq⟩ := mem_map.mp isVisited
    exact sameCol (threaded.queued.separate _ _ visited _ _ node (inColumn visited inRun)
      listed sameSeq)

theorem marked_of_built {other : Submission K}
    (isMarked : Marked (s.nodesOf other) other.colNode) :
    Marked (post.nodesOf other) other.colNode := by
  by_cases sameCol : sub.key = other.key ∧ sub.colId = other.colId
  · have same : ∀ {either : TrxnState K V},
        either.nodesOf other = either.nodesOf sub := by
      intro _
      unfold nodesOf
      rw [sameCol.1, sameCol.2]
    obtain ⟨kept, nodes⟩ := builds.nodes threaded
    rw [same, builds.whole] at isMarked
    rw [same, nodes]
    exact isMarked.merge kept
  · unfold nodesOf
    rw [builds.reworked.others _ _ sameCol]
    exact isMarked

theorem entry_of_built {other : Submission K}
    (isMarked : Marked (s.nodesOf other) other.colNode) :
    post.entries other.colNode = s.entries other.colNode := by
  rw [builds.entries, if_neg]
  intro isVisited
  obtain ⟨visited, inRun, sameSeq⟩ := mem_map.mp isVisited
  have inColumn : visited ∈ s.nodesOf sub := by
    rw [builds.whole]
    have := (takeWhile_sublist mergeable).subset inRun
    simp [this]
  obtain ⟨node, listed, isNode, -⟩ := id isMarked
  obtain ⟨sameKey, sameCol⟩ := threaded.queued.separate _ _ visited _ _ node inColumn listed
    (sameSeq.trans isNode.symm)
  have inOther : visited ∈ s.nodesOf other := by
    unfold nodesOf
    rw [← sameKey, ← sameCol]
    exact inColumn
  exact isMarked.of_mem (threaded.nodes_distinct other) inOther sameSeq
    (mergeable_iff.mp (mem_takeWhile_imp inRun)).1

end

theorem group_of_built (builds : Built s post pos sub built newer older head)
    (owned : Owned s.entries s.heads sub.trxnDeque head
      (older.takeWhile mergeable)) :
    built.trxnGroupID = (s.entries built.colNode).trxnId >>> tgidShift := by
  rw [builds.trxnGroupID, builds.colNode, ← builds.isHead]
  obtain ⟨-, flag⟩ := owned.applied head mem_cons_self
  cases flagged : head.transaction with
  | true =>
    rw [← owned.trxnInfo.1 flagged]
    rfl
  | false =>
    have noId : (s.entries head.beginSeq).trxnId = 0 := by
      by_contra isSet
      rw [flag.mpr isSet] at flagged
      cases flagged
    rw [noId]
    rfl

theorem of_built (threaded : s.Threaded)
    (builds : Built s post pos sub built newer older head)
    (marked : head.ikeySeq ≠ 0)
    (owned : Owned s.entries s.heads sub.trxnDeque head
      (older.takeWhile mergeable)) : post.Threaded := by
  have queued := threaded.queued
  have ordered := queued.ordered sub.key sub.colId
  obtain ⟨-, standing⟩ := ordered.reworked_doVerticalMerge builds.whole
    (s.db.snapshots.map Snapshot.seqNum)
  have waiting := builds.reworked.waiting builds.queue
  have takenPerm := builds.takenPerm
  have nodup := builds.colNodes.nodup_iff.mp threaded.distinct
  have isBuilt : built ∈ post.built := by
    rw [builds.built]
    simp
  have fewer : ∀ seq ∈ post.heads, seq ∈ s.heads := by
    unfold TrxnState.heads
    rw [waiting]
    intro _ mem
    simp only [map_append, mem_append] at mem ⊢
    exact mem.imp_right fun left =>
      (takenPerm.map Submission.colNode).mem_iff.mpr (mem_cons_of_mem _ left)
  have notHead : sub.colNode ∉ post.heads := by
    rw [← append_assoc, map_append] at nodup
    intro isHead
    exact (nodup_append.mp nodup).2.2 _ isHead _ (mem_map_of_mem isBuilt)
      builds.colNode.symm
  have builtMarked : Marked (s.nodesOf built) built.colNode := by
    unfold nodesOf
    rw [builds.key, builds.colId, builds.colNode]
    exact threaded.marked sub (mem_append_left _ builds.mem)
  refine ⟨queued.of_reworked builds.reworked builds.queue (by rw [builds.column]; rfl)
    (by rw [builds.column]; exact standing), nodup, ?_, ?_, ?_⟩
  · intro other mem
    rw [waiting] at mem
    refine threaded.thread_of_built builds marked owned mem fewer ?_
    intro isSame
    apply notHead
    rw [← isSame]
    unfold TrxnState.heads
    rw [waiting]
    exact mem_map_of_mem mem
  · intro other mem
    apply threaded.marked_of_built builds
    rw [builds.built, ← append_assoc] at mem
    rcases mem_append.mp mem with isOld | isNew
    · apply threaded.marked
      simp only [mem_append] at isOld ⊢
      exact isOld.imp_left fun left => takenPerm.mem_iff.mpr (mem_cons_of_mem _ left)
    rw [mem_singleton.mp isNew]
    exact builtMarked
  intro other mem
  rw [builds.built] at mem
  rcases mem_append.mp mem with isOld | isNew
  · rw [threaded.entry_of_built builds
      (threaded.marked other (mem_append_right _ isOld))]
    exact threaded.finished other isOld
  rw [mem_singleton.mp isNew, threaded.entry_of_built builds builtMarked]
  refine ⟨?_, group_of_built builds owned⟩
  rw [builds.colNode, ← builds.isHead]
  exact (owned.applied head mem_cons_self).1

end Build

structure Submitted (before post : TrxnState K V) (pos : Nat)
    (sub : Submission K) (ikeySeq kbOffset ivalueSize : Nat) : Prop where
  atPosition : before.built[pos]? = some sub
  assigned : kUnusedNextInternalKey ≤ ikeySeq
  reworked : before.db.Reworked post.db sub.key sub.colId
  column : post.db.column sub.key sub.colId =
    (before.db.column sub.key sub.colId).modifyNode sub.colNode
      (ColumnNode.updateColumnNode ikeySeq kbOffset ivalueSize)
  queue : post.db.pendingReq = before.db.pendingReq
  taken : post.taken = before.taken
  built : post.built = before.built.eraseIdx pos
  batches : post.batches = before.batches
  entries : post.entries = Function.update before.entries sub.colNode
    { before.entries sub.colNode with fate := .submitted }
  manifest : post.manifest =
    if sub.trxnGroupID ≠ 0 then
      before.manifest.decTrxnGroup sub.trxnGroupID
    else
      before.manifest

theorem submitted_of_step (threaded : s.Threaded) {pos ikeySeq kbOffset ivalueSize : Nat}
    (submits : s.submit pos ikeySeq kbOffset ivalueSize = some post) :
    ∃ sub, Submitted s post pos sub ikeySeq kbOffset ivalueSize := by
  unfold TrxnState.submit at submits
  cases found : s.built[pos]? with
  | none => simp [found] at submits
  | some sub =>
    rw [found] at submits
    by_cases reserved : ikeySeq < kUnusedNextInternalKey
    · simp [reserved] at submits
    simp only [if_neg reserved, Option.some.injEq] at submits
    have modified := (s.db.column sub.key sub.colId).reworked_modifyNode
      sub.colNode
      (fun node => (rfl : (node.updateColumnNode ikeySeq kbOffset ivalueSize).beginSeq =
        node.beginSeq))
      (fun _ isUnsplit => isUnsplit)
      (s.db.column sub.key sub.colId).requestNode
    obtain ⟨reworked, c⟩ := threaded.queued.reworked_setColumn modified
      (congrArg (fun s => s.db.tables) submits).symm
      (congrArg (fun s => s.db.sequenceNumber) submits).symm
      (congrArg (fun s => s.db.nextRequest) submits).symm
    refine ⟨sub, found, Nat.not_lt.mp reserved, reworked, c, ?_, ?_, ?_, ?_, ?_, ?_⟩
    all_goals subst submits
    · rfl
    · rfl
    · rfl
    · rfl
    · rfl
    apply manifest_of_groups _ rfl rfl rfl
    by_cases inGroup : sub.trxnGroupID ≠ 0
    · rw [if_pos inGroup, TrxnManifest.decTrxnGroup_groups]
      exact if_pos inGroup
    rw [if_neg inGroup]
    exact if_neg inGroup

section Submit

variable {pos ikeySeq kbOffset ivalueSize : Nat} {sub : Submission K}

theorem Submitted.builtPerm
    (sent : Submitted s post pos sub ikeySeq kbOffset ivalueSize) :
    s.built.Perm (sub :: post.built) := by
  obtain ⟨inside, isAt⟩ := List.getElem?_eq_some_iff.mp sent.atPosition
  rw [sent.built, ← isAt]
  exact (List.getElem_cons_eraseIdx_perm inside).symm

theorem of_submitted (threaded : s.Threaded)
    (sent : Submitted s post pos sub ikeySeq kbOffset ivalueSize) :
    post.Threaded := by
  have queued := threaded.queued
  have isBuilt := mem_of_getElem? sent.atPosition
  have assigned : ikeySeq ≠ 0 := by
    have := sent.assigned
    unfold kUnusedNextInternalKey at this
    omega
  have waiting := sent.reworked.waiting sent.queue
  have heads : post.heads = s.heads := by
    unfold TrxnState.heads
    rw [waiting, sent.taken]
  have fewer : ∀ other ∈ post.built, other ∈ s.built := fun other mem =>
    sent.builtPerm.mem_iff.mpr (mem_cons_of_mem _ mem)
  have c : (post.db.column sub.key sub.colId).colList =
      (s.db.column sub.key sub.colId).colList.map fun node =>
        if node.beginSeq = sub.colNode then
          node.updateColumnNode ikeySeq kbOffset ivalueSize
        else
          node := by
    rw [sent.column]
    rfl
  have nodes := nodesOf_of_modified sent.reworked c
  have isMarked := threaded.marked sub (mem_append_right _ isBuilt)
  have everywhere : ∀ (other : Submission K), ∀ node ∈ s.nodesOf other,
      node.beginSeq = sub.colNode → node.ikeySeq ≠ 0 := by
    intro other node listed isDesignated
    obtain ⟨own, inOwn, isOwn, -⟩ := id isMarked
    obtain ⟨sameKey, sameCol⟩ := queued.separate _ _ node _ _ own listed inOwn
      (isDesignated.trans isOwn.symm)
    have inSubmission : node ∈ s.nodesOf sub := by
      unfold nodesOf
      rw [← sameKey, ← sameCol]
      exact listed
    exact isMarked.of_mem (threaded.nodes_distinct sub) inSubmission isDesignated
  have standing : (post.db.column sub.key sub.colId).colList.head?.map
        (fun node => decide (node.ikeySeq = 0)) =
      (s.db.column sub.key sub.colId).colList.head?.map
        fun node => decide (node.ikeySeq = 0) := by
    rw [c, head?_map, Option.map_map]
    apply Option.map_congr
    intro node newest
    have listed : node ∈ s.nodesOf sub := mem_of_head? newest
    simp only [Function.comp_apply]
    split_ifs with isDesignated
    · have wasMarked := everywhere sub node listed isDesignated
      simp [updateColumnNode, assigned, wasMarked]
    · rfl
  have nodup := threaded.distinct
  rw [← append_assoc, map_append] at nodup
  obtain ⟨-, builtDistinct, apart⟩ := nodup_append.mp nodup
  have builtApart := nodup_cons.mp
    ((sent.builtPerm.map Submission.colNode).nodup_iff.mp builtDistinct)
  have elsewhere : ∀ seq, seq ≠ sub.colNode →
      post.entries seq = s.entries seq := by
    intro _ differs
    rw [sent.entries, Function.update_of_ne differs]
  refine ⟨queued.of_reworked sent.reworked sent.queue
    (by rw [sent.column]; rfl) standing, ?_, ?_, ?_, ?_⟩
  · rw [waiting, sent.taken, sent.built]
    exact threaded.distinct.sublist (((List.Sublist.refl _).append
      ((List.Sublist.refl _).append (eraseIdx_sublist _ _))).map _)
  · intro other mem
    rw [waiting, sent.taken] at mem
    have isOther := apart _ (mem_map_of_mem mem) _ (mem_map_of_mem isBuilt)
    have thread := (threaded.threads other mem).congr_of_marked elsewhere isOther
      (everywhere other)
    rw [heads]
    rcases nodes other with same | changed
    · rw [same]
      exact thread
    rw [changed]
    exact thread.modify (fun _ => rfl) (fun _ => rfl) (fun _ => assigned)
      (Or.inr (everywhere other))
  · intro other mem
    rw [sent.taken] at mem
    have isOld := threaded.marked other (by
      simp only [mem_append] at mem ⊢
      exact mem.imp_right (fewer other))
    rcases nodes other with same | changed
    · rw [same]
      exact isOld
    rw [changed]
    exact isOld.modify _ (fun _ => rfl) fun _ => assigned
  · intro other mem
    have isOther : other.colNode ≠ sub.colNode := by
      intro isSame
      exact builtApart.1 (isSame ▸ mem_map_of_mem mem)
    rw [elsewhere _ isOther]
    exact threaded.finished other (fewer other mem)

end Submit

end Worker

end Threaded

end TrxnState

end InsDb
