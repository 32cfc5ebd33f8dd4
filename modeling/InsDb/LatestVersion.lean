import InsDb.KeyHistory

/-!
# The latest version of a column

A read without a snapshot looks only at the newest node of a column that has one in memory: it
finds the node if that is an open Put, and otherwise nothing in memory.  What a write and the parts
of a worker's turn do to the newest node is therefore all that such a read can tell.
-/

namespace InsDb

open InsDb.Library List ColumnNode

variable {V : Type}

def latestVersion (nodes : List (ColumnNode V)) : Option (Designator V × Nat) :=
  (nodes.head?.filter fun node => node.requestType = .put ∧ node.endSeq = ulongMax).map
    ColumnNode.view

variable {node : ColumnNode V}

theorem latestVersion_cons_of_open {older : List (ColumnNode V)}
    (isPut : node.requestType = .put) (isOpen : node.endSeq = ulongMax) :
    latestVersion (node :: older) = some node.view := by
  simp [latestVersion, Option.filter_some, isPut, isOpen]

theorem latestVersion_cons_of_del {older : List (ColumnNode V)}
    (isDel : node.requestType = .del) : latestVersion (node :: older) = none := by
  simp [latestVersion, Option.filter_some, isDel]

variable {data : ColumnData V}

theorem putSeen_ulongMax {bound : Nat} (chain : Chain data.colList) (below : data.Below bound)
    (small : bound < ulongMax) :
    putSeen data.colList ulongMax = latestVersion data.colList := by
  unfold ColumnData.Below at below
  cases listed : data.colList with
  | nil => rfl
  | cons node =>
    rw [listed] at chain below
    obtain ⟨_, _⟩ := below node mem_cons_self
    have begins : node.beginSeq ≤ ulongMax := by omega
    cases kind : node.requestType with
    | del =>
      have cover := covers_iff.mpr ⟨begins, Or.inr (.inr kind)⟩
      rw [latestVersion_cons_of_del kind]
      simp [putSeen, find?_cons_of_pos cover, Option.filter_some, kind]
    | put =>
      by_cases isOpen : node.endSeq = ulongMax
      · have cover := covers_iff.mpr ⟨begins, Or.inl isOpen⟩
        rw [latestVersion_cons_of_open kind isOpen]
        simp [putSeen, find?_cons_of_pos cover, Option.filter_some, kind]
      have notCovering : ¬ node.covers ulongMax = true := by
        intro cover
        rcases (covers_iff.mp cover).2 with openEnd | later | isDel
        · exact isOpen openEnd
        · omega
        rw [kind] at isDel
        cases isDel
      rw [putSeen_cons_of_not_covers notCovering, putSeen_older chain begins]
      simp [latestVersion, Option.filter_some, isOpen]

def UserKey.latestSeen (user : UserKey V) (columns : List RowColumn) (colId : Nat) :
    Option (Designator V × Nat) :=
  if (user.columns colId).colList.isEmpty ∧ user.fetched = false then
    rowSeen columns colId ulongMax
  else
    latestVersion (user.columns colId).colList

section Reads

variable {info : BuilderInfo V} {bound : Nat} {flushed : Bool} {loaded : UserKey V}
  {row : Option Bytes}

theorem KeyReady.reads_latest (ready : KeyReady info bound flushed (some loaded) row)
    (small : bound < ulongMax) (col time : Nat) :
    keyReads (some loaded) (rowOf flushed row) col ulongMax time =
      bothFind (loaded.latestSeen (rowColumns (row.getD [])) col) := by
  have flushable := ready.flushable loaded rfl col
  have kept : ∀ node ∈ (loaded.columns col).colList, node.dropped = false :=
    fun node mem => (flushable.plain node mem).1
  have seen := putSeen_ulongMax flushable.wellFormed.chain flushable.below small
  unfold UserKey.latestSeen
  by_cases isFetched : loaded.fetched = true
  · rw [if_neg (by simp [isFetched]), ← seen]
    exact keyReads_memory time flushable.wellFormed kept (Or.inl isFetched)
  rw [Bool.not_eq_true] at isFetched
  by_cases isEmpty : (loaded.columns col).colList.isEmpty = true
  · have absent : (loaded.columns col).colList.find? (covers ulongMax) = none := by
      rw [isEmpty_iff.mp isEmpty]
      rfl
    rw [if_pos ⟨isEmpty, isFetched⟩, keyReads_of_absent time flushable.wellFormed absent, isFetched]
    exact ready.reads_row col ulongMax time
  rw [if_neg (fun both => isEmpty both.1), ← seen]
  have rowReads := ready.reads_row col ulongMax time
  cases isCol : rowColumn? (rowColumns (row.getD [])) col with
  | none =>
    apply keyReads_memory time flushable.wellFormed kept
    rw [rowReads]
    simp [rowSeen, isCol]
  | some c =>
    obtain ⟨mem, isColId⟩ := mem_of_rowColumn isCol
    cases isRow : row with
    | none =>
      rw [isRow] at mem
      simp [rowColumns] at mem
    | some bytes =>
      rw [isRow] at mem
      have nonempty : (loaded.columns col).colList ≠ [] := fun nil => isEmpty (by rw [nil]; rfl)
      obtain ⟨oldest, last⟩ := Option.isSome_iff_exists.mp (getLast?_isSome.mpr nonempty)
      have takes := ready.takes loaded bytes rfl isRow isFetched c mem
      rw [isColId] at takes
      have oldestBelow := (flushable.below oldest (mem_of_getLast? last)).1
      have found := (takes oldest last).covered ulongMax (Or.inr rfl) (by omega)
      obtain ⟨_, isVersion⟩ := Option.isSome_iff_exists.mp found
      rw [keyReads_of_put time flushable.wellFormed kept isVersion, isVersion]

end Reads

def ColumnNode.core (node : ColumnNode V) : ColumnNode V :=
  { node with
    transaction := false
    holdingIter := false
    trxnCommitted := false
    tgidSplit := false }

structure ColumnData.CoreKept (pre post : ColumnData V) : Prop where
  list : (post.colList.map ColumnNode.core).Sublist (pre.colList.map ColumnNode.core)
  newest : post.colList.head?.map ColumnNode.core = pre.colList.head?.map ColumnNode.core
  latest : post.latestColNode = pre.latestColNode

namespace ColumnData.CoreKept

variable {pre post : ColumnData V} {bound : Nat}

theorem exists_of_mem (kept : pre.CoreKept post) {node : ColumnNode V}
    (mem : node ∈ post.colList) : ∃ old ∈ pre.colList, old.core = node.core :=
  mem_map.mp (kept.list.subset (mem_map_of_mem mem))

theorem latestVersion (kept : pre.CoreKept post) :
    latestVersion post.colList = latestVersion pre.colList := by
  have newest := kept.newest
  unfold InsDb.latestVersion
  cases afterHead : post.colList.head? with
  | none =>
    rw [afterHead] at newest
    rw [Option.map_eq_none_iff.mp newest.symm]
  | some node =>
    rw [afterHead] at newest
    obtain ⟨old, isOld, same⟩ := Option.map_eq_some_iff.mp newest.symm
    have sameType : node.requestType = old.requestType := (congrArg requestType same).symm
    have sameEnd : node.endSeq = old.endSeq := (congrArg endSeq same).symm
    have sameView : node.view = old.view := (congrArg view same).symm
    rw [isOld]
    simp only [Option.filter_some, sameType, sameEnd]
    split_ifs
    · simp [sameView]
    · rfl

theorem flushable (kept : pre.CoreKept post) (flushable : pre.Flushable bound) :
    post.Flushable bound := by
  have intervals : (post.colList.map interval).Sublist (pre.colList.map interval) := by
    have mapped := kept.list.map interval
    rw [map_map, map_map] at mapped
    exact mapped
  refine ⟨⟨flushable.wellFormed.chain.of_intervals ?_ intervals, ?_⟩,
    flushable.below.of_intervals intervals, ?_, ?_, ?_⟩
  · intro node mem
    obtain ⟨old, oldMem, same⟩ := kept.exists_of_mem mem
    have wellFormed := flushable.wellFormed.chain.wellFormed old oldMem
    have core : old.core.WellFormed := ⟨wellFormed.begin_lt_max, wellFormed.begin_le_end,
      wellFormed.del_ends, wellFormed.pending_value⟩
    rw [same] at core
    exact ⟨core.begin_lt_max, core.begin_le_end, core.del_ends, core.pending_value⟩
  · have heads := congrArg (Option.map beginSeq) kept.newest
    rw [Option.map_map, Option.map_map] at heads
    exact (kept.latest.trans flushable.wellFormed.latest).trans heads.symm
  · intro node mem
    obtain ⟨old, oldMem, same⟩ := kept.exists_of_mem mem
    obtain ⟨notDropped, noTs⟩ := flushable.plain old oldMem
    exact ⟨(congrArg dropped same).symm.trans notDropped, (congrArg ts same).symm.trans noTs⟩
  · intro node isHead isPut
    have newest := kept.newest
    rw [isHead] at newest
    obtain ⟨old, isOld, same⟩ := Option.map_eq_some_iff.mp newest.symm
    have sameEnd : node.endSeq = old.endSeq := (congrArg endSeq same).symm
    have sameKey : node.ikeySeq = old.ikeySeq := (congrArg ikeySeq same).symm
    have sameRecent : node.recentColNodeDeleted = old.recentColNodeDeleted :=
      (congrArg recentColNodeDeleted same).symm
    rw [sameEnd, sameKey, sameRecent]
    exact flushable.newest old isOld ((congrArg requestType same).trans isPut)
  intro node mem isPut sent notMerged
  obtain ⟨old, oldMem, same⟩ := kept.exists_of_mem mem
  have sameKey : node.ikeySeq = old.ikeySeq := (congrArg ikeySeq same).symm
  rw [sameKey] at sent notMerged
  have block := flushable.stored old oldMem
    ((congrArg requestType same).trans isPut) sent notMerged
  have core : old.core.InKeyBlock := ⟨block.noUserValue, block.ikeySeq_lt, block.kbOffset_lt,
    block.ivalueSize_lt, block.begun⟩
  rw [same] at core
  exact ⟨core.noUserValue, core.ikeySeq_lt, core.kbOffset_lt, core.ivalueSize_lt, core.begun⟩

end ColumnData.CoreKept

theorem coreKept_doVerticalMerge (chain : Chain data.colList) (colNode : Nat) :
    data.CoreKept (data.doVerticalMerge [] colNode) := by
  have noneHeld : ∀ visited : List (ColumnNode V), mergeVisited [] visited = [] := by
    intro visited
    induction visited with
    | nil => rfl
    | cons node older ih => simpa [mergeVisited, Sweep.stab] using ih
  have stopped : ∀ rest : List (ColumnNode V), (stopAt rest).map core = rest.map core := by
    intro rest
    cases rest <;> rfl
  rcases split : splitAtNode colNode data.colList with ⟨newer, lower⟩
  cases lower with
  | nil =>
    have same : data.doVerticalMerge [] colNode = data := by
      simp [ColumnData.doVerticalMerge, mergeList, split]
    rw [same]
    exact ⟨List.Sublist.refl _, rfl, rfl⟩
  | cons head older =>
    have pieces := mergePieces_of_split chain split
    have nothing : (Sweep.stab head.beginSeq head.endSeq []).2 = [] := rfl
    have list : (data.doVerticalMerge [] colNode).colList =
        newer ++ head.clearTransaction :: stopAt (older.dropWhile mergeable) := by
      simp [ColumnData.doVerticalMerge, mergeList, split, nothing, noneHeld]
    refine ⟨?_, ?_, rfl⟩
    · rw [list, pieces.whole]
      simp only [map_append, map_cons, stopped]
      exact (List.Sublist.refl _).append (List.Sublist.cons_cons _ (sublist_append_right _ _))
    rw [list, pieces.whole]
    cases newer <;> rfl

theorem mem_closeNewest {seq : Nat} {nodes : List (ColumnNode V)}
    (mem : node ∈ closeNewest seq nodes) :
    ∃ old ∈ nodes, ∃ endSeq, node = { old with endSeq := endSeq } := by
  cases nodes with
  | nil => cases mem
  | cons old =>
    rcases mem_cons.mp mem with isNewest | isOlder
    · refine ⟨old, mem_cons_self, ?_⟩
      rw [isNewest]
      split_ifs
      · exact ⟨seq, rfl⟩
      · exact ⟨old.endSeq, rfl⟩
    · exact ⟨node, mem_cons_of_mem _ isOlder, node.endSeq, rfl⟩

/-- The column between `UpdateColumn` and the flags that `Store` sets. -/
def ColumnData.extended (data : ColumnData V) (node : ColumnNode V) : ColumnData V :=
  { data with
    colList := node.closeDelete :: closeNewest node.beginSeq data.colList
    latestColNode := some node.beginSeq }

structure UserKey.Accepted (pre post : UserKey V) (colId : Nat) (node : ColumnNode V) :
    Prop where
  column : ((pre.columns colId).extended node).CoreKept (post.columns colId)
  others : ∀ other, other ≠ colId → post.columns other = pre.columns other
  fetched : post.fetched = pre.fetched
  dirty : post.dirty = true

theorem updateColumn_cases (user : UserKey V) (col : Nat) (node : ColumnNode V)
    (force : Bool) (trxn : Transaction) (fresh : Nat) :
    ((user.columns col).cancels node force ∧
        user.updateColumn col node force trxn fresh = user) ∨
      user.Accepted (user.updateColumn col node force trxn fresh) col node := by
  by_cases cancelled : (user.columns col).cancels node force
  · refine .inl ⟨cancelled, ?_⟩
    unfold UserKey.updateColumn
    rw [ColumnData.updateColumn_of_cancels cancelled]
  refine .inr ?_
  obtain ⟨status, data, accepted, list, isStatus⟩ : ∃ status data, status ≠ .failInsert ∧
      data.colList = node.closeDelete :: closeNewest node.beginSeq (user.columns col).colList ∧
      (user.columns col).updateColumn node force = (status, data) := by
    rw [ColumnData.updateColumn_of_not_cancels cancelled]
    refine ⟨_, _, ?_, rfl, rfl⟩
    cases (user.columns col).colList.head? with
    | none => simp
    | some =>
      simp only [scheduleStatus]
      split_ifs <;> simp
  have flagged : ∀ (inTransaction : Bool) (splitAt : Option Nat) (nodes : List (ColumnNode V)),
      (nodes.map (flag node.beginSeq inTransaction splitAt)).map core = nodes.map core := by
    intro _ _ _
    rw [map_map]
    apply map_congr_left
    intro _ _
    simp only [Function.comp_apply, flag]
    split_ifs <;> rfl
  have cores : ((data.record node.beginSeq trxn fresh
      (data.scheduling status trxn.group)).colList).map core =
        ((user.columns col).extended node).colList.map core := by
    rw [ColumnData.record, flagged, list]
    rfl
  have changed : user.updateColumn col node force trxn fresh =
      ⟨(user.setColumn col (data.record node.beginSeq trxn fresh
        (data.scheduling status trxn.group))).columns, true, user.fetched⟩ := by
    unfold UserKey.updateColumn
    rw [isStatus]
    cases status with
    | failInsert => exact absurd rfl accepted
    | _ => rfl
  rw [changed]
  refine ⟨?_, ?_, rfl, rfl⟩
  · rw [UserKey.setColumn_columns, if_pos rfl]
    refine ⟨?_, ?_, rfl⟩
    · rw [cores]
    · rw [← head?_map, ← head?_map, cores]
  intro _ differs
  rw [UserKey.setColumn_columns, if_neg differs]

theorem UserKey.Accepted.column_ne_nil {pre post : UserKey V} {col : Nat}
    (accepted : pre.Accepted post col node) :
    (post.columns col).colList ≠ [] := by
  intro empty
  have newest := accepted.column.newest
  rw [empty] at newest
  cases newest

theorem Update.node_zero_ts (update : Update V) (seq : Nat) :
    (update.node 0 seq).ts = 0 ∧ (update.node 0 seq).dropped = false ∧
      (update.node 0 seq).ikeySeq = 0 ∧
      (update.node 0 seq).recentColNodeDeleted = false := by
  cases update <;> exact ⟨rfl, rfl, rfl, rfl⟩

theorem flushable_extended {bound : Nat} (flushable : data.Flushable bound) (update : Update V)
    (small : bound + 1 < ulongMax) :
    (data.extended (update.node 0 (bound + 1))).Flushable (bound + 1) := by
  have begins := update.node_beginSeq 0 (bound + 1)
  have openEnd := update.node_endSeq 0 (bound + 1)
  obtain ⟨noTs, notDropped, pending, notRecent⟩ := update.node_zero_ts (bound + 1)
  have fresh : bound < (update.node 0 (bound + 1)).beginSeq := by omega
  have chain := flushable.wellFormed.chain.update flushable.below fresh (by omega) openEnd
    (update.node_valued 0 (bound + 1))
  have ended := flushable.wellFormed.chain.closeNewest_ended flushable.below fresh
  have closed : (update.node 0 (bound + 1)).closeDelete.ts = 0 ∧
      (update.node 0 (bound + 1)).closeDelete.dropped = false ∧
      (update.node 0 (bound + 1)).closeDelete.ikeySeq = 0 ∧
      (update.node 0 (bound + 1)).closeDelete.recentColNodeDeleted = false := by
    unfold closeDelete
    split_ifs
    · exact ⟨noTs, notDropped, pending, notRecent⟩
    · exact ⟨noTs, notDropped, pending, notRecent⟩
  refine ⟨⟨chain, ?_⟩, ?_, ?_, ?_, ?_⟩
  · simp [ColumnData.extended]
  · intro node mem
    rcases mem_cons.mp mem with isNew | isOld
    · rw [isNew, closeDelete_beginSeq, begins]
      refine ⟨Nat.le_refl _, ?_⟩
      unfold closeDelete
      split_ifs
      · exact .inr (Nat.le_of_eq begins)
      · exact .inl openEnd
    · obtain ⟨_, _⟩ := ended node isOld
      exact ⟨by omega, Or.inr (by omega)⟩
  · intro node mem
    rcases mem_cons.mp mem with isNew | isOld
    · rw [isNew]
      exact ⟨closed.2.1, closed.1⟩
    obtain ⟨old, oldMem, _, isOld⟩ := mem_closeNewest isOld
    rw [isOld]
    exact flushable.plain old oldMem
  · intro _ isHead isPut
    rw [← Option.some.inj isHead] at isPut ⊢
    rw [closeDelete_requestType] at isPut
    have isOpen : (update.node 0 (bound + 1)).closeDelete.endSeq = ulongMax := by
      unfold closeDelete
      rw [if_neg (by rw [isPut]; simp)]
      exact openEnd
    rw [closed.2.2.1, closed.2.2.2, isOpen]
    exact ⟨fun _ => by decide, by simp⟩
  · intro _ mem isPut sent notMerged
    rcases mem_cons.mp mem with isNew | isOld
    · rw [isNew, closed.2.2.1] at sent
      exact absurd sent (by decide)
    obtain ⟨old, oldMem, _, isOld⟩ := mem_closeNewest isOld
    rw [isOld] at isPut sent notMerged ⊢
    have block := flushable.stored old oldMem isPut sent notMerged
    exact ⟨block.noUserValue, block.ikeySeq_lt, block.kbOffset_lt, block.ivalueSize_lt, block.begun⟩

theorem latestVersion_extended (data : ColumnData V) (update : Update V) (seq : Nat) :
    latestVersion (data.extended (update.node 0 seq)).colList =
      match update with
      | .put v => some (.inMemory v, seq)
      | .del => none := by
  cases update with
  | put => exact latestVersion_cons_of_open rfl rfl
  | del => exact latestVersion_cons_of_del rfl

structure KeepsFlushable (change : ColumnNode V → ColumnNode V) : Prop
    extends KeepsInterval change where
  ts : ∀ node, (change node).ts = node.ts
  dropped : ∀ node, (change node).dropped = node.dropped
  recent : ∀ node, (change node).recentColNodeDeleted = node.recentColNodeDeleted
  notMerged : ∀ node, (change node).ikeySeq ≠ ulongMax

theorem flushable_modifyNode {bound colNode : Nat} {change : ColumnNode V → ColumnNode V}
    (flushable : data.Flushable bound) (keeps : KeepsFlushable change)
    (stored : ∀ node ∈ data.colList, kUnusedNextInternalKey ≤ (change node).ikeySeq →
      (change node).InKeyBlock) :
    (data.modifyNode colNode change).Flushable bound := by
  have intervals := modifyNode_intervals keeps.toKeepsInterval data colNode
  refine ⟨wellFormed_modifyNode keeps.toKeepsInterval flushable.wellFormed colNode,
    flushable.below.of_intervals (by rw [intervals]), ?_, ?_, ?_⟩
  · intro node mem
    obtain ⟨old, oldMem, same⟩ := mem_map.mp mem
    rw [← same]
    split_ifs
    · rw [keeps.dropped, keeps.ts]
      exact flushable.plain old oldMem
    · exact flushable.plain old oldMem
  · intro _ isHead isPut
    rw [ColumnData.modifyNode, head?_map] at isHead
    obtain ⟨old, isOld, same⟩ := Option.map_eq_some_iff.mp isHead
    rw [← same] at isPut ⊢
    split_ifs at isPut ⊢
    · have ends := (Prod.mk.inj (keeps.interval old)).2
      rw [keeps.requestType] at isPut
      rw [keeps.recent, ends]
      exact ⟨fun _ => keeps.notMerged old, (flushable.newest old isOld isPut).2⟩
    · exact flushable.newest old isOld isPut
  intro _ mem isPut sent notMerged
  obtain ⟨old, oldMem, same⟩ := mem_map.mp mem
  rw [← same] at isPut sent notMerged ⊢
  split_ifs at isPut sent notMerged ⊢
  · exact stored old oldMem sent
  · exact flushable.stored old oldMem isPut sent notMerged

theorem keepsFlushable_beginSubmit {workerId : Nat} (working : workerId ≠ 0)
    (small : workerId < kUnusedNextInternalKey) :
    KeepsFlushable (ColumnNode.beginSubmit workerId : ColumnNode V → _) where
  toKeepsInterval := keepsInterval_beginSubmit working
  ts _ := rfl
  dropped _ := rfl
  recent _ := rfl
  notMerged _ := by
    change workerId ≠ ulongMax
    unfold kUnusedNextInternalKey at small
    unfold ulongMax
    omega

theorem keepsFlushable_updateColumnNode {ikeySeq : Nat}
    (sent : kUnusedNextInternalKey ≤ ikeySeq) (small : ikeySeq < ulongMax)
    (kbOffset ivalueSize : Nat) :
    KeepsFlushable (ColumnNode.updateColumnNode ikeySeq kbOffset ivalueSize :
      ColumnNode V → _) where
  toKeepsInterval := by
    apply keepsInterval_updateColumnNode
    unfold kUnusedNextInternalKey at sent
    omega
  ts _ := rfl
  dropped _ := rfl
  recent _ := rfl
  notMerged _ := Nat.ne_of_lt small

theorem latestVersion_modifyNode {change : ColumnNode V → ColumnNode V}
    (keeps : KeepsInterval change) (data : ColumnData V) (colNode : Nat) :
    latestVersion (data.modifyNode colNode change).colList = (data.colList.head?.filter fun node =>
        node.requestType = .put ∧ node.endSeq = ulongMax).map
          fun node => (if node.beginSeq = colNode then change node else node).view := by
  unfold latestVersion
  rw [ColumnData.modifyNode, head?_map]
  cases data.colList.head? with
  | none => rfl
  | some node =>
    have sameType : (if node.beginSeq = colNode then change node else node).requestType =
        node.requestType := by
      split_ifs
      · exact keeps.requestType node
      · rfl
    have sameEnd : (if node.beginSeq = colNode then change node else node).endSeq =
        node.endSeq := by
      split_ifs
      · exact (Prod.mk.inj (keeps.interval node)).2
      · rfl
    simp only [Option.map_some, Option.filter_some, sameType, sameEnd]
    cases decide (node.requestType = .put ∧ node.endSeq = ulongMax) <;> rfl

end InsDb
