import Mathlib.Data.List.InsertIdx
import InsDb.RequestQueue

/-!
# Workers and the requests that wait

Taking a request, merging its nodes and submitting one of them rework a single column; the
order of the other nodes, the open requests and what the waiting requests would submit stay
as they are.  `Db.waiting` lists the latter, and the last part says how an accepted update
changes the list.
-/

namespace InsDb

open InsDb.Library List ColumnNode

variable {K V : Type} [LinearOrder K]

structure ColumnData.Reworked (pre post : ColumnData V) : Prop where
  seqs : (post.colList.map ColumnNode.beginSeq).Sublist (pre.colList.map ColumnNode.beginSeq)
  newest : post.colList.head?.map ColumnNode.beginSeq =
    pre.colList.head?.map ColumnNode.beginSeq
  unsplit : ∀ node, post.colList.head? = some node → ∃ old,
    pre.colList.head? = some old ∧ (old.tgidSplit = false → node.tgidSplit = false)
  latest : post.latestColNode = pre.latestColNode

structure Db.Reworked (pre post : Db K V) (key : K) (col : Nat) : Prop where
  nonempty : post.tables ≠ []
  sequence : post.sequenceNumber = pre.sequenceNumber
  nextRequest : post.nextRequest = pre.nextRequest
  column : (pre.column key col).Reworked (post.column key col)
  others : ∀ other otherCol, ¬ (key = other ∧ col = otherCol) →
    post.column other otherCol = pre.column other otherCol

namespace Db.Reworked

variable {pre post : Db K V} {key : K} {col : Nat}

section

variable (reworked : pre.Reworked post key col)

include reworked

theorem seqs (other : K) (col' : Nat) :
    ((post.column other col').colList.map ColumnNode.beginSeq).Sublist
      ((pre.column other col').colList.map ColumnNode.beginSeq) := by
  by_cases same : key = other ∧ col = col'
  · obtain ⟨rfl, rfl⟩ := same
    exact reworked.column.seqs
  · rw [reworked.others other col' same]

theorem mem_before {other : K} {col' : Nat} {node : ColumnNode V}
    (mem : node ∈ (post.column other col').colList) :
    ∃ old ∈ (pre.column other col').colList, old.beginSeq = node.beginSeq :=
  mem_map.mp ((reworked.seqs other col').subset
    (mem_map_of_mem (f := beginSeq) mem))

theorem ordered (queued : pre.Queued) (other : K) (col' : Nat) :
    (post.column other col').Ordered post.sequenceNumber := by
  have old := queued.ordered other col'
  rw [reworked.sequence]
  refine ⟨?_, ?_, ?_, ?_⟩
  · have descending := old.descending
    rw [← pairwise_map (f := beginSeq) (R := fun newer older => older < newer)]
      at descending ⊢
    exact descending.sublist (reworked.seqs other col')
  · intro node mem
    obtain ⟨original, isOriginal, sameSeq⟩ := reworked.mem_before mem
    rw [← sameSeq]
    exact old.bounded original isOriginal
  · by_cases same : key = other ∧ col = col'
    · obtain ⟨rfl, rfl⟩ := same
      rw [reworked.column.latest, reworked.column.newest]
      exact old.latest
    rw [reworked.others other col' same]
    exact old.latest
  intro node newest
  by_cases same : key = other ∧ col = col'
  · obtain ⟨rfl, rfl⟩ := same
    obtain ⟨original, isOriginal, keeps⟩ := reworked.column.unsplit node newest
    exact keeps (old.unsplit original isOriginal)
  rw [reworked.others other col' same] at newest
  exact old.unsplit node newest

theorem separate (queued : pre.Queued) (left : K) (leftCol : Nat) (leftNode : ColumnNode V)
    (right : K) (rightCol : Nat) (rightNode : ColumnNode V)
    (inLeft : leftNode ∈ (post.column left leftCol).colList)
    (inRight : rightNode ∈ (post.column right rightCol).colList)
    (sameSeq : leftNode.beginSeq = rightNode.beginSeq) : left = right ∧ leftCol = rightCol := by
  obtain ⟨leftOld, inLeftOld, leftSeq⟩ := reworked.mem_before inLeft
  obtain ⟨rightOld, inRightOld, rightSeq⟩ := reworked.mem_before inRight
  exact queued.separate _ _ leftOld _ _ rightOld inLeftOld inRightOld
    ((leftSeq.trans sameSeq).trans rightSeq.symm)

end

end Db.Reworked

theorem Db.Queued.of_reworked {pre post : Db K V} {key : K} {col : Nat}
    (queued : pre.Queued) (reworked : pre.Reworked post key col)
    (sameQueue : post.pendingReq = pre.pendingReq)
    (sameRequest : (post.column key col).requestNode = (pre.column key col).requestNode)
    (standing : (post.column key col).colList.head?.map (fun node => decide (node.ikeySeq = 0)) =
      (pre.column key col).colList.head?.map fun node => decide (node.ikeySeq = 0)) :
    post.Queued := by
  have rq : ∀ other col',
      (post.column other col').requestNode = (pre.column other col').requestNode := by
    intro other col'
    by_cases same : key = other ∧ col = col'
    · obtain ⟨rfl, rfl⟩ := same
      exact sameRequest
    · rw [reworked.others other col' same]
  have pending : ∀ other col',
      (∃ node, (post.column other col').colList.head? = some node ∧ node.ikeySeq = 0) ↔
        ∃ node, (pre.column other col').colList.head? = some node ∧ node.ikeySeq = 0 := by
    intro other col'
    by_cases same : key = other ∧ col = col'
    · obtain ⟨rfl, rfl⟩ := same
      have asMap : ∀ data : ColumnData V,
          (∃ node, data.colList.head? = some node ∧ node.ikeySeq = 0) ↔
            data.colList.head?.map (fun node => decide (node.ikeySeq = 0)) = some true := by
        intro _
        simp [Option.map_eq_some_iff]
      rw [asMap, asMap, standing]
    · rw [reworked.others other col' same]
  refine ⟨reworked.nonempty, reworked.ordered queued, reworked.separate queued, ?_, ?_, ?_, ?_, ?_⟩
  · unfold Db.requests
    rw [sameQueue]
    exact queued.distinct
  · unfold Db.requests
    rw [sameQueue, reworked.nextRequest]
    exact queued.fresh
  · intro other col' node newest waits
    rw [rq]
    obtain ⟨old, isOld, oldWaits⟩ := (pending other col').mp ⟨node, newest, waits⟩
    exact queued.pending other col' old isOld oldWaits
  · intro other col' id isRq
    rw [rq] at isRq
    rw [sameQueue]
    exact queued.waiting other col' id isRq
  intro id waiting mem isOpen
  rw [sameQueue] at mem
  rw [rq, pending]
  exact queued.openRequest id waiting mem isOpen

theorem ColumnData.reworked_modifyNode (data : ColumnData V) (designated : Nat)
    {change : ColumnNode V → ColumnNode V}
    (sameSeq : ∀ node, (change node).beginSeq = node.beginSeq)
    (unsplit : ∀ node, node.tgidSplit = false → (change node).tgidSplit = false)
    (rq : Option Nat) :
    data.Reworked { data.modifyNode designated change with requestNode := rq } := by
  have seqs : (data.modifyNode designated change).colList.map beginSeq =
      data.colList.map beginSeq := by
    simp only [ColumnData.modifyNode, map_map]
    apply map_congr_left
    intro node _
    simp only [Function.comp_apply]
    split_ifs
    · exact sameSeq node
    · rfl
  refine ⟨?_, ?_, ?_, rfl⟩
  · rw [seqs]
  · rw [← head?_map, ← head?_map, seqs]
  intro _ newest
  simp only [ColumnData.modifyNode, head?_map] at newest
  obtain ⟨old, isOld, same⟩ := Option.map_eq_some_iff.mp newest
  refine ⟨old, isOld, ?_⟩
  intro isUnsplit
  rw [← same]
  split_ifs
  · exact unsplit old isUnsplit
  · exact isUnsplit

theorem ColumnData.Ordered.reworked_doVerticalMerge {data : ColumnData V} {bound : Nat}
    (ordered : data.Ordered bound) {newer older : List (ColumnNode V)}
    {head : ColumnNode V} (whole : data.colList = newer ++ head :: older)
    (snaps : List Nat) :
    data.Reworked (data.doVerticalMerge snaps head.beginSeq) ∧
      (data.doVerticalMerge snaps head.beginSeq).colList.head?.map
          (fun node => decide (node.ikeySeq = 0)) =
        data.colList.head?.map fun node => decide (node.ikeySeq = 0) := by
  have nodup := ordered.distinct
  rw [whole] at nodup
  have merged : (data.doVerticalMerge snaps head.beginSeq).colList =
      newer ++ head.clearTransaction ::
        (mergeVisited (Sweep.stab head.beginSeq head.endSeq snaps).2
            (older.takeWhile mergeable) ++ stopAt (older.dropWhile mergeable)) := by
    unfold ColumnData.doVerticalMerge
    rw [whole]
    exact mergeList_of_append nodup
  refine ⟨⟨?_, ?_, ?_, rfl⟩, ?_⟩
  · have intervals := ((mergeVisited_intervals (Sweep.stab head.beginSeq head.endSeq snaps).2
      (older.takeWhile mergeable)).map Prod.fst)
    rw [map_map, map_map] at intervals
    have stopped := congrArg (map Prod.fst) (stopAt_intervals (older.dropWhile mergeable))
    rw [map_map, map_map] at stopped
    have parts : (older.takeWhile mergeable).map beginSeq ++
        (older.dropWhile mergeable).map beginSeq = older.map beginSeq := by
      rw [← map_append, takeWhile_append_dropWhile]
    rw [merged, whole]
    simp only [map_append, map_cons]
    rw [← parts]
    have sameStop : (stopAt (older.dropWhile mergeable)).map beginSeq =
        (older.dropWhile mergeable).map beginSeq := stopped
    rw [sameStop]
    have lower := intervals.append
      (List.Sublist.refl ((older.dropWhile mergeable).map beginSeq))
    exact (List.Sublist.refl _).append (List.Sublist.cons_cons _ lower)
  · rw [merged, whole]
    cases newer <;> rfl
  · rw [merged, whole]
    cases newer with
    | nil =>
      intro _ newest
      obtain rfl := Option.some.inj newest
      exact ⟨head, rfl, id⟩
    | cons first =>
      intro _ newest
      exact ⟨first, rfl, fun isUnsplit => Option.some.inj newest ▸ isUnsplit⟩
  · rw [merged, whole]
    cases newer <;> rfl

theorem Db.Queued.reworked_setColumn {db post : Db K V} (queued : db.Queued) {key : K}
    {col : Nat} {data : ColumnData V} (c : (db.column key col).Reworked data)
    (ts : post.tables = (db.setColumn key col data).tables)
    (sequence : post.sequenceNumber = db.sequenceNumber)
    (nextRequest : post.nextRequest = db.nextRequest) :
    db.Reworked post key col ∧ post.column key col = data := by
  have columns : ∀ other col', post.column other col' =
      if key = other ∧ col = col' then data else db.column other col' := by
    intro other col'
    rw [← Db.column_setColumn queued.nonempty key col data other col']
    unfold Db.column Db.findUserKey Db.findSKTableMem Db.beginKeys
    rw [ts]
  have atColumn : post.column key col = data := by
    rw [columns, if_pos ⟨rfl, rfl⟩]
  refine ⟨⟨?_, sequence, nextRequest, ?_, ?_⟩, atColumn⟩
  · rw [ts]
    exact Db.setUserKey_tables_ne_nil queued.nonempty key _
  · rw [atColumn]
    exact c
  intro _ _ differs
  rw [columns, if_neg differs]

structure Taken (pre post : Db K V) (workerId pos id : Nat)
    (rq : RequestNode K) (sub : Submission K) : Prop where
  atPosition : pre.pendingReq[pos]? = some (id, rq)
  designated : pre.designated rq = some sub.colNode
  key : sub.key = rq.key
  colId : sub.colId = rq.colId
  trxnDeque : sub.trxnDeque = rq.trxnDeque
  reworked : pre.Reworked post rq.key rq.colId
  column : post.column rq.key rq.colId =
    { (pre.column rq.key rq.colId).modifyNode sub.colNode
        (ColumnNode.beginSubmit workerId) with
      requestNode :=
        if rq.latestColNode.isSome then
          (pre.column rq.key rq.colId).requestNode
        else
          none }
  queue : post.pendingReq = pre.pendingReq.eraseIdx pos
  trxns : post.trxns = pre.trxns

theorem Db.Queued.taken {db post : Db K V} (queued : db.Queued) {workerId pos : Nat}
    {sub : Submission K}
    (takes : db.takeRequest workerId pos = some (sub, post)) :
    ∃ id rq, Taken db post workerId pos id rq sub := by
  unfold Db.takeRequest at takes
  cases found : db.pendingReq[pos]? with
  | none => simp [found] at takes
  | some waiting =>
    obtain ⟨id, rq⟩ := waiting
    rw [found] at takes
    obtain ⟨colNode, designated, result⟩ := Option.map_eq_some_iff.mp takes
    obtain ⟨isSubmission, isAfter⟩ := Prod.mk.inj result
    have modified := (db.column rq.key rq.colId).reworked_modifyNode colNode
      (fun node => (rfl : (node.beginSubmit workerId).beginSeq = node.beginSeq))
      (fun _ _ => rfl)
      (if rq.latestColNode.isSome then
        (db.column rq.key rq.colId).requestNode else none)
    have ts := (congrArg Db.tables isAfter).symm
    have sequence := (congrArg Db.sequenceNumber isAfter).symm
    have nextRequest := (congrArg Db.nextRequest isAfter).symm
    obtain ⟨reworked, c⟩ := queued.reworked_setColumn modified ts sequence nextRequest
    subst isSubmission
    subst isAfter
    exact ⟨id, rq, found, designated, rfl, rfl, rfl, reworked, c, rfl, rfl⟩

namespace Taken

variable {pre post : Db K V} {workerId pos id : Nat} {rq : RequestNode K}
  {sub : Submission K}

section

variable (taken : Taken pre post workerId pos id rq sub)

include taken

theorem mem_of_mem {other : Nat × RequestNode K} (mem : other ∈ post.pendingReq) :
    other ∈ pre.pendingReq := by
  rw [taken.queue] at mem
  exact (eraseIdx_sublist _ _).subset mem

theorem mem_of_ne {other : Nat × RequestNode K} (mem : other ∈ pre.pendingReq)
    (differs : other ≠ (id, rq)) : other ∈ post.pendingReq := by
  obtain ⟨i, isOther⟩ := mem_iff_getElem?.mp mem
  rw [taken.queue, mem_eraseIdx_iff_getElem?]
  refine ⟨i, ?_, isOther⟩
  rintro rfl
  rw [taken.atPosition] at isOther
  exact differs (Option.some.inj isOther).symm

theorem id_not_mem (queued : pre.Queued) : id ∉ post.requests := by
  have removed : post.requests = pre.requests.eraseIdx pos := by
    unfold Db.requests
    rw [taken.queue, eraseIdx_map]
  have atPosition : pre.requests[pos]? = some id := by
    unfold Db.requests
    rw [getElem?_map, taken.atPosition]
    rfl
  rw [removed, mem_eraseIdx_iff_getElem?]
  rintro ⟨_, elsewhere, isId⟩
  obtain ⟨_, atIndex⟩ := List.getElem?_eq_some_iff.mp isId
  obtain ⟨_, atTaken⟩ := List.getElem?_eq_some_iff.mp atPosition
  exact elsewhere (queued.distinct.getElem_inj_iff.mp (atIndex.trans atTaken.symm))

theorem newest_of_open (queued : pre.Queued) (isOpen : rq.latestColNode = none)
    {newest : ColumnNode V}
    (isNewest : (pre.column rq.key rq.colId).colList.head? = some newest) :
    newest.beginSeq = sub.colNode := by
  have designated := taken.designated
  unfold Db.designated at designated
  rw [isOpen, Option.none_or, (queued.ordered _ _).latest, isNewest] at designated
  exact Option.some.inj designated

theorem newest {node : ColumnNode V}
    (isNewest : (post.column rq.key rq.colId).colList.head? = some node)
    (w : workerId ≠ 0) (waits : node.ikeySeq = 0) :
    (pre.column rq.key rq.colId).colList.head? = some node ∧
      node.beginSeq ≠ sub.colNode := by
  rw [taken.column] at isNewest
  simp only [ColumnData.modifyNode, head?_map] at isNewest
  obtain ⟨_, isOld, same⟩ := Option.map_eq_some_iff.mp isNewest
  split_ifs at same with isDesignated
  · rw [← same] at waits
    exact absurd waits w
  · exact ⟨same ▸ isOld, same ▸ isDesignated⟩

theorem newest_of_ne {node : ColumnNode V}
    (isNewest : (pre.column rq.key rq.colId).colList.head? = some node)
    (differs : node.beginSeq ≠ sub.colNode) :
    (post.column rq.key rq.colId).colList.head? = some node := by
  rw [taken.column]
  simp [ColumnData.modifyNode, isNewest, if_neg differs]

end

end Taken

theorem Db.Queued.of_taken {pre post : Db K V} {workerId pos id : Nat}
    {rq : RequestNode K} {sub : Submission K} (queued : pre.Queued)
    (taken : Taken pre post workerId pos id rq sub) (w : workerId ≠ 0)
    (fixedBelow : rq.latestColNode.isSome = true → ∀ newest,
      (pre.column rq.key rq.colId).colList.head? = some newest →
        newest.ikeySeq = 0 → newest.beginSeq ≠ sub.colNode) : post.Queued := by
  have isRq := mem_of_getElem? taken.atPosition
  have requestNode : ∀ isSet : rq.latestColNode.isSome = true,
      (post.column rq.key rq.colId).requestNode =
        (pre.column rq.key rq.colId).requestNode := by
    intro isSet
    rw [taken.column]
    exact if_pos isSet
  have requestNode_of_open : rq.latestColNode = none →
      (post.column rq.key rq.colId).requestNode = none := by
    intro isOpen
    rw [taken.column, isOpen]
    rfl
  refine ⟨taken.reworked.nonempty, taken.reworked.ordered queued, taken.reworked.separate queued,
    ?_, ?_, ?_, ?_, ?_⟩
  · unfold Db.requests
    rw [taken.queue]
    exact queued.distinct.sublist ((eraseIdx_sublist _ _).map _)
  · intro other mem
    rw [taken.reworked.nextRequest]
    obtain ⟨_, isPair, rfl⟩ := mem_map.mp mem
    exact queued.fresh _ (mem_map_of_mem (taken.mem_of_mem isPair))
  · intro other col' node isNewest waits
    by_cases same : rq.key = other ∧ rq.colId = col'
    · obtain ⟨rfl, rfl⟩ := same
      obtain ⟨wasNewest, differs⟩ := taken.newest isNewest w waits
      cases isSet : rq.latestColNode with
      | none => exact absurd (taken.newest_of_open queued isSet wasNewest) differs
      | some =>
        rw [requestNode (by rw [isSet]; rfl)]
        exact queued.pending _ _ node wasNewest waits
    · rw [taken.reworked.others other col' same] at isNewest ⊢
      exact queued.pending other col' node isNewest waits
  · intro other col' otherId isOther
    by_cases same : rq.key = other ∧ rq.colId = col'
    · obtain ⟨rfl, rfl⟩ := same
      cases isSet : rq.latestColNode with
      | none =>
        rw [requestNode_of_open isSet] at isOther
        cases isOther
      | some =>
        rw [requestNode (by rw [isSet]; rfl)] at isOther
        obtain ⟨linked, isLinked, sameKey, sameCol, isOpen⟩ := queued.waiting _ _ otherId isOther
        refine ⟨linked, taken.mem_of_ne isLinked ?_, sameKey, sameCol, isOpen⟩
        intro isTaken
        rw [(Prod.mk.inj isTaken).2, isSet] at isOpen
        cases isOpen
    rw [taken.reworked.others other col' same] at isOther
    obtain ⟨linked, isLinked, sameKey, sameCol, isOpen⟩ :=
      queued.waiting other col' otherId isOther
    refine ⟨linked, taken.mem_of_ne isLinked ?_, sameKey, sameCol, isOpen⟩
    intro isTaken
    rw [(Prod.mk.inj isTaken).2] at sameKey sameCol
    exact same ⟨sameKey, sameCol⟩
  · intro otherId other mem isOpen
    have wasMember := taken.mem_of_mem mem
    have idDiffers : otherId ≠ id := by
      rintro rfl
      exact taken.id_not_mem queued (mem_map_of_mem (f := Prod.fst) mem)
    obtain ⟨isOther, node, isNewest, waits⟩ := queued.openRequest otherId other wasMember isOpen
    by_cases same : rq.key = other.key ∧ rq.colId = other.colId
    · rw [← same.1, ← same.2] at isOther isNewest ⊢
      cases isSet : rq.latestColNode with
      | none =>
        have own := (queued.openRequest id rq isRq isSet).1
        exact absurd (Option.some.inj (isOther.symm.trans own)) idDiffers
      | some =>
        have isFixed : rq.latestColNode.isSome = true := by rw [isSet]; rfl
        rw [requestNode isFixed]
        exact ⟨isOther, node, taken.newest_of_ne isNewest
          (fixedBelow isFixed node isNewest waits), waits⟩
    · rw [taken.reworked.others other.key other.colId same]
      exact ⟨isOther, node, isNewest, waits⟩

namespace Db

variable (db : Db K V)

def submissionOf (rq : RequestNode K) : Option (Submission K) :=
  (db.designated rq).map fun colNode =>
    { key := rq.key
      colId := rq.colId
      colNode := colNode
      trxnDeque := rq.trxnDeque }

def waiting : List (Submission K) :=
  db.pendingReq.filterMap fun rq => db.submissionOf rq.2

end Db

theorem Db.submissionOf_congr {pre post : Db K V} {rq other : RequestNode K}
    (sameKey : rq.key = other.key) (sameCol : rq.colId = other.colId)
    (sameDeque : rq.trxnDeque = other.trxnDeque)
    (sameNode : post.designated rq = pre.designated other) :
    post.submissionOf rq = pre.submissionOf other := by
  unfold Db.submissionOf
  rw [sameKey, sameCol, sameDeque, sameNode]

theorem Db.designated_congr {pre post : Db K V} {rq : RequestNode K}
    (same : rq.latestColNode = none →
      (post.column rq.key rq.colId).latestColNode =
        (pre.column rq.key rq.colId).latestColNode) :
    post.designated rq = pre.designated rq := by
  unfold Db.designated
  cases isSet : rq.latestColNode with
  | none => rw [Option.none_or, Option.none_or, same isSet]
  | some => rfl

section

variable {pre post : Db K V} {key : K} {col : Nat}
  (reworked : pre.Reworked post key col)

include reworked

theorem Db.Reworked.latest (other : K) (col' : Nat) :
    (post.column other col').latestColNode = (pre.column other col').latestColNode := by
  by_cases same : key = other ∧ col = col'
  · obtain ⟨rfl, rfl⟩ := same
    exact reworked.column.latest
  · rw [reworked.others other col' same]

theorem Db.Reworked.submissionOf (rq : RequestNode K) :
    post.submissionOf rq = pre.submissionOf rq :=
  Db.submissionOf_congr rfl rfl rfl (Db.designated_congr fun _ => reworked.latest _ _)

theorem Db.Reworked.waiting (sameQueue : post.pendingReq = pre.pendingReq) :
    post.waiting = pre.waiting := by
  unfold Db.waiting
  rw [sameQueue]
  apply filterMap_congr
  intro rq _
  exact reworked.submissionOf rq.2

end

theorem Taken.waiting {pre post : Db K V} {workerId pos id : Nat}
    {rq : RequestNode K} {sub : Submission K}
    (taken : Taken pre post workerId pos id rq sub)
    (plain : sub.trxnGroupID = 0) :
    pre.waiting.Perm (sub :: post.waiting) := by
  obtain ⟨inside, atPosition⟩ := List.getElem?_eq_some_iff.mp taken.atPosition
  have whole : pre.pendingReq =
      pre.pendingReq.take pos ++ (id, rq) :: pre.pendingReq.drop (pos + 1) := by
    rw [← atPosition, ← drop_eq_getElem_cons inside, take_append_drop]
  have isSubmission : pre.submissionOf rq = some sub := by
    unfold Db.submissionOf
    rw [taken.designated, Option.map_some, ← taken.key, ← taken.colId, ← taken.trxnDeque, ← plain]
  have rest : post.waiting =
      (pre.pendingReq.take pos ++ pre.pendingReq.drop (pos + 1)).filterMap
        fun rq => pre.submissionOf rq.2 := by
    unfold Db.waiting
    rw [taken.queue, eraseIdx_eq_take_drop_succ]
    apply filterMap_congr
    intro other _
    exact taken.reworked.submissionOf other.2
  rw [rest, Db.waiting, whole, filterMap_append, filterMap_cons, isSubmission,
    filterMap_append, ← whole]
  exact perm_middle

namespace Accepted

variable {pre post : Db K V} {key : K} {col : Nat} {trxn : Transaction}
  {node : ColumnNode V}

def ownSubmission (key : K) (col : Nat) (trxn : Transaction) (node : ColumnNode V) :
    Submission K :=
  { key := key
    colId := col
    colNode := node.beginSeq
    trxnDeque := if trxn.id = 0 then [] else [trxn] }

section

variable (accepted : Accepted pre post key col trxn node)

include accepted

theorem submissionOf_init :
    post.submissionOf (RequestNode.init key col trxn) =
      some (ownSubmission key col trxn node) := by
  unfold Db.submissionOf Db.designated
  rw [show (RequestNode.init key col trxn).latestColNode = none from rfl, Option.none_or,
    show (RequestNode.init key col trxn).key = key from rfl,
    show (RequestNode.init key col trxn).colId = col from rfl, accepted.column_self]
  rfl

theorem submissionOf_requeued (queued : pre.Queued) {id : Nat} {rq : RequestNode K}
    (mem : (id, rq) ∈ pre.pendingReq)
    (notJoined : (pre.column key col).schedulingOf trxn.group ≠ .join ∨ some id ≠
      (pre.column key col).requestNode) :
    post.submissionOf (rq.requeued (pre.column key col) trxn
      ((pre.column key col).schedulingOf trxn.group) id) = pre.submissionOf rq := by
  have cases := (pre.column key col).schedulingOf_cases trxn.group
  have sameCol := rq.requeued_column (pre.column key col) trxn
    ((pre.column key col).schedulingOf trxn.group) id
  by_cases isOwn : some id = (pre.column key col).requestNode
  · -- The open request of the column is closed at the node that was its newest.
    obtain ⟨rfl, rfl, isOpen⟩ := queued.column_of_request mem isOwn.symm
    obtain ⟨-, newest, isNewest, waits⟩ := queued.openRequest id rq mem isOpen
    have splits : (pre.column rq.key rq.colId).schedulingOf trxn.group =
        .splitGroup := by
      rcases cases with ⟨-, taken⟩ | ⟨notScheduled, -⟩
      · exact absurd waits (taken newest isNewest)
      cases how : (pre.column rq.key rq.colId).schedulingOf trxn.group with
      | schedule => exact absurd how notScheduled
      | splitGroup => rfl
      | join => exact absurd how (notJoined.resolve_right fun differs => differs isOwn)
    have latest : (pre.column rq.key rq.colId).latestColNode =
        some newest.beginSeq := by
      rw [(queued.ordered _ _).latest, isNewest]
      rfl
    apply Db.submissionOf_congr sameCol.1 sameCol.2
    · rw [splits]
      unfold RequestNode.requeued
      rw [if_pos isOwn]
    unfold Db.designated
    rw [RequestNode.requeued_latest, if_pos ⟨isOwn, splits⟩, latest, isOpen]
    rfl
  · have unchanged : rq.requeued (pre.column key col) trxn
        ((pre.column key col).schedulingOf trxn.group) id = rq := if_neg isOwn
    rw [unchanged]
    apply Db.submissionOf_congr rfl rfl rfl
    apply Db.designated_congr
    intro isOpen
    obtain ⟨isRq, -⟩ := queued.openRequest id rq mem isOpen
    rw [accepted.column_of_ne]
    rintro ⟨rfl, rfl⟩
    exact isOwn isRq.symm

theorem waiting_of_own (queued : pre.Queued)
    (notJoined : (pre.column key col).schedulingOf trxn.group ≠ .join) :
    post.waiting = pre.waiting ++ [ownSubmission key col trxn node] := by
  unfold Db.waiting
  rw [accepted.queue, queueRequest_eq, if_neg notJoined, filterMap_append,
    filterMap_map]
  congr 1
  · apply filterMap_congr
    rintro ⟨_, _⟩ mem
    exact accepted.submissionOf_requeued queued mem (Or.inl notJoined)
  rw [filterMap_cons, accepted.submissionOf_init]
  rfl

theorem waiting_of_join (queued : pre.Queued)
    (joins : (pre.column key col).schedulingOf trxn.group = .join) :
    ∃ front back trxnDeque old, (pre.column key col).colList.head? = some old ∧
      old.ikeySeq = 0 ∧
      pre.waiting = front ++
        { key := key, colId := col, colNode := old.beginSeq, trxnDeque := trxnDeque } :: back ∧
      post.waiting = front ++
        { key := key
          colId := col
          colNode := node.beginSeq
          trxnDeque := trxnDeque ++ if trxn.id = 0 then [] else [trxn] } :: back := by
  rcases (pre.column key col).schedulingOf_cases trxn.group with
    ⟨schedules, -⟩ | ⟨-, old, isOld, waits⟩
  · rw [joins] at schedules
    cases schedules
  obtain ⟨id, isRq⟩ := queued.pending key col old isOld waits
  obtain ⟨rq, mem, rfl, rfl, isOpen⟩ := queued.waiting key col id isRq
  obtain ⟨front, back, whole⟩ := append_of_mem mem
  have others : ∀ other, other ∈ front ∨ other ∈ back → some other.1 ≠
      (pre.column rq.key rq.colId).requestNode := by
    intro other isOther isSame
    rw [isRq] at isSame
    have nodup := queued.distinct
    unfold Db.requests at nodup
    rw [whole, map_append, map_cons] at nodup
    have apart := nodup_middle.mp nodup
    apply (nodup_cons.mp apart).1
    rw [← map_append]
    refine mem_map.mpr ⟨other, ?_, Option.some.inj isSame⟩
    rcases isOther with inFront | inBack
    · exact mem_append_left _ inFront
    · exact mem_append_right _ inBack
  have kept : ∀ part : List (Nat × RequestNode K),
      (∀ other ∈ part, other ∈ pre.pendingReq ∧
        some other.1 ≠ (pre.column rq.key rq.colId).requestNode) →
      (part.filterMap fun other => post.submissionOf
        (other.2.requeued (pre.column rq.key rq.colId) trxn
          ((pre.column rq.key rq.colId).schedulingOf trxn.group) other.1)) =
        part.filterMap fun other => pre.submissionOf other.2 := by
    intro _ inPart
    apply filterMap_congr
    rintro ⟨_, other⟩ isOther
    exact accepted.submissionOf_requeued queued (inPart _ isOther).1 (Or.inr (inPart _ isOther).2)
  refine ⟨front.filterMap fun other => pre.submissionOf other.2,
    back.filterMap fun other => pre.submissionOf other.2, rq.trxnDeque, old, isOld, waits,
    ?_, ?_⟩
  · have own : pre.submissionOf rq = some
        { key := rq.key, colId := rq.colId, colNode := old.beginSeq,
          trxnDeque := rq.trxnDeque } := by
      unfold Db.submissionOf Db.designated
      rw [isOpen, Option.none_or, (queued.ordered _ _).latest, isOld]
      rfl
    rw [Db.waiting, whole, filterMap_append, filterMap_cons, own]
  have own : post.submissionOf (rq.requeued
      (pre.column rq.key rq.colId) trxn .join id) = some
      { key := rq.key, colId := rq.colId, colNode := node.beginSeq,
        trxnDeque := rq.trxnDeque ++ if trxn.id = 0 then [] else [trxn] } := by
    have sameCol := rq.requeued_column (pre.column rq.key rq.colId) trxn
      .join id
    unfold Db.submissionOf Db.designated
    rw [RequestNode.requeued_latest, if_neg (by simp), isOpen, Option.none_or, sameCol.1,
      sameCol.2, accepted.column_self]
    simp only [ColumnData.pushed, Option.map_some, Option.some.injEq, Submission.mk.injEq,
      true_and, and_true]
    unfold RequestNode.requeued
    rw [if_pos isRq.symm]
    by_cases noId : trxn.id = 0
    · simp [noId]
    · simp [noId, RequestNode.insertTrxn]
  have inFront : ∀ other ∈ front, other ∈ pre.pendingReq ∧
      some other.1 ≠ (pre.column rq.key rq.colId).requestNode :=
    fun other isOther => ⟨by rw [whole]; simp [isOther], others other (Or.inl isOther)⟩
  have inBack : ∀ other ∈ back, other ∈ pre.pendingReq ∧
      some other.1 ≠ (pre.column rq.key rq.colId).requestNode :=
    fun other isOther => ⟨by rw [whole]; simp [isOther], others other (Or.inr isOther)⟩
  have frontKept := kept front inFront
  have backKept := kept back inBack
  rw [joins] at frontKept backKept
  unfold Db.waiting
  rw [accepted.queue, queueRequest_eq, joins, if_pos rfl, append_nil, whole,
    filterMap_map]
  simp [own, frontKept, backKept]

end

end Accepted

end InsDb
