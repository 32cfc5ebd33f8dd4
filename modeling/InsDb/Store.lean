import InsDb.Db

/-!
# What one stored update changes

`Stored` says everything an update does to the readers' part of the database: one
sequence number is taken, and the column list of one key either stays as it is or gets
a new newest version.  A read at a sequence number that was already taken does not
notice.
-/

namespace InsDb

open InsDb.Library List ColumnNode

variable {K V : Type} [LinearOrder K]

structure Unnoticed (mark : ColumnNode V → ColumnNode V) : Prop where
  sameView : ∀ node, (mark node).SameView node
  userValue : ∀ node, (mark node).userValue = node.userValue
  ikeySeq : ∀ node, (mark node).ikeySeq = node.ikeySeq

theorem unnoticed_flag (beginSeq : Nat) (inTransaction : Bool) (splitAt : Option Nat) :
    Unnoticed (ColumnNode.flag beginSeq inTransaction splitAt : ColumnNode V → _) := by
  refine ⟨?_, ?_, ?_⟩
  · intro node
    unfold flag
    split_ifs
    · exact ⟨rfl, rfl, rfl, rfl, rfl, rfl⟩
    · exact ⟨rfl, rfl, rfl, rfl, rfl, rfl⟩
    · exact ColumnNode.SameView.refl node
  · intro _
    unfold flag
    split_ifs <;> rfl
  intro _
  unfold flag
  split_ifs <;> rfl

namespace Unnoticed

variable {mark : ColumnNode V → ColumnNode V}

theorem lookup (unseen : Unnoticed mark) (nodes : List (ColumnNode V))
    (curTime seq ttl : Nat) :
    (lookupIn (nodes.map mark) curTime seq ttl).map ColumnNode.view =
      (lookupIn nodes curTime seq ttl).map ColumnNode.view := by
  have sameCovers : (covers seq ∘ mark) = covers seq := by
    funext node
    exact (unseen.sameView node).covers seq
  unfold lookupIn
  rw [find?_map, sameCovers]
  cases nodes.find? (covers seq) with
  | none => rfl
  | some node => exact (unseen.sameView node).answer curTime ttl

theorem wellFormed (unseen : Unnoticed mark) {node : ColumnNode V}
    (wellFormed : node.WellFormed) : (mark node).WellFormed := by
  have same := unseen.sameView node
  refine ⟨?_, ?_, ?_, ?_⟩
  · rw [same.beginSeq]
    exact wellFormed.begin_lt_max
  · rw [same.beginSeq, same.endSeq]
    exact wellFormed.begin_le_end
  · rw [same.beginSeq, same.endSeq, same.requestType]
    exact wellFormed.del_ends
  rw [same.requestType, unseen.userValue, unseen.ikeySeq]
  exact wellFormed.pending_value

theorem chain (unseen : Unnoticed mark) {nodes : List (ColumnNode V)}
    (chain : Chain nodes) : Chain (nodes.map mark) := by
  refine Chain.of_intervals chain ?_ ?_
  · intro _ mem
    obtain ⟨node, inList, rfl⟩ := mem_map.mp mem
    exact unseen.wellFormed (chain.wellFormed node inList)
  have sameIntervals : (nodes.map mark).map interval = nodes.map interval := by
    rw [map_map]
    apply map_congr_left
    intro node _
    have same := unseen.sameView node
    simp [interval, same.beginSeq, same.endSeq]
  rw [sameIntervals]

end Unnoticed

theorem lookup_update_below {nodes : List (ColumnNode V)} {newNode : ColumnNode V}
    {seq : Nat} (below : seq < newNode.beginSeq) (curTime ttl : Nat) :
    (lookupIn (newNode.closeDelete :: closeNewest newNode.beginSeq nodes)
        curTime seq ttl).map ColumnNode.view =
      (lookupIn nodes curTime seq ttl).map ColumnNode.view := by
  have notBegun : ¬ newNode.closeDelete.covers seq = true := by
    rw [covers_iff, closeDelete_beginSeq]
    omega
  have skipped : lookupIn (newNode.closeDelete :: closeNewest newNode.beginSeq nodes)
      curTime seq ttl = lookupIn (closeNewest newNode.beginSeq nodes) curTime seq ttl := by
    unfold lookupIn
    rw [find?_cons_of_neg notBegun]
  rw [skipped]
  cases nodes with
  | nil => rfl
  | cons old =>
    simp only [closeNewest]
    split_ifs with openPut
    · -- Closing the version changes whether it covers only from the new number on.
      have sameCovers : ({ old with endSeq := newNode.beginSeq } :
          ColumnNode V).covers seq = old.covers seq := by
        simp [covers, openPut.1, openPut.2, below]
      by_cases cover : old.covers seq = true
      · simp only [lookupIn, find?_cons_of_pos cover,
          find?_cons_of_pos (sameCovers.trans cover)]
        unfold ColumnNode.answer ColumnNode.hidden
        split_ifs <;> rfl
      · simp only [lookupIn, find?_cons_of_neg cover, find?_cons_of_neg (sameCovers ▸ cover)]
    · rfl

structure ColumnData.Extended (pre post : ColumnData V) (node : ColumnNode V) :
    Prop where
  latest : post.latestColNode = some node.beginSeq
  list : ∃ mark, Unnoticed mark ∧
    post.colList = (node.closeDelete :: closeNewest node.beginSeq pre.colList).map mark

structure UserKey.Updated (pre post : UserKey V) (col : Nat)
    (node : ColumnNode V) : Prop where
  fetched : post.fetched = pre.fetched
  others : ∀ other, other ≠ col → post.columns other = pre.columns other
  column : post.columns col = pre.columns col ∨
    (pre.columns col).Extended (post.columns col) node

/-- The versions of every column of a key are chains that end at `bound`. -/
def UserKey.WellFormed (user : UserKey V) (bound : Nat) : Prop :=
  ∀ col, (user.columns col).WellFormed ∧ (user.columns col).Below bound

theorem UserKey.wellFormed_empty (bound : Nat) : (UserKey.empty : UserKey V).WellFormed bound :=
  fun _ => ⟨⟨Chain.nil, rfl⟩, by simp [ColumnData.Below, UserKey.empty]⟩

theorem UserKey.WellFormed.mono {user : UserKey V} {bound larger : Nat}
    (wellFormed : user.WellFormed bound) (grows : bound ≤ larger) : user.WellFormed larger :=
  fun col => ⟨(wellFormed col).1, (wellFormed col).2.mono grows⟩

namespace ColumnData.Extended

variable {pre post : ColumnData V} {node : ColumnNode V} {bound : Nat}

theorem wellFormed (extended : pre.Extended post node) (chain : Chain pre.colList)
    (below : pre.Below bound) (fresh : bound < node.beginSeq) (small : node.beginSeq < ulongMax)
    (openEnd : node.endSeq = ulongMax)
    (valued : node.requestType = .put → node.userValue.isSome = true) : post.WellFormed := by
  obtain ⟨_, unseen, list⟩ := extended.list
  refine ⟨?_, ?_⟩
  · rw [list]
    exact unseen.chain (chain.update below fresh small openEnd valued)
  rw [extended.latest, list, map_cons, head?_cons, Option.map_some,
    (unseen.sameView _).beginSeq, closeDelete_beginSeq]

theorem below (extended : pre.Extended post node) (chain : Chain pre.colList)
    (below : pre.Below bound) (fresh : bound < node.beginSeq)
    (openEnd : node.endSeq = ulongMax) : post.Below node.beginSeq := by
  obtain ⟨_, unseen, list⟩ := extended.list
  intro _ mem
  rw [list] at mem
  obtain ⟨original, inList, rfl⟩ := mem_map.mp mem
  have same := unseen.sameView original
  rw [same.beginSeq, same.endSeq]
  rcases mem_cons.mp inList with rfl | older
  · rw [closeDelete_beginSeq]
    refine ⟨Nat.le_refl _, ?_⟩
    unfold closeDelete
    split_ifs
    · exact .inr (Nat.le_refl _)
    · exact .inl openEnd
  · obtain ⟨_, ended⟩ := chain.closeNewest_ended below fresh original older
    exact ⟨by omega, Or.inr ended⟩

theorem getColumnNode_below (extended : pre.Extended post node) (beforeWF : pre.WellFormed)
    (afterWF : post.WellFormed) {seq : Nat} (below : seq < node.beginSeq)
    (curTime ttl : Nat) :
    (post.getColumnNode curTime seq ttl).map ColumnNode.view =
      (pre.getColumnNode curTime seq ttl).map ColumnNode.view := by
  obtain ⟨_, unseen, list⟩ := extended.list
  rw [afterWF.getColumnNode_eq, beforeWF.getColumnNode_eq, list, unseen.lookup,
    lookup_update_below below]

end ColumnData.Extended

namespace UserKey.Updated

variable {pre post : UserKey V} {col bound : Nat} {node : ColumnNode V}

theorem wellFormed (updated : pre.Updated post col node) (beforeWF : pre.WellFormed bound)
    (fresh : bound < node.beginSeq) (small : node.beginSeq < ulongMax)
    (openEnd : node.endSeq = ulongMax)
    (valued : node.requestType = .put → node.userValue.isSome = true) :
    post.WellFormed node.beginSeq := by
  intro other
  have grows := Nat.le_of_lt fresh
  by_cases same : other = col
  · subst same
    rcases updated.column with unchanged | extended
    · rw [unchanged]
      exact beforeWF.mono grows other
    obtain ⟨columnWF, below⟩ := beforeWF other
    exact ⟨extended.wellFormed columnWF.chain below fresh small openEnd valued,
      extended.below columnWF.chain below fresh openEnd⟩
  · rw [updated.others other same]
    exact beforeWF.mono grows other

theorem getColumnNode_below (updated : pre.Updated post col node)
    (beforeWF : pre.WellFormed bound) (afterWF : post.WellFormed node.beginSeq)
    (readCol : Nat) {point : ReadPoint} (below : point.seqNum < node.beginSeq) :
    (post.getColumnNode readCol point).map ColumnNode.view =
      (pre.getColumnNode readCol point).map ColumnNode.view := by
  unfold UserKey.getColumnNode
  by_cases same : readCol = col
  · subst same
    rcases updated.column with unchanged | extended
    · rw [unchanged]
    · exact extended.getColumnNode_below (beforeWF readCol).1 (afterWF readCol).1 below _ _
  · rw [updated.others readCol same]

end UserKey.Updated

def SKTable.UpdatedBy (pre post : SKTable K V) (node : ColumnNode V) : Prop :=
  ∃ key col user,
    ((pre.findUserKey key).getD .empty).Updated user col node ∧
      post = pre.setUserKey key user

/-- Every `UserKey` of the table is well formed. -/
def SKTable.UsersWellFormed (table : SKTable K V) (bound : Nat) : Prop :=
  ∀ key user, table.findUserKey key = some user → user.WellFormed bound

theorem SKTable.UsersWellFormed.getD {t : SKTable K V} {bound : Nat}
    (users : t.UsersWellFormed bound) (key : K) :
    ((t.findUserKey key).getD .empty).WellFormed bound := by
  cases found : t.findUserKey key with
  | none => exact UserKey.wellFormed_empty bound
  | some user => exact users key user found

theorem padRead_getD (user : Option (UserKey V)) (row : DeviceRow) (col : Nat)
    (point : ReadPoint) :
    padRead (some (user.getD .empty)) row col point = padRead user row col point := by
  cases user <;> rfl

theorem getRead_getD (user : Option (UserKey V)) (row : DeviceRow) (col : Nat)
    (point : ReadPoint) :
    getRead (some (user.getD .empty)) row col point = getRead user row col point := by
  cases user <;> rfl

namespace SKTable.UpdatedBy

variable {pre post : SKTable K V} {node : ColumnNode V} {bound : Nat}

theorem usersWellFormed (updated : pre.UpdatedBy post node)
    (users : pre.UsersWellFormed bound) (fresh : bound < node.beginSeq)
    (small : node.beginSeq < ulongMax) (openEnd : node.endSeq = ulongMax)
    (valued : node.requestType = .put → node.userValue.isSome = true) :
    post.UsersWellFormed node.beginSeq := by
  obtain ⟨key, _, _, userUpdated, rfl⟩ := updated
  intro other found isFound
  rw [SKTable.findUserKey_setUserKey] at isFound
  split_ifs at isFound with same
  · obtain rfl := Option.some.inj isFound
    exact userUpdated.wellFormed (users.getD key) fresh small openEnd valued
  · exact (users other found isFound).mono (Nat.le_of_lt fresh)

theorem reads_below (updated : pre.UpdatedBy post node)
    (users : pre.UsersWellFormed bound) (afterUsers : post.UsersWellFormed node.beginSeq)
    (key : K) (col : Nat) (point : ReadPoint) (below : point.seqNum < node.beginSeq) :
    padRead (post.findUserKey key) (post.deviceRow key) col point =
        padRead (pre.findUserKey key) (pre.deviceRow key) col point ∧
      getRead (post.findUserKey key) (post.deviceRow key) col point =
        getRead (pre.findUserKey key) (pre.deviceRow key) col point := by
  obtain ⟨changed, _, user, userUpdated, rfl⟩ := updated
  rw [SKTable.setUserKey_deviceRow]
  by_cases same : changed = key
  · subst same
    have found : (pre.setUserKey changed user).findUserKey changed = some user := by
      rw [SKTable.findUserKey_setUserKey, if_pos rfl]
    have userWF := afterUsers changed user found
    have beforeWF := users.getD changed
    rw [found, ← padRead_getD (pre.findUserKey changed),
      ← getRead_getD (pre.findUserKey changed)]
    constructor
    · apply padRead_congr userUpdated.fetched
      exact userUpdated.getColumnNode_below beforeWF userWF col below
    apply getRead_congr userUpdated.fetched
    exact userUpdated.getColumnNode_below beforeWF userWF col below
  · rw [SKTable.findUserKey_setUserKey, if_neg same]
    exact ⟨rfl, rfl⟩

end SKTable.UpdatedBy

theorem Update.node_beginSeq (update : Update V) (ts seq : Nat) :
    (update.node ts seq).beginSeq = seq := by
  cases update <;> rfl

theorem Update.node_endSeq (update : Update V) (ts seq : Nat) :
    (update.node ts seq).endSeq = ulongMax := by
  cases update <;> rfl

theorem Update.node_valued (update : Update V) (ts seq : Nat) :
    (update.node ts seq).requestType = .put →
      (update.node ts seq).userValue.isSome = true := by
  cases update <;> simp [Update.node]

/-- Everything `Store` does to what readers see. -/
structure Stored (pre post : Db K V) (key : K) (col : Nat)
    (node : ColumnNode V) : Prop where
  sequence : post.sequenceNumber = pre.sequenceNumber + 1
  tables : ∃ user, ((pre.findUserKey key).getD .empty).Updated user col node ∧
    post.tables = pre.tables.modify (tableIndex key pre.beginKeys)
      fun table => table.setUserKey key user
  snapshots : post.snapshots = pre.snapshots
  keyBlocks : post.keyBlocks = pre.keyBlocks
  ttlList : post.ttlList = pre.ttlList
  ttlEnabledList : post.ttlEnabledList = pre.ttlEnabledList
  now : post.now = pre.now
  mergeOperator : post.mergeOperator = pre.mergeOperator

theorem UserKey.updated_refl (user : UserKey V) (col : Nat) (node : ColumnNode V) :
    user.Updated user col node :=
  ⟨rfl, fun _ _ => rfl, Or.inl rfl⟩

theorem stored_cancelUpdate (db : Db K V) (trxn : Transaction) (key : K) (col : Nat)
    (node : ColumnNode V) : Stored db (db.cancelUpdate trxn key).1 key col node :=
  ⟨rfl, ⟨_, UserKey.updated_refl _ col node, rfl⟩, rfl, rfl, rfl, rfl, rfl, rfl⟩

theorem ColumnData.extended_record {pre data : ColumnData V} {node : ColumnNode V}
    (list : data.colList = node.closeDelete :: closeNewest node.beginSeq pre.colList)
    (trxn : Transaction) (fresh : Nat) (how : Scheduling) :
    pre.Extended (data.record node.beginSeq trxn fresh how) node := by
  refine ⟨rfl, ?_⟩
  rw [← list]
  exact ⟨_, unnoticed_flag node.beginSeq (decide (trxn.id ≠ 0))
    (if how = .splitGroup then data.latestColNode else none), rfl⟩

theorem UserKey.updated_setColumn (user : UserKey V) {col : Nat} {data : ColumnData V}
    {node : ColumnNode V} (extended : (user.columns col).Extended data node) :
    user.Updated { user.setColumn col data with dirty := true } col node := by
  refine ⟨rfl, fun other differs => Function.update_of_ne differs _ _, Or.inr ?_⟩
  have stored : (user.setColumn col data).columns col = data := Function.update_self ..
  simpa only [stored] using extended

theorem stored_recordUpdate (db : Db K V) (trxn : Transaction) (key : K) (col : Nat)
    (status : InsertColumnNodeStatus) {node : ColumnNode V} {data : ColumnData V}
    (begins : node.beginSeq = db.sequenceNumber + 1)
    (list : data.colList = node.closeDelete :: closeNewest node.beginSeq
      (((db.findUserKey key).getD .empty).columns col).colList) :
    Stored db (db.recordUpdate trxn key col status data).1 key col node := by
  refine ⟨rfl, ⟨_, ?_, rfl⟩, rfl, rfl, rfl, rfl, rfl, rfl⟩
  apply UserKey.updated_setColumn
  rw [← begins]
  exact ColumnData.extended_record list _ _ _

section Cases

variable {db : Db K V} {trxn : Transaction} {time : Nat} {key : K} {col : Nat}
  {update : Update V}

theorem Db.store_of_cancels (cancelled : (((db.findUserKey key).getD .empty).columns col).cancels
      (update.node (db.timeStamp col time) (db.sequenceNumber + 1)) trxn.isLast) :
    db.store trxn time key col update = db.cancelUpdate trxn key := by
  unfold Db.store
  simp only [ColumnData.updateColumn_of_cancels cancelled]

theorem Db.store_of_not_cancels
    (accepted : ¬ (((db.findUserKey key).getD .empty).columns col).cancels
      (update.node (db.timeStamp col time) (db.sequenceNumber + 1)) trxn.isLast) :
    ∃ data, data.colList =
        (update.node (db.timeStamp col time) (db.sequenceNumber + 1)).closeDelete ::
          closeNewest (update.node (db.timeStamp col time) (db.sequenceNumber + 1)).beginSeq
            (((db.findUserKey key).getD .empty).columns col).colList ∧
      data.requestNode = (((db.findUserKey key).getD .empty).columns col).requestNode ∧
      ∃ status, (status ≠ .needToSchedule → ∃ old,
        (((db.findUserKey key).getD .empty).columns col).colList.head? = some old ∧
          old.ikeySeq = 0) ∧
      db.store trxn time key col update = db.recordUpdate trxn key col status data := by
  unfold Db.store
  simp only [ColumnData.updateColumn_of_not_cancels accepted]
  refine ⟨{ ((db.findUserKey key).getD .empty).columns col with colList := _ }, rfl, rfl, ?_⟩
  cases (((db.findUserKey key).getD .empty).columns col).colList.head? with
  | none => exact ⟨.needToSchedule, fun scheduled => absurd rfl scheduled, rfl⟩
  | some old =>
    simp only [scheduleStatus]
    split_ifs with waiting
    · exact ⟨.hasBeenScheduled, fun _ => ⟨old, rfl, waiting⟩, rfl⟩
    · exact ⟨.needToSchedule, fun scheduled => absurd rfl scheduled, rfl⟩

end Cases

theorem stored_store (db : Db K V) (trxn : Transaction) (time : Nat) (key : K)
    (col : Nat) (update : Update V) :
    Stored db (db.store trxn time key col update).1 key col
      (update.node (db.timeStamp col time) (db.sequenceNumber + 1)) := by
  have begins := update.node_beginSeq (db.timeStamp col time) (db.sequenceNumber + 1)
  by_cases cancelled : (((db.findUserKey key).getD .empty).columns col).cancels
      (update.node (db.timeStamp col time) (db.sequenceNumber + 1)) trxn.isLast
  · rw [Db.store_of_cancels cancelled]
    exact stored_cancelUpdate db trxn key col _
  obtain ⟨_, list, -, status, -, stored⟩ := Db.store_of_not_cancels cancelled
  rw [stored]
  exact stored_recordUpdate db trxn key col status begins list

/-- Sorted tables whose keys have only versions up to the present sequence number. -/
structure Db.WellFormed (db : Db K V) : Prop where
  sorted : ∀ table ∈ db.tables, table.Sorted
  users : ∀ table ∈ db.tables, table.UsersWellFormed db.sequenceNumber

namespace Stored

variable {pre post : Db K V} {key : K} {col : Nat} {node : ColumnNode V}

theorem beginKeys (stored : Stored pre post key col node) :
    post.beginKeys = pre.beginKeys := by
  obtain ⟨user, -, changed⟩ := stored.tables
  rw [← pre.beginKeys_setUserKey key user]
  unfold Db.beginKeys
  rw [changed]
  rfl

theorem table (stored : Stored pre post key col node) {i : Nat}
    {changed : SKTable K V} (isTable : post.tables[i]? = some changed) :
    ∃ t, pre.tables[i]? = some t ∧
      (changed = t ∨ t.UpdatedBy changed node) := by
  obtain ⟨user, updated, ts⟩ := stored.tables
  rw [ts, getElem?_modify] at isTable
  obtain ⟨t, isBefore, rfl⟩ := Option.map_eq_some_iff.mp isTable
  refine ⟨t, isBefore, ?_⟩
  by_cases isIndex : tableIndex key pre.beginKeys = i
  · right
    have found : pre.findUserKey key = t.findUserKey key := by
      simp [Db.findUserKey, Db.findSKTableMem, isIndex, isBefore]
    rw [found] at updated
    exact ⟨key, col, user, updated, by simp [isIndex]⟩
  left
  simp [isIndex]

theorem wellFormed (stored : Stored pre post key col node) (beforeWF : pre.WellFormed)
    (begins : node.beginSeq = pre.sequenceNumber + 1) (small : node.beginSeq < ulongMax)
    (openEnd : node.endSeq = ulongMax)
    (valued : node.requestType = .put → node.userValue.isSome = true) : post.WellFormed := by
  have fresh : pre.sequenceNumber < node.beginSeq := by omega
  refine ⟨?_, ?_⟩
  · intro _ mem
    obtain ⟨_, isTable⟩ := mem_iff_getElem?.mp mem
    obtain ⟨t, isBefore, rfl | ⟨_, _, _, -, rfl⟩⟩ := stored.table isTable
    · exact beforeWF.sorted _ (mem_of_getElem? isBefore)
    · exact (beforeWF.sorted t (mem_of_getElem? isBefore)).setUserKey _ _
  intro _ mem
  rw [stored.sequence, ← begins]
  obtain ⟨_, isTable⟩ := mem_iff_getElem?.mp mem
  obtain ⟨t, isBefore, rfl | updated⟩ := stored.table isTable
  · intro other user found
    exact (beforeWF.users _ (mem_of_getElem? isBefore) other user found).mono (Nat.le_of_lt fresh)
  exact updated.usersWellFormed (beforeWF.users t (mem_of_getElem? isBefore)) fresh
    small openEnd valued

end Stored

theorem Db.WellFormed.store {db : Db K V} (wellFormed : db.WellFormed)
    (trxn : Transaction) (time : Nat) (key : K) (col : Nat) (update : Update V)
    (small : db.sequenceNumber + 1 < ulongMax) :
    (db.store trxn time key col update).1.WellFormed := by
  have begins := update.node_beginSeq (db.timeStamp col time) (db.sequenceNumber + 1)
  exact (stored_store db trxn time key col update).wellFormed wellFormed begins
    (by omega) (update.node_endSeq _ _) (update.node_valued _ _)

def oneTable : Db Nat Nat := { tables := [{ beginKey := 0 }] }

theorem oneTable_wellFormed : oneTable.WellFormed := by
  refine ⟨?_, ?_⟩
  · intro _ mem
    obtain rfl := mem_singleton.mp mem
    exact ⟨List.Pairwise.nil, List.Pairwise.nil, nodup_nil, by simp⟩
  intro _ mem _ _ found
  obtain rfl := mem_singleton.mp mem
  simp [SKTable.findUserKey] at found

end InsDb
