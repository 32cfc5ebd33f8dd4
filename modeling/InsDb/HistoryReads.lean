import Mathlib.Data.List.Nodup
import InsDb.StoredKey

/-!
# What a key reads after any history

`DBImpl::Get` returns the value of the last write in every state of a history exactly when every
delete finds the key fetched or no version of the column in its row.  A delete over a row that is
not fetched is forgotten by the reader, which goes on to the row.
-/

namespace InsDb

open InsDb.Library List Option ColumnNode

variable {V : Type}

def Designates (keyBlocks : Nat → Nat → Option V) (version : Option (Designator V × Nat)) :
    Option (Nat × Update V) → Prop
  | some (seqNum, .put value) => ∃ designator,
      version = some (designator, seqNum) ∧ designator.load keyBlocks = some value
  | some (_, .del) => version = none
  | none => version = none

def Keeps (before after : Nat → Nat → Option V) : Prop :=
  ∀ ikeySeq kbOffset, (before ikeySeq kbOffset).isSome = true →
    after ikeySeq kbOffset = before ikeySeq kbOffset

theorem keeps_placeValue {keyBlocks : Nat → Nat → Option V} {ikeySeq kbOffset : Nat}
    (free : (keyBlocks ikeySeq kbOffset).isNone = true) (v : Option V) :
    Keeps keyBlocks (placeValue keyBlocks ikeySeq kbOffset v) := by
  intro _ _ occupied
  unfold placeValue
  rw [if_neg]
  intro same
  rw [same.1, same.2, ← not_isNone, free] at occupied
  cases occupied

theorem Designates.keep {pre post : Nat → Nat → Option V}
    {version : Option (Designator V × Nat)} {last : Option (Nat × Update V)}
    (designates : Designates pre version last) (keeps : Keeps pre post) :
    Designates post version last := by
  cases last with
  | none => exact designates
  | some write =>
    obtain ⟨_, update⟩ := write
    cases update with
    | del => exact designates
    | put v =>
      obtain ⟨designator, isVersion, loads⟩ := designates
      refine ⟨designator, isVersion, ?_⟩
      cases designator with
      | inMemory => exact loads
      | keyBlock ikeySeq kbOffset =>
        change post ikeySeq kbOffset = some v
        rw [keeps ikeySeq kbOffset (by rw [show pre ikeySeq kbOffset = _ from loads]; rfl)]
        exact loads

theorem KeyStored.keep {count bound : Nat} {flushed : Bool}
    {pre post : Nat → Nat → Option V} {user : Option (UserKey V)} {row : Option Bytes}
    (stored : KeyStored count bound flushed pre user row) (keeps : Keeps pre post) :
    KeyStored count bound flushed post user row := by
  refine ⟨⟨stored.above, ?_, ?_⟩, stored.written, stored.flushable, stored.unused, stored.clean⟩
  · intro loaded isLoaded col node mem
    have placed := stored.nodes loaded isLoaded col node mem
    refine ⟨placed.begun, placed.valued, ?_⟩
    intro isPut sent notMerged
    have occupied := placed.placed isPut sent notMerged
    rw [keeps _ _ occupied]
    exact occupied
  · intro c mem
    have occupied := stored.places c mem
    rw [keeps _ _ occupied]
    exact occupied

namespace KeyHistory

variable {count : Nat} {s : KeyHistory V}

/-- The key is stored, and both readers find the last write of every column. -/
structure Valid (count : Nat) (s : KeyHistory V) : Prop where
  small : s.sequenceNumber < ulongMax
  stored : KeyStored count s.sequenceNumber s.hasBeenFlushed s.keyBlocks s.user
    s.row
  reads : ∀ col, ∃ version,
    (∀ time, keyReads s.user s.deviceRow col ulongMax time = bothFind version) ∧
      Designates s.keyBlocks version (s.lastWrite col)

theorem Valid.readsLastWrite (valid : s.Valid count) : s.ReadsLastWrite := by
  intro col time
  obtain ⟨version, found, designates⟩ := valid.reads col
  have read : getRead s.user s.deviceRow col
      { seqNum := ulongMax, curTime := time, ttl := 0 } = version.map Prod.fst :=
    congrArg Prod.snd (found time)
  unfold KeyHistory.get KeyHistory.written
  rw [read]
  cases isLast : s.lastWrite col with
  | none =>
    rw [isLast] at designates
    rw [show version = none from designates]
    rfl
  | some write =>
    obtain ⟨_, update⟩ := write
    rw [isLast] at designates
    cases update with
    | del =>
      rw [show version = none from designates]
      rfl
    | put =>
      obtain ⟨_, isVersion, loads⟩ := designates
      rw [isVersion]
      exact loads

structure Shows (count : Nat) (s : KeyHistory V) (loaded : UserKey V) : Prop where
  stored : KeyStored count s.sequenceNumber s.hasBeenFlushed s.keyBlocks (some loaded)
    s.row
  seen : ∀ col, Designates s.keyBlocks
    (loaded.latestSeen (rowColumns (s.row.getD [])) col) (s.lastWrite col)

theorem keyReads_getD (user : Option (UserKey V)) (row : DeviceRow) (col seq time : Nat) :
    keyReads (some (user.getD .empty)) row col seq time =
      keyReads user row col seq time := by
  simp only [keyReads, padRead_getD, getRead_getD]

theorem Valid.shows (valid : s.Valid count) : s.Shows count (s.user.getD .empty) := by
  have stored := valid.stored.load
  refine ⟨stored, ?_⟩
  intro col
  obtain ⟨version, found, designates⟩ := valid.reads col
  have latest := (stored.ready valid.small 0 fun _ => true).reads_latest valid.small col 0
  rw [keyReads_getD] at latest
  have same : version = (s.user.getD .empty).latestSeen (rowColumns (s.row.getD [])) col :=
    congrArg Prod.fst ((found 0).symm.trans latest)
  rw [← same]
  exact designates

theorem Shows.valid {loaded : UserKey V} (shows : s.Shows count loaded)
    (isLoaded : s.user = some loaded) (small : s.sequenceNumber < ulongMax) :
    s.Valid count := by
  refine ⟨small, isLoaded ▸ shows.stored, ?_⟩
  intro col
  refine ⟨_, ?_, shows.seen col⟩
  intro time
  rw [isLoaded]
  exact (shows.stored.ready small 0 fun _ => true).reads_latest small col time

variable {c : RowColumn}

theorem Valid.row_answers (valid : s.Valid count)
    (mem : c ∈ rowColumns (s.row.getD [])) (time : Nat) :
    ∃ found, getColumnInfo s.hasBeenFlushed s.deviceRow.columns c.colId ulongMax time
        0 = some found ∧ found ∈ rowColumns (s.row.getD []) := by
  cases isRow : s.row with
  | none =>
    rw [isRow] at mem
    simp [rowColumns] at mem
  | some bytes =>
    obtain ⟨isFlushed, written⟩ := valid.stored.written bytes isRow
    rw [isRow] at mem
    have some_found : (rowColumn? (rowColumns bytes) c.colId).isSome = true := by
      rw [rowColumn?, find?_isSome]
      exact ⟨c, mem, by simp⟩
    obtain ⟨found, isFound⟩ := isSome_iff_exists.mp some_found
    have inRow := (mem_of_rowColumn isFound).1
    have below := (written.plain found inRow).below
    have small := valid.small
    refine ⟨found, ?_, inRow⟩
    simp only [KeyHistory.deviceRow, rowOf, isRow, isFlushed, getColumnInfo, getD_some]
    rw [getFrom_plain written.plain, isFound]
    simp only [filter_some, decide_eq_true_eq]
    rw [if_pos (by omega)]

variable {col : Nat} {columns : List RowColumn}

theorem mem_of_getFrom {flushed : Bool} {seqNum curTime ttl : Nat} {seq ts : Nat}
    (found : getFrom flushed col seqNum curTime ttl seq ts columns = some c) :
    c ∈ columns ∧ c.colId = col := by
  induction columns generalizing seq ts with
  | nil => cases found
  | cons first rest ih =>
    rw [getFrom] at found
    split_ifs at found with isCol
    · rw [← some.inj found]
      exact ⟨mem_cons_self, isCol⟩
    obtain ⟨mem, isColId⟩ := ih found
    exact ⟨mem_cons_of_mem _ mem, isColId⟩

theorem mem_of_getColumnInfo {flushed : Bool} {row : Option Bytes} {seq curTime ttl : Nat}
    (found : getColumnInfo flushed (rowOf flushed row).columns col seq curTime ttl =
      some c) :
    c ∈ rowColumns (row.getD []) ∧ c.colId = col :=
  mem_of_getFrom found

theorem Valid.put_of_unfetched (valid : s.Valid count) {update : Update V} {force : Bool}
    {trxn : Transaction} {fresh : Nat} {recycled : List Nat}
    (meets : s.DeletesFetched (.write col update force trxn fresh recycled))
    (unfetched : (s.user.getD .empty).fetched = false)
    (mem : c ∈ rowColumns (s.row.getD [])) (isColId : c.colId = col) :
    ∃ v, update = .put v := by
  cases update with
  | put v => exact ⟨v, rfl⟩
  | del =>
    rcases meets with isFetched | noColumn
    · cases isUser : s.user with
      | none =>
        rw [isUser] at isFetched
        cases isFetched
      | some =>
        rw [isUser] at isFetched unfetched
        exact absurd (unfetched.symm.trans isFetched) (by simp)
    · obtain ⟨_, answers, _⟩ := valid.row_answers mem 0
      rw [isColId] at answers
      rw [answers] at noColumn
      cases noColumn

variable {keyBlocks : Nat → Nat → Option V} {node : ColumnNode V}

theorem placed_of_core {old : ColumnNode V} (same : old.core = node.core)
    (placed : old.Placed keyBlocks) : node.Placed keyBlocks := by
  have core : old.core.Placed keyBlocks := ⟨placed.begun, placed.valued, placed.placed⟩
  rw [same] at core
  exact ⟨core.begun, core.valued, core.placed⟩

/-- What `Above` says of one version. -/
def Over (c : RowColumn) (node : ColumnNode V) : Prop :=
  c.seq.getD 0 < node.beginSeq ∧
    ¬ (node.ikeySeq = c.ikeySeq ∧ node.kbOffset = c.offset) ∧ node.requestType = .put

variable {data : ColumnData V} {colNode : Nat}

theorem above_iff : data.Above c ↔ (∀ node ∈ data.colList, Over c node) ∧
    ∀ node, data.colList.head? = some node → node.endSeq = ulongMax := by
  constructor
  · rintro ⟨newer, apart, puts, isOpen⟩
    exact ⟨fun node mem => ⟨newer node mem, apart node mem, puts node mem⟩, isOpen⟩
  · rintro ⟨each, isOpen⟩
    exact ⟨fun node mem => (each node mem).1, fun node mem => (each node mem).2.1,
      fun node mem => (each node mem).2.2, isOpen⟩

theorem above_of_core {pre post : ColumnData V} (kept : pre.CoreKept post)
    (above : pre.Above c) : post.Above c := by
  obtain ⟨each, isOpen⟩ := above_iff.mp above
  refine above_iff.mpr ⟨?_, ?_⟩
  · intro node mem
    obtain ⟨old, oldMem, same⟩ := kept.exists_of_mem mem
    have core : Over c old.core := each old oldMem
    rw [same] at core
    exact core
  · intro node isHead
    have newest := kept.newest
    rw [isHead] at newest
    obtain ⟨old, isOld, same⟩ := map_eq_some_iff.mp newest.symm
    exact (congrArg endSeq same).symm.trans (isOpen old isOld)

theorem above_modifyNode {change : ColumnNode V → ColumnNode V}
    (keeps : KeepsInterval change) (above : data.Above c)
    (apart : ∀ node ∈ data.colList, ¬ ((change node).ikeySeq = c.ikeySeq ∧
      (change node).kbOffset = c.offset)) :
    (data.modifyNode colNode change).Above c := by
  obtain ⟨each, isOpen⟩ := above_iff.mp above
  refine above_iff.mpr ⟨?_, ?_⟩
  · intro _ mem
    obtain ⟨old, oldMem, same⟩ := mem_map.mp mem
    obtain ⟨newer, _, isPut⟩ := each old oldMem
    rw [← same]
    split_ifs
    · rw [Over, (Prod.mk.inj (keeps.interval old)).1, keeps.requestType]
      exact ⟨newer, apart old oldMem, isPut⟩
    · exact each old oldMem
  · intro _ isHead
    rw [ColumnData.modifyNode, head?_map] at isHead
    obtain ⟨old, isOld, same⟩ := map_eq_some_iff.mp isHead
    rw [← same]
    split_ifs
    · rw [(Prod.mk.inj (keeps.interval old)).2]
      exact isOpen old isOld
    · exact isOpen old isOld

theorem above_extended {bound : Nat} (above : data.Above c) (plain : c.Plain count bound)
    (v : V) :
    (data.extended ((Update.put v).node 0 (bound + 1))).Above c := by
  refine above_iff.mpr ⟨?_, ?_⟩
  · intro _ mem
    rcases mem_cons.mp mem with isNew | isOld
    · rw [isNew]
      refine ⟨Nat.lt_succ_of_le plain.below, ?_, rfl⟩
      rintro ⟨pending, _⟩
      have sent := plain.submitted
      rw [← show 0 = c.ikeySeq from pending] at sent
      exact absurd sent (by decide)
    obtain ⟨old, oldMem, _, isOld⟩ := mem_closeNewest isOld
    rw [isOld]
    exact (above_iff.mp above).1 old oldMem
  · intro _ isHead
    rw [← some.inj isHead]
    rfl

theorem placed_extended (placed : ∀ node ∈ data.colList, node.Placed keyBlocks)
    (update : Update V) (bound : Nat) :
    ∀ node ∈ (data.extended (update.node 0 (bound + 1))).colList, node.Placed keyBlocks := by
  intro _ mem
  rcases mem_cons.mp mem with isNew | isOld
  · rw [isNew]
    cases update with
    | put =>
      refine ⟨Nat.succ_pos bound, fun _ _ => rfl, ?_⟩
      intro _ sent
      have pending : kUnusedNextInternalKey ≤ 0 := sent
      exact absurd pending (by decide)
    | del =>
      refine ⟨Nat.succ_pos bound, ?_, ?_⟩
      · intro isPut
        cases isPut
      intro isPut
      cases isPut
  · obtain ⟨old, oldMem, _, isOld⟩ := mem_closeNewest isOld
    have oldPlaced := placed old oldMem
    rw [isOld]
    exact ⟨oldPlaced.begun, oldPlaced.valued, oldPlaced.placed⟩

theorem latestSeen_of_same {pre post : UserKey V}
    (sameCol : post.columns col = pre.columns col)
    (sameFetched : post.fetched = pre.fetched) :
    post.latestSeen columns col = pre.latestSeen columns col := by
  unfold UserKey.latestSeen
  rw [sameCol, sameFetched]

theorem latestSeen_of_nonempty {user : UserKey V} (nonempty : (user.columns col).colList ≠ []) :
    user.latestSeen columns col = latestVersion (user.columns col).colList := by
  unfold UserKey.latestSeen
  rw [if_neg]
  intro both
  exact nonempty (isEmpty_iff.mp both.1)

theorem designates_update (keyBlocks : Nat → Nat → Option V) (data : ColumnData V)
    (update : Update V) (seq : Nat) :
    Designates keyBlocks (latestVersion (data.extended (update.node 0 seq)).colList)
      (some (seq, update)) := by
  rw [latestVersion_extended]
  cases update with
  | put v => exact ⟨.inMemory v, rfl, rfl⟩
  | del => rfl

theorem Valid.write (valid : s.Valid count) {update : Update V} {force : Bool}
    {trxn : Transaction} {fresh : Nat} {recycled : List Nat}
    (small : s.sequenceNumber + 1 < ulongMax) (used : col < count)
    (meets : s.DeletesFetched (.write col update force trxn fresh recycled)) :
    (s.write col update force trxn fresh).Valid count := by
  have shows := valid.shows
  have later := shows.stored.mono (Nat.le_succ s.sequenceNumber)
  have flushable := shows.stored.flushable _ rfl col
  apply @Shows.valid V count (s.write col update force trxn fresh)
    ((s.user.getD .empty).updateColumn col (update.node 0 (s.sequenceNumber + 1)) force
      trxn fresh) _ rfl small
  rcases updateColumn_cases (s.user.getD .empty) col
      (update.node 0 (s.sequenceNumber + 1)) force trxn fresh with
    ⟨cancelled, unchanged⟩ | accepted
  · -- A delete over a delete is cancelled.
    rw [unchanged]
    refine ⟨later, ?_⟩
    intro readCol
    simp only [KeyHistory.write, Function.update_apply]
    split_ifs with isCol
    · obtain ⟨newDel, _, old, newest, oldDel⟩ := cancelled
      have isDel : update = .del := by
        cases update with
        | put => cases newDel
        | del => rfl
      rw [isCol, isDel]
      obtain ⟨_, list⟩ := head?_eq_some_iff.mp newest
      change UserKey.latestSeen _ _ _ = none
      rw [latestSeen_of_nonempty (by rw [list]; simp), list, latestVersion_cons_of_del oldDel]
    · exact shows.seen readCol
  · refine ⟨?_, ?_⟩
    · apply later.replaceColumn accepted.dirty accepted.fetched accepted.others
      · exact accepted.column.flushable (flushable_extended flushable update small)
      · intro beyond
        exact absurd used (Nat.not_lt_of_le beyond)
      · intro unfetched c mem isColId
        obtain ⟨v, isPut⟩ := valid.put_of_unfetched meets unfetched mem isColId
        have above := shows.stored.above _ rfl unfetched c mem
        rw [isColId] at above
        rw [isPut] at accepted ⊢
        exact above_of_core accepted.column
          (above_extended above (shows.stored.plain_row mem) v)
      · intro _ mem
        obtain ⟨old, oldMem, same⟩ := accepted.column.exists_of_mem mem
        exact placed_of_core same (placed_extended (shows.stored.nodes _ rfl col) update
          s.sequenceNumber old oldMem)
    · intro readCol
      simp only [KeyHistory.write, Function.update_apply]
      split_ifs with isWritten
      · rw [isWritten, latestSeen_of_nonempty accepted.column_ne_nil, accepted.column.latestVersion]
        exact designates_update s.keyBlocks _ update _
      rw [latestSeen_of_same (accepted.others readCol isWritten) accepted.fetched]
      exact shows.seen readCol

theorem designates_submitted {v : V} {ikeySeq kbOffset ivalueSize : Nat}
    {last : Option (Nat × Update V)} (isValue : node.userValue = some v)
    (pre : Designates (placeValue keyBlocks ikeySeq kbOffset node.userValue) (some node.view)
      last) :
    Designates (placeValue keyBlocks ikeySeq kbOffset node.userValue)
      (some (node.updateColumnNode ikeySeq kbOffset ivalueSize).view) last := by
  have view : node.view = (.inMemory v, node.beginSeq) := by
    simp [view, designator, isValue]
  rw [view] at pre
  cases last with
  | none => cases pre
  | some write =>
    obtain ⟨_, update⟩ := write
    cases update with
    | del => cases pre
    | put =>
      obtain ⟨_, isVersion, loads⟩ := pre
      obtain ⟨isDesignator, isSeq⟩ := Prod.mk.inj (some.inj isVersion)
      rw [← isDesignator] at loads
      refine ⟨.keyBlock ikeySeq kbOffset, ?_, ?_⟩
      · rw [← isSeq]
        rfl
      simp only [Designator.load, placeValue, and_self, if_true, isValue]
      exact loads

theorem mem_of_node (isNode : s.node? col colNode = some node) :
    node ∈ ((s.user.getD .empty).columns col).colList ∧ node.beginSeq = colNode := by
  have begins := find?_some isNode
  exact ⟨mem_of_find?_eq_some isNode, of_decide_eq_true begins⟩

section

variable (valid : s.Valid count)

include valid

theorem Valid.node_unique {other : ColumnNode V}
    (isNode : s.node? col colNode = some node)
    (mem : other ∈ ((s.user.getD .empty).columns col).colList)
    (begins : other.beginSeq = colNode) : other = node := by
  obtain ⟨nodeMember, nodeBegins⟩ := mem_of_node isNode
  have chain := (valid.shows.stored.flushable _ rfl col).wellFormed.chain
  have apart : (((s.user.getD .empty).columns col).colList.map
      beginSeq).Nodup := by
    rw [List.Nodup, pairwise_map]
    exact chain.ordered.imp fun above => Nat.ne_of_gt above.1
  exact inj_on_of_nodup_map apart mem nodeMember (begins.trans nodeBegins.symm)

theorem Valid.setColumn (isNode : s.node? col colNode = some node)
    (pending : node.ikeySeq < kUnusedNextInternalKey) (keeps : Keeps s.keyBlocks keyBlocks)
    (flushable : data.Flushable s.sequenceNumber)
    (above : ∀ c ∈ rowColumns (s.row.getD []), (s.column col).Above c →
      data.Above c) (nodes : ∀ other ∈ data.colList, other.Placed keyBlocks)
    (sameEmpty : data.colList = [] ↔ (s.column col).colList = [])
    (seen : ∀ last, Designates s.keyBlocks (latestVersion (s.column col).colList) last
      → Designates keyBlocks (latestVersion data.colList) last) :
    (⟨some ((s.user.getD .empty).setColumn col data), s.row, s.hasBeenFlushed,
      s.sequenceNumber, keyBlocks, s.lastWrite⟩ : KeyHistory V).Valid count := by
  have shows := valid.shows
  have stored := shows.stored.keep keeps
  have isCol : ((s.user.getD .empty).setColumn col data).columns col = data := by
    rw [UserKey.setColumn_columns, if_pos rfl]
  have others : ∀ other, other ≠ col →
      ((s.user.getD .empty).setColumn col data).columns other =
        (s.user.getD .empty).columns other := by
    intro _ differs
    rw [UserKey.setColumn_columns, if_neg differs]
  have isDirty : ((s.user.getD .empty).setColumn col data).dirty = true :=
    shows.stored.dirty_of_pending (mem_of_node isNode).1 pending
  have sameFetched : ((s.user.getD .empty).setColumn col data).fetched =
      (s.user.getD .empty).fetched := rfl
  refine @Shows.valid V count _ ((s.user.getD .empty).setColumn col data) ⟨?_, ?_⟩ rfl
    valid.small
  · apply stored.replaceColumn isDirty sameFetched others
    · rw [isCol]
      exact flushable
    · intro beyond
      rw [isCol]
      exact sameEmpty.mpr (shows.stored.unused _ rfl col beyond)
    · intro unfetched c mem isColId
      rw [isCol]
      apply above c mem
      have pre := shows.stored.above _ rfl unfetched c mem
      rw [isColId] at pre
      exact pre
    · rw [isCol]
      exact nodes
  · intro readCol
    by_cases isWritten : readCol = col
    · have pre := shows.seen col
      have nonempty : (s.column col).colList ≠ [] := by
        intro empty
        have mem := (mem_of_node isNode).1
        rw [show ((s.user.getD .empty).columns col).colList = [] from empty] at mem
        cases mem
      rw [latestSeen_of_nonempty nonempty] at pre
      rw [isWritten, latestSeen_of_nonempty (by
        rw [isCol]
        exact fun empty => nonempty (sameEmpty.mp empty)), isCol]
      exact seen _ pre
    · rw [latestSeen_of_same (others readCol isWritten) rfl]
      exact (shows.seen readCol).keep keeps

theorem Valid.beginSubmit {workerId : Nat} (isNode : s.node? col colNode = some node)
    (pending : node.ikeySeq = 0) (working : 0 < workerId)
    (small : workerId < kUnusedNextInternalKey) :
    (s.setColumn col
      ((s.column col).modifyNode colNode (ColumnNode.beginSubmit workerId))).Valid count := by
  have stored := valid.shows.stored
  have unsubmitted : node.ikeySeq < kUnusedNextInternalKey := by
    rw [pending]
    decide
  have keeps : KeepsFlushable (ColumnNode.beginSubmit workerId : ColumnNode V → _) :=
    keepsFlushable_beginSubmit (Nat.ne_of_gt working) small
  have valued : ∀ other ∈ (s.column col).colList, other.requestType = .put →
      other.beginSeq = colNode → other.userValue.isSome = true := by
    intro other mem isPut begins
    have same := valid.node_unique isNode mem begins
    rw [same] at isPut ⊢
    exact (stored.nodes _ rfl col node (mem_of_node isNode).1).valued isPut unsubmitted
  apply valid.setColumn isNode unsubmitted (fun _ _ _ => rfl)
  · apply flushable_modifyNode (stored.flushable _ rfl col) keeps
    intro other _ sent
    exact absurd sent (Nat.not_le_of_lt small)
  · intro _ mem above
    exact above_modifyNode keeps.toKeepsInterval above fun other _ same =>
      Nat.not_le_of_lt (same.1 ▸ small) (stored.plain_row mem).submitted
  · intro _ mem
    obtain ⟨old, oldMem, same⟩ := mem_map.mp mem
    have placed := stored.nodes _ rfl col old oldMem
    rw [← same]
    split_ifs with begins
    · exact ⟨placed.begun, fun isPut _ => valued old oldMem isPut begins,
        fun _ sent => absurd sent (Nat.not_le_of_lt small)⟩
    · exact placed
  · simp [ColumnData.modifyNode]
  intro _ designates
  have same : latestVersion ((s.column col).modifyNode colNode
      (ColumnNode.beginSubmit workerId)).colList =
        latestVersion (s.column col).colList := by
    rw [latestVersion_modifyNode keeps.toKeepsInterval]
    unfold latestVersion
    cases isHead : (s.column col).colList.head? with
    | none => rfl
    | some newest =>
      have newestMember := mem_of_head? isHead
      simp only [filter_some, decide_eq_true_eq]
      split_ifs with shown
      · simp only [map_some]
        split_ifs with begins
        · obtain ⟨_, isValue⟩ := isSome_iff_exists.mp
            (valued newest newestMember shown.1 begins)
          simp [view, designator, ColumnNode.beginSubmit, isValue]
        · rfl
      · rfl
  rw [same]
  exact designates

theorem Valid.doVerticalMerge (isNode : s.node? col colNode = some node)
    (unsubmitted : node.ikeySeq < kUnusedNextInternalKey) :
    (s.setColumn col ((s.column col).doVerticalMerge [] colNode)).Valid count := by
  have stored := valid.shows.stored
  have flushable : (s.column col).Flushable s.sequenceNumber :=
    stored.flushable _ rfl col
  have kept := coreKept_doVerticalMerge flushable.wellFormed.chain colNode
  apply valid.setColumn isNode unsubmitted (fun _ _ _ => rfl) (kept.flushable flushable)
  · intro _ _ above
    exact above_of_core kept above
  · intro _ mem
    obtain ⟨old, oldMem, same⟩ := kept.exists_of_mem mem
    exact placed_of_core same (stored.nodes _ rfl col old oldMem)
  · rw [← head?_eq_none_iff, ← head?_eq_none_iff, ← map_eq_none_iff, kept.newest, map_eq_none_iff]
  intro _ designates
  rw [kept.latestVersion]
  exact designates

theorem Valid.submit {ikeySeq kbOffset ivalueSize : Nat}
    (isNode : s.node? col colNode = some node)
    (unsubmitted : node.ikeySeq < kUnusedNextInternalKey)
    (isKey : kUnusedNextInternalKey ≤ ikeySeq ∧ ikeySeq < ulongMax) (offset_lt : kbOffset < 64)
    (size_lt : ivalueSize < 2 ^ 32) (free : (s.keyBlocks ikeySeq kbOffset).isNone = true) :
    (⟨some ((s.user.getD .empty).setColumn col
        ((s.column col).modifyNode colNode
          (ColumnNode.updateColumnNode ikeySeq kbOffset ivalueSize))), s.row,
      s.hasBeenFlushed, s.sequenceNumber,
      placeValue s.keyBlocks ikeySeq kbOffset node.userValue, s.lastWrite⟩ :
      KeyHistory V).Valid count := by
  have stored := valid.shows.stored
  have keepsValues := keeps_placeValue free node.userValue
  have keeps : KeepsFlushable
      (updateColumnNode ikeySeq kbOffset ivalueSize : ColumnNode V → _) :=
    keepsFlushable_updateColumnNode isKey.1 isKey.2 kbOffset ivalueSize
  have placedNode := stored.nodes _ rfl col node (mem_of_node isNode).1
  have here : placeValue s.keyBlocks ikeySeq kbOffset node.userValue ikeySeq kbOffset =
      node.userValue := by
    simp [placeValue]
  apply valid.setColumn isNode unsubmitted keepsValues
  · apply flushable_modifyNode (stored.flushable _ rfl col) keeps
    intro other mem _
    have small := isKey.2
    refine ⟨rfl, ?_, offset_lt, size_lt, (stored.nodes _ rfl col other mem).begun⟩
    change ikeySeq < 2 ^ 64
    unfold ulongMax at small
    omega
  · intro c mem above
    apply above_modifyNode keeps.toKeepsInterval above
    intro _ _ same
    have isKeySeq : ikeySeq = c.ikeySeq := same.1
    have isOffset : kbOffset = c.offset := same.2
    have occupied := stored.places c mem
    rw [← isKeySeq, ← isOffset, ← not_isNone, free] at occupied
    cases occupied
  · intro _ mem
    obtain ⟨old, oldMem, same⟩ := mem_map.mp mem
    rw [← same]
    split_ifs with begins
    · rw [valid.node_unique isNode oldMem begins]
      refine ⟨placedNode.begun, ?_, ?_⟩
      · intro _ stillUnsubmitted
        exact absurd isKey.1 (Nat.not_le_of_lt stillUnsubmitted)
      intro isPut _ _
      change (placeValue s.keyBlocks ikeySeq kbOffset node.userValue ikeySeq
        kbOffset).isSome = true
      rw [here]
      exact placedNode.valued isPut unsubmitted
    · exact ((stored.keep keepsValues).nodes _ rfl col old oldMem)
  · simp [ColumnData.modifyNode]
  intro _ designates
  rw [latestVersion_modifyNode keeps.toKeepsInterval]
  have pre := designates.keep keepsValues
  unfold latestVersion at pre
  cases isHead : (s.column col).colList.head? with
  | none =>
    rw [isHead] at pre
    exact pre
  | some =>
    rw [isHead] at pre
    simp only [filter_some, decide_eq_true_eq] at pre ⊢
    split_ifs at pre ⊢ with shown
    · simp only [map_some] at pre ⊢
      split_ifs with begins
      · have same := valid.node_unique isNode (mem_of_head? isHead) begins
        rw [same] at pre shown ⊢
        obtain ⟨_, isValue⟩ := isSome_iff_exists.mp
          (placedNode.valued shown.1 unsubmitted)
        exact designates_submitted isValue pre
      · exact pre
    · exact pre

end

theorem Valid.fetch (valid : s.Valid count) :
    (⟨some ((s.user.getD .empty).fetchRow s.hasBeenFlushed s.row), s.row,
      s.hasBeenFlushed, s.sequenceNumber, s.keyBlocks, s.lastWrite⟩ :
      KeyHistory V).Valid count := by
  have stored := valid.stored.load
  have ready := stored.ready valid.small 0 fun _ => true
  refine ⟨valid.small, stored.fetch valid.small, ?_⟩
  intro col
  obtain ⟨version, found, designates⟩ := valid.reads col
  refine ⟨version, ?_, designates⟩
  intro time
  have inMemory := inMemory_fetchRow ready valid.small
  calc
    keyReads (some ((s.user.getD .empty).fetchRow s.hasBeenFlushed s.row))
        s.deviceRow col ulongMax time
      = bothFind (putSeen (((s.user.getD .empty).fetchRow s.hasBeenFlushed
          s.row).columns col).colList ulongMax) := inMemory.reads _ col ulongMax time
    _ = keyReads (some (s.user.getD .empty)) s.deviceRow col ulongMax time :=
        putSeen_fetchRow ready (Or.inr rfl) col time
    _ = keyReads s.user s.deviceRow col ulongMax time := keyReads_getD _ _ _ _ _
    _ = bothFind version := found time

theorem Valid.flush (valid : s.Valid count) (columns : count ≤ 64) (full : Bool)
    (curTime : Nat) (trxnGroupCompleted : ColumnNode V → Bool) :
    let left := flushKey (plainInfo count curTime trxnGroupCompleted) s.hasBeenFlushed full
      s.user s.row
    (⟨left.user, left.row, true, s.sequenceNumber, s.keyBlocks, s.lastWrite⟩ :
      KeyHistory V).Valid count := by
  intro left
  have infoReady := KeyStored.plainInfo_ready columns curTime trxnGroupCompleted
  have first := valid.stored.buildKey valid.small columns full curTime trxnGroupCompleted
  have firstReads := (keyKept_buildKey infoReady (fun _ => rfl) valid.small full
    (valid.stored.ready valid.small curTime trxnGroupCompleted)).reads
  obtain ⟨stored, reads⟩ : KeyStored count s.sequenceNumber true s.keyBlocks left.user
      left.row ∧ ∀ col time, keyReads left.user (rowOf true left.row) col ulongMax time =
        keyReads s.user s.deviceRow col ulongMax time := by
    simp only [left, flushKey]
    by_cases startsNext : (buildKey (plainInfo count curTime trxnGroupCompleted)
        s.hasBeenFlushed full s.user s.row).startsNext = true
    · -- The key is built again for the next table, which has room.
      rw [if_pos startsNext]
      rw [if_pos startsNext] at firstReads
      simp only [startsNext, if_true] at first
      have stays := buildKey_stays (plainInfo count curTime trxnGroupCompleted)
        s.hasBeenFlushed (buildKey (plainInfo count curTime trxnGroupCompleted)
          s.hasBeenFlushed full s.user s.row).user
        (buildKey (plainInfo count curTime trxnGroupCompleted)
          s.hasBeenFlushed full s.user s.row).row
      have second := first.buildKey valid.small columns false curTime trxnGroupCompleted
      have secondReads := (keyKept_buildKey infoReady (fun _ => rfl) valid.small false
        (first.ready valid.small curTime trxnGroupCompleted)).reads
      simp only [stays, Bool.false_eq_true, if_false] at second secondReads
      refine ⟨second, ?_⟩
      intro col time
      rw [secondReads ulongMax (Or.inr rfl) col time, firstReads ulongMax (Or.inr rfl) col time]
      rfl
    · rw [if_neg startsNext]
      rw [if_neg startsNext] at firstReads
      simp only [startsNext, Bool.false_eq_true, if_false] at first
      exact ⟨first, fun col time => firstReads ulongMax (Or.inr rfl) col time⟩
  refine ⟨valid.small, stored, ?_⟩
  intro col
  obtain ⟨version, found, designates⟩ := valid.reads col
  exact ⟨version, fun time => (reads col time).trans (found time), designates⟩

theorem Valid.evict (valid : s.Valid count) {loaded : UserKey V}
    (isLoaded : s.user = some loaded) (isClean : loaded.dirty = false) :
    (⟨none, s.row, s.hasBeenFlushed, s.sequenceNumber, s.keyBlocks,
      s.lastWrite⟩ : KeyHistory V).Valid count := by
  refine ⟨valid.small, ⟨⟨fun _ none => (by cases none), fun _ none => (by cases none),
    valid.stored.places⟩, valid.stored.written, fun _ none => (by cases none),
    fun _ none => (by cases none), fun _ none => (by cases none)⟩, ?_⟩
  intro col
  obtain ⟨version, found, designates⟩ := valid.reads col
  refine ⟨version, ?_, designates⟩
  intro time
  have ready := valid.stored.ready valid.small 0 fun _ => true
  rw [isLoaded] at ready
  rw [← found time, isLoaded]
  exact (ready.reads_clean isClean col ulongMax time).symm

variable {next : KeyHistory V} {action : KeyStep V}

theorem Valid.step (columns : count ≤ 64) (valid : s.Valid count)
    (taken : s.step count action = some next) (meets : s.DeletesFetched action) :
    next.Valid count := by
  cases action with
  | otherKey =>
    simp only [KeyHistory.step] at taken
    split_ifs at taken with small
    cases taken
    exact ⟨small, valid.stored.mono (Nat.le_succ _), valid.reads⟩
  | write =>
    simp only [KeyHistory.step] at taken
    split_ifs at taken with accepted
    cases taken
    exact valid.write accepted.1 accepted.2 meets
  | beginSubmit =>
    simp only [KeyHistory.step] at taken
    split at taken
    next isNode =>
      split_ifs at taken with accepted
      cases taken
      exact valid.beginSubmit isNode accepted.1 accepted.2.1 accepted.2.2
    next => cases taken
  | doVerticalMerge =>
    simp only [KeyHistory.step] at taken
    split at taken
    next isNode =>
      split_ifs at taken with accepted
      cases taken
      exact valid.doVerticalMerge isNode accepted.2
    next => cases taken
  | submit =>
    simp only [KeyHistory.step] at taken
    split at taken
    next isNode =>
      split_ifs at taken with accepted
      cases taken
      obtain ⟨unsubmitted, isKey, offset_lt, size_lt, free⟩ := accepted
      exact valid.submit isNode unsubmitted.2 isKey offset_lt size_lt free
    next => cases taken
  | fetch =>
    simp only [KeyHistory.step] at taken
    split at taken <;> cases taken
    next isUser isRow =>
      have fetched := valid.fetch
      rw [isUser] at fetched
      rw [← isRow]
      exact fetched
  | flush full curTime trxnGroupCompleted =>
    cases taken
    exact valid.flush columns full curTime trxnGroupCompleted
  | evict =>
    simp only [KeyHistory.step] at taken
    split at taken
    next isLoaded =>
      split_ifs at taken with isDirty
      cases taken
      exact valid.evict isLoaded (Bool.eq_false_iff.mpr isDirty)
    next => cases taken

theorem getColumnNode_of_del (wellFormed : data.WellFormed)
    (newest : data.colList.head? = some node) (isDel : node.requestType = .del) (time : Nat) :
    data.getColumnNode time ulongMax 0 = .deleted := by
  obtain ⟨_, list⟩ := head?_eq_some_iff.mp newest
  have begins := (wellFormed.chain.wellFormed node (by rw [list]; exact mem_cons_self)).begin_lt_max
  have cover := covers_iff.mpr ⟨Nat.le_of_lt begins, Or.inr (.inr isDel)⟩
  rw [wellFormed.getColumnNode_eq, list, lookupIn, find?_cons_of_pos cover]
  simp [answer, hidden_of_del isDel]

theorem Valid.newest_of_del (valid : s.Valid count) (col : Nat) (force : Bool)
    (trxn : Transaction) (fresh : Nat) (small : s.sequenceNumber + 1 < ulongMax) :
    let updated := (s.user.getD .empty).updateColumn col
      (Update.del.node 0 (s.sequenceNumber + 1)) force trxn fresh
    (updated.columns col).WellFormed ∧ updated.fetched = (s.user.getD .empty).fetched ∧
      ∃ node, (updated.columns col).colList.head? = some node ∧ node.requestType = .del := by
  intro updated
  have flushable := valid.shows.stored.flushable _ rfl col
  rcases updateColumn_cases (s.user.getD .empty) col
      (Update.del.node 0 (s.sequenceNumber + 1)) force trxn fresh with
    ⟨cancelled, unchanged⟩ | accepted
  · obtain ⟨_, _, old, newest, oldDel⟩ := cancelled
    simp only [updated, unchanged]
    exact ⟨flushable.wellFormed, trivial, old, newest, oldDel⟩
  have extended := flushable_extended flushable (.del : Update V) small
  refine ⟨(accepted.column.flushable extended).wellFormed, accepted.fetched, ?_⟩
  have newest := accepted.column.newest
  obtain ⟨node, isNode, same⟩ := map_eq_some_iff.mp newest
  have sameType := congrArg requestType same
  exact ⟨node, isNode, sameType⟩

/-- A delete has been written over a column of the row that is not fetched. -/
structure Uncovered (s next : KeyHistory V) (col : Nat) (c : RowColumn)
    (updated : UserKey V) : Prop where
  user : next.user = some updated
  unfetched : updated.fetched = false
  deleted : ∀ time, updated.getColumnNode col
    { seqNum := ulongMax, curTime := time, ttl := 0 } = .deleted
  sameRow : next.deviceRow = s.deviceRow
  sameBlocks : next.keyBlocks = s.keyBlocks
  found : getColumnInfo s.hasBeenFlushed s.deviceRow.columns col ulongMax 0 0 =
    some c
  lastWrite : next.lastWrite col = some (s.sequenceNumber + 1, .del)

section

variable (valid : s.Valid count) (taken : s.step count action = some next)
  (fails : ¬ s.DeletesFetched action)

include valid taken fails

theorem Valid.uncovered : ∃ col c updated, s.Uncovered next col c updated := by
  cases action with
  | write col update force trxn fresh _ =>
    cases update with
    | put => exact absurd trivial fails
    | del =>
      simp only [KeyHistory.step] at taken
      split_ifs at taken with accepted
      obtain ⟨unfetched, inRow⟩ := not_or.mp fails
      rw [Bool.not_eq_true, isNone_eq_false_iff] at inRow
      obtain ⟨c, isCol⟩ := isSome_iff_exists.mp inRow
      obtain ⟨wellFormed, sameFetched, _, newest, isDel⟩ :=
        valid.newest_of_del col force trxn fresh accepted.1
      have notFetched : (s.user.getD .empty).fetched = false := by
        cases isUser : s.user with
        | none => rfl
        | some =>
          rw [isUser, any_some, Bool.not_eq_true] at unfetched
          exact unfetched
      rw [← some.inj taken]
      exact ⟨col, c, _, rfl, sameFetched.trans notFetched,
        fun time => getColumnNode_of_del wellFormed newest isDel time, rfl, rfl, isCol,
        Function.update_self ..⟩
  | _ => exact absurd trivial fails

theorem Valid.not_readsLastWrite : ¬ next.ReadsLastWrite := by
  obtain ⟨col, c, _, uncovered⟩ := valid.uncovered taken fails
  have occupied := valid.stored.places c (mem_of_getColumnInfo uncovered.found).1
  obtain ⟨v, isValue⟩ := isSome_iff_exists.mp occupied
  have read : next.get col 0 = some v := by
    simp only [KeyHistory.get, uncovered.user, uncovered.sameRow, uncovered.sameBlocks, getRead,
      uncovered.deleted, uncovered.unfetched, Bool.false_eq_true, if_false, DeviceRow.getValue]
    change (Option.map _ (getColumnInfo s.hasBeenFlushed s.deviceRow.columns col
      ulongMax 0 0)).bind _ = some v
    rw [uncovered.found]
    exact isValue
  have deleted : next.written col = none := by
    simp only [KeyHistory.written, uncovered.lastWrite]
  intro reads
  have same := reads col 0
  rw [read, deleted] at same
  cases same

end

theorem valid_start (count : Nat) : ({} : KeyHistory V).Valid count := by
  have small : 1 < ulongMax := by decide
  refine ⟨small, ⟨⟨fun _ none => (by cases none), fun _ none => (by cases none), ?_⟩,
    fun _ none => (by cases none), fun _ none => (by cases none), fun _ none => (by cases none),
    fun _ none => (by cases none)⟩, ?_⟩
  · intro _ mem
    simp [rowColumns] at mem
  intro _
  exact ⟨none, fun _ => rfl, rfl⟩

end KeyHistory

namespace PooledKey

variable {count : Nat} {s next : PooledKey V} {action : KeyStep V}

theorem step_cases (taken : s.step count action = some next) :
    s.history.step count action = some next.history ∧
      next.stale = (s.pointers action).filter fun colId =>
        next.history.user.any fun user => (user.columns colId).colList.isEmpty := by
  obtain ⟨_, stepped, isNext⟩ := map_eq_some_iff.mp taken
  rw [← isNext]
  exact ⟨stepped, rfl⟩

/-- What a write on a new `UserKey` leaves in its lists. -/
theorem isEmpty_of_write {col : Nat} {update : Update V} {force : Bool} {trxn : Transaction}
    {fresh : Nat} {recycled : List Nat} {history : KeyHistory V} (isNew : s.history.user = none)
    (taken : s.history.step count (.write col update force trxn fresh recycled) = some history)
    (other : Nat) :
    (history.user.any fun user => (user.columns other).colList.isEmpty) =
      !decide (other = col) := by
  simp only [KeyHistory.step] at taken
  split_ifs at taken
  cases taken
  simp only [KeyHistory.write, isNew, any_some]
  rcases updateColumn_cases (UserKey.empty : UserKey V) col
      (update.node 0 (s.history.sequenceNumber + 1)) force trxn fresh with
    ⟨cancelled, -⟩ | accepted
  · obtain ⟨_, _, _, newest, -⟩ := cancelled
    cases newest
  by_cases same : other = col
  · obtain ⟨node, isNode, -⟩ := map_eq_some_iff.mp accepted.column.newest
    obtain ⟨_, list⟩ := head?_eq_some_iff.mp isNode
    rw [same, getD_none, list]
    simp
  rw [getD_none, accepted.others other same]
  simp [same, UserKey.empty]

theorem stale_of_step (unstale : s.stale = []) (taken : s.step count action = some next)
    (ordinary : s.Ordinary action) : next.stale = [] := by
  obtain ⟨stepped, isStale⟩ := step_cases taken
  rw [isStale, List.filter_eq_nil_iff]
  cases action with
  | write col update force trxn fresh recycled =>
    cases isUser : s.history.user with
    | some => simp [pointers, isUser, unstale]
    | none =>
      intro other isOther
      have isCol := ordinary.2 (by simp [isUser]) other (by simpa [pointers, isUser] using isOther)
      rw [isEmpty_of_write isUser stepped]
      simp [isCol]
  | _ => simp [pointers, unstale]

/-- A step that is not ordinary writes over a column of the row that is not fetched, or leaves a
pointer to a deleted node. -/
theorem not_ordinary (taken : s.step count action = some next) (fails : ¬ s.Ordinary action) :
    ¬ s.history.DeletesFetched action ∨ ∃ other, other ∈ next.stale := by
  by_cases deletes : s.history.DeletesFetched action
  · refine .inr ?_
    have points := not_and.mp fails deletes
    cases action with
    | write col update force trxn fresh recycled =>
      dsimp only at points
      push Not at points
      obtain ⟨isNew, other, isOther, differs⟩ := points
      obtain ⟨stepped, isStale⟩ := step_cases taken
      refine ⟨other, ?_⟩
      rw [isStale, mem_filter, isEmpty_of_write (isNone_iff_eq_none.mp isNew) stepped]
      simp [pointers, isNew, isOther, differs]
    | _ => exact absurd trivial points
  exact .inl deletes

structure Valid (count : Nat) (s : PooledKey V) : Prop where
  history : s.history.Valid count
  unstale : s.stale = []

theorem Valid.step (columns : count ≤ 64) (valid : s.Valid count)
    (taken : s.step count action = some next) (ordinary : s.Ordinary action) :
    next.Valid count :=
  ⟨valid.history.step columns (step_cases taken).1 ordinary.1,
    stale_of_step valid.unstale taken ordinary⟩

end PooledKey

/-- `DBImpl::Get` returns the last write of every column in every state of a history exactly when
every delete finds the key fetched or no version of the column in its row, and no `UserKey` comes
from the pool with a pointer for another column than the written one. -/
theorem readsLastWrite_iff_ordinary {count : Nat} (columns : count ≤ 64)
    (actions : List (KeyStep V)) :
    Run.AllHold (PooledKey.step count) PooledKey.ReadsLastWrite actions {} ↔
      Run.AllMeet (PooledKey.step count) PooledKey.Ordinary actions {} := by
  apply Run.allHold_iff_allMeet (PooledKey.Valid count)
  · intro s valid col time
    rw [PooledKey.get, valid.unstale, if_neg not_mem_nil, valid.history.readsLastWrite col time]
  · intro _ _ _ valid taken ordinary
    exact valid.step columns taken ordinary
  · intro s action next valid taken reads
    by_contra fails
    rcases PooledKey.not_ordinary taken fails with uncovered | ⟨other, isStale⟩
    · apply valid.history.not_readsLastWrite (PooledKey.step_cases taken).1 uncovered
      intro col time
      have read := reads col time
      rw [PooledKey.get] at read
      split_ifs at read
      exact some.inj read
    · have read := reads other 0
      rw [PooledKey.get, if_pos isStale] at read
      cases read
  · exact ⟨KeyHistory.valid_start count, rfl⟩

def evictedPut : List (KeyStep Nat) :=
  [.write 0 (.put 7) false {} 0 [], .beginSubmit 0 2 1, .doVerticalMerge 0 2, .submit 0 2 1088 0 8,
    .flush false 0 (fun _ => true), .evict]

/-- After a put that makes the key fetchable, the delete is read. -/
theorem evictedPut_fetched_reads :
    1 ≤ 64 ∧ Run.AllHold (PooledKey.step 1) PooledKey.ReadsLastWrite
      (evictedPut ++ [.write 0 (.put 8) false {} 0 [0], .fetch, .write 0 .del false {} 0 []]) {} :=
  ⟨by decide, (readsLastWrite_iff_ordinary (by decide) _).mpr (by decide +kernel)⟩

/-- Without it, the value of the put is read after the delete; and on the `UserKey` of the evicted
put a read of its column after a delete of another one follows a pointer to a deleted node. -/
theorem deleted_value_read :
    ((Run.exec (PooledKey.step 1) (evictedPut ++ [.write 0 .del false {} 0 []]) {}).map
        (fun s => (s.get 0 0, s.history.written 0)) = some (some (some 7), none) ∧
      ¬ Run.AllHold (PooledKey.step 1) PooledKey.ReadsLastWrite
        (evictedPut ++ [.write 0 .del false {} 0 []]) {}) ∧
    (Run.exec (PooledKey.step 2) (evictedPut ++ [.write 1 .del false {} 0 [0]]) {}).map
        (fun s => (s.get 0 0, s.history.written 0)) = some (none, some 7) := by
  have reads : (Run.exec (PooledKey.step 1) (evictedPut ++ [.write 0 .del false {} 0 []]) {}).map
      (fun s => (s.get 0 0, s.history.written 0)) = some (some (some 7), none) := by
    decide +kernel
  refine ⟨⟨reads, ?_⟩, by decide +kernel⟩
  intro all
  obtain ⟨_, runs, read⟩ := map_eq_some_iff.mp reads
  have same := all.final runs 0 0
  obtain ⟨isValue, isWritten⟩ := Prod.mk.inj read
  rw [isValue, isWritten] at same
  cases same

end InsDb
