import InsDb.FlushColumn

/-!
# Fetching a row

A `UserKey` made by a write has only the versions written since then; the columns of its
row join them when a flush visits the key.  This module says what both readers find in a
row as a flush writes it, and when inserting the row below the versions in memory changes
no live read.
-/

namespace InsDb

open InsDb.Library InsDb.Library.Sweep List ColumnNode

variable {V : Type}

def keyReads (user : Option (UserKey V)) (row : DeviceRow) (col seqNum time : Nat) :
    Option (Designator V × Nat) × Option (Designator V) :=
  let point : ReadPoint := { seqNum := seqNum, curTime := time, ttl := 0 }
  (padRead user row col point, getRead user row col point)

def bothFind (version : Option (Designator V × Nat)) :
    Option (Designator V × Nat) × Option (Designator V) :=
  (version, version.map Prod.fst)

/-- A column with a sequence number of this run and without a time stamp. -/
structure RowColumn.Plain (count bound : Nat) (c : RowColumn) : Prop where
  colId_lt : c.colId < count
  offset_lt : c.offset < 64
  submitted : kUnusedNextInternalKey ≤ c.ikeySeq
  ikeySeq_lt : c.ikeySeq < ulongMax
  ivalueSize_lt : c.ivalueSize < 2 ^ 32
  hasSeq : c.hasSeq = true
  seq : c.seq = some (c.seq.getD 0)
  begun : 0 < c.seq.getD 0
  below : c.seq.getD 0 ≤ bound
  ts : c.ts = none
  hasTs : c.hasTs = false

def RowColumn.node (c : RowColumn) : ColumnNode V :=
  ColumnNode.fetched (c.seq.getD 0) 0 c.ikeySeq c.ivalueSize c.offset

def rowColumn? (columns : List RowColumn) (col : Nat) : Option RowColumn :=
  columns.find? fun c => c.colId = col

theorem mem_of_rowColumn {columns : List RowColumn} {col : Nat} {c : RowColumn}
    (isCol : rowColumn? columns col = some c) :
    c ∈ columns ∧ c.colId = col :=
  ⟨mem_of_find?_eq_some isCol, by simpa using find?_some isCol⟩

def rowSeen (columns : List RowColumn) (col seqNum : Nat) : Option (Designator V × Nat) :=
  ((rowColumn? columns col).filter fun c => c.seq.getD 0 ≤ seqNum).map
    fun c => c.node.view

section Plain

variable {count bound : Nat} {columns : List RowColumn}
  (plain : ∀ c ∈ columns, c.Plain count bound)

include plain

theorem getFrom_plain (col seqNum curTime seq ts : Nat) :
    getFrom true col seqNum curTime 0 seq ts columns =
      (rowColumn? columns col).filter fun c => c.seq.getD 0 ≤ seqNum := by
  induction columns generalizing seq ts with
  | nil => rfl
  | cons c rest ih =>
    have own := plain c mem_cons_self
    have restPlain : ∀ other ∈ rest, other.Plain count bound :=
      fun other mem => plain other (mem_cons_of_mem _ mem)
    by_cases same : c.colId = col
    · have ownSeq : c.ownSeq true seq = c.seq.getD 0 := by
        rw [RowColumn.ownSeq, own.seq]
        simp [own.hasSeq]
      have stored : c.ikeySeq ≠ 0 := by
        have sent := own.submitted
        unfold kUnusedNextInternalKey at sent
        omega
      simp [getFrom, rowColumn?, same, Option.filter_some, ownSeq, stored]
    · simpa [getFrom, rowColumn?, same] using ih restPlain (c.seq.getD seq) (c.ts.getD ts)

theorem fillFrom_plain (col seqNum curTime ttl seq : Nat) :
    fillFrom true col seqNum curTime ttl seq 0 columns =
      ((rowColumn? columns col).filter fun c => c.seq.getD 0 ≤ seqNum).map
        fun c => (c, c.seq.getD 0) := by
  induction columns generalizing seq with
  | nil => rfl
  | cons c rest ih =>
    have own := plain c mem_cons_self
    have restPlain : ∀ other ∈ rest, other.Plain count bound :=
      fun other mem => plain other (mem_cons_of_mem _ mem)
    by_cases same : c.colId = col
    · have iterSeq : c.iterSeq true seq = c.seq.getD 0 := by
        rw [RowColumn.iterSeq, own.seq]
        simp [own.hasSeq]
      simp only [fillFrom, rowColumn?, same, decide_true, find?_cons_of_pos,
        Option.filter_some, iterSeq, own.ts, Option.getD_none, true_or, and_true, if_true,
        decide_eq_true_eq]
      split_ifs <;> rfl
    · simpa [fillFrom, rowColumn?, same, own.ts] using ih restPlain (c.seq.getD seq)

theorem keyReads_row (col seqNum time : Nat) :
    keyReads (none : Option (UserKey V)) { columns := columns, flushed := true } col seqNum
      time = bothFind (rowSeen columns col seqNum) := by
  simp only [keyReads, padRead, getRead, DeviceRow.padEntry, DeviceRow.getValue, getColumnInfo,
    fillIterScratchPadWithColumnInfo, getFrom_plain plain, fillFrom_plain plain, bothFind, rowSeen,
    Option.map_map]
  rfl

theorem fetchedNodes_plain (seq ts : Nat) :
    (fetchedNodes true seq ts columns : List (Nat × ColumnNode V)) =
      columns.map fun c => (c.colId, c.node) := by
  induction columns generalizing seq ts with
  | nil => rfl
  | cons c rest ih =>
    have own := plain c mem_cons_self
    have ownSeq : c.ownSeq true seq = c.seq.getD 0 := by
      rw [RowColumn.ownSeq, own.seq]
      simp [own.hasSeq]
    have ownTs : c.ownTs ts = 0 := by simp [RowColumn.ownTs, own.hasTs]
    rw [fetchedNodes, map_cons, ownSeq, ownTs,
      ih fun other mem => plain other (mem_cons_of_mem _ mem)]
    rfl

end Plain

section Memory

variable {user : UserKey V} {row : DeviceRow} {col seqNum : Nat} (time : Nat)
  (wellFormed : (user.columns col).WellFormed)
  (kept : ∀ node ∈ (user.columns col).colList, node.dropped = false)

include wellFormed

theorem getColumnNode_eq_lookupIn : user.getColumnNode col ⟨seqNum, time, 0⟩ =
      lookupIn (user.columns col).colList time seqNum 0 :=
  wellFormed.getColumnNode_eq time seqNum 0

theorem keyReads_of_absent
    (absent : (user.columns col).colList.find? (ColumnNode.covers seqNum) = none) :
    keyReads (some user) row col seqNum time =
      if user.fetched then bothFind none else keyReads none row col seqNum time := by
  have lookup : user.getColumnNode col ⟨seqNum, time, 0⟩ = .absent := by
    rw [getColumnNode_eq_lookupIn time wellFormed, lookupIn, absent]
  simp only [keyReads, padRead, getRead, lookup]
  split_ifs <;> rfl

include kept

theorem keyReads_of_put {version : Designator V × Nat}
    (found : putSeen (user.columns col).colList seqNum = some version) :
    keyReads (some user) row col seqNum time = bothFind (some version) := by
  obtain ⟨node, isNode, rfl⟩ := Option.map_eq_some_iff.mp found
  obtain ⟨cover, isPut⟩ := Option.filter_eq_some_iff.mp isNode
  have notDropped := kept node (mem_of_find?_eq_some cover)
  have shown : node.hidden time 0 = false := by
    simp [ColumnNode.hidden, notDropped, of_decide_eq_true isPut]
  have lookup : user.getColumnNode col ⟨seqNum, time, 0⟩ = .found node := by
    rw [getColumnNode_eq_lookupIn time wellFormed, lookupIn, cover]
    simp [answer, shown]
  simp only [keyReads, padRead, getRead, lookup]
  rfl

theorem keyReads_memory (rowless : user.fetched = true ∨
      keyReads (none : Option (UserKey V)) row col seqNum time = bothFind none) :
    keyReads (some user) row col seqNum time =
      bothFind (putSeen (user.columns col).colList seqNum) := by
  cases found : putSeen (user.columns col).colList seqNum with
  | some => exact keyReads_of_put time wellFormed kept found
  | none =>
    cases cover : (user.columns col).colList.find? (covers seqNum) with
    | none =>
      rw [keyReads_of_absent time wellFormed cover]
      rcases rowless with fetched | noColumn
      · simp [fetched]
      · simp [noColumn]
    | some node =>
      have isDel : node.requestType = .del := by
        cases kind : node.requestType with
        | del => rfl
        | put => simp [putSeen, cover, kind] at found
      have lookup : ∀ curTime, user.getColumnNode col ⟨seqNum, curTime, 0⟩ = .deleted := by
        intro curTime
        rw [getColumnNode_eq_lookupIn curTime wellFormed, lookupIn, cover]
        simp [answer, hidden_of_del isDel]
      have noValue : user.fetched = false →
          (row.getValue col ⟨seqNum, time, 0⟩ : Option (Designator V)) = none := by
        intro notFetched
        rw [notFetched] at rowless
        exact congrArg Prod.snd (rowless.resolve_left (by simp))
      simp only [keyReads, padRead, getRead, lookup, bothFind]
      cases fetched : user.fetched
      · simp [noValue fetched]
      · simp

end Memory

/-- The column of the row is older than every version in memory and not one of them, and
every live reader from the oldest version on finds a Put in memory. -/
structure ColumnData.TakesRow (data : ColumnData V) (snaps : List Nat)
    (c : RowColumn) (oldest : ColumnNode V) : Prop where
  older : c.seq.getD 0 < oldest.beginSeq
  another : ¬ (oldest.ikeySeq = c.ikeySeq ∧ oldest.kbOffset = c.offset)
  covered : ∀ seqNum, LiveAt snaps seqNum → oldest.beginSeq ≤ seqNum →
    (putSeen data.colList seqNum).isSome = true

section Insert

variable {count bound : Nat} {c : RowColumn} (plain : c.Plain count bound)

include plain

theorem RowColumn.Plain.inKeyBlock (endSeq : Nat) :
    ({ (c.node : ColumnNode V) with endSeq := endSeq }).InKeyBlock := by
  have ikeySeq_lt := plain.ikeySeq_lt
  unfold ulongMax at ikeySeq_lt
  exact ⟨rfl, by simp only [RowColumn.node, fetched]; omega, plain.offset_lt,
    plain.ivalueSize_lt, plain.begun⟩

theorem RowColumn.Plain.stored : (c.node : ColumnNode V).ikeySeq ≠ 0 := by
  have sent := plain.submitted
  unfold kUnusedNextInternalKey at sent
  simp only [RowColumn.node, fetched]
  omega

theorem flushable_of_row (small : bound < ulongMax) (data : ColumnData V) :
    ({ data with colList := [c.node], latestColNode := some (c.seq.getD 0) } :
      ColumnData V).Flushable bound := by
  have begins := plain.below
  have ikeySeq_lt := plain.ikeySeq_lt
  refine ⟨⟨⟨?_, pairwise_singleton _ _⟩, rfl⟩, ?_, ?_, ?_, ?_⟩
  · intro node mem
    obtain rfl := mem_singleton.mp mem
    refine ⟨?_, ?_, ?_, fun _ pending => absurd pending (plain.stored)⟩
    · simp only [RowColumn.node, fetched]
      omega
    · simp only [RowColumn.node, fetched]
      omega
    intro isDel
    cases isDel
  · intro node mem
    obtain rfl := mem_singleton.mp mem
    exact ⟨begins, Or.inl rfl⟩
  · intro node mem
    obtain rfl := mem_singleton.mp mem
    exact ⟨rfl, rfl⟩
  · intro _ isHead _
    obtain rfl := Option.some.inj isHead
    exact ⟨fun _ => Nat.ne_of_lt ikeySeq_lt, by simp [RowColumn.node, fetched]⟩
  intro _ mem _ _ _
  obtain rfl := mem_singleton.mp mem
  exact plain.inKeyBlock ulongMax

theorem flushable_append_row {data : ColumnData V} (flushable : data.Flushable bound)
    {oldest : ColumnNode V} (last : data.colList.getLast? = some oldest)
    (older : c.seq.getD 0 < oldest.beginSeq) :
    ({ data with
      colList := data.colList ++ [{ c.node with endSeq := oldest.beginSeq }] } :
      ColumnData V).Flushable bound := by
  have sameHead : (data.colList ++ [{ c.node with endSeq := oldest.beginSeq }]).head? =
      data.colList.head? := by
    cases listed : data.colList with
    | nil => simp [listed] at last
    | cons => rfl
  have oldestBelow := (flushable.below oldest (mem_of_getLast? last)).1
  refine ⟨⟨?_, ?_⟩, ?_, ?_, ?_, ?_⟩
  · exact flushable.wellFormed.chain.append_oldest last older rfl (plain.stored)
  · rw [sameHead]
    exact flushable.wellFormed.latest
  · intro node mem
    rcases mem_append.mp mem with inList | added
    · exact flushable.below node inList
    obtain rfl := mem_singleton.mp added
    exact ⟨plain.below, Or.inr oldestBelow⟩
  · intro node mem
    rcases mem_append.mp mem with inList | added
    · exact flushable.plain node inList
    obtain rfl := mem_singleton.mp added
    exact ⟨rfl, rfl⟩
  · intro node isHead
    rw [sameHead] at isHead
    exact flushable.newest node isHead
  intro node mem
  rcases mem_append.mp mem with inList | added
  · exact flushable.stored node inList
  obtain rfl := mem_singleton.mp added
  exact fun _ _ _ => plain.inKeyBlock _

end Insert

theorem putSeen_append_of_some {front : List (ColumnNode V)} {seqNum : Nat}
    {version : Designator V × Nat} (found : putSeen front seqNum = some version)
    (back : List (ColumnNode V)) : putSeen (front ++ back) seqNum = some version := by
  obtain ⟨_, isNode, rfl⟩ := Option.map_eq_some_iff.mp found
  obtain ⟨cover, isPut⟩ := Option.filter_eq_some_iff.mp isNode
  simp [putSeen, find?_append, cover, of_decide_eq_true isPut]

theorem putSeen_append_of_none {front : List (ColumnNode V)} {seqNum : Nat}
    (absent : front.find? (ColumnNode.covers seqNum) = none) (back : List (ColumnNode V)) :
    putSeen (front ++ back) seqNum = putSeen back seqNum := by
  simp [putSeen, absent]

theorem putSeen_row (c : RowColumn) {endSeq seqNum : Nat}
    (notEnded : endSeq = ulongMax ∨ seqNum < endSeq) :
    putSeen [{ (c.node : ColumnNode V) with endSeq := endSeq }] seqNum =
      ((some c).filter fun c => c.seq.getD 0 ≤ seqNum).map
        fun c => c.node.view := by
  by_cases begun : c.seq.getD 0 ≤ seqNum
  · have cover : ({ (c.node : ColumnNode V) with endSeq := endSeq }).covers seqNum = true :=
      covers_iff.mpr ⟨begun, by rcases notEnded with isOpen | below <;> simp [*]⟩
    simp only [putSeen, find?_cons_of_pos cover, Option.filter_some, begun, decide_true]
    rfl
  have notCovering : ¬ ({ (c.node : ColumnNode V) with endSeq := endSeq }).covers
      seqNum = true := fun cover => begun (covers_iff.mp cover).1
  simp only [putSeen, find?_cons_of_neg notCovering, find?_nil, Option.filter_some,
    begun, decide_false]
  rfl

section Fetch

variable {count bound : Nat} {columns : List RowColumn} {c : RowColumn}
  {user : UserKey V} {snaps : List Nat}

theorem flushable_insertColumnNode {data : ColumnData V} (flushable : data.Flushable bound)
    (small : bound < ulongMax) (plain : c.Plain count bound)
    (takes : ∀ oldest, data.colList.getLast? = some oldest →
      data.TakesRow snaps c oldest) :
    (data.insertColumnNode c.node).2.Flushable bound := by
  unfold ColumnData.insertColumnNode
  cases last : data.colList.getLast? with
  | none => exact flushable_of_row plain small data
  | some oldest =>
    have taken := takes oldest last
    have another : ¬ (oldest.ikeySeq = (c.node : ColumnNode V).ikeySeq ∧
        oldest.kbOffset = (c.node : ColumnNode V).kbOffset) := taken.another
    simp only [if_neg another]
    exact flushable_append_row plain flushable last taken.older

theorem keyReads_insertColumnNode (plain : ∀ other ∈ columns, other.Plain count bound)
    (unfetched : user.fetched = false) (isCol : rowColumn? columns c.colId = some c)
    (flushable : (user.columns c.colId).Flushable bound)
    (takes : ∀ oldest, (user.columns c.colId).colList.getLast? = some oldest →
      (user.columns c.colId).TakesRow snaps c oldest)
    {seqNum : Nat} (live : LiveAt snaps seqNum) (time : Nat) :
    keyReads (some user) { columns := columns, flushed := true } c.colId seqNum time =
      bothFind (putSeen
        ((user.columns c.colId).insertColumnNode c.node).2.colList seqNum) := by
  have wellFormed := flushable.wellFormed
  -- The row answers wherever memory has no version.
  have fromRow : (user.columns c.colId).colList.find? (covers seqNum) = none →
      keyReads (some user) { columns := columns, flushed := true } c.colId seqNum time =
        bothFind (((some c).filter fun c => c.seq.getD 0 ≤ seqNum).map
          fun c => c.node.view) := by
    intro absent
    rw [keyReads_of_absent time wellFormed absent, unfetched, keyReads_row plain, rowSeen, isCol]
    rfl
  unfold ColumnData.insertColumnNode
  cases last : (user.columns c.colId).colList.getLast? with
  | none =>
    have empty := getLast?_eq_none_iff.mp last
    rw [fromRow (by simp [empty]), ← putSeen_row c (Or.inl rfl)]
    rfl
  | some oldest =>
    have taken := takes oldest last
    have another : ¬ (oldest.ikeySeq = (c.node : ColumnNode V).ikeySeq ∧
        oldest.kbOffset = (c.node : ColumnNode V).kbOffset) := taken.another
    simp only [if_neg another]
    by_cases reached : oldest.beginSeq ≤ seqNum
    · obtain ⟨_, found⟩ := Option.isSome_iff_exists.mp (taken.covered seqNum live reached)
      rw [putSeen_append_of_some found]
      exact keyReads_of_put time wellFormed (fun node mem => (flushable.plain node mem).1) found
    have absent : (user.columns c.colId).colList.find? (covers seqNum) = none := by
      rw [find?_eq_none]
      intro _ mem cover
      have begun := (covers_iff.mp cover).1
      have notOlder := wellFormed.chain.oldest_le last mem
      omega
    rw [fromRow absent, putSeen_append_of_none absent,
      putSeen_row c (Or.inr (Nat.lt_of_not_le reached))]

end Fetch

/-- The columns of the row are inserted once in the life of a `UserKey`. -/
def UserKey.fetchRow (user : UserKey V) (flushed : Bool) (row : Option Bytes) :
    UserKey V :=
  match row with
  | some bytes =>
    if user.fetched then
      user
    else
      { user.insertColumnNodes { columns := rowColumns bytes, flushed := flushed } with
        fetched := true }
  | none => { user with fetched := true }

structure WrittenRow (count bound : Nat) (columns : List RowColumn) : Prop where
  plain : ∀ c ∈ columns, c.Plain count bound
  distinct : (columns.map RowColumn.colId).Nodup

private theorem foldl_insert_flags (nodes : List (Nat × ColumnNode V)) (user : UserKey V) :
    let post := nodes.foldl (fun user c =>
      user.setColumn c.1 ((user.columns c.1).insertColumnNode c.2).2) user
    post.dirty = user.dirty ∧ post.fetched = user.fetched := by
  induction nodes generalizing user with
  | nil => exact ⟨rfl, rfl⟩
  | cons first rest ih => exact ih _

private theorem foldl_insert_columns {nodes : List (Nat × ColumnNode V)}
    (distinct : (nodes.map Prod.fst).Nodup) (user : UserKey V) (col : Nat) :
    (nodes.foldl (fun user c =>
      user.setColumn c.1 ((user.columns c.1).insertColumnNode c.2).2)
      user).columns col =
      match nodes.find? fun c => c.1 = col with
      | some c => ((user.columns col).insertColumnNode c.2).2
      | none => user.columns col := by
  induction nodes generalizing user with
  | nil => rfl
  | cons first rest ih =>
    obtain ⟨notLater, restDistinct⟩ := nodup_cons.mp distinct
    rw [foldl_cons, ih restDistinct]
    by_cases same : first.1 = col
    · have absent : rest.find? (fun c => c.1 = col) = none := by
        rw [find?_eq_none]
        intro c member isColumn
        have isFirst : c.1 = first.1 := (of_decide_eq_true isColumn).trans same.symm
        exact notLater (isFirst ▸ mem_map_of_mem member)
      simp [absent, same]
    · have differs : col ≠ first.1 := fun isFirst => same isFirst.symm
      simp [same, differs]

theorem insertColumnNodes_columns {count bound : Nat} {columns : List RowColumn}
    (written : WrittenRow count bound columns) (user : UserKey V) (col : Nat) :
    (user.insertColumnNodes { columns := columns, flushed := true }).columns col =
      match rowColumn? columns col with
      | some c => ((user.columns col).insertColumnNode c.node).2
      | none => user.columns col := by
  have nodup : ((columns.map fun c => (c.colId, (c.node : ColumnNode V))).map
      Prod.fst).Nodup := by
    rw [map_map]
    exact written.distinct
  rw [UserKey.insertColumnNodes, fetchedNodes_plain written.plain, foldl_insert_columns nodup,
    find?_map, rowColumn?]
  simp only [Function.comp_def]
  cases columns.find? fun c => c.colId = col <;> rfl

section FetchRow

variable {count bound : Nat} {bytes : Bytes} {user : UserKey V} {snaps : List Nat}
  (written : WrittenRow count bound (rowColumns bytes)) (unfetched : user.fetched = false)
  (flushable : ∀ col, (user.columns col).Flushable bound)
  (takes : ∀ c ∈ rowColumns bytes, ∀ oldest,
    (user.columns c.colId).colList.getLast? = some oldest →
    (user.columns c.colId).TakesRow snaps c oldest)

theorem fetchRow_fetched (user : UserKey V) (flushed : Bool) (row : Option Bytes) :
    (user.fetchRow flushed row).fetched = true := by
  cases row with
  | none => rfl
  | some => by_cases fetched : user.fetched = true <;> simp [UserKey.fetchRow, fetched]

theorem fetchRow_dirty (user : UserKey V) (flushed : Bool) (row : Option Bytes) :
    (user.fetchRow flushed row).dirty = user.dirty := by
  cases row with
  | none => rfl
  | some =>
    by_cases fetched : user.fetched = true
    · simp [UserKey.fetchRow, fetched]
    simp only [UserKey.fetchRow, if_neg fetched]
    exact (foldl_insert_flags _ user).1

include written unfetched

theorem fetchRow_columns (col : Nat) : (user.fetchRow true (some bytes)).columns col =
      match rowColumn? (rowColumns bytes) col with
      | some c => ((user.columns col).insertColumnNode c.node).2
      | none => user.columns col := by
  simp only [UserKey.fetchRow, unfetched, Bool.false_eq_true, if_false]
  exact insertColumnNodes_columns written user col

include flushable takes

theorem flushable_fetchRow (small : bound < ulongMax) (col : Nat) :
    ((user.fetchRow true (some bytes)).columns col).Flushable bound := by
  rw [fetchRow_columns written unfetched]
  cases isCol : rowColumn? (rowColumns bytes) col with
  | none => exact flushable col
  | some c =>
    obtain ⟨mem, rfl⟩ := mem_of_rowColumn isCol
    exact flushable_insertColumnNode (flushable _) small (written.plain c mem)
      (takes c mem)

theorem keyReads_fetchRow {seqNum : Nat} (live : LiveAt snaps seqNum) (col time : Nat) :
    bothFind (putSeen ((user.fetchRow true (some bytes)).columns col).colList seqNum) =
      keyReads (some user) { columns := rowColumns bytes, flushed := true } col seqNum time := by
  rw [fetchRow_columns written unfetched]
  cases isCol : rowColumn? (rowColumns bytes) col with
  | none =>
    refine (keyReads_memory time (flushable col).wellFormed
      (fun node mem => ((flushable col).plain node mem).1) (Or.inr ?_)).symm
    rw [keyReads_row written.plain, rowSeen, isCol]
    rfl
  | some c =>
    obtain ⟨mem, rfl⟩ := mem_of_rowColumn isCol
    exact (keyReads_insertColumnNode written.plain unfetched isCol (flushable _)
      (takes c mem) live time).symm

end FetchRow

end InsDb
