import InsDb.FetchRow

/-!
# One key in a flush

`DeviceFormatBuilder` visits every key that has a `UserKey` in the key map or a row in the
device format. A key that is not in memory, or is in memory and clean, keeps its row.
-/

namespace InsDb

open InsDb.Library InsDb.Library.Sweep List ColumnNode

variable {V : Type}

structure KeyRun (V : Type) where
  user : UserKey V
  valid : List (Nat × ColumnNode V) := []
  dirty : Bool := false
  stopped : Bool := false

def flushColumns (info : BuilderInfo V) (split : Bool) :
    List Nat → UserKey V → KeyRun V
  | [], user => { user := user }
  | colId :: rest, user =>
    let run := flushColumn info colId split (user.columns colId)
    let walked := user.setColumn colId (run.column (user.columns colId))
    if run.stopped then
      { user := walked, stopped := true }
    else
      let later := flushColumns info split rest walked
      { later with
        valid := (run.valid.map (Prod.mk colId)).toList ++ later.valid
        dirty := run.dirty || later.dirty }

/-- `SKTDFCacheNode::ClearValidColumnCount`: the old row reads as empty from now on. -/
def clearValidColumnCount : Bytes → Bytes
  | [] => []
  | _ :: rest => 0 :: rest

/-- A key after `DeviceFormatBuilder` visited it. -/
structure KeyLeft (V : Type) where
  user : Option (UserKey V)
  row : Option Bytes
  -- The table has no room for the key, which begins the next one.
  startsNext : Bool := false

variable (info : BuilderInfo V)

def rebuildKey (flushed full : Bool) (user : UserKey V)
    (row : Option Bytes) : KeyLeft V :=
  let columns := List.range info.kMaxColumnCount
  let run := flushColumns info full columns (user.fetchRow flushed row)
  if run.stopped then
    -- The dirty mark is not taken away before there is room for the key.
    { user := some run.user, row := row.map clearValidColumnCount, startsNext := true }
  else
    let activeKey := columns.any (fun colId => !(run.user.columns colId).colList.isEmpty) ||
      !run.valid.isEmpty
    { user := if activeKey then some { run.user with dirty := run.dirty } else none
      row := if run.valid.isEmpty then none else some (encodeRow run.valid) }

/-- One round of the loop of `DeviceFormatBuilder`. -/
def buildKey (flushed full : Bool) (user : Option (UserKey V))
    (row : Option Bytes) : KeyLeft V :=
  match user, row with
  | none, row => { user := none, row := row, startsNext := full }
  | some user, some bytes =>
    if user.dirty then
      rebuildKey info flushed full user (some bytes)
    else
      { user := some user, row := some bytes, startsNext := full }
  | some user, none => rebuildKey info flushed full user none

section Columns

variable (info : BuilderInfo V) (split : Bool)

theorem flushColumns_flags (colIds : List Nat) (user : UserKey V) :
    (flushColumns info split colIds user).user.fetched = user.fetched ∧
      (flushColumns info split colIds user).user.dirty = user.dirty := by
  induction colIds generalizing user with
  | nil => exact ⟨rfl, rfl⟩
  | cons colId rest ih =>
    rw [flushColumns]
    split_ifs
    · exact ⟨rfl, rfl⟩
    · exact ih _

theorem flushColumns_outside {colIds : List Nat} (user : UserKey V) {colId : Nat}
    (outside : colId ∉ colIds) :
    (flushColumns info split colIds user).user.columns colId = user.columns colId := by
  induction colIds generalizing user with
  | nil => rfl
  | cons first rest ih =>
    rw [mem_cons, not_or] at outside
    rw [flushColumns]
    by_cases stops : (flushColumn info first split (user.columns first)).stopped = true
    · simp [stops, outside.1]
    simp only [if_neg stops]
    rw [ih _ outside.2, UserKey.setColumn_columns, if_neg outside.1]

theorem flushColumns_columns {colIds : List Nat} (nodup : colIds.Nodup)
    (user : UserKey V) (colId : Nat) :
    (flushColumns info split colIds user).user.columns colId = user.columns colId ∨
      (flushColumns info split colIds user).user.columns colId =
        (flushColumn info colId split (user.columns colId)).column (user.columns colId) := by
  induction colIds generalizing user with
  | nil => exact .inl rfl
  | cons first rest ih =>
    obtain ⟨notLater, restDistinct⟩ := nodup_cons.mp nodup
    rw [flushColumns]
    by_cases stops : (flushColumn info first split (user.columns first)).stopped = true
    · simp only [if_pos stops, UserKey.setColumn_columns]
      split_ifs with same
      · exact .inr (by rw [same])
      · exact .inl rfl
    simp only [if_neg stops]
    by_cases same : colId = first
    · subst same
      right
      rw [flushColumns_outside info split _ notLater, UserKey.setColumn_columns, if_pos rfl]
    have later := ih restDistinct (user.setColumn first
      ((flushColumn info first split (user.columns first)).column (user.columns first)))
    simpa [same] using later

structure WalkedAll (colIds : List Nat) (user : UserKey V) (run : KeyRun V) : Prop where
  complete : ∀ colId ∈ colIds, (flushColumn info colId split (user.columns colId)).stopped = false
  columns : ∀ colId ∈ colIds, run.user.columns colId =
    (flushColumn info colId split (user.columns colId)).column (user.columns colId)
  valid : run.valid = colIds.filterMap fun colId =>
    (flushColumn info colId split (user.columns colId)).valid.map (Prod.mk colId)
  dirty : run.dirty = colIds.any fun colId =>
    (flushColumn info colId split (user.columns colId)).dirty

theorem walkedAll_flushColumns {colIds : List Nat} (nodup : colIds.Nodup)
    (user : UserKey V) (complete : (flushColumns info split colIds user).stopped = false) :
    WalkedAll info split colIds user (flushColumns info split colIds user) := by
  induction colIds generalizing user with
  | nil => exact ⟨by simp, by simp, rfl, rfl⟩
  | cons first rest ih =>
    obtain ⟨notLater, restDistinct⟩ := nodup_cons.mp nodup
    rw [flushColumns] at complete ⊢
    by_cases stops : (flushColumn info first split (user.columns first)).stopped = true
    · simp [stops] at complete
    simp only [if_neg stops] at complete ⊢
    have walked := ih restDistinct _ complete
    have apart : ∀ colId ∈ rest, colId ≠ first := by
      intro colId mem same
      exact notLater (same ▸ mem)
    -- The columns still to come are those of the key before the walk.
    have later : ∀ colId ∈ rest, (user.setColumn first
        ((flushColumn info first split (user.columns first)).column
          (user.columns first))).columns colId = user.columns colId := by
      intro colId mem
      rw [UserKey.setColumn_columns, if_neg (apart colId mem)]
    refine ⟨?_, ?_, ?_, ?_⟩
    · intro colId mem
      rcases mem_cons.mp mem with rfl | inRest
      · simpa using stops
      · exact later colId inRest ▸ walked.complete colId inRest
    · intro colId mem
      rcases mem_cons.mp mem with rfl | inRest
      · rw [flushColumns_outside info split _ notLater, UserKey.setColumn_columns, if_pos rfl]
      · rw [walked.columns colId inRest, later colId inRest]
    · have sameValid := filterMap_congr fun colId mem =>
        congrArg (fun data => (flushColumn info colId split data).valid.map (Prod.mk colId))
          (later colId mem)
      rw [walked.valid, sameValid, filterMap_cons]
      cases (flushColumn info first split (user.columns first)).valid <;> rfl
    have sameDirty : (rest.any fun colId => (flushColumn info colId split
        ((user.setColumn first ((flushColumn info first split (user.columns first)).column
          (user.columns first))).columns colId)).dirty) =
        rest.any fun colId => (flushColumn info colId split (user.columns colId)).dirty := by
      rw [Bool.eq_iff_iff, List.any_eq_true, List.any_eq_true]
      exact exists_congr fun colId => and_congr_right fun mem => by
        rw [later colId mem]
    rw [walked.dirty, sameDirty, any_cons]

end Columns

/-- The row of a key in a table whose flag `HasBeenFlushed` is given. -/
def rowOf (flushed : Bool) (row : Option Bytes) : DeviceRow :=
  { columns := rowColumns (row.getD []), flushed := flushed }

/-- A key that has nothing in memory, or exactly the columns of its row. -/
def UserKey.MatchesRow (user : UserKey V) (columns : List RowColumn) : Prop :=
  (user.fetched = false ∧ ∀ colId, (user.columns colId).colList = []) ∨
    (user.fetched = true ∧ ∀ colId,
      match rowColumn? columns colId with
      | none => (user.columns colId).colList = []
      | some column => ∃ node, (user.columns colId).colList = [node] ∧ node.Written ∧
          node.rowColumn colId = column)

structure KeyReady (info : BuilderInfo V) (bound : Nat) (flushed : Bool)
    (user : Option (UserKey V)) (row : Option Bytes) : Prop where
  written : ∀ bytes, row = some bytes →
    flushed = true ∧ WrittenRow info.kMaxColumnCount bound (rowColumns bytes)
  flushable : ∀ loaded, user = some loaded → ∀ colId, (loaded.columns colId).Flushable bound
  unused : ∀ loaded, user = some loaded → ∀ colId, info.kMaxColumnCount ≤ colId →
    (loaded.columns colId).colList = []
  clean : ∀ loaded, user = some loaded → loaded.dirty = false →
    loaded.MatchesRow (rowColumns (row.getD []))
  takes : ∀ loaded bytes, user = some loaded → row = some bytes → loaded.fetched = false →
    ∀ column ∈ rowColumns bytes, ∀ oldest,
      (loaded.columns column.colId).colList.getLast? = some oldest →
      (loaded.columns column.colId).TakesRow info.snapshots column oldest

/-- The snapshots are listed from the newest one, and column ids fit into a row. -/
structure BuilderInfo.Ready (info : BuilderInfo V) : Prop where
  descending : Descending info.snapshots
  past : ∀ seqNum ∈ info.snapshots, seqNum < ulongMax
  columns : info.kMaxColumnCount ≤ 64

structure KeyKept (info : BuilderInfo V) (bound : Nat) (flushed : Bool)
    (user : Option (UserKey V)) (row : Option Bytes) (flushedAfter : Bool)
    (userAfter : Option (UserKey V)) (rowAfter : Option Bytes) : Prop where
  ready : KeyReady info bound flushedAfter userAfter rowAfter
  reads : ∀ seqNum, LiveAt info.snapshots seqNum → ∀ colId time,
    keyReads userAfter (rowOf flushedAfter rowAfter) colId seqNum time =
      keyReads user (rowOf flushed row) colId seqNum time

section Ready

variable {info : BuilderInfo V} {bound : Nat} {flushed : Bool} {user : Option (UserKey V)}
  {row : Option Bytes}

theorem keyReads_noRow (user : Option (UserKey V)) (flushed other : Bool)
    (colId seq time : Nat) :
    keyReads user (rowOf flushed none) colId seq time =
      keyReads user (rowOf other none) colId seq time := by
  cases user <;> rfl

theorem KeyReady.reads_row (ready : KeyReady info bound flushed user row)
    (colId seq time : Nat) :
    keyReads (none : Option (UserKey V)) (rowOf flushed row) colId seq time =
      bothFind (rowSeen (rowColumns (row.getD [])) colId seq) := by
  cases isRow : row with
  | none => rfl
  | some bytes =>
    obtain ⟨isFlushed, written⟩ := ready.written bytes isRow
    subst isFlushed
    exact keyReads_row written.plain colId seq time

theorem KeyReady.reads_memory {loaded : UserKey V}
    (ready : KeyReady info bound flushed (some loaded) row) (fetched : loaded.fetched = true)
    (anyRow : DeviceRow) (colId seq time : Nat) :
    keyReads (some loaded) anyRow colId seq time =
      bothFind (putSeen (loaded.columns colId).colList seq) := by
  have flushable := ready.flushable loaded rfl colId
  exact keyReads_memory time flushable.wellFormed
    (fun node mem => (flushable.plain node mem).1) (Or.inl fetched)

theorem putSeen_written {node : ColumnNode V} (written : node.Written) (colId seq : Nat) :
    putSeen [node] seq =
      ((some (node.rowColumn colId)).filter fun c => c.seq.getD 0 ≤ seq).map
        fun c => c.node.view := by
  have sameView : ((node.rowColumn colId).node : ColumnNode V).view = node.view := by
    simp [view, RowColumn.node, fetched, rowColumn, designator, written.block.noUserValue]
  have sameSeq : (node.rowColumn colId).seq.getD 0 = node.beginSeq := rfl
  by_cases begun : node.beginSeq ≤ seq
  · have cover := covers_iff.mpr ⟨begun, Or.inl written.isOpen⟩
    simp [putSeen, find?_cons_of_pos cover, Option.filter_some, written.isPut, sameSeq, begun,
      sameView]
  have notCovering : ¬ node.covers seq = true := fun cover => begun (covers_iff.mp cover).1
  simp [putSeen, find?_cons_of_neg notCovering, Option.filter_some, sameSeq, begun]

theorem KeyReady.reads_clean {loaded : UserKey V}
    (ready : KeyReady info bound flushed (some loaded) row) (clean : loaded.dirty = false)
    (colId seq time : Nat) :
    keyReads (some loaded) (rowOf flushed row) colId seq time =
      keyReads none (rowOf flushed row) colId seq time := by
  rcases ready.clean loaded rfl clean with ⟨unfetched, empty⟩ | ⟨fetched, columns⟩
  · rw [keyReads_of_absent time (ready.flushable loaded rfl colId).wellFormed (by simp [empty]),
      unfetched]
    rfl
  rw [ready.reads_memory fetched, ready.reads_row, rowSeen]
  have matched := columns colId
  cases isCol : rowColumn? (rowColumns (row.getD [])) colId with
  | none =>
    simp only [isCol] at matched
    rw [matched]
    rfl
  | some =>
    simp only [isCol] at matched
    obtain ⟨_, listed, written, rfl⟩ := matched
    rw [listed, putSeen_written written colId]

end Ready

section Rebuild

variable {info : BuilderInfo V} {bound : Nat} {flushed split : Bool} {loaded : UserKey V}
  {row : Option Bytes}

structure InMemory (info : BuilderInfo V) (bound : Nat) (user : UserKey V) : Prop where
  fetched : user.fetched = true
  flushable : ∀ colId, (user.columns colId).Flushable bound
  unused : ∀ colId, info.kMaxColumnCount ≤ colId → (user.columns colId).colList = []

theorem InMemory.reads {user : UserKey V} (inMemory : InMemory info bound user)
    (row : DeviceRow) (colId seq time : Nat) :
    keyReads (some user) row colId seq time =
      bothFind (putSeen (user.columns colId).colList seq) := by
  have flushable := inMemory.flushable colId
  exact keyReads_memory time flushable.wellFormed
    (fun node mem => (flushable.plain node mem).1) (Or.inl inMemory.fetched)

theorem InMemory.flushColumns (inMemory : InMemory info bound loaded) : InMemory info bound
      (flushColumns info split (List.range info.kMaxColumnCount) loaded).user := by
  refine ⟨(flushColumns_flags info split _ loaded).1.trans inMemory.fetched, ?_, ?_⟩
  · intro colId
    rcases flushColumns_columns info split nodup_range loaded colId with same | walked
    · rw [same]
      exact inMemory.flushable colId
    rw [walked]
    exact (inMemory.flushable colId).flushColumn
  · intro colId beyond
    rw [flushColumns_outside info split loaded (by simpa using beyond)]
    exact inMemory.unused colId beyond

theorem putSeen_flushColumns (ready : info.Ready) (noTtl : ∀ colId, info.ttlList colId = 0)
    (small : bound < ulongMax) (inMemory : InMemory info bound loaded) {seq : Nat}
    (live : LiveAt info.snapshots seq) (colId : Nat) :
    putSeen ((flushColumns info split (List.range info.kMaxColumnCount) loaded).user.columns
        colId).colList seq =
      putSeen (loaded.columns colId).colList seq := by
  rcases flushColumns_columns info split nodup_range loaded colId with same | walked
  · rw [same]
  rw [walked]
  exact putSeen_flushColumn (inMemory.flushable colId) small ready.descending ready.past
    (noTtl colId) live

theorem flushColumns_empty {colId : Nat} (empty : (loaded.columns colId).colList = []) :
    ((flushColumns info split (List.range info.kMaxColumnCount) loaded).user.columns
      colId).colList = [] := by
  rcases flushColumns_columns info split nodup_range loaded colId with same | walked
  · rw [same]
    exact empty
  rw [walked]
  simp [ColumnRun.column, flushColumn, empty, flushNodes]

variable (ready : KeyReady info bound flushed (some loaded) row)

include ready

theorem inMemory_fetchRow (small : bound < ulongMax) :
    InMemory info bound (loaded.fetchRow flushed row) := by
  refine ⟨fetchRow_fetched loaded flushed row, ?_, ?_⟩
  · intro colId
    cases isRow : row with
    | none => exact ready.flushable loaded rfl colId
    | some bytes =>
      obtain ⟨rfl, written⟩ := ready.written bytes isRow
      by_cases fetched : loaded.fetched = true
      · simp only [UserKey.fetchRow, fetched, if_true]
        exact ready.flushable loaded rfl colId
      exact flushable_fetchRow written (by simpa using fetched) (ready.flushable loaded rfl)
        (ready.takes loaded bytes rfl isRow (by simpa using fetched)) small colId
  intro colId beyond
  have empty := ready.unused loaded rfl colId beyond
  cases isRow : row with
  | none => exact empty
  | some bytes =>
    obtain ⟨rfl, written⟩ := ready.written bytes isRow
    by_cases fetched : loaded.fetched = true
    · simpa only [UserKey.fetchRow, fetched, if_true] using empty
    have noColumn : rowColumn? (rowColumns bytes) colId = none := by
      cases isCol : rowColumn? (rowColumns bytes) colId with
      | none => rfl
      | some c =>
        obtain ⟨mem, rfl⟩ := mem_of_rowColumn isCol
        have inside := (written.plain c mem).colId_lt
        omega
    rw [fetchRow_columns written (by simpa using fetched), noColumn]
    exact empty

theorem putSeen_fetchRow {seq : Nat} (live : LiveAt info.snapshots seq) (colId time : Nat) :
    bothFind (putSeen ((loaded.fetchRow flushed row).columns colId).colList seq) =
      keyReads (some loaded) (rowOf flushed row) colId seq time := by
  have flushable := ready.flushable loaded rfl
  have kept : ∀ node ∈ (loaded.columns colId).colList, node.dropped = false :=
    fun node mem => ((flushable colId).plain node mem).1
  cases isRow : row with
  | none => exact (keyReads_memory time (flushable colId).wellFormed kept (Or.inr rfl)).symm
  | some bytes =>
    obtain ⟨rfl, written⟩ := ready.written bytes isRow
    by_cases fetched : loaded.fetched = true
    · simp only [UserKey.fetchRow, fetched, if_true]
      exact (keyReads_memory time (flushable colId).wellFormed kept (Or.inl fetched)).symm
    exact keyReads_fetchRow written (by simpa using fetched) flushable
      (ready.takes loaded bytes rfl isRow (by simpa using fetched)) live colId time

end Rebuild

section NewRow

variable (found : Nat → Option (ColumnNode V))

theorem filterMap_found_ids (colIds : List Nat) :
    (colIds.filterMap fun colId => (found colId).map (Prod.mk colId)).map Prod.fst =
      colIds.filter fun colId => (found colId).isSome := by
  induction colIds with
  | nil => rfl
  | cons first rest ih =>
    cases isFound : found first with
    | none => simp [isFound, ih]
    | some => simp [isFound, ih]

theorem rowColumn_filterMap_found {colIds : List Nat} (nodup : colIds.Nodup) (colId : Nat) :
    rowColumn? ((colIds.filterMap fun colId => (found colId).map (Prod.mk colId)).map
        fun (colId, node) => node.rowColumn colId) colId =
      if colId ∈ colIds then (found colId).map (ColumnNode.rowColumn colId) else none := by
  induction colIds with
  | nil => rfl
  | cons first rest ih =>
    obtain ⟨notLater, restDistinct⟩ := nodup_cons.mp nodup
    have later := ih restDistinct
    cases isFound : found first with
    | none =>
      simp only [filterMap_cons, isFound, Option.map_none]
      rw [later]
      by_cases same : colId = first
      · simp [same, isFound, notLater]
      · simp [same]
    | some node =>
      simp only [filterMap_cons, isFound, Option.map_some, map_cons]
      by_cases same : colId = first
      · subst same
        simp [rowColumn?, rowColumn, isFound]
      have differs : ¬ (node.rowColumn first).colId = colId := fun isId => same isId.symm
      have skips : rowColumn? (node.rowColumn first :: (rest.filterMap fun colId =>
          (found colId).map (Prod.mk colId)).map fun (colId, node) => node.rowColumn colId)
          colId = rowColumn? ((rest.filterMap fun colId =>
          (found colId).map (Prod.mk colId)).map fun (colId, node) => node.rowColumn colId)
          colId := by
        simp [rowColumn?, differs]
      rw [skips, later]
      simp [same]

end NewRow

section Written

variable {info : BuilderInfo V} {bound : Nat} {split : Bool} {user : UserKey V}
  {run : KeyRun V} (inMemory : InMemory info bound user) (small : bound < ulongMax)
  (walked : WalkedAll info split (List.range info.kMaxColumnCount) user run)

include inMemory small walked

theorem written_of_mem_valid {entry : Nat × ColumnNode V} (mem : entry ∈ run.valid) :
    entry.2.Encodable ∧ (entry.2.rowColumn entry.1).Plain info.kMaxColumnCount bound := by
  rw [walked.valid, mem_filterMap] at mem
  obtain ⟨colId, inside, isEntry⟩ := mem
  obtain ⟨node, isValid, rfl⟩ := Option.map_eq_some_iff.mp isEntry
  have flushable : ((flushColumn info colId split (user.columns colId)).column
      (user.columns colId)).Flushable bound := (inMemory.flushable colId).flushColumn
  obtain ⟨kept, isPut, sent, notMerged, -⟩ := valid_mem info colId split isValid
  have block := flushable.stored node kept isPut sent notMerged
  have noTs := (flushable.plain node kept).2
  have begins := (flushable.below node kept).1
  have ikeySeq_lt := block.ikeySeq_lt
  have beginSeq_lt : node.beginSeq < 2 ^ 64 := by
    unfold ulongMax at small
    omega
  have ts_lt : node.ts < 2 ^ 64 := by omega
  have ikeySeq_lt_max : node.ikeySeq < ulongMax := by
    unfold ulongMax at notMerged ⊢
    omega
  refine ⟨⟨block.kbOffset_lt, block.ikeySeq_lt, block.ivalueSize_lt, block.begun, beginSeq_lt,
    ts_lt⟩, ?_⟩
  exact ⟨List.mem_range.mp inside, block.kbOffset_lt, sent, ikeySeq_lt_max,
    block.ivalueSize_lt, rfl, rfl, block.begun, begins, by simp [rowColumn, noTs],
    by simp [rowColumn, noTs]⟩

theorem rowColumns_newRow (columns : info.kMaxColumnCount ≤ 64) :
    rowColumns ((if run.valid.isEmpty then none else some (encodeRow run.valid)).getD []) =
      run.valid.map fun (colId, node) => node.rowColumn colId := by
  by_cases nothing : run.valid = []
  · simp [nothing, rowColumns]
  have ids := filterMap_found_ids
    (fun colId => (flushColumn info colId split (user.columns colId)).valid)
    (range info.kMaxColumnCount)
  rw [← walked.valid] at ids
  have count : run.valid.length < 256 := by
    have lengths := congrArg length ids
    have fewer := length_filter_le (fun colId =>
      (flushColumn info colId split (user.columns colId)).valid.isSome)
      (range info.kMaxColumnCount)
    rw [length_map] at lengths
    rw [length_range] at fewer
    omega
  have notEmpty : run.valid.isEmpty = false := by simpa using nothing
  rw [notEmpty]
  apply rowColumns_encodeRow count
  intro entry mem
  obtain ⟨encodable, plain⟩ := written_of_mem_valid inMemory small walked mem
  have inside : entry.1 < info.kMaxColumnCount := plain.colId_lt
  exact ⟨by omega, encodable⟩

theorem writtenRow_newRow : WrittenRow info.kMaxColumnCount bound
      (run.valid.map fun (colId, node) => node.rowColumn colId) := by
  refine ⟨?_, ?_⟩
  · intro _ mem
    obtain ⟨_, isEntry, rfl⟩ := mem_map.mp mem
    exact (written_of_mem_valid inMemory small walked isEntry).2
  have ids : (run.valid.map fun (colId, node) => node.rowColumn colId).map RowColumn.colId =
      run.valid.map Prod.fst := by
    rw [map_map]
    rfl
  rw [ids, walked.valid, filterMap_found_ids]
  exact nodup_range.filter _

omit small in
theorem matchesRow_newRow (clean : run.dirty = false) (fetched : run.user.fetched = true)
    (outside : ∀ colId, info.kMaxColumnCount ≤ colId → (run.user.columns colId).colList = []) :
    run.user.MatchesRow (run.valid.map fun (colId, node) => node.rowColumn colId) := by
  right
  refine ⟨fetched, ?_⟩
  intro colId
  rw [walked.valid, rowColumn_filterMap_found _ nodup_range]
  by_cases inside : colId ∈ range info.kMaxColumnCount
  · have columnClean : (flushColumn info colId split (user.columns colId)).dirty = false := by
      rw [walked.dirty, any_eq_false] at clean
      simpa using clean colId inside
    obtain ⟨listed, written⟩ := clean_flushColumn (inMemory.flushable colId) columnClean
      (walked.complete colId inside)
    have nodes : (run.user.columns colId).colList =
        (flushColumn info colId split (user.columns colId)).valid.toList := by
      rw [walked.columns colId inside]
      exact listed
    rw [if_pos inside]
    cases isValid : (flushColumn info colId split (user.columns colId)).valid with
    | none => simpa [isValid] using nodes
    | some node => exact ⟨node, by simpa [isValid] using nodes, written node isValid, rfl⟩
  · rw [if_neg inside]
    exact outside colId (by simpa using inside)

end Written

theorem stopped_flushNodes (colId : Nat) (walk : ColumnWalk)
    (latest : Option Nat) (nodes : List (ColumnNode V)) :
    (flushNodes info colId false walk latest nodes).stopped = false := by
  induction nodes generalizing walk latest with
  | nil => rfl
  | cons node older ih =>
    have fate := nodeFate info colId false walk latest node older
    generalize flushNodes info colId false walk latest (node :: older) = run at fate
    cases fate with
    | kept next => exact ih next latest
    | written next => exact ih next latest
    | stopped isSplit => cases isSplit
    | deleted next => exact ih next _

theorem stopped_flushColumns (colIds : List Nat)
    (user : UserKey V) : (flushColumns info false colIds user).stopped = false := by
  induction colIds generalizing user with
  | nil => rfl
  | cons colId rest ih =>
    have goesOn : (flushColumn info colId false (user.columns colId)).stopped = false :=
      stopped_flushNodes info colId _ _ _
    simp only [flushColumns, goesOn, Bool.false_eq_true, if_false]
    exact ih _

theorem rowColumns_clearValidColumnCount (bytes : Bytes) :
    rowColumns (clearValidColumnCount bytes) = [] := by
  cases bytes <;> rfl

theorem writtenRow_nil (count bound : Nat) : WrittenRow count bound [] := ⟨by simp, nodup_nil⟩

theorem UserKey.MatchesRow.empty {user : UserKey V} (matched : user.MatchesRow [])
    (colId : Nat) : (user.columns colId).colList = [] := by
  rcases matched with ⟨-, empty⟩ | ⟨-, columns⟩
  · exact empty colId
  · exact columns colId

section Round

variable {info : BuilderInfo V} {bound : Nat} {flushed : Bool} {loaded : UserKey V}
  {row : Option Bytes} {user : UserKey V}

theorem InMemory.keyReady (inMemory : InMemory info bound user)
    (written : ∀ bytes, row = some bytes →
      flushed = true ∧ WrittenRow info.kMaxColumnCount bound (rowColumns bytes))
    (clean : user.dirty = false → user.MatchesRow (rowColumns (row.getD []))) :
    KeyReady info bound flushed (some user) row := by
  have isUser : ∀ loaded, some user = some loaded → user = loaded :=
    fun loaded same => Option.some.inj same
  refine ⟨written, ?_, ?_, ?_, ?_⟩
  · intro loaded same
    exact isUser loaded same ▸ inMemory.flushable
  · intro loaded same
    exact isUser loaded same ▸ inMemory.unused
  · intro loaded same
    exact isUser loaded same ▸ clean
  intro loaded _ same _ unfetched
  rw [← isUser loaded same, inMemory.fetched] at unfetched
  cases unfetched

theorem keyReady_of_row (written : ∀ bytes, row = some bytes →
      flushed = true ∧ WrittenRow info.kMaxColumnCount bound (rowColumns bytes)) :
    KeyReady info bound flushed none row :=
  ⟨written, fun _ none => (by cases none), fun _ none => (by cases none),
    fun _ none => (by cases none), fun _ _ none => (by cases none)⟩

theorem KeyReady.kept_true {user : Option (UserKey V)}
    (ready : KeyReady info bound flushed user row) :
    KeyKept info bound flushed user row true user row := by
  refine ⟨⟨fun bytes isRow => ⟨rfl, (ready.written bytes isRow).2⟩, ready.flushable, ready.unused,
    ready.clean, ready.takes⟩, ?_⟩
  intro seq _ colId time
  cases isRow : row with
  | none => exact keyReads_noRow user true flushed colId seq time
  | some bytes =>
    obtain ⟨rfl, -⟩ := ready.written bytes isRow
    rfl

theorem keyKept_of_stopped (info_ready : info.Ready) (noTtl : ∀ colId, info.ttlList colId = 0)
    (small : bound < ulongMax) (ready : KeyReady info bound flushed (some loaded) row)
    (due : loaded.dirty = true ∨ row = none) :
    KeyKept info bound flushed (some loaded) row flushed
      (some (flushColumns info true (List.range info.kMaxColumnCount)
        (loaded.fetchRow flushed row)).user)
      (row.map clearValidColumnCount) := by
  have inMemory := inMemory_fetchRow ready small
  have post : InMemory info bound (flushColumns info true (range info.kMaxColumnCount)
      (loaded.fetchRow flushed row)).user := inMemory.flushColumns
  refine ⟨post.keyReady ?_ ?_, ?_⟩
  · intro _ isRow
    obtain ⟨old, isOld, rfl⟩ := Option.map_eq_some_iff.mp isRow
    rw [rowColumns_clearValidColumnCount]
    exact ⟨(ready.written old isOld).1, writtenRow_nil _ _⟩
  · intro clean
    rw [(flushColumns_flags info true _ _).2, fetchRow_dirty] at clean
    obtain rfl : row = none := due.resolve_left (by simp [clean])
    have empty := (ready.clean loaded rfl clean).empty
    right
    exact ⟨post.fetched, fun colId => flushColumns_empty (empty colId)⟩
  · intro _ live colId time
    rw [post.reads, putSeen_flushColumns info_ready noTtl small inMemory live,
      putSeen_fetchRow ready live colId time]

theorem keyKept_of_complete (info_ready : info.Ready) (noTtl : ∀ colId, info.ttlList colId = 0)
    (small : bound < ulongMax) {full : Bool} (ready : KeyReady info bound flushed (some loaded) row)
    (complete : (flushColumns info full (List.range info.kMaxColumnCount)
      (loaded.fetchRow flushed row)).stopped = false) :
    KeyKept info bound flushed (some loaded) row true (rebuildKey info flushed full loaded row).user
      (rebuildKey info flushed full loaded row).row := by
  have inMemory := inMemory_fetchRow ready small
  have walked := walkedAll_flushColumns info full nodup_range _ complete
  have readsSame : ∀ seq, LiveAt info.snapshots seq → ∀ colId time,
      bothFind (putSeen ((flushColumns info full (range info.kMaxColumnCount)
        (loaded.fetchRow flushed row)).user.columns colId).colList seq) =
        keyReads (some loaded) (rowOf flushed row) colId seq time := by
    intro seq live colId time
    rw [putSeen_flushColumns info_ready noTtl small inMemory live,
      putSeen_fetchRow ready live colId time]
  have post : InMemory info bound (flushColumns info full (range info.kMaxColumnCount)
      (loaded.fetchRow flushed row)).user := inMemory.flushColumns
  simp only [rebuildKey, complete, Bool.false_eq_true, if_false]
  generalize flushColumns info full (range info.kMaxColumnCount)
    (loaded.fetchRow flushed row) = run at walked readsSame post
  have newRow := rowColumns_newRow inMemory small walked info_ready.columns
  have written : ∀ bytes, (if run.valid.isEmpty then none else some (encodeRow run.valid)) =
      some bytes → true = true ∧ WrittenRow info.kMaxColumnCount bound (rowColumns bytes) := by
    intro _ isRow
    rw [isRow, Option.getD_some] at newRow
    rw [newRow]
    exact ⟨rfl, writtenRow_newRow inMemory small walked⟩
  by_cases active : ((range info.kMaxColumnCount).any (fun colId =>
      !(run.user.columns colId).colList.isEmpty) || !run.valid.isEmpty) = true
  · rw [if_pos active]
    have marked : InMemory info bound { run.user with dirty := run.dirty } :=
      ⟨post.fetched, post.flushable, post.unused⟩
    refine ⟨marked.keyReady written ?_, ?_⟩
    · intro clean
      rw [newRow]
      exact matchesRow_newRow inMemory walked clean post.fetched post.unused
    intro seq live colId time
    rw [marked.reads]
    exact readsSame seq live colId time
  rw [if_neg active]
  refine ⟨keyReady_of_row written, ?_⟩
  intro seq live colId time
  simp only [Bool.or_eq_true, List.any_eq_true, not_or, not_exists, not_and, Bool.not_eq_true,
    Bool.not_eq_false', List.isEmpty_iff] at active
  obtain ⟨noneLeft, noneWritten⟩ := active
  have empty : (run.user.columns colId).colList = [] := by
    by_cases inside : colId < info.kMaxColumnCount
    · exact noneLeft colId (List.mem_range.mpr inside)
    · exact post.unused colId (Nat.le_of_not_lt inside)
  rw [← readsSame seq live colId time, empty, noneWritten]
  rfl

/-- A key that is not in memory or clean is copied with its row, every other one is rebuilt. -/
theorem buildKey_cases (info : BuilderInfo V) (flushed full : Bool) (user : Option (UserKey V))
    (row : Option Bytes) :
    buildKey info flushed full user row = { user := user, row := row, startsNext := full } ∨
      ∃ loaded, user = some loaded ∧ (loaded.dirty = true ∨ row = none) ∧
        buildKey info flushed full user row = rebuildKey info flushed full loaded row := by
  cases user with
  | none => exact .inl rfl
  | some loaded =>
    cases row with
    | none => exact .inr ⟨loaded, rfl, .inr rfl, rfl⟩
    | some =>
      by_cases dirty : loaded.dirty = true
      · exact .inr ⟨loaded, rfl, .inl dirty, if_pos dirty⟩
      · exact .inl (if_neg dirty)

theorem buildKey_stays (info : BuilderInfo V) (flushed : Bool) (user : Option (UserKey V))
    (row : Option Bytes) : (buildKey info flushed false user row).startsNext = false := by
  rcases buildKey_cases info flushed false user row with copied | ⟨loaded, -, -, rebuilt⟩
  · rw [copied]
  · rw [rebuilt]
    simp [rebuildKey, stopped_flushColumns]

theorem keyKept_buildKey (info_ready : info.Ready) (noTtl : ∀ colId, info.ttlList colId = 0)
    (small : bound < ulongMax) (full : Bool) {user : Option (UserKey V)}
    (ready : KeyReady info bound flushed user row) :
    let left := buildKey info flushed full user row
    KeyKept info bound flushed user row (if left.startsNext then flushed else true) left.user
      left.row := by
  intro left
  rcases buildKey_cases info flushed full user row with copied | ⟨loaded, rfl, due, rebuilt⟩
  · -- A key that is copied is as it was, whichever table it goes to.
    simp only [left, copied]
    cases full with
    | false => exact ready.kept_true
    | true => exact ⟨ready, fun _ _ _ _ => rfl⟩
  simp only [left, rebuilt]
  by_cases stops : (flushColumns info full (range info.kMaxColumnCount)
      (loaded.fetchRow flushed row)).stopped = true
  · have isFull : full = true := by
      by_contra notFull
      rw [Bool.not_eq_true] at notFull
      rw [notFull, stopped_flushColumns] at stops
      cases stops
    subst isFull
    simp only [rebuildKey, stops, if_true]
    exact keyKept_of_stopped info_ready noTtl small ready due
  have complete := Bool.eq_false_iff.mpr stops
  have stays : (rebuildKey info flushed full loaded row).startsNext = false := by
    simp [rebuildKey, complete]
  rw [stays]
  exact keyKept_of_complete info_ready noTtl small ready complete

end Round

end InsDb
