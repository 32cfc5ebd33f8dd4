import InsDb.LatestVersion

/-!
# Where the versions of a key are

In a history without snapshots and TTLs every version in memory has its value attached or in a key
block of its own, every column of the row is in a key block, and the row of a key that is not
fetched is older than all versions in memory.  Fetching, flushing and evicting the key keep this.
-/

namespace InsDb

open InsDb.Library List Option

variable {V : Type}

/-- The value of a Put is attached to it until it is submitted, and in a key block from then on. -/
structure ColumnNode.Placed (keyBlocks : Nat → Nat → Option V) (node : ColumnNode V) :
    Prop where
  begun : 0 < node.beginSeq
  valued : node.requestType = .put → node.ikeySeq < kUnusedNextInternalKey →
    node.userValue.isSome = true
  placed : node.requestType = .put → kUnusedNextInternalKey ≤ node.ikeySeq →
    node.ikeySeq ≠ ulongMax → (keyBlocks node.ikeySeq node.kbOffset).isSome = true

/-- The versions in memory over a column of the row that is not fetched are Puts, newer than the
row and elsewhere. -/
structure ColumnData.Above (data : ColumnData V) (c : RowColumn) : Prop where
  newer : ∀ node ∈ data.colList, c.seq.getD 0 < node.beginSeq
  apart : ∀ node ∈ data.colList, ¬ (node.ikeySeq = c.ikeySeq ∧ node.kbOffset = c.offset)
  puts : ∀ node ∈ data.colList, node.requestType = .put
  isOpen : ∀ node, data.colList.head? = some node → node.endSeq = ulongMax

/-- The values of a key and its row can be found, and the row of a key that is not fetched is older
than what is in memory. -/
structure KeyPlaced (keyBlocks : Nat → Nat → Option V) (user : Option (UserKey V))
    (row : Option Bytes) : Prop where
  above : ∀ loaded, user = some loaded → loaded.fetched = false →
    ∀ c ∈ rowColumns (row.getD []), (loaded.columns c.colId).Above c
  nodes : ∀ loaded, user = some loaded → ∀ colId, ∀ node ∈ (loaded.columns colId).colList,
    node.Placed keyBlocks
  places : ∀ c ∈ rowColumns (row.getD []),
    (keyBlocks c.ikeySeq c.offset).isSome = true

structure KeyStored (count bound : Nat) (flushed : Bool) (keyBlocks : Nat → Nat → Option V)
    (user : Option (UserKey V)) (row : Option Bytes) : Prop
    extends KeyPlaced keyBlocks user row where
  written : ∀ bytes, row = some bytes → flushed = true ∧ WrittenRow count bound (rowColumns bytes)
  flushable : ∀ loaded, user = some loaded → ∀ colId, (loaded.columns colId).Flushable bound
  unused : ∀ loaded, user = some loaded → ∀ colId, count ≤ colId →
    (loaded.columns colId).colList = []
  clean : ∀ loaded, user = some loaded → loaded.dirty = false →
    loaded.MatchesRow (rowColumns (row.getD []))

namespace KeyStored

variable {count bound : Nat} {flushed : Bool} {keyBlocks : Nat → Nat → Option V}
  {user : Option (UserKey V)} {row : Option Bytes}

theorem ready (stored : KeyStored count bound flushed keyBlocks user row)
    (small : bound < ulongMax) (curTime : Nat) (trxnGroupCompleted : ColumnNode V → Bool) :
    KeyReady (plainInfo count curTime trxnGroupCompleted) bound flushed user row := by
  refine ⟨stored.written, stored.flushable, stored.unused, stored.clean, ?_⟩
  intro loaded _ isLoaded isRow unfetched c mem oldest last
  have flushable := stored.flushable loaded isLoaded c.colId
  have inRow : c ∈ rowColumns (row.getD []) := by
    rw [isRow]
    exact mem
  have above := stored.above loaded isLoaded unfetched c inRow
  have oldestMem := mem_of_getLast? last
  refine ⟨above.newer oldest oldestMem, above.apart oldest oldestMem, ?_⟩
  intro seq live _
  have isMax : seq = ulongMax := live.resolve_left (by simp [plainInfo])
  rw [isMax, putSeen_ulongMax flushable.wellFormed.chain flushable.below small]
  cases listed : (loaded.columns c.colId).colList with
  | nil =>
    rw [listed] at oldestMem
    cases oldestMem
  | cons newest =>
    have isPut := above.puts newest (by rw [listed]; exact mem_cons_self)
    rw [latestVersion_cons_of_open isPut (above.isOpen newest (by rw [listed]; rfl))]
    rfl

theorem plainInfo_ready (columns : count ≤ 64) (curTime : Nat)
    (trxnGroupCompleted : ColumnNode V → Bool) :
    (plainInfo count curTime trxnGroupCompleted).Ready :=
  ⟨List.Pairwise.nil, fun _ mem => (by cases mem), columns⟩

theorem mono {larger : Nat} (stored : KeyStored count bound flushed keyBlocks user row)
    (grows : bound ≤ larger) : KeyStored count larger flushed keyBlocks user row := by
  refine ⟨stored.toKeyPlaced, ?_, ?_, stored.unused, stored.clean⟩
  · intro bytes isRow
    obtain ⟨isFlushed, written⟩ := stored.written bytes isRow
    refine ⟨isFlushed, ?_, written.distinct⟩
    intro c mem
    have plain := written.plain c mem
    exact { plain with below := Nat.le_trans plain.below grows }
  · intro loaded isLoaded col
    have flushable := stored.flushable loaded isLoaded col
    exact { flushable with below := flushable.below.mono grows }

theorem flushable_nil (data : ColumnData V) (empty : data.colList = [])
    (noLatest : data.latestColNode = none) (bound : Nat) : data.Flushable bound := by
  refine ⟨⟨?_, ?_⟩, ?_, ?_, ?_, ?_⟩
  · rw [empty]
    exact Chain.nil
  · rw [empty, noLatest]
    rfl
  · intro node mem
    rw [empty] at mem
    cases mem
  · intro node mem
    rw [empty] at mem
    cases mem
  · intro _ isHead
    rw [empty] at isHead
    cases isHead
  intro _ mem
  rw [empty] at mem
  cases mem

theorem load (stored : KeyStored count bound flushed keyBlocks user row) :
    KeyStored count bound flushed keyBlocks (some (user.getD .empty)) row := by
  cases isUser : user with
  | some => exact isUser ▸ stored
  | none =>
    refine ⟨⟨?_, ?_, stored.places⟩, stored.written, ?_, ?_, ?_⟩
    · intro loaded isLoaded _ _ _
      rw [← some.inj isLoaded]
      refine ⟨?_, ?_, ?_, ?_⟩
      · intro node mem
        cases mem
      · intro node mem
        cases mem
      · intro node mem
        cases mem
      intro _ isHead
      cases isHead
    · intro loaded isLoaded col _ mem
      rw [← some.inj isLoaded] at mem
      cases mem
    · intro loaded isLoaded _
      rw [← some.inj isLoaded]
      exact flushable_nil _ rfl rfl bound
    · intro _ isLoaded _ _
      rw [← some.inj isLoaded]
      rfl
    intro _ isLoaded _
    rw [← some.inj isLoaded]
    exact .inl ⟨rfl, fun _ => rfl⟩

theorem replaceColumn {loaded changed : UserKey V} {col : Nat}
    (stored : KeyStored count bound flushed keyBlocks (some loaded) row)
    (isDirty : changed.dirty = true) (sameFetched : changed.fetched = loaded.fetched)
    (others : ∀ other, other ≠ col → changed.columns other = loaded.columns other)
    (flushable : (changed.columns col).Flushable bound)
    (unused : count ≤ col → (changed.columns col).colList = [])
    (above : loaded.fetched = false → ∀ c ∈ rowColumns (row.getD []), c.colId = col →
      (changed.columns col).Above c)
    (nodes : ∀ node ∈ (changed.columns col).colList, node.Placed keyBlocks) :
    KeyStored count bound flushed keyBlocks (some changed) row := by
  refine ⟨⟨?_, ?_, stored.places⟩, stored.written, ?_, ?_, ?_⟩
  · intro other isOther unfetched c mem
    rw [← some.inj isOther] at unfetched ⊢
    rw [sameFetched] at unfetched
    by_cases isCol : c.colId = col
    · rw [isCol]
      exact above unfetched c mem isCol
    rw [others c.colId isCol]
    exact stored.above loaded rfl unfetched c mem
  · intro other isOther readCol node mem
    rw [← some.inj isOther] at mem
    by_cases isCol : readCol = col
    · rw [isCol] at mem
      exact nodes node mem
    rw [others readCol isCol] at mem
    exact stored.nodes loaded rfl readCol node mem
  · intro other isOther readCol
    rw [← some.inj isOther]
    by_cases isCol : readCol = col
    · rw [isCol]
      exact flushable
    rw [others readCol isCol]
    exact stored.flushable loaded rfl readCol
  · intro _ isOther readCol beyond
    rw [← some.inj isOther]
    by_cases isCol : readCol = col
    · rw [isCol] at beyond ⊢
      exact unused beyond
    rw [others readCol isCol]
    exact stored.unused loaded rfl readCol beyond
  · intro _ isOther isClean
    rw [← some.inj isOther, isDirty] at isClean
    cases isClean

theorem dirty_of_pending {loaded : UserKey V} {col : Nat} {node : ColumnNode V}
    (stored : KeyStored count bound flushed keyBlocks (some loaded) row)
    (mem : node ∈ (loaded.columns col).colList)
    (pending : node.ikeySeq < kUnusedNextInternalKey) : loaded.dirty = true := by
  by_contra isClean
  rw [Bool.not_eq_true] at isClean
  rcases stored.clean loaded rfl isClean with ⟨_, empty⟩ | ⟨_, rows⟩
  · rw [empty col] at mem
    cases mem
  have matched := rows col
  cases isCol : rowColumn? (rowColumns (row.getD [])) col with
  | none =>
    rw [isCol] at matched
    rw [matched] at mem
    cases mem
  | some =>
    rw [isCol] at matched
    obtain ⟨_, list, isWritten, _⟩ := matched
    rw [list] at mem
    rw [mem_singleton.mp mem] at pending
    exact absurd isWritten.submitted (Nat.not_le_of_lt pending)

section

variable (stored : KeyStored count bound flushed keyBlocks user row) {c : RowColumn}
  (mem : c ∈ rowColumns (row.getD []))

include stored mem

theorem plain_row : c.Plain count bound := by
  cases isRow : row with
  | none =>
    rw [isRow] at mem
    simp [rowColumns] at mem
  | some bytes =>
    rw [isRow] at mem
    exact (stored.written bytes isRow).2.plain c mem

theorem placed_row (endSeq : Nat) :
    ({ (c.node : ColumnNode V) with endSeq := endSeq }).Placed keyBlocks := by
  have plain := stored.plain_row mem
  refine ⟨plain.begun, ?_, fun _ _ _ => stored.places c mem⟩
  intro _ unsubmitted
  exact absurd plain.submitted (Nat.not_le_of_lt unsubmitted)

end

theorem placed_fetchRow {loaded : UserKey V} {col : Nat} {node : ColumnNode V}
    (stored : KeyStored count bound flushed keyBlocks (some loaded) row)
    (mem : node ∈ ((loaded.fetchRow flushed row).columns col).colList) :
    node.Placed keyBlocks := by
  have own := stored.nodes loaded rfl col
  have fromRow := fun (c : RowColumn) => @placed_row _ _ _ _ _ _ _ stored c
  cases isRow : row with
  | none =>
    rw [isRow] at mem
    exact own node mem
  | some bytes =>
    rw [isRow] at mem fromRow
    obtain ⟨isFlushed, written⟩ := stored.written bytes isRow
    rw [isFlushed] at mem
    by_cases isFetched : loaded.fetched = true
    · simp only [UserKey.fetchRow, isFetched, if_true] at mem
      exact own node mem
    rw [Bool.not_eq_true] at isFetched
    rw [fetchRow_columns written isFetched] at mem
    cases isCol : rowColumn? (rowColumns bytes) col with
    | none =>
      rw [isCol] at mem
      exact own node mem
    | some c =>
      obtain ⟨inRow, _⟩ := mem_of_rowColumn isCol
      rw [isCol] at mem
      simp only [ColumnData.insertColumnNode] at mem
      cases last : (loaded.columns col).colList.getLast? with
      | none =>
        rw [last] at mem
        rw [mem_singleton.mp mem]
        exact fromRow c inRow ulongMax
      | some oldest =>
        rw [last] at mem
        simp only at mem
        split_ifs at mem
        · exact own node mem
        rcases mem_append.mp mem with inList | added
        · exact own node inList
        rw [mem_singleton.mp added]
        exact fromRow c inRow oldest.beginSeq

theorem written_rowNode {c : RowColumn} (plain : c.Plain count bound) :
    (c.node : ColumnNode V).Written ∧
      (c.node : ColumnNode V).rowColumn c.colId = c := by
  have ikeySeq_lt := plain.ikeySeq_lt
  refine ⟨⟨rfl, plain.submitted, Nat.ne_of_lt ikeySeq_lt, rfl, rfl, rfl,
    plain.inKeyBlock ulongMax⟩, ?_⟩
  have seq := plain.seq
  have ts := plain.ts
  have hasSeq := plain.hasSeq
  have hasTs := plain.hasTs
  cases c with
  | mk =>
    simp only at seq ts hasSeq hasTs
    subst ts hasSeq hasTs
    simp only [RowColumn.node, ColumnNode.fetched, ColumnNode.rowColumn]
    rw [← seq]
    rw [seq]
    rfl

theorem fetch {loaded : UserKey V}
    (stored : KeyStored count bound flushed keyBlocks (some loaded) row)
    (small : bound < ulongMax) :
    KeyStored count bound flushed keyBlocks (some (loaded.fetchRow flushed row)) row := by
  have inMemory := inMemory_fetchRow (stored.ready small 0 fun _ => true) small
  refine ⟨⟨?_, ?_, stored.places⟩, stored.written, ?_, ?_, ?_⟩
  · intro other isOther unfetched
    rw [← some.inj isOther, fetchRow_fetched] at unfetched
    cases unfetched
  · intro other isOther col _ mem
    rw [← some.inj isOther] at mem
    exact stored.placed_fetchRow mem
  · intro other isOther col
    rw [← some.inj isOther]
    exact inMemory.flushable col
  · intro _ isOther col beyond
    rw [← some.inj isOther]
    exact inMemory.unused col beyond
  intro _ isOther isClean
  rw [← some.inj isOther] at isClean ⊢
  rw [fetchRow_dirty] at isClean
  have matched := stored.clean loaded rfl isClean
  refine .inr ⟨fetchRow_fetched loaded flushed row, ?_⟩
  cases isRow : row with
  | none =>
    rw [isRow] at matched
    intro col
    exact UserKey.MatchesRow.empty matched col
  | some bytes =>
    obtain ⟨isFlushed, written⟩ := stored.written bytes isRow
    rw [isRow] at matched
    rcases matched with ⟨isFetched, empty⟩ | ⟨isFetched, rows⟩
    · intro col
      rw [isFlushed, fetchRow_columns written isFetched, getD_some]
      cases isCol : rowColumn? (rowColumns bytes) col with
      | none => exact empty col
      | some c =>
        obtain ⟨inRow, isColId⟩ := mem_of_rowColumn isCol
        obtain ⟨isWritten, same⟩ := @written_rowNode V _ _ c (written.plain c inRow)
        refine ⟨c.node, ?_, isWritten, isColId ▸ same⟩
        simp [ColumnData.insertColumnNode, empty col]
    · simp only [UserKey.fetchRow, isFetched, if_true]
      exact rows

theorem placed_flagged {node : ColumnNode V} (placed : node.Placed keyBlocks)
    (recent holding committed : Bool) : (node.flagged recent holding committed).Placed keyBlocks :=
  ⟨placed.begun, placed.valued, placed.placed⟩

theorem placed_flushColumns {info : BuilderInfo V} {split : Bool} {loaded : UserKey V}
    (placed : ∀ col, ∀ node ∈ (loaded.columns col).colList, node.Placed keyBlocks)
    (col : Nat) :
    ∀ node ∈ ((flushColumns info split (List.range info.kMaxColumnCount) loaded).user.columns
      col).colList, node.Placed keyBlocks := by
  rcases flushColumns_columns info split nodup_range loaded col with same | walked
  · rw [same]
    exact placed col
  rw [walked]
  apply (trimmed_flushNodes info col split _ _ _).forall_mem _ (placed col)
  intro _ recent holding committed isPlaced
  exact placed_flagged isPlaced recent holding committed

section Rebuild

variable {info : BuilderInfo V} {full : Bool} {loaded : UserKey V}

theorem nodes_rebuildKey (stored : KeyStored count bound flushed keyBlocks (some loaded) row)
    {left : UserKey V} (isLeft : (rebuildKey info flushed full loaded row).user = some left) :
    left.fetched = true ∧
      ∀ col, ∀ node ∈ (left.columns col).colList, node.Placed keyBlocks := by
  have isFetched : (flushColumns info full (range info.kMaxColumnCount)
      (loaded.fetchRow flushed row)).user.fetched = true := by
    rw [(flushColumns_flags info full _ _).1]
    exact fetchRow_fetched loaded flushed row
  have placed : ∀ col, ∀ node ∈ ((flushColumns info full (range info.kMaxColumnCount)
      (loaded.fetchRow flushed row)).user.columns col).colList, node.Placed keyBlocks :=
    placed_flushColumns fun col node mem => stored.placed_fetchRow mem
  obtain ⟨dirty, isRun⟩ : ∃ dirty, left = { (flushColumns info full
      (range info.kMaxColumnCount) (loaded.fetchRow flushed row)).user with
        dirty := dirty } := by
    unfold rebuildKey at isLeft
    simp only at isLeft
    split_ifs at isLeft
    · exact ⟨_, (some.inj isLeft).symm⟩
    · exact ⟨_, (some.inj isLeft).symm⟩
    · exact ⟨_, (some.inj isLeft).symm⟩
  rw [isRun]
  exact ⟨isFetched, placed⟩

theorem places_rebuildKey (stored : KeyStored count bound flushed keyBlocks (some loaded) row)
    (small : bound < ulongMax) (inMemory : InMemory info bound (loaded.fetchRow flushed row))
    (columns : info.kMaxColumnCount ≤ 64) :
    ∀ c ∈ rowColumns ((rebuildKey info flushed full loaded row).row.getD []),
      (keyBlocks c.ikeySeq c.offset).isSome = true := by
  intro _ mem
  by_cases stops : (flushColumns info full (range info.kMaxColumnCount)
      (loaded.fetchRow flushed row)).stopped = true
  · -- The old row reads as empty.
    simp only [rebuildKey, stops, if_true] at mem
    cases isRow : row with
    | none =>
      rw [isRow] at mem
      simp [rowColumns] at mem
    | some =>
      rw [isRow, map_some, getD_some, rowColumns_clearValidColumnCount] at mem
      cases mem
  have complete := Bool.eq_false_iff.mpr stops
  have walked := walkedAll_flushColumns info full nodup_range _ complete
  simp only [rebuildKey, complete, Bool.false_eq_true, if_false] at mem
  rw [rowColumns_newRow inMemory small walked columns] at mem
  obtain ⟨_, isEntry, isCol⟩ := mem_map.mp mem
  rw [walked.valid] at isEntry
  obtain ⟨col, inRange, isValid⟩ := mem_filterMap.mp isEntry
  obtain ⟨node, isNode, same⟩ := map_eq_some_iff.mp isValid
  obtain ⟨kept, isPut, sent, notMerged, _⟩ := valid_mem info col full isNode
  have placed : node.Placed keyBlocks := by
    have all := @placed_flushColumns V keyBlocks info full (loaded.fetchRow flushed row)
      (fun col node mem => stored.placed_fetchRow mem) col
    rw [walked.columns col inRange] at all
    exact all node kept
  rw [← isCol, ← same]
  exact placed.placed isPut sent notMerged

end Rebuild

theorem buildKey (stored : KeyStored count bound flushed keyBlocks user row)
    (small : bound < ulongMax) (columns : count ≤ 64) (full : Bool) (curTime : Nat)
    (trxnGroupCompleted : ColumnNode V → Bool) :
    let left := InsDb.buildKey (plainInfo count curTime trxnGroupCompleted) flushed full user row
    KeyStored count bound (if left.startsNext then flushed else true) keyBlocks left.user
      left.row := by
  intro left
  have ready := stored.ready small curTime trxnGroupCompleted
  have kept := (keyKept_buildKey (plainInfo_ready columns curTime trxnGroupCompleted)
    (fun _ => rfl) small full ready).ready
  have placed : KeyPlaced keyBlocks left.user left.row := by
    rcases buildKey_cases (plainInfo count curTime trxnGroupCompleted) flushed full user row with
      copied | ⟨loaded, rfl, -, rebuilt⟩
    · simp only [left, copied]
      exact stored.toKeyPlaced
    simp only [left, rebuilt]
    refine ⟨?_, ?_, places_rebuildKey stored small (inMemory_fetchRow ready small) columns⟩
    · intro _ isOther unfetched
      rw [(nodes_rebuildKey stored isOther).1] at unfetched
      cases unfetched
    intro _ isOther
    exact (nodes_rebuildKey stored isOther).2
  exact ⟨placed, kept.written, kept.flushable, kept.unused, kept.clean⟩

end KeyStored

end InsDb
