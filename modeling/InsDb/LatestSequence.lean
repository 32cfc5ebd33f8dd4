import InsDb.HistoryReads

/-!
# The sequence number of the latest version

`DBImpl::GetLatestSequenceForKey` is a second way to look a key up, with which a transaction checks
for write conflicts.  It asks the memory without a TTL and goes on to the row of a key that is not
fetched like `DBImpl::Get`, so it misses the same deletes.
-/

namespace InsDb

open InsDb.Library Option

variable {V : Type}

/-- `SKTableMem::GetLatestSequenceNumber` from given values of its running variables; `seqNum` is
left as it was when no column answers. -/
def latestFrom (flushed : Bool) (colId seqNum curTime ttl : Nat) :
    Nat → Nat → List RowColumn → Nat
  | _, _, [] => seqNum
  | seq, ts, column :: rest =>
    if column.colId = colId then
      if column.ownSeq flushed seq ≤ seqNum ∧
          (column.ownTs ts = 0 ∨ ttl = 0 ∨ curTime < expiry (column.ownTs ts) ttl) then
        column.ownSeq flushed seq
      else
        seqNum
    else
      latestFrom flushed colId seqNum curTime ttl (column.seq.getD seq) (column.ts.getD ts) rest

/-- `Manifest::GetLatestSequenceUsingSKTDF`. -/
def DeviceRow.getLatestSequence (row : DeviceRow) (colId curTime ttl : Nat) : Option Nat :=
  let seqNum := latestFrom row.flushed colId ulongMax curTime ttl 0 0 row.columns
  if seqNum = ulongMax then none else some seqNum

/-- `DBImpl::GetLatestSequenceForKey`; `none` is `NotFound`. -/
def getLatestSequenceForKey (user : Option (UserKey V)) (row : DeviceRow)
    (colId curTime ttl : Nat) : Option Nat :=
  match user with
  | none => row.getLatestSequence colId curTime ttl
  | some user =>
    -- The call leaves the TTL at its default.
    match user.getColumnNode colId { seqNum := ulongMax, curTime := curTime, ttl := 0 } with
    | .found node => some node.beginSeq
    | .deleted | .absent =>
      if user.fetched then none else row.getLatestSequence colId curTime ttl

namespace KeyHistory

variable {count : Nat} {s : KeyHistory V}

def latestSequence (s : KeyHistory V) (colId time : Nat) : Option Nat :=
  getLatestSequenceForKey s.user s.deviceRow colId time 0

/-- The key is found when `Get` finds it, with the sequence number of the last write. -/
def SequenceOfLastWrite (s : KeyHistory V) : Prop :=
  ∀ colId time,
    ((s.latestSequence colId time).isSome = true ↔ (s.get colId time).isSome = true) ∧
      ∀ seqNum, s.latestSequence colId time = some seqNum →
        ∃ update, s.lastWrite colId = some (seqNum, update)

end KeyHistory

theorem latestFrom_plain {count bound : Nat} {columns : List RowColumn}
    (plain : ∀ c ∈ columns, c.Plain count bound) (small : bound < ulongMax)
    (col curTime seq ts : Nat) :
    latestFrom true col ulongMax curTime 0 seq ts columns =
      match rowColumn? columns col with
      | some c => c.seq.getD 0
      | none => ulongMax := by
  induction columns generalizing seq ts with
  | nil => rfl
  | cons c rest ih =>
    have own := plain c (List.mem_cons_self)
    have restPlain : ∀ other ∈ rest, other.Plain count bound :=
      fun other mem => plain other (List.mem_cons_of_mem _ mem)
    by_cases same : c.colId = col
    · have ownSeq : c.ownSeq true seq = c.seq.getD 0 := by
        rw [RowColumn.ownSeq, own.seq]
        simp [own.hasSeq]
      have below := own.below
      have begins : c.seq.getD 0 ≤ ulongMax := by omega
      simp [latestFrom, rowColumn?, same, ownSeq, begins]
    · simpa [latestFrom, rowColumn?, same] using ih restPlain (c.seq.getD seq)
        (c.ts.getD ts)

theorem KeyStored.getLatestSequence_row {count bound : Nat} {flushed : Bool}
    {keyBlocks : Nat → Nat → Option V} {user : Option (UserKey V)} {row : Option Bytes}
    (stored : KeyStored count bound flushed keyBlocks user row) (small : bound < ulongMax)
    (col time : Nat) :
    (rowOf flushed row).getLatestSequence col time 0 =
      (rowSeen (rowColumns (row.getD [])) col ulongMax : Option (Designator V × Nat)).map
        Prod.snd := by
  cases isRow : row with
  | none => rfl
  | some bytes =>
    obtain ⟨isFlushed, written⟩ := stored.written bytes isRow
    simp only [DeviceRow.getLatestSequence, rowOf, isFlushed, getD_some, rowSeen]
    rw [latestFrom_plain written.plain small]
    cases isCol : rowColumn? (rowColumns bytes) col with
    | none => rfl
    | some c =>
      have below := (written.plain c (mem_of_rowColumn isCol).1).below
      have begins : c.seq.getD 0 ≤ ulongMax := by omega
      have notMax : c.seq.getD 0 ≠ ulongMax := by omega
      simp only [if_neg notMax, filter_some, begins, decide_true, if_true, map_some]
      rfl

namespace KeyHistory

variable {count : Nat} {s : KeyHistory V}

theorem Valid.latestSequence_eq (valid : s.Valid count) {col : Nat}
    {version : Option (Designator V × Nat)}
    (found : ∀ time, keyReads s.user s.deviceRow col ulongMax time = bothFind version)
    (time : Nat) : s.latestSequence col time = version.map Prod.snd := by
  have pad : padRead s.user s.deviceRow col
      { seqNum := ulongMax, curTime := time, ttl := 0 } = version :=
    congrArg Prod.fst (found time)
  have read : getRead s.user s.deviceRow col
      { seqNum := ulongMax, curTime := time, ttl := 0 } = version.map Prod.fst :=
    congrArg Prod.snd (found time)
  have rowLatest := valid.stored.getLatestSequence_row valid.small col time
  have rowReads := (valid.stored.ready valid.small 0 fun _ => true).reads_row col ulongMax time
  have rowPad : s.deviceRow.padEntry col { seqNum := ulongMax, curTime := time, ttl := 0 } =
        rowSeen (rowColumns (s.row.getD [])) col ulongMax :=
    congrArg Prod.fst rowReads
  have rowValue : s.deviceRow.getValue col { seqNum := ulongMax, curTime := time, ttl := 0 } =
        (rowSeen (rowColumns (s.row.getD [])) col ulongMax).map Prod.fst :=
    congrArg Prod.snd rowReads
  unfold KeyHistory.latestSequence getLatestSequenceForKey
  cases isUser : s.user with
  | none =>
    rw [isUser] at pad
    rw [← pad]
    exact rowLatest.trans (congrArg (Option.map Prod.snd) rowPad.symm)
  | some loaded =>
    rw [isUser] at pad read
    simp only [padRead, getRead] at pad read
    cases lookup : loaded.getColumnNode col { seqNum := ulongMax, curTime := time, ttl := 0 } with
    | found =>
      simp only [lookup] at pad ⊢
      rw [← pad]
      rfl
    | absent =>
      simp only [lookup] at pad ⊢
      rw [← pad]
      split_ifs
      · rfl
      · exact rowLatest.trans (congrArg (Option.map Prod.snd) rowPad.symm)
    | deleted =>
      simp only [lookup] at pad read ⊢
      rw [← pad] at read ⊢
      split_ifs at read ⊢
      · rfl
      -- The row has nothing either, or `Get` would find it.
      rw [rowValue, Option.map_none, Option.map_eq_none_iff] at read
      exact rowLatest.trans (congrArg (Option.map Prod.snd) read)

theorem Valid.sequenceOfLastWrite (valid : s.Valid count) : s.SequenceOfLastWrite := by
  intro col time
  obtain ⟨version, found, designates⟩ := valid.reads col
  have isGet := valid.readsLastWrite col time
  rw [valid.latestSequence_eq found time, isGet]
  unfold KeyHistory.written
  cases isLast : s.lastWrite col with
  | none =>
    rw [isLast] at designates
    rw [show version = none from designates]
    exact ⟨Iff.rfl, fun _ isSeq => (by cases isSeq)⟩
  | some write =>
    obtain ⟨_, update⟩ := write
    rw [isLast] at designates
    cases update with
    | del =>
      rw [show version = none from designates]
      exact ⟨Iff.rfl, fun _ isSeq => (by cases isSeq)⟩
    | put v =>
      obtain ⟨_, isVersion, _⟩ := designates
      rw [isVersion]
      refine ⟨Iff.rfl, ?_⟩
      intro _ isSeq
      rw [← some.inj isSeq]
      exact ⟨.put v, rfl⟩

theorem Valid.not_sequenceOfLastWrite (valid : s.Valid count) {next : KeyHistory V}
    {action : KeyStep V} (taken : s.step count action = some next)
    (fails : ¬ s.DeletesFetched action) : ¬ next.SequenceOfLastWrite := by
  obtain ⟨col, c, _, uncovered⟩ := valid.uncovered taken fails
  obtain ⟨mem, isColId⟩ := mem_of_getColumnInfo uncovered.found
  have inRow : (rowColumn? (rowColumns (s.row.getD [])) col).isSome = true := by
    rw [rowColumn?, List.find?_isSome]
    exact ⟨c, mem, by simp [isColId]⟩
  obtain ⟨first, isFirst⟩ := isSome_iff_exists.mp inRow
  have below := (valid.stored.plain_row (mem_of_rowColumn isFirst).1).below
  have begins : first.seq.getD 0 ≤ ulongMax := by
    have small := valid.small
    omega
  have returned : next.latestSequence col 0 = some (first.seq.getD 0) := by
    simp only [KeyHistory.latestSequence, getLatestSequenceForKey, uncovered.user,
      uncovered.deleted, uncovered.unfetched, Bool.false_eq_true, if_false, uncovered.sameRow]
    rw [KeyHistory.deviceRow, valid.stored.getLatestSequence_row valid.small, rowSeen, isFirst]
    simp only [filter_some, begins, decide_true, if_true, map_some]
    rfl
  intro isLast
  obtain ⟨_, written⟩ := (isLast col 0).2 _ returned
  rw [uncovered.lastWrite] at written
  have sameSeq := (Prod.mk.inj (some.inj written)).1
  omega

end KeyHistory

namespace PooledKey

variable {s : PooledKey V}

/-- `GetLatestSequenceForKey`; `none` if it follows a pointer to a deleted node. -/
def latestSequence (s : PooledKey V) (colId time : Nat) : Option (Option Nat) :=
  if colId ∈ s.stale then none else some (s.history.latestSequence colId time)

/-- The key is found when `Get` finds it, with the sequence number of the last write. -/
def SequenceOfLastWrite (s : PooledKey V) : Prop :=
  ∀ colId time, ∃ sequence value, s.latestSequence colId time = some sequence ∧
    s.get colId time = some value ∧ (sequence.isSome = true ↔ value.isSome = true) ∧
      ∀ seqNum, sequence = some seqNum → ∃ update, s.history.lastWrite colId = some (seqNum, update)

theorem sequenceOfLastWrite_iff (unstale : s.stale = []) :
    s.SequenceOfLastWrite ↔ s.history.SequenceOfLastWrite := by
  unfold SequenceOfLastWrite KeyHistory.SequenceOfLastWrite
  simp [latestSequence, get, unstale]

end PooledKey

/-- Without TTLs, `GetLatestSequenceForKey` finds every column that `Get` finds, with the number of
its last write, in every state of a history exactly when every delete finds the key fetched or no
version of the column in its row, and no `UserKey` comes from the pool with a pointer for another
column than the written one. -/
theorem sequenceOfLastWrite_iff_ordinary {count : Nat} (columns : count ≤ 64)
    (actions : List (KeyStep V)) :
    Run.AllHold (PooledKey.step count) PooledKey.SequenceOfLastWrite actions {} ↔
      Run.AllMeet (PooledKey.step count) PooledKey.Ordinary actions {} := by
  apply Run.allHold_iff_allMeet (PooledKey.Valid count)
  · intro s valid
    exact (PooledKey.sequenceOfLastWrite_iff valid.unstale).mpr valid.history.sequenceOfLastWrite
  · intro _ _ _ valid taken ordinary
    exact valid.step columns taken ordinary
  · intro s action next valid taken isLast
    have unstale : next.stale = [] := by
      rw [List.eq_nil_iff_forall_not_mem]
      intro other isStale
      obtain ⟨_, _, found, -⟩ := isLast other 0
      rw [PooledKey.latestSequence, if_pos isStale] at found
      cases found
    by_contra fails
    rcases PooledKey.not_ordinary taken fails with uncovered | ⟨other, isStale⟩
    · exact valid.history.not_sequenceOfLastWrite (PooledKey.step_cases taken).1 uncovered
        ((PooledKey.sequenceOfLastWrite_iff unstale).mp isLast)
    · rw [unstale] at isStale
      cases isStale
  · exact ⟨KeyHistory.valid_start count, rfl⟩

theorem evictedPut_fetched_sequence :
    1 ≤ 64 ∧ Run.AllHold (PooledKey.step 1) PooledKey.SequenceOfLastWrite
      (evictedPut ++ [.write 0 (.put 8) false {} 0 [0], .fetch, .write 0 .del false {} 0 []]) {} :=
  ⟨by decide, (sequenceOfLastWrite_iff_ordinary (by decide) _).mpr (by decide +kernel)⟩

/-- The number of the put is returned after the delete; and on the `UserKey` of the evicted put the
number of its column after a delete of another one is read from a deleted node. -/
theorem deleted_sequence_returned :
    ((Run.exec (PooledKey.step 1) (evictedPut ++ [.write 0 .del false {} 0 []]) {}).map
        (fun s => (s.latestSequence 0 0, (s.history.lastWrite 0).map Prod.fst)) =
          some (some (some 2), some 3) ∧
      ¬ Run.AllHold (PooledKey.step 1) PooledKey.SequenceOfLastWrite
        (evictedPut ++ [.write 0 .del false {} 0 []]) {}) ∧
    (Run.exec (PooledKey.step 2) (evictedPut ++ [.write 1 .del false {} 0 [0]]) {}).map
        (fun s => (s.latestSequence 0 0, (s.history.lastWrite 0).map Prod.fst)) =
          some (none, some 2) := by
  have returned : (Run.exec (PooledKey.step 1)
      (evictedPut ++ [.write 0 .del false {} 0 []]) {}).map
      (fun s => (s.latestSequence 0 0, (s.history.lastWrite 0).map Prod.fst)) =
        some (some (some 2), some 3) := by
    decide +kernel
  refine ⟨⟨returned, ?_⟩, by decide +kernel⟩
  intro all
  obtain ⟨s, runs, numbers⟩ := map_eq_some_iff.mp returned
  obtain ⟨isSeq, isLast⟩ := Prod.mk.inj numbers
  obtain ⟨_, _, found, -, -, written⟩ := all.final runs 0 0
  obtain ⟨_, isWritten⟩ := written 2 (some.inj (found.symm.trans isSeq))
  rw [isWritten] at isLast
  cases isLast

end InsDb
