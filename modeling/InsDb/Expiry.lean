import InsDb.FlushColumn

/-!
# When a row is expired

Three places decide whether a version has outlived the TTL of its column: `GetColumnNode` for a
version in memory, `CheckColumnStatus` when a flush looks for the version to write, and
`GetColumnInfo` for a row of the device.  The first two agree.  The row expires one second
earlier, and a row without a time stamp never does.
-/

namespace InsDb

open InsDb.Library

variable {V : Type}

structure ColumnNode.Flushed (node : ColumnNode V) : Prop where
  isPut : node.requestType = .put
  notDropped : node.dropped = false
  notMerged : node.ikeySeq ≠ ulongMax
  submitted : node.ikeySeq ≠ 0
  notSuperseded : node.recentColNodeDeleted = false
  encodable : node.Encodable

structure FlushedRow (valid : List (Nat × ColumnNode V)) : Prop where
  count : valid.length < 256
  distinct : (valid.map Prod.fst).Nodup
  fits : ∀ entry ∈ valid, entry.1 < 64 ∧ entry.2.Encodable

/-- Memory, flush and device decide alike about a version that a flush has written into a row. -/
structure SameExpiry (info : BuilderInfo V) (flushed : Bool)
    (valid : List (Nat × ColumnNode V)) (colId : Nat) (node : ColumnNode V) : Prop where
  flush : ∀ iter, node.hidden info.curTime (info.ttlList colId) = true ↔
    (checkColumnStatus info colId node iter false).1 ≠ .validColumn
  device : node.hidden info.curTime (info.ttlList colId) = true ↔
    getColumnInfo flushed (rowColumns (encodeRow valid)) colId ulongMax info.curTime
      (info.ttlList colId) = none

theorem ColumnNode.Flushed.hidden_iff {node : ColumnNode V} (isFlushed : node.Flushed)
    (curTime ttl : Nat) :
    node.hidden curTime ttl = true ↔ ttl ≠ 0 ∧ expiry node.ts ttl < curTime := by
  simp [ColumnNode.hidden, isFlushed.notDropped, isFlushed.isPut]

theorem ColumnNode.Flushed.invalid_iff {node : ColumnNode V} (isFlushed : node.Flushed)
    (info : BuilderInfo V) (col : Nat) (iter : Bool) :
    (checkColumnStatus info col node iter false).1 ≠ .validColumn ↔
      info.ttlList col ≠ 0 ∧ expiry node.ts (info.ttlList col) < info.curTime := by
  have refused : (if iter then ColumnStatus.iterColumn else .invalidColumn) ≠ .validColumn := by
    cases iter <;> decide
  unfold checkColumnStatus
  rw [if_pos ⟨rfl, isFlushed.notMerged⟩]
  by_cases noTtl : info.ttlList col = 0
  · simp [isFlushed.isPut, isFlushed.notSuperseded, noTtl]
  by_cases fresh : info.curTime ≤ expiry node.ts (info.ttlList col)
  · simp [isFlushed.isPut, isFlushed.notSuperseded, fresh]
  · simp [isFlushed.isPut, isFlushed.notSuperseded, fresh, noTtl, Nat.lt_of_not_le fresh, refused]

theorem ColumnNode.rowColumn_ownTs (node : ColumnNode V) (col carried : Nat) :
    (node.rowColumn col).ownTs carried = node.ts := by
  unfold RowColumn.ownTs ColumnNode.rowColumn
  by_cases noTs : node.ts = 0 <;> simp [noTs]

theorem ColumnNode.Encodable.ownSeq_le {node : ColumnNode V} (encodable : node.Encodable)
    (flushed : Bool) (col carried : Nat) :
    (node.rowColumn col).ownSeq flushed carried ≤ ulongMax := by
  have small := encodable.beginSeq_lt
  have written : (node.rowColumn col).seq.getD carried = node.beginSeq := by
    simp [ColumnNode.rowColumn]
  unfold RowColumn.ownSeq
  split_ifs
  · rw [written]
    unfold ulongMax
    omega
  · exact Nat.zero_le _

theorem getFrom_flushedRow {valid : List (Nat × ColumnNode V)} {col : Nat}
    {node : ColumnNode V} (nodup : (valid.map Prod.fst).Nodup)
    (mem : (col, node) ∈ valid) (isFlushed : node.Flushed) (flushed : Bool)
    (curTime ttl seq ts : Nat) :
    getFrom flushed col ulongMax curTime ttl seq ts
        (valid.map fun (col, node) => node.rowColumn col) = none ↔
      node.ts ≠ 0 ∧ ttl ≠ 0 ∧ expiry node.ts ttl ≤ curTime := by
  induction valid generalizing seq ts with
  | nil => cases mem
  | cons entry rest ih =>
    obtain ⟨fresh, restDistinct⟩ := List.nodup_cons.mp nodup
    rw [List.map_cons, getFrom]
    rcases List.mem_cons.mp mem with isEntry | inRest
    · subst isEntry
      have isCol : (node.rowColumn col).colId = col := rfl
      have isStored : (node.rowColumn col).ikeySeq ≠ 0 := isFlushed.submitted
      rw [if_pos isCol]
      simp only [isFlushed.encodable.ownSeq_le flushed col seq, node.rowColumn_ownTs,
        isStored, true_and, and_true, ne_eq, not_false_eq_true]
      split_ifs with shown
      · simp only [false_iff]
        omega
      simp only [true_iff]
      omega
    have differs : (entry.2.rowColumn entry.1).colId ≠ col := by
      intro same
      have isColId : entry.1 = col := same
      apply fresh
      rw [isColId]
      exact List.mem_map_of_mem inRest
    rw [if_neg differs]
    exact ih restDistinct inRest _ _

/-- The decisions agree on columns without TTL, on rows with a time stamp except at the very second
in which they expire, and on rows without one only as long as they would not be expired. -/
theorem sameExpiry_iff {info : BuilderInfo V} {valid : List (Nat × ColumnNode V)}
    {colId : Nat} {node : ColumnNode V} (row : FlushedRow valid)
    (member : (colId, node) ∈ valid) (isFlushed : node.Flushed) (flushed : Bool) :
    SameExpiry info flushed valid colId node ↔ info.ttlList colId = 0 ∨
        (node.ts = 0 ∧ info.curTime ≤ expiry node.ts (info.ttlList colId)) ∨
        (node.ts ≠ 0 ∧ expiry node.ts (info.ttlList colId) ≠ info.curTime) := by
  have memory := isFlushed.hidden_iff info.curTime (info.ttlList colId)
  have device : getColumnInfo flushed (rowColumns (encodeRow valid)) colId ulongMax info.curTime
      (info.ttlList colId) = none ↔ node.ts ≠ 0 ∧ info.ttlList colId ≠ 0 ∧
          expiry node.ts (info.ttlList colId) ≤ info.curTime := by
    rw [rowColumns_encodeRow row.count row.fits]
    exact getFrom_flushedRow row.distinct member isFlushed flushed info.curTime _ 0 0
  constructor
  · intro same
    have agree := same.device
    rw [memory, device] at agree
    omega
  intro _
  constructor
  · intro iter
    exact memory.trans (isFlushed.invalid_iff info colId iter).symm
  rw [memory, device]
  omega

def stampedPut : ColumnNode Nat :=
  ColumnNode.fetched 5 100 1088 8 0

def tenSecondTtl (curTime : Nat) : BuilderInfo Nat :=
  { snapshots := []
    curTime := curTime
    ttlList := fun _ => 10
    kMaxColumnCount := 1
    trxnGroupCompleted := fun _ => true }

theorem stampedPut_flushed : stampedPut.Flushed :=
  ⟨rfl, rfl, by decide, by decide, rfl, by constructor <;> decide⟩

theorem stampedPut_flushedRow : FlushedRow [(0, stampedPut)] := by
  constructor
  · decide
  · decide
  intro _ mem
  rw [List.mem_singleton.mp mem]
  exact ⟨by decide, stampedPut_flushed.encodable⟩

/-- One second before, all three take the version for alive. -/
theorem stampedPut_sameExpiry :
    stampedPut.Flushed ∧ SameExpiry (tenSecondTtl 109) true [(0, stampedPut)] 0 stampedPut :=
  ⟨stampedPut_flushed,
    (sameExpiry_iff stampedPut_flushedRow (by simp) stampedPut_flushed true).mpr (by decide)⟩

/-- At time 110 a read from memory returns the version and a flush keeps it, but a read of the row
the flush has written does not find it. -/
theorem row_expires_a_second_early : FlushedRow [(0, stampedPut)] ∧ stampedPut.Flushed ∧
      stampedPut.hidden 110 10 = false ∧
      (checkColumnStatus (tenSecondTtl 110) 0 stampedPut false false).1 = .validColumn ∧
      getColumnInfo true (rowColumns (encodeRow [(0, stampedPut)])) 0 ulongMax 110 10 = none ∧
      ¬ SameExpiry (tenSecondTtl 110) true [(0, stampedPut)] 0 stampedPut := by
  have alive : stampedPut.hidden 110 10 = false := by decide
  have gone : getColumnInfo true (rowColumns (encodeRow [(0, stampedPut)])) 0 ulongMax 110 10 =
      none := by
    rw [rowColumns_encodeRow stampedPut_flushedRow.count stampedPut_flushedRow.fits]
    decide
  refine ⟨stampedPut_flushedRow, stampedPut_flushed, alive, by decide, gone, ?_⟩
  intro same
  have expired := same.device.mpr gone
  rw [show (tenSecondTtl 110).curTime = 110 from rfl,
    show (tenSecondTtl 110).ttlList 0 = 10 from rfl, alive] at expired
  cases expired

end InsDb
