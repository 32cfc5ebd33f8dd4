import InsDb.TransactionLog
import Mathlib.Data.List.Induction

/-!
# The count that the entries of a batch carry

The count of a transaction starts as the number of updates and is lowered by each
cancelled delete, so that entries recorded before and after a cancelled delete disagree
about it.  Recovery takes a transaction as complete when it has met as many entries as
the count says.
-/

namespace InsDb

open InsDb.Library List

variable {K V : Type} [LinearOrder K]

variable (db : Db K V)

/-- The type of the newest version of a column once the updates of `front` are stored. -/
def newestAfter (front : List (BatchUpdate K V)) (key : K)
    (colId : Nat) : Option RequestType :=
  front.foldl
    (fun newest change =>
      if change.key = key ∧ change.colId = colId then
        some change.update.requestType
      else
        newest)
    (db.newestType key colId)

variable (changes : List (BatchUpdate K V))

/-- The update at `position` is a delete and finds a delete as the newest version, from
before the batch or from an earlier update of the batch. -/
def RedundantAt (position : Nat) : Prop :=
  ∃ change, changes[position]? = some change ∧ change.update.requestType = .del ∧
    newestAfter db (changes.take position) change.key change.colId = some .del

theorem redundantAt_zero (change : BatchUpdate K V) (rest : List (BatchUpdate K V)) :
    RedundantAt db (change :: rest) 0 ↔ Redundant db change := by
  simp [RedundantAt, Redundant, newestAfter]

variable {handler : WriteBatchInternal K V}

theorem redundantAt_succ (nonempty : handler.db.tables ≠ []) (change : BatchUpdate K V)
    (rest : List (BatchUpdate K V)) (pos : Nat) :
    RedundantAt handler.db (change :: rest) (pos + 1) ↔
      RedundantAt (handler.store change).db rest pos := by
  unfold RedundantAt newestAfter
  simp [WriteBatchInternal.newestType_store nonempty]

def CountsAgree (entries : List Transaction) : Prop :=
  ∀ entry ∈ entries, entry.count = entries.length ∧ ∀ other ∈ entries, other.id = entry.id

instance (entries : List Transaction) : Decidable (CountsAgree entries) :=
  inferInstanceAs (Decidable (∀ entry ∈ entries, _ ∧ ∀ other ∈ entries, _))

variable (changes : List (BatchUpdate K V))

theorem logged_length_le (handler : WriteBatchInternal K V) :
    (logged changes handler).length ≤ changes.length := by
  induction changes generalizing handler with
  | nil => exact Nat.le_refl 0
  | cons change rest ih =>
    have bound := ih (handler.store change)
    have one : (handler.recorded change).toList.length ≤ 1 := by
      cases handler.recorded change <;> simp
    simp only [logged, length_append, length_cons]
    omega

variable {change : BatchUpdate K V}

theorem logged_cons_of_cancelled (cancelled : handler.cancelled change = true)
    (rest : List (BatchUpdate K V)) :
    logged (change :: rest) handler = logged rest (handler.store change) := by
  simp [logged, WriteBatchInternal.recorded, cancelled]

theorem logged_cons_of_accepted (accepted : handler.cancelled change = false)
    (rest : List (BatchUpdate K V)) :
    logged (change :: rest) handler =
      (assignTrxnID handler.trxn handler.db.trxns).1 :: logged rest (handler.store change) := by
  simp [logged, WriteBatchInternal.recorded, accepted]

@[simp] theorem Transaction.cancelOne_id (trxn : Transaction) : trxn.cancelOne.id = trxn.id := rfl

@[simp] theorem Transaction.cancelOne_seqNumber (trxn : Transaction) :
    trxn.cancelOne.seqNumber = trxn.seqNumber := rfl

theorem Transaction.cancelOne_count {trxn : Transaction} (positive : 0 < trxn.count) :
    trxn.cancelOne.count = trxn.count - 1 :=
  if_neg (Nat.ne_of_gt positive)

theorem assignTrxnID_of_id {trxn : Transaction} (assigned : trxn.id ≠ 0) (groups : TrxnGroups) :
    assignTrxnID trxn groups = (trxn, groups) := by
  simp [assignTrxnID, assigned]

theorem logged_of_assigned (nonempty : handler.db.tables ≠ []) (assigned : handler.trxn.id ≠ 0)
    (started : 0 < handler.trxn.seqNumber)
    (fits : handler.trxn.seqNumber + changes.length ≤ handler.trxn.count)
    (small : handler.trxn.count < 2 ^ 32) :
    (handler.trxn.seqNumber + (logged changes handler).length = handler.trxn.count ↔
      handler.trxn.seqNumber + changes.length = handler.trxn.count ∧
        ∀ pos, pos + 1 < changes.length → ¬ RedundantAt handler.db changes pos) ∧
    (handler.trxn.seqNumber + (logged changes handler).length = handler.trxn.count →
      ∀ entry ∈ logged changes handler, entry.count = handler.trxn.count) ∧
    ∀ entry ∈ logged changes handler, entry.id = handler.trxn.id := by
  induction changes generalizing handler with
  | nil => simp [logged]
  | cons change rest ih =>
    rw [length_cons] at fits
    have nonempty' := WriteBatchInternal.tables_store_ne_nil nonempty change
    cases decided : handler.cancelled change with
    | true =>
      obtain ⟨redundant, notLast⟩ := of_decide_eq_true decided
      have stored : (handler.store change).trxn = handler.trxn.cancelOne := by
        rw [WriteBatchInternal.store_of_cancelled decided]
      have count := Transaction.cancelOne_count (show 0 < handler.trxn.count by omega)
      -- The number of entries that are still possible no longer reaches the count.
      have more : handler.trxn.seqNumber + 1 ≠ handler.trxn.count := by
        intro _
        have isLast : handler.trxn.isLast = true := by
          simp only [Transaction.isLast, decide_eq_true_eq]
          omega
        rw [isLast] at notLast
        cases notLast
      rw [logged_cons_of_cancelled decided]
      have bound := logged_length_le rest (handler.store change)
      have short : handler.trxn.seqNumber + (logged rest (handler.store change)).length ≠
          handler.trxn.count := by omega
      refine ⟨⟨fun full => absurd full short, ?_⟩, fun full => absurd full short, ?_⟩
      · rintro ⟨full, clean⟩
        rw [length_cons] at full clean
        exact absurd ((redundantAt_zero handler.db change rest).mpr redundant) (clean 0 (by omega))
      have ids := (ih nonempty' (by rwa [stored, Transaction.cancelOne_id])
        (by rwa [stored, Transaction.cancelOne_seqNumber])
        (by rw [stored, count, Transaction.cancelOne_seqNumber]; omega)
        (by rw [stored, count]; omega)).2.2
      rwa [stored, Transaction.cancelOne_id] at ids
    | false =>
      have stored : (handler.store change).trxn = handler.trxn.advance := by
        rw [WriteBatchInternal.trxn_store_of_accepted decided, assignTrxnID_of_id assigned]
      obtain ⟨length, counts, ids⟩ := ih nonempty' (by rw [stored]; exact assigned)
        (by rw [stored]; exact Nat.succ_pos _)
        (by rw [stored]; simp only [Transaction.advance]; omega)
        (by rw [stored]; exact small)
      rw [stored] at length counts ids
      simp only [Transaction.advance] at length counts ids
      rw [logged_cons_of_accepted decided, assignTrxnID_of_id assigned]
      have next : ∀ more, handler.trxn.seqNumber + (more + 1) =
          handler.trxn.seqNumber + 1 + more := by omega
      simp only [length_cons, mem_cons, forall_eq_or_imp]
      rw [next (logged rest (handler.store change)).length, next rest.length]
      refine ⟨?_, fun full => ⟨trivial, counts full⟩, trivial, ids⟩
      rw [length]
      apply and_congr_right
      intro _
      constructor
      · intro clean pos _
        cases pos with
        | zero =>
          rw [redundantAt_zero]
          intro redundant
          have notLast : handler.trxn.isLast = false := by
            simp only [Transaction.isLast, decide_eq_false_iff_not]
            omega
          exact absurd (show handler.cancelled change = true from
            decide_eq_true ⟨redundant, notLast⟩) (by simp [decided])
        | succ pos =>
          rw [redundantAt_succ nonempty]
          exact clean pos (by omega)
      · intro clean pos _
        rw [← redundantAt_succ nonempty]
        exact clean (pos + 1) (by omega)

def FirstWritten (first : Nat) : Prop :=
  first < changes.length ∧ ¬ RedundantAt db changes first ∧
    ∀ position, position < first → RedundantAt db changes position

theorem firstWritten_cons_of_redundant (nonempty : handler.db.tables ≠ [])
    (redundant : Redundant handler.db change) (rest : List (BatchUpdate K V)) (first : Nat) :
    FirstWritten handler.db (change :: rest) first ↔
      ∃ later, first = later + 1 ∧ FirstWritten (handler.store change).db rest later := by
  have atZero := (redundantAt_zero handler.db change rest).mpr redundant
  unfold FirstWritten
  cases first with
  | zero => simp [atZero]
  | succ =>
    simp only [length_cons, Nat.succ_lt_succ_iff, redundantAt_succ nonempty,
      Nat.add_right_cancel_iff, exists_eq_left']
    apply and_congr_right
    intro _
    apply and_congr_right
    intro _
    constructor
    · intro earlier pos pre
      exact (redundantAt_succ nonempty change rest pos).mp
        (earlier (pos + 1) (Nat.succ_lt_succ pre))
    intro earlier pos pre
    cases pos with
    | zero => exact atZero
    | succ pos =>
      exact (redundantAt_succ nonempty change rest pos).mpr
        (earlier pos (Nat.lt_of_succ_lt_succ pre))

theorem firstWritten_cons_of_not_redundant {db : Db K V} (written : ¬ Redundant db change)
    (rest : List (BatchUpdate K V)) (first : Nat) :
    FirstWritten db (change :: rest) first ↔ first = 0 := by
  have atZero := mt (redundantAt_zero db change rest).mp written
  constructor
  · rintro ⟨-, -, earlier⟩
    by_contra positive
    exact atZero (earlier 0 (Nat.pos_of_ne_zero positive))
  rintro rfl
  exact ⟨Nat.succ_pos _, atZero, fun pos pre => absurd pre (Nat.not_lt_zero _)⟩

/-- Nothing is lost between the first entry and the last update of a batch of `count`
updates: the batch is stored to its end under an id that is not 0, and no update in
between is a redundant delete. -/
def NoneLost (count first : Nat) : Prop :=
  changes.length = count ∧ db.trxns.nextTrxnId ≠ 0 ∧
    ∀ position, first < position → position + 1 < count → ¬ RedundantAt db changes position

theorem TrxnGroups.nextTrxnId_getTrxnID (groups : TrxnGroups) (count : Nat) :
    (groups.getTrxnID count).2.nextTrxnId ≠ 0 := by
  simp only [TrxnGroups.getTrxnID, Nat.shiftLeft_eq]
  split_ifs
  · exact Nat.ne_of_gt (Nat.mul_pos (Nat.succ_pos _) (by decide))
  · exact Nat.succ_ne_zero _

theorem logged_head_of_no_id (handler : WriteBatchInternal K V) (noId : handler.trxn.id = 0)
    (next : handler.db.trxns.nextTrxnId ≠ 0) {entry : Transaction} {others : List Transaction}
    (isLogged : logged changes handler = entry :: others) : entry.id ≠ 0 ∨ entry.count ≤ 1 := by
  induction changes generalizing handler with
  | nil => simp [logged] at isLogged
  | cons change rest ih =>
    cases decided : handler.cancelled change with
    | true =>
      rw [logged_cons_of_cancelled decided] at isLogged
      refine ih _ ?_ ?_ isLogged
      · rw [WriteBatchInternal.store_of_cancelled decided]
        rwa [Transaction.cancelOne_id]
      rw [WriteBatchInternal.store_of_cancelled decided]
      simpa [Db.cancelUpdate, noId] using next
    | false =>
      rw [logged_cons_of_accepted decided] at isLogged
      obtain ⟨rfl, -⟩ := cons.inj isLogged
      unfold assignTrxnID
      split_ifs with fresh
      · exact .inl next
      right
      simp only
      omega

theorem countsAgree_cons_iff (entry : Transaction) (others : List Transaction) :
    CountsAgree (entry :: others) ↔ 1 + others.length = entry.count ∧
        ∀ other ∈ others, other.count = entry.count ∧ other.id = entry.id := by
  constructor
  · intro agree
    obtain ⟨count, ids⟩ := agree entry mem_cons_self
    rw [length_cons] at count
    refine ⟨by omega, ?_⟩
    intro other mem
    have otherCount := (agree other (mem_cons_of_mem _ mem)).1
    rw [length_cons] at otherCount
    exact ⟨by omega, ids other (mem_cons_of_mem _ mem)⟩
  rintro ⟨_, same⟩
  have all : ∀ other ∈ entry :: others, other.count = entry.count ∧ other.id = entry.id := by
    intro other mem
    rcases mem_cons.mp mem with rfl | later
    · exact ⟨rfl, rfl⟩
    · exact same other later
  intro some mem
  refine ⟨?_, ?_⟩
  · rw [(all some mem).1, length_cons]
    omega
  intro other otherMem
  rw [(all other otherMem).2, (all some mem).2]

theorem countsAgree_of_first (nonempty : handler.db.tables ≠ []) (noId : handler.trxn.id = 0)
    (noEntry : handler.trxn.seqNumber = 0) (accepted : handler.cancelled change = false)
    {rest : List (BatchUpdate K V)} (fits : 1 + rest.length ≤ handler.trxn.count)
    (small : handler.trxn.count < 2 ^ 32) :
    CountsAgree (logged (change :: rest) handler) ↔
      handler.trxn.count = 1 ∨ NoneLost handler.db (change :: rest) handler.trxn.count 0 := by
  rw [logged_cons_of_accepted accepted, countsAgree_cons_iff]
  have stored := WriteBatchInternal.trxn_store_of_accepted accepted
  have groups := WriteBatchInternal.trxns_store_of_accepted accepted
  by_cases single : handler.trxn.count = 1
  · obtain rfl : rest = [] := eq_nil_of_length_eq_zero (by omega)
    simp [single, logged, assignTrxnID]
  have several : 1 < handler.trxn.count ∧ handler.trxn.id = 0 := ⟨by omega, noId⟩
  have assigned : assignTrxnID handler.trxn handler.db.trxns =
      ({ handler.trxn with id := handler.db.trxns.nextTrxnId },
        (handler.db.trxns.getTrxnID handler.trxn.count).2) := by
    simp only [assignTrxnID, if_pos several, TrxnGroups.getTrxnID]
  rw [assigned] at stored groups ⊢
  by_cases idZero : handler.db.trxns.nextTrxnId = 0
  · -- The next entry, if there is one, has another id.
    have lost : ¬ NoneLost handler.db (change :: rest) handler.trxn.count 0 :=
      fun noneLost => noneLost.2.1 idZero
    simp only [single, lost, or_self, iff_false]
    rintro ⟨total, same⟩
    cases isLogged : logged rest (handler.store change) with
    | nil =>
      rw [isLogged, length_nil] at total
      omega
    | cons entry =>
      obtain ⟨_, sameId⟩ := same entry (by simp [isLogged])
      have differs := logged_head_of_no_id rest (handler.store change)
        (by rw [stored]; exact idZero)
        (by rw [groups]; exact TrxnGroups.nextTrxnId_getTrxnID _ _) isLogged
      rcases differs with otherId | otherCount
      · exact otherId (sameId.trans idZero)
      · omega
  · obtain ⟨total, counts, ids⟩ := logged_of_assigned rest
      (WriteBatchInternal.tables_store_ne_nil nonempty change)
      (by rw [stored]; exact idZero) (by rw [stored]; exact Nat.succ_pos _)
      (by rw [stored]; simp only [Transaction.advance]; omega) (by rw [stored]; exact small)
    rw [stored] at total counts ids
    simp only [Transaction.advance, noEntry, Nat.zero_add] at total counts ids
    simp only [single, false_or, NoneLost, length_cons]
    constructor
    · rintro ⟨full, -⟩
      obtain ⟨_, clean⟩ := total.mp full
      refine ⟨by omega, idZero, ?_⟩
      intro pos post pre
      obtain ⟨earlier, rfl⟩ := Nat.exists_eq_succ_of_ne_zero (Nat.ne_of_gt post)
      rw [redundantAt_succ nonempty]
      exact clean earlier (by omega)
    rintro ⟨_, -, clean⟩
    have full := total.mpr ⟨by omega, fun pos pre => by
      rw [← redundantAt_succ nonempty]
      exact clean (pos + 1) (Nat.succ_pos _) (by omega)⟩
    exact ⟨full, fun other mem => ⟨counts full other mem, ids other mem⟩⟩

theorem noneLost_cons (nonempty : handler.db.tables ≠ [])
    (groups : (handler.store change).db.trxns = handler.db.trxns)
    (rest : List (BatchUpdate K V)) (count first : Nat) :
    NoneLost handler.db (change :: rest) (count + 1) (first + 1) ↔
      NoneLost (handler.store change).db rest count first := by
  unfold NoneLost
  rw [groups, length_cons, Nat.add_right_cancel_iff]
  apply and_congr_right
  intro _
  apply and_congr_right
  intro _
  constructor
  · intro clean pos post _
    rw [← redundantAt_succ nonempty]
    exact clean (pos + 1) (by omega) (by omega)
  intro clean _ post _
  obtain ⟨earlier, rfl⟩ := Nat.exists_eq_succ_of_ne_zero (Nat.ne_zero_of_lt post)
  rw [redundantAt_succ nonempty]
  exact clean earlier (by omega) (by omega)

theorem countsAgree_logged_iff (nonempty : handler.db.tables ≠ []) (noId : handler.trxn.id = 0)
    (noEntry : handler.trxn.seqNumber = 0) (fits : changes.length ≤ handler.trxn.count)
    (small : handler.trxn.count < 2 ^ 32) :
    CountsAgree (logged changes handler) ↔ ∀ first, FirstWritten handler.db changes first →
        first + 1 = handler.trxn.count ∨ NoneLost handler.db changes handler.trxn.count first := by
  induction changes generalizing handler with
  | nil => simp [logged, CountsAgree, FirstWritten]
  | cons change rest ih =>
    rw [length_cons] at fits
    have notLast : handler.trxn.isLast = false := by
      simp only [Transaction.isLast, decide_eq_false_iff_not]
      omega
    by_cases redundant : Redundant handler.db change
    · have cancelled : handler.cancelled change = true := decide_eq_true ⟨redundant, notLast⟩
      have stored := WriteBatchInternal.store_of_cancelled cancelled
      have count := Transaction.cancelOne_count (show 0 < handler.trxn.count by omega)
      have trxn : (handler.store change).trxn = handler.trxn.cancelOne := by rw [stored]
      have groups : (handler.store change).db.trxns = handler.db.trxns := by
        rw [stored]
        simp [Db.cancelUpdate, noId]
      rw [logged_cons_of_cancelled cancelled,
        ih (WriteBatchInternal.tables_store_ne_nil nonempty change)
          (by rw [trxn]; exact noId) (by rw [trxn]; exact noEntry)
          (by rw [trxn, count]; omega) (by rw [trxn, count]; omega),
        trxn, count]
      obtain ⟨_, isCount⟩ := Nat.exists_eq_succ_of_ne_zero (show handler.trxn.count ≠ 0 by omega)
      simp only [firstWritten_cons_of_redundant nonempty redundant, isCount, Nat.succ_sub_one]
      constructor
      · rintro agree first ⟨later, rfl, isFirst⟩
        rw [Nat.succ_eq_add_one, Nat.add_right_cancel_iff, noneLost_cons nonempty groups]
        exact agree later isFirst
      intro agree first isFirst
      have shifted := agree (first + 1) ⟨first, rfl, isFirst⟩
      rwa [Nat.succ_eq_add_one, Nat.add_right_cancel_iff, noneLost_cons nonempty groups] at shifted
    · have accepted : handler.cancelled change = false :=
        decide_eq_false fun both => redundant both.1
      rw [countsAgree_of_first nonempty noId noEntry accepted (by omega) small]
      simp [firstWritten_cons_of_not_redundant redundant, eq_comm]

structure TransactionColCount where
  count : Nat
  completed : Nat
deriving DecidableEq, Repr

/-- `DBRecovery::AddCompletedColumn`; the flag says that the transaction is complete. -/
def addCompletedColumn (trxnList : List (Nat × TransactionColCount)) (trxnId count : Nat) :
    Bool × List (Nat × TransactionColCount) :=
  match Rows.get trxnList trxnId with
  | none => (false, Rows.set trxnId { count := count, completed := 1 } trxnList)
  | some known =>
    if known.count = known.completed + 1 then
      (true, trxnList.filter fun row => row.1 ≠ trxnId)
    else
      (false, Rows.set trxnId { known with completed := known.completed + 1 } trxnList)

/-- The entries that a batch leaves in the request queue carry one id and their number
exactly when nothing is lost after the first of them. -/
theorem batch_entries_agree_iff {db : Db K V} (nonempty : db.tables ≠ [])
    (linked : db.RequestsLinked) {batch : WriteBatch K V}
    (counted : batch.count = batch.records.length) (small : batch.count < 2 ^ 32) :
    let handler := WriteBatchInternal.initWBI db batch.count
    let changes := resolve batch.records handler
    (db.write batch).2.pendingTrxns.Perm
        (db.pendingTrxns ++ (logged changes handler).filter fun entry => decide (entry.id ≠ 0)) ∧
      (CountsAgree (logged changes handler) ↔ ∀ first, FirstWritten db changes first →
          first + 1 = batch.count ∨ NoneLost db changes batch.count first) := by
  intro handler changes
  refine ⟨?_, ?_⟩
  · have written : (db.write batch).2 = (handler.storeAll changes).db :=
      congrArg WriteBatchInternal.db (iterateFrom_handler _ _ _ _)
    rw [written]
    exact pendingTrxns_storeAll changes linked nonempty
  apply countsAgree_logged_iff changes nonempty rfl rfl ?_ small
  rw [show handler.trxn.count = batch.records.length from counted]
  exact resolve_length_le _ _

def twoPuts : WriteBatch Nat Nat :=
  { count := 2, records := [.put 1 10 0, .put 2 20 0] }

theorem oneTable_requestsLinked : oneTable.RequestsLinked := by
  refine ⟨nodup_nil, fun _ mem => absurd mem not_mem_nil, ?_⟩
  intro _ _ _ newest
  simp [oneTable, Db.findUserKey, Db.findSKTableMem, Db.beginKeys, tableIndex,
    SKTable.findUserKey, UserKey.empty, Rows.get] at newest

theorem batch_entries_agree_of_two_puts :
    oneTable.tables ≠ [] ∧ oneTable.RequestsLinked ∧ twoPuts.count = twoPuts.records.length ∧
      twoPuts.count < 2 ^ 32 ∧
      CountsAgree (logged (resolve twoPuts.records (.initWBI oneTable twoPuts.count))
        (.initWBI oneTable twoPuts.count)) := by
  refine ⟨by simp [oneTable], oneTable_requestsLinked, rfl, by decide, ?_⟩
  refine (batch_entries_agree_iff (by simp [oneTable]) oneTable_requestsLinked rfl
    (by decide)).2.mpr ?_
  intro _ _
  refine .inr ⟨rfl, by decide, ?_⟩
  intro position _ before
  have : position + 1 < 2 := before
  omega

/-- Key 2 has been deleted; the batch puts key 1, deletes key 2 again and puts key 3. -/
def putDeletePut : WriteBatch Nat Nat :=
  { count := 3, records := [.put 1 10 0, .delete 2 0, .put 3 30 0] }

/-- The two entries that are recorded wait under one id, but the first has the count 3. -/
theorem cancelled_delete_splits_count : let db := oneTable.delete 2 0
    let handler := WriteBatchInternal.initWBI db putDeletePut.count
    logged (resolve putDeletePut.records handler) handler =
        [{ count := 3, seqNumber := 0, id := 32 }, { count := 2, seqNumber := 1, id := 32 }] ∧
      (db.write putDeletePut).2.pendingTrxns =
        [{ count := 3, seqNumber := 0, id := 32 }, { count := 2, seqNumber := 1, id := 32 }] ∧
      ¬ CountsAgree (logged (resolve putDeletePut.records handler) handler) := by
  decide

end InsDb
