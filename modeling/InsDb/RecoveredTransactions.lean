import InsDb.Recovery

/-!
# Transactions after a crash

A column outside the completed groups is to be recovered if all entries of its transaction
are in the logs.  An entry of a transaction is a logged column, or an entry that was merged
into a column which is recovered itself.
-/

namespace InsDb

open InsDb.Library List

variable {K V : Type}

def RecoveryReads.logged (reads : RecoveryReads K) : List (ColumnInfo K) :=
  reads.logs.flatMap fun log => log.flatten

def RecoveryReads.completedTrxnGroups (reads : RecoveryReads K) : List TrxnGroupRange :=
  match reads.record with
  | .ok decoded => decoded.completedTrxnGroups
  | .error _ => []

def RecoveryReads.InCompletedGroup (reads : RecoveryReads K) (info : ColumnInfo K) : Prop :=
  isCompletedTrxnGroupRange reads.completedTrxnGroups info.trxn.group = true

instance (reads : RecoveryReads K) (info : ColumnInfo K) :
    Decidable (reads.InCompletedGroup info) :=
  inferInstanceAs (Decidable (_ = true))

/-- All entries of the transaction are there when the given columns survive. -/
def AllEntriesLogged (logged surviving : List (ColumnInfo K)) (trxn : Transaction) : Prop :=
  trxn.count ≤
    (logged.filter fun info => decide (info.trxn.id = trxn.id)).length +
      ((surviving.flatMap (·.merged)).filter fun merged => decide (merged.id = trxn.id)).length

instance (logged surviving : List (ColumnInfo K)) (trxn : Transaction) :
    Decidable (AllEntriesLogged logged surviving trxn) :=
  inferInstanceAs (Decidable (_ ≤ _))

/-- The column is one of a set of logged columns that all may survive together. -/
def RecoveryReads.Survives (reads : RecoveryReads K) (info : ColumnInfo K) : Prop :=
  ∃ surviving : List (ColumnInfo K), surviving.Sublist reads.logged ∧ info ∈ surviving ∧
    ∀ other ∈ surviving,
      reads.InCompletedGroup other ∨ AllEntriesLogged reads.logged surviving other.trxn

variable [LinearOrder K]

/-- The columns outside the completed groups that are put into the key map are the ones whose
transaction is there. -/
def RecoveryReads.RecoversTransactions (reads : RecoveryReads K) (db : Db K V) : Prop :=
  ∀ info ∈ reads.logged, ¬ reads.InCompletedGroup info →
    (info ∈ (runRecoveryOn reads db).2.recovered ↔ reads.Survives info)

/-- Recovery is right about the transactions exactly if none of them is there. -/
theorem recovered_transactions_iff (reads : RecoveryReads K) (db : Db K V) :
    reads.RecoversTransactions db ↔
      ∀ info ∈ reads.logged, ¬ reads.InCompletedGroup info → ¬ reads.Survives info := by
  have nothing := (runRecoveryOn_spec reads db).2.2
  unfold RecoveryReads.RecoversTransactions
  rw [nothing]
  constructor
  · intro recovers info isLogged outside survives
    exact not_mem_nil ((recovers info isLogged outside).mpr survives)
  intro none info isLogged outside
  constructor
  · intro recovered
    exact absurd recovered not_mem_nil
  intro survives
  exact absurd survives (none info isLogged outside)

def pairedPut (key : Nat) : ColumnInfo Nat :=
  { loggedPut with
    key := key
    trxn := { count := 2, seqNumber := key, id := 64 } }

def pairReads : RecoveryReads Nat :=
  { cleanReads with
    logs := [[[pairedPut 0, pairedPut 1]]] }

theorem logged_transaction_is_lost : ¬ pairReads.RecoversTransactions oneTable := by
  intro recovers
  have survives : pairReads.Survives (pairedPut 0) := by
    refine ⟨[pairedPut 0, pairedPut 1], List.Sublist.refl _, by simp, ?_⟩
    intro _ inList
    right
    rcases mem_cons.mp inList with rfl | inRest
    · decide
    obtain rfl := mem_singleton.mp inRest
    decide
  have recovered := (recovers (pairedPut 0) (by decide) (by decide)).mpr survives
  revert recovered
  decide +kernel

end InsDb
