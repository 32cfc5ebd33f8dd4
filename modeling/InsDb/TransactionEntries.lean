import InsDb.Library.Run
import InsDb.SubmitQueue
import InsDb.TrxnGroups

/-!
# The entries of transaction groups

Batches are stored one update at a time, in any interleaving with each other and with the
workers.
-/

namespace InsDb

open InsDb.Library InsDb.Library.Run List Function

variable {K V : Type}

/-- A batch that `Iterate` is in the middle of, or that has ended. -/
structure BatchState (K V : Type) where
  records : List (Record K V)
  trxn : Transaction
  time : Nat

structure TrxnState (K V : Type) where
  db : Db K V
  batches : List (BatchState K V) := []
  -- The requests of the submit lists, before and after `BuildKeyBlock`.
  taken : List (Submission K) := []
  built : List (Submission K) := []
  ranges : List TrxnGroupRange := [⟨0, 0⟩, ⟨maxTrxnGroup, maxTrxnGroup⟩]
  handedOut : List Nat := []
  completed : List Nat := []
  -- By sequence number.
  entries : Nat → Entry := fun _ => {}

inductive TrxnAction (K V : Type) where
  | beginBatch (records : List (Record K V))
  -- `existing` is what the `Get` of a merge returned.
  | storeNext (batch : Nat) (existing : Option V)
  | take (worker position : Nat)
  | build (position : Nat)
  | submit (position ikeySeq kbOffset ivalueSize : Nat)
  | setSnapshots (snapshots : List Snapshot)

def Record.update (db : Db K V) (existing : Option V) :
    Record K V → Option (BatchUpdate K V)
  | .put key value colId => some ⟨key, colId, .put value⟩
  | .merge key value colId =>
    (db.callMergeOperator key existing value).map fun merged => ⟨key, colId, .put merged⟩
  | .delete key colId => some ⟨key, colId, .del⟩

namespace TrxnState

def manifest (s : TrxnState K V) : TrxnManifest :=
  { groups := s.db.trxns
    ranges := s.ranges
    handedOut := s.handedOut
    completed := s.completed }

def setManifest (s : TrxnState K V) (manifest : TrxnManifest) : TrxnState K V :=
  { s with
    ranges := manifest.ranges
    handedOut := manifest.handedOut
    completed := manifest.completed }

variable [LinearOrder K] (s : TrxnState K V)

def storeManifest (trxn : Transaction) (cancelled : Bool) :
    TrxnManifest :=
  if cancelled then
    if trxn.id ≠ 0 then s.manifest.decTrxnGroup trxn.group else s.manifest
  else if 1 < trxn.count ∧ trxn.id = 0 then
    s.manifest.getTrxnID trxn.count
  else
    s.manifest

def stored (index : Nat) (batch : BatchState K V)
    (rest : List (Record K V)) (change : BatchUpdate K V) : TrxnState K V :=
  let handler : WriteBatchInternal K V := ⟨s.db, batch.trxn, batch.time⟩
  let cancelled := handler.cancelled change
  { s.setManifest (s.storeManifest batch.trxn cancelled) with
    db := (handler.store change).db
    batches := s.batches.set index
      { batch with records := rest, trxn := (handler.store change).trxn }
    entries := Function.update s.entries (s.db.sequenceNumber + 1)
      { trxnId := (handler.store change).trxn.id
        fate := if cancelled then .cancelled else .applied } }

def storeNext (index : Nat) (existing : Option V) :
    Option (TrxnState K V) :=
  match s.batches[index]? with
  | none => none
  | some batch =>
    match batch.records with
    | [] => none
    | record :: rest =>
      match record.update s.db existing with
      -- The batch stops at a merge that fails.
      | none =>
        some { s with batches := s.batches.set index { batch with records := [] } }
      | some change => some (s.stored index batch rest change)

def take (worker position : Nat) : Option (TrxnState K V) :=
  (s.db.takeRequest (worker + 1) position).map fun (submission, db) =>
    { s with db := db, taken := s.taken ++ [submission] }

def mergedSeqs (submission : Submission K) : List Nat :=
  match s.db.visited submission with
  | none => []
  | some (_, older) => older.map ColumnNode.beginSeq

def build (position : Nat) : Option (TrxnState K V) :=
  match s.taken[position]? with
  | none => none
  | some submission =>
    (s.db.buildRequest submission).map fun (built, merged, db) =>
      { s.setManifest
          (merged.foldl (fun manifest trxn => manifest.decTrxnGroup trxn.group)
            s.manifest) with
        db := db
        taken := s.taken.eraseIdx position
        built := s.built ++ [built]
        entries := fun seq =>
          if seq ∈ s.mergedSeqs submission then
            { s.entries seq with fate := .merged }
          else
            s.entries seq }

/-- Internal keys begin at `kUnusedNextInternalKey`. -/
def submit (position ikeySeq kbOffset ivalueSize : Nat) :
    Option (TrxnState K V) :=
  match s.built[position]? with
  | none => none
  | some submission =>
    if ikeySeq < kUnusedNextInternalKey then
      none
    else
      some
        { s.setManifest
            (if submission.trxnGroupID ≠ 0 then
              s.manifest.decTrxnGroup submission.trxnGroupID
            else
              s.manifest) with
          db := s.db.submitRequest submission ikeySeq kbOffset ivalueSize
          built := s.built.eraseIdx position
          entries := Function.update s.entries submission.colNode
            { s.entries submission.colNode with fate := .submitted } }

def step :
    TrxnAction K V → Option (TrxnState K V)
  -- The count of a batch is a 32-bit number.
  | .beginBatch records =>
    some { s with
      batches := s.batches ++
        [{ records := records
           trxn := { count := records.length % 2 ^ 32 }
           time := s.db.now }] }
  | .storeNext batch existing => s.storeNext batch existing
  | .take worker position => s.take worker position
  | .build position => s.build position
  | .submit position ikeySeq kbOffset ivalueSize =>
    s.submit position ikeySeq kbOffset ivalueSize
  | .setSnapshots snapshots => some { s with db := { s.db with snapshots := snapshots } }

end TrxnState

/-- The entries of the batch that belong to the group and have not been stored yet. -/
def BatchState.openIn (tgid : Nat) (batch : BatchState K V) : Nat :=
  if batch.trxn.id ≠ 0 ∧ batch.trxn.group = tgid then
    batch.trxn.count - batch.trxn.seqNumber
  else
    0

def openCount (entries : Nat → Entry) (bound tgid : Nat) : Nat :=
  (List.range (bound + 1)).countP fun seq => (entries seq).openIn tgid

/-- The entries of the group that were allocated and are neither submitted, merged nor
cancelled. -/
def TrxnState.openEntries (s : TrxnState K V) (tgid : Nat) : Nat :=
  (s.batches.map (BatchState.openIn tgid)).sum +
    openCount s.entries s.db.sequenceNumber tgid

section Count

variable {entries : Nat → Entry} {bound seq : Nat}

theorem openCount_zero (entries : Nat → Entry) (tgid : Nat) :
    openCount entries 0 tgid = ((entries 0).openIn tgid).toNat := by
  unfold openCount
  rw [show range (0 + 1) = [0] from rfl, countP_singleton]
  cases (entries 0).openIn tgid <;> rfl

theorem openCount_last (entries : Nat → Entry) (bound tgid : Nat) :
    openCount entries (bound + 1) tgid =
      openCount entries bound tgid + ((entries (bound + 1)).openIn tgid).toNat := by
  unfold openCount
  rw [range_succ, countP_append, countP_singleton]
  cases (entries (bound + 1)).openIn tgid <;> rfl

theorem openCount_update_above (above : bound < seq) (entry : Entry) (tgid : Nat) :
    openCount (Function.update entries seq entry) bound tgid = openCount entries bound tgid := by
  apply countP_congr
  intro _ mem
  rw [update_of_ne]
  have := mem_range.mp mem
  omega

theorem openCount_update (within : seq ≤ bound) (entry : Entry) (tgid : Nat) :
    openCount (Function.update entries seq entry) bound tgid +
        ((entries seq).openIn tgid).toNat =
      openCount entries bound tgid + (entry.openIn tgid).toNat := by
  induction bound with
  | zero =>
    obtain rfl := Nat.le_zero.mp within
    rw [openCount_zero, openCount_zero, update_self, Nat.add_comm]
  | succ bound ih =>
    rw [openCount_last, openCount_last]
    by_cases isLast : seq = bound + 1
    · subst isLast
      rw [openCount_update_above (Nat.lt_succ_self bound), update_self]
      omega
    rw [update_of_ne (Ne.symm isLast)]
    omega

theorem openCount_next (entry : Entry) (tgid : Nat) :
    openCount (Function.update entries (bound + 1) entry) (bound + 1) tgid =
      openCount entries bound tgid + (entry.openIn tgid).toNat := by
  rw [openCount_last, openCount_update_above (Nat.lt_succ_self bound), update_self]

end Count

end InsDb
