import Mathlib.Algebra.Order.BigOperators.Group.List
import InsDb.TransactionThreads

/-!
# The counts of the transaction groups

`GetTrxnID` adds the length of a batch to the count of a group, and the entries of the batch
take it back one at a time: when they are cancelled, when they are merged into a newer
version, and when their key block is on the device.
-/

namespace InsDb

open InsDb.Library InsDb.Library.Run List Function

variable {K V : Type}

section Close

variable {manifest : TrxnManifest} {base : Nat → Nat} {entries : Nat → Entry} {bound : Nat}

/-- The groups of the ids that were handed out are small enough for the shift of their
successor. -/
def TrxnManifest.Shiftable (manifest : TrxnManifest) : Prop :=
  ∀ tgid, manifest.HandedOut tgid → tgid + 1 < 2 ^ 27

theorem TrxnManifest.Shiftable.decTrxnGroup (shiftable : manifest.Shiftable) (tgid : Nat) :
    (manifest.decTrxnGroup tgid).Shiftable := by
  unfold TrxnManifest.decTrxnGroup
  split_ifs
  · exact shiftable
  · exact shiftable

theorem TrxnManifest.Accounts.shiftable {openIn : Nat → Nat}
    (accounts : manifest.Accounts openIn) (fits : manifest.nextGroup + 1 < 2 ^ 27) :
    manifest.Shiftable := by
  intro _ handedOut
  have := (accounts.handedOut_le handedOut).2.1
  omega

theorem TrxnManifest.Accounts.of_same {other : TrxnManifest} {openIn otherOpen : Nat → Nat}
    (accounts : manifest.Accounts openIn) (sameManifest : other = manifest)
    (sameOpen : ∀ tgid, otherOpen tgid = openIn tgid) : other.Accounts otherOpen := by
  rw [sameManifest, funext sameOpen]
  exact accounts

theorem openCount_update_plain {seq : Nat} (within : seq ≤ bound)
    (plain : (entries seq).trxnId = 0) (entry : Entry) (stays : entry.trxnId = 0) (tgid : Nat) :
    openCount (Function.update entries seq entry) bound tgid = openCount entries bound tgid := by
  have changed := @openCount_update entries bound seq within entry tgid
  have pre : (entries seq).openIn tgid = false := by simp [Entry.openIn, plain]
  have post : entry.openIn tgid = false := by simp [Entry.openIn, stays]
  rw [pre, post] at changed
  simpa using changed

theorem openCount_pos {seq : Nat} (within : seq ≤ bound)
    (applied : (entries seq).fate = .applied) (inTrxn : (entries seq).trxnId ≠ 0) :
    0 < openCount entries bound ((entries seq).trxnId >>> tgidShift) := by
  unfold openCount
  rw [countP_pos_iff]
  refine ⟨seq, mem_range.mpr (Nat.lt_succ_of_le within), ?_⟩
  simp [Entry.openIn, inTrxn, applied]

theorem TrxnManifest.Accounts.close
    (accounts : manifest.Accounts fun tgid => base tgid + openCount entries bound tgid)
    (shiftable : manifest.Shiftable) {seq : Nat} (within : seq ≤ bound)
    (applied : (entries seq).fate = .applied) (inTrxn : (entries seq).trxnId ≠ 0)
    {entry : Entry} (closed : entry.fate ≠ .applied) :
    (manifest.decTrxnGroup ((entries seq).trxnId >>> tgidShift)).Accounts fun tgid =>
      base tgid + openCount (Function.update entries seq entry) bound tgid := by
  have changed := @openCount_update entries bound seq within entry
  have post : ∀ tgid, (entry.openIn tgid).toNat = 0 := by simp [Entry.openIn, closed]
  have pre : ∀ tgid, ((entries seq).openIn tgid).toNat =
      if tgid = (entries seq).trxnId >>> tgidShift then 1 else 0 := by
    intro tgid
    by_cases same : tgid = (entries seq).trxnId >>> tgidShift
    · simp [Entry.openIn, inTrxn, applied, same]
    · simp [Entry.openIn, Ne.symm same, same]
  have isOpen : base ((entries seq).trxnId >>> tgidShift) +
      openCount entries bound ((entries seq).trxnId >>> tgidShift) ≠ 0 := by
    have := openCount_pos within applied inTrxn
    omega
  have counted := accounts.decTrxnGroup isOpen
    fun _ _ => shiftable _ (accounts.opened _ isOpen)
  convert counted using 1
  funext tgid
  rw [update_apply]
  have there := changed tgid
  rw [post, pre] at there
  split_ifs at there ⊢ with same
  · subst same
    omega
  · omega

def mergeEntries (entries : Nat → Entry) (seqs : List Nat) (seqNum : Nat) : Entry :=
  if seqNum ∈ seqs then ⟨(entries seqNum).trxnId, .merged⟩ else entries seqNum

theorem mergeEntries_cons (entries : Nat → Entry) {seq : Nat} {seqs : List Nat}
    (fresh : seq ∉ seqs) :
    mergeEntries entries (seq :: seqs) =
      mergeEntries (Function.update entries seq ⟨(entries seq).trxnId, .merged⟩)
        seqs := by
  funext number
  unfold mergeEntries
  by_cases same : number = seq
  · subst same
    rw [if_pos mem_cons_self, if_neg fresh, update_self]
  rw [update_of_ne same]
  simp [same]

theorem TrxnManifest.Accounts.merge {seqs : List Nat}
    (accounts : manifest.Accounts fun tgid => base tgid + openCount entries bound tgid)
    (shiftable : manifest.Shiftable) (nodup : seqs.Nodup)
    (within : ∀ seq ∈ seqs, seq ≤ bound)
    (applied : ∀ seq ∈ seqs, (entries seq).fate = .applied) :
    (((seqs.map fun seq => (entries seq).trxnId).filter (· ≠ 0)).foldl
        (fun manifest id => manifest.decTrxnGroup (id >>> tgidShift)) manifest).Accounts
      fun tgid => base tgid + openCount (mergeEntries entries seqs) bound tgid := by
  induction seqs generalizing manifest entries with
  | nil => exact accounts
  | cons seq seqs ih =>
    obtain ⟨fresh, laterDistinct⟩ := nodup_cons.mp nodup
    have isWithin := within seq mem_cons_self
    have isApplied := applied seq mem_cons_self
    -- The later entries are not touched by closing this one.
    have later : ∀ other ∈ seqs,
        update entries seq ⟨(entries seq).trxnId, .merged⟩ other =
          entries other := by
      intro other mem
      apply update_of_ne
      rintro rfl
      exact fresh mem
    have laterIds : (seqs.map fun other => (update entries seq
        ⟨(entries seq).trxnId, .merged⟩ other).trxnId) =
          seqs.map fun other => (entries other).trxnId := by
      apply map_congr_left
      intro other mem
      rw [later other mem]
    have laterApplied : ∀ other ∈ seqs, (update entries seq
        ⟨(entries seq).trxnId, .merged⟩ other).fate = .applied := by
      intro other mem
      rw [later other mem]
      exact applied other (mem_cons_of_mem _ mem)
    have laterWithin : ∀ other ∈ seqs, other ≤ bound :=
      fun other mem => within other (mem_cons_of_mem _ mem)
    rw [mergeEntries_cons entries fresh, map_cons]
    by_cases plain : (entries seq).trxnId = 0
    · rw [filter_cons_of_neg (by simp [plain]), ← laterIds]
      apply ih _ shiftable laterDistinct laterWithin laterApplied
      convert accounts using 1
      funext tgid
      rw [openCount_update_plain isWithin plain ⟨(entries seq).trxnId, .merged⟩ plain]
    rw [filter_cons_of_pos (by simp [plain]), foldl_cons, ← laterIds]
    apply ih _ (shiftable.decTrxnGroup _) laterDistinct laterWithin laterApplied
    exact accounts.close shiftable isWithin isApplied plain (by simp)

end Close

structure BatchState.Sound (batch : BatchState K V) : Prop where
  remaining : batch.trxn.seqNumber + batch.records.length ≤ batch.trxn.count
  unassigned : batch.trxn.id = 0 → 1 < batch.trxn.count → batch.trxn.seqNumber = 0

theorem sum_openIn_set {batches : List (BatchState K V)} {i : Nat}
    {batch : BatchState K V} (isBatch : batches[i]? = some batch)
    (next : BatchState K V) (tgid : Nat) :
    ((batches.set i next).map (BatchState.openIn tgid)).sum + batch.openIn tgid =
      (batches.map (BatchState.openIn tgid)).sum + next.openIn tgid := by
  induction batches generalizing i with
  | nil => simp at isBatch
  | cons first rest ih =>
    cases i with
    | zero =>
      obtain rfl := Option.some.inj isBatch
      simp only [set_cons_zero, map_cons, sum_cons]
      omega
    | succ =>
      have later := ih isBatch
      simp only [set_cons_succ, map_cons, sum_cons]
      omega

theorem sound_of_set {batches : List (BatchState K V)} {i : Nat}
    (sound : ∀ batch ∈ batches, batch.Sound) {next : BatchState K V} (isSound : next.Sound) :
    ∀ batch ∈ batches.set i next, batch.Sound := by
  intro batch mem
  rcases mem_or_eq_of_mem_set mem with isOld | rfl
  · exact sound batch isOld
  · exact isSound

namespace TrxnState

structure Balanced [LinearOrder K] (s : TrxnState K V) : Prop where
  threaded : s.Threaded
  batches : ∀ batch ∈ s.batches, batch.Sound
  accounts : s.manifest.Accounts s.openEntries

/-- The numbers of a step fit into their 32 bits: a batch has fewer than 2^32 records, the
count that `GetTrxnID` adds does not overflow, and the group of the next id can be followed
by another. -/
def Fits (s : TrxnState K V) : TrxnAction K V → Prop
  | .beginBatch records => records.length < 2 ^ 32
  | .storeNext i _ =>
    s.manifest.nextGroup + 1 < 2 ^ 27 ∧
      ∀ batch ∈ s.batches[i]?, 1 < batch.trxn.count → batch.trxn.id = 0 →
        s.manifest.count s.manifest.nextGroup + batch.trxn.count < 2 ^ 32
  | _ => s.manifest.nextGroup + 1 < 2 ^ 27

instance (s : TrxnState K V) : ∀ action, Decidable (s.Fits action)
  | .beginBatch _ => inferInstanceAs (Decidable (_ < _))
  | .storeNext i _ =>
    inferInstanceAs (Decidable (_ ∧ ∀ batch ∈ s.batches[i]?, _ → _ → _ < _))
  | .take _ _ => inferInstanceAs (Decidable (_ < _))
  | .build _ => inferInstanceAs (Decidable (_ < _))
  | .submit _ _ _ _ => inferInstanceAs (Decidable (_ < _))
  | .setSnapshots _ => inferInstanceAs (Decidable (_ < _))

namespace Balanced

variable [LinearOrder K] {s post : TrxnState K V}

theorem of_beginBatch (balanced : s.Balanced) {records : List (Record K V)}
    (fits : records.length < 2 ^ 32)
    (begins : s.step (.beginBatch records) = some post) : post.Balanced := by
  have isAfter := Option.some.inj begins
  subst isAfter
  refine ⟨?_, ?_, ?_⟩
  · exact balanced.threaded.of_same (fun _ _ => rfl) balanced.threaded.queued.nonempty rfl rfl
      (Nat.le_refl _) rfl rfl fun _ _ => rfl
  · intro batch mem
    rcases mem_append.mp mem with isOld | isNew
    · exact balanced.batches batch isOld
    rw [mem_singleton.mp isNew]
    refine ⟨?_, fun _ _ => rfl⟩
    rw [Nat.mod_eq_of_lt fits]
    simp
  · apply balanced.accounts.of_same rfl
    intro _
    simp [TrxnState.openEntries, BatchState.openIn]

section Store

variable {i : Nat} {batch : BatchState K V} {rest : List (Record K V)}
  {change : BatchUpdate K V}

theorem storeNext_cases {existing : Option V}
    (stores : s.storeNext i existing = some post) :
    ∃ batch record rest, s.batches[i]? = some batch ∧ batch.records = record :: rest ∧
      (post = { s with batches := s.batches.set i { batch with records := [] } } ∨
        ∃ change, post = s.stored i batch rest change) := by
  unfold TrxnState.storeNext at stores
  cases isBatch : s.batches[i]? with
  | none => simp [isBatch] at stores
  | some batch =>
    cases listed : batch.records with
    | nil => simp [isBatch, listed] at stores
    | cons record rest =>
      simp only [isBatch, listed] at stores
      refine ⟨batch, record, rest, rfl, listed, ?_⟩
      cases updates : record.update s.db existing with
      | none =>
        rw [updates] at stores
        exact .inl (Option.some.inj stores).symm
      | some change =>
        rw [updates] at stores
        exact .inr ⟨change, (Option.some.inj stores).symm⟩

theorem of_stopped (balanced : s.Balanced) (isBatch : s.batches[i]? = some batch)
    (isAfter : post =
      { s with batches := s.batches.set i { batch with records := [] } }) :
    post.Balanced := by
  subst isAfter
  have sound := balanced.batches batch (mem_of_getElem? isBatch)
  refine ⟨?_, ?_, ?_⟩
  · exact balanced.threaded.of_same (fun _ _ => rfl) balanced.threaded.queued.nonempty rfl rfl
      (Nat.le_refl _) rfl rfl fun _ _ => rfl
  · apply sound_of_set balanced.batches
    refine ⟨?_, sound.unassigned⟩
    have := sound.remaining
    simp only [length_nil]
    omega
  apply balanced.accounts.of_same rfl
  intro tgid
  have sum := sum_openIn_set isBatch ⟨[], batch.trxn, batch.time⟩ tgid
  have same : (⟨[], batch.trxn, batch.time⟩ : BatchState K V).openIn tgid =
      batch.openIn tgid := rfl
  unfold TrxnState.openEntries
  simp only
  omega

abbrev handler (s : TrxnState K V) (batch : BatchState K V) :
    WriteBatchInternal K V :=
  ⟨s.db, batch.trxn, batch.time⟩

theorem stored_manifest (i : Nat) (batch : BatchState K V)
    (rest : List (Record K V)) (change : BatchUpdate K V) :
    (s.stored i batch rest change).manifest =
      s.storeManifest batch.trxn ((handler s batch).cancelled change) := by
  apply manifest_of_groups _ rfl rfl rfl
  unfold TrxnState.storeManifest
  cases cancelled : (handler s batch).cancelled change with
  | true =>
    have groups : (s.stored i batch rest change).db.trxns =
        if batch.trxn.id ≠ 0 then
          s.db.trxns.decTrxnGroup batch.trxn.group 1
        else
          s.db.trxns :=
      congrArg (fun handler => handler.db.trxns)
        (WriteBatchInternal.store_of_cancelled cancelled)
    rw [groups, if_pos rfl]
    split_ifs
    · rw [TrxnManifest.decTrxnGroup_groups]
      rfl
    · rfl
  | false =>
    have groups : (s.stored i batch rest change).db.trxns =
        (assignTrxnID batch.trxn s.db.trxns).2 :=
      WriteBatchInternal.trxns_store_of_accepted cancelled
    rw [groups, if_neg (by simp)]
    unfold assignTrxnID
    split_ifs
    · rfl
    · rfl

theorem stored_openEntries (isBatch : s.batches[i]? = some batch)
    (rest : List (Record K V)) (change : BatchUpdate K V) (tgid : Nat) :
    (s.stored i batch rest change).openEntries tgid + batch.openIn tgid =
      s.openEntries tgid +
        (⟨rest, ((handler s batch).store change).trxn, batch.time⟩ :
          BatchState K V).openIn tgid +
        (Entry.openIn tgid ⟨((handler s batch).store change).trxn.id,
          if (handler s batch).cancelled change then .cancelled else .applied⟩).toNat := by
  have sequence : (s.stored i batch rest change).db.sequenceNumber =
      s.db.sequenceNumber + 1 :=
    (stored_store s.db batch.trxn batch.time change.key change.colId change.update).sequence
  have sum := sum_openIn_set isBatch
    ⟨rest, ((handler s batch).store change).trxn, batch.time⟩ tgid
  have counted := @openCount_next s.entries s.db.sequenceNumber
    ⟨((handler s batch).store change).trxn.id,
      if (handler s batch).cancelled change then .cancelled else .applied⟩ tgid
  unfold TrxnState.openEntries
  rw [sequence]
  change (map _ (s.batches.set i
      ⟨rest, ((handler s batch).store change).trxn, batch.time⟩)).sum +
    openCount (update s.entries (s.db.sequenceNumber + 1) _) _ _ + _ = _
  rw [counted]
  omega

theorem of_cancelled (balanced : s.Balanced) (fits : s.manifest.nextGroup + 1 < 2 ^ 27)
    (isBatch : s.batches[i]? = some batch) {record : Record K V}
    (listed : batch.records = record :: rest)
    (cancelled : (handler s batch).cancelled change = true) :
    (s.stored i batch rest change).Balanced := by
  have threaded := balanced.threaded
  have stored := WriteBatchInternal.store_of_cancelled cancelled
  have sound := balanced.batches batch (mem_of_getElem? isBatch)
  have room := sound.remaining
  rw [listed, length_cons] at room
  have isAfter : (s.stored i batch rest change).db =
      (s.db.cancelUpdate batch.trxn change.key).1 :=
    congrArg WriteBatchInternal.db stored
  have trxn := congrArg WriteBatchInternal.trxn stored
  have fewer : batch.trxn.cancelOne.count = batch.trxn.count - 1 := if_neg (by omega)
  refine ⟨?_, ?_, ?_⟩
  · apply threaded.of_same
    · intro key col
      rw [isAfter]
      refine (Db.column_setUserKey threaded.queued.nonempty change.key _ key col).trans ?_
      split_ifs with same
      · rw [same]
        rfl
      · rfl
    · rw [isAfter]
      exact Db.setUserKey_tables_ne_nil threaded.queued.nonempty change.key _
    · rw [isAfter]
      rfl
    · rw [isAfter]
      rfl
    · rw [isAfter]
      exact Nat.le_succ _
    · rfl
    · rfl
    intro _ _
    exact update_of_ne (by omega) _ _
  · apply sound_of_set balanced.batches
    refine ⟨?_, ?_⟩
    · change ((handler s batch).store change).trxn.seqNumber + rest.length ≤
        ((handler s batch).store change).trxn.count
      rw [trxn, fewer]
      change batch.trxn.seqNumber + _ ≤ _
      omega
    rw [trxn, fewer]
    intro noId _
    exact sound.unassigned noId (by omega)
  · have counts := stored_openEntries isBatch rest change
    rw [trxn, cancelled] at counts
    have notOpen : ∀ tgid,
        (Entry.openIn tgid ⟨batch.trxn.cancelOne.id, .cancelled⟩).toNat = 0 := by
      simp [Entry.openIn]
    have next : ∀ tgid,
        (⟨rest, batch.trxn.cancelOne, batch.time⟩ : BatchState K V).openIn tgid =
          if batch.trxn.id ≠ 0 ∧ batch.trxn.group = tgid then
            batch.trxn.count - 1 - batch.trxn.seqNumber
          else
            0 := by
      intro tgid
      unfold BatchState.openIn
      rw [fewer]
      rfl
    rw [stored_manifest, cancelled]
    unfold TrxnState.storeManifest
    rw [if_pos rfl]
    by_cases inTrxn : batch.trxn.id ≠ 0
    · rw [if_pos inTrxn]
      have pre : batch.openIn batch.trxn.group = batch.trxn.count - batch.trxn.seqNumber :=
        if_pos ⟨inTrxn, rfl⟩
      have isOpen : s.openEntries batch.trxn.group ≠ 0 := by
        have held := le_sum_of_mem (mem_map_of_mem
          (f := BatchState.openIn batch.trxn.group) (mem_of_getElem? isBatch))
        unfold TrxnState.openEntries
        omega
      have shiftable := balanced.accounts.shiftable fits
      have closed := balanced.accounts.decTrxnGroup isOpen
        fun _ _ => shiftable _ (balanced.accounts.opened _ isOpen)
      apply closed.of_same rfl
      intro tgid
      have changed := counts tgid
      rw [if_pos rfl, notOpen, next] at changed
      rw [update_apply]
      by_cases same : tgid = batch.trxn.group
      · subst same
        rw [if_pos ⟨inTrxn, rfl⟩, pre] at changed
        rw [if_pos rfl]
        omega
      have elsewhere : batch.openIn tgid = 0 := if_neg fun both => same both.2.symm
      rw [if_neg fun both => same both.2.symm, elsewhere] at changed
      rw [if_neg same]
      omega
    · rw [if_neg inTrxn]
      apply balanced.accounts.of_same rfl
      intro tgid
      have changed := counts tgid
      rw [if_pos rfl, notOpen, next, if_neg fun both => inTrxn both.1] at changed
      unfold BatchState.openIn at changed
      rw [if_neg fun both => inTrxn both.1] at changed
      omega

theorem accepted_trxn (accepted : (handler s batch).cancelled change = false) :
    ((handler s batch).store change).trxn =
      (assignTrxnID batch.trxn s.db.trxns).1.advance :=
  WriteBatchInternal.trxn_store_of_accepted accepted

theorem threaded_of_accepted (threaded : s.Threaded) (i : Nat)
    (rest : List (Record K V))
    (accepted : (handler s batch).cancelled change = false) :
    (s.stored i batch rest change).Threaded := by
  have notCancelled := mt WriteBatchInternal.cancelled_iff.mpr (Bool.eq_false_iff.mp accepted)
  obtain ⟨isAccepted, -, _⟩ := threaded.queued.accepted notCancelled
  have begins := isAccepted.fresh
  have entry : (s.stored i batch rest change).entries
      (s.db.sequenceNumber + 1) =
        { trxnId := (assignTrxnID batch.trxn s.db.trxns).1.id, fate := .applied } := by
    have updated : (s.stored i batch rest change).entries
        (s.db.sequenceNumber + 1) =
          { trxnId := ((handler s batch).store change).trxn.id
            fate := if (handler s batch).cancelled change then .cancelled else .applied } :=
      update_self ..
    rw [updated, accepted_trxn accepted, accepted]
    rfl
  have entries : ∀ seq, seq ≤ s.db.sequenceNumber →
      (s.stored i batch rest change).entries seq = s.entries seq := by
    intro _ _
    exact update_of_ne (by omega) _ _
  rw [← begins] at entry
  by_cases joins : (s.db.column change.key change.colId).schedulingOf
      (assignTrxnID batch.trxn s.db.trxns).1.group = .join
  · exact threaded.of_accepted_join isAccepted rfl rfl entry entries joins
  · exact threaded.of_accepted_own isAccepted rfl rfl entry entries joins

theorem openIn_applied (trxn : Transaction) (tgid : Nat) :
    (Entry.openIn tgid ⟨trxn.id, .applied⟩).toNat =
      if trxn.id ≠ 0 ∧ trxn.group = tgid then 1 else 0 := by
  unfold Entry.openIn Transaction.group
  split_ifs with inGroup
  · simp [inGroup.1, inGroup.2]
  simp only [and_true]
  rw [decide_eq_false inGroup]
  rfl

theorem of_accepted (balanced : s.Balanced)
    (small : s.manifest.nextGroup + 1 < 2 ^ 27)
    (sum : 1 < batch.trxn.count → batch.trxn.id = 0 →
      s.manifest.count s.manifest.nextGroup + batch.trxn.count < 2 ^ 32)
    (isBatch : s.batches[i]? = some batch) {record : Record K V}
    (listed : batch.records = record :: rest)
    (accepted : (handler s batch).cancelled change = false) :
    (s.stored i batch rest change).Balanced := by
  have accounts := balanced.accounts
  have sound := balanced.batches batch (mem_of_getElem? isBatch)
  have room := sound.remaining
  rw [listed, length_cons] at room
  have trxn := accepted_trxn accepted
  have notZero : s.db.trxns.nextTrxnId ≠ 0 := by
    have : 32 ≤ s.db.trxns.nextTrxnId := accounts.next
    omega
  have counts := stored_openEntries isBatch rest change
  rw [trxn, accepted] at counts
  simp only [Bool.false_eq_true, if_false] at counts
  have stays : (assignTrxnID batch.trxn s.db.trxns).1.count = batch.trxn.count ∧
      (assignTrxnID batch.trxn s.db.trxns).1.seqNumber = batch.trxn.seqNumber := by
    unfold assignTrxnID
    split_ifs
    · exact ⟨rfl, rfl⟩
    · exact ⟨rfl, rfl⟩
  have next : ∀ tgid, (⟨rest, (assignTrxnID batch.trxn s.db.trxns).1.advance, batch.time⟩ :
      BatchState K V).openIn tgid =
        if (assignTrxnID batch.trxn s.db.trxns).1.id ≠ 0 ∧
            (assignTrxnID batch.trxn s.db.trxns).1.group = tgid then
          batch.trxn.count - (batch.trxn.seqNumber + 1)
        else
          0 := by
    intro tgid
    rw [← stays.1, ← stays.2]
    rfl
  have entry : ∀ tgid, (Entry.openIn tgid
      ⟨(assignTrxnID batch.trxn s.db.trxns).1.advance.id, .applied⟩).toNat = _ :=
    openIn_applied (assignTrxnID batch.trxn s.db.trxns).1
  simp only [next, entry] at counts
  refine ⟨threaded_of_accepted balanced.threaded i rest accepted, ?_, ?_⟩
  · apply sound_of_set balanced.batches
    refine ⟨?_, ?_⟩
    · rw [trxn]
      change (assignTrxnID batch.trxn s.db.trxns).1.seqNumber + 1 + rest.length ≤
        (assignTrxnID batch.trxn s.db.trxns).1.count
      rw [stays.1, stays.2]
      omega
    rw [trxn]
    change (assignTrxnID batch.trxn s.db.trxns).1.id = 0 →
      1 < (assignTrxnID batch.trxn s.db.trxns).1.count → _
    rw [stays.1]
    intro noId several
    unfold assignTrxnID at noId
    split_ifs at noId with allocates
    · exact absurd noId notZero
    · exact absurd ⟨several, noId⟩ allocates
  · rw [stored_manifest, accepted]
    unfold TrxnState.storeManifest
    rw [if_neg (by simp)]
    by_cases allocates : 1 < batch.trxn.count ∧ batch.trxn.id = 0
    · -- The first update of the batch opens all of its entries.
      have first := sound.unassigned allocates.2 allocates.1
      have opened := accounts.getTrxnID (Nat.lt_of_succ_lt allocates.1)
        (show s.manifest.nextGroup < maxTrxnGroup by unfold maxTrxnGroup; omega)
        (sum allocates.1 allocates.2)
      rw [if_pos allocates]
      apply opened.of_same rfl
      intro tgid
      have changed := counts tgid
      have pre : batch.openIn tgid = 0 := if_neg fun both => both.1 allocates.2
      have assigned : (assignTrxnID batch.trxn s.db.trxns).1.id =
          s.db.trxns.nextTrxnId := by
        unfold assignTrxnID
        rw [if_pos allocates]
        rfl
      have inGroup : ((assignTrxnID batch.trxn s.db.trxns).1.id ≠ 0 ∧
          (assignTrxnID batch.trxn s.db.trxns).1.group = tgid) ↔
            tgid = s.manifest.nextGroup := by
        unfold Transaction.group
        rw [assigned]
        exact ⟨fun both => both.2.symm, fun same => ⟨notZero, same.symm⟩⟩
      rw [update_apply]
      simp only [inGroup, pre, first] at changed
      split_ifs at changed ⊢ with same
      · rw [← same]
        omega
      · omega
    · have assigned : (assignTrxnID batch.trxn s.db.trxns).1 = batch.trxn := by
        unfold assignTrxnID
        rw [if_neg allocates]
      rw [if_neg allocates]
      apply accounts.of_same rfl
      intro tgid
      have changed := counts tgid
      have pre : batch.openIn tgid =
          if batch.trxn.id ≠ 0 ∧ batch.trxn.group = tgid then
            batch.trxn.count - batch.trxn.seqNumber
          else
            0 := rfl
      rw [assigned, pre] at changed
      split_ifs at changed
      · omega
      · omega

end Store

theorem of_take (balanced : s.Balanced) {w pos : Nat}
    (takes : s.take w pos = some post) : post.Balanced := by
  obtain ⟨⟨sub, _⟩, takesRequest, isAfter⟩ := Option.map_eq_some_iff.mp takes
  have plain : sub.trxnGroupID = 0 := by
    unfold Db.takeRequest at takesRequest
    cases found : s.db.pendingReq[pos]? with
    | none => simp [found] at takesRequest
    | some =>
      rw [found] at takesRequest
      obtain ⟨_, -, result⟩ := Option.map_eq_some_iff.mp takesRequest
      rw [← (Prod.mk.inj result).1]
  obtain ⟨_, _, isTaken⟩ := balanced.threaded.queued.taken takesRequest
  subst isAfter
  refine ⟨?_, balanced.batches, ?_⟩
  · exact balanced.threaded.of_taken isTaken (Nat.succ_ne_zero w) plain rfl rfl rfl
  apply balanced.accounts.of_same
  · exact manifest_of_groups isTaken.trxns rfl rfl rfl
  intro _
  unfold TrxnState.openEntries
  rw [isTaken.reworked.sequence]

theorem of_build (balanced : s.Balanced) (fits : s.manifest.nextGroup + 1 < 2 ^ 27)
    {pos : Nat} (builds : s.build pos = some post) : post.Balanced := by
  have threaded := balanced.threaded
  obtain ⟨sub, _, newer, older, head, isBuilt, marked, owned⟩ :=
    threaded.built_of_step builds
  have inColumn : ∀ node ∈ older.takeWhile mergeable, node ∈ s.nodesOf sub := by
    intro node visited
    rw [isBuilt.whole]
    have := (takeWhile_sublist mergeable).subset visited
    simp [this]
  have nodup : ((older.takeWhile mergeable).map ColumnNode.beginSeq).Nodup := by
    have whole := threaded.nodes_distinct sub
    rw [isBuilt.whole] at whole
    exact whole.sublist (((takeWhile_sublist mergeable).trans
      ((sublist_cons_self head _).trans (sublist_append_right newer _))).map _)
  have applied : ∀ node ∈ older.takeWhile mergeable,
      (s.entries node.beginSeq).fate = .applied ∧
        (node.transaction = true ↔ (s.entries node.beginSeq).trxnId ≠ 0) :=
    fun node visited => owned.applied node (mem_cons_of_mem _ visited)
  have ids : (((older.takeWhile mergeable).map ColumnNode.beginSeq).map fun seq =>
        (s.entries seq).trxnId).filter (· ≠ 0) =
      (trxnInfo head (older.takeWhile mergeable) sub.trxnDeque).merged.map
        Transaction.id := by
    rw [owned.trxnInfo.2, map_map, filter_map]
    congr 1
    apply filter_congr
    intro node visited
    simp only [comp_apply]
    rw [Bool.eq_iff_iff, decide_eq_true_iff]
    exact (applied node visited).2.symm
  refine ⟨threaded.of_built isBuilt marked owned, ?_, ?_⟩
  · rw [isBuilt.batches]
    exact balanced.batches
  have merged := TrxnManifest.Accounts.merge balanced.accounts
    (balanced.accounts.shiftable fits) nodup
    (by
      intro _ mem
      obtain ⟨node, visited, rfl⟩ := mem_map.mp mem
      exact threaded.node_le sub (inColumn node visited))
    (by
      intro _ mem
      obtain ⟨node, visited, rfl⟩ := mem_map.mp mem
      exact (applied node visited).1)
  rw [ids, foldl_map] at merged
  apply merged.of_same isBuilt.manifest
  intro _
  unfold TrxnState.openEntries
  rw [isBuilt.batches, isBuilt.reworked.sequence, funext isBuilt.entries]
  rfl

theorem of_submit (balanced : s.Balanced) (fits : s.manifest.nextGroup + 1 < 2 ^ 27)
    {pos ikeySeq kbOffset ivalueSize : Nat}
    (submits : s.submit pos ikeySeq kbOffset ivalueSize = some post) :
    post.Balanced := by
  have threaded := balanced.threaded
  have accounts := balanced.accounts
  obtain ⟨sub, sent⟩ := threaded.submitted_of_step submits
  have isBuilt := mem_of_getElem? sent.atPosition
  obtain ⟨applied, group⟩ := threaded.finished sub isBuilt
  have within : sub.colNode ≤ s.db.sequenceNumber :=
    threaded.colNode_le (by simp [isBuilt])
  refine ⟨threaded.of_submitted sent, ?_, ?_⟩
  · rw [sent.batches]
    exact balanced.batches
  have opens : post.openEntries = fun tgid =>
      (s.batches.map (BatchState.openIn tgid)).sum +
        openCount (update s.entries sub.colNode
          ⟨(s.entries sub.colNode).trxnId, .submitted⟩)
          s.db.sequenceNumber tgid := by
    funext tgid
    unfold TrxnState.openEntries
    rw [sent.batches, sent.reworked.sequence, sent.entries]
  rw [sent.manifest, opens]
  by_cases inTrxn : (s.entries sub.colNode).trxnId = 0
  · have noGroup : ¬ sub.trxnGroupID ≠ 0 := by
      rw [group, inTrxn]
      simp
    rw [if_neg noGroup]
    apply accounts.of_same rfl
    intro _
    rw [openCount_update_plain within inTrxn
      ⟨(s.entries sub.colNode).trxnId, .submitted⟩ inTrxn]
    rfl
  -- An open entry has an id of a group, and these begin at 1.
  have closed := TrxnManifest.Accounts.close accounts (accounts.shiftable fits) within applied
    inTrxn (show (⟨(s.entries sub.colNode).trxnId, .submitted⟩ : Entry).fate ≠
      .applied by simp)
  have isOpen : s.openEntries ((s.entries sub.colNode).trxnId >>> tgidShift) ≠
      0 := by
    have := openCount_pos within applied inTrxn
    unfold TrxnState.openEntries
    omega
  have positive := (accounts.handedOut_le (accounts.opened _ isOpen)).1
  rw [← group] at closed positive
  rw [if_pos (Nat.pos_iff_ne_zero.mp positive)]
  exact closed

theorem of_step (balanced : s.Balanced) {action : TrxnAction K V}
    (steps : s.step action = some post) (fits : s.Fits action) : post.Balanced := by
  cases action with
  | beginBatch => exact balanced.of_beginBatch fits steps
  | storeNext =>
    obtain ⟨batch, _, _, isBatch, listed, stopped | ⟨change, isAfter⟩⟩ :=
      storeNext_cases steps
    · exact balanced.of_stopped isBatch stopped
    rw [isAfter]
    cases cancelled : (handler s batch).cancelled change with
    | true => exact balanced.of_cancelled fits.1 isBatch listed cancelled
    | false =>
      exact balanced.of_accepted fits.1 (fits.2 batch isBatch) isBatch listed cancelled
  | take => exact balanced.of_take steps
  | build => exact balanced.of_build fits steps
  | submit => exact balanced.of_submit fits steps
  | setSnapshots =>
    obtain rfl := Option.some.inj steps
    refine ⟨?_, balanced.batches, balanced.accounts⟩
    exact balanced.threaded.of_same (fun _ _ => rfl) balanced.threaded.queued.nonempty rfl rfl
      (Nat.le_refl _) rfl rfl fun _ _ => rfl

end Balanced

end TrxnState

/-- A database that was just opened: no transaction has an id, no update waits, and what
memory has of the columns is on the device. -/
structure Db.Opened [LinearOrder K] (db : Db K V) : Prop where
  nonempty : db.tables ≠ []
  groups : db.trxns = {}
  queue : db.pendingReq = []
  ordered : ∀ key colId, (db.column key colId).Ordered db.sequenceNumber
  separate : ∀ key colId node other otherCol otherNode, node ∈ (db.column key colId).colList →
    otherNode ∈ (db.column other otherCol).colList → node.beginSeq = otherNode.beginSeq →
      key = other ∧ colId = otherCol
  onDevice : ∀ key colId, ∀ node ∈ (db.column key colId).colList, node.ikeySeq ≠ 0
  unqueued : ∀ key colId, (db.column key colId).requestNode = none

theorem Db.Opened.balanced [LinearOrder K] {db : Db K V} (opened : db.Opened) :
    TrxnState.Balanced { db := db } := by
  have noWaiting : db.waiting = [] := by
    unfold Db.waiting
    rw [opened.queue]
    rfl
  refine ⟨⟨⟨opened.nonempty, opened.ordered, opened.separate, ?_, ?_, ?_, ?_, ?_⟩,
    ?_, ?_, ?_, ?_⟩, ?_, ?_⟩
  · unfold Db.requests
    rw [opened.queue]
    exact nodup_nil
  · unfold Db.requests
    rw [opened.queue]
    simp
  · intro key col node newest pending
    exact absurd pending (opened.onDevice key col node (mem_of_head? newest))
  · intro _ _ _ isRq
    rw [opened.unqueued] at isRq
    cases isRq
  · intro _ _ mem
    rw [opened.queue] at mem
    cases mem
  · rw [noWaiting]
    exact nodup_nil
  · intro sub mem
    rw [noWaiting] at mem
    cases mem
  · intro _ mem
    cases mem
  · intro _ mem
    cases mem
  · intro _ mem
    cases mem
  apply TrxnManifest.Accounts.initial.of_same
  · unfold TrxnState.manifest
    rw [opened.groups]
  intro _
  simp [TrxnState.openEntries, openCount, Entry.openIn]

/-- In every run whose numbers fit, the count of a group is the number of its open entries;
a group is added to the completed ranges once, when its last entry is closed, and no id of
it is handed out from then on. -/
theorem conserved_of_fits [LinearOrder K] {db : Db K V} (opened : db.Opened)
    (actions : List (TrxnAction K V))
    (fits : AllMeet TrxnState.step TrxnState.Fits actions { db := db }) :
    AllHold TrxnState.step (fun s => s.manifest.Conserved s.openEntries) actions
      { db := db } := by
  apply allHold_of_allMeet TrxnState.Balanced _ _ opened.balanced fits
  · intro _ balanced
    exact balanced.accounts.toConserved
  intro _ _ _ balanced steps fitsHere
  exact balanced.of_step steps fitsHere

def newDb : Db Nat Nat := { tables := [{ beginKey := 0 }] }

theorem newDb_column (key col : Nat) : newDb.column key col = {} := by
  unfold Db.column
  have absent : newDb.findUserKey key = none := rfl
  rw [absent]
  rfl

theorem newDb_opened : newDb.Opened := by
  refine ⟨by simp [newDb], rfl, rfl, ?_, ?_, ?_, ?_⟩
  · intro key col
    rw [newDb_column]
    exact ⟨List.Pairwise.nil, by simp, rfl, by simp⟩
  · intro key col _ _ _ _ mem
    rw [newDb_column] at mem
    cases mem
  · intro _ _ _ mem
    rw [newDb_column] at mem
    cases mem
  intro _ _
  rw [newDb_column]

/-- A transaction of two puts and a batch that a merge stops; the first column is merged
and submitted. -/
def twoBatches : List (TrxnAction Nat Nat) :=
  [.beginBatch [.put 1 7 0, .put 1 8 0],
   .beginBatch [.put 2 9 0, .merge 2 9 0],
   .storeNext 0 none, .storeNext 1 none, .storeNext 0 none, .storeNext 1 none,
   .take 0 0, .build 0, .submit 0 1088 0 4]

theorem conserved_of_two_batches :
    (exec TrxnState.step twoBatches { db := newDb }).map
        (fun s => (s.db.trxns, s.openEntries 1)) =
      some ({ nextTrxnId := 34, uncompleted := [(1, 2)] }, 2) ∧
    AllHold TrxnState.step (fun s => s.manifest.Conserved s.openEntries) twoBatches
      { db := newDb } := by
  refine ⟨by decide +kernel, ?_⟩
  exact conserved_of_fits newDb_opened twoBatches (by decide +kernel)

end InsDb
