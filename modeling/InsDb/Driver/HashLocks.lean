import Mathlib.Data.List.Count
import Mathlib.Tactic.MkIffOfInductiveProp

/-!
# The locks of the request hash

`kv_hash_insert`, `kv_hash_find_and_lock` and `kv_hash_find_read_and_invalidate` look a key up
under the lock of its bucket, lock the request they find and start again when it is about to
leave the hash.  What each pass does to the two locks and to the reference count is written out
here for every state of the request.
-/

namespace InsDb.Driver

open List

/-- The request that `kv_hash_search` finds, as it is once its lock is taken. -/
structure FoundRequest where
  completed : Bool := false
  invalid : Bool := false
  blocking : Bool := false
  inFlight : Bool := false
  /-- `blocking_rq` is set: the request waits for another one. -/
  blocked : Bool := false
  isRetrieve : Bool := false
  /-- The references besides the one that the search takes. -/
  references : Nat := 1
deriving DecidableEq

inductive LockOp where
  | lockBucket | unlockBucket
  /-- The lock behind the table: a freed request has the hash key `KV_HASH_SIZE`. -/
  | unlockBehindTable
  | lockRequest | unlockRequest
  | takeReference | dropReference
deriving DecidableEq

inductive HashFunction where
  | insert | findAndLock | findReadAndInvalidate
deriving DecidableEq

namespace FoundRequest

variable (found : FoundRequest)

/-- Both `free_kv_async_rq` and the other branch unlock the request. -/
def put : List LockOp := [.dropReference, .unlockRequest]

/-- `UNLOCK_AND_RESTART`, which takes the bucket from the request. -/
def unlockAndRestart : List LockOp :=
  put ++ [if found.references = 0 then .unlockBehindTable else .unlockBucket]

def leaving : Bool := found.completed || found.invalid || found.blocking

/-- The end of a pass: what is done, and whether the function starts again. -/
def pass : HashFunction → List LockOp × Bool
  | .insert =>
    if found.leaving then (found.unlockAndRestart, true)
    -- in flight, blocked or buffered: the request stays locked
    else ([.unlockBucket], false)
  | .findAndLock =>
    if found.leaving then (found.unlockAndRestart, true)
    else if found.inFlight then (.unlockBucket :: put, false)
    else if found.blocked then (.unlockBucket :: put, true)
    else ([.unlockBucket], false)
  | .findReadAndInvalidate =>
    if found.leaving then (found.unlockAndRestart, true)
    else if found.inFlight then (.unlockBucket :: put, false)
    else if found.blocked then (.unlockBucket :: put, true)
    else ((if found.isRetrieve then [.unlockBucket] else []) ++ put ++ [.unlockBucket], false)

/-- The caller gets the request locked and with a reference: from `kv_hash_insert` also the one in
flight, as the `blocking_rq` of the new request; nobody uses what
`kv_hash_find_read_and_invalidate` returns. -/
def handedOver : HashFunction → Bool
  | .insert => !found.leaving
  | .findAndLock => !found.leaving && !found.inFlight && !found.blocked
  | .findReadAndInvalidate => false

end FoundRequest

/-- One pass, with what the search finds. -/
def hashPass (function : HashFunction) : Option FoundRequest → List LockOp × Bool
  | none => ([.lockBucket, .unlockBucket], false)
  | some found =>
    ([.lockBucket, .takeReference, .lockRequest] ++ (found.pass function).1,
      (found.pass function).2)

/-- The passes of a call that would find these requests one after the other. -/
def hashPasses (function : HashFunction) : List (Option FoundRequest) → List (Option FoundRequest)
  | [] => []
  | found :: later =>
    found :: if (hashPass function found).2 then hashPasses function later else []

/-- What the passes of a call do, one after the other. -/
def hashCall (function : HashFunction) (founds : List (Option FoundRequest)) : List LockOp :=
  (hashPasses function founds).flatMap fun found => (hashPass function found).1

/-- The bucket is released as often as it is taken, and the lock of the request and the reference
are kept exactly if the request is handed over. -/
@[mk_iff locksBalanced_def]
structure LocksBalanced (ops : List LockOp) (handedOver : Bool) : Prop where
  bucket : ops.count .lockBucket = ops.count .unlockBucket
  noOther : .unlockBehindTable ∉ ops
  request : ops.count .lockRequest =
    ops.count .unlockRequest + (if handedOver then 1 else 0)
  reference : ops.count .takeReference =
    ops.count .dropReference + (if handedOver then 1 else 0)

def PassBalanced (function : HashFunction) (found : Option FoundRequest) : Prop :=
  LocksBalanced (hashPass function found).1 (found.any (·.handedOver function))

def CallBalanced (function : HashFunction) (founds : List (Option FoundRequest)) : Prop :=
  LocksBalanced (hashCall function founds)
    ((hashPasses function founds).any fun found => found.any (·.handedOver function))

def PassFits (function : HashFunction) : Option FoundRequest → Prop
  | none => True
  | some found =>
    (found.leaving = true → found.references ≠ 0) ∧
      (function = .findReadAndInvalidate → found.isRetrieve = true →
        found.leaving = true ∨ found.inFlight = true ∨ found.blocked = true)

namespace FoundRequest

variable {found : FoundRequest}

theorem pass_of_leaving (function : HashFunction) (leaves : found.leaving = true) :
    found.pass function = (found.unlockAndRestart, true) ∧ found.handedOver function = false := by
  cases function <;> simp [pass, handedOver, leaves]

/-- A request that stays in the hash makes a function start again only if it is blocked. -/
theorem restarts_of_staying {function : HashFunction} (stays : found.leaving = false)
    (restarts : (found.pass function).2 = true) :
    found.blocked = true ∧ found.handedOver function = false := by
  cases function <;> cases inFlight : found.inFlight <;> cases blocked : found.blocked <;>
    simp_all [pass, handedOver]

end FoundRequest

theorem passBalanced_iff (function : HashFunction) (found : Option FoundRequest) :
    PassBalanced function found ↔ PassFits function found := by
  rw [PassBalanced, locksBalanced_def]
  cases found with
  | none => simp [hashPass, PassFits]
  | some found =>
    rw [hashPass, PassFits, Option.any_some]
    cases leaving : found.leaving with
    | true =>
      obtain ⟨pass, handedOver⟩ := FoundRequest.pass_of_leaving function leaving
      by_cases alone : found.references = 0 <;>
        simp [pass, handedOver, FoundRequest.put, FoundRequest.unlockAndRestart, alone]
    | false =>
      cases function <;> cases inFlight : found.inFlight <;> cases blocked : found.blocked <;>
        cases isRetrieve : found.isRetrieve <;>
        simp [FoundRequest.pass, FoundRequest.put, FoundRequest.handedOver, leaving, inFlight,
          blocked, isRetrieve]

theorem LocksBalanced.append_iff {front back : List LockOp} {handedOver : Bool}
    (balanced : LocksBalanced front false) :
    LocksBalanced (front ++ back) handedOver ↔ LocksBalanced back handedOver := by
  obtain ⟨bucket, noOther, request, reference⟩ := balanced
  simp only [Bool.false_eq_true, if_false, Nat.add_zero] at request reference
  simp only [locksBalanced_def, count_append, mem_append, noOther, false_or, bucket, request,
    reference, Nat.add_assoc, Nat.add_left_cancel_iff]

section Pass

variable {function : HashFunction} {found : Option FoundRequest}

theorem not_handedOver_of_restarts (restarts : (hashPass function found).2 = true) :
    found.any (·.handedOver function) = false := by
  cases found with
  | none => cases restarts
  | some found =>
    cases leaving : found.leaving with
    | true => exact (FoundRequest.pass_of_leaving function leaving).2
    | false => exact (FoundRequest.restarts_of_staying leaving restarts).2

/-- A pass that starts again fits unless it releases a lock of no bucket. -/
theorem passFits_of_restarts (restarts : (hashPass function found).2 = true)
    (noOther : .unlockBehindTable ∉ (hashPass function found).1) : PassFits function found := by
  cases found with
  | none => trivial
  | some found =>
    cases leaving : found.leaving with
    | true =>
      refine ⟨fun _ alone => noOther ?_, fun _ _ => .inl leaving⟩
      rw [hashPass, (FoundRequest.pass_of_leaving function leaving).1]
      simp [FoundRequest.unlockAndRestart, alone]
    | false =>
      have blocked := (FoundRequest.restarts_of_staying leaving restarts).1
      exact ⟨by simp [leaving], fun _ _ => .inr (.inr blocked)⟩

end Pass

theorem callBalanced_iff (function : HashFunction) (founds : List (Option FoundRequest)) :
    CallBalanced function founds ↔
      ∀ found ∈ hashPasses function founds, PassFits function found := by
  induction founds with
  | nil => simp [CallBalanced, hashCall, hashPasses, locksBalanced_def]
  | cons found later ih =>
    by_cases restarts : (hashPass function found).2 = true
    · have passes : hashPasses function (found :: later) = found :: hashPasses function later := by
        rw [hashPasses, if_pos restarts]
      rw [CallBalanced, hashCall, passes, flatMap_cons, any_cons,
        not_handedOver_of_restarts restarts, Bool.false_or, forall_mem_cons]
      by_cases fits : PassFits function found
      · have balanced := (passBalanced_iff function found).mpr fits
        rw [PassBalanced, not_handedOver_of_restarts restarts] at balanced
        rw [balanced.append_iff, ← hashCall, ← CallBalanced, ih]
        exact (and_iff_right fits).symm
      · refine iff_of_false ?_ fun both => fits both.1
        intro balanced
        exact fits (passFits_of_restarts restarts
          fun other => balanced.noOther (mem_append_left _ other))
    · have passes : hashPasses function (found :: later) = [found] := by
        rw [hashPasses, if_neg restarts]
      rw [CallBalanced, hashCall, passes, flatMap_singleton, any_cons, any_nil, Bool.or_false,
        ← PassBalanced, passBalanced_iff, forall_mem_singleton]

/-- However often a call starts again, its locks and references balance, in every pass and in
total, exactly if no pass starts again from a request that nobody else refers to, and
`kv_hash_find_read_and_invalidate` does not end at a buffered get. -/
theorem hash_locks_balanced_iff (function : HashFunction) (founds : List (Option FoundRequest)) :
    ((∀ found ∈ hashPasses function founds, PassBalanced function found) ↔
        ∀ found ∈ hashPasses function founds, PassFits function found) ∧
      (CallBalanced function founds ↔
        ∀ found ∈ hashPasses function founds, PassFits function found) := by
  refine ⟨?_, callBalanced_iff function founds⟩
  simp only [passBalanced_iff]

/-- The bucket of a buffered get is unlocked twice, in its pass and in the whole call. -/
theorem buffered_get_unlocks_twice :
    (¬ ∀ found ∈ hashPasses .findReadAndInvalidate [some { isRetrieve := true }],
        PassBalanced .findReadAndInvalidate found) ∧
      ¬ CallBalanced .findReadAndInvalidate [some { isRetrieve := true }] := by
  constructor
  · intro balanced
    exact absurd (balanced (some { isRetrieve := true }) mem_cons_self).bucket (by decide)
  · intro balanced
    exact absurd balanced.bucket (by decide)

end InsDb.Driver
