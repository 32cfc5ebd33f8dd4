import InsDb.BufferEstimates
import InsDb.FlushColumn
import InsDb.Library.Run
import Mathlib.Algebra.Order.BigOperators.Group.Finset
import Mathlib.Data.Fintype.Sum

/-!
# Requests that are not recorded

The log meta of a key block counts the requests of the block that no table flush has dealt
with, `nrs_key_cnt_`. `DeviceFormatBuilder` takes a request off the count when it writes its
column to a row.
-/

namespace InsDb

open InsDb.Library.Run List Function ColumnNode

variable {Request V : Type}

/-- A put or delete of a key block: its node until a flush deletes it, the `bDecNrs` of its
entries in the update lists, and how often `DecNRSCount` was called for it. -/
structure CountedRequest (V : Type) where
  node : Option (ColumnNode V)
  updates : List Bool := []
  decs : Nat := 0

namespace CountedRequest

inductive Action (V : Type) where
  -- With `split` the table has no room for a further row.
  | examine (info : BuilderInfo V) (colId : Nat) (walk : ColumnWalk) (split : Bool)
  -- A writer or a snapshot changes the node: neither its commit flag nor its key block.
  | change (node : ColumnNode V)
  | drain (bDecNrs : Bool)

/-- `DeviceFormatBuilder` at the node of the request. -/
def examine (rq : CountedRequest V) (info : BuilderInfo V) (colId : Nat)
    (walk : ColumnWalk) (split : Bool) (node : ColumnNode V) : CountedRequest V :=
  let marked := node.setRecentColNodeDeleted walk.recentColNodeDeleted
  let bDecNrs := !node.trxnCommitted
  let updates := if node.ikeySeq = ulongMax then rq.updates else bDecNrs :: rq.updates
  if kUnusedNextInternalKey ≤ node.ikeySeq ∧ (node.trxnCommitted = true ∨
      node.transaction = false ∨ info.trxnGroupCompleted node = true) then
    match (checkColumnStatus info colId marked (walk.checkIterator node).1
      (walk.enter node).dropColNode).1 with
    | .validColumn =>
      if split then { rq with node := some marked }
      else { rq with
        node := some marked.setTRXNCommitted
        decs := rq.decs + bDecNrs.toNat }
    | .iterColumn => { rq with
        node := some marked.setHoldingIter.setTRXNCommitted
        updates := updates }
    | .invalidColumn => { rq with node := none, updates := updates }
  else { rq with node := some marked }

def step (rq : CountedRequest V) : Action V → Option (CountedRequest V)
  | .examine info colId walk split =>
    rq.node.map (rq.examine info colId walk split)
  | .change node =>
    if ∃ old ∈ rq.node, node.trxnCommitted = old.trxnCommitted ∧
        node.ikeySeq = old.ikeySeq then
      some { rq with node := some node }
    else none
  -- `FlushSKTableMem` takes an entry out of the update lists.
  | .drain bDecNrs =>
    if bDecNrs ∈ rq.updates then
      some { rq with
        updates := rq.updates.erase bDecNrs
        decs := rq.decs + bDecNrs.toNat }
    else none

/-- The node is committed or deleted. -/
def closed (rq : CountedRequest V) : Bool := rq.node.all (·.trxnCommitted)

/-- A row has the request, or its column is invalid or held by a snapshot and the flush that
found this has written the metas and drained its lists. -/
def Recorded (rq : CountedRequest V) : Prop :=
  rq.closed = true ∧ true ∉ rq.updates

structure Balanced (rq : CountedRequest V) : Prop where
  counted : rq.decs + rq.updates.count true = rq.closed.toNat
  unmerged : ∀ node ∈ rq.node, node.ikeySeq ≠ ulongMax

variable {rq next : CountedRequest V}

theorem Balanced.examine (balanced : rq.Balanced) {node : ColumnNode V}
    (isNode : rq.node = some node) (info : BuilderInfo V) (col : Nat)
    (walk : ColumnWalk) (split : Bool) :
    (rq.examine info col walk split node).Balanced := by
  have own := balanced.unmerged node isNode
  have counted := balanced.counted
  simp only [closed, isNode, Option.all_some] at counted
  have marks : Balanced { rq with
      node := some (node.setRecentColNodeDeleted walk.recentColNodeDeleted) } :=
    ⟨counted, by simpa [setRecentColNodeDeleted] using own⟩
  unfold CountedRequest.examine
  dsimp only
  rw [if_neg own]
  by_cases settled : kUnusedNextInternalKey ≤ node.ikeySeq ∧ (node.trxnCommitted = true ∨
      node.transaction = false ∨ info.trxnGroupCompleted node = true)
  · rw [if_pos settled]
    -- The request is counted exactly when the node was not committed before.
    split
    · by_cases isSplit : split = true
      · rw [if_pos isSplit]
        exact marks
      · rw [if_neg isSplit]
        refine ⟨?_, by simpa [setTRXNCommitted, setRecentColNodeDeleted] using own⟩
        cases committed : node.trxnCommitted <;> simp_all [closed, setTRXNCommitted]
    · refine ⟨?_, by simpa [setTRXNCommitted, setHoldingIter, setRecentColNodeDeleted] using own⟩
      cases committed : node.trxnCommitted <;> simp_all [closed, setTRXNCommitted]
    · refine ⟨?_, by simp⟩
      cases committed : node.trxnCommitted <;> simp_all [closed]
  · rw [if_neg settled]
    exact marks

theorem Balanced.step (balanced : rq.Balanced) {action : Action V}
    (taken : rq.step action = some next) : next.Balanced := by
  have counted := balanced.counted
  cases action with
  | examine info col walk split =>
    obtain ⟨_, isNode, rfl⟩ := Option.map_eq_some_iff.mp taken
    exact balanced.examine isNode info col walk split
  | change =>
    obtain ⟨⟨old, isOld, _, _⟩, isNext⟩ := Option.ite_none_right_eq_some.mp taken
    cases isNext
    have unmerged := balanced.unmerged old isOld
    refine ⟨?_, ?_⟩ <;> simp_all [closed]
  | drain bDecNrs =>
    obtain ⟨mem, isNext⟩ := Option.ite_none_right_eq_some.mp taken
    cases isNext
    refine ⟨?_, balanced.unmerged⟩
    have erased := (perm_cons_erase mem).count_eq true
    rw [count_cons] at erased
    cases bDecNrs <;> simp [closed] at counted erased ⊢ <;> omega

theorem Balanced.decs_le_one (balanced : rq.Balanced) : rq.decs ≤ 1 := by
  have counted := balanced.counted
  have := rq.closed.toNat_le
  omega

theorem Balanced.recorded_iff (balanced : rq.Balanced) :
    rq.Recorded ↔ rq.decs = 1 := by
  have counted := balanced.counted
  rw [Recorded, ← count_eq_zero]
  cases isClosed : rq.closed
  · simp_all
  · simp_all
    omega

end CountedRequest

structure RecordedCount (Request V : Type) where
  nrs : Nat
  request : Request → CountedRequest V

namespace RecordedCount

/-- `DecNRSCount` on the 8-bit count goes with every step that counts its request. -/
def step [DecidableEq Request] (s : RecordedCount Request V) :
    Request × CountedRequest.Action V → Option (RecordedCount Request V)
  | (id, action) =>
    ((s.request id).step action).map fun next =>
      { nrs := (s.nrs + 256 + (s.request id).decs - next.decs) % 256
        request := update s.request id next }

structure Balanced [Fintype Request] (s : RecordedCount Request V) : Prop where
  requests : ∀ id, (s.request id).Balanced
  nrs : s.nrs = ∑ id, (1 - (s.request id).decs)

theorem Balanced.step [DecidableEq Request] [Fintype Request]
    (small : Fintype.card Request ≤ 2 * kMaxRequestPerKeyBlock)
    {s next : RecordedCount Request V} (balanced : s.Balanced)
    {action : Request × CountedRequest.Action V} (taken : s.step action = some next) :
    next.Balanced := by
  obtain ⟨changed, isChanged, rfl⟩ := Option.map_eq_some_iff.mp taken
  have own := (balanced.requests action.1).step isChanged
  refine ⟨(forall_update_iff _ fun _ => CountedRequest.Balanced).mpr
    ⟨own, fun other _ => balanced.requests other⟩, ?_⟩
  have pre := (balanced.requests action.1).decs_le_one
  have once := own.decs_le_one
  have total := balanced.nrs
  have bound := Finset.sum_le_card_nsmul Finset.univ
    (fun id => 1 - (s.request id).decs) 1 fun id _ => Nat.sub_le ..
  have others : ∑ id ∈ Finset.univ.erase action.1, (1 - (update s.request action.1 changed
      id).decs) = ∑ id ∈ Finset.univ.erase action.1, (1 - (s.request id).decs) := by
    apply Finset.sum_congr rfl
    intro _ mem
    rw [update_of_ne (Finset.ne_of_mem_erase mem)]
  rw [← Finset.add_sum_erase _ _ (Finset.mem_univ action.1)] at total bound ⊢
  simp only [others, update_self, Finset.card_univ, nsmul_eq_mul, Nat.cast_id, mul_one,
    kMaxRequestPerKeyBlock] at *
  omega

/-- A new key block: each put and each delete has a node that no flush has committed. -/
structure Block (V : Type) where
  puts : Fin (kMaxRequestPerKeyBlock + 1)
  dels : Fin (kMaxRequestPerKeyBlock + 1)
  node : Fin puts ⊕ Fin dels → ColumnNode V
  uncommitted : ∀ id, (node id).trxnCommitted = false
  unmerged : ∀ id, (node id).ikeySeq ≠ ulongMax

/-- `KeyBlockMetaLog::Init`. -/
def init (block : Block V) : RecordedCount (Fin block.puts ⊕ Fin block.dels) V :=
  { nrs := (block.puts + block.dels) % 256
    request := fun id => { node := some (block.node id) } }

theorem nrs_count_once (block : Block V)
    (actions : List ((Fin block.puts ⊕ Fin block.dels) × CountedRequest.Action V)) :
    AllHold step (fun s =>
      (∀ id, (s.request id).decs ≤ 1 ∧ ((s.request id).Recorded ↔ (s.request id).decs = 1)) ∧
      (s.nrs = 0 ↔ ∀ id, (s.request id).Recorded)) actions (init block) := by
  have puts := block.puts.isLt
  have dels := block.dels.isLt
  have initially : (init block).Balanced := by
    refine ⟨fun id => ⟨by simp [init, CountedRequest.closed, block.uncommitted], ?_⟩, ?_⟩
    · intro _ isNode
      exact Option.some.inj isNode ▸ block.unmerged id
    · simp only [kMaxRequestPerKeyBlock] at puts dels
      simp only [init, Nat.sub_zero, Finset.sum_const, Finset.card_univ, Fintype.card_sum,
        Fintype.card_fin, nsmul_eq_mul, Nat.cast_id, mul_one]
      omega
  refine allHold_of_invariant Balanced ?_ ?_ initially
  · intro s balanced
    have recorded : ∀ id, (s.request id).Recorded ↔ 1 - (s.request id).decs = 0 := by
      intro id
      have once := (balanced.requests id).decs_le_one
      rw [(balanced.requests id).recorded_iff]
      omega
    refine ⟨fun id => ⟨(balanced.requests id).decs_le_one, (balanced.requests id).recorded_iff⟩, ?_⟩
    rw [balanced.nrs, Finset.sum_eq_zero_iff]
    simp [recorded]
  · intro _ _ _ balanced taken
    refine balanced.step ?_ taken
    simp only [Fintype.card_sum, Fintype.card_fin]
    omega

end RecordedCount

end InsDb
