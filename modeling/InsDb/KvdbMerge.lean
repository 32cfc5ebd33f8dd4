import InsDb.WriteBatch

/-!
# Merges through kvdb

Each column family of kvdb has its merge operator, insdb has one.  It is made from the
operator of the default family when the database is opened, and the write path of insdb
calls it back for every family.
-/

namespace InsDb.Kvdb

abbrev Slice := List UInt8

/-- `MergeOperationOutput` and the result of `FullMergeV2`. -/
structure MergeOutput where
  success : Bool
  newValue : Slice := []
  existingOperand : Slice := []

/-- `MergeOperator::FullMergeV2`, of the key, the existing value and the operands. -/
abbrev MergeOperator (K : Type) := K → Option Slice → List Slice → MergeOutput

variable {K : Type}

/-- `InsDB_MergeOperator::Merge`. -/
def MergeOperator.merge (operator : MergeOperator K) (key : K) (existing : Option Slice)
    (v : Slice) : Option Slice :=
  let out := operator key existing [v]
  if out.success then some (if out.newValue = [] then out.existingOperand else out.newValue)
  else none

/-- The operators of the column families; a family may have none. -/
abbrev Families (K : Type) := Nat → Option (MergeOperator K)

/-- `convert_to_insdb_options` wraps the operator of family 0, also if it is null. -/
def convertToInsdbOptions (families : Families K) (db : Db K Slice) : Db K Slice :=
  { db with mergeOperator := (families 0).map MergeOperator.merge }

inductive MergeCall where
  /-- `DBImpl::Merge`, which looks for an operator of the family first. -/
  | merge
  /-- `WriteBatch::Merge` and `DBImpl::Write`. -/
  | write
deriving DecidableEq

variable [LinearOrder K]

/-- The status of the call and the updates that insdb stores; `none` when the callback runs
into the null pointer. -/
def merge (call : MergeCall) (families : Families K) (db : Db K Slice) (key : K)
    (v : Slice) (col : Nat) : Option (Status × List (BatchUpdate K Slice)) :=
  let batch : WriteBatch K Slice := { count := 1, records := [.merge key v col] }
  let opened := convertToInsdbOptions families db
  if call = .merge ∧ (families col).isNone then some (.notSupported "", [])
  else if (families 0).isNone then none
  else some ((opened.write batch).1, resolve batch.records (.initWBI opened batch.count))

section Own

variable (call : MergeCall) (families : Families K) (db : Db K Slice) (key : K)
  (v : Slice) (col : Nat)

/-- What the operator of the family makes of the value that insdb holds. -/
def mergedByOwn : Option Slice :=
  (families col).bind fun own =>
    own.merge key ((convertToInsdbOptions families db).get none key col) v

/-- The call stores what the operator of the family gives, and fails exactly if it has none
or the operator fails. -/
def UsesOwnOperator : Prop :=
  match mergedByOwn families db key v col with
  | some merged =>
    merge call families db key v col = some (.ok, [⟨key, col, .put merged⟩])
  | none =>
    ∃ status stored, merge call families db key v col = some (status, stored) ∧ status ≠ .ok

/-- A merge is right exactly if `DBImpl::Merge` finds no operator, or if the operator of the
family succeeds and the one of the default family gives the same value. -/
theorem usesOwnOperator_iff : UsesOwnOperator call families db key v col ↔
      (call = .merge ∧ families col = none) ∨ ∃ default merged, families 0 = some default ∧
          mergedByOwn families db key v col = some merged ∧
          default.merge key ((convertToInsdbOptions families db).get none key col) v =
            some merged := by
  have called : ∀ default, families 0 = some default →
      resolve [.merge key v col] (.initWBI (convertToInsdbOptions families db) 1) =
        match default.merge key ((convertToInsdbOptions families db).get none key col) v with
        | none => []
        | some merged => [⟨key, col, .put merged⟩] := by
    intro default isDefault
    have operator : (convertToInsdbOptions families db).mergeOperator = some default.merge := by
      rw [convertToInsdbOptions, isDefault, Option.map_some]
    simp only [resolve, WriteBatchInternal.change, WriteBatchInternal.initWBI,
      Db.callMergeOperator, operator, Option.bind_some]
    cases default.merge key ((convertToInsdbOptions families db).get none key col) v <;> rfl
  unfold UsesOwnOperator merge
  cases isOwn : families col with
  | none =>
    have notMerged : mergedByOwn families db key v col = none := by
      rw [mergedByOwn, isOwn, Option.bind_none]
    rw [notMerged]
    cases isDefault : families 0 <;> cases call <;> simp [Db.write]
  | some =>
    cases isDefault : families 0 with
    | none => cases mergedByOwn families db key v col <;> simp
    | some default =>
      simp only [called default isDefault]
      cases mergedByOwn families db key v col <;> cases isMerged :
          default.merge key ((convertToInsdbOptions families db).get none key col) v <;>
        simp [Db.write, isMerged]

/-- The family 1 keeps the new value, the default family keeps a zero. -/
def replaceBesideZero : Families Nat
  | 0 => some fun _ _ _ => { success := true, newValue := [0] }
  | 1 => some fun _ _ operands => { success := true, newValue := operands.flatten }
  | _ => none

theorem merge_uses_default_operator : merge .merge replaceBesideZero { tables := [] } 5 [7] 1 =
        some (.ok, [⟨5, 1, .put [0]⟩]) ∧
      ¬ UsesOwnOperator .merge replaceBesideZero { tables := [] } 5 [7] 1 := by
  constructor
  · decide +kernel
  have own : mergedByOwn replaceBesideZero { tables := [] } 5 [7] 1 = some [7] := by
    decide +kernel
  rw [UsesOwnOperator, own]
  decide +kernel

end Own

end InsDb.Kvdb
