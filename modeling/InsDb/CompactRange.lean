import InsDb.Flush

/-!
# CompactRange

`DBImpl::CompactRange` looks up the `UserKey` of its begin key, walks on to that of its end
key and marks the newest version of the column in each as dropped; readers skip a dropped
version and the next flush deletes it.  Both lookups go to functions of the manifest that
are not implemented and find no key, so the walk is never entered.
-/

namespace InsDb

open InsDb.Library

variable {K V : Type} [LinearOrder K]

/-- `ColumnNode::DropColumnNode` on the node that begins at `beginSeq`. -/
def ColumnData.dropColumnNode (data : ColumnData V) (beginSeq : Nat) : ColumnData V :=
  { data with
    colList := data.colList.map fun node =>
      if node.beginSeq = beginSeq then { node with dropped := true } else node }

/-- One key of the walk: the version a reader finds is dropped, and the key is dirty. -/
def UserKey.dropColumn (user : UserKey V) (colId : Nat) : UserKey V :=
  match user.getColumnNode colId { seqNum := ulongMax, curTime := ulongMax, ttl := 0 } with
  | .found node =>
    { user.setColumn colId ((user.columns colId).dropColumnNode node.beginSeq) with dirty := true }
  | .deleted | .absent => user

namespace Db

/-- `Manifest::SearchUserKey`, which is not implemented. -/
def searchUserKey (_ : Db K V) (_ : K) : Option K := none

/-- `Manifest::SearchLessThanEqualUserKey`, which is not implemented. -/
def searchLessThanEqualUserKey (_ : Db K V) (_ : K) : Option K := none

/-- The loop of `CompactRange` over the keys that `NextUserKey` finds. -/
def dropUntil (colId : Nat) (last : K) : List K → Db K V → Db K V
  | [], db => db
  | key :: rest, db =>
    let dropped :=
      match db.findUserKey key with
      | some user => db.setUserKey key (user.dropColumn colId)
      | none => db
    if key = last then dropped else dropUntil colId last rest dropped

/-- `DBImpl::CompactRange` with both bounds given.  `following` lists the keys that
`NextUserKey` finds from a key on. -/
def compactRange (db : Db K V) (following : K → List K) (first last : K)
    (colId : Nat) : Status × Db K V :=
  match db.searchUserKey first with
  | none => (.notFound "key does not exit", db)
  | some begins =>
    match db.searchLessThanEqualUserKey last with
    | none => (.notFound "key does not exit", db)
    | some ends => (.ok, dropUntil colId ends (begins :: following begins) db)

def iteratedKeys (db : Db K V) (colId : Nat) (point : ReadPoint)
    (snapshotPads : K → Option (IterScratchPad K V)) : List K :=
  visible (db.tables.map fun table =>
    table.iterTable colId point (snapshotPads table.beginKey))

theorem compactRange_eq (db : Db K V) (following : K → List K) (first last : K) (col : Nat) :
    db.compactRange following first last col = (.notFound "key does not exit", db) := rfl

end Db

/-- `CompactRange` changes no read and no iteration in any column, at once and after the next
flush of any table. -/
theorem compactRange_frame (db : Db K V) (following : K → List K) (first last : K) (colId : Nat) :
    let compacted := (db.compactRange following first last colId).2
    (∀ snapshot key readCol, compacted.get snapshot key readCol = db.get snapshot key readCol) ∧
      (∀ readCol point snapshotPads, compacted.iteratedKeys readCol point snapshotPads =
          db.iteratedKeys readCol point snapshotPads) ∧
      ∀ env index, (∀ snapshot key readCol, (compacted.flush env index).get snapshot key readCol =
            (db.flush env index).get snapshot key readCol) ∧
        ∀ readCol point snapshotPads,
          (compacted.flush env index).iteratedKeys readCol point snapshotPads =
            (db.flush env index).iteratedKeys readCol point snapshotPads := by
  intro compacted
  have unchanged : compacted = db := by
    change (db.compactRange following first last colId).2 = db
    rw [Db.compactRange_eq]
  rw [unchanged]
  exact ⟨fun _ _ _ => rfl, fun _ _ _ => rfl, fun _ _ => ⟨fun _ _ _ => rfl, fun _ _ _ => rfl⟩⟩

end InsDb
