import InsDb.Library.Rows
import Mathlib.Algebra.Group.Nat.Defs
import Mathlib.Order.Nat

/-!
# Transactions, transaction groups and request nodes

The updates of a write batch form a transaction. Transaction ids are handed out in groups of
32; the manifest counts the entries of each group that are not completed yet.
-/

namespace InsDb

open InsDb.Library

structure Transaction where
  count : Nat := 0
  seqNumber : Nat := 0
  id : Nat := 0
deriving DecidableEq, Repr

def tgidShift : Nat := 5

variable (trxn : Transaction)

def Transaction.group : Nat := trxn.id >>> tgidShift

/-- The last update of a batch is written whatever the newest version of its key is. -/
def Transaction.isLast : Bool :=
  decide (1 < trxn.count ∧ trxn.seqNumber + 1 = trxn.count)

def Transaction.cancelOne : Transaction :=
  { trxn with count := if trxn.count = 0 then 2 ^ 32 - 1 else trxn.count - 1 }

def Transaction.advance : Transaction :=
  { trxn with seqNumber := trxn.seqNumber + 1 }

/-- `next_trxn_id_` and the entries per group that are not completed. -/
structure TrxnGroups where
  nextTrxnId : Nat := 32
  uncompleted : List (Nat × Nat) := []
deriving DecidableEq, Repr

namespace TrxnGroups

/-- `Manifest::GetTrxnID`: a large batch closes its group. -/
def getTrxnID (groups : TrxnGroups) (count : Nat) : Nat × TrxnGroups :=
  let trxnId := groups.nextTrxnId
  let tgid := trxnId >>> tgidShift
  (trxnId,
    { nextTrxnId := if 4096 < count then (tgid + 1) <<< tgidShift else trxnId + 1
      uncompleted :=
        Rows.set tgid (((Rows.get groups.uncompleted tgid).getD 0 + count) % 2 ^ 32)
          groups.uncompleted })

/-- `Manifest::DecTrxnGroup`: a completed group is closed.  The next id is computed in
32 bits. -/
def decTrxnGroup (groups : TrxnGroups) (tgid cnt : Nat) : TrxnGroups :=
  match Rows.get groups.uncompleted tgid with
  | none => groups
  | some entries =>
    let left := (entries + 2 ^ 32 - cnt % 2 ^ 32) % 2 ^ 32
    if left = 0 then
      { nextTrxnId :=
          if tgid = groups.nextTrxnId >>> tgidShift then
            ((tgid + 1) <<< tgidShift) % 2 ^ 32
          else
            groups.nextTrxnId
        uncompleted := groups.uncompleted.filter fun group => group.1 ≠ tgid }
    else
      { groups with uncompleted := Rows.set tgid left groups.uncompleted }

end TrxnGroups

/-- A request of the pending queue.  The submitted node is the newest of the column
when a worker takes the request, unless a later request already fixed it. -/
structure RequestNode (K : Type) where
  key : K
  colId : Nat
  trxnDeque : List Transaction := []
  latestColNode : Option Nat := none
deriving DecidableEq, Repr

/-- `RequestNode::Init`. -/
def RequestNode.init {K : Type} (key : K) (colId : Nat) (trxn : Transaction) :
    RequestNode K :=
  { key := key
    colId := colId
    trxnDeque := if trxn.id = 0 then [] else [trxn] }

/-- `RequestNode::InsertTrxn`. -/
def RequestNode.insertTrxn {K : Type} (request : RequestNode K) (trxn : Transaction) :
    RequestNode K :=
  { request with trxnDeque := request.trxnDeque ++ [trxn] }

/-- `RequestNode::GetTrxn`: the newest transaction of the deque. -/
def getTrxn (trxnDeque : List Transaction) : Transaction × List Transaction :=
  match trxnDeque.getLast? with
  | some trxn => (trxn, trxnDeque.dropLast)
  | none => ({}, [])

end InsDb
