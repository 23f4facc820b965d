import SharedTree.Tables.Query
import SharedTree.Error
/-!
Transactions over the tables. Rows are written in place and every write is logged with what stood
there before; taking the log back from its newest entry restores the tables, all the way or down to
a savepoint. A row operation that fails leaves the transaction as it was.
-/
namespace SharedTree

inductive Undo where
  | item (id : Id) (before : Option Item)
  | membership (id : Id) (before : Option Membership)
deriving DecidableEq

def Tables.revert (tables : Tables) : Undo → Tables
  | .item id none => tables.removeItem id
  | .item id (some before) => (tables.removeItem id).putItem before
  | .membership id none => tables.removeMembership id
  | .membership id (some before) => (tables.removeMembership id).putMembership before

def Tables.revertAll (tables : Tables) (log : List Undo) : Tables := log.foldl Tables.revert tables

/-- Writes to the tables that are not yet committed. The log has its newest entry first, the
savepoints, each the length that the log had, their innermost first. -/
structure Transaction where
  tables : Tables
  log : List Undo
  savepoints : List Nat

inductive RowOp where
  | insertItem (item : Item)
  | updateItem (item : Item)
  | deleteItem (id : Id)
  | insertMembership (membership : Membership)
  | updateMembership (membership : Membership)
  | deleteMembership (id : Id)
  | savepoint
  | releaseSavepoint
  | rollbackToSavepoint
deriving DecidableEq

namespace Transaction

def start (tables : Tables) : Transaction := ⟨tables, [], []⟩

def insertItem (transaction : Transaction) (item : Item) : Except Error Transaction :=
  let tables := transaction.tables
  if tables.items.contains item.id || tables.itemPaths.contains item.path then
    .error (.storage (.itemExists item.id))
  else
    .ok { transaction with
      tables := tables.putItem item
      log := .item item.id none :: transaction.log }

def updateItem (transaction : Transaction) (item : Item) : Except Error Transaction :=
  let tables := transaction.tables
  match tables.items[item.id]? with
  | none => .error (.itemNotFound item.id)
  | some before =>
      if tables.itemPaths[item.path]?.any fun other => other != item.id then
        .error (.storage (.pathTaken item.path))
      else
        .ok { transaction with
          tables := tables.putItem item
          log := .item item.id (some before) :: transaction.log }

def deleteItem (transaction : Transaction) (id : Id) : Bool × Transaction :=
  match transaction.tables.items[id]? with
  | none => (false, transaction)
  | some before =>
      (true, { transaction with
        tables := transaction.tables.removeItem id
        log := .item id (some before) :: transaction.log })

def insertMembership (transaction : Transaction) (membership : Membership) :
    Except Error Transaction :=
  let tables := transaction.tables
  match tables.membershipIdAt? membership.account membership.itemPath with
  | some existing => .error (.modifyExistingMembership existing)
  | none =>
      if tables.memberships.contains membership.id then
        .error (.storage (.membershipExists membership.id))
      else
        .ok { transaction with
          tables := tables.putMembership membership
          log := .membership membership.id none :: transaction.log }

def updateMembership (transaction : Transaction) (membership : Membership) :
    Except Error Transaction :=
  let tables := transaction.tables
  match tables.memberships[membership.id]? with
  | none => .error (.membershipNotFound membership.id)
  | some before =>
      match (tables.membershipIdAt? membership.account membership.itemPath).filter
          fun other => other != membership.id with
      | some other => .error (.modifyExistingMembership other)
      | none =>
          .ok { transaction with
            tables := tables.putMembership membership
            log := .membership membership.id (some before) :: transaction.log }

def deleteMembership (transaction : Transaction) (id : Id) : Bool × Transaction :=
  match transaction.tables.memberships[id]? with
  | none => (false, transaction)
  | some before =>
      (true, { transaction with
        tables := transaction.tables.removeMembership id
        log := .membership id (some before) :: transaction.log })

def undoTo (transaction : Transaction) (mark : Nat) : Transaction :=
  let excess := transaction.log.length - mark
  { transaction with
    tables := transaction.tables.revertAll (transaction.log.take excess)
    log := transaction.log.drop excess }

def savepoint (transaction : Transaction) : Transaction :=
  { transaction with savepoints := transaction.log.length :: transaction.savepoints }

def releaseSavepoint (transaction : Transaction) : Except Error Transaction :=
  match transaction.savepoints with
  | [] => .error (.storage .nothingToRelease)
  | _ :: rest => .ok { transaction with savepoints := rest }

def rollbackToSavepoint (transaction : Transaction) : Except Error Transaction :=
  match transaction.savepoints with
  | [] => .error (.storage .nothingToRollBackTo)
  | mark :: rest => .ok ({ transaction with savepoints := rest }.undoTo mark)

def apply (transaction : Transaction) : RowOp → Except Error (Bool × Transaction)
  | .insertItem item => (transaction.insertItem item).map fun after => (true, after)
  | .updateItem item => (transaction.updateItem item).map fun after => (true, after)
  | .deleteItem id => .ok (transaction.deleteItem id)
  | .insertMembership membership =>
      (transaction.insertMembership membership).map fun after => (true, after)
  | .updateMembership membership =>
      (transaction.updateMembership membership).map fun after => (true, after)
  | .deleteMembership id => .ok (transaction.deleteMembership id)
  | .savepoint => .ok (true, transaction.savepoint)
  | .releaseSavepoint => transaction.releaseSavepoint.map fun after => (true, after)
  | .rollbackToSavepoint => transaction.rollbackToSavepoint.map fun after => (true, after)

def rollback (transaction : Transaction) : Tables := (transaction.undoTo 0).tables

def itemChange (tables : Tables) (id : Id) : Change :=
  match tables.items[id]? with
  | some item => .putItem item
  | none => .deleteItem id

def membershipChange (tables : Tables) (id : Id) : Change :=
  match tables.memberships[id]? with
  | some membership => .putMembership membership
  | none => .deleteMembership id

def changesFrom (tables : Tables) : List Id → List Undo → List Change
  | _, [] => []
  | seen, .item id _ :: rest =>
      if id ∈ seen then changesFrom tables seen rest
      else itemChange tables id :: changesFrom tables (id :: seen) rest
  | seen, .membership id _ :: rest =>
      if id ∈ seen then changesFrom tables seen rest
      else membershipChange tables id :: changesFrom tables (id :: seen) rest

/-- The final state of every row written, in the order of the first writes. An identifier counts
once, whether it names an item or a membership. -/
def changes (transaction : Transaction) : List Change :=
  changesFrom transaction.tables [] transaction.log.reverse

end Transaction

end SharedTree
