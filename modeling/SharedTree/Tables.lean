import Std.Data.ExtTreeMap
import SharedTree.Change
/-!
The rows of a store and two indexes over them by path. Each primitive keeps an index entry only if
it belongs to the row at hand, so that rows which trade paths in the middle of a transaction do not
lose their entries.
-/
namespace SharedTree

/-- Items and memberships by identifier; the item on each path; the membership of each account on
each path. No path has an empty set of accounts. -/
@[ext]
structure Tables where
  items : Std.ExtTreeMap Id Item
  itemPaths : Std.ExtTreeMap Path Id
  memberships : Std.ExtTreeMap Id Membership
  membershipPaths : Std.ExtTreeMap Path (Std.ExtTreeMap Id Id)

structure Snapshot where
  items : List Item
  memberships : List Membership
deriving DecidableEq

namespace Tables

def empty : Tables := ⟨∅, ∅, ∅, ∅⟩

instance : Inhabited Tables := ⟨empty⟩

def removeItem (tables : Tables) (id : Id) : Tables :=
  match tables.items[id]? with
  | none => tables
  | some old =>
      { tables with
        items := tables.items.erase id
        itemPaths :=
          if tables.itemPaths[old.path]? = some id then tables.itemPaths.erase old.path
          else tables.itemPaths }

def putItem (tables : Tables) (item : Item) : Tables :=
  let cleared := tables.removeItem item.id
  { cleared with
    items := cleared.items.insert item.id item
    itemPaths := cleared.itemPaths.insert item.path item.id }

def unlink (index : Std.ExtTreeMap Path (Std.ExtTreeMap Id Id)) (path : Path) (account id : Id) :
    Std.ExtTreeMap Path (Std.ExtTreeMap Id Id) :=
  match index[path]? with
  | none => index
  | some accounts =>
      let left := if accounts[account]? = some id then accounts.erase account else accounts
      if left.isEmpty then index.erase path else index.insert path left

def link (index : Std.ExtTreeMap Path (Std.ExtTreeMap Id Id)) (path : Path) (account id : Id) :
    Std.ExtTreeMap Path (Std.ExtTreeMap Id Id) :=
  index.insert path ((index[path]?.getD ∅).insert account id)

def removeMembership (tables : Tables) (id : Id) : Tables :=
  match tables.memberships[id]? with
  | none => tables
  | some old =>
      { tables with
        memberships := tables.memberships.erase id
        membershipPaths := unlink tables.membershipPaths old.itemPath old.account id }

def putMembership (tables : Tables) (membership : Membership) : Tables :=
  let cleared := tables.removeMembership membership.id
  { cleared with
    memberships := cleared.memberships.insert membership.id membership
    membershipPaths :=
      link cleared.membershipPaths membership.itemPath membership.account membership.id }

/-- The tables after a change, which is not checked against the other rows. -/
def apply (tables : Tables) : Change → Tables
  | .putItem item => tables.putItem item
  | .deleteItem id => tables.removeItem id
  | .putMembership membership => tables.putMembership membership
  | .deleteMembership id => tables.removeMembership id

def applyAll (tables : Tables) (changes : List Change) : Tables := changes.foldl apply tables

def membershipOrder (a b : Membership) : Ordering :=
  (compare a.itemPath b.itemPath).then (compare a.account b.account)

def snapshot (tables : Tables) : Snapshot where
  items := tables.items.values.mergeSort fun a b => (compare a.path b.path).isLE
  memberships := tables.memberships.values.mergeSort fun a b => (membershipOrder a b).isLE

end Tables

def Snapshot.changes (snapshot : Snapshot) : List Change :=
  snapshot.items.map .putItem ++ snapshot.memberships.map .putMembership

def Snapshot.toJson (snapshot : Snapshot) : Json :=
  .object [("items", .array (snapshot.items.map Item.toJson)),
    ("memberships", .array (snapshot.memberships.map Membership.toJson))]

end SharedTree
