import SharedTree.Tables
/-!
Questions to the tables. Those about a subtree are answered by the stretch of an index that lies
between a path and the end of its range.
-/
namespace SharedTree.Tables

def item? (tables : Tables) (id : Id) : Option Item := tables.items[id]?

def itemAt? (tables : Tables) (path : Path) : Option Item :=
  tables.itemPaths[path]?.bind fun id => tables.items[id]?

def stretch {Entry : Type} (index : Std.ExtTreeMap Path Entry) (path : Path) : List (Path × Entry) :=
  (index.toList.filter fun entry => path.inRange entry.1).filter fun entry => path.covers entry.1

def itemsUnder (tables : Tables) (path : Path) : List Item :=
  (stretch tables.itemPaths path).filterMap fun entry => tables.items[entry.2]?

def membership? (tables : Tables) (id : Id) : Option Membership := tables.memberships[id]?

def membershipIdAt? (tables : Tables) (account : Id) (path : Path) : Option Id :=
  tables.membershipPaths[path]?.bind fun accounts => accounts[account]?

def membershipAt? (tables : Tables) (account : Id) (path : Path) : Option Membership :=
  (tables.membershipIdAt? account path).bind fun id => tables.memberships[id]?

def membershipsIn (tables : Tables) (accounts : Std.ExtTreeMap Id Id) : List Membership :=
  accounts.toList.filterMap fun entry => tables.memberships[entry.2]?

def membershipsUnder (tables : Tables) (path : Path) : List Membership :=
  (stretch tables.membershipPaths path).flatMap fun entry => tables.membershipsIn entry.2

def membershipsUnderOf (tables : Tables) (account : Id) (path : Path) : List Membership :=
  (stretch tables.membershipPaths path).filterMap fun entry =>
    entry.2[account]?.bind fun id => tables.memberships[id]?

def membershipsCovering (tables : Tables) (path : Path) : List Membership :=
  path.lineage.flatMap fun above =>
    match tables.membershipPaths[above]? with
    | some accounts => tables.membershipsIn accounts
    | none => []

def closestMembership? (tables : Tables) (account : Id) (path : Path) : Option Membership :=
  (path.lineage.reverse.findSome? fun above => tables.membershipIdAt? account above).bind
    fun id => tables.memberships[id]?

def membershipsOf (tables : Tables) (account : Id) : List Membership :=
  (tables.memberships.values.filter fun membership => membership.account == account).mergeSort
    fun a b => (compare a.itemPath b.itemPath).isLE

end SharedTree.Tables
