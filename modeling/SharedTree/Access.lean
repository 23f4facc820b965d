import SharedTree.Tree
/-!
What accounts may do. The membership that counts for an account on a path is the one on the path or
on the closest path above that carries one; without any the account may do nothing.
-/
namespace SharedTree.Tables

def effectivePermission? (tables : Tables) (account : Id) (path : Path) : Option Permission :=
  (tables.closestMembership? account path).map Membership.permission

def hasPermission (tables : Tables) (account : Id) (path : Path) (required : Permission) : Bool :=
  (tables.effectivePermission? account path).any fun held => held.allows required

def require (tables : Tables) (account : Id) (item : Item) (required : Permission) :
    Except Error Permission :=
  match tables.effectivePermission? account item.path with
  | some held =>
      if held.allows required then .ok held
      else .error (.insufficientPermission account item.id required)
  | none => .error (.insufficientPermission account item.id required)

def getItemFor (tables : Tables) (account : Id) (required : Permission) (id : Id) :
    Except Error Item := do
  let item ← tables.getItem id
  let _ ← tables.require account item required
  return item

def getMembership (tables : Tables) (id : Id) : Except Error Membership :=
  match tables.membership? id with
  | some membership => .ok membership
  | none => .error (.membershipNotFound id)

def inherited? (tables : Tables) (account : Id) (path : Path) : Option Membership :=
  path.parent?.bind fun parent => tables.closestMembership? account parent

def pruningOrder (a b : Membership) : Ordering :=
  (compare b.itemPath.levels a.itemPath.levels).then (compare a.itemPath b.itemPath)

def membershipsBelow (tables : Tables) (account : Id) (path : Path) : List Membership :=
  ((tables.membershipsUnderOf account path).filter fun membership =>
    membership.itemPath != path).mergeSort fun a b => (pruningOrder a b).isLE

def lastOfAccounts (memberships : List Membership) : Std.ExtTreeMap Id Membership :=
  memberships.foldl (fun last membership => last.insert membership.account membership) ∅

def effectiveOrder (a b : Membership) : Ordering :=
  (compare a.itemPath b.itemPath).then (compare a.createdAt b.createdAt)

def effectiveAt (tables : Tables) (path : Path) : List Membership :=
  (lastOfAccounts (tables.membershipsCovering path)).values.mergeSort
    fun a b => (effectiveOrder a b).isLE

end SharedTree.Tables

namespace SharedTree

inductive WritePlan where
  /-- The account inherits just this permission, and any row of its own there goes away. -/
  | redundant (existing : Option Membership)
  /-- The row is written, and rows of the account further down that add nothing to it go away. -/
  | write (existing : Option Membership) (redundantBelow : List Membership)
deriving DecidableEq

def WritePlan.toJson : WritePlan → Json
  | redundant existing =>
      .object [("plan", .string "redundant"), ("existing", .ofOption Membership.toJson existing)]
  | write existing redundantBelow =>
      .object
        [("plan", .string "write"), ("existing", .ofOption Membership.toJson existing),
          ("redundant_below", .array (redundantBelow.map Membership.toJson))]

def ensureWithin (count limit : Nat) : Except Error Unit :=
  if limit < count then .error (.tooManyMemberships count limit) else .ok ()

/-- Plans to write a permission that no row above equals or exceeds: an equal one makes the row
redundant, a stronger one is an error. -/
def Tables.planWrite (tables : Tables) (account : Id) (path : Path) (permission : Permission)
    (limit : Nat) : Except Error WritePlan := do
  let existing := tables.membershipAt? account path
  let stands : Except Error WritePlan := do
    let below := (tables.membershipsBelow account path).filter fun membership =>
      decide (membership.permission ≤ permission)
    ensureWithin below.length limit
    return .write existing below
  match tables.inherited? account path with
  | none => stands
  | some above =>
      if permission = above.permission then return .redundant existing
      else if permission < above.permission then
        throw (.invalidPermissionLevel
          (.weakerThanInherited permission above.permission above.itemId))
      else stands

end SharedTree
