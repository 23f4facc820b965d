import SharedTree.Item
import SharedTree.Permission
/-!
Memberships: the permission of an account on an item and, unless a row further down says otherwise,
on everything below it.
-/
namespace SharedTree

structure Membership where
  id : Id
  itemPath : Path
  account : Id
  permission : Permission
  creator : Id
  createdAt : Instant
  updatedAt : Instant
deriving DecidableEq

def Permission.toJson (permission : Permission) : Json := .string permission.name

def Permission.ofCase? (caseName? : Json → Option String) (value : Json) : Option Permission :=
  (caseName? value).bind ofName?

def Permission.ofJson? : Json → Option Permission := ofCase? Json.caseName?

namespace Membership

def make (id : Id) (itemPath : Path) (account : Id) (permission : Permission) (creator : Id)
    (now : Instant) : Membership :=
  { id, itemPath, account, permission, creator, createdAt := now, updatedAt := now }

def itemId (membership : Membership) : Id := membership.itemPath.id

def members (membership : Membership) : List (String × Json) :=
  [("id", membership.id.toJson), ("item_path", membership.itemPath.toJson),
    ("account_id", membership.account.toJson), ("permission", membership.permission.toJson),
    ("creator_id", membership.creator.toJson), ("created_at", membership.createdAt.toJson),
    ("updated_at", membership.updatedAt.toJson)]

def toJson (membership : Membership) : Json := .object membership.members

def fieldNames : List String :=
  ["id", "item_path", "account_id", "permission", "creator_id", "created_at", "updated_at"]

def ofFields? (caseName? : Json → Option String) (value : Json) : Option Membership := do
  match ← value.fields? fieldNames fieldNames.length with
  | [id, itemPath, account, permission, creator, createdAt, updatedAt] =>
      some
        { id := ← Json.required? Id.ofJson? id
          itemPath := ← Json.required? Path.ofJson? itemPath
          account := ← Json.required? Id.ofJson? account
          permission := ← Json.required? (Permission.ofCase? caseName?) permission
          creator := ← Json.required? Id.ofJson? creator
          createdAt := ← Json.required? Instant.ofJson? createdAt
          updatedAt := ← Json.required? Instant.ofJson? updatedAt }
  | _ => none

def ofJson? : Json → Option Membership := ofFields? Json.caseName?

def ofText? : List UInt8 → Option Membership := Json.record? fieldNames ofJson?

end Membership

end SharedTree
