import SharedTree.Engine
/-!
Requests to the engine beside bare tasks: what an account may see, and the tasks that answer with
the one row they wrote.
-/
namespace SharedTree

namespace Tables

def topmost (memberships : List Membership) : List Membership :=
  memberships.foldl
    (fun tops membership =>
      if tops.any fun top => top.itemPath.isAncestorOf membership.itemPath then tops
      else tops ++ [membership])
    []

def sharedItems (tables : Tables) (account : Id) : Except Error (List Item) :=
  (topmost (tables.membershipsOf account)).mapM fun membership =>
    tables.getItemAt membership.itemPath

def permissionOn? (tables : Tables) (account id : Id) : Except Error (Option Permission) := do
  let item ← tables.getItem id
  return tables.effectivePermission? account item.path

def permissionOf? (tables : Tables) (actor account id : Id) :
    Except Error (Option Permission) := do
  if actor ≠ account then
    let _ ← tables.getItemFor actor .read id
  tables.permissionOn? account id

def childrenFor (tables : Tables) (actor id : Id) : Except Error (List Item) := do
  return tables.children (← tables.getItemFor actor .read id)

def descendantsFor (tables : Tables) (actor id : Id) : Except Error (List Item) := do
  return tables.descendants (← tables.getItemFor actor .read id)

def ancestorsFor (tables : Tables) (actor id : Id) : Except Error (List Item) := do
  tables.ancestors (← tables.getItemFor actor .read id)

def membershipsFor (tables : Tables) (actor id : Id) : Except Error (List Membership) := do
  return tables.effectiveAt (← tables.getItemFor actor .read id).path

def membershipFor (tables : Tables) (actor id : Id) : Except Error Membership := do
  let membership ← tables.getMembership id
  if membership.account ≠ actor then
    let item ← tables.getItemAt membership.itemPath
    let _ ← tables.require actor item .read
  return membership

end Tables

def TaskOutput.writtenItem : TaskOutput → Except Error Item
  | item row => .ok row
  | _ => .error (.storage .notAnItem)

def TaskOutput.writtenMembership? : TaskOutput → Option Membership
  | membership row => some row
  | _ => none

namespace Engine

def runForOutput (engine : Engine) (scene : Scene) (task : Task) :
    Except Error TaskOutput × Engine :=
  match engine.run scene task with
  | (.ok cascade, after) => (cascade.lastOutput, after)
  | (.error cause, after) => (.error cause, after)

def runForItem (engine : Engine) (scene : Scene) (task : Task) : Except Error Item × Engine :=
  let (output, after) := engine.runForOutput scene task
  (output.bind TaskOutput.writtenItem, after)

/-- Runs a task for the membership that it writes; there is none if the account already inherits
the permission. -/
def runForMembership (engine : Engine) (scene : Scene) (task : Task) :
    Except Error (Option Membership) × Engine :=
  let (output, after) := engine.runForOutput scene task
  (output.map TaskOutput.writtenMembership?, after)

end Engine

end SharedTree
