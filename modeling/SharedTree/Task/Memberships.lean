import SharedTree.Task
import SharedTree.Task.Action
/-!
What the tasks on memberships do. A row must exceed what its account inherits, so writing one can
make it or rows below it redundant; these go away.
-/
namespace SharedTree.Action

def deleteMemberships (memberships : List Membership) : Action Unit :=
  memberships.forM fun membership => do
    let _ ← write (.deleteMembership membership.id)

def createMembership (scene : Scene) (itemId account : Id) (permission : Permission) :
    Action TaskOutput := do
  let item ← demand fun tables => tables.getItemFor scene.actor .admin itemId
  let limit := scene.settings.maxItemMembershipsForDelete
  match ← demand fun tables => tables.planWrite account item.path permission limit with
  | .redundant none => return .unchanged
  | .redundant (some existing) =>
      callHooks scene .createMembership (.membership existing)
      let _ ← write (.deleteMembership existing.id)
      return .membershipRemoved existing
  | .write (some existing) _ => throw (.modifyExistingMembership existing.id)
  | .write none redundantBelow =>
      let membership :=
        Membership.make (← draw scene) item.path account permission scene.actor scene.now
      callHooks scene .createMembership (.membership membership)
      deleteMemberships redundantBelow
      let _ ← write (.insertMembership membership)
      return .membership membership

def changePermission (scene : Scene) (before : Membership) (permission : Permission) :
    Action TaskOutput := do
  let membership : Membership := { before with permission, updatedAt := scene.now }
  callHooks scene .updateMembership (.membership membership)
  let _ ← write (.updateMembership membership)
  return .membership membership

/-- Changes the permission of a membership; with rows that this makes redundant it is planned as a
subtask for each row. -/
def updateMembership (scene : Scene) (id : Id) (permission : Permission) : Action TaskStep := do
  let membership ← demand fun tables => tables.getMembership id
  let item ← demand fun tables => tables.getItemAt membership.itemPath
  let _ ← demand fun tables => tables.require scene.actor item .admin
  if membership.permission = permission then return .done .unchanged
  let limit := scene.settings.maxItemMembershipsForDelete
  match ← demand fun tables =>
      tables.planWrite membership.account membership.itemPath permission limit with
  | .redundant _ => return .delegated [.deleteMembership id]
  | .write _ [] => return .done (← changePermission scene membership permission)
  | .write _ redundantBelow =>
      return .delegated
        (redundantBelow.map (fun below => .deleteMembership below.id) ++
          [.updateMembership id permission])

def updateMembershipRow (scene : Scene) (id : Id) (permission : Permission) :
    Action TaskOutput := do
  let membership ← demand fun tables => tables.getMembership id
  changePermission scene membership permission

def removeMembership (scene : Scene) (membership : Membership) : Action TaskOutput := do
  callHooks scene .deleteMembership (.membership membership)
  let _ ← write (.deleteMembership membership.id)
  return .membershipRemoved membership

/-- Removes a membership. With `purgeBelow` the account's memberships further down are removed
first, each by a subtask. An account may always remove its own. -/
def deleteMembership (scene : Scene) (id : Id) (purgeBelow : Bool) : Action TaskStep := do
  let membership ← demand fun tables => tables.getMembership id
  if membership.account ≠ scene.actor then
    let item ← demand fun tables => tables.getItemAt membership.itemPath
    let _ ← demand fun tables => tables.require scene.actor item .admin
  if purgeBelow then
    let below ← ask fun tables => tables.membershipsBelow membership.account membership.itemPath
    demand fun _ => ensureWithin (below.length + 1) scene.settings.maxItemMembershipsForDelete
    return .delegated ((below ++ [membership]).map fun row => .deleteMembership row.id)
  else return .done (← removeMembership scene membership)

def deleteMembershipRow (scene : Scene) (id : Id) : Action TaskOutput := do
  let membership ← demand fun tables => tables.getMembership id
  removeMembership scene membership

end SharedTree.Action
