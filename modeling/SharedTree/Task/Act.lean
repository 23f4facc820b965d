import SharedTree.Task.Items
import SharedTree.Task.Memberships
/-!
What tasks and subtasks do, each in one transaction.
-/
namespace SharedTree

def Task.act (scene : Scene) : Task → Action TaskStep
  | createItem new => do return .done (← Action.createItem scene new)
  | updateItem id patch => do return .done (← Action.updateItem scene id patch)
  | deleteItem id => do return .delegated (← Action.planDelete scene id)
  | moveItem id under => do return .done (← Action.moveItem scene id under)
  | copyItem id under => do return .delegated (← Action.planCopy scene id under)
  | createMembership item account permission => do
      return .done (← Action.createMembership scene item account permission)
  | updateMembership id permission => Action.updateMembership scene id permission
  | deleteMembership id purgeBelow => Action.deleteMembership scene id purgeBelow

def SubTask.act (scene : Scene) : SubTask → Action TaskOutput
  | deleteItem id => Action.deleteItemRow scene id
  | copyItem source path top => Action.copyItemRow scene source path top
  | updateMembership id permission => Action.updateMembershipRow scene id permission
  | deleteMembership id => Action.deleteMembershipRow scene id

end SharedTree
