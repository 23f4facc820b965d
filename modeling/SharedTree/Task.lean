import SharedTree.Membership
import SharedTree.Task.Kind
/-!
Tasks, the single-row subtasks that some of them are split into, and what comes of either.
-/
namespace SharedTree

/-- What an account asks for. Without a target, an item is moved or copied to the top level. -/
inductive Task where
  | createItem (new : NewItem)
  | updateItem (id : Id) (patch : ItemPatch)
  | deleteItem (id : Id)
  | moveItem (id : Id) (under : Option Id)
  | copyItem (id : Id) (under : Option Id)
  | createMembership (item account : Id) (permission : Permission)
  | updateMembership (id : Id) (permission : Permission)
  | deleteMembership (id : Id) (purgeBelow : Bool)
deriving DecidableEq

/-- What is done to one row. A copy goes to a given path, whose last label is its identifier. -/
inductive SubTask where
  | deleteItem (id : Id)
  | copyItem (source : Id) (path : Path) (top : Bool)
  | updateMembership (id : Id) (permission : Permission)
  | deleteMembership (id : Id)
deriving DecidableEq

inductive TaskOutput where
  | item (row : Item)
  | itemDeleted (row : Item) (memberships : List Membership)
  | copied (source made : Item)
  | membership (row : Membership)
  | membershipRemoved (row : Membership)
  | unchanged
deriving DecidableEq

inductive TaskStep where
  | done (output : TaskOutput)
  | delegated (subtasks : List SubTask)
deriving DecidableEq

namespace Task

def kind : Task → TaskKind
  | createItem _ => .createItem
  | updateItem _ _ => .updateItem
  | deleteItem _ => .deleteItem
  | moveItem _ _ => .moveItem
  | copyItem _ _ => .copyItem
  | createMembership _ _ _ => .createMembership
  | updateMembership _ _ => .updateMembership
  | deleteMembership _ _ => .deleteMembership

def target? : Task → Option Id
  | createItem _ => none
  | updateItem id _ => some id
  | deleteItem id => some id
  | moveItem id _ => some id
  | copyItem id _ => some id
  | createMembership item _ _ => some item
  | updateMembership id _ => some id
  | deleteMembership id _ => some id

end Task

namespace SubTask

def kind : SubTask → TaskKind
  | deleteItem _ => .deleteItem
  | copyItem _ _ _ => .copyItem
  | updateMembership _ _ => .updateMembership
  | deleteMembership _ => .deleteMembership

def target : SubTask → Id
  | deleteItem id => id
  | copyItem source _ _ => source
  | updateMembership id _ => id
  | deleteMembership id => id

end SubTask

namespace TaskOutput

def item? : TaskOutput → Option Item
  | item row => some row
  | itemDeleted row _ => some row
  | copied _ made => some made
  | _ => none

def membership? : TaskOutput → Option Membership
  | membership row => some row
  | membershipRemoved row => some row
  | _ => none

def subject? (output : TaskOutput) : Option Id :=
  match output.item? with
  | some row => some row.id
  | none => output.membership?.map Membership.id

def tag : TaskOutput → String
  | item _ => "item"
  | itemDeleted _ _ => "item_deleted"
  | copied _ _ => "copied"
  | membership _ => "membership"
  | membershipRemoved _ => "membership_removed"
  | unchanged => "unchanged"

def members : TaskOutput → List (String × Json)
  | item row => row.members
  | itemDeleted row memberships =>
      [("item", row.toJson), ("memberships", .array (memberships.map Membership.toJson))]
  | copied source made => [("source", source.toJson), ("copy", made.toJson)]
  | membership row => row.members
  | membershipRemoved row => row.members
  | unchanged => []

def toJson (output : TaskOutput) : Json :=
  .object (("result", .string output.tag) :: output.members)

end TaskOutput

end SharedTree
