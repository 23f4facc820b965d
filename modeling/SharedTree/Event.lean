import SharedTree.Hook
import SharedTree.Task
/-!
Events, published after a task or a subtask commits. A subscriber who does not keep up loses the
oldest ones.
-/
namespace SharedTree

inductive Event where
  | itemCreated (id : Id) (parent : Option Id)
  | itemUpdated (id : Id)
  | itemDeleted (id : Id)
  | itemMoved (id : Id) (newParent : Option Id)
  | itemCopied (source copy : Id)
  | membershipCreated (id item account : Id) (permission : Permission)
  | membershipUpdated (id : Id) (permission : Permission)
  | membershipDeleted (id item account : Id)
deriving DecidableEq

namespace Event

def toJson : Event → Json
  | itemCreated id parent =>
      .object [("type", .string "ItemCreated"), ("id", id.toJson), ("parent", .ofOption Id.toJson parent)]
  | itemUpdated id => .object [("type", .string "ItemUpdated"), ("id", id.toJson)]
  | itemDeleted id => .object [("type", .string "ItemDeleted"), ("id", id.toJson)]
  | itemMoved id newParent =>
      .object [("type", .string "ItemMoved"), ("id", id.toJson),
        ("new_parent", .ofOption Id.toJson newParent)]
  | itemCopied source copy =>
      .object [("type", .string "ItemCopied"), ("source", source.toJson), ("copy", copy.toJson)]
  | membershipCreated id item account permission =>
      .object [("type", .string "MembershipCreated"), ("id", id.toJson), ("item", item.toJson),
        ("account", account.toJson), ("permission", permission.toJson)]
  | membershipUpdated id permission =>
      .object [("type", .string "MembershipUpdated"), ("id", id.toJson),
        ("permission", permission.toJson)]
  | membershipDeleted id item account =>
      .object [("type", .string "MembershipDeleted"), ("id", id.toJson), ("item", item.toJson),
        ("account", account.toJson)]

def capacity : Nat := 128

def received (published : List Event) : Nat × List Event :=
  let lost := published.length - capacity
  (lost, published.drop lost)

def feed (published : List Event) : List Json :=
  let (lost, left) := received published
  let gap := if lost = 0 then [] else [.object [("lagged", .natural lost)]]
  gap ++ left.map toJson

end Event

namespace TaskOutput

def event? (kind : TaskKind) : TaskOutput → Option Event
  | membershipRemoved row => some (.membershipDeleted row.id row.itemId row.account)
  | itemDeleted row _ => some (.itemDeleted row.id)
  | copied source made => some (.itemCopied source.id made.id)
  | membership row =>
      if kind = .createMembership then
        some (.membershipCreated row.id row.itemId row.account row.permission)
      else some (.membershipUpdated row.id row.permission)
  | item row =>
      match kind with
      | .createItem => some (.itemCreated row.id row.parentId?)
      | .updateItem => some (.itemUpdated row.id)
      | .moveItem => some (.itemMoved row.id row.parentId?)
      | _ => none
  | unchanged => none

def payload? : TaskOutput → Option HookPayload
  | item row => some (.item row)
  | itemDeleted row _ => some (.item row)
  | copied source made => some (.copy source made)
  | membership row => some (.membership row)
  | membershipRemoved row => some (.membership row)
  | unchanged => none

/-- The outputs to tell of, each with its kind: before a deleted item the memberships that went
with it. -/
def announced (kind : TaskKind) : TaskOutput → List (TaskKind × TaskOutput)
  | itemDeleted row memberships =>
      memberships.map (fun membership => (.deleteMembership, membershipRemoved membership)) ++
        [(kind, itemDeleted row memberships)]
  | output => [(kind, output)]

end TaskOutput

end SharedTree
