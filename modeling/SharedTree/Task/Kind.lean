import SharedTree.Json.Record
/-!
The kinds of tasks. Hooks are registered by kind, and reports and events name it.
-/
namespace SharedTree

inductive TaskKind where
  | createItem
  | updateItem
  | deleteItem
  | moveItem
  | copyItem
  | createMembership
  | updateMembership
  | deleteMembership
deriving DecidableEq

namespace TaskKind

def name : TaskKind → String
  | createItem => "create-item"
  | updateItem => "update-item"
  | deleteItem => "delete-item"
  | moveItem => "move-item"
  | copyItem => "copy-item"
  | createMembership => "create-membership"
  | updateMembership => "update-membership"
  | deleteMembership => "delete-membership"

def all : List TaskKind :=
  [createItem, updateItem, deleteItem, moveItem, copyItem, createMembership, updateMembership,
    deleteMembership]

def ofName? (text : String) : Option TaskKind := all.find? fun kind => kind.name == text

def toJson (kind : TaskKind) : Json := .string kind.name

def ofJson? (value : Json) : Option TaskKind := value.caseName?.bind ofName?

end TaskKind

end SharedTree
