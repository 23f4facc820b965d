import SharedTree.Membership
/-!
Changes of single rows: a row as it is from now on, or a row that is gone.
-/
namespace SharedTree

inductive Change where
  | putItem (item : Item)
  | deleteItem (id : Id)
  | putMembership (membership : Membership)
  | deleteMembership (id : Id)
deriving DecidableEq

namespace Change

def toJson : Change → Json
  | putItem item => .object [("op", .string "put_item"), ("item", item.toJson)]
  | deleteItem id => .object [("op", .string "delete_item"), ("id", id.toJson)]
  | putMembership membership =>
      .object [("op", .string "put_membership"), ("membership", membership.toJson)]
  | deleteMembership id => .object [("op", .string "delete_membership"), ("id", id.toJson)]

/-- The one field of a change of the given name. Inside it an empty object is as good as `null`
under the name of a case. -/
def ofField? (op : String) (rest : Json) : Option Change :=
  let field {Value : Type} (name : String) (read : Json → Option Value) : Option Value :=
    match rest.fields? [name] 1 with
    | some [value] => Json.required? read value
    | _ => none
  if op = "put_item" then (field "item" (Item.ofFields? Json.looseCaseName?)).map putItem
  else if op = "delete_item" then (field "id" Id.ofJson?).map deleteItem
  else if op = "put_membership" then
    (field "membership" (Membership.ofFields? Json.looseCaseName?)).map putMembership
  else if op = "delete_membership" then (field "id" Id.ofJson?).map deleteMembership
  else none

/-- A change out of a JSON value. `op` may stand anywhere in an object, but first in an array. -/
def ofJson? : Json → Option Change
  | .object members =>
      match Json.member? "op" members with
      | some (some (.string op)) =>
          ofField? op (.object (members.filter fun member => member.1 != "op"))
      | _ => none
  | .array (.string op :: rest) => ofField? op (.array rest)
  | _ => none

end Change

end SharedTree
