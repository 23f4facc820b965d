import SharedTree.Path
import SharedTree.Instant
import SharedTree.Json.Record
/-!
Items of the tree and what is said when one is created or changed. Only folders hold other items;
the parent of an item is told by its path.
-/
namespace SharedTree

inductive ItemType where
  | folder
  | document
  | file
  | link
  | app
  | shortcut
  | h5p
  | etherpad
deriving DecidableEq

namespace ItemType

def name : ItemType → String
  | folder => "folder"
  | document => "document"
  | file => "file"
  | link => "link"
  | app => "app"
  | shortcut => "shortcut"
  | h5p => "h5p"
  | etherpad => "etherpad"

def all : List ItemType := [folder, document, file, link, app, shortcut, h5p, etherpad]

def ofName? (text : String) : Option ItemType := all.find? fun kind => kind.name == text

def named (text : String) : Except String ItemType :=
  let lowered := String.ofList (Text.lowerAscii text.toList)
  match ofName? lowered with
  | some kind => .ok kind
  | none => .error lowered

end ItemType

structure Extra where
  value : Json
  canonical : value.isCanonical = true
deriving DecidableEq

namespace Extra

def null : Extra := ⟨.null, rfl⟩

/-- The attributes that a value stands for; of equal keys the last counts. -/
def ofJson? (value : Json) : Option Extra :=
  if canonical : value.normalize.isCanonical = true then some ⟨value.normalize, canonical⟩ else none

theorem ofJson_value (extra : Extra) : ofJson? extra.value = some extra := by
  simp [ofJson?, Json.normalize_canonical extra.value extra.canonical, extra.canonical]

end Extra

structure Item where
  id : Id
  path : Path
  name : String
  type : ItemType
  extra : Extra
  creator : Id
  createdAt : Instant
  updatedAt : Instant
deriving DecidableEq

structure NewItem where
  name : String
  type : ItemType
  extra : Extra
  parent : Option Id
deriving DecidableEq

structure ItemPatch where
  name : Option String
  extra : Option Extra
deriving DecidableEq

namespace Item

def make (id : Id) (path : Path) (name : String) (type : ItemType) (extra : Extra) (creator : Id)
    (now : Instant) : Item :=
  { id, path, name, type, extra, creator, createdAt := now, updatedAt := now }

def parentId? (item : Item) : Option Id := item.path.parentId?

def isFolder (item : Item) : Bool := item.type == .folder

end Item

namespace NewItem

def ofType (name : String) (type : ItemType) : NewItem := ⟨name, type, .null, none⟩

def folder (name : String) : NewItem := ofType name .folder

def under (new : NewItem) (parent : Id) : NewItem := { new with parent := some parent }

end NewItem

def ItemPatch.apply (patch : ItemPatch) (now : Instant) (item : Item) : Item :=
  { item with
    name := patch.name.getD item.name
    extra := patch.extra.getD item.extra
    updatedAt := now }

/-! Written forms. -/

def Id.toJson (id : Id) : Json := .chars id.text

def Id.ofJson? (value : Json) : Option Id := value.text?.bind fun text => parse? text.toList

def Path.toJson (path : Path) : Json := .chars path.text

def Path.ofJson? (value : Json) : Option Path := value.text?.bind fun text => parse? text.toList

def Instant.toJson (instant : Instant) : Json := .chars instant.text

def Instant.ofJson? (value : Json) : Option Instant := value.text?.bind fun text => parse? text.toList

def ItemType.toJson (type : ItemType) : Json := .string type.name

def ItemType.ofCase? (caseName? : Json → Option String) (value : Json) : Option ItemType :=
  (caseName? value).bind ofName?

def ItemType.ofJson? : Json → Option ItemType := ofCase? Json.caseName?

namespace Item

def members (item : Item) : List (String × Json) :=
  [("id", item.id.toJson), ("path", item.path.toJson), ("name", .string item.name),
    ("type", item.type.toJson), ("extra", item.extra.value), ("creator_id", item.creator.toJson),
    ("created_at", item.createdAt.toJson), ("updated_at", item.updatedAt.toJson)]

def toJson (item : Item) : Json := .object item.members

def fieldNames : List String :=
  ["id", "path", "name", "type", "extra", "creator_id", "created_at", "updated_at"]

/-- An item out of a JSON value, given how a case is named there; only the attributes may be
missing. -/
def ofFields? (caseName? : Json → Option String) (value : Json) : Option Item := do
  match ← value.fields? fieldNames fieldNames.length with
  | [id, path, name, type, extra, creator, createdAt, updatedAt] =>
      some
        { id := ← Json.required? Id.ofJson? id
          path := ← Json.required? Path.ofJson? path
          name := ← Json.required? Json.text? name
          type := ← Json.required? (ItemType.ofCase? caseName?) type
          extra := ← Json.orElse? Extra.ofJson? .null extra
          creator := ← Json.required? Id.ofJson? creator
          createdAt := ← Json.required? Instant.ofJson? createdAt
          updatedAt := ← Json.required? Instant.ofJson? updatedAt }
  | _ => none

def ofJson? : Json → Option Item := ofFields? Json.caseName?

def ofText? : List UInt8 → Option Item := Json.record? fieldNames ofJson?

end Item

namespace NewItem

def toJson (new : NewItem) : Json :=
  .object [("name", .string new.name), ("type", new.type.toJson), ("extra", new.extra.value),
    ("parent", .ofOption Id.toJson new.parent)]

def fieldNames : List String := ["name", "type", "extra", "parent"]

def ofJson? (value : Json) : Option NewItem := do
  match ← value.fields? fieldNames fieldNames.length with
  | [name, type, extra, parent] =>
      some
        { name := ← Json.required? Json.text? name
          type := ← Json.required? ItemType.ofJson? type
          extra := ← Json.orElse? Extra.ofJson? .null extra
          parent := ← Json.orElse? (Json.nullable? Id.ofJson?) none parent }
  | _ => none

def ofText? : List UInt8 → Option NewItem := Json.record? fieldNames ofJson?

end NewItem

namespace ItemPatch

def toJson (patch : ItemPatch) : Json :=
  .object [("name", .ofOption .string patch.name), ("extra", .ofOption Extra.value patch.extra)]

def fieldNames : List String := ["name", "extra"]

/-- A patch out of a JSON value; what is missing or `null` stays as it is. -/
def ofJson? (value : Json) : Option ItemPatch := do
  match ← value.fields? fieldNames fieldNames.length with
  | [name, extra] =>
      some
        { name := ← Json.orElse? (Json.nullable? Json.text?) none name
          extra := ← Json.orElse? (Json.nullable? Extra.ofJson?) none extra }
  | _ => none

def ofText? : List UInt8 → Option ItemPatch := Json.record? fieldNames ofJson?

end ItemPatch

end SharedTree
