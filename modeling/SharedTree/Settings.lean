import SharedTree.Error
/-!
The limits of the engine and how it commits a task of several steps. Settings come from variables
or from a JSON file, defaults filling what is left open; every limit must be positive.
-/
namespace SharedTree

/-- How the steps of a task are committed: each on its own, so that what was done before a failure
stays, or all together. -/
inductive CascadeMode where
  | stepwise
  | atomic
deriving DecidableEq

namespace CascadeMode

def name : CascadeMode → String
  | stepwise => "partial"
  | atomic => "atomic"

def all : List CascadeMode := [stepwise, atomic]

def ofName? (text : String) : Option CascadeMode := all.find? fun mode => mode.name == text

def named (text : String) : Except Error CascadeMode :=
  let lowered := String.ofList (Text.lowerAscii text.toList)
  match ofName? lowered with
  | some mode => .ok mode
  | none => .error (.settings (.unknownCascadeMode lowered))

def toJson (mode : CascadeMode) : Json := .string mode.name

def ofJson? (value : Json) : Option CascadeMode := value.caseName?.bind ofName?

end CascadeMode

/-- The limits of the engine. `maxTreeLevels` counts the labels of a path, the root's included. -/
structure Settings where
  maxDescendantsForDelete : Nat := 5
  maxDescendantsForCopy : Nat := 20
  maxDescendantsForMove : Nat := 15
  maxItemMembershipsForDelete : Nat := 10
  maxTreeLevels : Nat := 15
  cascadeMode : CascadeMode := .stepwise
deriving DecidableEq

namespace Settings

def limits (settings : Settings) : List (String × Nat) :=
  [("max_descendants_for_delete", settings.maxDescendantsForDelete),
    ("max_descendants_for_copy", settings.maxDescendantsForCopy),
    ("max_descendants_for_move", settings.maxDescendantsForMove),
    ("max_item_memberships_for_delete", settings.maxItemMembershipsForDelete),
    ("max_tree_levels", settings.maxTreeLevels)]

def validate (settings : Settings) : Except Error Settings :=
  match settings.limits.find? fun limit => limit.2 == 0 with
  | some limit => .error (.settings (.notPositive limit.1))
  | none => .ok settings

def readLimit? (raw : List Char) : Option Nat :=
  let unsigned := match Text.trim raw with
    | '+' :: rest => rest
    | rest => rest
  match Decimal.read? unsigned with
  | some number => if number < 18446744073709551616 then some number else none
  | none => none

def limitFrom (lookup : String → Option String) (setting : String) (absent : Nat) :
    Except Error Nat :=
  match lookup setting with
  | none => .ok absent
  | some raw =>
      match readLimit? raw.toList with
      | some number => .ok number
      | none => .error (.settings (.notANumber setting raw))

/-- The settings that variables give. The first variable that cannot be read is reported before any
limit that is not positive. -/
def fromVariables (lookup : String → Option String) : Except Error Settings := do
  let absent : Settings := {}
  let forDelete ←
    limitFrom lookup "GROVE_MAX_DESCENDANTS_FOR_DELETE" absent.maxDescendantsForDelete
  let forCopy ← limitFrom lookup "GROVE_MAX_DESCENDANTS_FOR_COPY" absent.maxDescendantsForCopy
  let forMove ← limitFrom lookup "GROVE_MAX_DESCENDANTS_FOR_MOVE" absent.maxDescendantsForMove
  let memberships ←
    limitFrom lookup "GROVE_MAX_ITEM_MEMBERSHIPS_FOR_DELETE" absent.maxItemMembershipsForDelete
  let levels ← limitFrom lookup "GROVE_MAX_TREE_LEVELS" absent.maxTreeLevels
  let mode ← match lookup "GROVE_CASCADE_MODE" with
    | none => .ok absent.cascadeMode
    | some raw => CascadeMode.named (String.ofList (Text.trim raw.toList))
  validate
    { maxDescendantsForDelete := forDelete
      maxDescendantsForCopy := forCopy
      maxDescendantsForMove := forMove
      maxItemMembershipsForDelete := memberships
      maxTreeLevels := levels
      cascadeMode := mode }

def toJson (settings : Settings) : Json :=
  .object
    (settings.limits.map (fun limit => (limit.1, .natural limit.2)) ++
      [("cascade_mode", settings.cascadeMode.toJson)])

def fieldNames : List String := (limits {}).map Prod.fst ++ ["cascade_mode"]

def ofJson? (value : Json) : Option Settings := do
  let absent : Settings := {}
  match ← value.fields? fieldNames 0 with
  | [forDelete, forCopy, forMove, memberships, levels, mode] =>
      some
        { maxDescendantsForDelete :=
            ← Json.orElse? Json.natural? absent.maxDescendantsForDelete forDelete
          maxDescendantsForCopy := ← Json.orElse? Json.natural? absent.maxDescendantsForCopy forCopy
          maxDescendantsForMove := ← Json.orElse? Json.natural? absent.maxDescendantsForMove forMove
          maxItemMembershipsForDelete :=
            ← Json.orElse? Json.natural? absent.maxItemMembershipsForDelete memberships
          maxTreeLevels := ← Json.orElse? Json.natural? absent.maxTreeLevels levels
          cascadeMode := ← Json.orElse? CascadeMode.ofJson? absent.cascadeMode mode }
  | _ => none

def ofText? : List UInt8 → Option Settings := Json.record? fieldNames ofJson?

def fromFile (file : String) (content : Except FileFault (List Char)) : Except Error Settings :=
  match content with
  | .error cause => .error (.settings (.unreadable file cause))
  | .ok text =>
      match ofText? (Utf8.encode text) with
      | some settings => settings.validate
      | none => .error (.settings (.malformed file))

end Settings

end SharedTree
