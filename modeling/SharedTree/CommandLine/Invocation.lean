import SharedTree.CommandLine.Arguments
/-!
What a command line asks for: where the journal is, which settings to use, who asks, and a command.
-/
namespace SharedTree.CommandLine

/-- The commands. Attributes are given as JSON text and looked at only when the command runs. -/
inductive Command where
  | create (name : String) (type : ItemType) (parent : Option Id) (extra : Option String)
  | display (id : Id)
  | children (id : Id)
  | descendants (id : Id)
  | update (id : Id) (name extra : Option String)
  | delete (id : Id)
  | move (id : Id) (under : Option Id)
  | copy (id : Id) (under : Option Id)
  | grant (item account : Id) (permission : Permission)
  | regrant (membership : Id) (permission : Permission)
  | revoke (membership : Id) (purgeBelow : Bool)
  | members (item : Id)
  | permission (item account : Id)
  | shared
  | compact
deriving DecidableEq

structure Invocation where
  dataDirectory : String
  settingsFile : Option String
  actor : Option Id
  command : Command
deriving DecidableEq

def accept {Value : Type} (read : String → Option Value) (text : String) : Except Refusal Value :=
  match read text with
  | some value => .ok value
  | none => .error .misuse

def acceptOption {Value : Type} (read : String → Option Value) (text : Option String) :
    Except Refusal (Option Value) :=
  text.mapM (accept read)

def leadingFlags : List Flag :=
  [⟨"data-dir", none, some .fileName⟩, ⟨"config", none, some .fileName⟩, ⟨"as", none, some .id⟩]

def commandNames : List String :=
  ["create", "show", "children", "descendants", "update", "delete", "move", "copy", "grant",
    "regrant", "revoke", "members", "permission", "shared", "compact"]

def usageOf (command : String) : Usage :=
  match command with
  | "create" =>
      { flags :=
          [⟨"type", some 't', some .itemType⟩, ⟨"parent", some 'p', some .id⟩,
            ⟨"extra", none, some .text⟩]
        operands := [.text] }
  | "update" =>
      { flags := [⟨"name", none, some .text⟩, ⟨"extra", none, some .text⟩], operands := [.id] }
  | "move" => { flags := [⟨"to", none, some .id⟩], operands := [.id] }
  | "copy" => { flags := [⟨"to", none, some .id⟩], operands := [.id] }
  | "grant" => { operands := [.id, .id, .permission] }
  | "regrant" => { operands := [.id, .permission] }
  | "revoke" => { flags := [⟨"purge-below", none, none⟩], operands := [.id] }
  | "permission" => { operands := [.id, .id] }
  | "shared" => {}
  | "compact" => {}
  | _ => { operands := [.id] }

def commandOf (name : String) (found : Matches) : Except Refusal Command :=
  match name, found.operands with
  | "create", [label] => do
      let type ← accept readType? ((found.value? "type").getD "folder")
      let parent ← acceptOption readId? (found.value? "parent")
      return .create label type parent (found.value? "extra")
  | "show", [id] => return .display (← accept readId? id)
  | "children", [id] => return .children (← accept readId? id)
  | "descendants", [id] => return .descendants (← accept readId? id)
  | "update", [id] =>
      return .update (← accept readId? id) (found.value? "name") (found.value? "extra")
  | "delete", [id] => return .delete (← accept readId? id)
  | "move", [id] => return .move (← accept readId? id) (← acceptOption readId? (found.value? "to"))
  | "copy", [id] => return .copy (← accept readId? id) (← acceptOption readId? (found.value? "to"))
  | "grant", [item, account, permission] =>
      return .grant (← accept readId? item) (← accept readId? account)
        (← accept readPermission? permission)
  | "regrant", [membership, permission] =>
      return .regrant (← accept readId? membership) (← accept readPermission? permission)
  | "revoke", [membership] =>
      return .revoke (← accept readId? membership) (found.has "purge-below")
  | "members", [item] => return .members (← accept readId? item)
  | "permission", [item, account] =>
      return .permission (← accept readId? item) (← accept readId? account)
  | "shared", [] => return .shared
  | "compact", [] => return .compact
  | _, _ => throw .misuse

def helpAbout : List String → Refusal
  | [] => .help
  | [command] => if command ∈ "help" :: commandNames then .help else .misuse
  | _ => .misuse

def readCommand : List String → Except Refusal Command
  | [] => .error .misuse
  | name :: rest =>
      if name = "help" then .error (helpAbout rest)
      else if name ∈ commandNames then do
        commandOf name (← scan (usageOf name) {} rest)
      else .error .misuse

/-- Reads a command line. Options that are missing are taken from variables, which are looked at
last. -/
def Invocation.read (lookup : String → Option String) (arguments : List String) :
    Except Refusal Invocation := do
  let lead ← scanLead leadingFlags {} arguments
  let command ← readCommand lead.rest
  let found ← lead.settle
  let directory := (found.value? "data-dir").or (lookup "GROVE_DATA_DIR")
  return {
    dataDirectory := ← accept readFileName? (directory.getD "data")
    settingsFile := ← acceptOption readFileName? (found.value? "config")
    actor := ← acceptOption readId? ((found.value? "as").or (lookup "GROVE_ACCOUNT"))
    command }

end SharedTree.CommandLine
