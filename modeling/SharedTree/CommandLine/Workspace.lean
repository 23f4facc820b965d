import SharedTree.CommandLine.Reply
/-!
The files around an invocation: the working directory with everything in it. Names are followed part
by part, so a name that goes through something missing or through a file leads nowhere, even if it
comes back with `..`.
-/
namespace SharedTree.CommandLine

inductive Node where
  | file (bytes : List UInt8)
  | directory
deriving DecidableEq

structure Workspace where
  here : List String
  nodes : List (List String × Node) := []
deriving DecidableEq

namespace Workspace

def node? (workspace : Workspace) (place : List String) : Option Node :=
  if place.isPrefixOf workspace.here then some .directory else workspace.nodes.lookup place

def isDirectory (workspace : Workspace) (place : List String) : Bool :=
  workspace.node? place == some .directory

def remove (workspace : Workspace) (place : List String) : Workspace :=
  { workspace with nodes := workspace.nodes.filter fun entry => !place.isPrefixOf entry.1 }

def put (workspace : Workspace) (place : List String) (node : Node) : Workspace :=
  { workspace with nodes := (place, node) :: (workspace.remove place).nodes }

def maxName : Nat := 255

def maxRoute : Nat := 4095

def follow (workspace : Workspace) : List String → List String → Except FileFault (List String)
  | place, [] => .ok place
  | place, part :: rest =>
      if workspace.isDirectory place then
        if part = "." then workspace.follow place rest
        else if part = ".." then workspace.follow place.dropLast rest
        else if maxName < part.utf8ByteSize then .error .nameTooLong
        else if (workspace.node? (place ++ [part])).isSome then
          workspace.follow (place ++ [part]) rest
        else .error .notFound
      else .error .notDirectory

def partsOf (name : String) : List String :=
  ((Text.split '/' name.toList).map String.ofList).filter fun part => part != ""

/-- Where a name starts, and the parts to follow from there. A name starts at the root if a slash or
the names of the working directory come first, and in the working directory if not. -/
def route (workspace : Workspace) (name : String) : List String × List String :=
  let parts := partsOf name
  if workspace.here.isPrefixOf parts then (workspace.here, parts.drop workspace.here.length)
  else if name.toList.head? = some '/' then ([], parts)
  else (workspace.here, parts)

/-- The place that a name leads to. A slash at the end asks for a directory. -/
def resolve (workspace : Workspace) (name : String) : Except FileFault (List String) :=
  if maxRoute < name.utf8ByteSize then .error .nameTooLong
  else
    let (start, parts) := workspace.route name
    workspace.follow start (if name.toList.getLast? = some '/' then parts ++ ["."] else parts)

def readText (workspace : Workspace) (name : String) : Except FileFault (List Char) :=
  match workspace.resolve name with
  | .error cause => .error cause
  | .ok place =>
      match workspace.node? place with
      | some (.file bytes) =>
          match Utf8.decode? bytes with
          | some text => .ok text
          | none => .error .notText
      | some .directory => .error .isDirectory
      | none => .error .notFound

def makeDirectory? (workspace : Workspace) (start parts : List String) : Option Workspace :=
  match workspace.follow start parts with
  | .ok place => if workspace.isDirectory place then some workspace else none
  | .error .notFound =>
      match workspace.follow start parts.dropLast, parts.getLast? with
      | .ok place, some name => some (workspace.put (place ++ [name]) .directory)
      | _, _ => none
  | .error _ => none

def makeEach (workspace : Workspace) (start : List String) : List (List String) → Workspace × Bool
  | [] => (workspace, true)
  | parts :: rest =>
      match workspace.makeDirectory? start parts with
      | some made => made.makeEach start rest
      | none => (workspace, false)

def makeDirectories (workspace : Workspace) (name : String) : Workspace × Option (List String) :=
  if maxRoute < name.utf8ByteSize then (workspace, none)
  else
    let (start, parts) := workspace.route name
    let proper := parts.filter fun part => part != "."
    let before := (List.range (proper.length - 1)).map fun count => proper.take (count + 1)
    match workspace.makeEach start (before ++ [parts]) with
    | (made, true) => (made, (made.follow start parts).toOption)
    | (made, false) => (made, none)

def siteAt (workspace : Workspace) (place : List String) (name : String) : Journal.Site :=
  match workspace.node? place with
  | some (.file _) => .blocked
  | _ =>
      match workspace.node? (place ++ [name]) with
      | some (.file bytes) => .file bytes
      | some .directory => .folder
      | none => .absent

def putSite (workspace : Workspace) (place : List String) (name : String) (site : Journal.Site) :
    Workspace :=
  if workspace.siteAt place name = site then workspace
  else
    let around := if workspace.isDirectory place then workspace else workspace.put place .directory
    match site with
    | .absent => around.remove (place ++ [name])
    | .file bytes => around.put (place ++ [name]) (.file bytes)
    | .folder => around.put (place ++ [name]) .directory
    | .blocked => workspace.put place (.file [])

def diskAt (workspace : Workspace) (place : List String) (faults : Journal.Faults) : Journal.Disk :=
  { site := workspace.siteAt place Journal.logFile
    aside := workspace.siteAt place Journal.asideFile
    faults }

def putDisk (workspace : Workspace) (place : List String) (disk : Journal.Disk) : Workspace :=
  (workspace.putSite place Journal.asideFile disk.aside).putSite place Journal.logFile disk.site

end Workspace

/-- Runs an invocation in a workspace. The settings are read before any directory is made, and the
name of the log may be too long where that of its directory is not. -/
def Invocation.runIn (invocation : Invocation) (lookup : String → Option String) (now : Instant)
    (ids : Nat → Id) (faults : Journal.Faults) (workspace : Workspace) : Reply × Workspace :=
  match settingsOf invocation lookup workspace.readText with
  | .error cause => (.fail (.task cause), workspace)
  | .ok settings =>
      match workspace.makeDirectories invocation.dataDirectory with
      | (made, none) => ((invocation.run settings now ids { site := .blocked, faults }).1, made)
      | (made, some place) =>
          if Workspace.maxRoute < (Journal.logName invocation.dataDirectory).utf8ByteSize then
            (.fail (.task (.storage (.journal (.disk .nameTooLong)))), made)
          else
            let (reply, disk) := invocation.run settings now ids (made.diskAt place faults)
            (reply, made.putDisk place disk)

end SharedTree.CommandLine
