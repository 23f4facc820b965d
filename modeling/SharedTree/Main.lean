import SharedTree.CommandLine.Reply
import SharedTree.Json.Pretty
import Std.Time.DateTime.Timestamp
/-!
The program: it reads the arguments, the variables, the clock and the files, lets the library answer
and writes back what the answer changed.
-/
namespace SharedTree.Program

def freeId (bits : Nat) : Id :=
  let high := bits >>> 74 % 1 <<< 48
  let middle := bits >>> 62 % 1 <<< 12
  let low := bits % 1 <<< 62
  Id.ofNat (high <<< 80 + 4 <<< 76 + middle <<< 64 + 2 <<< 62 + low)

def variableNames : List String :=
  ["GROVE_DATA_DIR", "GROVE_ACCOUNT", "GROVE_MAX_DESCENDANTS_FOR_DELETE",
    "GROVE_MAX_DESCENDANTS_FOR_COPY", "GROVE_MAX_DESCENDANTS_FOR_MOVE",
    "GROVE_MAX_ITEM_MEMBERSHIPS_FOR_DELETE", "GROVE_MAX_TREE_LEVELS", "GROVE_CASCADE_MODE"]

def now : IO Instant := do
  return Instant.ofNanos (← Std.Time.Timestamp.now).toNanosecondsSinceUnixEpoch.val

def supply : IO (Nat → Id) := do
  let bytes ← IO.getRandomBytes 16
  let start := bytes.toList.foldl (fun number byte => number * 256 + byte.toNat) 0
  return fun count => freeId (start + count)

def readSite (directory : String) : IO Journal.Site := do
  match ← (IO.FS.readBinFile (Journal.logName directory)).toBaseIO with
  | .ok bytes => return .file bytes.toList
  | .error (.noFileOrDirectory ..) => return .absent
  | .error _ =>
      match ← (IO.FS.createDirAll directory).toBaseIO with
      | .ok _ => return .folder
      | .error _ => return .blocked

/-- Writes a log that has changed: what was appended, or else the whole file in one step. -/
def writeSite (directory : String) (before after : Journal.Site) : IO Unit := do
  if let .file bytes := after then
    if before ≠ after then
      IO.FS.createDirAll directory
      let log := Journal.logName directory
      match before with
      | .file old =>
          if old.isPrefixOf bytes then
            let handle ← IO.FS.Handle.mk log .append
            handle.write (bytes.drop old.length).toByteArray
            handle.flush
            return
      | _ => pure ()
      let aside := directory ++ "/journal.tmp"
      IO.FS.writeBinFile aside bytes.toByteArray
      IO.FS.rename aside log

def faultOf : IO.Error → FileFault
  | .noFileOrDirectory .. => .notFound
  | .inappropriateType _ 20 _ => .notDirectory
  | .inappropriateType _ 21 _ => .isDirectory
  | other => .stated (toString other)

def readText (file : String) : IO (Except FileFault (List Char)) := do
  match ← (IO.FS.readBinFile file).toBaseIO with
  | .error cause => return .error (faultOf cause)
  | .ok bytes =>
      match Utf8.decode? bytes.toList with
      | some text => return .ok text
      | none => return .error .notText

def usage : String :=
  "usage: grove [--data-dir DIR] [--config FILE] [--as ACCOUNT] COMMAND\ncommands: " ++
    String.intercalate " " CommandLine.commandNames

def say (reply : CommandLine.Reply) : IO UInt32 := do
  if let some output := reply.output then IO.println output.lines
  if let some failure := reply.failure then IO.eprintln ("Error: " ++ failure.message)
  return UInt32.ofNat reply.exitCode

def serve (lookup : String → Option String) (invocation : CommandLine.Invocation) : IO UInt32 := do
  let content ← match invocation.settingsFile with
    | some file => readText file
    | none => pure (.error .notFound)
  match CommandLine.settingsOf invocation lookup fun _ => content with
  | .error cause => say (.fail (.task cause))
  | .ok settings =>
      let before ← readSite invocation.dataDirectory
      let (reply, disk) := invocation.run settings (← now) (← supply) { site := before }
      writeSite invocation.dataDirectory before disk.site
      say reply

end SharedTree.Program

def main (arguments : List String) : IO UInt32 := do
  let known ← SharedTree.Program.variableNames.mapM fun name => do
    return (name, ← IO.getEnv name)
  let lookup (name : String) : Option String := (known.lookup name).join
  match SharedTree.CommandLine.Invocation.read lookup arguments with
  | .ok invocation => SharedTree.Program.serve lookup invocation
  | .error refusal =>
      IO.eprintln SharedTree.Program.usage
      return UInt32.ofNat refusal.exitCode
