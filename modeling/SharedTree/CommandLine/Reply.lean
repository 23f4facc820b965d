import SharedTree.CommandLine.Invocation
import SharedTree.Engine.Requests
import SharedTree.Json.Parser
/-!
Replies to invocations: what is printed and how the program ends.
-/
namespace SharedTree.CommandLine

inductive Failure where
  | task (cause : Error)
  | actorMissing
  | malformedExtra
deriving DecidableEq

def Failure.message : Failure → String
  | task cause => cause.message
  | actorMissing => "--as <ACCOUNT> is required"
  | malformedExtra => "the extra attributes are not JSON"

def Refusal.exitCode : Refusal → Nat
  | misuse => 2
  | help => 0

/-- What is printed, if anything, and the failure that the program ends with, if it fails. A task
that stops partway does both. -/
structure Reply where
  output : Option Json
  failure : Option Failure
deriving DecidableEq

namespace Reply

def exitCode (reply : Reply) : Nat := if reply.failure.isSome then 1 else 0

def print (value : Json) : Reply := ⟨some value, none⟩

def fail (failure : Failure) : Reply := ⟨none, some failure⟩

def ofResult {Value : Type} (written : Value → Json) : Except Error Value → Reply
  | .ok value => print (written value)
  | .error cause => fail (.task cause)

def ofCascade : Except Error Cascade → Reply
  | .ok cascade =>
      ⟨some cascade.report, cascade.failure.map fun failure => .task failure.error⟩
  | .error cause => fail (.task cause)

end Reply

def readExtra (text : Option String) : Except Failure (Option Extra) :=
  match text with
  | none => .ok none
  | some text =>
      match (Json.parse? text.toList).bind Extra.ofJson? with
      | some extra => .ok (some extra)
      | none => .error .malformedExtra

def rows {Row : Type} (written : Row → Json) (list : List Row) : Json :=
  .array (list.map written)

def runCommand (scene : Scene) (engine : Engine) (command : Command) : Reply × Engine :=
  let actor := scene.actor
  let read {Value : Type} (written : Value → Json) (question : Tables → Except Error Value) :
      Reply × Engine :=
    let (result, after) := engine.read scene.now question
    (.ofResult written result, after)
  let report (task : Task) : Reply × Engine :=
    let (result, after) := engine.run scene task
    (.ofCascade result, after)
  let write (task : Task) : Reply × Engine :=
    let (result, after) := engine.runForItem scene task
    (.ofResult Item.toJson result, after)
  match command with
  | .create name type parent extra =>
      match readExtra extra with
      | .error failure => (.fail failure, engine)
      | .ok extra => write (.createItem ⟨name, type, extra.getD .null, parent⟩)
  | .display id => read Item.toJson fun tables => tables.getItemFor actor .read id
  | .children id => read (rows Item.toJson) fun tables => tables.childrenFor actor id
  | .descendants id => read (rows Item.toJson) fun tables => tables.descendantsFor actor id
  | .update id name extra =>
      match readExtra extra with
      | .error failure => (.fail failure, engine)
      | .ok extra => write (.updateItem id ⟨name, extra⟩)
  | .delete id => report (.deleteItem id)
  | .move id under => write (.moveItem id under)
  | .copy id under => report (.copyItem id under)
  | .grant item account permission =>
      let (result, after) :=
        engine.runForMembership scene (.createMembership item account permission)
      (.ofResult (.ofOption Membership.toJson) result, after)
  | .regrant membership permission => report (.updateMembership membership permission)
  | .revoke membership purgeBelow => report (.deleteMembership membership purgeBelow)
  | .members item => read (rows Membership.toJson) fun tables => tables.membershipsFor actor item
  | .permission item account =>
      read (.ofOption Permission.toJson) fun tables => tables.permissionOf? actor account item
  | .shared => read (rows Item.toJson) fun tables => tables.sharedItems actor
  | .compact => (⟨none, none⟩, engine)

def settingsOf (invocation : Invocation) (lookup : String → Option String)
    (readText : String → Except FileFault (List Char)) : Except Error Settings :=
  match invocation.settingsFile with
  | some file => Settings.fromFile file (readText file)
  | none => Settings.fromVariables lookup

def Invocation.run (invocation : Invocation) (settings : Settings) (now : Instant) (ids : Nat → Id)
    (disk : Journal.Disk) : Reply × Journal.Disk :=
  match Store.openJournal invocation.dataDirectory disk with
  | (.error cause, after) => (.fail (.task cause), after)
  | (.ok store, _) =>
      if invocation.command = .compact then
        match store.compact now with
        | (.ok _, after) => (⟨none, none⟩, after.disk)
        | (.error cause, after) => (.fail (.task cause), after.disk)
      else
        match invocation.actor with
        | none => (.fail .actorMissing, store.disk)
        | some actor =>
            let scene : Scene := { actor, now, ids, settings, hooks := {} }
            let (reply, engine) := runCommand scene (.ofStore store) invocation.command
            (reply, engine.store.disk)

end SharedTree.CommandLine
