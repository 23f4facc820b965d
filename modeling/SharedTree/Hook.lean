import SharedTree.Transaction
/-!
Hooks around tasks. A pre-hook runs inside the transaction of a task, before its main write, and can
refuse it; it is a program whose every step is a question to the tables or a row operation. A
post-hook runs after the commit and can only report.
-/
namespace SharedTree

inductive HookPayload where
  | item (item : Item)
  | move (item : Item) (under : Option Id)
  | copy (source copy : Item)
  | membership (membership : Membership)
deriving DecidableEq

namespace HookPayload

def subject : HookPayload → Id
  | item row => row.id
  | move row _ => row.id
  | copy source _ => source.id
  | membership row => row.id

def toJson : HookPayload → Json
  | item row => .object [("kind", .string "item"), ("item", row.toJson)]
  | move row under =>
      .object [("kind", .string "move"), ("item", row.toJson), ("to", .ofOption Id.toJson under)]
  | copy source made =>
      .object [("kind", .string "copy"), ("source", source.toJson), ("copy", made.toJson)]
  | membership row => .object [("kind", .string "membership"), ("membership", row.toJson)]

end HookPayload

structure HookCall where
  actor : Id
  payload : HookPayload
  now : Instant
deriving DecidableEq

/-- What a pre-hook does: it ends or refuses, or it looks at the tables, draws an identifier, does a
row operation or leaves a note, and goes on with what came of that. -/
inductive HookProgram where
  | done
  | refuse (reason : String)
  | look (next : Tables → HookProgram)
  | draw (next : Id → HookProgram)
  | write (op : RowOp) (next : Except Error Bool → HookProgram)
  | note (note : Json) (next : HookProgram)

/-- The hooks of an engine in the order in which they were registered. A post-hook may report
something; that it was started counts even if it does not. -/
structure Hooks where
  pre : List (TaskKind × (HookCall → HookProgram)) := []
  post : List (TaskKind × (HookCall → Option Json)) := []

/-- A transaction at work: with it, how many identifiers were drawn and the notes of hooks, which
both outlive it. -/
structure Work where
  transaction : Transaction
  drawn : Nat
  notes : List Json

namespace Work

def perform (work : Work) (op : RowOp) : Except Error Bool × Work :=
  match work.transaction.apply op with
  | .ok (found, after) => (.ok found, { work with transaction := after })
  | .error cause => (.error cause, work)

def draw (ids : Nat → Id) (work : Work) : Id × Work :=
  (ids work.drawn, { work with drawn := work.drawn + 1 })

def addNote (work : Work) (note : Json) : Work := { work with notes := work.notes ++ [note] }

end Work

/-- Runs a hook's program; the reason is given if it refuses. Its writes stay in any case. -/
def HookProgram.run (ids : Nat → Id) : HookProgram → Work → Option String × Work
  | done, work => (none, work)
  | refuse reason, work => (some reason, work)
  | look next, work => (next work.transaction.tables).run ids work
  | draw next, work => (next (work.draw ids).1).run ids (work.draw ids).2
  | write op next, work => (next (work.perform op).1).run ids (work.perform op).2
  | note text next, work => next.run ids (work.addNote text)

def HookProgram.runAll (ids : Nat → Id) : List HookProgram → Work → Option String × Work
  | [], work => (none, work)
  | program :: rest, work =>
      match program.run ids work with
      | (none, after) => runAll ids rest after
      | (some reason, after) => (some reason, after)

namespace Hooks

def programs (hooks : Hooks) (kind : TaskKind) (call : HookCall) : List HookProgram :=
  hooks.pre.filterMap fun hook => if hook.1 = kind then some (hook.2 call) else none

def reports (hooks : Hooks) (kind : TaskKind) (call : HookCall) : List (Option Json) :=
  hooks.post.filterMap fun hook => if hook.1 = kind then some (hook.2 call) else none

end Hooks

end SharedTree
