import SharedTree.Task
import SharedTree.Error
/-!
What came of a task that was not refused: the subtasks that were committed, in their order, and the
one that stopped it, if it was stopped.
-/
namespace SharedTree

inductive TaskStatus where
  | new
  | running
  | ok
  | delegated
  | fail
deriving DecidableEq

namespace TaskStatus

def name : TaskStatus → String
  | new => "new"
  | running => "running"
  | ok => "ok"
  | delegated => "delegated"
  | fail => "fail"

def all : List TaskStatus := [new, running, ok, delegated, fail]

def ofName? (text : String) : Option TaskStatus := all.find? fun status => status.name == text

def isFinal : TaskStatus → Bool
  | new => false
  | running => false
  | _ => true

def canBecome : TaskStatus → TaskStatus → Bool
  | new, running => true
  | running, next => next.isFinal
  | _, _ => false

end TaskStatus

def SubTask.label (number : Nat) : String := "#" ++ shownNumber number

structure SubTaskOutcome where
  number : Nat
  kind : TaskKind
  target : Id
  output : TaskOutput
deriving DecidableEq

structure SubTaskFailure where
  number : Nat
  kind : TaskKind
  target : Id
  error : Error
deriving DecidableEq

/-- What came of a task: how many subtasks were planned, which of them were committed and which one
failed. A task that was done at once counts as one subtask. -/
structure Cascade where
  kind : TaskKind
  target : Option Id
  status : TaskStatus
  planned : Nat
  completed : List SubTaskOutcome
  failure : Option SubTaskFailure
deriving DecidableEq

def SubTaskOutcome.toJson (outcome : SubTaskOutcome) : Json :=
  .object [("id", .natural outcome.number), ("kind", outcome.kind.toJson),
    ("target", outcome.target.toJson), ("output", outcome.output.toJson)]

def SubTaskFailure.toJson (failure : SubTaskFailure) : Json :=
  .object [("id", .string (SubTask.label failure.number)), ("kind", failure.kind.toJson),
    ("target", failure.target.toJson), ("error", .string failure.error.kind),
    ("message", .string failure.error.message)]

namespace Cascade

def direct (kind : TaskKind) (output : TaskOutput) : Cascade :=
  { kind
    target := output.subject?
    status := .ok
    planned := 1
    completed := [⟨0, kind, output.subject?.getD Id.zero, output⟩]
    failure := none }

def delegated (kind : TaskKind) (target : Option Id) (planned : Nat) : Cascade :=
  { kind, target, status := .delegated, planned, completed := [], failure := none }

def complete (cascade : Cascade) (outcome : SubTaskOutcome) : Cascade :=
  { cascade with completed := cascade.completed ++ [outcome] }

def stop (cascade : Cascade) (failure : SubTaskFailure) : Cascade :=
  { cascade with status := .fail, failure := some failure }

def isComplete (cascade : Cascade) : Bool := cascade.failure.isNone

def notAttempted (cascade : Cascade) : Nat :=
  cascade.planned - (cascade.completed.length + cascade.failure.toList.length)

def completedTargets (cascade : Cascade) : List Id := cascade.completed.map SubTaskOutcome.target

def output? (cascade : Cascade) : Option TaskOutput :=
  cascade.completed.getLast?.map SubTaskOutcome.output

def result (cascade : Cascade) : Except Error (List SubTaskOutcome) :=
  match cascade.failure with
  | some failure => .error failure.error
  | none => .ok cascade.completed

def lastOutput (cascade : Cascade) : Except Error TaskOutput :=
  cascade.result.map fun completed =>
    (completed.getLast?.map SubTaskOutcome.output).getD .unchanged

def toJson (cascade : Cascade) : Json :=
  .object
    [("kind", cascade.kind.toJson), ("target", .ofOption Id.toJson cascade.target),
      ("status", .string cascade.status.name), ("planned", .natural cascade.planned),
      ("completed", .array (cascade.completed.map SubTaskOutcome.toJson)),
      ("failed_at", .ofOption SubTaskFailure.toJson cascade.failure),
      ("complete", .bool cascade.isComplete), ("not_attempted", .natural cascade.notAttempted),
      ("targets", .array (cascade.completedTargets.map Id.toJson)),
      ("last_item",
        .ofOption (fun item => item.id.toJson) (cascade.output?.bind TaskOutput.item?)),
      ("last_membership",
        .ofOption (fun row => row.id.toJson) (cascade.output?.bind TaskOutput.membership?)),
      ("into_output",
        match cascade.lastOutput with
        | .ok output => .string output.tag
        | .error cause => .object [("error", .string cause.kind)])]

def report (cascade : Cascade) : Json :=
  .object
    [("task", cascade.kind.toJson), ("status", .string cascade.status.name),
      ("completed", .array (cascade.completed.map SubTaskOutcome.toJson)),
      ("failed_at", .ofOption
        (fun failure : SubTaskFailure => .object
          [("subtask", .string (SubTask.label failure.number ++ " " ++ failure.kind.name)),
            ("target", failure.target.toJson), ("error", .string failure.error.message)])
        cascade.failure),
      ("not_attempted", .natural cascade.notAttempted)]

end Cascade

end SharedTree
