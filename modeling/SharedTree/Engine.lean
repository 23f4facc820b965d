import SharedTree.Task.Act
import SharedTree.Cascade
import SharedTree.Event
import SharedTree.Store
/-!
The engine runs tasks against a store. A task runs in one transaction; if it is split, its subtasks
follow, each in a transaction of its own or all in one. After every commit the post-hooks are called
and the events published; what was not committed leaves neither rows nor events.
-/
namespace SharedTree

/-- A store and what running tasks on it has brought so far: how many identifiers were drawn, the
notes of pre-hooks, the reports of post-hooks, an entry for each that was started, and the events. -/
structure Engine where
  store : Store
  drawn : Nat
  notes : List Json
  reports : List (Option Json)
  events : List Event

namespace Engine

def ofStore (store : Store) : Engine := ⟨store, 0, [], [], []⟩

def afterWork (engine : Engine) (work : Work) (store : Store) : Engine :=
  { engine with store, drawn := work.drawn, notes := work.notes }

def startWork (engine : Engine) (transaction : Transaction) : Work :=
  ⟨transaction, engine.drawn, engine.notes⟩

/-- Runs an action in a transaction of its own and commits it, or takes its writes back if it ends
with an error. If the rollback is refused as well, `settle` picks the error. -/
def transact {Answer : Type} (engine : Engine) (scene : Scene) (settle : Error → Error → Error)
    (action : Action Answer) : Except Error Answer × Engine :=
  match engine.store.tryBegin with
  | (.error cause, store) => (.error cause, { engine with store })
  | (.ok transaction, begun) =>
      match action.run.run (engine.startWork transaction) with
      | (.ok answer, work) =>
          match begun.tryCommit scene.now work.transaction with
          | (.ok _, store) => (.ok answer, engine.afterWork work store)
          | (.error cause, store) => (.error cause, engine.afterWork work store)
      | (.error cause, work) =>
          match begun.tryRollback work.transaction with
          | (.ok _, store) => (.error cause, engine.afterWork work store)
          | (.error refusal, store) => (.error (settle cause refusal), engine.afterWork work store)

def announceOne (engine : Engine) (scene : Scene) (announced : TaskKind × TaskOutput) : Engine :=
  let (kind, output) := announced
  let reports := match output.payload? with
    | some payload => scene.hooks.reports kind ⟨scene.actor, payload, scene.now⟩
    | none => []
  { engine with
    reports := engine.reports ++ reports
    events := engine.events ++ (output.event? kind).toList }

def announce (engine : Engine) (scene : Scene) (kind : TaskKind) (output : TaskOutput) : Engine :=
  (output.announced kind).foldl (fun told announced => told.announceOne scene announced) engine

def runStepwise (scene : Scene) : List SubTask → Cascade → Engine → Cascade × Engine
  | [], cascade, engine => (cascade, engine)
  | subtask :: rest, cascade, engine =>
      let number := cascade.completed.length
      match engine.transact scene (fun _ refusal => refusal) (subtask.act scene) with
      | (.ok output, after) =>
          runStepwise scene rest
            (cascade.complete ⟨number, subtask.kind, subtask.target, output⟩)
            (after.announce scene subtask.kind output)
      | (.error cause, after) =>
          (cascade.stop ⟨number, subtask.kind, subtask.target, cause⟩, after)

def inSavepoint (scene : Scene) (subtask : SubTask) : Action TaskOutput := do
  let _ ← Action.write .savepoint
  let ending : Except Error TaskOutput ← ExceptT.lift (subtask.act scene).run
  match ending with
  | .ok output =>
      let _ ← Action.write .releaseSavepoint
      return output
  | .error cause =>
      let _ ← Action.write .rollbackToSavepoint
      throw cause

def runInSavepoints (scene : Scene) (done : List SubTaskOutcome) :
    List SubTask → Work → Except SubTaskFailure (List SubTaskOutcome) × Work
  | [], work => (.ok done, work)
  | subtask :: rest, work =>
      match (inSavepoint scene subtask).run.run work with
      | (.ok output, after) =>
          runInSavepoints scene (done ++ [⟨done.length, subtask.kind, subtask.target, output⟩])
            rest after
      | (.error cause, after) =>
          (.error ⟨done.length, subtask.kind, subtask.target, cause⟩, after)

def stopAt (cascade : Cascade) (number : Nat) (subtask : Option SubTask) (cause : Error) : Cascade :=
  match subtask with
  | some subtask => cascade.stop ⟨number, subtask.kind, subtask.target, cause⟩
  | none => cascade

def runTogether (scene : Scene) (subtasks : List SubTask) (cascade : Cascade) (engine : Engine) :
    Cascade × Engine :=
  match engine.store.tryBegin with
  | (.error cause, store) => (stopAt cascade 0 subtasks.head? cause, { engine with store })
  | (.ok transaction, begun) =>
      match runInSavepoints scene [] subtasks (engine.startWork transaction) with
      | (.error failure, work) =>
          (cascade.stop failure, engine.afterWork work (begun.tryRollback work.transaction).2)
      | (.ok outcomes, work) =>
          match begun.tryCommit scene.now work.transaction with
          | (.error cause, store) =>
              (stopAt cascade (subtasks.length - 1) subtasks.getLast? cause,
                engine.afterWork work store)
          | (.ok _, store) =>
              ({ cascade with completed := outcomes },
                outcomes.foldl
                  (fun told outcome => told.announce scene outcome.kind outcome.output)
                  (engine.afterWork work store))

/-- Runs a task. An error means that nothing was written; a task that was split can also stop
partway, which its cascade tells. -/
def run (engine : Engine) (scene : Scene) (task : Task) : Except Error Cascade × Engine :=
  match engine.transact scene (fun cause _ => cause) (task.act scene) with
  | (.error cause, after) => (.error cause, after)
  | (.ok (.done output), after) =>
      (.ok (.direct task.kind output), after.announce scene task.kind output)
  | (.ok (.delegated subtasks), after) =>
      let cascade := Cascade.delegated task.kind task.target? subtasks.length
      let (finished, last) := match scene.settings.cascadeMode with
        | .stepwise => runStepwise scene subtasks cascade after
        | .atomic => runTogether scene subtasks cascade after
      (.ok finished, last)

def read {Answer : Type} (engine : Engine) (now : Instant)
    (question : Tables → Except Error Answer) : Except Error Answer × Engine :=
  match engine.store.tryBegin with
  | (.error cause, store) => (.error cause, { engine with store })
  | (.ok transaction, begun) =>
      match question transaction.tables with
      | .error cause => (.error cause, { engine with store := begun.rollback transaction })
      | .ok answer =>
          match begun.tryCommit now transaction with
          | (.ok _, store) => (.ok answer, { engine with store })
          | (.error cause, store) => (.error cause, { engine with store })

end Engine

end SharedTree
