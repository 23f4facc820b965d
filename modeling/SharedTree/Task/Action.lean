import SharedTree.Hook
import SharedTree.Access
import SharedTree.Settings
/-!
Actions: what runs inside the transaction of a task. An action asks the tables, draws identifiers,
calls the hooks and writes rows, by row operations only, and may end with an error; what it wrote
until then is still in its transaction, for the engine to take back.
-/
namespace SharedTree

/-- What an action knows besides the rows. A run has one time, `now`, however long it takes: every row,
hook call and journal entry of the run bears it. Identifiers come from a supply, one after the other;
a clock that moves on during a run is not modelled. -/
structure Scene where
  actor : Id
  now : Instant
  ids : Nat → Id
  settings : Settings
  hooks : Hooks

abbrev Action := ExceptT Error (StateM Work)

namespace Action

def ask {Answer : Type} (question : Tables → Answer) : Action Answer := do
  return question (← get).transaction.tables

def demand {Answer : Type} (question : Tables → Except Error Answer) : Action Answer := do
  ExceptT.mk (pure (question (← get).transaction.tables))

def write (op : RowOp) : Action Bool :=
  ExceptT.mk fun work => work.perform op

def draw (scene : Scene) : Action Id :=
  ExceptT.mk fun work => (.ok (work.draw scene.ids).1, (work.draw scene.ids).2)

def callHooks (scene : Scene) (kind : TaskKind) (payload : HookPayload) : Action Unit :=
  ExceptT.mk fun work =>
    let programs := scene.hooks.programs kind ⟨scene.actor, payload, scene.now⟩
    match HookProgram.runAll scene.ids programs work with
    | (none, after) => (.ok (), after)
    | (some reason, after) => (.error (.hook kind reason), after)

def checkLevels (scene : Scene) (levels : Nat) : Action Unit :=
  if scene.settings.maxTreeLevels < levels then
    throw (.hierarchyTooDeep levels scene.settings.maxTreeLevels)
  else return

def checkDescendants (id : Id) (descendants : List Item) (limit : Nat) : Action Unit :=
  if limit < descendants.length then throw (.tooManyDescendants id descendants.length limit)
  else return

end Action

end SharedTree
