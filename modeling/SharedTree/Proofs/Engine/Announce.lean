import SharedTree.Engine
/-!
What the engine tells of outputs: one event for each row, and a report of each post-hook. To tell of
an output changes nothing else (`announce_eq`).
-/
namespace SharedTree

def TaskOutput.events (kind : TaskKind) (output : TaskOutput) : List Event :=
  (output.announced kind).flatMap fun told => (told.2.event? told.1).toList

def TaskOutput.reports (scene : Scene) (kind : TaskKind) (output : TaskOutput) :
    List (Option Json) :=
  (output.announced kind).flatMap fun told =>
    match told.2.payload? with
    | some payload => scene.hooks.reports told.1 ⟨scene.actor, payload, scene.now⟩
    | none => []

def SubTaskOutcome.events (outcome : SubTaskOutcome) : List Event :=
  outcome.output.events outcome.kind

def SubTaskOutcome.reports (scene : Scene) (outcome : SubTaskOutcome) : List (Option Json) :=
  outcome.output.reports scene outcome.kind

namespace Engine

variable (scene : Scene)

def telling (engine : Engine) (reports : List (Option Json)) (events : List Event) : Engine :=
  { engine with reports := engine.reports ++ reports, events := engine.events ++ events }

theorem telling_nothing (engine : Engine) : engine.telling [] [] = engine := by simp [telling]

theorem telling_telling (engine : Engine) (reports more : List (Option Json))
    (events others : List Event) :
    (engine.telling reports events).telling more others =
      engine.telling (reports ++ more) (events ++ others) := by
  simp [telling]

theorem foldl_telling {Row : Type} (rows : List Row) (tell : Engine → Row → Engine)
    (reports : Row → List (Option Json)) (events : Row → List Event)
    (one : ∀ engine row, tell engine row = engine.telling (reports row) (events row))
    (engine : Engine) :
    rows.foldl tell engine = engine.telling (rows.flatMap reports) (rows.flatMap events) := by
  induction rows generalizing engine with
  | nil => exact engine.telling_nothing.symm
  | cons row rest ih =>
      rw [List.foldl_cons, ih, one, telling_telling, List.flatMap_cons, List.flatMap_cons]

theorem announce_eq (engine : Engine) (kind : TaskKind) (output : TaskOutput) :
    engine.announce scene kind output =
      engine.telling (output.reports scene kind) (output.events kind) :=
  foldl_telling _ _ _ _ (fun _ _ => rfl) engine

theorem announceAll_eq (engine : Engine) (outcomes : List SubTaskOutcome) :
    outcomes.foldl (fun told outcome => told.announce scene outcome.kind outcome.output) engine =
      engine.telling (outcomes.flatMap (SubTaskOutcome.reports scene))
        (outcomes.flatMap SubTaskOutcome.events) :=
  foldl_telling _ _ _ _ (fun told outcome => told.announce_eq scene outcome.kind outcome.output)
    engine

end Engine

end SharedTree
