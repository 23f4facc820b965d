import SharedTree.Proofs.Engine.Reached
import SharedTree.Proofs.Task.Plans
/-!
A run that fails has changed nothing. A refusal can come from the store, from a check, from a hook
or from the disk, before or after rows were written; and a task whose subtasks go together can stop
at any of them. In every case the rows are as they were and nobody was told anything
(`failed_run_changes_nothing`).
-/
namespace SharedTree

variable {scene : Scene}

/-- A run that failed: it was refused, or stopped although its subtasks go together. -/
inductive Failed (scene : Scene) : Except Error Cascade → Prop where
  | refused (cause : Error) : Failed scene (.error cause)
  | stopped {cascade : Cascade} (failure : SubTaskFailure) :
      scene.settings.cascadeMode = .atomic → cascade.failure = some failure →
      Failed scene (.ok cascade)

namespace Engine

theorem transact_plan {engine after : Engine} {settle : Error → Error → Error} {task : Task}
    {subtasks : List SubTask}
    (planned : engine.transact scene settle (task.act scene) = (.ok (.delegated subtasks), after)) :
    after.store.tables = engine.store.tables := by
  obtain ⟨work, gives, next⟩ := transact_gives scene planned
  exact (congrArg Work.tables next).trans (task.act_plans scene _ _ _ gives)

theorem runTogether_stopped {engine : Engine} {subtasks : List SubTask} {cascade : Cascade}
    {failure : SubTaskFailure} (indexed : engine.store.tables.Indexed)
    (running : cascade.failure = none)
    (stopped : (runTogether scene subtasks cascade engine).1.failure = some failure) :
    (runTogether scene subtasks cascade engine).2.store.tables = engine.store.tables ∧
      Silent engine (runTogether scene subtasks cascade engine).2 := by
  have together := runTogether_together scene subtasks cascade engine indexed running
  generalize (runTogether scene subtasks cascade engine).1 = finished at together stopped
  generalize (runTogether scene subtasks cascade engine).2 = after at together
  cases together with
  | kept same silent _ => exact ⟨same, silent⟩
  | whole => exact absurd (running.symm.trans stopped) (by simp)

/-- A run that fails leaves the rows as they were, publishes no event and starts no post-hook,
whatever hooks wrote and whichever calls of the store and writes to the disk failed. -/
theorem failed_run_changes_nothing (engine : Engine) (scene : Scene) (task : Task)
    (indexed : engine.store.tables.Indexed) (failed : Failed scene (engine.run scene task).1) :
    (engine.run scene task).2.store.tables = engine.store.tables ∧
      (engine.run scene task).2.events = engine.events ∧
      (engine.run scene task).2.reports = engine.reports := by
  have silent := engine.transact_silent scene (fun cause _ => cause) (task.act scene)
  unfold run at failed ⊢
  split at failed
  · rename_i cause after ran
    rw [ran] at silent
    exact ⟨transact_error scene indexed (task.act_built scene).logged ran, silent.events,
      silent.reports⟩
  · cases failed with
    | stopped failure _ stopped => cases stopped
  · rename_i subtasks after ran
    rw [ran] at silent
    have same := transact_plan ran
    cases failed with
    | stopped failure mode stopped =>
        -- The plan was committed, without a write; what failed is the transaction after it.
        simp only [mode] at stopped ⊢
        obtain ⟨kept, silent'⟩ := runTogether_stopped (same ▸ indexed) rfl stopped
        exact ⟨kept.trans same, silent'.events.trans silent.events,
          silent'.reports.trans silent.reports⟩

end Engine

/-! The first folder under guard: a hook takes a row away and then refuses to let the folder go. -/

namespace Sample

def guard (call : HookCall) : HookProgram :=
  if call.payload.subject = id 100 then
    .write (.deleteMembership upper.id) fun _ => .refuse "guarded"
  else .done

def guarded (mode : CascadeMode) : Scene :=
  { sceneOf owner with
    settings := { cascadeMode := mode }
    hooks := { pre := [(.deleteItem, guard)] } }

def heldBack : Cascade :=
  (Cascade.delegated .deleteItem (some (id 100)) 2).stop
    ⟨1, .deleteItem, id 100, .hook .deleteItem "guarded"⟩

theorem indexed : engine.store.tables.Indexed := by
  obtain ⟨levels, sound⟩ := reached_any.sound
  exact sound.indexed

end Sample

theorem sample_failed_run_changes_nothing :
    (Sample.engine.run (Sample.guarded .atomic) (.deleteItem (Sample.id 100))).1 =
      .ok Sample.heldBack ∧
    (Sample.engine.run (Sample.guarded .atomic) (.deleteItem (Sample.id 100))).2.store.tables =
      Sample.engine.store.tables := by
  have ended : (Sample.engine.run (Sample.guarded .atomic) (.deleteItem (Sample.id 100))).1 =
      .ok Sample.heldBack := by
    decide +kernel
  have failed : Failed (Sample.guarded .atomic)
      (Sample.engine.run (Sample.guarded .atomic) (.deleteItem (Sample.id 100))).1 :=
    ended ▸ .stopped _ rfl rfl
  exact ⟨ended, (Sample.engine.failed_run_changes_nothing _ _ Sample.indexed failed).1⟩

end SharedTree
