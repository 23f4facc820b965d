import SharedTree.Proofs.Engine.Modes
/-!
A run of a task, told by its actions. In a store where nothing goes wrong, and with hooks that keep
to row operations, what comes of a task depends on the rows alone and on the identifiers that are
drawn (`Task.playOut`); the store goes through it unharmed (`Engine.run_calm`).
-/
namespace SharedTree

open SharedTree.Action SharedTree.Engine

/-- How subtasks end that were begun on some work and got so far. Committed together, none of them
is done if one failed. -/
def Progress.settled (mode : CascadeMode) (before : Work) (cascade : Cascade)
    (progress : Progress) : Cascade × Work :=
  match mode, progress.failure 0 with
  | .atomic, some failure =>
      (cascade.stop failure, { progress.work with transaction := before.transaction })
  | _, _ => (reached cascade progress, progress.work)

theorem Progress.settled_drawn (mode : CascadeMode) (before : Work) (cascade : Cascade)
    (progress : Progress) :
    (progress.settled mode before cascade).2.drawn = progress.work.drawn := by
  unfold settled
  split <;> rfl

theorem Progress.settled_of_unfailed {progress : Progress} (unfailed : progress.failed = none)
    (mode : CascadeMode) (before : Work) (cascade : Cascade) :
    progress.settled mode before cascade = (reached cascade progress, progress.work) := by
  cases mode <;> simp [settled, failure, unfailed]

def Task.playOut (scene : Scene) (task : Task) (work : Work) : Except Error Cascade × Work :=
  match (task.act scene).ending work with
  | (.error cause, after) => (.error cause, { after with transaction := work.transaction })
  | (.ok (.done output), after) => (.ok (.direct task.kind output), after.renewed)
  | (.ok (.delegated plan), after) =>
      let cascade := Cascade.delegated task.kind task.target? plan.length
      let settled := (carryOut scene plan after.renewed).settled scene.settings.cascadeMode
        after.renewed cascade
      (.ok settled.1, settled.2)

variable {scene : Scene}

theorem carryOut_renewed (subtasks : List SubTask) (work : Work) :
    (carryOut scene subtasks work.renewed).work.renewed =
      (carryOut scene subtasks work.renewed).work := by
  induction subtasks generalizing work with
  | nil => rfl
  | cons subtask rest ih =>
      cases ended : (subtask.act scene).ending work.renewed with
      | mk result after =>
          cases result with
          | error cause =>
              rw [carryOut_error ended]
              rfl
          | ok output =>
              rw [carryOut_ok ended]
              exact ih after

namespace Engine

variable {engine : Engine}

theorem runTogether_calm (rows : scene.hooks.RowsOnly) (subtasks : List SubTask) (cascade : Cascade)
    (calm : engine.store.Calm) (indexed : engine.store.tables.Indexed)
    (fresh : cascade.completed = []) :
    (runTogether scene subtasks cascade engine).1 =
        ((carryOut scene subtasks engine.nextWork).settled .atomic engine.nextWork cascade).1 ∧
      (runTogether scene subtasks cascade engine).2.nextWork =
        ((carryOut scene subtasks engine.nextWork).settled .atomic engine.nextWork cascade).2 ∧
      (runTogether scene subtasks cascade engine).2.store.Calm := by
  obtain ⟨last, same, ran⟩ := runInSavepoints_carryOut rows subtasks [] engine.nextWork indexed
  have leads := runInSavepoints_leadsBackTo scene subtasks [] _
    (engine.nextWork_leadsBackTo indexed)
  rw [carryOut_renewed, nextWork_renewed] at same
  rw [nextWork_renewed] at ran
  rw [ran] at leads
  have taken_back := Transaction.rollback_of_leadsBackTo leads
  unfold runTogether Progress.settled
  rw [calm.tryBegin]
  cases stopped : (carryOut scene subtasks engine.nextWork).failure 0 with
  | none =>
      obtain ⟨store, passed, calm', kept⟩ := calm.tryCommit scene.now last.transaction
      rw [List.length_nil, stopped] at ran
      simp only [startWork_eq, ran, passed, announceAll_eq]
      refine ⟨by simp [reached, fresh, stopped], ?_, calm'⟩
      rw [← same]
      simp only [nextWork, startWork, afterWork, telling, Work.renewed, kept]
  | some failure =>
      rw [List.length_nil, stopped] at ran
      simp only [startWork_eq, ran, calm.tryRollback]
      refine ⟨trivial, ?_, calm.rollback last.transaction⟩
      rw [← same]
      simp only [nextWork, startWork, afterWork, Work.renewed, Store.rollback, taken_back]

/-- Where nothing goes wrong in the store, a run of a task is played out by its actions. -/
theorem run_calm (rows : scene.hooks.RowsOnly) (task : Task) (calm : engine.store.Calm)
    (indexed : engine.store.tables.Indexed) :
    (engine.run scene task).1 = (task.playOut scene engine.nextWork).1 ∧
      (engine.run scene task).2.nextWork = (task.playOut scene engine.nextWork).2 ∧
      (engine.run scene task).2.store.Calm := by
  unfold Task.playOut run
  cases ended : (task.act scene).ending engine.nextWork with
  | mk result work =>
      cases result with
      | error cause =>
          obtain ⟨after, ran, calm', left⟩ := transact_calm_error scene calm indexed
            (task.act_built scene).logged (fun cause _ => cause) ended
          rw [ran]
          exact ⟨rfl, left, calm'⟩
      | ok step =>
          obtain ⟨after, ran, calm', left⟩ :=
            transact_calm_ok scene calm (fun cause _ => cause) ended
          rw [ran]
          cases step with
          | done output =>
              simp only [announce_eq]
              exact ⟨trivial, left, calm'⟩
          | delegated plan =>
              have indexed' : after.store.tables.Indexed := transact_plan ran ▸ indexed
              simp only [← left]
              cases scene.settings.cascadeMode with
              | stepwise =>
                  obtain ⟨report, left', calm''⟩ := runStepwise_calm scene plan
                    (.delegated task.kind task.target? plan.length) after calm' indexed'
                  exact ⟨congrArg Except.ok report, left', calm''⟩
              | atomic =>
                  obtain ⟨report, left', calm''⟩ := runTogether_calm rows plan
                    (.delegated task.kind task.target? plan.length) calm' indexed' rfl
                  exact ⟨congrArg Except.ok report, left', calm''⟩

end Engine

end SharedTree
