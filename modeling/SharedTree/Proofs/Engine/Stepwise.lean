import SharedTree.Proofs.Engine.Failure
/-!
The report of a cascade whose subtasks are committed one by one: it names what was done, what
failed and what was not tried, and the rows and the events agree with it (`stepwise_report`).
-/
namespace SharedTree

variable {scene : Scene}

namespace Engine

theorem Partway.told {subtasks : List SubTask} {cascade finished : Cascade} {before after : Engine}
    {done : List (SubTask × TaskOutput)} {last : Work}
    (partway : Partway scene subtasks cascade before done last finished after)
    (fresh : cascade.completed = []) :
    after.events = before.events ++ finished.completed.flatMap SubTaskOutcome.events := by
  rw [partway.events, partway.completed, fresh]
  rfl

/-- A cascade whose subtasks are committed one by one reports just what it did. There is a number of
subtasks, from the first on, that are reported as completed in the order of the plan and numbered in
it; the rows are those that these subtasks, hooks included, make of the rows there were, and the
events those that tell of them. Either these are all subtasks, or the next one is reported as
failed and the rest as not attempted. -/
theorem stepwise_report {engine after : Engine} {task : Task} {subtasks : List SubTask}
    {planning : Work} {cascade : Cascade} (indexed : engine.store.tables.Indexed)
    (mode : scene.settings.cascadeMode = .stepwise)
    (planned : (task.act scene).Gives engine.nextWork (.delegated subtasks) planning)
    (ran : engine.run scene task = (.ok cascade, after)) :
    ∃ k done last, k ≤ subtasks.length ∧
      carryOut scene (subtasks.take k)
        { planning with transaction := .start engine.store.tables } = ⟨done, none, last⟩ ∧
      done.map Prod.fst = subtasks.take k ∧
      cascade.completed = numbered 0 done ∧
      after.store.tables = last.tables ∧
      (cascade.failure = none ↔ k = subtasks.length) ∧
      (∀ failure, cascade.failure = some failure → failure.number = k ∧
        ∃ subtask, subtasks[k]? = some subtask ∧ failure.kind = subtask.kind ∧
          failure.target = subtask.target) ∧
      cascade.notAttempted = (if cascade.failure = none then 0 else subtasks.length - k - 1) ∧
      after.events = engine.events ++ cascade.completed.flatMap SubTaskOutcome.events := by
  have silent := engine.transact_silent scene (fun cause _ => cause) (task.act scene)
  unfold run at ran
  split at ran
  · cases ran
  · rename_i output middle transacted
    obtain ⟨_, gives, _⟩ := transact_gives scene transacted
    cases planned.symm.trans gives
  · rename_i others middle transacted
    rw [transacted] at silent
    obtain ⟨_, gives, renewed⟩ := transact_gives scene transacted
    cases planned.symm.trans gives
    have same := transact_plan transacted
    simp only [mode, Prod.mk.injEq, Except.ok.injEq] at ran
    obtain ⟨done, last, partway⟩ := runStepwise_partway scene subtasks
      (.delegated task.kind task.target? subtasks.length) middle (same ▸ indexed) rfl
    rw [ran.1, ran.2] at partway
    have carried := partway.carried
    have begun : middle.nextWork = { planning with transaction := .start engine.store.tables } := by
      rw [renewed, Work.renewed, task.act_plans scene _ _ _ planned]
      rfl
    rw [begun] at carried
    have order := carryOut_done carried
    have completed : cascade.completed = numbered 0 done := by
      rw [partway.completed]
      rfl
    refine ⟨done.length, done, last, partway.within, carried, order, completed, partway.tables,
      partway.complete_iff, ?_, partway.rest rfl rfl, ?_⟩
    · intro failure stopped
      simpa [Cascade.delegated] using partway.stopped stopped
    · rw [partway.told rfl, silent.events]

end Engine

def Sample.cutShort : Cascade :=
  ((Cascade.delegated .deleteItem (some (id 100)) 2).complete
    ⟨0, .deleteItem, document.id, .itemDeleted document [lower]⟩).stop
      ⟨1, .deleteItem, id 100, .hook .deleteItem "guarded"⟩

def Sample.planning : Work :=
  (((Task.deleteItem (id 100)).act (guarded .stepwise)).ending engine.nextWork).2

theorem sample_stepwise_report :
    (Sample.engine.run (Sample.guarded .stepwise) (.deleteItem (Sample.id 100))).1 =
      .ok Sample.cutShort ∧
    ∃ k done last, k ≤ 2 ∧
      carryOut (Sample.guarded .stepwise)
        ([.deleteItem Sample.document.id, .deleteItem (Sample.id 100)].take k)
        { Sample.planning with transaction := .start Sample.engine.store.tables } =
          ⟨done, none, last⟩ ∧
      Sample.cutShort.completed = numbered 0 done ∧
      (Sample.engine.run (Sample.guarded .stepwise)
        (.deleteItem (Sample.id 100))).2.store.tables = last.tables := by
  have ended : (Sample.engine.run (Sample.guarded .stepwise) (.deleteItem (Sample.id 100))).1 =
      .ok Sample.cutShort := by
    decide +kernel
  have step : (((Task.deleteItem (Sample.id 100)).act (Sample.guarded .stepwise)).ending
      Sample.engine.nextWork).1 =
      .ok (.delegated [.deleteItem Sample.document.id, .deleteItem (Sample.id 100)]) := by
    decide +kernel
  obtain ⟨k, done, last, within, carried, _, completed, rows, _⟩ :=
    Engine.stepwise_report Sample.indexed rfl (Prod.ext step rfl) (Prod.ext ended rfl)
  exact ⟨ended, k, done, last, within, carried, completed, rows⟩

end SharedTree
