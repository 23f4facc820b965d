import SharedTree.Proofs.Action.Frame
import SharedTree.Proofs.Engine.Calm
import SharedTree.Proofs.Engine.Stepwise
/-!
The two ways to commit a cascade agree. Inside a savepoint a subtask does what it does in a
transaction of its own (`inSavepoint_ending`), so in a store where nothing goes wrong either mode
carries out the same subtasks; together they are committed at the end, or not at all
(`modes_agree`).
-/
namespace SharedTree

open SharedTree.Action SharedTree.Engine

variable {scene : Scene}

namespace Engine

theorem nextWork_renewed (engine : Engine) : engine.nextWork.renewed = engine.nextWork := rfl

theorem lift_ending {action : Action TaskOutput} {result : Except Error TaskOutput}
    {work after : Work} (ended : action.ending work = (result, after)) :
    Action.ending (ExceptT.lift action.run) work = (.ok result, after) :=
  (gives_lift result).mpr ended

/-- A subtask in a savepoint: if it is done, its writes stay on top of those before it, and if it
fails, these are all that is left. -/
theorem inSavepoint_ending (rows : scene.hooks.RowsOnly) (subtask : SubTask) {work after : Work}
    {result : Except Error TaskOutput} (indexed : work.tables.Indexed)
    (ended : (subtask.act scene).ending work.renewed = (result, after)) :
    (inSavepoint scene subtask).ending work =
      match result with
      | .ok output => (.ok output, after.onTop work.transaction)
      | .error cause => (.error cause, { after with transaction := work.transaction }) := by
  have built := subtask.act_built scene
  have marked : (write .savepoint).ending work =
      (.ok true, { work with transaction := work.transaction.savepoint }) := rfl
  have inner : (subtask.act scene).ending { work with transaction := work.transaction.savepoint } =
      (result, after.onTop work.transaction.savepoint) := by
    -- With or without the savepoint, a new transaction on the same rows is the same.
    rw [(built.framed rows).ending_renewed]
    show (((subtask.act scene).ending work.renewed).1,
      ((subtask.act scene).ending work.renewed).2.onTop work.transaction.savepoint) = _
    rw [ended]
  unfold inSavepoint
  rw [ending_bind, marked]
  simp only
  rw [ending_bind, lift_ending inner]
  cases result with
  | ok output => rfl
  | error cause =>
      -- What the subtask wrote leads back to the rows that the savepoint stands on.
      have leads := built.logged work.tables work.renewed (Transaction.leadsBackTo_start indexed)
      rw [ended] at leads
      have back : (after.transaction.onTop work.transaction.savepoint).apply .rollbackToSavepoint =
          .ok (true, work.transaction) := by
        rw [Transaction.apply, Transaction.rollbackToSavepoint_onTop leads]
        rfl
      have taken_back : (write .rollbackToSavepoint).ending
          (after.onTop work.transaction.savepoint) =
          (.ok true, { after with transaction := work.transaction }) :=
        (gives_write _ _).mpr ⟨_, back, rfl⟩
      simp only
      rw [ending_bind, taken_back]
      rfl

theorem runInSavepoints_carryOut (rows : scene.hooks.RowsOnly) (subtasks : List SubTask)
    (outcomes : List SubTaskOutcome) (work : Work) (indexed : work.tables.Indexed) :
    ∃ last, last.renewed = (carryOut scene subtasks work.renewed).work.renewed ∧
      runInSavepoints scene outcomes subtasks work =
        (match (carryOut scene subtasks work.renewed).failure outcomes.length with
          | none => .ok
              (outcomes ++ numbered outcomes.length (carryOut scene subtasks work.renewed).done)
          | some failure => .error failure, last) := by
  -- The rows, the count of identifiers and the notes are all that one subtask leaves to the next.
  induction subtasks generalizing outcomes work with
  | nil => exact ⟨work, rfl, by simp [runInSavepoints, carryOut, numbered, Progress.failure]⟩
  | cons subtask rest ih =>
      cases ended : (subtask.act scene).ending work.renewed with
      | mk result after =>
          have saved := inSavepoint_ending rows subtask indexed ended
          unfold ending at saved
          cases result with
          | ok output =>
              have kept := (subtask.act_built scene).logged work.tables work.renewed
                (Transaction.leadsBackTo_start indexed)
              rw [ended] at kept
              obtain ⟨last, same, ran⟩ := ih
                (outcomes ++ [⟨outcomes.length, subtask.kind, subtask.target, output⟩])
                (after.onTop work.transaction) kept.indexed
              rw [carryOut_ok ended]
              refine ⟨last, same, ?_⟩
              simp only [runInSavepoints, saved, ran, Progress.failure_next, numbered,
                List.length_append, List.length_singleton, List.append_assoc, List.singleton_append]
              rfl
          | error cause =>
              rw [carryOut_error ended]
              refine ⟨{ after with transaction := work.transaction }, rfl, ?_⟩
              simp [runInSavepoints, saved, Progress.failure]

def reached (cascade : Cascade) (progress : Progress) : Cascade :=
  let told := { cascade with
    completed := cascade.completed ++ numbered cascade.completed.length progress.done }
  match progress.failure cascade.completed.length with
  | none => told
  | some failure => told.stop failure

theorem reached_next (cascade : Cascade) (progress : Progress) (subtask : SubTask)
    (output : TaskOutput) :
    reached (cascade.complete ⟨cascade.completed.length, subtask.kind, subtask.target, output⟩)
        progress =
      reached cascade { progress with done := (subtask, output) :: progress.done } := by
  simp only [reached, Cascade.complete, Progress.failure_next, numbered, List.length_append,
    List.length_singleton, List.append_assoc, List.singleton_append]

theorem runStepwise_calm (scene : Scene) (subtasks : List SubTask) (cascade : Cascade)
    (engine : Engine) (calm : engine.store.Calm) (indexed : engine.store.tables.Indexed) :
    (runStepwise scene subtasks cascade engine).1 =
        reached cascade (carryOut scene subtasks engine.nextWork) ∧
      (runStepwise scene subtasks cascade engine).2.nextWork =
        (carryOut scene subtasks engine.nextWork).work ∧
      (runStepwise scene subtasks cascade engine).2.store.Calm := by
  induction subtasks generalizing cascade engine with
  | nil => simp [runStepwise, carryOut, reached, Progress.failure, numbered, calm]
  | cons subtask rest ih =>
      have logged := (subtask.act_built scene).logged
      cases ended : (subtask.act scene).ending engine.nextWork with
      | mk result work =>
          cases result with
          | ok output =>
              obtain ⟨after, ran, calm', renewed⟩ :=
                transact_calm_ok scene calm (fun _ refusal => refusal) ended
              have turns := transact_ok scene indexed ran
              obtain ⟨report, rows, calm''⟩ := ih
                (cascade.complete ⟨cascade.completed.length, subtask.kind, subtask.target, output⟩)
                (after.telling (output.reports scene subtask.kind) (output.events subtask.kind))
                calm' (turns.indexed (subtask.act_built scene)).2
              have begun : (after.telling (output.reports scene subtask.kind)
                  (output.events subtask.kind)).nextWork = work.renewed := renewed
              rw [begun] at report rows
              simp only [runStepwise, ran]
              rw [announce_eq, carryOut_ok ended]
              exact ⟨report.trans (reached_next _ _ _ _), rows, calm''⟩
          | error cause =>
              obtain ⟨after, ran, calm', left⟩ := transact_calm_error scene calm indexed logged
                (fun _ refusal => refusal) ended
              rw [carryOut_error ended]
              simp only [runStepwise, ran]
              exact ⟨by simp [reached, Progress.failure, numbered], left, calm'⟩

section Together

variable (scene : Scene) (rows : scene.hooks.RowsOnly) {subtasks : List SubTask}
  (cascade : Cascade) {engine : Engine} (calm : engine.store.Calm)
  (indexed : engine.store.tables.Indexed)
include rows calm indexed

theorem runTogether_calm_done (fresh : cascade.completed = [])
    (done : (carryOut scene subtasks engine.nextWork).failure 0 = none) :
    (runTogether scene subtasks cascade engine).1 =
        reached cascade (carryOut scene subtasks engine.nextWork) ∧
      (runTogether scene subtasks cascade engine).2.store.tables =
        (carryOut scene subtasks engine.nextWork).work.tables ∧
      (runTogether scene subtasks cascade engine).2.events = engine.events ++
        (runTogether scene subtasks cascade engine).1.completed.flatMap SubTaskOutcome.events := by
  obtain ⟨last, same, ran⟩ := runInSavepoints_carryOut rows subtasks [] engine.nextWork indexed
  rw [nextWork_renewed] at same ran
  have left := congrArg Work.tables same
  rw [List.length_nil, done] at ran
  obtain ⟨store, passed, _, kept⟩ := calm.tryCommit scene.now last.transaction
  unfold runTogether
  rw [calm.tryBegin]
  simp only [startWork_eq, ran, passed, announceAll_eq]
  exact ⟨by simp [reached, fresh, done], Eq.trans kept left, rfl⟩

theorem runTogether_calm_stopped {failure : SubTaskFailure}
    (stopped : (carryOut scene subtasks engine.nextWork).failure 0 = some failure) :
    (runTogether scene subtasks cascade engine).1 = cascade.stop failure := by
  obtain ⟨last, _, ran⟩ := runInSavepoints_carryOut rows subtasks [] engine.nextWork indexed
  rw [nextWork_renewed, List.length_nil, stopped] at ran
  unfold runTogether
  rw [calm.tryBegin]
  simp only [startWork_eq, ran]

end Together

end Engine

/-! Only the engine looks at the mode. -/

def Scene.inMode (scene : Scene) (mode : CascadeMode) : Scene :=
  { scene with settings := { scene.settings with cascadeMode := mode } }

theorem Action.planCopies_inMode (mode : CascadeMode) (copies : List (Id × Path))
    (rows : List Item) :
    planCopies (scene.inMode mode) copies rows = planCopies scene copies rows := by
  induction rows generalizing copies with
  | nil => rfl
  | cons item rest ih =>
      simp only [planCopies, ih]
      rfl

theorem Task.act_inMode (mode : CascadeMode) (task : Task) :
    task.act (scene.inMode mode) = task.act scene := by
  cases task with
  | copyItem id under =>
      simp only [act, planCopy, planCopies_inMode]
      rfl
  | _ => rfl

theorem SubTask.act_inMode (mode : CascadeMode) (subtask : SubTask) :
    subtask.act (scene.inMode mode) = subtask.act scene := by
  cases subtask <;> rfl

theorem carryOut_inMode (scene : Scene) (mode : CascadeMode) (subtasks : List SubTask)
    (work : Work) :
    carryOut (scene.inMode mode) subtasks work = carryOut scene subtasks work := by
  induction subtasks generalizing work with
  | nil => rfl
  | cons subtask rest ih => simp only [carryOut, SubTask.act_inMode, ih]

inductive Agree (before : Engine) :
    Except Error Cascade × Engine → Except Error Cascade × Engine → Prop where
  | refused {single together : Engine} (cause : Error) :
      Agree before (.error cause, single) (.error cause, together)
  | completed {single together : Engine} {cascade : Cascade} : cascade.failure = none →
      single.store.tables = together.store.tables → single.events = together.events →
      Agree before (.ok cascade, single) (.ok cascade, together)
  | stopped {single together : Engine} {cascade : Cascade} (failure : SubTaskFailure) :
      cascade.failure = some failure → together.store.tables = before.store.tables →
      together.events = before.events → together.reports = before.reports →
      Agree before (.ok cascade, single) (.ok { cascade with completed := [] }, together)

theorem subtasks_agree {before engine : Engine} (calm : engine.store.Calm)
    (indexed : engine.store.tables.Indexed) (rows : scene.hooks.RowsOnly) (subtasks : List SubTask)
    {cascade : Cascade} (fresh : cascade.completed = []) (running : cascade.failure = none)
    (tables : engine.store.tables = before.store.tables) (silent : before.Silent engine) :
    Agree before
      (.ok (runStepwise (scene.inMode .stepwise) subtasks cascade engine).1,
        (runStepwise (scene.inMode .stepwise) subtasks cascade engine).2)
      (.ok (runTogether (scene.inMode .atomic) subtasks cascade engine).1,
        (runTogether (scene.inMode .atomic) subtasks cascade engine).2) := by
  obtain ⟨report, left, _⟩ :=
    runStepwise_calm (scene.inMode .stepwise) subtasks cascade engine calm indexed
  obtain ⟨_, _, partway⟩ :=
    runStepwise_partway (scene.inMode .stepwise) subtasks cascade engine indexed running
  rw [carryOut_inMode] at report left
  have carried := carryOut_inMode scene .atomic subtasks engine.nextWork
  cases stopped : (carryOut scene subtasks engine.nextWork).failure 0 with
  | none =>
      obtain ⟨report', kept, told⟩ := runTogether_calm_done (scene.inMode .atomic) rows cascade
        calm indexed fresh (carried ▸ stopped)
      rw [carried] at report' kept
      have rows_left := congrArg Work.tables left
      have events_left := partway.told fresh
      rw [report] at events_left ⊢
      rw [report'] at told ⊢
      refine .completed ?_ (Eq.trans rows_left kept.symm) (events_left.trans told.symm)
      simp only [reached, fresh, List.length_nil, stopped, running]
  | some failure =>
      -- One by one, the subtasks before the failure stay; together, none of them does.
      have report' := runTogether_calm_stopped (scene.inMode .atomic) rows cascade calm indexed
        (carried ▸ stopped)
      have stopped' : (runTogether (scene.inMode .atomic) subtasks cascade engine).1.failure =
          some failure := by
        rw [report']
        rfl
      obtain ⟨kept, silent'⟩ := runTogether_stopped indexed running stopped'
      have emptied : cascade.stop failure =
          { reached cascade (carryOut scene subtasks engine.nextWork) with completed := [] } := by
        simp only [reached, fresh, List.length_nil, stopped, Cascade.stop]
      rw [report, report', emptied]
      refine .stopped failure ?_ (kept.trans tables) (silent'.events.trans silent.events)
        (silent'.reports.trans silent.reports)
      simp only [reached, fresh, List.length_nil, stopped, Cascade.stop]

/-- Where nothing goes wrong in the store and hooks keep to row operations, the two ways to commit a
cascade agree. -/
theorem modes_agree (engine : Engine) (scene : Scene) (task : Task)
    (indexed : engine.store.tables.Indexed) (calm : engine.store.Calm)
    (rows : scene.hooks.RowsOnly) :
    Agree engine (engine.run (scene.inMode .stepwise) task)
      (engine.run (scene.inMode .atomic) task) := by
  have silent := engine.transact_silent scene (fun cause _ => cause) (task.act scene)
  have same (mode : CascadeMode) :
      engine.transact (scene.inMode mode) (fun cause _ => cause) (task.act (scene.inMode mode)) =
        engine.transact scene (fun cause _ => cause) (task.act scene) := by
    rw [task.act_inMode]
    rfl
  unfold Engine.run
  rw [same, same]
  cases ran : engine.transact scene (fun cause _ => cause) (task.act scene) with
  | mk result after =>
      rw [ran] at silent
      cases result with
      | error cause => exact .refused cause
      | ok step =>
          cases step with
          | done output => exact .completed rfl rfl rfl
          | delegated subtasks =>
              obtain ⟨work, gives, _⟩ := transact_gives scene ran
              obtain ⟨_, ran', calm', _⟩ := transact_calm_ok scene calm (fun cause _ => cause) gives
              cases ran.symm.trans ran'
              have kept := transact_plan ran
              exact subtasks_agree calm' (kept ▸ indexed) rows subtasks rfl rfl kept silent

theorem Sample.calm : engine.store.Calm where
  gates := by decide +kernel
  faults := by decide +kernel
  usable := by
    have memory : engine.store.journal = none := by decide +kernel
    intro journal found
    cases memory.symm.trans found

theorem Sample.guarded_rowsOnly (mode : CascadeMode) : (guarded mode).hooks.RowsOnly := by
  rintro hook (_ | ⟨_, ⟨⟩⟩) call
  show (guard call).RowsOnly
  unfold guard
  split
  · exact .write rfl fun _ => .refuse _
  · exact .done

theorem sample_modes_agree :
    Sample.engine.store.tables.Indexed ∧ Sample.engine.store.Calm ∧
      (Sample.guarded .stepwise).hooks.RowsOnly ∧
      Agree Sample.engine
        (Sample.engine.run ((Sample.guarded .stepwise).inMode .stepwise)
          (.deleteItem (Sample.id 100)))
        (Sample.engine.run ((Sample.guarded .stepwise).inMode .atomic)
          (.deleteItem (Sample.id 100))) :=
  ⟨Sample.indexed, Sample.calm, Sample.guarded_rowsOnly _,
    modes_agree _ _ _ Sample.indexed Sample.calm (Sample.guarded_rowsOnly _)⟩

end SharedTree
