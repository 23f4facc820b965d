import SharedTree.Proofs.Engine.CarryOut
/-!
What a run of a task leaves in the store. A run that is refused leaves the rows as they were; one
that is done at once leaves what its action made of them; and one that was split leaves what the
first so many of its subtasks made of them, one after the other, in either mode (`run_outcome`).
Nothing is assumed about hooks here, nor about which calls of the store are refused or fail.
-/
namespace SharedTree

inductive Outcome (scene : Scene) (task : Task) (before : Tables) :
    Except Error Cascade → Tables → Prop where
  | refused (cause : Error) : Outcome scene task before (.error cause) before
  | done {after : Tables} (output : TaskOutput) :
      (task.act scene).Turns before (.done output) after →
      Outcome scene task before (.ok (.direct task.kind output)) after
  | split {planned after : Tables} (cascade : Cascade) (done : List (SubTask × TaskOutput))
      (left : List SubTask) :
      (task.act scene).Turns before (.delegated (done.map Prod.fst ++ left)) planned →
      Committed scene planned done after → (cascade.failure = .none ↔ left = []) →
      cascade.completed = numbered 0 done → Outcome scene task before (.ok cascade) after

namespace Outcome

variable {scene : Scene} {task : Task} {before after : Tables} {cascade : Cascade}

/-- A task that is never split is done when it is not refused, and its report tells its output. -/
theorem direct_of_done {action : Action TaskOutput}
    (act : task.act scene = do return TaskStep.done (← action))
    (outcome : Outcome scene task before (.ok cascade) after) :
    ∃ output, cascade = .direct task.kind output ∧ action.Turns before output after := by
  cases outcome with
  | done _ turns =>
      rw [act] at turns
      obtain ⟨output, same, turns⟩ := turns.of_done
      cases same
      exact ⟨_, rfl, turns⟩
  | split _ _ _ turns =>
      rw [act] at turns
      obtain ⟨_, impossible, _⟩ := turns.of_done
      cases impossible

theorem turns_of_done {action : Action TaskOutput}
    (act : task.act scene = do return TaskStep.done (← action))
    (outcome : Outcome scene task before (.ok cascade) after) :
    ∃ output, action.Turns before output after := by
  obtain ⟨output, _, turns⟩ := outcome.direct_of_done act
  exact ⟨output, turns⟩

/-- A task that is always split has some of its plan behind it when it is not refused, and all of
it when no subtask failed. -/
theorem split_of_delegated {action : Action (List SubTask)}
    (act : task.act scene = do return TaskStep.delegated (← action))
    (outcome : Outcome scene task before (.ok cascade) after) :
    ∃ planned done left, action.Turns before (done.map Prod.fst ++ left) planned ∧
      Committed scene planned done after ∧ (cascade.failure = .none ↔ left = []) ∧
      cascade.completed = numbered 0 done := by
  cases outcome with
  | done _ turns =>
      rw [act] at turns
      obtain ⟨_, impossible, _⟩ := turns.of_delegated
      cases impossible
  | @split planned _ _ done left turns committed told report =>
      rw [act] at turns
      obtain ⟨subtasks, same, turns⟩ := turns.of_delegated
      cases same
      exact ⟨planned, done, left, turns, committed, told, report⟩

theorem committed_of_delegated {action : Action (List SubTask)}
    (act : task.act scene = do return TaskStep.delegated (← action))
    (outcome : Outcome scene task before (.ok cascade) after) :
    ∃ planned done left, action.Turns before (done.map Prod.fst ++ left) planned ∧
      Committed scene planned done after ∧ cascade.completed = numbered 0 done := by
  obtain ⟨planned, done, left, turns, committed, _, report⟩ := outcome.split_of_delegated act
  exact ⟨planned, done, left, turns, committed, report⟩

theorem whole_of_delegated {action : Action (List SubTask)}
    (act : task.act scene = do return TaskStep.delegated (← action))
    (outcome : Outcome scene task before (.ok cascade) after) (whole : cascade.failure = .none) :
    ∃ planned done, action.Turns before (done.map Prod.fst) planned ∧
      Committed scene planned done after := by
  obtain ⟨planned, done, left, turns, committed, told, _⟩ := outcome.split_of_delegated act
  rw [told.mp whole, List.append_nil] at turns
  exact ⟨planned, done, turns, committed⟩

end Outcome

namespace Engine

variable (scene : Scene)

theorem gives_lift {Answer : Type} {action : Action Answer} {work after : Work}
    (result : Except Error Answer) :
    Action.Gives (ExceptT.lift action.run) work result after ↔
      action.ending work = (result, after) := by
  have ran : Action.ending (ExceptT.lift action.run) work =
      (.ok (action.ending work).1, (action.ending work).2) := rfl
  rw [Action.Gives, ran]
  cases action.ending work
  simp

theorem releaseSavepoint_tables {transaction after : Transaction} {found : Bool}
    (released : transaction.apply .releaseSavepoint = .ok (found, after)) :
    after.tables = transaction.tables := by
  simp only [Transaction.apply, Transaction.releaseSavepoint] at released
  split at released <;> cases released
  rfl

theorem inSavepoint_leadsBackTo {start : Tables} (subtask : SubTask) {work : Work}
    (leads : work.transaction.LeadsBackTo start) :
    ((inSavepoint scene subtask).ending work).2.transaction.LeadsBackTo start := by
  have lifted :
      Action.Logged (ExceptT.lift (subtask.act scene).run : Action (Except Error TaskOutput)) := by
    intro start work leads
    exact (subtask.act_built scene).logged start work leads
  refine Action.logged_bind (Action.logged_write _)
    (fun _ => Action.logged_bind lifted ?_) start work leads
  intro ending
  cases ending with
  | ok output => exact Action.logged_bind (Action.logged_write _) fun _ => Action.logged_pure _
  | error cause => exact Action.logged_bind (Action.logged_write _) fun _ => Action.logged_throw _

/-- A subtask that is done inside a savepoint leaves what it leaves outside of one. -/
theorem inSavepoint_turns {start : Tables} {subtask : SubTask} {work after : Work}
    {output : TaskOutput} (leads : work.transaction.LeadsBackTo start)
    (gives : (inSavepoint scene subtask).Gives work output after) :
    (subtask.act scene).Turns work.tables output after.tables := by
  unfold inSavepoint at gives
  obtain ⟨_, marked, saved, rest⟩ := (Action.gives_bind _ _ _).mp gives
  obtain ⟨ending, acted, lifted, rest⟩ := (Action.gives_bind _ _ _).mp rest
  obtain ⟨transaction, ok, rfl⟩ := (Action.gives_write _ _).mp saved
  have ran : (subtask.act scene).ending { work with transaction } = (ending, acted) :=
    (gives_lift _).mp lifted
  cases ending with
  | error cause =>
      obtain ⟨_, _, _, thrown⟩ := (Action.gives_bind _ _ _).mp rest
      exact absurd thrown (Action.gives_throw _ _)
  | ok other =>
      obtain ⟨_, released, release, ended⟩ := (Action.gives_bind _ _ _).mp rest
      obtain ⟨rfl, rfl⟩ := (Action.gives_pure _ _).mp ended
      refine ⟨start, { work with transaction }, acted, leads.apply ok, ?_, ran, ?_⟩
      · cases ok
        rfl
      · obtain ⟨transaction', ok', rfl⟩ := (Action.gives_write _ _).mp release
        exact (releaseSavepoint_tables ok').symm

theorem runInSavepoints_leadsBackTo {start : Tables} (subtasks : List SubTask)
    (outcomes : List SubTaskOutcome) (work : Work) (leads : work.transaction.LeadsBackTo start) :
    (runInSavepoints scene outcomes subtasks work).2.transaction.LeadsBackTo start := by
  induction subtasks generalizing outcomes work with
  | nil => exact leads
  | cons subtask rest ih =>
      have kept := inSavepoint_leadsBackTo scene subtask leads
      simp only [runInSavepoints]
      split
      · rename_i output after ran
        rw [Action.ending, ran] at kept
        exact ih _ after kept
      · rename_i cause after ran
        rw [Action.ending, ran] at kept
        exact kept

theorem runInSavepoints_ok {start : Tables} {subtasks : List SubTask}
    {outcomes finished : List SubTaskOutcome} {work after : Work}
    (leads : work.transaction.LeadsBackTo start)
    (ran : runInSavepoints scene outcomes subtasks work = (.ok finished, after)) :
    ∃ done, done.map Prod.fst = subtasks ∧ Committed scene work.tables done after.tables ∧
      finished = outcomes ++ numbered outcomes.length done := by
  induction subtasks generalizing outcomes work with
  | nil =>
      cases ran
      exact ⟨[], rfl, .none _, by simp [numbered]⟩
  | cons subtask rest ih =>
      have kept := inSavepoint_leadsBackTo scene subtask leads
      simp only [runInSavepoints] at ran
      split at ran
      · rename_i output middle ended
        rw [Action.ending, ended] at kept
        obtain ⟨done, shape, committed, report⟩ := ih kept ran
        refine ⟨(subtask, output) :: done, by simp [shape],
          .next (inSavepoint_turns scene leads ended) committed, ?_⟩
        simpa [numbered] using report
      · cases ran

theorem stopAt_completed (cascade : Cascade) (number : Nat) (subtask : Option SubTask)
    (cause : Error) : (stopAt cascade number subtask cause).completed = cascade.completed := by
  cases subtask <;> rfl

theorem stopAt_failure (cascade : Cascade) (number : Nat) (subtask : Option SubTask)
    (cause : Error) (running : cascade.failure = none) :
    (stopAt cascade number subtask cause).failure = none ↔ subtask = none := by
  cases subtask <;> simp [stopAt, Cascade.stop, running]

/-- What can come of subtasks that are run in one transaction: it does not come to its end, which
leaves everything as it was, or all of them are done. -/
inductive Together (scene : Scene) (subtasks : List SubTask) (cascade : Cascade) (before : Engine) :
    Cascade → Engine → Prop where
  | kept {stopped : Cascade} {after : Engine} : after.store.tables = before.store.tables →
      Silent before after → (stopped.failure = none ↔ subtasks = []) →
      stopped.completed = cascade.completed →
      Together scene subtasks cascade before stopped after
  | whole {outcomes : List SubTaskOutcome} {work : Work} {after : Engine} :
      runInSavepoints scene [] subtasks before.nextWork = (.ok outcomes, work) →
      after.store.tables = work.tables →
      after.events = before.events ++ outcomes.flatMap SubTaskOutcome.events →
      Together scene subtasks cascade before { cascade with completed := outcomes } after

theorem runTogether_together (subtasks : List SubTask) (cascade : Cascade) (engine : Engine)
    (indexed : engine.store.tables.Indexed) (running : cascade.failure = none) :
    Together scene subtasks cascade engine (runTogether scene subtasks cascade engine).1
      (runTogether scene subtasks cascade engine).2 := by
  unfold runTogether
  split
  · rename_i cause store refused
    refine .kept (Store.tryBegin_error refused) ⟨rfl, rfl⟩ ?_ (stopAt_completed _ _ _ _)
    rw [stopAt_failure _ _ _ _ running, List.head?_eq_none_iff]
  · rename_i transaction begun began
    obtain ⟨rfl, _⟩ := Store.tryBegin_ok began
    -- Whatever the subtasks do, their log leads back to where the transaction began.
    have leads := engine.nextWork_leadsBackTo indexed
    have kept := runInSavepoints_leadsBackTo scene subtasks [] _ leads
    have taken_back := Transaction.rollback_of_leadsBackTo kept
    unfold nextWork at taken_back
    split
    · rename_i failure work ended
      rw [ended] at taken_back
      have rolled_back := Store.tryRollback_tables begun work.transaction
      refine .kept (rolled_back.trans taken_back) ⟨rfl, rfl⟩ ?_ rfl
      constructor
      · intro absurd_failure
        cases absurd_failure
      · rintro rfl
        cases ended
    · rename_i outcomes work ended
      rw [ended] at taken_back
      have committed := Store.tryCommit_tables begun scene.now work.transaction
      split
      · rename_i cause store failed
        rw [failed] at committed
        refine .kept (committed.trans taken_back) ⟨rfl, rfl⟩ ?_ (stopAt_completed _ _ _ _)
        rw [stopAt_failure _ _ _ _ running, List.getLast?_eq_none_iff]
      · rename_i store passed
        rw [passed] at committed
        rw [announceAll_eq]
        exact .whole ended committed rfl

theorem runTogether_outcome (subtasks : List SubTask) (cascade : Cascade) (engine : Engine)
    (indexed : engine.store.tables.Indexed) (running : cascade.failure = none)
    (fresh : cascade.completed = []) :
    ∃ done left, subtasks = done.map Prod.fst ++ left ∧
      Committed scene engine.store.tables done
        (runTogether scene subtasks cascade engine).2.store.tables ∧
      ((runTogether scene subtasks cascade engine).1.failure = none ↔ left = []) ∧
      (runTogether scene subtasks cascade engine).1.completed = numbered 0 done := by
  have together := runTogether_together scene subtasks cascade engine indexed running
  generalize (runTogether scene subtasks cascade engine).1 = finished at together
  generalize (runTogether scene subtasks cascade engine).2 = after at together
  cases together with
  | kept same _ told nothing => exact ⟨[], subtasks, rfl, same ▸ .none _, told, nothing.trans fresh⟩
  | whole ended same _ =>
      obtain ⟨done, shape, committed, rfl⟩ :=
        runInSavepoints_ok scene (engine.nextWork_leadsBackTo indexed) ended
      exact ⟨done, [], by simp [shape], same ▸ committed, by simp [running], rfl⟩

theorem run_refused {engine after : Engine} {scene : Scene} {task : Task} {cause : Error}
    (ran : engine.transact scene (fun cause _ => cause) (task.act scene) = (.error cause, after)) :
    engine.run scene task = (.error cause, after) := by
  rw [run, ran]

theorem run_done {engine after : Engine} {scene : Scene} {task : Task} {output : TaskOutput}
    (ran : engine.transact scene (fun cause _ => cause) (task.act scene) =
      (.ok (.done output), after)) :
    engine.run scene task = (.ok (.direct task.kind output),
      after.telling (output.reports scene task.kind) (output.events task.kind)) := by
  rw [run, ran, ← announce_eq]

/-- The subtasks that a task is split into when an engine runs it, none if it is not split. -/
def plan (engine : Engine) (scene : Scene) (task : Task) : List SubTask :=
  match (task.act scene).ending engine.nextWork with
  | (.ok (.delegated subtasks), _) => subtasks
  | _ => []

theorem plan_of_gives {engine : Engine} {scene : Scene} {task : Task} {subtasks : List SubTask}
    {planning : Work}
    (gives : (task.act scene).Gives engine.nextWork (.delegated subtasks) planning) :
    engine.plan scene task = subtasks := by
  rw [plan, gives]

/-- A task that is split: the first so many subtasks of its plan are done, one after the other. -/
theorem run_delegated {engine middle : Engine} {scene : Scene} {task : Task} {subtasks : List SubTask}
    (indexed : middle.store.tables.Indexed)
    (ran : engine.transact scene (fun cause _ => cause) (task.act scene) =
      (.ok (.delegated subtasks), middle)) :
    ∃ cascade done left, (engine.run scene task).1 = .ok cascade ∧
      subtasks = done.map Prod.fst ++ left ∧
      Committed scene middle.store.tables done (engine.run scene task).2.store.tables ∧
      (cascade.failure = none ↔ left = []) ∧ cascade.completed = numbered 0 done := by
  unfold run
  rw [ran]
  cases scene.settings.cascadeMode with
  | stepwise =>
      obtain ⟨done, last, partway⟩ := runStepwise_partway scene subtasks
        (.delegated task.kind task.target? subtasks.length) middle indexed rfl
      exact ⟨_, done, _, rfl, partway.plan, partway.committed indexed, partway.left_iff,
        partway.completed⟩
  | atomic =>
      obtain ⟨done, left, split, committed, whole, report⟩ := runTogether_outcome scene subtasks
        (.delegated task.kind task.target? subtasks.length) middle indexed rfl rfl
      exact ⟨_, done, left, rfl, split, committed, whole, report⟩

/-- Every run of a task has one of the three outcomes. -/
theorem run_outcome (engine : Engine) (scene : Scene) (task : Task)
    (indexed : engine.store.tables.Indexed) :
    Outcome scene task engine.store.tables (engine.run scene task).1
      (engine.run scene task).2.store.tables := by
  rcases ran : engine.transact scene (fun cause _ => cause) (task.act scene) with
    ⟨cause | output | subtasks, after⟩
  · rw [run_refused ran, transact_error scene indexed (task.act_built scene).logged ran]
    exact .refused cause
  · have turns := transact_ok scene indexed ran
    rw [run_done ran]
    exact .done output turns
  · have planned := transact_ok scene indexed ran
    have indexed' := (planned.indexed (task.act_built scene)).2
    obtain ⟨cascade, done, left, told, rfl, committed, whole, report⟩ := run_delegated indexed' ran
    rw [told]
    exact .split cascade done left planned committed whole report

end Engine

end SharedTree
