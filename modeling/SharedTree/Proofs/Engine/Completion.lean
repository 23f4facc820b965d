import SharedTree.Proofs.Access.Shared
import SharedTree.Proofs.Effect.CopyPlans
import SharedTree.Proofs.Effect.Relocation
import SharedTree.Proofs.Engine.CalmRun
import SharedTree.Proofs.Engine.Reached
/-!
A planned cascade completes. On rows that runs of tasks reach, with no pre-hooks and a store in
which nothing goes wrong, a task is refused only for reasons to be expected of it, and once it is
split all of its subtasks are done, in either mode (`planned_cascade_completes`). Nor does a request
for what an account may see fail on a row that refers to a missing item.
-/
namespace SharedTree

open SharedTree.Tables SharedTree.Action SharedTree.Engine

variable {levels most : Nat} {scene : Scene} {work : Work} {tables : Tables}

structure Cascade.Whole (cascade : Cascade) (plan : List SubTask) : Prop where
  unfailed : cascade.failure = none
  planned : cascade.planned = plan.length
  completed : cascade.completed.map (fun told => (told.number, told.kind, told.target)) =
    plan.zipIdx.map fun (subtask, number) => (number, subtask.kind, subtask.target)

/-! Tasks. -/

section Bare

variable (bare : scene.hooks.pre = [])
include bare

theorem Task.act_expected (sound : work.tables.Sound levels)
    (fresh : Fresh scene.ids work.drawn most work.tables) (task : Task) :
    (task.act scene).FailsOnly most (Error.Expected task.names) work := by
  cases task with
  | createItem new =>
      exact failsOnly_bind (createItem_expected bare sound fresh new)
        fun _ _ _ => (neverFails_pure _).failsOnly
  | updateItem id patch =>
      exact failsOnly_bind (updateItem_expected bare sound.indexed id patch)
        fun _ _ _ => (neverFails_pure _).failsOnly
  | deleteItem id =>
      exact failsOnly_bind (planDelete_expected id) fun _ _ _ => (neverFails_pure _).failsOnly
  | moveItem id under =>
      exact failsOnly_bind (moveItem_expected bare sound fresh id under)
        fun _ _ _ => (neverFails_pure _).failsOnly
  | copyItem id under =>
      exact failsOnly_bind (planCopy_expected sound id under)
        fun _ _ _ => (neverFails_pure _).failsOnly
  | createMembership item account permission =>
      exact failsOnly_bind (createMembership_expected bare sound.indexed fresh item account _)
        fun _ _ _ => (neverFails_pure _).failsOnly
  | updateMembership id permission => exact updateMembership_expected bare sound id permission
  | deleteMembership id purgeBelow => exact deleteMembership_expected bare sound id purgeBelow

/-- Whatever a task was split into can be carried out on the rows that it was planned on. -/
theorem Task.plan_completes {task : Task} {plan : List SubTask} {planning next : Work}
    (sound : work.tables.Sound levels) (fresh : Fresh scene.ids work.drawn most work.tables)
    (gives : (task.act scene).Gives work (.delegated plan) planning)
    (leads : next.transaction.LeadsBackTo work.tables) (same : next.tables = work.tables)
    (drawn : next.drawn = planning.drawn) : Completes scene most plan next := by
  have quiet := Hooks.writeNothing_of_bare bare
  have on_memberships (planned : OnMemberships plan work.tables) :
      Completes scene most plan next := by
    rw [← same] at planned
    exact onMemberships_complete bare leads planned
  cases task with
  | createItem new => exact absurd gives never_delegated
  | updateItem id patch => exact absurd gives never_delegated
  | moveItem id under => exact absurd gives never_delegated
  | createMembership item account permission => exact absurd gives never_delegated
  | deleteItem id =>
      obtain ⟨planned, _, ran, ended⟩ := (gives_bind _ _ _).mp gives
      obtain ⟨split, rfl⟩ := (gives_pure _ _).mp ended
      obtain ⟨item, found, _, _, rfl, _⟩ := planDelete_gives ran
      cases split
      have stands := sound.indexed.hasItem found
      rw [← same] at sound stands ⊢
      exact deletion_completes bare leads sound stands
  | copyItem id under =>
      obtain ⟨planned, _, ran, ended⟩ := (gives_bind _ _ _).mp gives
      obtain ⟨split, rfl⟩ := (gives_pure _ _).mp ended
      cases split
      exact copying_completes bare sound fresh ran leads same drawn
  | updateMembership id permission =>
      obtain ⟨row, found, _, changed⟩ := updateMembership_gives quiet sound.indexed gives
      exact on_memberships (changed.onMemberships sound.indexed (sound.indexed.hasRow found))
  | deleteMembership id purgeBelow =>
      obtain ⟨row, found, _, removed⟩ := deleteMembership_gives quiet gives
      exact on_memberships (removed.onMemberships sound.indexed (sound.indexed.hasRow found))

end Bare

/-! Runs. -/

theorem numbered_whole (number : Nat) (done : List (SubTask × TaskOutput)) :
    (numbered number done).map (fun told => (told.number, told.kind, told.target)) =
      ((done.map Prod.fst).zipIdx number).map fun (subtask, number) =>
        (number, subtask.kind, subtask.target) := by
  induction done generalizing number with
  | nil => rfl
  | cons first rest ih => simp only [numbered, List.map_cons, List.zipIdx_cons, ih]

theorem Engine.reached_whole {plan : List SubTask} {kind : TaskKind} {target : Option Id}
    (completes : (carryOut scene plan work).failed = none) :
    (reached (.delegated kind target plan.length) (carryOut scene plan work)).Whole plan := by
  cases carried : carryOut scene plan work with
  | mk done failed last =>
      rw [carried] at completes
      cases completes
      have ran := carryOut_done carried
      exact ⟨rfl, rfl, by rw [← ran]; exact numbered_whole 0 done⟩

/-- In a store where nothing goes wrong the run of a split task carries out its plan, whichever way
the subtasks are committed. -/
theorem Engine.run_split {engine : Engine} {task : Task} {plan : List SubTask} {planning : Work}
    (calm : engine.store.Calm) (indexed : engine.store.tables.Indexed)
    (rows : scene.hooks.RowsOnly)
    (gives : (task.act scene).Gives engine.nextWork (.delegated plan) planning) :
    (engine.run scene task).2.drawn = (carryOut scene plan planning.renewed).work.drawn ∧
      ((carryOut scene plan planning.renewed).failed = none →
        (engine.run scene task).1 =
          .ok (reached (.delegated task.kind task.target? plan.length)
            (carryOut scene plan planning.renewed))) := by
  obtain ⟨report, left, _⟩ := run_calm rows task calm indexed
  unfold Action.Gives at gives
  simp only [Task.playOut, gives] at report left
  refine ⟨(congrArg Work.drawn left).trans (Progress.settled_drawn _ _ _ _), fun completes => ?_⟩
  rw [report, Progress.settled_of_unfailed completes]

section Run

variable {engine : Engine} {task : Task} (bare : scene.hooks.pre = []) (calm : engine.store.Calm)
  (sound : engine.store.tables.Sound levels)
  (fresh : Fresh scene.ids engine.drawn (engine.run scene task).2.drawn engine.store.tables)
include bare calm sound fresh

theorem Engine.run_whole {plan : List SubTask} {planning : Work}
    (gives : (task.act scene).Gives engine.nextWork (.delegated plan) planning) :
    ∃ cascade, (engine.run scene task).1 = .ok cascade ∧ cascade.Whole plan := by
  obtain ⟨drawn, report⟩ :=
    run_split calm sound.indexed (Hooks.rowsOnly_of_bare bare) gives
  have same : planning.tables = engine.store.tables :=
    task.act_plans scene engine.nextWork plan planning gives
  have leads : planning.renewed.transaction.LeadsBackTo planning.tables :=
    Transaction.leadsBackTo_start (same ▸ sound.indexed)
  rw [same] at leads
  have completes : Completes scene (engine.run scene task).2.drawn plan planning.renewed :=
    Task.plan_completes bare sound fresh gives leads same rfl
  have unfailed := completes drawn.ge
  exact ⟨_, report unfailed, reached_whole unfailed⟩

theorem Engine.run_expected {cause : Error} (failed : (engine.run scene task).1 = .error cause) :
    cause.Expected task.names := by
  cases ended : (task.act scene).ending engine.nextWork with
  | mk result work =>
      cases result with
      | ok step =>
          obtain ⟨after, ran, _⟩ := transact_calm_ok scene calm (fun cause _ => cause) ended
          unfold run at failed
          rw [ran] at failed
          cases step <;> cases failed
      | error other =>
          obtain ⟨after, ran, _, left⟩ := transact_calm_error scene calm sound.indexed
            (task.act_built scene).logged (fun cause _ => cause) ended
          have drawn : work.drawn = after.drawn := (congrArg Work.drawn left).symm
          unfold run at failed fresh
          rw [ran] at failed fresh
          cases failed
          exact task.act_expected bare sound fresh cause work ended
            drawn.le

/-- A run that is not refused has done all there was to do. -/
theorem Engine.run_completed {cascade : Cascade} (ran : (engine.run scene task).1 = .ok cascade) :
    cascade.failure = none ∧ cascade.completed.length = cascade.planned := by
  cases ended : (task.act scene).ending engine.nextWork with
  | mk result work =>
      cases result with
      | error other =>
          obtain ⟨after, transacted, _⟩ := transact_calm_error scene calm sound.indexed
            (task.act_built scene).logged (fun cause _ => cause) ended
          unfold run at ran
          rw [transacted] at ran
          cases ran
      | ok step =>
          cases step with
          | done output =>
              obtain ⟨after, transacted, _⟩ :=
                transact_calm_ok scene calm (fun cause _ => cause) ended
              unfold run at ran
              rw [transacted] at ran
              cases ran
              exact ⟨rfl, rfl⟩
          | delegated plan =>
              obtain ⟨other, same, whole⟩ := run_whole bare calm sound fresh ended
              cases ran.symm.trans same
              refine ⟨whole.unfailed, ?_⟩
              have lengths := congrArg List.length whole.completed
              simpa [whole.planned] using lengths

end Run

/-! Requests. -/

theorem Engine.read_calm {Answer : Type} {engine : Engine} (calm : engine.store.Calm)
    (now : Instant) (question : Tables → Except Error Answer) :
    (engine.read now question).1 = question engine.store.tables := by
  unfold read
  rw [calm.tryBegin]
  have asked : question (Transaction.start engine.store.tables).tables =
      question engine.store.tables := rfl
  obtain ⟨store, passed, _⟩ := calm.tryCommit now (.start engine.store.tables)
  cases answered : question engine.store.tables with
  | error cause => simp only [asked, answered]
  | ok answer => simp only [asked, answered, passed]

namespace Tables.Sound

variable (sound : tables.Sound levels)
include sound

theorem sharedItems_ok (account : Id) : ∃ items, tables.sharedItems account = .ok items := by
  obtain ⟨items, answered, _⟩ := sound.indexed.sharedItems_answer sound.shape.on_item account
  exact ⟨items, answered⟩

theorem ancestors_ok {item : Item} (stands : tables.HasItem item) :
    ∃ items, tables.ancestors item = .ok items := by
  obtain ⟨items, answered, _⟩ := sound.indexed.mapM_getItemAt fun above inside => by
    have spans := (Path.mem_lineage above item.path).mp (List.mem_append_left _ inside)
    exact sound.shape.item_above stands spans
  exact ⟨items, answered⟩

/-- What is above an item is only ever refused with the item itself. -/
theorem ancestorsFor_error {actor id : Id} {cause : Error}
    (failed : tables.ancestorsFor actor id = .error cause) :
    tables.getItemFor actor .read id = .error cause := by
  unfold ancestorsFor at failed
  cases got : tables.getItemFor actor .read id with
  | error other =>
      rw [got] at failed
      cases failed
      rfl
  | ok item =>
      rw [got] at failed
      obtain ⟨items, answered⟩ := sound.ancestors_ok (sound.indexed.hasItem (getItemFor_ok got).1)
      cases answered.symm.trans failed

/-- A membership is refused if there is none or the actor may not read its item, which there is. -/
theorem membershipFor_error {actor id : Id} {cause : Error}
    (failed : tables.membershipFor actor id = .error cause) :
    cause = .membershipNotFound id ∨
      ∃ row item, tables.memberships[id]? = some row ∧ tables.itemAt? row.itemPath = some item ∧
        tables.require actor item .read = .error cause := by
  unfold membershipFor at failed
  cases found : tables.memberships[id]? with
  | none =>
      have missing : tables.getMembership id = .error (.membershipNotFound id) := by
        rw [getMembership, membership?, found]
      rw [missing] at failed
      cases failed
      exact Or.inl rfl
  | some row =>
      have got := getMembership_of_found found
      obtain ⟨item, carried⟩ := sound.item_carrying (sound.indexed.hasRow found)
      refine Or.inr ⟨row, item, rfl, getItemAt_ok carried, ?_⟩
      simp only [got, carried, bind, Except.bind] at failed
      split at failed
      · cases required : tables.require actor item .read with
        | error other =>
            rw [required] at failed
            cases failed
            rfl
        | ok held =>
            rw [required] at failed
            cases failed
      · cases failed

end Tables.Sound

def Sample.copying : Except Error Cascade × Engine :=
  engine.run (sceneOf owner) (.copyItem (id 100) none)

def Sample.copyPlan : List SubTask :=
  [.copyItem (id 100) (.root (id 107)) true,
    .copyItem document.id ((Path.root (id 107)).child (id 108)) false]

theorem Sample.unused : ∀ n < 111, 107 ≤ n → engine.store.tables.items[id n]? = none ∧
    engine.store.tables.memberships[id n]? = none := by
  decide +kernel

/-- Two identifiers for the copies and one for the owner's membership are drawn. -/
theorem Sample.fresh :
    Fresh (sceneOf owner).ids engine.drawn copying.2.drawn engine.store.tables := by
  have first : engine.drawn = 7 := by decide +kernel
  have last : copying.2.drawn = 10 := by decide +kernel
  rw [first, last]
  exact ⟨fun n above below => (unused (100 + n) (by omega) (by omega)).1,
    fun n above below => (unused (100 + n) (by omega) (by omega)).2,
    fun m n _ less below => id_ne (by omega) (by omega) (by omega)⟩

/-- On rows that runs have reached, with no pre-hooks and no faults, a task is refused only for reasons
to be expected, a plan is carried out to its end, and no request fails on a row that is missing. -/
theorem planned_cascade_completes {allowed : Settings → Prop} {engine : Engine}
    (reached : Reached allowed engine.store.tables) (calm : engine.store.Calm) :
    (∀ (scene : Scene) (task : Task), scene.hooks.pre = [] →
      Fresh scene.ids engine.drawn (engine.run scene task).2.drawn engine.store.tables →
      (∀ cause, (engine.run scene task).1 = .error cause → cause.Expected task.names) ∧
      (∀ plan planning,
        (task.act scene).Gives engine.nextWork (.delegated plan) planning →
        ∃ cascade, (engine.run scene task).1 = .ok cascade ∧ cascade.Whole plan) ∧
      ∀ cascade, (engine.run scene task).1 = .ok cascade →
        cascade.failure = none ∧ cascade.completed.length = cascade.planned) ∧
    ∀ (actor id : Id) (now : Instant),
      (∃ items, (engine.read now fun tables => tables.sharedItems actor).1 = .ok items) ∧
      (∀ cause, (engine.read now fun tables => tables.ancestorsFor actor id).1 = .error cause →
        engine.store.tables.getItemFor actor .read id = .error cause) ∧
      ∀ cause, (engine.read now fun tables => tables.membershipFor actor id).1 = .error cause →
        cause = .membershipNotFound id ∨
          ∃ row item, engine.store.tables.memberships[id]? = some row ∧
            engine.store.tables.itemAt? row.itemPath = some item ∧
            engine.store.tables.require actor item .read = .error cause := by
  obtain ⟨levels, sound⟩ := reached.sound
  refine ⟨fun scene task bare fresh => ⟨fun _ => Engine.run_expected bare calm sound fresh,
    fun _ _ => Engine.run_whole bare calm sound fresh,
    fun _ => Engine.run_completed bare calm sound fresh⟩, fun actor id now => ?_⟩
  simp only [Engine.read_calm calm]
  exact ⟨sound.sharedItems_ok actor, fun _ => sound.ancestorsFor_error,
    fun _ => sound.membershipFor_error⟩

theorem sample_planned_cascade_completes :
    Reached (fun _ => True) Sample.engine.store.tables ∧ Sample.engine.store.Calm ∧
      (Sample.sceneOf Sample.owner).hooks.pre = [] ∧
      Fresh (Sample.sceneOf Sample.owner).ids Sample.engine.drawn Sample.copying.2.drawn
        Sample.engine.store.tables ∧
      (∃ cascade, Sample.copying.1 = .ok cascade ∧ cascade.Whole Sample.copyPlan) ∧
      ∃ items, (Sample.engine.read default fun tables => tables.sharedItems Sample.guest).1 =
        .ok items := by
  obtain ⟨tasks, requests⟩ := planned_cascade_completes Sample.reached_any Sample.calm
  have step : (((Task.copyItem (Sample.id 100) none).act (Sample.sceneOf Sample.owner)).ending
      Sample.engine.nextWork).1 = .ok (.delegated Sample.copyPlan) := by
    decide +kernel
  obtain ⟨_, whole, _⟩ := tasks (Sample.sceneOf Sample.owner) _ rfl Sample.fresh
  exact ⟨Sample.reached_any, Sample.calm, rfl, Sample.fresh, whole _ _ (Prod.ext step rfl),
    (requests Sample.guest Sample.document.id default).1⟩

end SharedTree
