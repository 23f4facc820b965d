import SharedTree.Proofs.Engine.Stepwise
/-!
What a run publishes. The events of a run are those that tell of what it reports as completed, in
that order, and of nothing else (`run_events`). Behind each of them stands a transaction, or a part
of one, that was committed: the commits of a run lead from the rows there were to the rows there are
(`run_commits`).
-/
namespace SharedTree

def reported : Except Error Cascade → List (TaskKind × TaskOutput)
  | .ok cascade => cascade.completed.map fun outcome => (outcome.kind, outcome.output)
  | .error _ => []

def eventsOf (completed : List (TaskKind × TaskOutput)) : List Event :=
  completed.flatMap fun told => told.2.events told.1

theorem eventsOf_reported (cascade : Cascade) :
    eventsOf (reported (.ok cascade)) = cascade.completed.flatMap SubTaskOutcome.events := by
  rw [eventsOf, reported, List.flatMap_map]
  rfl

def Membership.removal (row : Membership) : Event :=
  .membershipDeleted row.id row.itemId row.account

/-- The memberships that went with an item are told of before it. -/
theorem events_itemDeleted (kind : TaskKind) (row : Item) (memberships : List Membership) :
    (TaskOutput.itemDeleted row memberships).events kind =
      memberships.map Membership.removal ++ [.itemDeleted row.id] := by
  rw [TaskOutput.events, TaskOutput.announced, List.flatMap_append, List.flatMap_map,
    List.map_eq_flatMap]
  rfl

namespace Engine

variable {scene : Scene}

theorem runTogether_events {subtasks : List SubTask} {cascade : Cascade} {engine : Engine}
    (indexed : engine.store.tables.Indexed) (running : cascade.failure = none)
    (fresh : cascade.completed = []) :
    (runTogether scene subtasks cascade engine).2.events = engine.events ++
      (runTogether scene subtasks cascade engine).1.completed.flatMap SubTaskOutcome.events := by
  have together := runTogether_together scene subtasks cascade engine indexed running
  generalize (runTogether scene subtasks cascade engine).1 = finished at together ⊢
  generalize (runTogether scene subtasks cascade engine).2 = after at together ⊢
  cases together with
  | kept _ silent _ nothing => rw [silent.events, nothing, fresh, List.flatMap_nil, List.append_nil]
  | whole _ _ told => exact told

/-- A run publishes the events that tell of what it completed, and no others. -/
theorem run_events (engine : Engine) (scene : Scene) (task : Task)
    (indexed : engine.store.tables.Indexed) :
    (engine.run scene task).2.events =
      engine.events ++ eventsOf (reported (engine.run scene task).1) := by
  have silent := engine.transact_silent scene (fun cause _ => cause) (task.act scene)
  unfold run
  split
  · rename_i cause after ran
    rw [ran] at silent
    rw [silent.events, reported, eventsOf, List.flatMap_nil, List.append_nil]
  · rename_i output after ran
    rw [ran] at silent
    rw [announce_eq, eventsOf_reported, Cascade.direct, List.flatMap_singleton]
    exact congrArg (· ++ output.events task.kind) silent.events
  · rename_i subtasks after ran
    rw [ran] at silent
    have indexed' := ((transact_ok scene indexed ran).indexed (task.act_built scene)).2
    rw [eventsOf_reported, ← silent.events]
    cases scene.settings.cascadeMode with
    | stepwise =>
        obtain ⟨done, last, partway⟩ := runStepwise_partway scene subtasks
          (.delegated task.kind task.target? subtasks.length) after indexed' rfl
        exact partway.told rfl
    | atomic => exact runTogether_events indexed' rfl rfl

end Engine

structure Commit where
  kind : TaskKind
  output : TaskOutput
  before : Tables
  after : Tables

namespace Commit

def events (commit : Commit) : List Event := commit.output.events commit.kind

inductive Parts (scene : Scene) : Tables → List Commit → Tables → Prop where
  | none (tables : Tables) : Parts scene tables [] tables
  | next {before middle after : Tables} {rest : List Commit} (subtask : SubTask)
      (output : TaskOutput) : (subtask.act scene).Turns before output middle →
      Parts scene middle rest after →
      Parts scene before (⟨subtask.kind, output, before, middle⟩ :: rest) after

inductive Chain (scene : Scene) (task : Task) : Tables → List Commit → Tables → Prop where
  | whole {before after : Tables} (output : TaskOutput) :
      (task.act scene).Turns before (.done output) after →
      Chain scene task before [⟨task.kind, output, before, after⟩] after
  | parts {before after : Tables} {commits : List Commit} : Parts scene before commits after →
      Chain scene task before commits after

variable {scene : Scene} {task : Task} {before after : Tables} {commits : List Commit}

theorem Parts.indexed (parts : Parts scene before commits after) (indexed : before.Indexed) :
    after.Indexed := by
  induction parts with
  | none tables => exact indexed
  | next subtask output turns _ ih => exact ih (turns.indexed (subtask.act_built scene)).2

theorem Chain.indexed (chain : Chain scene task before commits after) (indexed : before.Indexed) :
    after.Indexed := by
  cases chain with
  | whole output turns => exact (turns.indexed (task.act_built scene)).2
  | parts parts => exact parts.indexed indexed

theorem of_committed {done : List (SubTask × TaskOutput)}
    (committed : Committed scene before done after) :
    ∃ commits, Parts scene before commits after ∧
      commits.map (fun commit => (commit.kind, commit.output)) =
        done.map fun ran => (ran.1.kind, ran.2) := by
  induction committed with
  | none tables => exact ⟨[], .none tables, rfl⟩
  | @next before middle after subtask output rest turns _ ih =>
      obtain ⟨commits, parts, same⟩ := ih
      exact ⟨⟨subtask.kind, output, before, middle⟩ :: commits, .next subtask output turns parts,
        by simp [same]⟩

end Commit

theorem numbered_outputs (number : Nat) (done : List (SubTask × TaskOutput)) :
    (numbered number done).map (fun outcome => (outcome.kind, outcome.output)) =
      done.map fun ran => (ran.1.kind, ran.2) := by
  induction done generalizing number with
  | nil => rfl
  | cons first rest ih => simp [numbered, ih]

/-- Every run is a chain of commits, one for each output that it reports, from the rows before it to
the rows after it. What it did to plan its subtasks left the rows as they were. -/
theorem Engine.run_commits (engine : Engine) (scene : Scene) (task : Task)
    (indexed : engine.store.tables.Indexed) :
    ∃ commits, Commit.Chain scene task engine.store.tables commits
        (engine.run scene task).2.store.tables ∧
      commits.map (fun commit => (commit.kind, commit.output)) =
        reported (engine.run scene task).1 := by
  have outcome := engine.run_outcome scene task indexed
  generalize (engine.run scene task).1 = result at outcome ⊢
  generalize (engine.run scene task).2.store.tables = after at outcome ⊢
  cases outcome with
  | refused cause => exact ⟨[], .parts (.none _), rfl⟩
  | done output turns => exact ⟨_, .whole output turns, rfl⟩
  | split cascade done left turns committed _ completed =>
      obtain ⟨_, work, planned, _, same, gives, rfl⟩ := turns
      rw [task.act_plans scene _ _ _ gives, same] at committed
      obtain ⟨commits, parts, outputs⟩ := Commit.of_committed committed
      exact ⟨commits, .parts parts, by rw [outputs, reported, completed, numbered_outputs]⟩

theorem Engine.run_indexed (engine : Engine) (scene : Scene) (task : Task)
    (indexed : engine.store.tables.Indexed) :
    (engine.run scene task).2.store.tables.Indexed := by
  obtain ⟨_, chain, _⟩ := engine.run_commits scene task indexed
  exact chain.indexed indexed

theorem eventsOf_commits (commits : List Commit) :
    eventsOf (commits.map fun commit => (commit.kind, commit.output)) =
      commits.flatMap Commit.events := by
  rw [eventsOf, List.flatMap_map]
  rfl

end SharedTree
