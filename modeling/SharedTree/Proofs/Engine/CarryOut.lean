import SharedTree.Proofs.Engine.Announce
import SharedTree.Proofs.Engine.Transact
/-!
Subtasks one after the other. To carry out subtasks is to run each on what the ones before it left,
up to the first that fails, which leaves no trace (`carryOut`). When each subtask is committed on
its own, the store can fail as well, and then fewer of them are done; but whatever happens, the
report, the rows and the events are those of the same first so many subtasks (`Engine.Partway`).
-/
namespace SharedTree

structure Progress where
  done : List (SubTask × TaskOutput)
  failed : Option (SubTask × Error)
  work : Work

/-- Carries out subtasks, each in a transaction of its own, up to the first that fails. What that
one wrote is taken back; its notes stay, and the identifiers it drew stay drawn. -/
def carryOut (scene : Scene) : List SubTask → Work → Progress
  | [], work => ⟨[], none, work⟩
  | subtask :: rest, work =>
      match (subtask.act scene).ending work with
      | (.ok output, after) =>
          let later := carryOut scene rest after.renewed
          { later with done := (subtask, output) :: later.done }
      | (.error cause, after) =>
          ⟨[], some (subtask, cause), { after with transaction := work.transaction }⟩

def numbered (number : Nat) : List (SubTask × TaskOutput) → List SubTaskOutcome
  | [] => []
  | (subtask, output) :: rest =>
      ⟨number, subtask.kind, subtask.target, output⟩ :: numbered (number + 1) rest

def Progress.failure (number : Nat) (progress : Progress) : Option SubTaskFailure :=
  progress.failed.map fun failed =>
    ⟨number + progress.done.length, failed.1.kind, failed.1.target, failed.2⟩

inductive Committed (scene : Scene) : Tables → List (SubTask × TaskOutput) → Tables → Prop where
  | none (tables : Tables) : Committed scene tables [] tables
  | next {before middle after : Tables} {subtask : SubTask} {output : TaskOutput}
      {rest : List (SubTask × TaskOutput)} :
      (subtask.act scene).Turns before output middle → Committed scene middle rest after →
      Committed scene before ((subtask, output) :: rest) after

/-- What every subtask hands on to the rest of its plan holds of what is left of the plan. -/
theorem Committed.invariant {scene : Scene} {before after : Tables}
    {done : List (SubTask × TaskOutput)} (committed : Committed scene before done after)
    (left : List SubTask) (holds : List SubTask → Tables → Prop)
    (turn : ∀ subtask rest output before after, holds (subtask :: rest) before →
      (subtask.act scene).Turns before output after → holds rest after)
    (start : holds (done.map Prod.fst ++ left) before) : holds left after := by
  induction committed with
  | none tables => exact start
  | next turns _ ih => exact ih (turn _ _ _ _ _ start turns)

variable {scene : Scene}

theorem Progress.failure_next (number : Nat) (progress : Progress) (first : SubTask × TaskOutput) :
    Progress.failure number { progress with done := first :: progress.done } =
      progress.failure (number + 1) := by
  simp only [failure, List.length_cons, Nat.add_assoc, Nat.add_comm 1 progress.done.length]

theorem carryOut_ok {subtask : SubTask} {rest : List SubTask} {output : TaskOutput}
    {work after : Work} (gives : (subtask.act scene).Gives work output after) :
    carryOut scene (subtask :: rest) work =
      { carryOut scene rest after.renewed with
        done := (subtask, output) :: (carryOut scene rest after.renewed).done } := by
  rw [carryOut, gives]

theorem carryOut_error {subtask : SubTask} {rest : List SubTask} {cause : Error}
    {work after : Work} (ended : (subtask.act scene).ending work = (.error cause, after)) :
    carryOut scene (subtask :: rest) work =
      ⟨[], some (subtask, cause), { after with transaction := work.transaction }⟩ := by
  rw [carryOut, ended]

theorem numbered_length (number : Nat) (done : List (SubTask × TaskOutput)) :
    (numbered number done).length = done.length := by
  induction done generalizing number with
  | nil => rfl
  | cons first rest ih => rw [numbered, List.length_cons, List.length_cons, ih]

theorem numbered_getElem? (number place : Nat) (done : List (SubTask × TaskOutput)) :
    (numbered number done)[place]? =
      done[place]?.map fun ran => ⟨number + place, ran.1.kind, ran.1.target, ran.2⟩ := by
  induction done generalizing number place with
  | nil => rfl
  | cons first rest ih =>
      cases place with
      | zero => rfl
      | succ place => simp [numbered, ih, Nat.add_assoc, Nat.add_comm 1 place]

theorem mem_numbered {number : Nat} {done : List (SubTask × TaskOutput)} {told : SubTaskOutcome}
    (inside : told ∈ numbered number done) :
    ∃ ran ∈ done, told.kind = ran.1.kind ∧ told.output = ran.2 := by
  induction done generalizing number with
  | nil => cases inside
  | cons first rest ih =>
      rcases List.mem_cons.mp inside with rfl | inside
      · exact ⟨first, List.mem_cons_self, rfl, rfl⟩
      · obtain ⟨ran, listed, same⟩ := ih inside
        exact ⟨ran, List.mem_cons_of_mem first listed, same⟩

theorem numbered_tells (number : Nat) {done : List (SubTask × TaskOutput)}
    {ran : SubTask × TaskOutput} (inside : ran ∈ done) :
    ∃ told ∈ numbered number done, told.kind = ran.1.kind ∧ told.output = ran.2 := by
  induction done generalizing number with
  | nil => cases inside
  | cons first rest ih =>
      rcases List.mem_cons.mp inside with rfl | inside
      · exact ⟨_, List.mem_cons_self, rfl, rfl⟩
      · obtain ⟨told, listed, same⟩ := ih (number + 1) inside
        exact ⟨told, List.mem_cons_of_mem _ listed, same⟩

/-- Subtasks that are all done: the first was, and the others were on what it left. -/
theorem carryOut_next {subtask : SubTask} {rest : List SubTask} {work last : Work}
    {done : List (SubTask × TaskOutput)}
    (carried : carryOut scene (subtask :: rest) work = ⟨done, none, last⟩) :
    ∃ output after others, (subtask.act scene).Gives work output after ∧
      carryOut scene rest after.renewed = ⟨others, none, last⟩ ∧
      done = (subtask, output) :: others := by
  rw [carryOut] at carried
  split at carried
  · rename_i output after ended
    cases later : carryOut scene rest after.renewed with
    | mk others failed work =>
        rw [later] at carried
        cases carried
        exact ⟨output, after, others, ended, later, rfl⟩
  · cases carried

theorem carryOut_done {subtasks : List SubTask} {work last : Work}
    {done : List (SubTask × TaskOutput)}
    (carried : carryOut scene subtasks work = ⟨done, none, last⟩) :
    done.map Prod.fst = subtasks := by
  induction subtasks generalizing work done with
  | nil =>
      cases carried
      rfl
  | cons subtask rest ih =>
      obtain ⟨output, after, others, _, later, rfl⟩ := carryOut_next carried
      rw [List.map_cons, ih later]

theorem carryOut_committed {subtasks : List SubTask} {work last : Work} {start : Tables}
    {done : List (SubTask × TaskOutput)} (leads : work.transaction.LeadsBackTo start)
    (carried : carryOut scene subtasks work = ⟨done, none, last⟩) :
    Committed scene work.tables done last.tables := by
  induction subtasks generalizing work start done with
  | nil =>
      cases carried
      exact .none _
  | cons subtask rest ih =>
      obtain ⟨output, after, others, gives, later, rfl⟩ := carryOut_next carried
      have turns : (subtask.act scene).Turns work.tables output after.tables :=
        ⟨start, work, after, leads, rfl, gives, rfl⟩
      have indexed := (turns.indexed (subtask.act_built scene)).2
      have renewed : after.renewed.transaction.LeadsBackTo after.tables :=
        Transaction.leadsBackTo_start indexed
      have others_committed := ih renewed later
      exact .next turns others_committed

namespace Engine

structure Partway (scene : Scene) (subtasks : List SubTask) (cascade : Cascade) (before : Engine)
    (done : List (SubTask × TaskOutput)) (last : Work) (finished : Cascade) (after : Engine) :
    Prop where
  carried : carryOut scene (subtasks.take done.length) before.nextWork = ⟨done, none, last⟩
  completed : finished.completed = cascade.completed ++ numbered cascade.completed.length done
  planned : finished.planned = cascade.planned
  failure : finished.failure.map (fun failure => (failure.number, failure.kind, failure.target)) =
    subtasks[done.length]?.map fun subtask =>
      (cascade.completed.length + done.length, subtask.kind, subtask.target)
  tables : after.store.tables = last.tables
  events : after.events =
    before.events ++ (numbered cascade.completed.length done).flatMap SubTaskOutcome.events

theorem Partway.next {subtask : SubTask} {output : TaskOutput} {rest : List SubTask}
    {cascade finished : Cascade} {before middle after : Engine}
    {done : List (SubTask × TaskOutput)} {work last : Work}
    (partway : Partway scene rest
      (cascade.complete ⟨cascade.completed.length, subtask.kind, subtask.target, output⟩) middle
      done last finished after)
    (gives : (subtask.act scene).Gives before.nextWork output work)
    (renewed : middle.nextWork = work.renewed)
    (told : middle.events = before.events ++ output.events subtask.kind) :
    Partway scene (subtask :: rest) cascade before ((subtask, output) :: done) last finished
      after where
  carried := by
    have later := partway.carried
    rw [renewed] at later
    rw [List.length_cons, List.take_succ_cons, carryOut_ok gives, later]
  completed := by
    rw [partway.completed, numbered, Cascade.complete, List.length_append, List.append_assoc]
    rfl
  planned := partway.planned
  failure := by
    have stopped := partway.failure
    simp only [Cascade.complete, List.length_append, List.length_singleton] at stopped
    simp only [stopped, List.length_cons, List.getElem?_cons_succ, Nat.add_assoc,
      Nat.add_comm 1 done.length]
  tables := partway.tables
  events := by
    have later := partway.events
    simp only [Cascade.complete, List.length_append, List.length_singleton] at later
    rw [later, told, numbered, List.flatMap_cons, List.append_assoc]
    rfl

section Report

variable {subtasks : List SubTask} {cascade finished : Cascade} {before after : Engine}
  {done : List (SubTask × TaskOutput)} {last : Work}
  (partway : Partway scene subtasks cascade before done last finished after)
include partway

theorem Partway.within : done.length ≤ subtasks.length := by
  have lengths := congrArg List.length (carryOut_done partway.carried)
  rw [List.length_map, List.length_take] at lengths
  omega

theorem Partway.complete_iff : finished.failure = none ↔ done.length = subtasks.length := by
  have told := congrArg Option.isNone partway.failure
  rw [Option.isNone_map, Option.isNone_map] at told
  rw [← Option.isNone_iff_eq_none, told, Option.isNone_iff_eq_none, List.getElem?_eq_none_iff]
  have within := partway.within
  omega

theorem Partway.stopped {failure : SubTaskFailure} (stopped : finished.failure = some failure) :
    failure.number = cascade.completed.length + done.length ∧
      ∃ subtask, subtasks[done.length]? = some subtask ∧ failure.kind = subtask.kind ∧
        failure.target = subtask.target := by
  have told := partway.failure
  rw [stopped, Option.map_some, eq_comm, Option.map_eq_some_iff] at told
  obtain ⟨subtask, found, same⟩ := told
  cases failure
  cases same
  exact ⟨rfl, subtask, found, rfl, rfl⟩

theorem Partway.committed (indexed : before.store.tables.Indexed) :
    Committed scene before.store.tables done after.store.tables := by
  rw [partway.tables]
  exact carryOut_committed (before.nextWork_leadsBackTo indexed) partway.carried

theorem Partway.plan : subtasks = done.map Prod.fst ++ subtasks.drop done.length := by
  rw [carryOut_done partway.carried, List.take_append_drop]

theorem Partway.left_iff : finished.failure = none ↔ subtasks.drop done.length = [] := by
  have within := partway.within
  rw [partway.complete_iff, List.drop_eq_nil_iff]
  omega

theorem Partway.rest (planned : cascade.planned = subtasks.length)
    (fresh : cascade.completed = []) :
    finished.notAttempted =
      if finished.failure = none then 0 else subtasks.length - done.length - 1 := by
  have completed := congrArg List.length partway.completed
  rw [List.length_append, numbered_length, fresh, List.length_nil, Nat.zero_add] at completed
  unfold Cascade.notAttempted
  rw [partway.planned, planned, completed]
  cases ending : finished.failure with
  | none =>
      have whole := partway.complete_iff.mp ending
      simp [whole]
  | some failure => simp [Nat.sub_sub]

end Report

theorem runStepwise_partway (scene : Scene) (subtasks : List SubTask) (cascade : Cascade)
    (engine : Engine) (indexed : engine.store.tables.Indexed) (running : cascade.failure = none) :
    ∃ done last, Partway scene subtasks cascade engine done last
      (runStepwise scene subtasks cascade engine).1
      (runStepwise scene subtasks cascade engine).2 := by
  induction subtasks generalizing cascade engine with
  | nil =>
      refine ⟨[], engine.nextWork, rfl, ?_, rfl, ?_, rfl, ?_⟩
      · simp [runStepwise, numbered]
      · simp [runStepwise, running]
      · simp [runStepwise, numbered]
  | cons subtask rest ih =>
      have silent := engine.transact_silent scene (fun _ refusal => refusal) (subtask.act scene)
      simp only [runStepwise]
      split
      · -- The subtask was committed and told of; the others begin where it left off.
        rename_i output after ran
        rw [ran] at silent
        have turns := transact_ok scene indexed ran
        obtain ⟨work, gives, renewed⟩ := transact_gives scene ran
        have told : (after.announce scene subtask.kind output).events =
            engine.events ++ output.events subtask.kind := by
          rw [announce_eq, ← silent.events]
          rfl
        rw [announce_eq] at told ⊢
        obtain ⟨done, last, partway⟩ :=
          ih (cascade.complete ⟨cascade.completed.length, subtask.kind, subtask.target, output⟩)
            (after.telling (output.reports scene subtask.kind) (output.events subtask.kind))
            (turns.indexed (subtask.act_built scene)).2 running
        exact ⟨(subtask, output) :: done, last, partway.next gives renewed told⟩
      · -- The subtask failed, or its transaction did, and nothing was done.
        rename_i cause after ran
        rw [ran] at silent
        have kept := transact_error scene indexed (subtask.act_built scene).logged ran
        refine ⟨[], engine.nextWork, rfl, ?_, rfl, ?_, kept, ?_⟩
        · simp [Cascade.stop, numbered]
        · simp [Cascade.stop]
        · simpa [numbered] using silent.events

end Engine

end SharedTree
