import SharedTree.Proofs.Effect.Clearing
import SharedTree.Proofs.Engine.Calm
import SharedTree.Proofs.Engine.Reached
import SharedTree.Proofs.Engine.Stepwise
/-!
A task that takes rows away and stops partway can be run again. What it finds then is the tree
without the rows that are gone; its actor may still do what it asks for, and it plans just what was
left of the first plan (`stopped_run_resumes`). So it does not matter to the rows how often a
deletion was interrupted.
-/
namespace SharedTree

open Tables

variable {levels : Nat} {scene scene' : Scene} {before after : Tables} {task : Task}

/-- Where a run that commits its subtasks one by one stopped. -/
theorem Engine.stopped_run {engine last : Engine} {cascade : Cascade} {failure : SubTaskFailure}
    (indexed : engine.store.tables.Indexed) (mode : scene.settings.cascadeMode = .stepwise)
    (ran : engine.run scene task = (.ok cascade, last)) (stopped : cascade.failure = some failure) :
    ∃ subtasks planning done,
      (task.act scene).Gives engine.nextWork (.delegated subtasks) planning ∧
      Committed scene engine.store.tables done last.store.tables ∧
      done.map Prod.fst = subtasks.take failure.number ∧ failure.number < subtasks.length := by
  have started := ran
  unfold run at started
  split at started
  · cases started
  · cases started
    cases stopped
  · rename_i subtasks middle transacted
    obtain ⟨planning, planned, _⟩ := transact_gives scene transacted
    obtain ⟨k, done, work, _, carried, order, _, same, _, told, _⟩ :=
      stepwise_report indexed mode planned ran
    obtain ⟨rfl, subtask, found, _⟩ := told failure stopped
    refine ⟨subtasks, planning, done, planned, ?_, order, (List.getElem?_eq_some_iff.mp found).1⟩
    rw [same]
    exact carryOut_committed (Transaction.leadsBackTo_start indexed) carried

/-- A task that makes a plan is not refused where nothing goes wrong with the store. -/
theorem Engine.run_planned {engine : Engine} {subtasks : List SubTask} {planning : Work}
    (calm : engine.store.Calm)
    (planned : (task.act scene).Gives engine.nextWork (.delegated subtasks) planning) :
    ∃ cascade, (engine.run scene task).1 = .ok cascade := by
  obtain ⟨middle, transacted, _⟩ := transact_calm_ok scene calm (fun cause _ => cause) planned
  unfold run
  rw [transacted]
  exact ⟨_, rfl⟩

inductive Task.Clears : Task → Prop where
  | items (id : Id) : Clears (.deleteItem id)
  | memberships (id : Id) : Clears (.deleteMembership id true)

/-- How a task goes on that was stopped: it plans what is left, is not refused, and comes to the
rows that any run of it comes to that is not stopped. -/
structure Resumes (scene : Scene) (task : Task) (left : List SubTask) (before : Tables)
    (engine : Engine) : Prop where
  planned : ∃ planning, (task.act scene).Gives engine.nextWork (.delegated left) planning
  let_through : engine.store.Calm → ∃ cascade, (engine.run scene task).1 = .ok cascade
  same_rows : scene.hooks.WriteNothing →
    ∀ cascade, (engine.run scene task).1 = .ok cascade → cascade.failure = none →
    ∀ (fresh : Engine) (other : Scene) (whole : Cascade), fresh.store.tables = before →
      other.hooks.WriteNothing → (fresh.run other task).1 = .ok whole → whole.failure = none →
      (engine.run scene task).2.store.tables = (fresh.run other task).2.store.tables

/-- The same limits are the same one by one. -/
theorem limits_same {first second : Settings} (same : first.limits = second.limits) :
    first.maxDescendantsForDelete = second.maxDescendantsForDelete ∧
      first.maxItemMembershipsForDelete = second.maxItemMembershipsForDelete := by
  simp only [Settings.limits, List.cons.injEq, Prod.mk.injEq, true_and, and_true] at same
  exact ⟨same.1, same.2.2.2.1⟩

/-! Deletions. -/

theorem deleteItem_whole {id : Id} {cascade : Cascade} {item : Item} {engine : Engine}
    (sound : engine.store.tables.Sound levels) (quiet : scene.hooks.WriteNothing)
    (found : engine.store.tables.items[id]? = some item)
    (ran : (engine.run scene (.deleteItem id)).1 = .ok cascade)
    (complete : cascade.failure = none) :
    (engine.run scene (.deleteItem id)).2.store.tables =
      engine.store.tables.removeEach (engine.store.tables.deepestFirst item ++ [item]) := by
  have outcome := engine.run_outcome scene (.deleteItem id) sound.indexed
  rw [ran] at outcome
  obtain ⟨_, _, found', _, _, _, _, gone⟩ := deleteItem_completed quiet sound outcome complete
  cases found.symm.trans found'
  exact gone

section Deletion

variable {item : Item} {gone rest : List Item} {again : Engine} (sound : before.Sound levels)
  (stands : before.HasItem item) (plan : before.deepestFirst item ++ [item] = gone ++ rest)
  (unfinished : rest ≠ []) (left : again.store.tables = before.removeEach gone)
  (sound' : again.store.tables.Sound levels)
include sound stands plan unfinished left sound'

theorem deletion_planned_again (allowed : before.Grants scene.actor item.path .admin)
    (within : (before.deepestFirst item).length ≤ scene.settings.maxDescendantsForDelete) :
    ((Task.deleteItem item.id).act scene).Gives again.nextWork
      (.delegated (rest.map fun row => .deleteItem row.id)) again.nextWork := by
  have now := sound.deletion_again stands plan unfinished
  have still_there := sound.left_standing stands plan unfinished
  have admin := sound.grants_left stands plan unfinished allowed
  rw [← left] at now still_there admin
  rw [← now]
  refine (Action.gives_bind _ _ _).mpr ⟨_, _, Action.planDelete_given still_there
    ((sound'.indexed.hasPermission_iff sound'.graded).mpr admin) ?_,
    (Action.gives_pure _ _).mpr ⟨rfl, rfl⟩⟩
  exact Nat.le_trans (no_longer plan now) within

theorem deletion_same_rows (quiet : scene.hooks.WriteNothing) {cascade : Cascade}
    (ran : (again.run scene (.deleteItem item.id)).1 = .ok cascade)
    (complete : cascade.failure = none) {fresh : Engine} {other : Scene} {whole : Cascade}
    (rows : fresh.store.tables = before) (quiet' : other.hooks.WriteNothing)
    (ran' : (fresh.run other (.deleteItem item.id)).1 = .ok whole)
    (complete' : whole.failure = none) :
    (again.run scene (.deleteItem item.id)).2.store.tables =
      (fresh.run other (.deleteItem item.id)).2.store.tables := by
  have now := sound.deletion_again stands plan unfinished
  have still_there := sound.left_standing stands plan unfinished
  rw [← left] at now still_there
  subst rows
  -- Both runs take away the rows of the first plan, one of them in two parts.
  rw [deleteItem_whole sound' quiet still_there ran complete,
    deleteItem_whole sound quiet' stands ran' complete', now, left, plan]
  exact List.foldl_append.symm

end Deletion

/-! Removals. -/

theorem deleteMembership_whole {id : Id} {cascade : Cascade} {row : Membership} {engine : Engine}
    (indexed : engine.store.tables.Indexed) (quiet : scene.hooks.WriteNothing)
    (found : engine.store.tables.memberships[id]? = some row)
    (ran : (engine.run scene (.deleteMembership id true)).1 = .ok cascade)
    (complete : cascade.failure = none) :
    (engine.run scene (.deleteMembership id true)).2.store.tables =
      engine.store.tables.removeMemberships
        ((engine.store.tables.membershipsBelow row.account row.itemPath ++ [row]).map
          Membership.id) := by
  have outcome := engine.run_outcome scene (.deleteMembership id true) indexed
  generalize (engine.run scene (.deleteMembership id true)).2.store.tables = rows at outcome ⊢
  rw [ran] at outcome
  obtain ⟨row', found', _, revoked⟩ := deleteMembership_revoked quiet outcome
  cases found.symm.trans found'
  cases revoked with
  | purged gone left plan whole =>
      obtain rfl := whole.mp complete
      rw [plan, List.append_nil]

section Removal

variable {row : Membership} {gone rest : List Membership} {again : Engine}
  (sound : before.Sound levels)
  (plan : before.membershipsBelow row.account row.itemPath ++ [row] = gone ++ rest)
  (unfinished : rest ≠ [])
  (left : again.store.tables = before.removeMemberships (gone.map Membership.id))
  (sound' : again.store.tables.Sound levels)
include sound plan unfinished left sound'

/-- Who may remove a row may still do so when rows of the account below it are gone. -/
theorem removal_still_allowed
    (allowed : row.account = scene.actor ∨ Action.Administers scene before row.itemPath) :
    row.account = scene.actor ∨ Action.Administers scene again.store.tables row.itemPath := by
  by_cases own : row.account = scene.actor
  · exact Or.inl own
  · obtain ⟨item, carries, permitted⟩ := allowed.resolve_left own
    obtain ⟨found, place⟩ := (sound.indexed.itemAt_eq_some _ _).mp carries
    refine Or.inr ⟨item, (sound'.indexed.itemAt_eq_some _ _).mpr ⟨?_, place⟩, ?_⟩
    · rw [left]
      exact (removeMemberships_hasItem _ _ _).mpr found
    · rw [sound.indexed.hasPermission_iff sound.graded] at permitted
      rw [sound'.indexed.hasPermission_iff sound'.graded, left]
      refine (grants_congr fun other holder _ => ?_).mp permitted
      -- The rows that are gone are those of another account.
      rw [removeMemberships_hasRow, iff_and_self, List.mem_map]
      rintro found' ⟨first, inside, same⟩
      obtain ⟨found'', holder', _⟩ := sound.indexed.gone_lower plan unfinished inside
      rw [found''.same found' same, holder] at holder'
      exact own holder'.symm

theorem removal_planned_again (stands : before.HasRow row)
    (allowed : row.account = scene.actor ∨ Action.Administers scene before row.itemPath)
    (within : (before.membershipsBelow row.account row.itemPath).length <
      scene.settings.maxItemMembershipsForDelete) :
    ((Task.deleteMembership row.id true).act scene).Gives again.nextWork
      (.delegated (rest.map fun row => .deleteMembership row.id)) again.nextWork := by
  have now := sound.indexed.removal_again plan unfinished
  have still_there := sound.indexed.row_left plan unfinished stands
  have allowed' := removal_still_allowed sound plan unfinished left sound' allowed
  rw [← left] at now still_there
  rw [← now]
  exact Action.deleteMembership_given still_there allowed'
    (Nat.lt_of_le_of_lt (no_longer plan now) within)

theorem removal_same_rows (stands : before.HasRow row) (quiet : scene.hooks.WriteNothing)
    {cascade : Cascade}
    (ran : (again.run scene (.deleteMembership row.id true)).1 = .ok cascade)
    (complete : cascade.failure = none) {fresh : Engine} {other : Scene} {whole : Cascade}
    (rows : fresh.store.tables = before) (quiet' : other.hooks.WriteNothing)
    (ran' : (fresh.run other (.deleteMembership row.id true)).1 = .ok whole)
    (complete' : whole.failure = none) :
    (again.run scene (.deleteMembership row.id true)).2.store.tables =
      (fresh.run other (.deleteMembership row.id true)).2.store.tables := by
  have now := sound.indexed.removal_again plan unfinished
  have still_there := sound.indexed.row_left plan unfinished stands
  rw [← left] at now still_there
  subst rows
  -- As with a deletion, the first plan in two parts.
  rw [deleteMembership_whole sound'.indexed quiet still_there ran complete,
    deleteMembership_whole sound.indexed quiet' stands ran' complete', now, left, plan,
    List.map_append]
  exact List.foldl_append.symm

end Removal

section Resuming

variable {id : Id} {engine again : Engine} {subtasks : List SubTask} {planning : Work}
  {done : List (SubTask × TaskOutput)} {k : Nat} (sound : engine.store.tables.Sound levels)
  (sound' : again.store.tables.Sound levels) (quiet : scene.hooks.WriteNothing)
  (committed : Committed scene engine.store.tables done again.store.tables)
  (order : done.map Prod.fst = subtasks.take k) (unfinished : k < subtasks.length)
  (actor : scene'.actor = scene.actor) (limits : scene'.settings.limits = scene.settings.limits)
include sound sound' quiet committed order unfinished actor limits

theorem deletion_resumes
    (planned : ((Task.deleteItem id).act scene).Gives engine.nextWork (.delegated subtasks)
      planning) :
    Resumes scene' (.deleteItem id) (subtasks.drop k) engine.store.tables again := by
  obtain ⟨_, _, gives, ended⟩ := (Action.gives_bind _ _ _).mp planned
  cases ((Action.gives_pure _ _).mp ended).1
  obtain ⟨item, found, allowed, within, rfl, _⟩ := Action.planDelete_gives gives
  have stands := sound.indexed.hasItem found
  obtain rfl := sound.indexed.item_id id item found
  have admin := (sound.indexed.hasPermission_iff sound.graded).mp allowed
  -- The plan is what was done and what was left.
  have split := (List.take_append_drop k (engine.store.tables.deepestFirst item ++ [item])).symm
  have remains := mt List.drop_eq_nil_iff.mp (Nat.not_le.mpr (List.length_map _ ▸ unfinished))
  obtain ⟨left, _⟩ := (split ▸ Deletable.of_deepestFirst sound stands).cleared quiet committed
    (order.trans List.map_take.symm)
  rw [← List.map_drop]
  rw [← actor] at admin
  rw [← (limits_same limits).1] at within
  have again_planned := deletion_planned_again sound stands split remains left sound' admin within
  exact ⟨⟨_, again_planned⟩, fun calm => Engine.run_planned calm again_planned,
    fun quiet' cascade ran complete fresh other whole rows quiet'' ran' complete' =>
      deletion_same_rows sound stands split remains left sound' quiet' ran complete rows quiet''
        ran' complete'⟩

theorem removal_resumes
    (planned : ((Task.deleteMembership id true).act scene).Gives engine.nextWork
      (.delegated subtasks) planning) :
    Resumes scene' (.deleteMembership id true) (subtasks.drop k) engine.store.tables again := by
  obtain ⟨row, found, allowed, withdrawn⟩ := Action.deleteMembership_chosen planned
  have stands := sound.indexed.hasRow found
  obtain rfl := sound.indexed.membership_id id row found
  have all : done.map Prod.fst ++ subtasks.drop k = subtasks := by
    rw [order, List.take_append_drop]
  cases withdrawn with
  | planned within _ =>
      obtain ⟨gone, rest, split, plan, left⟩ := removals_committed quiet committed all
      have remains : rest ≠ [] := by
        rintro rfl
        rw [List.map_nil, List.drop_eq_nil_iff] at plan
        exact absurd unfinished (Nat.not_lt.mpr plan)
      rw [plan]
      have allowed' : row.account = scene'.actor ∨
          Action.Administers scene' engine.store.tables row.itemPath := by
        rw [Action.Administers, actor]
        exact allowed
      rw [← (limits_same limits).2] at within
      have again_planned :=
        removal_planned_again sound split remains left sound' stands allowed' within
      exact ⟨⟨_, again_planned⟩, fun calm => Engine.run_planned calm again_planned,
        fun quiet' cascade ran complete fresh other whole rows quiet'' ran' complete' =>
          removal_same_rows sound split remains left sound' stands quiet' ran complete rows
            quiet'' ran' complete'⟩

end Resuming

/-- A deletion, or a removal with the rows below, that was stopped at one of its subtasks goes on
there when it is run again: it is not refused, it plans the subtasks from that one on, and if it
comes to its end the rows are those that it would have left without stopping. -/
theorem stopped_run_resumes {allowed : Settings → Prop} {engine last again : Engine}
    (reached : Reached allowed engine.store.tables) (quiet : scene.hooks.WriteNothing)
    (mode : scene.settings.cascadeMode = .stepwise) (clears : task.Clears) {cascade : Cascade}
    {failure : SubTaskFailure} (ran : engine.run scene task = (.ok cascade, last))
    (stopped : cascade.failure = some failure) (rows : again.store.tables = last.store.tables)
    (actor : scene'.actor = scene.actor)
    (limits : scene'.settings.limits = scene.settings.limits) :
    ∃ subtasks planning, (task.act scene).Gives engine.nextWork (.delegated subtasks) planning ∧
      failure.number < subtasks.length ∧
      Resumes scene' task (subtasks.drop failure.number) engine.store.tables again := by
  obtain ⟨levels, limit, sound⟩ := reached.sound_for scene
  obtain ⟨subtasks, planning, done, planned, committed, order, unfinished⟩ :=
    Engine.stopped_run sound.indexed mode ran stopped
  have sound' : again.store.tables.Sound levels := by
    have kept := (engine.run_effect task quiet limit sound).1
    rw [ran] at kept
    exact rows ▸ kept
  rw [← rows] at committed
  refine ⟨subtasks, planning, planned, unfinished, ?_⟩
  cases clears with
  | items id =>
      exact deletion_resumes sound sound' quiet committed order unfinished actor limits planned
  | memberships id =>
      exact removal_resumes sound sound' quiet committed order unfinished actor limits planned

namespace Sample

def refusing (kind : TaskKind) (subject : Id) : Scene :=
  { sceneOf owner with
    hooks :=
      { pre := [(kind, fun call =>
          if call.payload.subject = subject then .refuse "guarded" else .done)] } }

theorem refusing_quiet (kind : TaskKind) (subject : Id) :
    (refusing kind subject).hooks.WriteNothing := by
  intro hook inside call ids work
  obtain rfl := List.mem_singleton.mp inside
  dsimp only
  split <;> exact ⟨rfl, rfl⟩

def interrupted : Engine :=
  (engine.run (refusing .deleteItem (id 100)) (.deleteItem (id 100))).2

def purgeCutShort : Cascade :=
  ((Cascade.delegated .deleteMembership (some upper.id) 2).complete
    ⟨0, .deleteMembership, lower.id, .membershipRemoved lower⟩).stop
      ⟨1, .deleteMembership, upper.id, .hook .deleteMembership "guarded"⟩

def purgeInterrupted : Engine :=
  (engine.run (refusing .deleteMembership upper.id) (.deleteMembership upper.id true)).2

end Sample

theorem sample_stopped_run_resumes :
    (Sample.engine.run (Sample.refusing .deleteItem (Sample.id 100))
        (.deleteItem (Sample.id 100)) = (.ok Sample.cutShort, Sample.interrupted) ∧
      ∃ subtasks planning,
        ((Task.deleteItem (Sample.id 100)).act (Sample.refusing .deleteItem (Sample.id 100))).Gives
          Sample.engine.nextWork (.delegated subtasks) planning ∧
        1 < subtasks.length ∧
        Resumes (Sample.sceneOf Sample.owner) (.deleteItem (Sample.id 100)) (subtasks.drop 1)
          Sample.engine.store.tables Sample.interrupted) ∧
    Sample.engine.run (Sample.refusing .deleteMembership Sample.upper.id)
        (.deleteMembership Sample.upper.id true) =
          (.ok Sample.purgeCutShort, Sample.purgeInterrupted) ∧
      ∃ subtasks planning,
        ((Task.deleteMembership Sample.upper.id true).act
          (Sample.refusing .deleteMembership Sample.upper.id)).Gives
          Sample.engine.nextWork (.delegated subtasks) planning ∧
        1 < subtasks.length ∧
        Resumes (Sample.sceneOf Sample.owner) (.deleteMembership Sample.upper.id true)
          (subtasks.drop 1) Sample.engine.store.tables Sample.purgeInterrupted := by
  have deletion : Sample.engine.run (Sample.refusing .deleteItem (Sample.id 100))
      (.deleteItem (Sample.id 100)) = (.ok Sample.cutShort, Sample.interrupted) :=
    Prod.ext (by decide +kernel) rfl
  have purge : Sample.engine.run (Sample.refusing .deleteMembership Sample.upper.id)
      (.deleteMembership Sample.upper.id true) =
        (.ok Sample.purgeCutShort, Sample.purgeInterrupted) :=
    Prod.ext (by decide +kernel) rfl
  exact ⟨⟨deletion, stopped_run_resumes Sample.reached_any (Sample.refusing_quiet _ _) rfl
      (.items _) deletion rfl rfl rfl rfl⟩,
    purge, stopped_run_resumes Sample.reached_any (Sample.refusing_quiet _ _) rfl
      (.memberships _) purge rfl rfl rfl rfl⟩

end SharedTree
