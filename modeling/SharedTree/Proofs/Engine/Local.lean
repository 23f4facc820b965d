import SharedTree.Proofs.Effect.CopyPlans
import SharedTree.Proofs.Engine.CalmRun
import SharedTree.Proofs.Task.Local
/-!
Runs of tasks are local. The subtasks that a task plans are again within the region of the task
(`Task.plan_within`), so a whole run, cascade included, has the same result in stores that are alike
there, leaves them alike and keeps what is outside (`Engine.run_alike`).
-/
namespace SharedTree

open SharedTree.Tables SharedTree.Action SharedTree.Engine

variable {region : Region} {most : Nat} {left right work after : Work} {scene : Scene}

/-! Plans. -/

theorem planCopy_within (fits : work.tables.Fits region) {id : Id} {under : Option Id}
    (listed : id ∈ region.items) (listed' : ∀ parent ∈ under, parent ∈ region.items)
    (supplied : ∀ n, work.drawn ≤ n → n < after.drawn → scene.ids n ∈ region.made)
    {subtasks : List SubTask} (gives : (planCopy scene id under).Gives work subtasks after) :
    ∀ subtask ∈ subtasks, subtask.Within region := by
  obtain ⟨count, drew, more⟩ := planCopy_draws gives
  obtain ⟨item, folder, new, copies, stands, _, holds, _, rfl, laid, _⟩ := planCopy_gives gives
  have inside := (fits.item id item stands).mp listed
  have given (source : Id) (path : Path) (top : Bool)
      (planned : .copyItem source path top ∈
        SubTask.copyItem item.id (pathWithin folder new) true :: copies) :
      path.id ∈ region.made := by
    have made : path.id ∈ (List.range' work.drawn count).map scene.ids :=
      drew ▸ List.mem_filterMap.mpr ⟨_, planned, rfl⟩
    obtain ⟨n, counted, same⟩ := List.mem_map.mp made
    obtain ⟨above, below⟩ := List.mem_range'_1.mp counted
    exact same ▸ supplied n above (more ▸ below)
  have new_made := given _ _ _ List.mem_cons_self
  rw [pathWithin_id] at new_made
  have place :=
    pathWithin_top (holds.top_inside fits listed') fun _ => region.made_tree new new_made
  have topmost : ∀ copy ∈ [(item.id, pathWithin folder new)],
      (pathWithin folder new).covers copy.2 = true := by
    simp [Path.covers_refl]
  have lower := laid.all_below topmost
  intro subtask planned
  rcases List.mem_cons.mp planned with rfl | copied
  · exact ⟨fits.indexed.item_id id item stands ▸ listed, given _ _ _ planned, place⟩
  · obtain ⟨row, below, above, own, spans, rfl⟩ := lower subtask copied
    obtain ⟨stands', higher⟩ := (fits.indexed.mem_shallowestFirst item row
      (fits.indexed.hasItem stands)).mp below
    refine ⟨fits.item_under inside stands' (Path.covers_of_isAncestorOf higher),
      given _ _ _ planned, ?_⟩
    rw [Path.top_child, Path.top_of_covers spans]
    exact place

theorem planDelete_within (fits : work.tables.Fits region) {id : Id} (listed : id ∈ region.items)
    {subtasks : List SubTask} (gives : (planDelete scene id).Gives work subtasks after) :
    ∀ subtask ∈ subtasks, subtask.Within region := by
  obtain ⟨item, stands, _, _, rfl, rfl⟩ := planDelete_gives gives
  have inside := (fits.item id item stands).mp listed
  have standing := fits.indexed.hasItem stands
  intro subtask planned
  obtain ⟨row, row_listed, rfl⟩ := List.mem_map.mp planned
  rcases List.mem_append.mp row_listed with below | self
  · obtain ⟨stands', higher⟩ := (fits.indexed.mem_deepestFirst item row standing).mp below
    exact fits.item_under inside stands' (Path.covers_of_isAncestorOf higher)
  · rw [List.mem_singleton.mp self]
    exact fits.item_under inside standing (Path.covers_refl _)

theorem updateMembership_within (quiet : scene.hooks.WriteNothing) (fits : work.tables.Fits region)
    {id : Id} {permission : Permission} (listed : id ∈ region.memberships)
    {subtasks : List SubTask}
    (gives : (updateMembership scene id permission).Gives work (.delegated subtasks) after) :
    ∀ subtask ∈ subtasks, subtask.Within region := by
  obtain ⟨row, stands, _, changed⟩ := updateMembership_gives quiet fits.indexed gives
  have inside := (fits.membership id row stands).mp listed
  have own : row.id ∈ region.memberships := fits.indexed.membership_id id row stands ▸ listed
  generalize after.tables = rows at changed
  cases changed with
  | redundant => simpa [SubTask.Within] using own
  | planned =>
      intro subtask planned
      rcases List.mem_append.mp planned with below | self
      · obtain ⟨weaker, member, rfl⟩ := List.mem_map.mp below
        exact fits.redundant_listed inside member
      · rw [List.mem_singleton.mp self]
        exact own

theorem deleteMembership_within (quiet : scene.hooks.WriteNothing) (fits : work.tables.Fits region)
    {id : Id} {purgeBelow : Bool} (listed : id ∈ region.memberships) {subtasks : List SubTask}
    (gives : (deleteMembership scene id purgeBelow).Gives work (.delegated subtasks) after) :
    ∀ subtask ∈ subtasks, subtask.Within region := by
  obtain ⟨row, stands, _, removed⟩ := deleteMembership_gives quiet gives
  have inside := (fits.membership id row stands).mp listed
  generalize after.tables = rows at removed
  cases removed with
  | planned =>
      intro subtask planned
      obtain ⟨other, member, rfl⟩ := List.mem_map.mp planned
      rcases List.mem_append.mp member with below | self
      · obtain ⟨stands', _, higher⟩ := (fits.indexed.mem_membershipsBelow _ _ _).mp below
        exact fits.row_under inside stands' (Path.covers_of_isAncestorOf higher)
      · rw [List.mem_singleton.mp self]
        exact fits.row_under inside (fits.indexed.hasRow stands) (Path.covers_refl _)

theorem Task.plan_within (bare : scene.hooks.pre = []) (fits : work.tables.Fits region)
    {task : Task} (within : task.Within region work.tables)
    (supplied : ∀ n, work.drawn ≤ n → n < after.drawn → scene.ids n ∈ region.made)
    {subtasks : List SubTask} (gives : (task.act scene).Gives work (.delegated subtasks) after) :
    ∀ subtask ∈ subtasks, subtask.Within region := by
  have quiet := Hooks.writeNothing_of_bare bare
  cases task with
  | createItem new => exact absurd gives never_delegated
  | updateItem id patch => exact absurd gives never_delegated
  | deleteItem id =>
      obtain ⟨planned, _, ran, ended⟩ := (gives_bind _ _ _).mp gives
      obtain ⟨same, rfl⟩ := (gives_pure _ _).mp ended
      cases same
      exact planDelete_within fits within ran
  | moveItem id under => exact absurd gives never_delegated
  | copyItem id under =>
      obtain ⟨planned, _, ran, ended⟩ := (gives_bind _ _ _).mp gives
      obtain ⟨same, rfl⟩ := (gives_pure _ _).mp ended
      cases same
      exact planCopy_within fits within.1 within.2 supplied ran
  | createMembership item account permission => exact absurd gives never_delegated
  | updateMembership id permission => exact updateMembership_within quiet fits within gives
  | deleteMembership id purgeBelow => exact deleteMembership_within quiet fits within gives

/-! Cascades. -/

structure Progress.EndsAlike (region : Region) (ids : Nat → Id) (most : Nat) (before : Work)
    (left right : Progress) : Prop where
  done : left.done = right.done
  failed : left.failed = right.failed
  works : left.work.Alike region ids most right.work
  keeps : before.tables.KeepsOutside region left.work.tables

theorem carryOut_alike (bare : scene.hooks.pre = []) (subtasks : List SubTask)
    (works : left.Alike region scene.ids most right)
    (within : ∀ subtask ∈ subtasks, subtask.Within region)
    (bounded : (carryOut scene subtasks left).work.drawn ≤ most) :
    Progress.EndsAlike region scene.ids most left (carryOut scene subtasks left)
      (carryOut scene subtasks right) := by
  induction subtasks generalizing left right with
  | nil => exact ⟨rfl, rfl, works, .refl region left.tables⟩
  | cons subtask rest ih =>
      have acts := subtask.act_local bare works (within subtask List.mem_cons_self)
      unfold Local at acts
      cases ended : (subtask.act scene).ending left with
      | mk result after =>
          cases ended' : (subtask.act scene).ending right with
          | mk result' after' =>
              rw [ended, ended'] at acts
              cases result with
              | error cause =>
                  rw [carryOut_error ended] at bounded ⊢
                  obtain ⟨rfl, works', _⟩ := acts bounded
                  rw [carryOut_error ended']
                  exact ⟨rfl, rfl, works'.begun works.tables, .refl region left.tables⟩
              | ok output =>
                  rw [carryOut_ok ended] at bounded ⊢
                  have drawn := carryOut_drawn_le bare rest after.renewed
                  have ends := acts (Nat.le_trans drawn bounded)
                  obtain rfl := ends.same
                  have works' : after.Alike region scene.ids most after' := ends.works
                  rw [carryOut_ok ended']
                  have later := ih works'.renewed
                    (fun other planned => within other (List.mem_cons_of_mem subtask planned))
                    bounded
                  exact ⟨congrArg (List.cons (subtask, output)) later.done, later.failed,
                    later.works, ends.keeps.trans later.keeps⟩

theorem Progress.EndsAlike.settled {first second : Progress}
    (alike : EndsAlike region scene.ids most left first second) (mode : CascadeMode)
    (works : left.Alike region scene.ids most right) (cascade : Cascade) :
    (first.settled mode left cascade).1 = (second.settled mode right cascade).1 ∧
      (first.settled mode left cascade).2.Alike region scene.ids most
        (second.settled mode right cascade).2 ∧
      left.tables.KeepsOutside region (first.settled mode left cascade).2.tables := by
  have stopped : first.failure 0 = second.failure 0 := by
    rw [failure, failure, alike.done, alike.failed]
  have told : reached cascade first = reached cascade second := by
    simp only [reached, failure, alike.done, alike.failed]
  unfold Progress.settled
  rw [← stopped]
  cases mode with
  | stepwise => exact ⟨told, alike.works, alike.keeps⟩
  | atomic =>
      cases first.failure 0 with
      | none => exact ⟨told, alike.works, alike.keeps⟩
      | some failure => exact ⟨rfl, alike.works.begun works.tables, .refl region left.tables⟩

/-! Runs. -/

theorem Task.playOut_drawn_le (bare : scene.hooks.pre = []) (task : Task) (work : Work) :
    work.drawn ≤ (task.playOut scene work).2.drawn := by
  have first := (task.act_built scene).drawn_le bare work
  unfold Task.playOut
  cases ended : (task.act scene).ending work with
  | mk result after =>
      rw [ended] at first
      rcases result with _ | _ | plan
      · exact first
      · exact first
      · simp only [Progress.settled_drawn]
        exact Nat.le_trans first (carryOut_drawn_le bare plan after.renewed)

theorem Task.playOut_alike (bare : scene.hooks.pre = [])
    (works : left.Alike region scene.ids most right) {task : Task}
    (within : task.Within region left.tables)
    (bounded : (task.playOut scene left).2.drawn ≤ most) :
    Action.EndsAlike region scene.ids most left (task.playOut scene left)
      (task.playOut scene right) := by
  have acts := task.act_local bare works within
  unfold Local at acts
  unfold Task.playOut at bounded ⊢
  cases ended : (task.act scene).ending left with
  | mk result after =>
      cases ended' : (task.act scene).ending right with
      | mk result' after' =>
          rw [ended, ended'] at acts
          rw [ended] at bounded
          cases result with
          | error cause =>
              obtain ⟨rfl, works', _⟩ := acts bounded
              exact ⟨rfl, works'.begun works.tables, .refl region left.tables⟩
          | ok step =>
              cases step with
              | done output =>
                  obtain ⟨rfl, works', keeps⟩ := acts bounded
                  exact ⟨rfl, works'.begun works'.tables, keeps⟩
              | delegated plan =>
                  simp only [Progress.settled_drawn] at bounded
                  have drawn := carryOut_drawn_le bare plan after.renewed
                  have ends := acts (Nat.le_trans drawn bounded)
                  obtain rfl := ends.same
                  have works' : after.Alike region scene.ids most after' := ends.works
                  have planned : ∀ subtask ∈ plan, subtask.Within region :=
                    task.plan_within bare works.tables.fits_left within (fun n above below =>
                      works.supplied n above (Nat.lt_of_lt_of_le below works'.within)) ended
                  obtain ⟨report, works'', keeps⟩ :=
                    (carryOut_alike bare plan works'.renewed planned bounded).settled
                      scene.settings.cascadeMode works'.renewed
                      (.delegated task.kind task.target? plan.length)
                  exact ⟨congrArg Except.ok report, works'', ends.keeps.trans keeps⟩

/-- A run of a task has the same result in stores that are alike in a region with the rows that the
task names and the identifiers that it draws; it leaves them alike and keeps what is outside. -/
theorem Engine.run_alike {left right : Engine} (bare : scene.hooks.pre = [])
    (calm : left.store.Calm) (calm' : right.store.Calm)
    (alike : left.store.tables.Alike region right.store.tables) (drawn : left.drawn = right.drawn)
    {task : Task} (within : task.Within region left.store.tables)
    (supplied : ∀ n, left.drawn ≤ n → n < (left.run scene task).2.drawn →
      scene.ids n ∈ region.made) :
    (left.run scene task).1 = (right.run scene task).1 ∧
      (left.run scene task).2.store.tables.Alike region (right.run scene task).2.store.tables ∧
      (left.run scene task).2.drawn = (right.run scene task).2.drawn ∧
      left.store.tables.KeepsOutside region (left.run scene task).2.store.tables := by
  have rows := Hooks.rowsOnly_of_bare bare
  obtain ⟨answer, work, _⟩ := run_calm rows task calm alike.fits_left.indexed
  obtain ⟨answer', work', _⟩ := run_calm rows task calm' alike.fits_right.indexed
  have begun : left.nextWork.drawn ≤ (task.playOut scene left.nextWork).2.drawn :=
    task.playOut_drawn_le bare left.nextWork
  have most : (left.run scene task).2.drawn = (task.playOut scene left.nextWork).2.drawn :=
    congrArg Work.drawn work
  have works : left.nextWork.Alike region scene.ids (left.run scene task).2.drawn right.nextWork :=
    ⟨alike, drawn, most ▸ begun, supplied⟩
  obtain ⟨same, works', keeps⟩ := task.playOut_alike bare works within most.ge
  rw [← work, ← work'] at works'
  rw [← work] at keeps
  exact ⟨answer.trans (same.trans answer'.symm), works'.tables, works'.drawn, keeps⟩

end SharedTree
