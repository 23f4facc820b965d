import SharedTree.Proofs.Task.Copies
import SharedTree.Proofs.Task.Memberships
/-!
Planning writes nothing. A task that is split finds its subtasks by asking the tables, and calls no
hook before it does (`act_plans`); so the subtasks begin on the rows that the task began on.
-/
namespace SharedTree

namespace Action

variable {Answer : Type} {scene : Scene}

def Plans (action : Action TaskStep) : Prop :=
  ∀ work subtasks after, action.Gives work (.delegated subtasks) after → after.tables = work.tables

theorem plans_pure (step : TaskStep) : Plans (pure step) := by
  intro work subtasks after gives
  rw [((gives_pure _ _).mp gives).2]

theorem never_delegated {action : Action TaskOutput} {subtasks : List SubTask} {work after : Work} :
    ¬ Gives (do return TaskStep.done (← action)) work (.delegated subtasks) after := by
  intro gives
  obtain ⟨output, _, _, ended⟩ := (gives_bind _ _ _).mp gives
  obtain ⟨impossible, _⟩ := (gives_pure _ _).mp ended
  cases impossible

theorem plans_done (action : Action TaskOutput) :
    Plans (do return TaskStep.done (← action)) :=
  fun _ _ _ gives => absurd gives never_delegated

theorem plans_bind {first : Action Answer} {next : Answer → Action TaskStep}
    (still : ∀ work, (first.ending work).2 = work) (later : ∀ answer, (next answer).Plans) :
    Plans (first >>= next) := by
  intro work subtasks after gives
  obtain ⟨answer, middle, asked, rest⟩ := (gives_bind _ _ _).mp gives
  have same := still work
  rw [asked] at same
  exact same ▸ later answer middle subtasks after rest

theorem plans_ite (condition : Prop) [Decidable condition] {first second : Action TaskStep}
    (yes : first.Plans) (no : second.Plans) : Plans (if condition then first else second) := by
  split
  · exact yes
  · exact no

theorem updateMembership_plans (id : Id) (permission : Permission) :
    (updateMembership scene id permission).Plans := by
  unfold updateMembership
  refine plans_bind (fun _ => rfl) fun _ => plans_bind (fun _ => rfl) fun _ =>
    plans_bind (fun _ => rfl) fun _ => plans_ite _ (plans_pure _) ?_
  refine plans_bind (fun _ => rfl) fun plan => ?_
  split
  · exact plans_pure _
  · exact plans_done _
  · exact plans_pure _

theorem deleteMembership_plans (id : Id) (purgeBelow : Bool) :
    (deleteMembership scene id purgeBelow).Plans := by
  have removal (row : Membership) : Plans (do
      if purgeBelow then
        let below ← ask fun tables => tables.membershipsBelow row.account row.itemPath
        demand fun _ => ensureWithin (below.length + 1) scene.settings.maxItemMembershipsForDelete
        return TaskStep.delegated ((below ++ [row]).map fun row => .deleteMembership row.id)
      else return TaskStep.done (← removeMembership scene row)) :=
    plans_ite _ (plans_bind (fun _ => rfl) fun _ => plans_bind (fun _ => rfl) fun _ => plans_pure _)
      (plans_done _)
  refine plans_bind (fun _ => rfl) fun row => plans_ite _ ?_ (removal row)
  exact plans_bind (fun _ => rfl) fun _ => plans_bind (fun _ => rfl) fun _ => removal row

end Action

theorem Task.act_plans (scene : Scene) (task : Task) : (task.act scene).Plans := by
  cases task with
  | createItem new => exact Action.plans_done _
  | updateItem id patch => exact Action.plans_done _
  | deleteItem id =>
      intro work subtasks after gives
      obtain ⟨planned, _, ran, ended⟩ := (Action.gives_bind _ _ _).mp gives
      obtain ⟨_, rfl⟩ := (Action.gives_pure _ _).mp ended
      obtain ⟨_, _, _, _, _, same⟩ := Action.planDelete_gives ran
      rw [same]
  | moveItem id under => exact Action.plans_done _
  | copyItem id under =>
      intro work subtasks after gives
      obtain ⟨planned, _, ran, ended⟩ := (Action.gives_bind _ _ _).mp gives
      obtain ⟨_, rfl⟩ := (Action.gives_pure _ _).mp ended
      obtain ⟨_, _, _, _, _, _, _, _, _, _, same⟩ := Action.planCopy_gives ran
      exact same
  | createMembership item account permission => exact Action.plans_done _
  | updateMembership id permission => exact Action.updateMembership_plans id permission
  | deleteMembership id purgeBelow => exact Action.deleteMembership_plans id purgeBelow

end SharedTree
