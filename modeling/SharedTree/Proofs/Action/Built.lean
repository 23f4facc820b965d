import SharedTree.Task.Act
/-!
What actions are built of. Every task and every subtask asks the tables, draws identifiers, calls
hooks and does row operations, one after the other, and nothing else; it makes no savepoint. What
holds of these parts and is kept in a sequence therefore holds of all of them.
-/
namespace SharedTree

def RowOp.isControl : RowOp → Bool
  | .savepoint => true
  | .releaseSavepoint => true
  | .rollbackToSavepoint => true
  | _ => false

namespace Action

inductive Built (scene : Scene) : {Answer : Type} → Action Answer → Prop where
  | demand {Answer : Type} (question : Tables → Except Error Answer) :
      Built scene (demand question)
  | draw : Built scene (draw scene)
  | write {op : RowOp} : op.isControl = false → Built scene (write op)
  | callHooks (kind : TaskKind) (payload : HookPayload) : Built scene (callHooks scene kind payload)
  | bind {Answer Next : Type} {action : Action Answer} {next : Answer → Action Next} :
      Built scene action → (∀ answer, Built scene (next answer)) → Built scene (action >>= next)

variable {Answer Next : Type} {scene : Scene}

theorem built_pure (answer : Answer) : Built scene (pure answer) := .demand fun _ => .ok answer

theorem built_throw (cause : Error) : Built scene (throw cause : Action Answer) :=
  .demand fun _ => .error cause

theorem built_ask (question : Tables → Answer) : (ask question).Built scene :=
  .demand fun tables => .ok (question tables)

theorem built_except (result : Except Error Answer) :
    Built scene (ExceptT.mk (pure result) : Action Answer) := .demand fun _ => result

theorem built_ite (condition : Prop) [Decidable condition] {first second : Action Answer}
    (yes : first.Built scene) (no : second.Built scene) :
    Built scene (if condition then first else second) := by
  split
  · exact yes
  · exact no

theorem built_forM {Row : Type} (rows : List Row) {body : Row → Action Unit}
    (turn : ∀ row, (body row).Built scene) : (rows.forM body).Built scene := by
  induction rows with
  | nil => exact built_pure ()
  | cons row rest ih => exact .bind (turn row) fun _ => ih

theorem built_checkLevels (levels : Nat) : (checkLevels scene levels).Built scene :=
  built_ite _ (built_throw _) (built_pure _)

theorem built_checkDescendants (id : Id) (rows : List Item) (limit : Nat) :
    (checkDescendants id rows limit).Built scene :=
  built_ite _ (built_throw _) (built_pure _)

/-! The actions on items. -/

theorem destination_built (parent : Id) : (destination scene parent).Built scene :=
  .bind (.demand _) fun _ => built_ite _ (built_pure _) (built_throw _)

theorem optional_destination_built (under : Option Id) :
    (destination? scene under).Built scene := by
  cases under with
  | none => exact built_pure none
  | some parent => exact .bind (destination_built parent) fun _ => built_pure _

theorem grantCreator_built (item : Item) : (grantCreator scene item).Built scene :=
  .bind (built_ask _) fun _ =>
  built_ite _ (.bind .draw fun _ => .bind (.write rfl) fun _ => built_pure _) (built_pure _)

theorem createItem_built (new : NewItem) : (createItem scene new).Built scene :=
  .bind .draw fun _ =>
  .bind (optional_destination_built new.parent) fun _ =>
  .bind (built_checkLevels _) fun _ =>
  .bind (.callHooks _ _) fun _ =>
  .bind (.write rfl) fun _ =>
  .bind (grantCreator_built _) fun _ => built_pure _

theorem updateItem_built (id : Id) (patch : ItemPatch) : (updateItem scene id patch).Built scene :=
  .bind (.demand _) fun _ =>
  .bind (.callHooks _ _) fun _ =>
  .bind (.write rfl) fun _ => built_pure _

theorem planDelete_built (id : Id) : (planDelete scene id).Built scene :=
  .bind (.demand _) fun _ =>
  .bind (built_ask _) fun _ =>
  .bind (built_checkDescendants _ _ _) fun _ => built_pure _

theorem deleteItemRow_built (id : Id) : (deleteItemRow scene id).Built scene :=
  have childless (item : Item) : Built scene (do
      callHooks scene .deleteItem (.item item)
      let memberships ← ask fun tables => tables.membershipsUnder item.path
      memberships.forM fun membership => do
        let _ ← write (.deleteMembership membership.id)
      let _ ← write (.deleteItem id)
      return TaskOutput.itemDeleted item memberships) :=
    .bind (.callHooks _ _) fun _ =>
    .bind (built_ask _) fun _ =>
    .bind (built_forM _ fun _ => .bind (.write rfl) fun _ => built_pure _) fun _ =>
    .bind (.write rfl) fun _ => built_pure _
  .bind (.demand _) fun item =>
  .bind (built_ask _) fun _ =>
  built_ite _ (.bind (built_throw _) fun _ => childless item) (childless item)

theorem rebaseItems_built (old new : Path) (rows : List Item) :
    (rebaseItems old new rows).Built scene :=
  built_forM rows fun _ =>
    .bind (built_except _) fun _ => .bind (.write rfl) fun _ => built_pure _

theorem rebaseMemberships_built (old new : Path) (rows : List Membership) :
    (rebaseMemberships old new rows).Built scene :=
  built_forM rows fun _ =>
    .bind (built_except _) fun _ => .bind (.write rfl) fun _ => built_pure _

theorem keepGrants_built (path : Path) (grants : List Membership) :
    (keepGrants scene path grants).Built scene :=
  built_forM grants fun _ =>
    .bind (built_ask _) fun _ =>
    built_ite _
      (.bind (built_ask _) fun _ =>
        built_ite _ (.bind .draw fun _ => .bind (.write rfl) fun _ => built_pure _) (built_pure _))
      (built_pure _)

theorem pruneRedundant_built (rows : List Membership) : (pruneRedundant rows).Built scene :=
  built_forM rows fun _ =>
    .bind (built_ask _) fun _ =>
    built_ite _ (.bind (.write rfl) fun _ => built_pure _) (built_pure _)

theorem moveItem_built (id : Id) (under : Option Id) : (moveItem scene id under).Built scene := by
  unfold moveItem
  refine .bind (.demand _) fun item => ?_
  -- What follows a check stands behind its refusal as well, so each check doubles the goals.
  refine built_ite _ (.bind (built_throw _) fun _ => ?_) ?_
  all_goals
    refine .bind (optional_destination_built under) fun folder => ?_
    refine built_ite _ (.bind (built_throw _) fun _ => ?_) ?_
  all_goals
    exact .bind (built_ask _) fun _ =>
      .bind (built_checkDescendants _ _ _) fun _ =>
      .bind (built_checkLevels _) fun _ =>
      .bind (.callHooks _ _) fun _ =>
      .bind (built_ask _) fun _ =>
      .bind (.write rfl) fun _ =>
      .bind (rebaseItems_built _ _ _) fun _ =>
      .bind (built_ask _) fun _ =>
      .bind (rebaseMemberships_built _ _ _) fun _ =>
      .bind (keepGrants_built _ _) fun _ =>
      .bind (built_ask _) fun _ =>
      .bind (pruneRedundant_built _) fun _ => built_pure _

theorem planCopies_built (copies : List (Id × Path)) (rows : List Item) :
    (planCopies scene copies rows).Built scene := by
  induction rows generalizing copies with
  | nil => exact built_pure []
  | cons item rest ih =>
      unfold planCopies
      split
      · exact built_throw _
      · exact .bind .draw fun _ => .bind (ih _) fun _ => built_pure _

theorem planCopy_built (id : Id) (under : Option Id) : (planCopy scene id under).Built scene :=
  .bind (.demand _) fun _ =>
  .bind (optional_destination_built under) fun _ =>
  .bind .draw fun _ =>
  .bind (built_ask _) fun _ =>
  .bind (built_checkDescendants _ _ _) fun _ =>
  .bind (built_checkLevels _) fun _ =>
  .bind (built_ask _) fun _ =>
  .bind (planCopies_built _ _) fun _ => built_pure _

theorem copyItemRow_built (id : Id) (path : Path) (top : Bool) :
    (copyItemRow scene id path top).Built scene := by
  have insertion (source : Item) : Built scene (do
      let made := Item.make path.id path source.name source.type source.extra scene.actor scene.now
      callHooks scene .copyItem (.copy source made)
      let _ ← write (.insertItem made)
      if top then grantCreator scene made
      return TaskOutput.copied source made) :=
    .bind (.callHooks _ _) fun _ =>
    .bind (.write rfl) fun _ =>
    built_ite _ (.bind (grantCreator_built _) fun _ => built_pure _) (built_pure _)
  unfold copyItemRow
  refine .bind (.demand _) fun source => ?_
  cases path.parent? with
  | some parent => exact .bind (.demand _) fun _ => insertion source
  | none => exact insertion source

/-! The actions on memberships. -/

theorem deleteMemberships_built (rows : List Membership) : (deleteMemberships rows).Built scene :=
  built_forM rows fun _ => .bind (.write rfl) fun _ => built_pure _

theorem createMembership_built (item account : Id) (permission : Permission) :
    (createMembership scene item account permission).Built scene := by
  unfold createMembership
  refine .bind (.demand _) fun _ => .bind (.demand _) fun plan => ?_
  split
  · exact built_pure _
  · exact .bind (.callHooks _ _) fun _ => .bind (.write rfl) fun _ => built_pure _
  · exact built_throw _
  · exact .bind .draw fun _ =>
      .bind (.callHooks _ _) fun _ =>
      .bind (deleteMemberships_built _) fun _ =>
      .bind (.write rfl) fun _ => built_pure _

theorem changePermission_built (before : Membership) (permission : Permission) :
    (changePermission scene before permission).Built scene :=
  .bind (.callHooks _ _) fun _ => .bind (.write rfl) fun _ => built_pure _

theorem updateMembership_built (id : Id) (permission : Permission) :
    (updateMembership scene id permission).Built scene := by
  unfold updateMembership
  refine .bind (.demand _) fun _ => .bind (.demand _) fun _ => .bind (.demand _) fun _ =>
    built_ite _ (built_pure _) ?_
  refine .bind (.demand _) fun plan => ?_
  split
  · exact built_pure _
  · exact .bind (changePermission_built _ _) fun _ => built_pure _
  · exact built_pure _

theorem updateMembershipRow_built (id : Id) (permission : Permission) :
    (updateMembershipRow scene id permission).Built scene :=
  .bind (.demand _) fun _ => changePermission_built _ _

theorem removeMembership_built (row : Membership) : (removeMembership scene row).Built scene :=
  .bind (.callHooks _ _) fun _ => .bind (.write rfl) fun _ => built_pure _

theorem deleteMembership_built (id : Id) (purgeBelow : Bool) :
    (deleteMembership scene id purgeBelow).Built scene := by
  unfold deleteMembership
  refine .bind (.demand _) fun row => ?_
  refine built_ite _ (.bind (.demand _) fun _ => .bind (.demand _) fun _ => ?_) ?_
  all_goals
    exact built_ite _
      (.bind (built_ask _) fun _ => .bind (.demand _) fun _ => built_pure _)
      (.bind (removeMembership_built row) fun _ => built_pure _)

theorem deleteMembershipRow_built (id : Id) : (deleteMembershipRow scene id).Built scene :=
  .bind (.demand _) fun _ => removeMembership_built _

end Action

theorem Task.act_built (scene : Scene) (task : Task) : (task.act scene).Built scene := by
  have done {action : Action TaskOutput} (built : action.Built scene) :
      Action.Built scene (do return TaskStep.done (← action)) :=
    .bind built fun _ => Action.built_pure _
  have delegated {action : Action (List SubTask)} (built : action.Built scene) :
      Action.Built scene (do return TaskStep.delegated (← action)) :=
    .bind built fun _ => Action.built_pure _
  cases task with
  | createItem new => exact done (Action.createItem_built new)
  | updateItem id patch => exact done (Action.updateItem_built id patch)
  | deleteItem id => exact delegated (Action.planDelete_built id)
  | moveItem id under => exact done (Action.moveItem_built id under)
  | copyItem id under => exact delegated (Action.planCopy_built id under)
  | createMembership item account permission =>
      exact done (Action.createMembership_built item account permission)
  | updateMembership id permission => exact Action.updateMembership_built id permission
  | deleteMembership id purgeBelow => exact Action.deleteMembership_built id purgeBelow

theorem SubTask.act_built (scene : Scene) (subtask : SubTask) :
    (subtask.act scene).Built scene := by
  cases subtask with
  | deleteItem id => exact Action.deleteItemRow_built id
  | copyItem source path top => exact Action.copyItemRow_built source path top
  | updateMembership id permission => exact Action.updateMembershipRow_built id permission
  | deleteMembership id => exact Action.deleteMembershipRow_built id

end SharedTree
