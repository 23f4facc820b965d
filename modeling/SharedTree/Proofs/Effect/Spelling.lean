import SharedTree.Proofs.Effect.Touched
/-!
Every item has a path that ends in its identifier as it is written. A label in capitals would lead
to the same identifier by another path, but no task ever makes one (`Outcome.spelled`), so the path
of an item can be told from its parent's.
-/
namespace SharedTree

open SharedTree.Tables SharedTree.Action

variable {levels : Nat} {scene : Scene} {before after tables : Tables} {output : TaskOutput}

theorem Action.spelled_pathWithin (folder : Option Item) (id : Id) :
    (pathWithin folder id).Spelled := by
  cases folder with
  | none => exact Path.spelled_root id
  | some row => exact Path.spelled_child row.path id

namespace Tables

def Spelled (tables : Tables) : Prop := ∀ item, tables.HasItem item → item.path.Spelled

namespace Spelled

variable (spelled : before.Spelled)
include spelled

theorem of_fewer (fewer : ∀ item, after.HasItem item → before.HasItem item) : after.Spelled :=
  fun item stands => spelled item (fewer item stands)

theorem of_items (same : after.items = before.items) : after.Spelled :=
  spelled.of_fewer fun item stands => by rwa [HasItem, same] at stands

theorem putItem {item : Item} (ends : item.path.Spelled) : (before.putItem item).Spelled := by
  intro other stands
  rcases (putItem_hasItem before item other).mp stands with rfl | ⟨_, stands⟩
  · exact ends
  · exact spelled other stands

theorem moved {item : Item} {new : Path} {grants : List Membership} (ends : new.Spelled)
    (moved : Moved item new grants before after) : after.Spelled := by
  intro other stands
  obtain ⟨row, stands', rfl⟩ := (moved.hasItem_iff other).mp stands
  exact (spelled row stands').relocate ends

end Spelled

end Tables

section Acts

variable (quiet : scene.hooks.WriteNothing) (start : before.Spelled)
include quiet start

theorem createItem_spelled {new : NewItem} (turns : (createItem scene new).Turns before output after) :
    after.Spelled := by
  obtain ⟨_, work, done, _, rfl, gives, rfl⟩ := turns
  obtain ⟨id, folder, _, _, _, _, _, granted⟩ := createItem_gives quiet gives
  exact (start.putItem (spelled_pathWithin folder id)).of_items granted.same_items

theorem updateItem_spelled {id : Id} {patch : ItemPatch} (indexed : before.Indexed)
    (turns : (updateItem scene id patch).Turns before output after) : after.Spelled := by
  obtain ⟨_, work, done, _, rfl, gives, rfl⟩ := turns
  obtain ⟨row, found, _, _, put⟩ := updateItem_gives quiet gives
  rw [put]
  have same : (patch.apply scene.now row).path = row.path := rfl
  exact start.putItem (same ▸ start row (indexed.hasItem found))

theorem moveItem_spelled {id : Id} {under : Option Id}
    (limit : scene.settings.maxTreeLevels ≤ levels) (sound : before.Sound levels)
    (turns : (moveItem scene id under).Turns before output after) : after.Spelled := by
  obtain ⟨_, item, folder, _, movable, moved⟩ := moveItem_moved quiet limit sound turns
  refine Spelled.moved (start.putItem ?_) (spelled_pathWithin folder id) moved
  exact start item movable.stands

theorem copyItemRow_spelled {source : Id} {path : Path} {top : Bool} (ends : path.Spelled)
    (turns : (copyItemRow scene source path top).Turns before output after) : after.Spelled := by
  obtain ⟨_, work, done, _, rfl, gives, rfl⟩ := turns
  obtain ⟨row, _, _, rfl, _, _, _, _, put⟩ := copyItemRow_gives quiet gives
  have made : (work.tables.putItem
      (.make path.id path row.name row.type row.extra scene.actor scene.now)).Spelled :=
    start.putItem ends
  cases top with
  | true =>
      have granted : Administered scene path _ done.tables := put
      exact made.of_items granted.same_items
  | false =>
      have put : done.tables = _ := put
      rw [put]
      exact made

theorem Committed.spelled {done : List (SubTask × TaskOutput)}
    (committed : Committed scene before done after)
    (planned : ∀ ran ∈ done, ∃ source path top,
      ran.1 = .copyItem source path top ∧ path.Spelled) : after.Spelled := by
  induction committed with
  | none => exact start
  | next turns _ ih =>
      obtain ⟨source, path, top, rfl, ends⟩ := planned _ List.mem_cons_self
      refine ih (copyItemRow_spelled quiet start ends turns) fun ran inside => ?_
      exact planned ran (List.mem_cons_of_mem _ inside)

theorem copyItem_spelled {id : Id} {under : Option Id} {cascade : Cascade}
    (outcome : Outcome scene (.copyItem id under) before (.ok cascade) after) : after.Spelled := by
  obtain ⟨_, done, left, turns, committed, _⟩ := outcome.committed_of_delegated rfl
  obtain ⟨_, work, planned, _, rfl, gives, rfl⟩ := turns
  obtain ⟨item, folder, new, more, _, _, _, _, plan, laid, same⟩ := planCopy_gives gives
  rw [same] at committed
  refine committed.spelled quiet start fun ran inside => ?_
  have member : ran.1 ∈ SubTask.copyItem item.id (pathWithin folder new) true :: more := by
    rw [← plan]
    exact List.mem_append_left _ (List.mem_map_of_mem inside)
  rcases List.mem_cons.mp member with first | later
  · exact ⟨_, _, _, first, spelled_pathWithin folder new⟩
  · have above_all : ∀ copy ∈ [(item.id, pathWithin folder new)],
        (pathWithin folder new).covers copy.2 = true := by simp [Path.covers_refl]
    obtain ⟨row, _, above, last, _, planned⟩ := laid.all_below above_all ran.1 later
    exact ⟨_, _, _, planned, Path.spelled_child above last⟩

/-- However far a task got, the paths are spelled as they were before it. -/
theorem Outcome.spelled {task : Task} {result : Except Error Cascade}
    (limit : scene.settings.maxTreeLevels ≤ levels) (sound : before.Sound levels)
    (outcome : Outcome scene task before result after) : after.Spelled := by
  cases result with
  | error cause =>
      cases outcome
      exact start
  | ok cascade =>
      cases task with
      | createItem new =>
          obtain ⟨_, turns⟩ := outcome.turns_of_done rfl
          exact createItem_spelled quiet start turns
      | updateItem id patch =>
          obtain ⟨_, turns⟩ := outcome.turns_of_done rfl
          exact updateItem_spelled quiet start sound.indexed turns
      | deleteItem id =>
          obtain ⟨_, _, _, deleting⟩ := deleteItem_deleting quiet sound outcome
          exact start.of_fewer deleting.fewer
      | moveItem id under =>
          obtain ⟨_, turns⟩ := outcome.turns_of_done rfl
          exact moveItem_spelled quiet start limit sound turns
      | copyItem id under => exact copyItem_spelled quiet start outcome
      | createMembership id account permission =>
          obtain ⟨_, turns⟩ := outcome.turns_of_done rfl
          exact start.of_items (createMembership_spares quiet turns)
      | updateMembership id permission =>
          refine start.of_items (outcome.spares quiet fun step rows turns => ?_)
          exact updateMembership_spares quiet sound.indexed turns
      | deleteMembership id purgeBelow =>
          refine start.of_items (outcome.spares quiet fun step rows turns => ?_)
          exact deleteMembership_spares quiet turns

end Acts

end SharedTree
