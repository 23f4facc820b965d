import SharedTree.Proofs.Action.Careful
import SharedTree.Proofs.Effect.Moves
import SharedTree.Proofs.Task.Copies
import SharedTree.Proofs.Task.Memberships
/-!
What a task leaves when its hooks write. The rows that the hooks leave are in order; what the task
then writes goes by what it has read before, and that still holds if the hooks heed it. So each
action leaves the rows in order, one lemma for each.
-/
namespace SharedTree

open SharedTree.Tables SharedTree.Action

variable {scene : Scene} {plan : List SubTask} {before after : Tables} {output : TaskOutput}

/-- The maker of an item that stands becomes its administrator. -/
theorem Tables.Orderly.administered {item : Item} (orderly : before.Orderly)
    (indexed : after.Indexed) (stands : before.HasItem item)
    (granted : Administered scene item.path before after) : after.Orderly := by
  rcases granted with ⟨_, _, _, rfl⟩ | ⟨_, id, _, _, rfl⟩
  · exact orderly
  · exact orderly.keeps indexed fun levels shape =>
      ⟨levels, shape.putMembership _ ⟨item, stands, rfl⟩⟩

section Careful

variable (keep : scene.hooks.KeepOrder) (heed : scene.hooks.Heed plan) (orderly : before.Orderly)
include keep heed orderly

theorem createItem_orderly {new : NewItem} (turns : (createItem scene new).Turns before output after) :
    after.Orderly := by
  obtain ⟨_, indexed⟩ := turns.indexed (createItem_built new)
  obtain ⟨_, work, done, _, rfl, gives, rfl⟩ := turns
  obtain ⟨id, folder, made, hooked, holds, _, rfl, called, unused, free, _, granted⟩ :=
    createItem_hooked gives
  obtain ⟨ordered, heeded⟩ := called.careful keep heed orderly
  have put := ordered.putItem_new unused free (pathWithin_id folder id) fun parent above =>
    -- The folder that was looked up is still there.
    heeded.relied.folder (holds.placed orderly.indexed id parent above) fun row _ here _ =>
      above.trans (congrArg some here.symm)
  exact put.administered indexed ((putItem_hasItem _ _ _).mpr (Or.inl rfl)) granted

theorem updateItem_orderly {id : Id} {patch : ItemPatch}
    (turns : (updateItem scene id patch).Turns before output after) : after.Orderly := by
  obtain ⟨_, work, done, _, rfl, gives, rfl⟩ := turns
  obtain ⟨old, hooked, found, _, called, _, _, put⟩ := updateItem_hooked gives
  obtain ⟨ordered, heeded⟩ := called.careful keep heed orderly
  obtain ⟨other, stands, ids, place, type⟩ :=
    heeded.relied old (orderly.indexed.hasItem found) rfl
  rw [put]
  exact ordered.putItem_same stands ids.symm place.symm type.symm

theorem deleteItemRow_orderly {id : Id}
    (turns : (deleteItemRow scene id).Turns before output after) : after.Orderly := by
  obtain ⟨_, indexed⟩ := turns.indexed (deleteItemRow_built id)
  obtain ⟨_, work, done, _, rfl, gives, rfl⟩ := turns
  obtain ⟨item, hooked, found, childless, called, _, removed⟩ := deleteItemRow_hooked gives
  obtain ⟨ordered, heeded⟩ := called.careful keep heed orderly
  have stands := orderly.indexed.hasItem found
  obtain ⟨other, stands', ids, place, _⟩ := heeded.relied item stands rfl
  have whole : done.tables = hooked.tables.removeWhole other := by
    rw [removed, removeWhole, place, ids, orderly.indexed.item_id id item found]
  -- Nothing was below the item when it was looked up, and nothing was added there.
  have alone (row : Item) (found' : hooked.tables.HasItem row)
      (spans : other.path.covers row.path = true) : row = other := by
    by_cases here : other.path = row.path
    · exact ordered.indexed.item_unique found' stands' here.symm
    · have below : item.path.isAncestorOf row.path = true :=
        place ▸ (Path.isAncestorOf_iff_covers _ _).mpr ⟨spans, here⟩
      obtain ⟨first, earlier, _, place', _⟩ := heeded.listed row found' below
      have same := orderly.indexed.alone_of_no_children stands childless earlier
        (place' ▸ Path.covers_of_isAncestorOf below)
      exact absurd (place.trans (same ▸ place')) here
  refine ordered.keeps indexed fun levels shape => ⟨levels, ?_⟩
  rw [whole]
  exact shape.removeItem_alone ordered.indexed stands' alone

theorem createMembership_orderly {itemId account : Id} {permission : Permission}
    (turns : (createMembership scene itemId account permission).Turns before output after) :
    after.Orderly := by
  obtain ⟨_, indexed⟩ := turns.indexed (createMembership_built itemId account permission)
  obtain ⟨_, work, done, _, rfl, gives, rfl⟩ := turns
  obtain ⟨item, found, _, given_after⟩ := createMembership_hooked gives
  generalize done.tables = rows at indexed given_after ⊢
  cases given_after with
  | unchanged => exact orderly
  | removed row hooked _ _ called =>
      obtain ⟨ordered, _⟩ := called.careful keep heed orderly
      exact ordered.keeps indexed fun levels shape => ⟨levels, shape.removeMembership row.id⟩
  | written id cleared hooked _ _ called _ =>
      obtain ⟨ordered, heeded⟩ := called.careful keep heed orderly
      obtain ⟨carrier, stands, _, place, _⟩ :=
        heeded.relied item (orderly.indexed.hasItem found) rfl
      refine ordered.keeps indexed fun levels shape => ⟨levels, ?_⟩
      exact (shape.removeMemberships cleared).putMembership _
        ⟨carrier, (removeMemberships_hasItem _ _ _).mpr stands, place⟩

theorem changePermission_orderly {row : Membership} {permission : Permission}
    (stands : before.HasRow row)
    (turns : (changePermission scene row permission).Turns before output after) :
    after.Orderly := by
  obtain ⟨_, indexed⟩ := turns.indexed (changePermission_built row permission)
  obtain ⟨_, work, done, _, rfl, gives, rfl⟩ := turns
  obtain ⟨hooked, called, _, put⟩ := changePermission_hooked gives
  obtain ⟨ordered, heeded⟩ := called.careful keep heed orderly
  obtain ⟨item, found, place⟩ := orderly.on_item row stands
  obtain ⟨carrier, found', _, place', _⟩ := heeded.relied item found place
  refine ordered.keeps indexed fun levels shape => ⟨levels, ?_⟩
  rw [put]
  exact shape.putMembership _ ⟨carrier, found', place'.trans place⟩

theorem removeMembership_orderly {row : Membership}
    (turns : (removeMembership scene row).Turns before output after) : after.Orderly := by
  obtain ⟨_, indexed⟩ := turns.indexed (removeMembership_built row)
  obtain ⟨_, work, done, _, rfl, gives, rfl⟩ := turns
  obtain ⟨hooked, called, _, gone⟩ := removeMembership_hooked gives
  obtain ⟨ordered, _⟩ := called.careful keep heed orderly
  refine ordered.keeps indexed fun levels shape => ⟨levels, ?_⟩
  rw [gone]
  exact shape.removeMembership row.id

end Careful

/-! A move goes over a subtree that was listed before the hooks were called. -/

namespace Action.MovePasses

variable {listed hooked : Tables} {item : Item} {under : Option Id} {new : Path}
  {moved rebased placed kept last : Work}
  (passes : MovePasses scene listed hooked item new moved rebased placed kept last)
  (orderly : listed.Orderly) (ordered : hooked.Orderly)
  (heeded : HookPayload.Heeded plan .moveItem (.move item under) listed hooked)
include passes orderly ordered heeded

/-- The subtree is still where it was listed, so all of it goes along, and nothing else does. -/
theorem displaced (stands : listed.HasItem item) :
    Displaced item.path new hooked last.tables ∧
      ∀ row, last.tables.HasRow row → row.itemPath = new ∨
        ∃ old, hooked.HasRow old ∧ row.itemPath = old.itemPath.relocate item.path new := by
  have below (row : Item) := orderly.indexed.mem_descendants item row stands
  obtain ⟨other, stands', ids, place, type⟩ :=
    heeded.relied item stands (Or.inl (Path.covers_refl _))
  have whole (row : Item) (found : hooked.HasItem row) (spans : item.path.covers row.path = true) :
      row.id = item.id ∨ row.id ∈ (listed.descendants item).map Item.id := by
    by_cases here : item.path = row.path
    · have same := ordered.indexed.item_unique found stands' (here.symm.trans place.symm)
      exact Or.inl (same ▸ ids)
    · have strict := (Path.isAncestorOf_iff_covers _ _).mpr ⟨spans, here⟩
      obtain ⟨first, earlier, ids', place', _⟩ := heeded.listed row found strict
      exact Or.inr (List.mem_map.mpr ⟨first, (below first).mpr ⟨earlier, place' ▸ strict⟩, ids'⟩)
  obtain ⟨indexed', same, items⟩ := listed_relocated ordered.indexed passes.taken passes.put
    (fun row inside => ((below row).mp inside).1) whole passes.rebase_items
  obtain ⟨indexed'', same_items, memberships⟩ :=
    rows_relocated ordered.indexed indexed' same passes.rebase_rows
  have keeps := keepGrants_gives indexed'' passes.keep
  obtain ⟨items_kept, fewer⟩ := pruneRedundant_fewer passes.prune
  constructor
  · intro id
    rw [items_kept, keeps.items, same_items, items]
    by_cases inside : id ∈ (listed.descendants item).map Item.id
    · obtain ⟨row, member, rfl⟩ := List.mem_map.mp inside
      obtain ⟨found, strict⟩ := (below row).mp member
      obtain ⟨row', found', ids', place', type'⟩ :=
        heeded.relied row found (Or.inl (Path.covers_of_isAncestorOf strict))
      have there : hooked.items[row.id]? = some row' := ids' ▸ found'
      rw [if_pos inside, show listed.items[row.id]? = some row from found, there]
      simp [Item.place, Item.relocate, ids', place', type']
    · rw [if_neg inside, putItem_items]
      by_cases here : id = item.id
      · have there : hooked.items[item.id]? = some other := ids ▸ stands'
        rw [here, if_pos rfl, there]
        simp [Item.place, Item.relocate, ids, place, type]
      · rw [if_neg here, Option.map_map]
        rfl
  · intro row found
    rcases keeps.added row (fewer row found) with found' | ⟨here, _⟩
    · rw [HasRow, memberships, Option.map_eq_some_iff] at found'
      obtain ⟨old, found'', rfl⟩ := found'
      exact Or.inr ⟨old, found'', rfl⟩
    · exact Or.inl here

end Action.MovePasses

/-- The place that was chosen for a subtree is still free, and in a folder. -/
theorem Action.MoveChecked.movable {id : Id} {under : Option Id} {item : Item}
    {folder : Option Item} (checked : MoveChecked scene before id under item folder)
    (orderly : before.Orderly) (ordered : after.Orderly)
    (heeded : HookPayload.Heeded plan .moveItem (.move item under) before after)
    (taken : ∀ other, after.itemPaths[pathWithin folder id]? = some other → other = item.id) :
    ∃ levels other, after.Shape levels ∧ other.path = item.path ∧
      after.Movable levels other (pathWithin folder id) := by
  obtain ⟨levels, shape⟩ := ordered.shape
  have stands := orderly.indexed.hasItem checked.found
  obtain ⟨other, stands', ids, place, _⟩ :=
    heeded.relied item stands (Or.inl (Path.covers_refl _))
  refine ⟨levels + (pathWithin folder id).levels, other, shape.mono (Nat.le_add_right _ _), place, ?_⟩
  constructor
  case stands => exact stands'
  case own_id =>
    rw [pathWithin_id, place, orderly.own_id item stands,
      orderly.indexed.item_id id item checked.found]
  case free =>
    intro row found same
    have entry := (ordered.indexed.item_path _ _).mpr ⟨row, found, same⟩
    cases found.same stands' ((taken row.id entry).trans ids.symm)
    exact checked.elsewhere orderly.indexed orderly.own_id (place.symm.trans same)
  case apart => exact place ▸ checked.apart orderly.indexed orderly.own_id
  case placed =>
    intro parent above
    refine heeded.relied.folder (checked.holds.placed orderly.indexed id parent above)
      fun row found here _ => Or.inr ?_
    rw [← checked.holds.parentId orderly.indexed orderly.own_id id, Path.parentId?, above,
      Option.map_some, ← here, orderly.own_id row found]
  case short =>
    intro row found _
    have within := shape.within row found
    omega

theorem moveItem_orderly {id : Id} {under : Option Id} (keep : scene.hooks.KeepOrder)
    (heed : scene.hooks.Heed plan) (orderly : before.Orderly)
    (turns : (moveItem scene id under).Turns before output after) : after.Orderly := by
  obtain ⟨_, indexed⟩ := turns.indexed (moveItem_built id under)
  obtain ⟨_, work, done, _, rfl, gives, rfl⟩ := turns
  obtain ⟨item, folder, hooked, moved, rebased, placed, kept, checked, called, _, passes⟩ :=
    moveItem_hooked gives
  obtain ⟨ordered, heeded⟩ := called.careful keep heed orderly
  obtain ⟨levels, other, shape, place, movable⟩ :=
    checked.movable orderly ordered heeded passes.taken
  obtain ⟨displaced, rows⟩ :=
    passes.displaced orderly ordered heeded (orderly.indexed.hasItem checked.found)
  rw [← place] at displaced rows
  exact (displaced.keeps_shape shape movable rows).orderly indexed

/-! A copy is made row by row, each below the copy of its parent. -/

/-- The rows in the middle of a copy, with the subtasks that are left. The folders that the plan goes
by still are there, and where a folder was copied to there is a folder, if more is to go into it. -/
structure CopyingInOrder (plan : List SubTask) (start : Tables) (rest : List SubTask)
    (tables : Tables) : Prop where
  orderly : tables.Orderly
  planned : ∀ subtask ∈ rest, subtask ∈ plan
  folders : start.Retains (Receives plan) tables
  laid : ∃ copies rows, Laid copies rows rest ∧ (∀ row ∈ rows, start.HasItem row) ∧
    ∀ copy ∈ copies, Fills plan copy.2 → ∀ source, start.HasItem source → source.id = copy.1 →
      source.isFolder = true →
      ∃ folder, tables.HasItem folder ∧ folder.path = copy.2 ∧ folder.isFolder = true

section Copies

variable (keep : scene.hooks.KeepOrder) (heed : scene.hooks.Heed plan)
include keep heed

theorem copyItemRow_orderly {id : Id} {path : Path} {top : Bool} (orderly : before.Orderly)
    (planned : .copyItem id path top ∈ plan)
    (placed : ∀ parent, path.parent? = some parent →
      ∃ folder, before.HasItem folder ∧ folder.path = parent ∧ folder.isFolder = true)
    (turns : (copyItemRow scene id path top).Turns before output after) :
    after.Orderly ∧ before.Retains (Receives plan) after ∧
      ∀ source, before.HasItem source → source.id = id → source.isFolder = true →
        ∃ folder, after.HasItem folder ∧ folder.path = path ∧ folder.isFolder = true := by
  obtain ⟨_, indexed⟩ := turns.indexed (copyItemRow_built id path top)
  obtain ⟨_, work, done, _, rfl, gives, rfl⟩ := turns
  obtain ⟨source, made, hooked, found, rfl, _, called, unused, free, _, put⟩ :=
    copyItemRow_hooked gives
  obtain ⟨ordered, heeded⟩ := called.careful keep heed orderly
  let made := Item.make path.id path source.name source.type source.extra scene.actor scene.now
  have carried : (hooked.tables.putItem made).HasItem made :=
    (putItem_hasItem _ _ _).mpr (Or.inl rfl)
  have copied : (hooked.tables.putItem made).Orderly :=
    ordered.putItem_new unused free rfl fun parent above =>
      heeded.relied.folder (placed parent above) fun _ _ here holds =>
        ⟨holds, Or.inl ⟨id, path, top, planned, above.trans (congrArg some here.symm)⟩⟩
  obtain ⟨ended, items⟩ : done.tables.Orderly ∧
      ∀ row, done.tables.HasItem row ↔ (hooked.tables.putItem made).HasItem row := by
    cases top with
    | true =>
        have granted : Administered scene made.path (hooked.tables.putItem made) done.tables := put
        exact ⟨copied.administered indexed carried granted, granted.hasItem⟩
    | false =>
        have same : done.tables = hooked.tables.putItem made := put
        rw [same]
        exact ⟨copied, fun _ => Iff.rfl⟩
  refine ⟨ended, ?_, ?_⟩
  · intro row stands receives
    obtain ⟨other, stands', same⟩ := heeded.relied row stands receives
    exact ⟨other, (items other).mpr
      ((putItem_hasItem _ _ _).mpr (Or.inr ⟨stands'.id_ne unused, stands'⟩)), same⟩
  · intro row stands ids holds
    have own_id := orderly.indexed.item_id id source found
    cases stands.same (orderly.indexed.hasItem found) (ids.trans own_id.symm)
    exact ⟨made, (items made).mpr carried, rfl, holds⟩

theorem CopyingInOrder.turn {start : Tables} (begun : start.Orderly) (subtask : SubTask)
    (rest : List SubTask) (output : TaskOutput) (before after : Tables)
    (copying : CopyingInOrder plan start (subtask :: rest) before)
    (turns : (subtask.act scene).Turns before output after) :
    CopyingInOrder plan start rest after := by
  obtain ⟨copies, rows, laid, known, copied⟩ := copying.laid
  have planned := copying.planned subtask List.mem_cons_self
  cases laid with
  | @cons _ row others _ parent above new place member later =>
      have stands := known row List.mem_cons_self
      -- The parent was a folder when the copy was planned, so its copy is one.
      obtain ⟨place_above, upper, rfl⟩ := Option.map_eq_some_iff.mp place
      obtain ⟨folder, found, here, holds⟩ := begun.in_folder row place_above stands upper
      have filled : Fills plan above := ⟨_, _, _, planned, Path.parent_child above new⟩
      have carried :=
        copied _ member filled folder found (by rw [← here, begun.own_id folder found]) holds
      obtain ⟨ordered, folders, made⟩ := copyItemRow_orderly keep heed copying.orderly planned
        (by
          intro parent_path known_parent
          rw [Path.parent_child] at known_parent
          cases known_parent
          exact carried)
        turns
      refine ⟨ordered, fun other inside => copying.planned other (List.mem_cons_of_mem _ inside),
        copying.folders.trans folders fun _ _ ids place type receives => ?_, _, others, later,
        fun other inside => known other (List.mem_cons_of_mem row inside), ?_⟩
      · exact receives_congr ids place type receives
      · intro copy inside filled source found' ids holds'
        rcases List.mem_cons.mp inside with rfl | inside
        · -- What was just copied is a folder still, for more is to go into its copy.
          have same : source.id = row.id := ids
          obtain ⟨other, stands', ids', _, type⟩ :=
            copying.folders source found' ⟨holds', Or.inr ⟨_, _, same ▸ planned, filled⟩⟩
          exact made other stands' (ids'.trans ids) (by simpa [Item.isFolder, type] using holds')
        · exact folders.folder (copied copy inside filled source found' ids holds')
            fun _ _ here holds => ⟨holds, Or.inl (here ▸ filled)⟩

/-- The first subtask of a copy makes its top; the others are laid out below. -/
theorem CopyingInOrder.of_top {under : Option Id} {item : Item} {folder : Option Item} {new : Id}
    {more : List SubTask} (orderly : before.Orderly) (stands : before.HasItem item)
    (holds : MayHold scene before under folder)
    (planned : ∀ subtask ∈ .copyItem item.id (pathWithin folder new) true :: more, subtask ∈ plan)
    (laid : Laid [(item.id, pathWithin folder new)] (before.shallowestFirst item) more)
    (turns : (copyItemRow scene item.id (pathWithin folder new) true).Turns before output after) :
    CopyingInOrder plan before more after := by
  obtain ⟨ordered, folders, made⟩ := copyItemRow_orderly keep heed orderly
    (planned _ List.mem_cons_self) (holds.placed orderly.indexed new) turns
  refine ⟨ordered, fun other inside => planned other (List.mem_cons_of_mem _ inside), folders, _, _,
    laid, fun row inside => ?_, fun copy inside _ => ?_⟩
  · exact ((orderly.indexed.mem_shallowestFirst item row stands).mp inside).1
  · cases List.mem_singleton.mp inside
    exact made

end Copies

end SharedTree
