import SharedTree.Proofs.Effect.Items
import SharedTree.Proofs.Tree.Moving
/-!
Moving a subtree. A move that is let through has a free place that the subtree fits into; all it
touches lies below the old place, which the actor administers, or below the new one, where nothing
was.
-/
namespace SharedTree

open SharedTree.Tables SharedTree.Action

variable {levels : Nat} {scene : Scene} {before after : Tables}

/-- The identifier above a place in a folder is the folder's. -/
theorem Action.MayHold.parentId {under : Option Id} {folder : Option Item}
    (holds : MayHold scene before under folder) (indexed : before.Indexed)
    (own_id : ∀ item, before.HasItem item → item.path.id = item.id) (id : Id) :
    (pathWithin folder id).parentId? = under := by
  cases under with
  | none =>
      cases holds
      rw [Path.parentId?, pathWithin, Path.parent_root, Option.map_none]
  | some parent =>
      obtain ⟨row, rfl, found, _, _⟩ := holds
      rw [Path.parentId?, pathWithin, Path.parent_child, Option.map_some,
        own_id row (indexed.hasItem found), indexed.item_id parent row found]

namespace Action.MoveChecked

variable {id : Id} {under : Option Id} {item : Item} {folder : Option Item}
  (checked : MoveChecked scene before id under item folder) (indexed : before.Indexed)
include checked indexed

/-- The folder that an item is moved into is not in the subtree that moves. -/
theorem folder_outside {row : Item} (known : folder = some row) :
    before.HasItem row ∧ item.path.covers row.path = false := by
  have holds := checked.holds
  cases under with
  | none => cases holds.symm.trans known
  | some parent =>
      obtain ⟨other, same, found, _, _⟩ := holds
      cases same.symm.trans known
      have stands := indexed.hasItem found
      refine ⟨stands, ?_⟩
      rw [← Bool.not_eq_true]
      intro spans
      by_cases here : item.path = row.path
      · have equal := indexed.item_unique (indexed.hasItem checked.found) stands here
        subst equal
        exact checked.not_itself (congrArg some
          ((indexed.item_id _ _ found).symm.trans (indexed.item_id _ _ checked.found)))
      · have strict := (Path.isAncestorOf_iff_covers _ _).mpr ⟨spans, here⟩
        rw [checked.not_below row known] at strict
        cases strict

theorem elsewhere (own_id : ∀ item, before.HasItem item → item.path.id = item.id) :
    item.path ≠ pathWithin folder id := by
  intro same
  exact checked.another (by rw [Item.parentId?, same, checked.holds.parentId indexed own_id])

/-- The new place is not inside the subtree that moves. -/
theorem apart (own_id : ∀ item, before.HasItem item → item.path.id = item.id) :
    item.path.covers (pathWithin folder id) = false := by
  rw [← Bool.not_eq_true]
  intro inside
  have below := (Path.isAncestorOf_iff_covers _ _).mpr ⟨inside, checked.elsewhere indexed own_id⟩
  obtain ⟨parent, above, spans⟩ := (Path.isAncestorOf_iff_parent _ _).mp below
  cases chosen : folder with
  | none =>
      rw [chosen, pathWithin, Path.parent_root] at above
      cases above
  | some row =>
      rw [chosen, pathWithin, Path.parent_child] at above
      cases above
      rw [(checked.folder_outside indexed chosen).2] at spans
      cases spans

end Action.MoveChecked

/-- A subtree fits into a place that the checks of a move let through. -/
theorem Action.MayMove.movable {id : Id} {under : Option Id} {item : Item} {folder : Option Item}
    (may : MayMove scene before id under item folder)
    (limit : scene.settings.maxTreeLevels ≤ levels) (sound : before.Sound levels) :
    before.Movable levels item (pathWithin folder id) := by
  have stands := sound.indexed.hasItem may.found
  have own_id := sound.indexed.item_id id item may.found
  constructor
  case stands => exact stands
  case own_id => rw [pathWithin_id, sound.shape.own_id item stands, own_id]
  case free =>
    intro other stands' same
    cases stands'.same stands ((may.free other stands' same).trans own_id.symm)
    exact may.elsewhere sound.indexed sound.shape.own_id same
  case apart => exact may.apart sound.indexed sound.shape.own_id
  case placed => exact may.holds.placed sound.indexed id
  case short =>
    intro other stands' inside
    have listed : other = item ∨ other ∈ before.descendants item := by
      by_contra unlisted
      rw [not_or] at unlisted
      rw [sound.indexed.apart_of_unlisted stands stands' unlisted.1 unlisted.2] at inside
      cases inside
    have most := Item.levels_le_subtreeLevels item (before.descendants item) other listed
    have fits := may.short
    omega

/-- Other data for the item does not keep its subtree from moving. -/
theorem Tables.Movable.putItem {item : Item} {new : Path}
    (movable : before.Movable levels item new) (touched : Item) (same : touched.id = item.id)
    (place : touched.path = item.path) (kind : touched.type = item.type) :
    (before.putItem touched).Movable levels touched new where
  stands := (putItem_hasItem _ _ _).mpr (Or.inl rfl)
  own_id := by rw [place, movable.own_id]
  free := by
    intro other found
    obtain ⟨row, found', _, there, _⟩ := putItem_same_earlier movable.stands same place kind found
    exact there ▸ movable.free row found'
  apart := place ▸ movable.apart
  placed := by
    intro parent above
    obtain ⟨folder, found, there, holds⟩ := movable.placed parent above
    obtain ⟨row, found', _, there', kind'⟩ :=
      putItem_same_later movable.stands same place kind found
    exact ⟨row, found', there'.trans there, by simpa [Item.isFolder, kind'] using holds⟩
  short := by
    intro other found inside
    obtain ⟨row, found', _, there, _⟩ := putItem_same_earlier movable.stands same place kind found
    rw [place] at inside ⊢
    rw [← there] at inside ⊢
    exact movable.short row found' inside

theorem Tables.putItem_inherited (tables : Tables) (item : Item) (account : Id) (path : Path) :
    (tables.putItem item).inherited? account path = tables.inherited? account path := by
  unfold inherited? closestMembership? membershipIdAt?
  simp only [putItem_memberships, putItem_membershipPaths]

theorem Tables.putItem_grants (tables : Tables) (item : Item) (account : Id) (path : Path)
    (level : Permission) :
    (tables.putItem item).Grants account path level ↔ tables.Grants account path level :=
  grants_congr fun row _ _ => tables.putItem_hasRow item row

/-- What a move does: every item of the subtree goes along, with what it granted and what the new
place grants; the other items keep their places and grants. -/
structure MoveEffect (scene : Scene) (item : Item) (new : Path) (before after : Tables) : Prop where
  admin : before.Grants scene.actor item.path .admin
  items : ∀ row, before.HasItem row → ∃ other, after.HasItem other ∧ other.id = row.id ∧
    other.path = row.path.relocate item.path new
  earlier : ∀ other, after.HasItem other → ∃ row, before.HasItem row ∧ row.id = other.id ∧
    row.name = other.name ∧ row.extra = other.extra
  inside : ∀ account path level, item.path.covers path = true →
    (after.Grants account (path.relocate item.path new) level ↔
      before.Grants account path level ∨
        ∃ parent, new.parent? = some parent ∧ before.Grants account parent level)
  outside : ∀ account row level, before.HasItem row → item.path.covers row.path = false →
    (after.Grants account row.path level ↔ before.Grants account row.path level)

/-- What a move makes of the rows: the item has the new time in it before its subtree goes along. -/
theorem moveItem_moved {id : Id} {under : Option Id} {output : TaskOutput}
    (quiet : scene.hooks.WriteNothing) (limit : scene.settings.maxTreeLevels ≤ levels)
    (sound : before.Sound levels) (turns : (moveItem scene id under).Turns before output after) :
    after.Sound levels ∧ ∃ item folder, MayMove scene before id under item folder ∧
      before.Movable levels item (pathWithin folder id) ∧
      Moved { item with updatedAt := scene.now } (pathWithin folder id)
        (before.grantsAbove item.path) (before.putItem { item with updatedAt := scene.now })
        after := by
  obtain ⟨_, indexed⟩ := turns.indexed (moveItem_built id under)
  obtain ⟨_, work, done, _, rfl, gives, rfl⟩ := turns
  obtain ⟨item, folder, may, _, moved, graded⟩ :=
    moveItem_gives quiet sound.indexed sound.graded gives
  have movable := may.movable limit sound
  let touched : Item := { item with updatedAt := scene.now }
  have start : (work.tables.putItem touched).Sound levels :=
    sound.putItem_same movable.stands rfl rfl rfl
  have moved : Moved touched (pathWithin folder id) (work.tables.grantsAbove item.path)
      (work.tables.putItem touched) done.tables := moved
  have shape := moved.keeps_shape start.shape (movable.putItem touched rfl rfl rfl)
  exact ⟨⟨indexed, shape, graded⟩, item, folder, may, movable, moved⟩

theorem moveItem_effect {id : Id} {under : Option Id} {output : TaskOutput}
    (quiet : scene.hooks.WriteNothing) (limit : scene.settings.maxTreeLevels ≤ levels)
    (sound : before.Sound levels) (turns : (moveItem scene id under).Turns before output after) :
    after.Sound levels ∧ ∃ item folder, before.items[id]? = some item ∧
      MayHold scene before under folder ∧
      MoveEffect scene item (pathWithin folder id) before after := by
  obtain ⟨sound', item, folder, may, movable, moved⟩ := moveItem_moved quiet limit sound turns
  refine ⟨sound', item, folder, may.found, may.holds, ?_⟩
  have stands := movable.stands
  let touched : Item := { item with updatedAt := scene.now }
  have later (row : Item) (stands' : before.HasItem row) :
      ∃ other, (before.putItem touched).HasItem other ∧ other.id = row.id ∧
        other.path = row.path ∧ other.type = row.type :=
    putItem_same_later stands (rfl : touched.id = item.id) rfl rfl stands'
  have movable := movable.putItem touched rfl rfl rfl
  have start : (before.putItem touched).Sound levels := sound.putItem_same stands rfl rfl rfl
  have moved : Moved touched (pathWithin folder id) (before.grantsAbove item.path)
      (before.putItem touched) after := moved
  have known (row : Membership) : row ∈ before.grantsAbove item.path ↔
      (before.putItem touched).inherited? row.account touched.path = some row := by
    rw [putItem_inherited]
    exact sound.indexed.mem_grantsAbove item.path row
  constructor
  case admin => exact (sound.indexed.hasPermission_iff sound.graded).mp may.allowed
  case items =>
    intro row stands'
    obtain ⟨other, found', ids, place, _⟩ := later row stands'
    exact ⟨_, (moved.hasItem_iff _).mpr ⟨other, found', rfl⟩, ids,
      congrArg (Path.relocate · item.path (pathWithin folder id)) place⟩
  case earlier =>
    intro other found'
    obtain ⟨row, found, rfl⟩ := (moved.hasItem_iff other).mp found'
    rcases (putItem_hasItem _ _ row).mp found with rfl | ⟨_, found⟩
    · exact ⟨item, stands, rfl, rfl, rfl⟩
    · exact ⟨row, found, rfl, rfl, rfl⟩
  case inside =>
    intro account path level inside
    have granted := moved.grants_inside start.indexed start.shape start.graded movable known account
      inside level
    simpa only [putItem_grants] using granted
  case outside =>
    intro account row level stands' outside
    obtain ⟨other, found', _, place, _⟩ := later row stands'
    have granted := moved.grants_outside start.shape movable account found' (place ▸ outside) level
    rw [place] at granted
    simpa only [putItem_grants] using granted

theorem MoveEffect.lawful {item : Item} {new : Path}
    (effect : MoveEffect scene item new before after) :
    Lawful scene.actor before after := by
  intro old row stands stands' ids powerless
  have outside : item.path.covers old.path = false := by
    rw [← Bool.not_eq_true]
    exact fun inside => powerless (grants_of_covers inside effect.admin)
  obtain ⟨other, found, ids', place⟩ := effect.items old stands
  cases stands'.same found (ids.trans ids'.symm)
  rw [Path.relocate_outside outside] at place
  exact ⟨place, fun account level _ => effect.outside account old level stands outside,
    fun level => (effect.outside _ old level stands outside).mp⟩

end SharedTree
