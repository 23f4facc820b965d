import SharedTree.Proofs.Effect.Spelling
import SharedTree.Proofs.Engine.Reached
/-!
A move takes one subtree along, as it is, and nothing else (`Transplanted`). Since an item's path can
be told from its parent's, moving the item back puts every item where it was
(`move_transplants_subtree`).
-/
namespace SharedTree

open SharedTree.Tables SharedTree.Action

variable {levels : Nat} {scene : Scene} {before after : Tables}

def Path.Corresponds (place place' path path' : Path) : Prop :=
  ∃ rest, path.labels = place.labels ++ rest ∧ path'.labels = place'.labels ++ rest

theorem Path.Corresponds.eq_relocate {old new path other : Path}
    (corresponds : Corresponds old new path other) : other = path.relocate old new := by
  obtain ⟨rest, shape, there⟩ := corresponds
  obtain ⟨rest', shape', moved⟩ := relocate_labels new ((covers_iff old path).mpr ⟨rest, shape.symm⟩)
  rw [shape, List.append_cancel_left_eq] at shape'
  exact labels_injective _ _ (by rw [there, moved, shape'])

namespace Tables

def IsOn (tables : Tables) (row : Membership) (id : Id) : Prop :=
  ∃ item, tables.items[id]? = some item ∧ item.path = row.itemPath

inductive PlacedUnder (tables : Tables) (id : Id) : Option Id → Path → Prop where
  | top : PlacedUnder tables id none (.root id)
  | inFolder {parent : Id} {folder : Item} : tables.items[parent]? = some folder →
      folder.isFolder = true → PlacedUnder tables id (some parent) (folder.path.child id)

theorem PlacedUnder.unique {tables : Tables} {id : Id} {under : Option Id} {path other : Path}
    (first : tables.PlacedUnder id under path) (second : tables.PlacedUnder id under other) :
    path = other := by
  cases first with
  | top =>
      cases second
      rfl
  | inFolder found _ =>
      cases second with
      | inFolder found' _ =>
          cases found.symm.trans found'
          rfl

/-- Where paths are spelled in one way, that of an item is told by its parent. -/
theorem Sound.placedUnder (sound : before.Sound levels) (spelled : before.Spelled) {id : Id}
    {item : Item} (found : before.items[id]? = some item) :
    before.PlacedUnder id item.parentId? item.path := by
  have stands := sound.indexed.hasItem found
  have own_id := (sound.shape.own_id item stands).trans (sound.indexed.item_id id item found)
  rw [Item.parentId?, Path.parentId?]
  cases above : item.path.parent? with
  | none =>
      have here := (spelled item stands).eq_root above
      rw [own_id] at here
      exact here ▸ .top
  | some parent =>
      have here := (spelled item stands).eq_child above
      obtain ⟨folder, stands', rfl, holds⟩ := sound.shape.in_folder item parent stands above
      rw [own_id] at here
      rw [Option.map_some, sound.shape.own_id folder stands', here]
      exact .inFolder stands' holds

end Tables

theorem Action.MayHold.placedUnder {under : Option Id} {folder : Option Item}
    (holds : MayHold scene before under folder) (id : Id) :
    before.PlacedUnder id under (pathWithin folder id) := by
  cases under with
  | none =>
      cases holds
      exact .top
  | some parent =>
      obtain ⟨row, rfl, found, kind, _⟩ := holds
      exact .inFolder found kind

/-- An item with all below it has gone to another path, as it was, and nothing else has changed. -/
structure Transplanted (item : Item) (new : Path) (before after : Tables) : Prop where
  along : ∀ row, before.HasItem row → item.path.covers row.path = true →
    ∃ other, after.HasItem other ∧
      other = { row with path := other.path, updatedAt := other.updatedAt } ∧
      Path.Corresponds item.path new row.path other.path
  outside : ∀ id : Id,
    (∀ row, before.items[id]? = some row → item.path.covers row.path = false) →
    after.items[id]? = before.items[id]?
  rows : ∀ row, after.HasRow row →
    (∃ old on, before.HasRow old ∧ row = { old with itemPath := row.itemPath } ∧
      before.IsOn old on ∧ after.IsOn row on) ∨
    (before.memberships[row.id]? = none ∧ after.IsOn row item.id)
  rows_outside : ∀ row, after.HasRow row ∧ new.covers row.itemPath = false ↔
    before.HasRow row ∧ item.path.covers row.itemPath = false

namespace Transplanted

variable {item : Item} {new : Path} (transplanted : Transplanted item new before after)
include transplanted

theorem stays {id : Id} {row : Item} (found : before.items[id]? = some row)
    (apart : item.path.covers row.path = false) : after.items[id]? = some row := by
  rw [transplanted.outside id ?_, found]
  intro other known
  cases found.symm.trans known
  exact apart

theorem paths (indexed : before.Indexed) (id : Id) : after.items[id]?.map Item.path =
    before.items[id]?.map fun row => row.path.relocate item.path new := by
  cases found : before.items[id]? with
  | none =>
      have missing := transplanted.outside id fun row known => nomatch found.symm.trans known
      rw [missing, found]
      rfl
  | some row =>
      by_cases inside : item.path.covers row.path = true
      · obtain ⟨other, stands, same, there⟩ := transplanted.along row (indexed.hasItem found) inside
        have ids : other.id = id := (congrArg Item.id same).trans (indexed.item_id id row found)
        rw [HasItem, ids] at stands
        rw [stands, Option.map_some, Option.map_some, there.eq_relocate]
      · have apart := Bool.not_eq_true _ ▸ inside
        rw [transplanted.stays found apart, Option.map_some, Option.map_some,
          Path.relocate_outside apart]

/-- A place stays one in its folder, if the folder does not lie in the subtree. -/
theorem placedUnder {id : Id} {under : Option Id} {path : Path}
    (placed : before.PlacedUnder id under path)
    (apart : ∀ above : Path, above.isAncestorOf path = true → item.path.covers above = false) :
    after.PlacedUnder id under path := by
  cases placed with
  | top => exact .top
  | @inFolder parent folder found holds =>
      have outside := apart _ (Path.parent_isAncestorOf (Path.parent_child folder.path id))
      exact .inFolder (transplanted.stays found outside) holds

end Transplanted

/-! What the passes of a move make of the rows. The item has the new time in it when they begin. -/

section Passes

variable {item : Item} {new : Path} {grants : List Membership} {now : Instant}
  (sound : before.Sound levels) (movable : before.Movable levels item new)
  (moved : Moved item new grants (before.putItem { item with updatedAt := now }) after)
include movable moved

theorem Tables.Moved.item_along {row : Item} (stands : before.HasItem row) :
    ∃ time, after.HasItem
      { row with path := row.path.relocate item.path new, updatedAt := time } := by
  obtain ⟨time, found⟩ : ∃ time : Instant,
      (before.putItem { item with updatedAt := now }).HasItem { row with updatedAt := time } := by
    -- The item itself has the new time, all others the one they had.
    by_cases here : row.id = item.id
    · cases stands.same movable.stands here
      exact ⟨now, (putItem_hasItem _ _ _).mpr (Or.inl rfl)⟩
    · exact ⟨row.updatedAt, (putItem_hasItem _ _ _).mpr (Or.inr ⟨here, stands⟩)⟩
  exact ⟨time, (moved.hasItem_iff _).mpr ⟨_, found, rfl⟩⟩

theorem Tables.Moved.item_outside {id : Id}
    (apart : ∀ row, before.items[id]? = some row → item.path.covers row.path = false) :
    after.items[id]? = before.items[id]? := by
  have elsewhere : id ≠ item.id := by
    rintro rfl
    have outside := apart item movable.stands
    rw [Path.covers_refl] at outside
    cases outside
  rw [moved.items, putItem_items, if_neg elsewhere]
  cases found : before.items[id]? with
  | none => rfl
  | some row => rw [Option.map_some, Item.relocate, Path.relocate_outside (apart row found)]

include sound

theorem Tables.Moved.row_outside_iff (row : Membership) :
    after.HasRow row ∧ new.covers row.itemPath = false ↔
      before.HasRow row ∧ item.path.covers row.itemPath = false := by
  have start : (before.putItem { item with updatedAt := now }).Sound levels :=
    sound.putItem_same movable.stands rfl rfl rfl
  constructor
  · rintro ⟨stands, outside⟩
    rcases moved.row_origin start.indexed stands with ⟨old, stands', rfl⟩ | ⟨_, here⟩
    · have apart : item.path.covers old.itemPath = false := by
        rw [← Bool.not_eq_true]
        intro inside
        rw [Membership.relocate, Path.relocate_inside new inside] at outside
        cases outside
      have stays : old.itemPath.relocate item.path new = old.itemPath :=
        Path.relocate_outside apart
      rw [Membership.relocate, stays]
      exact ⟨(putItem_hasRow _ _ _).mp stands', apart⟩
    · rw [here, Path.covers_refl] at outside
      cases outside
  · rintro ⟨stands, outside⟩
    have fits := movable.putItem { item with updatedAt := now } rfl rfl rfl
    refine ⟨moved.row_stays start.shape fits ((putItem_hasRow _ _ _).mpr stands) outside, ?_⟩
    exact sound.shape.no_row_below movable.free stands

theorem Tables.Moved.row_carried {row : Membership} (stands : after.HasRow row) :
    (∃ old on, before.HasRow old ∧ row = { old with itemPath := row.itemPath } ∧
      before.IsOn old on ∧ after.IsOn row on) ∨
    (before.memberships[row.id]? = none ∧ after.IsOn row item.id) := by
  have start : (before.putItem { item with updatedAt := now }).Sound levels :=
    sound.putItem_same movable.stands rfl rfl rfl
  rcases moved.row_origin start.indexed stands with ⟨old, stands', rfl⟩ | ⟨unused, here⟩
  · have found := (putItem_hasRow _ _ _).mp stands'
    obtain ⟨carrier, carries, on_it⟩ := sound.shape.on_item old found
    -- The row went where the item went that it was on.
    obtain ⟨time, carries'⟩ := moved.item_along movable carries
    exact Or.inl ⟨old, carrier.id, found, rfl, ⟨carrier, carries, on_it⟩,
      _, carries', congrArg (Path.relocate · item.path new) on_it⟩
  · obtain ⟨time, carries⟩ := moved.item_along movable movable.stands
    rw [putItem_memberships] at unused
    exact Or.inr ⟨unused, _, carries, Path.relocate_self.trans here.symm⟩

theorem Transplanted.of_moved : Transplanted item new before after where
  along row stands inside := by
    obtain ⟨time, stands'⟩ := moved.item_along movable stands
    exact ⟨_, stands', rfl, Path.relocate_labels new inside⟩
  outside _ := moved.item_outside movable
  rows _ := moved.row_carried sound movable
  rows_outside := moved.row_outside_iff sound movable

end Passes

theorem Reached.spelled {allowed : Settings → Prop} {tables : Tables}
    (reached : Reached allowed tables) : tables.Spelled := by
  induction reached with
  | empty =>
      intro item stands
      simp [HasItem, Tables.empty] at stands
  | run engine scene task reached _ quiet ih =>
      obtain ⟨levels, limit, sound⟩ := reached.sound_for scene
      exact (engine.run_outcome scene task sound.indexed).spelled quiet ih limit sound

/-- A move of an item, told by the rows before and after. -/
theorem moveItem_transplants {id : Id} {under : Option Id} {output : TaskOutput}
    (quiet : scene.hooks.WriteNothing) (limit : scene.settings.maxTreeLevels ≤ levels)
    (sound : before.Sound levels) (turns : (moveItem scene id under).Turns before output after) :
    after.Sound levels ∧ ∃ item new, before.items[id]? = some item ∧
      before.PlacedUnder id under new ∧ before.Movable levels item new ∧
      Transplanted item new before after := by
  obtain ⟨sound', item, folder, may, movable, moved⟩ := moveItem_moved quiet limit sound turns
  exact ⟨sound', item, _, may.found, may.holds.placedUnder id, movable, .of_moved sound movable moved⟩

/-- The old place is the one under the old parent, so a second move can lead back to it. -/
theorem Transplanted.undone {id : Id} {item moved : Item} {last : Tables} {output : TaskOutput}
    (transplanted : Transplanted item moved.path before after) (sound : before.Sound levels)
    (spelled : before.Spelled) (movable : before.Movable levels item moved.path)
    (found : before.items[id]? = some item) (found' : after.items[id]? = some moved)
    {levels' : Nat} (quiet : scene.hooks.WriteNothing)
    (limit : scene.settings.maxTreeLevels ≤ levels') (sound' : after.Sound levels')
    (turns : (moveItem scene id item.parentId?).Turns after output last) (other : Id) :
    last.items[other]?.map Item.path = before.items[other]?.map Item.path := by
  obtain ⟨_, item', new, known, placed, _, back⟩ := moveItem_transplants quiet limit sound' turns
  cases found'.symm.trans known
  -- The old parent lies above the subtree, so the first move left it where it was.
  have home := transplanted.placedUnder (sound.placedUnder spelled found) fun above higher => by
    rw [← Bool.not_eq_true]
    intro below
    obtain ⟨spans, strict⟩ := (Path.isAncestorOf_iff_covers _ _).mp higher
    exact strict (Path.covers_antisymm spans below)
  obtain rfl := placed.unique home
  have there := transplanted.paths sound.indexed other
  have returned := back.paths sound'.indexed other
  rw [returned, ← Function.comp_def (fun path => Path.relocate path moved.path item.path),
    ← Option.map_map, there, Option.map_map]
  cases earlier : before.items[other]? with
  | none => rfl
  | some row =>
      -- Nothing was below the new place before, so the second move takes no other item along.
      have free := sound.shape.nothing_below movable.free (sound.indexed.hasItem earlier)
      exact congrArg some (Path.relocate_back free)

/-- A move relocates one subtree: each item of it keeps all but its path and time, and its place
relative to the item that is moved, which ends up under the one named; the items and memberships
elsewhere stay as they were, and each membership in the subtree was on its item before or is a new
one on the item that is moved. A move back to the old parent puts every item where it was. -/
theorem move_transplants_subtree {allowed : Settings → Prop} {engine : Engine}
    (reached : Reached allowed engine.store.tables) (quiet : scene.hooks.WriteNothing) {id : Id}
    {under : Option Id} {cascade : Cascade}
    (ran : (engine.run scene (.moveItem id under)).1 = .ok cascade) :
    ∃ item moved, engine.store.tables.items[id]? = some item ∧
      (engine.run scene (.moveItem id under)).2.store.tables.items[id]? = some moved ∧
      (engine.run scene (.moveItem id under)).2.store.tables.PlacedUnder id under moved.path ∧
      Transplanted item moved.path engine.store.tables
        (engine.run scene (.moveItem id under)).2.store.tables ∧
      ∀ (again : Engine) (scene' : Scene) (cascade' : Cascade),
        again.store.tables = (engine.run scene (.moveItem id under)).2.store.tables →
        scene'.hooks.WriteNothing →
        (again.run scene' (.moveItem id item.parentId?)).1 = .ok cascade' →
        ∀ other : Id,
          (again.run scene' (.moveItem id item.parentId?)).2.store.tables.items[other]?.map
            Item.path = engine.store.tables.items[other]?.map Item.path := by
  obtain ⟨levels, limit, sound⟩ := reached.sound_for scene
  have outcome := engine.run_outcome scene (.moveItem id under) sound.indexed
  generalize (engine.run scene (.moveItem id under)).2.store.tables = after at outcome ⊢
  rw [ran] at outcome
  obtain ⟨_, turns⟩ := outcome.turns_of_done rfl
  obtain ⟨sound', item, new, found, placed, movable, transplanted⟩ :=
    moveItem_transplants quiet limit sound turns
  have paths := transplanted.paths sound.indexed
  obtain ⟨moved, found', there⟩ : ∃ moved, after.items[id]? = some moved ∧ moved.path = new := by
    have here := paths id
    rw [found, Option.map_some, Path.relocate_self] at here
    exact Option.map_eq_some_iff.mp here
  subst there
  refine ⟨item, moved, found, found', ?_, transplanted, ?_⟩
  · refine transplanted.placedUnder placed fun above higher => ?_
    exact Path.apart_of_covers movable.apart (Path.covers_of_isAncestorOf higher)
  intro again scene' cascade' rows quiet' ran' other
  subst rows
  have outcome' := again.run_outcome scene' (.moveItem id item.parentId?) sound'.indexed
  rw [ran'] at outcome'
  obtain ⟨_, turns'⟩ := outcome'.turns_of_done rfl
  exact transplanted.undone sound reached.spelled movable found found' quiet'
    (Nat.le_max_right levels _) (sound'.mono (Nat.le_max_left _ _)) turns' other

/-! The first folder moves into the second with the document in it, before anything is shared. -/

namespace Sample

def unshared : Engine :=
  (Engine.ofStore .inMemory).runAll ((tasks.take 3).map fun task => (sceneOf owner, task))

def nested : Engine := (unshared.run (sceneOf owner) (.moveItem first.id (some secondFolder.id))).2

end Sample

theorem sample_move_transplants_subtree :
    (Sample.unshared.run (Sample.sceneOf Sample.owner)
      (.moveItem Sample.first.id (some Sample.secondFolder.id))).1 =
        .ok (.direct .moveItem (.item { Sample.first with
          path := Sample.secondFolder.path.child Sample.first.id })) ∧
    (Sample.nested.run (Sample.sceneOf Sample.owner) (.moveItem Sample.first.id none)).1 =
      .ok (.direct .moveItem (.item Sample.first)) ∧
    ∃ moved : Item,
      Sample.nested.store.tables.PlacedUnder Sample.first.id (some Sample.secondFolder.id)
        moved.path ∧
      Transplanted Sample.first moved.path Sample.unshared.store.tables
        Sample.nested.store.tables ∧
      ∀ other : Id, (Sample.nested.run (Sample.sceneOf Sample.owner)
        (.moveItem Sample.first.id none)).2.store.tables.items[other]?.map Item.path =
          Sample.unshared.store.tables.items[other]?.map Item.path := by
  have ran : (Sample.unshared.run (Sample.sceneOf Sample.owner)
      (.moveItem Sample.first.id (some Sample.secondFolder.id))).1 =
        .ok (.direct .moveItem (.item { Sample.first with
          path := Sample.secondFolder.path.child Sample.first.id })) := by
    decide +kernel
  have back : (Sample.nested.run (Sample.sceneOf Sample.owner)
      (.moveItem Sample.first.id none)).1 = .ok (.direct .moveItem (.item Sample.first)) := by
    decide +kernel
  have here : Sample.unshared.store.tables.items[Sample.first.id]? = some Sample.first := by
    decide +kernel
  have top : Sample.first.parentId? = none := by decide +kernel
  have reached : Reached (fun _ => True) Sample.unshared.store.tables :=
    Sample.reached_after trivial (Sample.tasks.take 3)
  obtain ⟨item, moved, found, _, placed, transplanted, undone⟩ :=
    move_transplants_subtree reached (Sample.quiet Sample.owner) ran
  cases here.symm.trans found
  rw [top] at undone
  exact ⟨ran, back, moved, placed, transplanted,
    undone Sample.nested (Sample.sceneOf Sample.owner) _ rfl (Sample.quiet Sample.owner) back⟩

end SharedTree
