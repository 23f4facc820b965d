import SharedTree.Proofs.Tree.Shape
/-!
Rows that make up a tree, however deep (`Orderly`). A store is finite, so there always is a limit on
its levels, and what keeps the shape within a limit keeps the order (`Orderly.shape`). `Retains` says
that some items stay where they are, with their types, whatever else becomes of them.
-/
namespace SharedTree.Tables

/-- Every item has its own identifier at the end of its path and a folder above it, every membership
is on an item, and the indexes agree with the rows. -/
structure Orderly (tables : Tables) : Prop where
  indexed : tables.Indexed
  own_id : ∀ item, tables.HasItem item → item.path.id = item.id
  in_folder : ∀ item parent, tables.HasItem item → item.path.parent? = some parent →
    ∃ folder, tables.HasItem folder ∧ folder.path = parent ∧ folder.isFolder = true
  on_item : ∀ row, tables.HasRow row → ∃ item, tables.HasItem item ∧ item.path = row.itemPath

def Retains (which : Item → Prop) (before after : Tables) : Prop :=
  ∀ row, before.HasItem row → which row →
    ∃ other, after.HasItem other ∧ other.id = row.id ∧ other.path = row.path ∧ other.type = row.type

variable {levels : Nat} {tables before middle after : Tables} {which : Item → Prop}

theorem Shape.orderly (shape : tables.Shape levels) (indexed : tables.Indexed) : tables.Orderly where
  indexed := indexed
  own_id := shape.own_id
  in_folder := shape.in_folder
  on_item := shape.on_item

/-- There is a limit that all paths keep. -/
theorem levels_bounded (tables : Tables) :
    ∃ levels, ∀ item, tables.HasItem item → item.path.levels ≤ levels := by
  have bound (rows : List Item) : ∃ levels, ∀ row ∈ rows, row.path.levels ≤ levels := by
    induction rows with
    | nil => exact ⟨0, by simp⟩
    | cons first rest ih =>
      obtain ⟨levels, others⟩ := ih
      refine ⟨max levels first.path.levels, fun row inside => ?_⟩
      rcases List.mem_cons.mp inside with rfl | inside
      · exact Nat.le_max_right _ _
      · exact Nat.le_trans (others row inside) (Nat.le_max_left _ _)
  obtain ⟨levels, all⟩ := bound tables.items.values
  exact ⟨levels, fun item stands => all item ((mem_values _ _).mpr ⟨item.id, stands⟩)⟩

theorem Orderly.shape (orderly : tables.Orderly) : ∃ levels, tables.Shape levels := by
  obtain ⟨levels, within⟩ := tables.levels_bounded
  exact ⟨levels, orderly.own_id, orderly.in_folder, within, orderly.on_item⟩

/-- Rows in order are those that are well-formed under some limit on the levels. -/
theorem orderly_iff : tables.Orderly ↔ tables.Indexed ∧ ∃ levels, tables.WellFormed levels := by
  constructor
  · intro orderly
    obtain ⟨levels, shape⟩ := orderly.shape
    exact ⟨orderly.indexed, levels, orderly.indexed.wellFormed shape⟩
  · rintro ⟨indexed, levels, formed⟩
    exact (formed.shape indexed).orderly indexed

/-- What keeps the shape within some limit keeps the order. -/
theorem Orderly.keeps (orderly : tables.Orderly) (indexed : after.Indexed)
    (shape : ∀ levels, tables.Shape levels → ∃ more, after.Shape more) : after.Orderly := by
  obtain ⟨levels, start⟩ := orderly.shape
  obtain ⟨more, ending⟩ := shape levels start
  exact ending.orderly indexed

/-- A new item in a folder or at the top level. -/
theorem Orderly.putItem_new {item : Item} (orderly : tables.Orderly)
    (unused : tables.items[item.id]? = none) (free : tables.itemPaths[item.path]? = none)
    (own_id : item.path.id = item.id)
    (placed : ∀ parent, item.path.parent? = some parent →
      ∃ folder, tables.HasItem folder ∧ folder.path = parent ∧ folder.isFolder = true) :
    (tables.putItem item).Orderly := by
  refine orderly.keeps (orderly.indexed.putItem_own (by simp [free])) fun levels shape =>
    ⟨max levels item.path.levels, ?_⟩
  exact (shape.mono (Nat.le_max_left levels _)).putItem_new item unused own_id (Nat.le_max_right _ _)
    placed

/-- Other data for an item that stays where it is. -/
theorem Orderly.putItem_same {old item : Item} (orderly : tables.Orderly)
    (stands : tables.HasItem old) (same : item.id = old.id) (place : item.path = old.path)
    (kind : item.type = old.type) : (tables.putItem item).Orderly :=
  orderly.keeps (orderly.indexed.putItem_same stands same place) fun levels shape =>
    ⟨levels, shape.putItem_same stands same place kind⟩

/-- Other data, also of another type, for an item that nothing is below. -/
theorem Orderly.putItem_childless {old item : Item} (orderly : tables.Orderly)
    (stands : tables.HasItem old) (childless : tables.hasChildren old = false)
    (same : item.id = old.id) (place : item.path = old.path) : (tables.putItem item).Orderly := by
  have new_or_old (other : Item) (found : (tables.putItem item).HasItem other) :
      ∃ row, tables.HasItem row ∧ row.path = other.path ∧ row.id = other.id := by
    rcases (tables.putItem_hasItem item other).mp found with rfl | ⟨_, found'⟩
    · exact ⟨old, stands, place.symm, same.symm⟩
    · exact ⟨other, found', rfl, rfl⟩
  constructor
  case indexed => exact orderly.indexed.putItem_same stands same place
  case own_id =>
    intro other found
    obtain ⟨row, found', there, ids⟩ := new_or_old other found
    rw [← there, ← ids]
    exact orderly.own_id row found'
  case in_folder =>
    intro other parent found above
    obtain ⟨row, found', there, _⟩ := new_or_old other found
    rw [← there] at above
    obtain ⟨folder, stands', here, holds⟩ := orderly.in_folder row parent found' above
    have strict := here ▸ Path.parent_isAncestorOf above
    -- The folder has something below it, so it is not the item that changes.
    have kept : folder.id ≠ item.id := by
      intro ids
      obtain rfl := stands'.same stands (ids.trans same)
      obtain rfl := orderly.indexed.alone_of_no_children stands childless found'
        (Path.covers_of_isAncestorOf strict)
      exact absurd rfl ((Path.isAncestorOf_iff_covers _ _).mp strict).2
    exact ⟨folder, (tables.putItem_hasItem item folder).mpr (Or.inr ⟨kept, stands'⟩), here, holds⟩
  case on_item =>
    intro row found
    obtain ⟨carrier, stands', on_it⟩ := orderly.on_item row ((tables.putItem_hasRow item row).mp found)
    by_cases changed : carrier.id = item.id
    · obtain rfl := stands'.same stands (changed.trans same)
      exact ⟨item, (tables.putItem_hasItem item item).mpr (Or.inl rfl), place.trans on_it⟩
    · exact ⟨carrier, (tables.putItem_hasItem item carrier).mpr (Or.inr ⟨changed, stands'⟩), on_it⟩

namespace Retains

theorem refl (which : Item → Prop) (tables : Tables) : tables.Retains which tables :=
  fun row stands _ => ⟨row, stands, rfl, rfl, rfl⟩

/-- The items may be told by nothing but what is retained of them. -/
theorem trans (first : before.Retains which middle) (later : middle.Retains which after)
    (told : ∀ row other : Item, other.id = row.id → other.path = row.path → other.type = row.type →
      which row → which other) : before.Retains which after := by
  intro row stands chosen
  obtain ⟨other, stands', ids, place, kind⟩ := first row stands chosen
  obtain ⟨last, stands'', ids', place', kind'⟩ :=
    later other stands' (told row other ids place kind chosen)
  exact ⟨last, stands'', ids'.trans ids, place'.trans place, kind'.trans kind⟩

theorem folder (retains : before.Retains which after) {parent : Path}
    (carried : ∃ folder, before.HasItem folder ∧ folder.path = parent ∧ folder.isFolder = true)
    (chosen : ∀ folder, before.HasItem folder → folder.path = parent → folder.isFolder = true →
      which folder) :
    ∃ folder, after.HasItem folder ∧ folder.path = parent ∧ folder.isFolder = true := by
  obtain ⟨folder, stands, place, holds⟩ := carried
  obtain ⟨other, stands', _, place', kind⟩ := retains folder stands (chosen folder stands place holds)
  exact ⟨other, stands', place'.trans place, by simpa [Item.isFolder, kind] using holds⟩

end Retains

end SharedTree.Tables
