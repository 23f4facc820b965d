import SharedTree.Proofs.Tables.Queries
/-!
The shape of the tree: every item has its own identifier at the end of its path and a folder above
it, no path is too long, and every membership is on an item. Main statement: `item_above` (the
paths above an item all have items), from which a path without an item has nothing below it.
-/
namespace SharedTree.Tables

structure WellFormed (levels : Nat) (tables : Tables) : Prop where
  item_id : ∀ (id : Id) (item : Item), tables.items[id]? = some item →
    item.id = id ∧ item.path.id = id
  own_path : ∀ (a b : Id) (left right : Item), tables.items[a]? = some left →
    tables.items[b]? = some right → left.path = right.path → a = b
  in_folder : ∀ (id : Id) (item : Item) (parent : Path), tables.items[id]? = some item →
    item.path.parent? = some parent →
    ∃ (above : Id) (folder : Item), tables.items[above]? = some folder ∧ folder.path = parent ∧
      folder.type = .folder
  within : ∀ (id : Id) (item : Item), tables.items[id]? = some item → item.path.levels ≤ levels
  on_item : ∀ (id : Id) (row : Membership), tables.memberships[id]? = some row →
    ∃ (carrier : Id) (item : Item), tables.items[carrier]? = some item ∧ item.path = row.itemPath
  one_row : ∀ (a b : Id) (left right : Membership), tables.memberships[a]? = some left →
    tables.memberships[b]? = some right → left.itemPath = right.itemPath →
    left.account = right.account → a = b

structure Shape (levels : Nat) (tables : Tables) : Prop where
  own_id : ∀ item, tables.HasItem item → item.path.id = item.id
  in_folder : ∀ item parent, tables.HasItem item → item.path.parent? = some parent →
    ∃ folder, tables.HasItem folder ∧ folder.path = parent ∧ folder.isFolder = true
  within : ∀ item, tables.HasItem item → item.path.levels ≤ levels
  on_item : ∀ row, tables.HasRow row → ∃ item, tables.HasItem item ∧ item.path = row.itemPath

variable {levels : Nat} {tables after : Tables}

theorem Indexed.wellFormed (indexed : tables.Indexed) (shape : tables.Shape levels) :
    tables.WellFormed levels where
  item_id := by
    intro id item found
    have same := indexed.item_id id item found
    exact ⟨same, (shape.own_id item (indexed.hasItem found)).trans same⟩
  own_path := fun a b left right first second => indexed.same_item first second
  in_folder := by
    intro id item parent found above
    obtain ⟨folder, stands, place, kind⟩ :=
      shape.in_folder item parent (indexed.hasItem found) above
    exact ⟨folder.id, folder, stands, place, by simpa [Item.isFolder] using kind⟩
  within := fun id item found => shape.within item (indexed.hasItem found)
  on_item := by
    intro id row found
    obtain ⟨item, stands, place⟩ := shape.on_item row (indexed.hasRow found)
    exact ⟨item.id, item, stands, place⟩
  one_row := fun a b left right first second => indexed.same_membership first second

theorem WellFormed.shape (formed : tables.WellFormed levels) (indexed : tables.Indexed) :
    tables.Shape levels where
  own_id item stands := (formed.item_id item.id item stands).2
  in_folder := by
    intro item parent stands above
    obtain ⟨id, folder, found, place, kind⟩ := formed.in_folder item.id item parent stands above
    exact ⟨folder, indexed.hasItem found, place, by simp [Item.isFolder, kind]⟩
  within item stands := formed.within item.id item stands
  on_item := by
    intro row stands
    obtain ⟨id, item, found, place⟩ := formed.on_item row.id row stands
    exact ⟨item, indexed.hasItem found, place⟩

theorem empty_shape (levels : Nat) : empty.Shape levels where
  own_id := by simp [HasItem, empty]
  in_folder := by simp [HasItem, empty]
  within := by simp [HasItem, empty]
  on_item := by simp [HasRow, empty]

/-! Other data for an item: every row has one with the same identifier, path and type on the other
side. -/

section Same

variable {old item : Item} (stands : tables.HasItem old) (same : item.id = old.id)
  (place : item.path = old.path) (kind : item.type = old.type)
include stands same place kind

theorem putItem_same_earlier {other : Item} (found : (tables.putItem item).HasItem other) :
    ∃ row, tables.HasItem row ∧ row.id = other.id ∧ row.path = other.path ∧
      row.type = other.type := by
  rcases (tables.putItem_hasItem item other).mp found with rfl | ⟨_, found'⟩
  · exact ⟨old, stands, same.symm, place.symm, kind.symm⟩
  · exact ⟨other, found', rfl, rfl, rfl⟩

theorem putItem_same_later {row : Item} (found : tables.HasItem row) :
    ∃ other, (tables.putItem item).HasItem other ∧ other.id = row.id ∧ other.path = row.path ∧
      other.type = row.type := by
  by_cases replaced : row.id = item.id
  · have equal := found.same stands (replaced.trans same)
    subst equal
    exact ⟨item, (tables.putItem_hasItem item item).mpr (Or.inl rfl), same, place, kind⟩
  · exact ⟨row, (tables.putItem_hasItem item row).mpr (Or.inr ⟨replaced, found⟩), rfl, rfl, rfl⟩

end Same

namespace Shape

theorem mono {more : Nat} (shape : tables.Shape levels) (le : levels ≤ more) :
    tables.Shape more :=
  { shape with within := fun item stands => Nat.le_trans (shape.within item stands) le }

variable (shape : tables.Shape levels)
include shape

/-- Every path above an item has an item. -/
theorem item_above {above : Path} {item : Item} (stands : tables.HasItem item)
    (spans : above.covers item.path = true) :
    ∃ other, tables.HasItem other ∧ other.path = above := by
  induction place : item.path using Path.parent_induction generalizing item with
  | top path missing =>
      subst place
      have nowhere : ¬ above.isAncestorOf item.path = true := by
        simp [Path.isAncestorOf_iff_parent, missing]
      have same : above = item.path := by simpa [Path.covers, nowhere] using spans
      exact ⟨item, stands, same.symm⟩
  | below path parent known ih =>
      subst place
      -- Either it is the item's own path, or it covers the parent's, where a folder stands.
      by_cases same : above = item.path
      · exact ⟨item, stands, same.symm⟩
      · have higher := (Path.isAncestorOf_iff_covers _ _).mpr ⟨spans, same⟩
        obtain ⟨parent', known', spans'⟩ := (Path.isAncestorOf_iff_parent _ _).mp higher
        cases known.symm.trans known'
        obtain ⟨folder, stands', place, _⟩ := shape.in_folder item parent stands known
        exact ih stands' (place ▸ spans') place

/-- A path without an item has no item below it. -/
theorem nothing_below {path : Path} (free : ∀ item, tables.HasItem item → item.path ≠ path)
    {item : Item} (stands : tables.HasItem item) : path.covers item.path = false := by
  rw [← Bool.not_eq_true]
  intro spans
  obtain ⟨other, stands', place⟩ := shape.item_above stands spans
  exact free other stands' place

theorem no_row_below {path : Path} (free : ∀ item, tables.HasItem item → item.path ≠ path)
    {row : Membership} (stands : tables.HasRow row) : path.covers row.itemPath = false := by
  obtain ⟨item, stands', place⟩ := shape.on_item row stands
  exact place ▸ shape.nothing_below free stands'

/-! What keeps the shape. -/

/-- A change of memberships only, each left on an item. -/
theorem of_rows (items : ∀ item, after.HasItem item ↔ tables.HasItem item)
    (rows : ∀ row, after.HasRow row → ∃ item, tables.HasItem item ∧ item.path = row.itemPath) :
    after.Shape levels where
  own_id item stands := shape.own_id item ((items item).mp stands)
  in_folder := by
    intro item parent stands above
    obtain ⟨folder, stands', rest⟩ := shape.in_folder item parent ((items item).mp stands) above
    exact ⟨folder, (items folder).mpr stands', rest⟩
  within item stands := shape.within item ((items item).mp stands)
  on_item := by
    intro row stands
    obtain ⟨item, stands', place⟩ := rows row stands
    exact ⟨item, (items item).mpr stands', place⟩

theorem removeMemberships (ids : List Id) : (tables.removeMemberships ids).Shape levels :=
  shape.of_rows (tables.removeMemberships_hasItem ids) fun row stands =>
    shape.on_item row ((tables.removeMemberships_hasRow ids row).mp stands).2

theorem removeMembership (id : Id) : (tables.removeMembership id).Shape levels :=
  shape.of_rows (tables.removeMembership_hasItem id) fun row stands =>
    shape.on_item row ((tables.removeMembership_hasRow id row).mp stands).2

theorem putMembership (row : Membership)
    (carried : ∃ item, tables.HasItem item ∧ item.path = row.itemPath) :
    (tables.putMembership row).Shape levels := by
  refine shape.of_rows (tables.putMembership_hasItem row) ?_
  intro other stands
  rcases (tables.putMembership_hasRow row other).mp stands with rfl | ⟨_, stands'⟩
  · exact carried
  · exact shape.on_item other stands'

/-- A new item in a folder or at the top level. -/
theorem putItem_new (item : Item) (unused : tables.items[item.id]? = none)
    (own : item.path.id = item.id) (short : item.path.levels ≤ levels)
    (placed : ∀ parent, item.path.parent? = some parent →
      ∃ folder, tables.HasItem folder ∧ folder.path = parent ∧ folder.isFolder = true) :
    (tables.putItem item).Shape levels := by
  have kept (other : Item) (stands : tables.HasItem other) : (tables.putItem item).HasItem other :=
    (tables.putItem_hasItem item other).mpr (Or.inr ⟨stands.id_ne unused, stands⟩)
  constructor
  case own_id =>
    intro other stands
    rcases (tables.putItem_hasItem item other).mp stands with rfl | ⟨_, stands'⟩
    · exact own
    · exact shape.own_id other stands'
  case in_folder =>
    intro other parent stands above
    have before :
        ∃ folder, tables.HasItem folder ∧ folder.path = parent ∧ folder.isFolder = true := by
      rcases (tables.putItem_hasItem item other).mp stands with rfl | ⟨_, stands'⟩
      · exact placed parent above
      · exact shape.in_folder other parent stands' above
    obtain ⟨folder, stands', rest⟩ := before
    exact ⟨folder, kept folder stands', rest⟩
  case within =>
    intro other stands
    rcases (tables.putItem_hasItem item other).mp stands with rfl | ⟨_, stands'⟩
    · exact short
    · exact shape.within other stands'
  case on_item =>
    intro row stands
    obtain ⟨carrier, stands', place⟩ :=
      shape.on_item row ((tables.putItem_hasRow item row).mp stands)
    exact ⟨carrier, kept carrier stands', place⟩

/-- Other data for an item that stays where it is. -/
theorem putItem_same {old item : Item} (stands : tables.HasItem old) (same : item.id = old.id)
    (place : item.path = old.path) (kind : item.type = old.type) :
    (tables.putItem item).Shape levels := by
  constructor
  case own_id =>
    intro other found
    obtain ⟨row, found', ids, there, _⟩ := putItem_same_earlier stands same place kind found
    rw [← there, ← ids]
    exact shape.own_id row found'
  case in_folder =>
    intro other parent found above
    obtain ⟨row, found', _, there, _⟩ := putItem_same_earlier stands same place kind found
    obtain ⟨folder, stands', above_it, holds⟩ := shape.in_folder row parent found' (there ▸ above)
    obtain ⟨folder', stands'', _, there', kind'⟩ :=
      putItem_same_later stands same place kind stands'
    exact ⟨folder', stands'', there'.trans above_it, by simpa [Item.isFolder, kind'] using holds⟩
  case within =>
    intro other found
    obtain ⟨row, found', _, there, _⟩ := putItem_same_earlier stands same place kind found
    exact there ▸ shape.within row found'
  case on_item =>
    intro row found
    obtain ⟨carrier, stands', on_it⟩ :=
      shape.on_item row ((tables.putItem_hasRow item row).mp found)
    obtain ⟨carrier', stands'', _, there, _⟩ := putItem_same_later stands same place kind stands'
    exact ⟨carrier', stands'', there.trans on_it⟩

/-- An item with nothing below it goes away with the memberships on it. -/
theorem removeItem_alone (indexed : tables.Indexed) {item : Item} (stands : tables.HasItem item)
    (alone : ∀ other, tables.HasItem other → item.path.covers other.path = true → other = item) :
    (tables.removeWhole item).Shape levels := by
  have rows := tables.removeWhole_hasItem item
  constructor
  case own_id =>
    intro other found
    exact shape.own_id other ((rows other).mp found).2
  case in_folder =>
    intro other parent found above
    obtain ⟨different, found'⟩ := (rows other).mp found
    obtain ⟨folder, stands', place, kind⟩ := shape.in_folder other parent found' above
    refine ⟨folder, (rows folder).mpr ⟨?_, stands'⟩, place, kind⟩
    intro same
    cases stands'.same stands same
    have spans : item.path.covers other.path = true := by
      rw [place]
      exact Path.covers_of_isAncestorOf (Path.parent_isAncestorOf above)
    exact different (congrArg Item.id (alone other found' spans))
  case within =>
    intro other found
    exact shape.within other ((rows other).mp found).2
  case on_item =>
    intro row found
    obtain ⟨found', outside⟩ := (indexed.removeWhole_hasRow item row).mp found
    obtain ⟨carrier, stands', place⟩ := shape.on_item row found'
    refine ⟨carrier, (rows carrier).mpr ⟨?_, stands'⟩, place⟩
    intro same
    cases stands'.same stands same
    rw [place, Path.covers_refl] at outside
    cases outside

theorem removeItem_childless (indexed : tables.Indexed) {item : Item} (stands : tables.HasItem item)
    (childless : tables.hasChildren item = false) :
    (tables.removeWhole item).Shape levels :=
  shape.removeItem_alone indexed stands fun _ found spans =>
    indexed.alone_of_no_children stands childless found spans

end Shape

end SharedTree.Tables

namespace SharedTree.Item

theorem levels_le_subtreeLevels (item : Item) (others : List Item) (row : Item)
    (inside : row = item ∨ row ∈ others) : row.path.levels ≤ item.subtreeLevels others := by
  have step (start : Nat) (rows : List Item) :
      start ≤ rows.foldl (fun levels other => max levels other.path.levels) start ∧
        ∀ row ∈ rows,
          row.path.levels ≤
            rows.foldl (fun levels other => max levels other.path.levels) start := by
    induction rows generalizing start with
    | nil => simp
    | cons first rest ih =>
        obtain ⟨least, others⟩ := ih (max start first.path.levels)
        rw [List.foldl_cons]
        refine ⟨by omega, fun row member => ?_⟩
        rcases List.mem_cons.mp member with rfl | member
        · omega
        · exact others row member
  rcases inside with rfl | member
  · exact (step row.path.levels others).1
  · exact (step item.path.levels others).2 row member

end SharedTree.Item
