import Mathlib.Data.Set.Image
import SharedTree.Proofs.Tables.Trees
import SharedTree.Proofs.Task.Local
import SharedTree.Proofs.Task.Refusals
/-!
The trees that a task names. Together with the trees that it can make, under the identifiers that it
draws or that of an item it moves, they are a region (`Task.region`); tables that agree on what the
task names are alike there (`Task.AgreeOn.alike`).
-/
namespace SharedTree

open Tables

namespace Task

def namedItems : Task → List Id
  | createItem new => new.parent.toList
  | updateItem id _ => [id]
  | deleteItem id => [id]
  | moveItem id under => id :: under.toList
  | copyItem id under => id :: under.toList
  | createMembership item _ _ => [item]
  | updateMembership _ _ => []
  | deleteMembership _ _ => []

def namedMemberships : Task → List Id
  | updateMembership id _ => [id]
  | deleteMembership id _ => [id]
  | _ => []

theorem names_eq (task : Task) : task.names = task.namedItems ++ task.namedMemberships := by
  cases task <;> simp [names, namedItems, namedMemberships]

theorem mem_names_of_item {task : Task} {id : Id} (named : id ∈ task.namedItems) :
    id ∈ task.names :=
  task.names_eq ▸ List.mem_append_left task.namedMemberships named

theorem mem_names_of_membership {task : Task} {id : Id} (named : id ∈ task.namedMemberships) :
    id ∈ task.names :=
  task.names_eq ▸ List.mem_append_right task.namedItems named

def trees (task : Task) (tables : Tables) : Set Path :=
  {tree | (∃ id ∈ task.namedItems, ∃ item, tables.items[id]? = some item ∧ item.path.top = tree) ∨
    ∃ id ∈ task.namedMemberships, ∃ row, tables.memberships[id]? = some row ∧
      row.itemPath.top = tree}

/-- The trees that a task can get to: those that it names, those of items at the top level under
identifiers for new rows, and those of the items that it names, moved there. -/
def reach (task : Task) (tables : Tables) (made : Set Id) : Set Path :=
  task.trees tables ∪ Path.root '' (made ∪ {id | id ∈ task.namedItems ∧ tables.items[id]? ≠ none})

def region (task : Task) (tables : Tables) (made : Set Id) : Region where
  trees := task.reach tables made
  items := made ∪ {id | id ∈ task.namedItems ∨
    ∃ item, tables.items[id]? = some item ∧ item.path.top ∈ task.reach tables made}
  memberships := made ∪ {id | id ∈ task.namedMemberships ∨
    ∃ row, tables.memberships[id]? = some row ∧ row.itemPath.top ∈ task.reach tables made}
  made := made
  made_item _ listed := .inl listed
  made_membership _ listed := .inl listed
  made_tree id listed := .inr ⟨id, .inl listed, rfl⟩

structure AgreeOn (task : Task) (left right : Tables) : Prop where
  items : ∀ id ∈ task.namedItems, left.items[id]? = right.items[id]?
  memberships : ∀ id ∈ task.namedMemberships, left.memberships[id]? = right.memberships[id]?
  rows : left.SameIn (task.trees left) right

variable {task : Task} {tables left right : Tables} {made : Set Id} {levels : Nat}

theorem within_region (task : Task) (tables : Tables) (made : Set Id) :
    task.Within (task.region tables made) tables := by
  have item {id : Id} (named : id ∈ task.namedItems) :
      id ∈ (task.region tables made).items := .inr (.inl named)
  have membership {id : Id} (named : id ∈ task.namedMemberships) :
      id ∈ (task.region tables made).memberships := .inr (.inl named)
  cases task with
  | createItem new => exact fun parent known => item (Option.mem_toList.mpr known)
  | updateItem id patch => exact item (List.mem_singleton_self id)
  | deleteItem id => exact item (List.mem_singleton_self id)
  | moveItem id under =>
      refine ⟨item List.mem_cons_self, fun parent known =>
        item (List.mem_cons_of_mem id (Option.mem_toList.mpr known)), fun _ stands => ?_⟩
      exact .inr ⟨id, .inr ⟨List.mem_cons_self, stands⟩, rfl⟩
  | copyItem id under =>
      exact ⟨item List.mem_cons_self, fun parent known =>
        item (List.mem_cons_of_mem id (Option.mem_toList.mpr known))⟩
  | createMembership id account permission => exact item (List.mem_singleton_self id)
  | updateMembership id permission => exact membership (List.mem_singleton_self id)
  | deleteMembership id purgeBelow => exact membership (List.mem_singleton_self id)

theorem trees_stand (indexed : tables.Indexed) : task.trees tables ⊆ tables.trees := by
  rintro tree (⟨id, _, item, found, place⟩ | ⟨id, _, row, found, place⟩)
  · exact .inl ⟨item, indexed.hasItem found, place⟩
  · exact .inr ⟨row, indexed.hasRow found, place⟩

theorem trees_of_item {id : Id} {item : Item} (items : task.namedItems = [id])
    (memberships : task.namedMemberships = []) (found : tables.items[id]? = some item) :
    task.trees tables = {item.path.top} := by
  ext tree
  simp [trees, items, memberships, found, eq_comm]

/-- Of the trees that a task can get to, those that it does not name have no rows yet. -/
theorem reach_vacant (shape : tables.Shape levels) (unused : tables.Unused made)
    {tree : Path} (inside : tree ∈ task.reach tables made) (stands : tree ∈ tables.trees) :
    tree ∈ task.trees tables := by
  rcases inside with named | ⟨id, home, rfl⟩
  · exact named
  · obtain ⟨item, found, place⟩ := shape.root_stands stands
    rcases home with new | ⟨named, _⟩
    · cases found.symm.trans (unused.items id new)
    · exact .inl ⟨id, named, item, found, by rw [place, Path.top_root]⟩

theorem region_fits (indexed : tables.Indexed) (unused : tables.Unused made) :
    tables.Fits (task.region tables made) where
  indexed := indexed
  item id item found := by
    constructor
    · rintro (new | named | ⟨other, found', inside⟩)
      · cases found.symm.trans (unused.items id new)
      · exact .inl (.inl ⟨id, named, item, found, rfl⟩)
      · cases found.symm.trans found'
        exact inside
    · exact fun inside => .inr (.inr ⟨item, found, inside⟩)
  membership id row found := by
    constructor
    · rintro (new | named | ⟨other, found', inside⟩)
      · cases found.symm.trans (unused.memberships id new)
      · exact .inl (.inr ⟨id, named, row, found, rfl⟩)
      · cases found.symm.trans found'
        exact inside
    · exact fun inside => .inr (.inr ⟨row, found, inside⟩)

namespace AgreeOn

variable (agree : task.AgreeOn left right)
include agree

theorem trees_eq : task.trees left = task.trees right := by
  ext tree
  refine or_congr (exists_congr fun id => and_congr_right fun named => ?_)
    (exists_congr fun id => and_congr_right fun named => ?_)
  · rw [agree.items id named]
  · rw [agree.memberships id named]

theorem reach_eq (made : Set Id) : task.reach left made = task.reach right made := by
  have homes : {id | id ∈ task.namedItems ∧ left.items[id]? ≠ none} =
      {id | id ∈ task.namedItems ∧ right.items[id]? ≠ none} := by
    ext id
    exact and_congr_right fun named => by rw [agree.items id named]
  rw [reach, reach, agree.trees_eq, homes]

variable {levels' : Nat} (shape : left.Shape levels) (shape' : right.Shape levels')
  (unused : left.Unused made) (unused' : right.Unused made)
include shape shape' unused unused'

theorem sameIn_reach : left.SameIn (task.reach left made) right := by
  -- In the trees that the task does not name, neither of the tables has rows.
  have others : left.SameIn (task.reach left made \ task.trees left) right := by
    refine .of_vacant (fun tree inside stands => ?_) fun tree inside stands => ?_
    · exact inside.2 (reach_vacant shape unused inside.1 stands)
    · rw [agree.reach_eq, agree.trees_eq] at inside
      exact inside.2 (reach_vacant shape' unused' inside.1 stands)
  refine (agree.rows.union others).mono fun tree inside => ?_
  by_cases named : tree ∈ task.trees left
  · exact .inl named
  · exact .inr ⟨inside, named⟩

/-- Tables that agree on what a task names are alike where it can get to. -/
theorem alike (indexed : left.Indexed) (indexed' : right.Indexed) :
    left.Alike (task.region left made) right := by
  have same := agree.sameIn_reach shape shape' unused unused'
  have items (id : Id) :
      (∃ item, right.items[id]? = some item ∧ item.path.top ∈ task.reach left made) ↔
        ∃ item, left.items[id]? = some item ∧ item.path.top ∈ task.reach left made :=
    exists_congr fun _ => and_congr_left fun inside =>
      ⟨same.symm.item_found indexed' inside, same.item_found indexed inside⟩
  have rows (id : Id) :
      (∃ row, right.memberships[id]? = some row ∧ row.itemPath.top ∈ task.reach left made) ↔
        ∃ row, left.memberships[id]? = some row ∧ row.itemPath.top ∈ task.reach left made :=
    exists_congr fun _ => and_congr_left fun inside =>
      ⟨same.symm.row_found indexed' inside, same.row_found indexed inside⟩
  have regions : task.region right made = task.region left made := by
    simp only [region, ← agree.reach_eq, items, rows]
  refine ⟨region_fits indexed unused, regions ▸ region_fits indexed' unused', ?_, ?_⟩
  · rintro id (new | named | ⟨item, found, inside⟩)
    · rw [unused.items id new, unused'.items id new]
    · exact agree.items id named
    · rw [found, same.item_found indexed inside found]
  · rintro id (new | named | ⟨row, found, inside⟩)
    · rw [unused.memberships id new, unused'.memberships id new]
    · exact agree.memberships id named
    · rw [found, same.row_found indexed inside found]

end AgreeOn

end Task

end SharedTree
