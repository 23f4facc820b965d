import Mathlib.Data.Set.Basic
import SharedTree.Proofs.Path.Top
import SharedTree.Proofs.Tree.Orders
/-!
Parts of the rows that answer for themselves. A region is made up of whole trees; two tables are
alike there if they have the same rows in these trees. The questions that tasks ask look along the
line of a path, up or down, so in a region they have the same answers in tables that are alike.
-/
namespace SharedTree

/-- Some trees, each by the path of its root, with the identifiers that their rows are looked up by;
`made` are those of the identifiers that new rows may be given, at the top level too. -/
structure Region where
  trees : Set Path
  items : Set Id
  memberships : Set Id
  made : Set Id
  made_item : ∀ id ∈ made, id ∈ items
  made_membership : ∀ id ∈ made, id ∈ memberships
  made_tree : ∀ id ∈ made, Path.root id ∈ trees

namespace Tables

structure Fits (region : Region) (tables : Tables) : Prop where
  indexed : tables.Indexed
  item : ∀ (id : Id) (item : Item), tables.items[id]? = some item →
    (id ∈ region.items ↔ item.path.top ∈ region.trees)
  membership : ∀ (id : Id) (row : Membership), tables.memberships[id]? = some row →
    (id ∈ region.memberships ↔ row.itemPath.top ∈ region.trees)

structure Alike (region : Region) (left right : Tables) : Prop where
  fits_left : left.Fits region
  fits_right : right.Fits region
  items : ∀ id ∈ region.items, left.items[id]? = right.items[id]?
  memberships : ∀ id ∈ region.memberships, left.memberships[id]? = right.memberships[id]?

/-- All rows under other identifiers than those of a region are as they were, and no row is new
except under an identifier that one may be made with. -/
structure KeepsOutside (region : Region) (before after : Tables) : Prop where
  items : ∀ id ∉ region.items, after.items[id]? = before.items[id]?
  memberships : ∀ id ∉ region.memberships, after.memberships[id]? = before.memberships[id]?
  no_item : ∀ id ∉ region.made, before.items[id]? = none → after.items[id]? = none
  no_membership : ∀ id ∉ region.made, before.memberships[id]? = none → after.memberships[id]? = none

variable {region : Region} {tables left right before middle after : Tables}

theorem Fits.item_under (fits : tables.Fits region) {path : Path} {item : Item}
    (inside : path.top ∈ region.trees) (stands : tables.HasItem item)
    (spans : path.covers item.path = true) : item.id ∈ region.items :=
  (fits.item item.id item stands).mpr (Path.top_of_covers spans ▸ inside)

theorem Fits.row_under (fits : tables.Fits region) {path : Path} {row : Membership}
    (inside : path.top ∈ region.trees) (stands : tables.HasRow row)
    (spans : path.covers row.itemPath = true) : row.id ∈ region.memberships :=
  (fits.membership row.id row stands).mpr (Path.top_of_covers spans ▸ inside)

/-! What a write within the region keeps. -/

section Writes

theorem Fits.putItem (fits : tables.Fits region) {item : Item} (known : item.id ∈ region.items)
    (inside : item.path.top ∈ region.trees) (indexed : (tables.putItem item).Indexed) :
    (tables.putItem item).Fits region where
  indexed := indexed
  item id other found := by
    rw [putItem_items] at found
    split at found
    · rename_i same
      cases found
      exact same ▸ iff_of_true known inside
    · exact fits.item id other found
  membership := by
    rw [putItem_memberships]
    exact fits.membership

theorem Fits.removeItem (fits : tables.Fits region) (id : Id) :
    (tables.removeItem id).Fits region where
  indexed := fits.indexed.removeItem id
  item other item found := by
    rw [removeItem_items] at found
    split at found
    · cases found
    · exact fits.item other item found
  membership := by
    rw [removeItem_memberships]
    exact fits.membership

theorem Fits.putMembership (fits : tables.Fits region) {row : Membership}
    (known : row.id ∈ region.memberships) (inside : row.itemPath.top ∈ region.trees)
    (indexed : (tables.putMembership row).Indexed) : (tables.putMembership row).Fits region where
  indexed := indexed
  item := by
    rw [putMembership_items]
    exact fits.item
  membership id other found := by
    rw [putMembership_memberships] at found
    split at found
    · rename_i same
      cases found
      exact same ▸ iff_of_true known inside
    · exact fits.membership id other found

theorem Fits.removeMembership (fits : tables.Fits region) (id : Id) :
    (tables.removeMembership id).Fits region where
  indexed := fits.indexed.removeMembership id
  item := by
    rw [removeMembership_items]
    exact fits.item
  membership other row found := by
    rw [removeMembership_memberships] at found
    split at found
    · cases found
    · exact fits.membership other row found

theorem Alike.putItem (alike : left.Alike region right) {item : Item}
    (known : item.id ∈ region.items) (inside : item.path.top ∈ region.trees)
    (indexed : (left.putItem item).Indexed) (indexed' : (right.putItem item).Indexed) :
    (left.putItem item).Alike region (right.putItem item) where
  fits_left := alike.fits_left.putItem known inside indexed
  fits_right := alike.fits_right.putItem known inside indexed'
  items id listed := by
    rw [putItem_items, putItem_items, alike.items id listed]
  memberships := by
    rw [putItem_memberships, putItem_memberships]
    exact alike.memberships

theorem Alike.removeItem (alike : left.Alike region right) (id : Id) :
    (left.removeItem id).Alike region (right.removeItem id) where
  fits_left := alike.fits_left.removeItem id
  fits_right := alike.fits_right.removeItem id
  items other listed := by
    rw [removeItem_items, removeItem_items, alike.items other listed]
  memberships := by
    rw [removeItem_memberships, removeItem_memberships]
    exact alike.memberships

theorem Alike.putMembership (alike : left.Alike region right) {row : Membership}
    (known : row.id ∈ region.memberships) (inside : row.itemPath.top ∈ region.trees)
    (indexed : (left.putMembership row).Indexed) (indexed' : (right.putMembership row).Indexed) :
    (left.putMembership row).Alike region (right.putMembership row) where
  fits_left := alike.fits_left.putMembership known inside indexed
  fits_right := alike.fits_right.putMembership known inside indexed'
  items := by
    rw [putMembership_items, putMembership_items]
    exact alike.items
  memberships id listed := by
    rw [putMembership_memberships, putMembership_memberships, alike.memberships id listed]

theorem Alike.removeMembership (alike : left.Alike region right) (id : Id) :
    (left.removeMembership id).Alike region (right.removeMembership id) where
  fits_left := alike.fits_left.removeMembership id
  fits_right := alike.fits_right.removeMembership id
  items := by
    rw [removeMembership_items, removeMembership_items]
    exact alike.items
  memberships other listed := by
    rw [removeMembership_memberships, removeMembership_memberships, alike.memberships other listed]

theorem KeepsOutside.refl (region : Region) (tables : Tables) :
    tables.KeepsOutside region tables :=
  ⟨fun _ _ => rfl, fun _ _ => rfl, fun _ _ => id, fun _ _ => id⟩

theorem KeepsOutside.trans (first : before.KeepsOutside region middle)
    (later : middle.KeepsOutside region after) : before.KeepsOutside region after where
  items id outside := (later.items id outside).trans (first.items id outside)
  memberships id outside := (later.memberships id outside).trans (first.memberships id outside)
  no_item id outside unused := later.no_item id outside (first.no_item id outside unused)
  no_membership id outside unused :=
    later.no_membership id outside (first.no_membership id outside unused)

theorem KeepsOutside.putItem (tables : Tables) {item : Item} (known : item.id ∈ region.items)
    (placed : item.id ∈ region.made ∨ tables.items[item.id]? ≠ none) :
    tables.KeepsOutside region (tables.putItem item) where
  items id outside := by
    rw [putItem_items, if_neg]
    rintro rfl
    exact outside known
  memberships _ _ := by rw [putItem_memberships]
  no_item id outside unused := by
    rw [putItem_items, if_neg, unused]
    rintro rfl
    exact placed.elim outside fun stands => stands unused
  no_membership _ _ unused := by rw [putItem_memberships, unused]

theorem KeepsOutside.removeItem (tables : Tables) {id : Id} (known : id ∈ region.items) :
    tables.KeepsOutside region (tables.removeItem id) where
  items other outside := by
    rw [removeItem_items, if_neg]
    rintro rfl
    exact outside known
  memberships _ _ := by rw [removeItem_memberships]
  no_item other _ unused := by rw [removeItem_items, unused, ite_self]
  no_membership _ _ unused := by rw [removeItem_memberships, unused]

theorem KeepsOutside.putMembership (tables : Tables) {row : Membership}
    (known : row.id ∈ region.memberships)
    (placed : row.id ∈ region.made ∨ tables.memberships[row.id]? ≠ none) :
    tables.KeepsOutside region (tables.putMembership row) where
  items _ _ := by rw [putMembership_items]
  memberships id outside := by
    rw [putMembership_memberships, if_neg]
    rintro rfl
    exact outside known
  no_item _ _ unused := by rw [putMembership_items, unused]
  no_membership id outside unused := by
    rw [putMembership_memberships, if_neg, unused]
    rintro rfl
    exact placed.elim outside fun stands => stands unused

theorem KeepsOutside.removeMembership (tables : Tables) {id : Id}
    (known : id ∈ region.memberships) :
    tables.KeepsOutside region (tables.removeMembership id) where
  items _ _ := by rw [removeMembership_items]
  memberships other outside := by
    rw [removeMembership_memberships, if_neg]
    rintro rfl
    exact outside known
  no_item _ _ unused := by rw [removeMembership_items, unused]
  no_membership other _ unused := by rw [removeMembership_memberships, unused, ite_self]

end Writes

theorem Alike.symm (alike : left.Alike region right) : right.Alike region left where
  fits_left := alike.fits_right
  fits_right := alike.fits_left
  items id listed := (alike.items id listed).symm
  memberships id listed := (alike.memberships id listed).symm

/-! A stretch of an index is told by its entries. -/

theorem stretch_congr {Entry : Type} {left right : Std.ExtTreeMap Path Entry} {path : Path}
    (same : ∀ place, path.covers place = true → left[place]? = right[place]?) :
    stretch left path = stretch right path := by
  refine eq_of_increasing (compareOn Prod.fst) (stretch_increasing left path)
    (stretch_increasing right path) fun ⟨place, entry⟩ => ?_
  rw [mem_stretch, mem_stretch]
  exact and_congr_left fun spans => by rw [same place spans]

namespace Alike

variable (alike : left.Alike region right)
include alike

theorem hasItem {item : Item} (inside : item.path.top ∈ region.trees)
    (stands : left.HasItem item) : right.HasItem item := by
  rw [HasItem, ← alike.items item.id ((alike.fits_left.item _ item stands).mpr inside)]
  exact stands

theorem hasItem_iff {item : Item} (inside : item.path.top ∈ region.trees) :
    left.HasItem item ↔ right.HasItem item := ⟨alike.hasItem inside, alike.symm.hasItem inside⟩

theorem hasRow {row : Membership} (inside : row.itemPath.top ∈ region.trees)
    (stands : left.HasRow row) : right.HasRow row := by
  rw [HasRow, ← alike.memberships row.id ((alike.fits_left.membership _ row stands).mpr inside)]
  exact stands

theorem hasRow_iff {row : Membership} (inside : row.itemPath.top ∈ region.trees) :
    left.HasRow row ↔ right.HasRow row := ⟨alike.hasRow inside, alike.symm.hasRow inside⟩

/-! The indexes. -/

theorem item_of_entry {path : Path} {id : Id} (inside : path.top ∈ region.trees)
    (entry : left.itemPaths[path]? = some id) : id ∈ region.items := by
  obtain ⟨item, found, rfl⟩ := (alike.fits_left.indexed.item_path path id).mp entry
  exact (alike.fits_left.item id item found).mpr inside

theorem itemPath_of_left {path : Path} {id : Id} (inside : path.top ∈ region.trees)
    (entry : left.itemPaths[path]? = some id) : right.itemPaths[path]? = some id := by
  have listed := alike.item_of_entry inside entry
  obtain ⟨item, found, place⟩ := (alike.fits_left.indexed.item_path path id).mp entry
  exact (alike.fits_right.indexed.item_path path id).mpr
    ⟨item, alike.items id listed ▸ found, place⟩

theorem itemPath {path : Path} (inside : path.top ∈ region.trees) :
    left.itemPaths[path]? = right.itemPaths[path]? :=
  Option.ext fun _ => ⟨alike.itemPath_of_left inside, alike.symm.itemPath_of_left inside⟩

theorem membership_of_entry (account : Id) {path : Path} {id : Id}
    (inside : path.top ∈ region.trees) (entry : left.membershipIdAt? account path = some id) :
    id ∈ region.memberships := by
  obtain ⟨row, found, rfl, _⟩ := (alike.fits_left.indexed.membership_path path account id).mp entry
  exact (alike.fits_left.membership id row found).mpr inside

theorem membershipIdAt_of_left {account : Id} {path : Path} {id : Id}
    (inside : path.top ∈ region.trees) (entry : left.membershipIdAt? account path = some id) :
    right.membershipIdAt? account path = some id := by
  have listed := alike.membership_of_entry account inside entry
  obtain ⟨row, found, rest⟩ := (alike.fits_left.indexed.membership_path path account id).mp entry
  exact (alike.fits_right.indexed.membership_path path account id).mpr
    ⟨row, alike.memberships id listed ▸ found, rest⟩

theorem membershipIdAt (account : Id) {path : Path} (inside : path.top ∈ region.trees) :
    left.membershipIdAt? account path = right.membershipIdAt? account path :=
  Option.ext fun _ =>
    ⟨alike.membershipIdAt_of_left inside, alike.symm.membershipIdAt_of_left inside⟩

theorem membershipPath {path : Path} (inside : path.top ∈ region.trees) :
    left.membershipPaths[path]? = right.membershipPaths[path]? :=
  accounts_ext alike.fits_left.indexed.no_empty alike.fits_right.indexed.no_empty
    fun account => alike.membershipIdAt account inside

/-! Questions about one path. -/

theorem itemAt {path : Path} (inside : path.top ∈ region.trees) :
    left.itemAt? path = right.itemAt? path := by
  refine Option.ext fun item => ?_
  rw [alike.fits_left.indexed.itemAt_eq_some, alike.fits_right.indexed.itemAt_eq_some]
  exact and_congr_left fun place => alike.hasItem_iff (place ▸ inside)

theorem getItemAt {path : Path} (inside : path.top ∈ region.trees) :
    left.getItemAt path = right.getItemAt path := by
  rw [Tables.getItemAt, Tables.getItemAt, alike.itemAt inside]

theorem membershipAt (account : Id) {path : Path} (inside : path.top ∈ region.trees) :
    left.membershipAt? account path = right.membershipAt? account path := by
  refine Option.ext fun row => ?_
  rw [alike.fits_left.indexed.membershipAt_eq_some, alike.fits_right.indexed.membershipAt_eq_some]
  exact and_congr_left fun place => alike.hasRow_iff (place.1 ▸ inside)

theorem closestMembership (account : Id) {path : Path} (inside : path.top ∈ region.trees) :
    left.closestMembership? account path = right.closestMembership? account path := by
  induction path using Path.parent_induction with
  | top path missing =>
      rw [alike.fits_left.indexed.closestMembership_eq,
        alike.fits_right.indexed.closestMembership_eq, alike.membershipAt account inside,
        inherited?, inherited?, missing]
      rfl
  | below path parent above ih =>
      have same := ih (Path.top_of_parent above ▸ inside)
      rw [alike.fits_left.indexed.closestMembership_eq,
        alike.fits_right.indexed.closestMembership_eq, alike.membershipAt account inside,
        inherited?, inherited?, above, Option.bind_some, Option.bind_some, same]

theorem inherited (account : Id) {path : Path} (inside : path.top ∈ region.trees) :
    left.inherited? account path = right.inherited? account path := by
  rw [inherited?, inherited?]
  cases above : path.parent? with
  | none => rfl
  | some parent => exact alike.closestMembership account (Path.top_of_parent above ▸ inside)

theorem require (account : Id) {item : Item} (required : Permission)
    (inside : item.path.top ∈ region.trees) :
    left.require account item required = right.require account item required := by
  simp only [Tables.require, effectivePermission?, alike.closestMembership account inside]

/-! Questions about one row. -/

theorem getItem {id : Id} (listed : id ∈ region.items) : left.getItem id = right.getItem id := by
  rw [Tables.getItem, Tables.getItem, item?, item?, alike.items id listed]

theorem getMembership {id : Id} (listed : id ∈ region.memberships) :
    left.getMembership id = right.getMembership id := by
  rw [Tables.getMembership, Tables.getMembership, membership?, membership?,
    alike.memberships id listed]

theorem getItemFor (account : Id) (required : Permission) {id : Id} (listed : id ∈ region.items) :
    left.getItemFor account required id = right.getItemFor account required id := by
  rw [Tables.getItemFor, Tables.getItemFor, ← alike.getItem listed]
  cases found : left.items[id]? with
  | none => simp only [Tables.getItem, item?, found, bind, Except.bind]
  | some item =>
      have inside := (alike.fits_left.item id item found).mp listed
      simp only [Tables.getItem, item?, found, bind, Except.bind,
        alike.require account required inside]

/-! Questions about what lies below a path. -/

theorem itemsUnder {path : Path} (inside : path.top ∈ region.trees) :
    left.itemsUnder path = right.itemsUnder path := by
  have below {place : Path} (spans : path.covers place = true) : place.top ∈ region.trees :=
    Path.top_of_covers spans ▸ inside
  rw [Tables.itemsUnder, Tables.itemsUnder,
    ← stretch_congr fun place spans => alike.itemPath (below spans)]
  refine List.filterMap_congr fun entry listed => ?_
  obtain ⟨known, spans⟩ := (mem_stretch _ _ _ _).mp listed
  exact alike.items entry.2 (alike.item_of_entry (below spans) known)

theorem descendants {item : Item} (inside : item.path.top ∈ region.trees) :
    left.descendants item = right.descendants item := by
  rw [Tables.descendants, Tables.descendants, alike.itemsUnder inside]

theorem deepestFirst {item : Item} (inside : item.path.top ∈ region.trees) :
    left.deepestFirst item = right.deepestFirst item := by
  rw [Tables.deepestFirst, Tables.deepestFirst, alike.descendants inside]

theorem shallowestFirst {item : Item} (inside : item.path.top ∈ region.trees) :
    left.shallowestFirst item = right.shallowestFirst item := by
  rw [Tables.shallowestFirst, Tables.shallowestFirst, alike.descendants inside]

theorem hasChildren {item : Item} (inside : item.path.top ∈ region.trees) :
    left.hasChildren item = right.hasChildren item := by
  rw [Tables.hasChildren, Tables.hasChildren, alike.itemsUnder inside]

theorem membershipsIn {path : Path} (inside : path.top ∈ region.trees)
    {accounts : Std.ExtTreeMap Id Id} (known : left.membershipPaths[path]? = some accounts) :
    left.membershipsIn accounts = right.membershipsIn accounts := by
  refine List.filterMap_congr fun entry listed => alike.memberships entry.2 ?_
  refine alike.membership_of_entry entry.1 inside ?_
  rw [membershipIdAt?, known, Option.bind_some]
  exact Std.ExtTreeMap.mem_toList_iff_getElem?_eq_some.mp listed

theorem membershipsUnder {path : Path} (inside : path.top ∈ region.trees) :
    left.membershipsUnder path = right.membershipsUnder path := by
  have below {place : Path} (spans : path.covers place = true) : place.top ∈ region.trees :=
    Path.top_of_covers spans ▸ inside
  rw [Tables.membershipsUnder, Tables.membershipsUnder,
    ← stretch_congr fun place spans => alike.membershipPath (below spans)]
  refine List.flatMap_congr fun entry listed => ?_
  obtain ⟨known, spans⟩ := (mem_stretch _ _ _ _).mp listed
  exact alike.membershipsIn (below spans) known

theorem membershipsUnderOf (account : Id) {path : Path} (inside : path.top ∈ region.trees) :
    left.membershipsUnderOf account path = right.membershipsUnderOf account path := by
  have below {place : Path} (spans : path.covers place = true) : place.top ∈ region.trees :=
    Path.top_of_covers spans ▸ inside
  rw [Tables.membershipsUnderOf, Tables.membershipsUnderOf,
    ← stretch_congr fun place spans => alike.membershipPath (below spans)]
  refine List.filterMap_congr fun entry listed => ?_
  obtain ⟨known, spans⟩ := (mem_stretch _ _ _ _).mp listed
  refine Option.bind_congr fun id found => alike.memberships id ?_
  refine alike.membership_of_entry account (below spans) ?_
  rw [membershipIdAt?, known, Option.bind_some, found]

theorem membershipsBelow (account : Id) {path : Path} (inside : path.top ∈ region.trees) :
    left.membershipsBelow account path = right.membershipsBelow account path := by
  rw [Tables.membershipsBelow, Tables.membershipsBelow, alike.membershipsUnderOf account inside]

theorem planWrite (account : Id) {path : Path} (permission : Permission) (limit : Nat)
    (inside : path.top ∈ region.trees) :
    left.planWrite account path permission limit =
      right.planWrite account path permission limit := by
  rw [Tables.planWrite, Tables.planWrite, alike.membershipAt account inside,
    alike.membershipsBelow account inside, alike.inherited account inside]

theorem membershipsOn {path : Path} (inside : path.top ∈ region.trees) :
    left.membershipsOn path = right.membershipsOn path := by
  rw [Tables.membershipsOn, Tables.membershipsOn, ← alike.membershipPath inside]
  cases known : left.membershipPaths[path]? with
  | none => rfl
  | some accounts => exact alike.membershipsIn inside known

theorem effectiveAt {path : Path} (inside : path.top ∈ region.trees) :
    left.effectiveAt path = right.effectiveAt path := by
  have same : left.membershipsCovering path = right.membershipsCovering path := by
    rw [membershipsCovering_eq, membershipsCovering_eq]
    refine List.flatMap_congr fun above listed => alike.membershipsOn ?_
    rw [← Path.top_of_covers ((Path.mem_lineage above path).mp listed)]
    exact inside
  rw [Tables.effectiveAt, Tables.effectiveAt, same]

end Alike

end Tables

end SharedTree
