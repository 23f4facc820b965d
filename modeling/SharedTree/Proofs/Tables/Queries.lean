import Std.Data.DTreeMap.Internal.WF.Lemmas
import SharedTree.Access
import SharedTree.Proofs.Path.Order
import SharedTree.Proofs.Tables.Rows
/-!
What the queries answer, told by the rows alone. Main statements: `mem_itemsUnder`,
`mem_membershipsUnder`, `closestMembership_eq` (the own row, or else the one inherited) and
`mem_effectiveAt` (the rows that count on a path are the closest ones).
-/
namespace SharedTree.Tables

def HasItem (tables : Tables) (item : Item) : Prop := tables.items[item.id]? = some item

def HasRow (tables : Tables) (row : Membership) : Prop := tables.memberships[row.id]? = some row

def Reaches (tables : Tables) (account : Id) (path : Path) (row : Membership) : Prop :=
  tables.HasRow row ∧ row.account = account ∧ row.itemPath.covers path = true

def removeMemberships (tables : Tables) (ids : List Id) : Tables :=
  ids.foldl removeMembership tables

def removeWhole (tables : Tables) (item : Item) : Tables :=
  (tables.removeMemberships ((tables.membershipsUnder item.path).map Membership.id)).removeItem
    item.id

/-! What stands after a row is put or removed. -/

section Written

variable (tables : Tables)

theorem putItem_hasItem (item other : Item) :
    (tables.putItem item).HasItem other ↔
      other = item ∨ (other.id ≠ item.id ∧ tables.HasItem other) := by
  rw [HasItem, putItem_items]
  by_cases same : other.id = item.id
  · simp only [same, if_true, Option.some.injEq, ne_eq, not_true, false_and, or_false]
    exact eq_comm
  · have different : other ≠ item := fun equal => same (equal ▸ rfl)
    simp [same, different, HasItem]

theorem removeItem_hasItem (id : Id) (other : Item) :
    (tables.removeItem id).HasItem other ↔ other.id ≠ id ∧ tables.HasItem other := by
  rw [HasItem, removeItem_items]
  by_cases same : other.id = id <;> simp [same, HasItem]

@[simp] theorem putItem_hasRow (item : Item) (row : Membership) :
    (tables.putItem item).HasRow row ↔ tables.HasRow row := by
  rw [HasRow, putItem_memberships, HasRow]

@[simp] theorem removeItem_hasRow (id : Id) (row : Membership) :
    (tables.removeItem id).HasRow row ↔ tables.HasRow row := by
  rw [HasRow, removeItem_memberships, HasRow]

theorem putMembership_hasRow (row other : Membership) :
    (tables.putMembership row).HasRow other ↔
      other = row ∨ (other.id ≠ row.id ∧ tables.HasRow other) := by
  rw [HasRow, putMembership_memberships]
  by_cases same : other.id = row.id
  · simp only [same, if_true, Option.some.injEq, ne_eq, not_true, false_and, or_false]
    exact eq_comm
  · have different : other ≠ row := fun equal => same (equal ▸ rfl)
    simp [same, different, HasRow]

theorem removeMembership_hasRow (id : Id) (other : Membership) :
    (tables.removeMembership id).HasRow other ↔ other.id ≠ id ∧ tables.HasRow other := by
  rw [HasRow, removeMembership_memberships]
  by_cases same : other.id = id <;> simp [same, HasRow]

@[simp] theorem putMembership_hasItem (row : Membership) (item : Item) :
    (tables.putMembership row).HasItem item ↔ tables.HasItem item := by
  rw [HasItem, putMembership_items, HasItem]

@[simp] theorem removeMembership_hasItem (id : Id) (item : Item) :
    (tables.removeMembership id).HasItem item ↔ tables.HasItem item := by
  rw [HasItem, removeMembership_items, HasItem]

@[simp] theorem removeMemberships_items (ids : List Id) :
    (tables.removeMemberships ids).items = tables.items := by
  induction ids generalizing tables with
  | nil => rfl
  | cons id rest ih =>
      rw [removeMemberships, List.foldl_cons, ← removeMemberships, ih, removeMembership_items]

theorem removeMemberships_memberships (ids : List Id) (id : Id) :
    (tables.removeMemberships ids).memberships[id]? =
      if id ∈ ids then none else tables.memberships[id]? := by
  induction ids generalizing tables with
  | nil => rfl
  | cons first rest ih =>
      rw [removeMemberships, List.foldl_cons, ← removeMemberships, ih, removeMembership_memberships]
      by_cases later : id ∈ rest
      · simp [later]
      · by_cases here : id = first <;> simp [later, here]

theorem removeMemberships_hasRow (ids : List Id) (row : Membership) :
    (tables.removeMemberships ids).HasRow row ↔ row.id ∉ ids ∧ tables.HasRow row := by
  rw [HasRow, removeMemberships_memberships, HasRow]
  by_cases listed : row.id ∈ ids <;> simp [listed]

theorem removeMemberships_hasItem (ids : List Id) (item : Item) :
    (tables.removeMemberships ids).HasItem item ↔ tables.HasItem item := by
  rw [HasItem, removeMemberships_items, HasItem]

theorem removeWhole_items (item : Item) (id : Id) :
    (tables.removeWhole item).items[id]? = if id = item.id then none else tables.items[id]? := by
  rw [removeWhole, removeItem_items, removeMemberships_items]

theorem removeWhole_hasItem (item other : Item) :
    (tables.removeWhole item).HasItem other ↔ other.id ≠ item.id ∧ tables.HasItem other := by
  rw [removeWhole, removeItem_hasItem, removeMemberships_hasItem]

end Written

variable {tables : Tables}

theorem HasItem.same {left right : Item} (first : tables.HasItem left)
    (second : tables.HasItem right) (ids : left.id = right.id) : left = right := by
  rw [HasItem, ids] at first
  exact Option.some.inj (first.symm.trans second)

theorem HasItem.id_ne {item : Item} {id : Id} (stands : tables.HasItem item)
    (unused : tables.items[id]? = none) : item.id ≠ id := by
  rintro rfl
  rw [HasItem, unused] at stands
  cases stands

theorem HasRow.id_ne {row : Membership} {id : Id} (stands : tables.HasRow row)
    (unused : tables.memberships[id]? = none) : row.id ≠ id := by
  rintro rfl
  rw [HasRow, unused] at stands
  cases stands

theorem HasRow.same {left right : Membership} (first : tables.HasRow left)
    (second : tables.HasRow right) (ids : left.id = right.id) : left = right := by
  rw [HasRow, ids] at first
  exact Option.some.inj (first.symm.trans second)

theorem mem_stretch {Entry : Type} (index : Std.ExtTreeMap Path Entry) (path other : Path)
    (entry : Entry) :
    (other, entry) ∈ stretch index path ↔
      index[other]? = some entry ∧ path.covers other = true := by
  simp only [stretch, List.mem_filter, Std.ExtTreeMap.mem_toList_iff_getElem?_eq_some]
  constructor
  · rintro ⟨⟨found, _⟩, spans⟩
    exact ⟨found, spans⟩
  · rintro ⟨found, spans⟩
    exact ⟨⟨found, (Path.inRange_iff _ _).mpr spans⟩, spans⟩

theorem values_eq {Key Value : Type} [Ord Key] [Std.TransOrd Key] (map : Std.ExtTreeMap Key Value) :
    map.values = map.toList.map Prod.snd := by
  obtain ⟨inner⟩ := map
  induction inner using Std.ExtDTreeMap.inductionOn with
  | mk tree =>
      show tree.inner.values = (Std.DTreeMap.Internal.Impl.Const.toList tree.inner).map Prod.snd
      rw [Std.DTreeMap.Internal.Impl.values_eq_map_snd,
        Std.DTreeMap.Internal.Impl.Const.toList_eq_toListModel_map]
      simp [List.map_map, Function.comp_def]

theorem mem_values {Key Value : Type} [Ord Key] [Std.TransOrd Key] [Std.LawfulEqOrd Key]
    (map : Std.ExtTreeMap Key Value) (value : Value) :
    value ∈ map.values ↔ ∃ key : Key, map[key]? = some value := by
  simp only [values_eq, List.mem_map, Prod.exists, Std.ExtTreeMap.mem_toList_iff_getElem?_eq_some,
    exists_eq_right]

def membershipsOn (tables : Tables) (path : Path) : List Membership :=
  match tables.membershipPaths[path]? with
  | some accounts => tables.membershipsIn accounts
  | none => []

theorem membershipsCovering_eq (path : Path) :
    tables.membershipsCovering path = path.lineage.flatMap tables.membershipsOn := rfl

theorem lastOfAccounts_lookup (rows : List Membership) (account : Id) :
    (lastOfAccounts rows)[account]? = (rows.filter fun row => row.account = account).getLast? := by
  -- Rows that are read before count only where none of these is the account's.
  have step (last : Std.ExtTreeMap Id Membership) :
      (rows.foldl (fun last row => last.insert row.account row) last)[account]? =
        (rows.filter fun row => row.account = account).getLast?.or last[account]? := by
    induction rows generalizing last with
    | nil => simp
    | cons row rest ih =>
        rw [List.foldl_cons, ih, lookup_insert, List.filter_cons]
        by_cases mine : row.account = account
        · cases rest.filter (fun row => row.account = account) <;> simp [mine, List.getLast?_cons]
        · simp [mine, Ne.symm mine]
  simpa [lastOfAccounts] using step ∅

namespace Indexed

variable (indexed : tables.Indexed)
include indexed

theorem hasItem {id : Id} {item : Item} (found : tables.items[id]? = some item) :
    tables.HasItem item := by
  rw [HasItem, indexed.item_id id item found]
  exact found

theorem hasRow {id : Id} {row : Membership} (found : tables.memberships[id]? = some row) :
    tables.HasRow row := by
  rw [HasRow, indexed.membership_id id row found]
  exact found

theorem mem_items (item : Item) : item ∈ tables.items.values ↔ tables.HasItem item := by
  rw [mem_values]
  exact ⟨fun ⟨_, found⟩ => indexed.hasItem found, fun stands => ⟨item.id, stands⟩⟩

theorem mem_memberships (row : Membership) :
    row ∈ tables.memberships.values ↔ tables.HasRow row := by
  rw [mem_values]
  exact ⟨fun ⟨_, found⟩ => indexed.hasRow found, fun stands => ⟨row.id, stands⟩⟩

theorem items_listed (item : Item) : item ∈ tables.snapshot.items ↔ tables.HasItem item := by
  rw [snapshot, List.mem_mergeSort, indexed.mem_items]

theorem memberships_listed (row : Membership) :
    row ∈ tables.snapshot.memberships ↔ tables.HasRow row := by
  rw [snapshot, List.mem_mergeSort, indexed.mem_memberships]

theorem item_unique {left right : Item} (first : tables.HasItem left)
    (second : tables.HasItem right)
    (same : left.path = right.path) : left = right :=
  first.same second (indexed.same_item first second same)

theorem row_unique {left right : Membership} (first : tables.HasRow left)
    (second : tables.HasRow right) (path : left.itemPath = right.itemPath)
    (account : left.account = right.account) : left = right :=
  first.same second (indexed.same_membership first second path account)

theorem putItem_same {item touched : Item} (stands : tables.HasItem item)
    (same : touched.id = item.id) (place : touched.path = item.path) :
    (tables.putItem touched).Indexed := by
  refine indexed.putItem touched fun id other known there => ?_
  rw [same]
  exact indexed.same_item known stands (there.trans place)

theorem removeMemberships (ids : List Id) : (tables.removeMemberships ids).Indexed := by
  induction ids generalizing tables with
  | nil => exact indexed
  | cons id rest ih => exact ih (indexed.removeMembership id)

/-! Items. -/

theorem itemAt_eq_some (path : Path) (item : Item) :
    tables.itemAt? path = some item ↔ tables.HasItem item ∧ item.path = path := by
  simp only [itemAt?, Option.bind_eq_some_iff, indexed.item_path]
  constructor
  · rintro ⟨id, ⟨other, found, place⟩, found'⟩
    rw [found] at found'
    cases found'
    exact ⟨indexed.hasItem found, place⟩
  · rintro ⟨stands, place⟩
    exact ⟨item.id, ⟨item, stands, place⟩, stands⟩

theorem mem_itemsUnder (path : Path) (item : Item) :
    item ∈ tables.itemsUnder path ↔ tables.HasItem item ∧ path.covers item.path = true := by
  simp only [itemsUnder, List.mem_filterMap, Prod.exists, mem_stretch, indexed.item_path]
  constructor
  · rintro ⟨other, id, ⟨⟨row, found, rfl⟩, spans⟩, found'⟩
    rw [found] at found'
    cases found'
    exact ⟨indexed.hasItem found, spans⟩
  · rintro ⟨stands, spans⟩
    exact ⟨item.path, item.id, ⟨⟨item, stands, rfl⟩, spans⟩, stands⟩

theorem mem_descendants (item other : Item) (stands : tables.HasItem item) :
    other ∈ tables.descendants item ↔
      tables.HasItem other ∧ item.path.isAncestorOf other.path = true := by
  simp only [descendants, List.mem_filter, indexed.mem_itemsUnder, bne_iff_ne, ne_eq,
    Path.isAncestorOf_iff_covers]
  constructor
  · rintro ⟨⟨found, spans⟩, different⟩
    refine ⟨found, spans, fun same => different ?_⟩
    rw [indexed.item_unique stands found same]
  · rintro ⟨found, spans, different⟩
    refine ⟨⟨found, spans⟩, fun same => different ?_⟩
    rw [HasItem, same] at found
    rw [Option.some.inj (found.symm.trans stands)]

theorem mem_deepestFirst (item other : Item) (stands : tables.HasItem item) :
    other ∈ tables.deepestFirst item ↔
      tables.HasItem other ∧ item.path.isAncestorOf other.path = true := by
  rw [deepestFirst, List.mem_mergeSort, indexed.mem_descendants item other stands]

theorem mem_shallowestFirst (item other : Item) (stands : tables.HasItem item) :
    other ∈ tables.shallowestFirst item ↔
      tables.HasItem other ∧ item.path.isAncestorOf other.path = true := by
  rw [shallowestFirst, List.mem_mergeSort, indexed.mem_descendants item other stands]

theorem getItemAt_of_hasItem {item : Item} {path : Path} (stands : tables.HasItem item)
    (place : item.path = path) : tables.getItemAt path = .ok item := by
  rw [getItemAt, (indexed.itemAt_eq_some path item).mpr ⟨stands, place⟩]

/-- With an item on each of some paths, asking for all of them gives just these items, in the order
of the paths. -/
theorem mapM_getItemAt {paths : List Path}
    (carried : ∀ path ∈ paths, ∃ item, tables.HasItem item ∧ item.path = path) :
    ∃ items, paths.mapM tables.getItemAt = .ok items ∧ items.map Item.path = paths ∧
      ∀ item, item ∈ items ↔ tables.HasItem item ∧ item.path ∈ paths := by
  induction paths with
  | nil => exact ⟨[], rfl, rfl, by simp⟩
  | cons path rest ih =>
      rw [List.forall_mem_cons] at carried
      obtain ⟨first, stands, place⟩ := carried.1
      obtain ⟨others, answered, places, listed⟩ := ih carried.2
      refine ⟨first :: others, ?_, by rw [List.map_cons, place, places], fun item => ?_⟩
      · rw [List.mapM_cons, indexed.getItemAt_of_hasItem stands place, answered]
        rfl
      · rw [List.mem_cons, listed, List.mem_cons, and_or_left]
        refine or_congr_left ⟨?_, fun ⟨found, there⟩ => ?_⟩
        · rintro rfl
          exact ⟨stands, place⟩
        · exact indexed.item_unique found stands (there.trans place.symm)

/-- The parent of what is below an item is the item or below it too. -/
theorem parent_within {item parent row : Item} (stands : tables.HasItem item)
    (stands' : tables.HasItem parent) (above : row.path.parent? = some parent.path)
    (below : item.path.isAncestorOf row.path = true) :
    parent = item ∨ item.path.isAncestorOf parent.path = true := by
  obtain ⟨_, known, spans⟩ := (Path.isAncestorOf_iff_parent _ _).mp below
  obtain rfl := Option.some.inj (above.symm.trans known)
  by_cases place : item.path = parent.path
  · exact Or.inl (indexed.item_unique stands' stands place.symm)
  · exact Or.inr ((Path.isAncestorOf_iff_covers _ _).mpr ⟨spans, place⟩)

theorem apart_of_unlisted {item row : Item} (stands : tables.HasItem item)
    (found : tables.HasItem row) (other : row ≠ item) (unlisted : row ∉ tables.descendants item) :
    item.path.covers row.path = false := by
  rw [← Bool.not_eq_true]
  intro spans
  by_cases place : item.path = row.path
  · exact other (indexed.item_unique found stands place.symm)
  · have below := (Path.isAncestorOf_iff_covers _ _).mpr ⟨spans, place⟩
    exact unlisted ((indexed.mem_descendants item row stands).mpr ⟨found, below⟩)

/-- An item without children is the only one on its path and below. -/
theorem alone_of_no_children {item other : Item} (stands : tables.HasItem item)
    (childless : tables.hasChildren item = false) (found : tables.HasItem other)
    (spans : item.path.covers other.path = true) : other = item := by
  have first := (indexed.mem_itemsUnder item.path item).mpr ⟨stands, Path.covers_refl _⟩
  have second := (indexed.mem_itemsUnder item.path other).mpr ⟨found, spans⟩
  simp only [hasChildren, decide_eq_false_iff_not, Nat.not_lt] at childless
  match rows : tables.itemsUnder item.path with
  | [] => simp [rows] at first
  | [only] =>
      rw [rows, List.mem_singleton] at first second
      exact second.trans first.symm
  | _ :: _ :: _ => simp [rows] at childless

/-! Memberships. -/

theorem membershipAt_eq_some (account : Id) (path : Path) (row : Membership) :
    tables.membershipAt? account path = some row ↔
      tables.HasRow row ∧ row.itemPath = path ∧ row.account = account := by
  simp only [membershipAt?, Option.bind_eq_some_iff, indexed.membership_path]
  constructor
  · rintro ⟨id, ⟨other, found, place, holder⟩, found'⟩
    rw [found] at found'
    cases found'
    exact ⟨indexed.hasRow found, place, holder⟩
  · rintro ⟨stands, place, holder⟩
    exact ⟨row.id, ⟨row, stands, place, holder⟩, stands⟩

theorem mem_membershipsIn (path : Path) (accounts : Std.ExtTreeMap Id Id)
    (known : tables.membershipPaths[path]? = some accounts) (row : Membership) :
    row ∈ tables.membershipsIn accounts ↔ tables.HasRow row ∧ row.itemPath = path := by
  have entries (account id : Id) : accounts[account]? = some id ↔
      ∃ row, tables.memberships[id]? = some row ∧ row.itemPath = path ∧ row.account = account := by
    rw [← indexed.membership_path, membershipIdAt?, known, Option.bind_some]
  simp only [membershipsIn, List.mem_filterMap, Prod.exists,
    Std.ExtTreeMap.mem_toList_iff_getElem?_eq_some, entries]
  constructor
  · rintro ⟨account, id, ⟨other, found, place, _⟩, found'⟩
    rw [found] at found'
    cases found'
    exact ⟨indexed.hasRow found, place⟩
  · rintro ⟨stands, place⟩
    exact ⟨row.account, row.id, ⟨row, stands, place, rfl⟩, stands⟩

/-- A row has a set of accounts to stand in. -/
theorem accounts_of_row {row : Membership} (stands : tables.HasRow row) :
    ∃ accounts, tables.membershipPaths[row.itemPath]? = some accounts := by
  have entry := (indexed.membership_path row.itemPath row.account row.id).mpr
    ⟨row, stands, rfl, rfl⟩
  obtain ⟨accounts, known, _⟩ := Option.bind_eq_some_iff.mp entry
  exact ⟨accounts, known⟩

theorem mem_membershipsOn (path : Path) (row : Membership) :
    row ∈ tables.membershipsOn path ↔ tables.HasRow row ∧ row.itemPath = path := by
  unfold membershipsOn
  cases known : tables.membershipPaths[path]? with
  | some accounts => exact indexed.mem_membershipsIn path accounts known row
  | none =>
      simp only [List.not_mem_nil, false_iff, not_and]
      rintro stands rfl
      obtain ⟨accounts, known'⟩ := indexed.accounts_of_row stands
      rw [known] at known'
      cases known'

theorem mem_membershipsUnder (path : Path) (row : Membership) :
    row ∈ tables.membershipsUnder path ↔
      tables.HasRow row ∧ path.covers row.itemPath = true := by
  simp only [membershipsUnder, List.mem_flatMap, Prod.exists, mem_stretch]
  constructor
  · rintro ⟨other, accounts, ⟨known, spans⟩, inside⟩
    obtain ⟨stands, rfl⟩ := (indexed.mem_membershipsIn other accounts known row).mp inside
    exact ⟨stands, spans⟩
  · rintro ⟨stands, spans⟩
    obtain ⟨accounts, known⟩ := indexed.accounts_of_row stands
    exact ⟨row.itemPath, accounts, ⟨known, spans⟩,
      (indexed.mem_membershipsIn _ accounts known row).mpr ⟨stands, rfl⟩⟩

theorem removeWhole_hasRow (item : Item) (row : Membership) :
    (tables.removeWhole item).HasRow row ↔
      tables.HasRow row ∧ item.path.covers row.itemPath = false := by
  rw [removeWhole, removeItem_hasRow, removeMemberships_hasRow, and_comm]
  refine and_congr_right fun stands => ?_
  rw [← Bool.not_eq_true, not_iff_not, List.mem_map]
  constructor
  · rintro ⟨other, listed, same⟩
    obtain ⟨stands', spans⟩ := (indexed.mem_membershipsUnder _ other).mp listed
    rw [← stands'.same stands same]
    exact spans
  · intro spans
    exact ⟨row, (indexed.mem_membershipsUnder _ row).mpr ⟨stands, spans⟩, rfl⟩

theorem mem_membershipsUnderOf (account : Id) (path : Path) (row : Membership) :
    row ∈ tables.membershipsUnderOf account path ↔
      tables.HasRow row ∧ row.account = account ∧ path.covers row.itemPath = true := by
  simp only [membershipsUnderOf, List.mem_filterMap, Prod.exists, mem_stretch]
  constructor
  · rintro ⟨other, accounts, ⟨known, spans⟩, found⟩
    have own : tables.membershipAt? account other = some row := by
      simpa [membershipAt?, membershipIdAt?, known] using found
    obtain ⟨stands, rfl, holder⟩ := (indexed.membershipAt_eq_some account other row).mp own
    exact ⟨stands, holder, spans⟩
  · rintro ⟨stands, holder, spans⟩
    obtain ⟨accounts, known⟩ := indexed.accounts_of_row stands
    have own := (indexed.membershipAt_eq_some account row.itemPath row).mpr ⟨stands, rfl, holder⟩
    exact ⟨row.itemPath, accounts, ⟨known, spans⟩, by
      simpa [membershipAt?, membershipIdAt?, known] using own⟩

theorem mem_membershipsBelow (account : Id) (path : Path) (row : Membership) :
    row ∈ tables.membershipsBelow account path ↔
      tables.HasRow row ∧ row.account = account ∧ path.isAncestorOf row.itemPath = true := by
  simp only [membershipsBelow, List.mem_mergeSort, List.mem_filter, indexed.mem_membershipsUnderOf,
    bne_iff_ne, Path.isAncestorOf_iff_covers]
  constructor
  · rintro ⟨⟨stands, holder, spans⟩, different⟩
    exact ⟨stands, holder, spans, Ne.symm different⟩
  · rintro ⟨stands, holder, spans, different⟩
    exact ⟨⟨stands, holder, spans⟩, Ne.symm different⟩

theorem mem_membershipsOf (account : Id) (row : Membership) :
    row ∈ tables.membershipsOf account ↔ tables.HasRow row ∧ row.account = account := by
  rw [membershipsOf, List.mem_mergeSort, List.mem_filter, indexed.mem_memberships, beq_iff_eq]

/-! The closest membership. -/

/-- What counts on a path is the account's own row there, or else what it inherits. -/
theorem closestMembership_eq (account : Id) (path : Path) :
    tables.closestMembership? account path =
      (tables.membershipAt? account path).or (tables.inherited? account path) := by
  have step (above : List Path) :
      ((path :: above).findSome? fun place => tables.membershipIdAt? account place).bind
          (fun id => tables.memberships[id]?) =
        (tables.membershipAt? account path).or
          ((above.findSome? fun place => tables.membershipIdAt? account place).bind
            fun id => tables.memberships[id]?) := by
    rw [List.findSome?_cons]
    cases entry : tables.membershipIdAt? account path with
    | none => simp [membershipAt?, entry]
    | some id =>
        obtain ⟨row, found, _⟩ := (indexed.membership_path path account id).mp entry
        simp [membershipAt?, entry, found]
  rw [closestMembership?, inherited?]
  cases above : path.parent? with
  | none =>
      have lines : path.lineage.reverse = [path] := by
        simp [Path.lineage, Path.ancestors_of_root above]
      rw [lines, step]
      simp
  | some parent =>
      have lines : path.lineage.reverse = path :: parent.lineage.reverse := by
        simp [Path.lineage.eq_1 path, Path.ancestors_of_parent above]
      rw [lines, step, Option.bind_some, closestMembership?]

theorem reaches_of_root (account : Id) {path : Path} (missing : path.parent? = none)
    (row : Membership) :
    tables.Reaches account path row ↔ tables.membershipAt? account path = some row := by
  have nowhere : ¬ row.itemPath.isAncestorOf path = true := by
    simp [Path.isAncestorOf_iff_parent, missing]
  rw [indexed.membershipAt_eq_some]
  constructor
  · rintro ⟨stands, holder, spans⟩
    exact ⟨stands, by simpa [Path.covers, nowhere] using spans, holder⟩
  · rintro ⟨stands, rfl, holder⟩
    exact ⟨stands, holder, Path.covers_refl _⟩

theorem reaches_of_parent (account : Id) {path parent : Path} (above : path.parent? = some parent)
    (row : Membership) :
    tables.Reaches account path row ↔
      tables.membershipAt? account path = some row ∨ tables.Reaches account parent row := by
  have higher : row.itemPath.isAncestorOf path = true ↔ row.itemPath.covers parent = true := by
    simp [Path.isAncestorOf_iff_parent, above]
  rw [indexed.membershipAt_eq_some, Reaches, Reaches, ← higher]
  simp only [Path.covers, Bool.or_eq_true, beq_iff_eq]
  constructor
  · rintro ⟨stands, holder, here | strict⟩
    · exact Or.inl ⟨stands, here, holder⟩
    · exact Or.inr ⟨stands, holder, strict⟩
  · rintro (⟨stands, here, holder⟩ | ⟨stands, holder, strict⟩)
    · exact ⟨stands, holder, Or.inl here⟩
    · exact ⟨stands, holder, Or.inr strict⟩

theorem closestMembership_reaches {account : Id} {path : Path} {row : Membership}
    (closest : tables.closestMembership? account path = some row) :
    tables.Reaches account path row := by
  induction path using Path.parent_induction with
  | top path missing =>
      rw [indexed.closestMembership_eq, inherited?, missing, Option.bind_none,
        Option.or_none] at closest
      exact (indexed.reaches_of_root account missing row).mpr closest
  | below path parent above ih =>
      rw [indexed.closestMembership_eq, inherited?, above, Option.bind_some,
        Option.or_eq_some_iff] at closest
      rw [indexed.reaches_of_parent account above]
      rcases closest with own | ⟨_, inherited⟩
      · exact Or.inl own
      · exact Or.inr (ih inherited)

/-- Every other membership that reaches the path lies on or above the closest one. -/
theorem closestMembership_nearest {account : Id} {path : Path} {row other : Membership}
    (closest : tables.closestMembership? account path = some row)
    (reaches : tables.Reaches account path other) :
    other.itemPath.covers row.itemPath = true := by
  induction path using Path.parent_induction with
  | top path missing =>
      rw [indexed.closestMembership_eq, inherited?, missing, Option.bind_none,
        Option.or_none] at closest
      rw [indexed.reaches_of_root account missing, closest] at reaches
      cases reaches
      exact Path.covers_refl _
  | below path parent above ih =>
      rw [indexed.closestMembership_eq, inherited?, above, Option.bind_some,
        Option.or_eq_some_iff] at closest
      rcases closest with own | ⟨elsewhere, inherited⟩
      · rw [((indexed.membershipAt_eq_some account path row).mp own).2.1]
        exact reaches.2.2
      · rw [indexed.reaches_of_parent account above, elsewhere] at reaches
        rcases reaches with absurd_row | reaches
        · cases absurd_row
        · exact ih inherited reaches

theorem closestMembership_none {account : Id} {path : Path}
    (absent : tables.closestMembership? account path = none) (row : Membership) :
    ¬ tables.Reaches account path row := by
  induction path using Path.parent_induction with
  | top path missing =>
      rw [indexed.closestMembership_eq, Option.or_eq_none_iff] at absent
      simp [indexed.reaches_of_root account missing, absent.1]
  | below path parent above ih =>
      rw [indexed.closestMembership_eq, inherited?, above, Option.bind_some,
        Option.or_eq_none_iff] at absent
      simp [indexed.reaches_of_parent account above, absent.1, ih absent.2]

theorem inherited_reaches {account : Id} {path : Path} {row : Membership}
    (inherits : tables.inherited? account path = some row) :
    tables.HasRow row ∧ row.account = account ∧ row.itemPath.isAncestorOf path = true := by
  obtain ⟨parent, above, closest⟩ := Option.bind_eq_some_iff.mp inherits
  obtain ⟨stands, holder, spans⟩ := indexed.closestMembership_reaches closest
  exact ⟨stands, holder, Path.covers_isAncestorOf spans (Path.parent_isAncestorOf above)⟩

/-- Where a row of the account stands above the path, something is inherited, from the closest such
row. -/
theorem inherited_of_above {account : Id} {path : Path} {other : Membership}
    (stands : tables.HasRow other) (holder : other.account = account)
    (higher : other.itemPath.isAncestorOf path = true) :
    ∃ above, tables.inherited? account path = some above ∧
      other.itemPath.covers above.itemPath = true := by
  obtain ⟨parent, known, spans⟩ := (Path.isAncestorOf_iff_parent _ _).mp higher
  have reaches : tables.Reaches account parent other := ⟨stands, holder, spans⟩
  cases closest : tables.closestMembership? account parent with
  | none => exact absurd reaches (indexed.closestMembership_none closest other)
  | some above =>
      refine ⟨above, ?_, indexed.closestMembership_nearest closest reaches⟩
      rw [inherited?, known, Option.bind_some, closest]

/-! The memberships that count on a path. -/

/-- The last membership of an account among those that cover a path is the closest one: each step
down the path adds the rows of one place, where the account has at most one. -/
theorem covering_last (account : Id) (path : Path) :
    ((tables.membershipsCovering path).filter fun row => row.account = account).getLast? =
      tables.closestMembership? account path := by
  have place (here : Path) :
      ((tables.membershipsOn here).filter fun row => row.account = account).getLast? =
        tables.membershipAt? account here := by
    have inside (row : Membership) :
        row ∈ (tables.membershipsOn here).filter (fun row => row.account = account) ↔
          tables.membershipAt? account here = some row := by
      rw [indexed.membershipAt_eq_some, List.mem_filter, indexed.mem_membershipsOn,
        decide_eq_true_eq, and_assoc]
    cases last : ((tables.membershipsOn here).filter fun row => row.account = account).getLast? with
    | some row => exact ((inside row).mp (List.mem_of_getLast? last)).symm
    | none =>
        rw [List.getLast?_eq_none_iff] at last
        simp only [last, List.not_mem_nil, false_iff] at inside
        exact (Option.eq_none_iff_forall_ne_some.mpr inside).symm
  induction path using Path.parent_induction with
  | top path missing =>
      rw [membershipsCovering_eq, Path.lineage, Path.ancestors_of_root missing, List.nil_append,
        List.flatMap_singleton, place, indexed.closestMembership_eq, inherited?, missing,
        Option.bind_none, Option.or_none]
  | below path parent above ih =>
      rw [membershipsCovering_eq] at ih
      rw [membershipsCovering_eq, Path.lineage, Path.ancestors_of_parent above, List.flatMap_append,
        List.filter_append, List.getLast?_append, List.flatMap_singleton, place,
        indexed.closestMembership_eq, inherited?, above, Option.bind_some, ih]

/-- The memberships that count on a path are the closest ones of their accounts. -/
theorem mem_effectiveAt (path : Path) (row : Membership) :
    row ∈ tables.effectiveAt path ↔ tables.closestMembership? row.account path = some row := by
  simp only [effectiveAt, List.mem_mergeSort, mem_values, lastOfAccounts_lookup,
    indexed.covering_last]
  constructor
  · rintro ⟨account, closest⟩
    rw [(indexed.closestMembership_reaches closest).2.1]
    exact closest
  · intro closest
    exact ⟨row.account, closest⟩

end Indexed

end SharedTree.Tables
