import SharedTree.Proofs.Transaction.Changes
import SharedTree.Proofs.Tree.Orders
/-!
Queries against a scan of all rows. A scan is what a snapshot lists, the rows in the order of their
paths and accounts. The indexes list the same rows in the same order (`Listed`), and every query
answers the rows of the scan that it asks for (`Scanned`), since rows in order are told by which
they are. So it is for the tables at any point of any transactions that began with nothing
(`queries_scan`).
-/
namespace SharedTree

open SharedTree.Tables

namespace Tables

def links (index : MembershipIndex) : List (Path × Id × Id) :=
  index.toList.flatMap fun entry => entry.2.toList.map fun own => (entry.1, own.1, own.2)

/-- The rows in order, none of them twice, and the indexes as lists of the rows' keys: each index
leads from the keys of all rows to their identifiers, and these are distinct. -/
structure Listed (tables : Tables) : Prop where
  items : ∀ item, item ∈ tables.snapshot.items ↔ tables.HasItem item
  items_order : tables.snapshot.items.Pairwise fun a b => compare a.path b.path = .lt
  items_distinct : (tables.snapshot.items.map Item.id).Nodup
  itemPaths :
    tables.itemPaths.toList = tables.snapshot.items.map fun item => (item.path, item.id)
  memberships : ∀ row, row ∈ tables.snapshot.memberships ↔ tables.HasRow row
  memberships_order : tables.snapshot.memberships.Pairwise fun a b => membershipOrder a b = .lt
  memberships_distinct : (tables.snapshot.memberships.map Membership.id).Nodup
  membershipPaths : links tables.membershipPaths =
    tables.snapshot.memberships.map fun row => (row.itemPath, row.account, row.id)
  no_empty : NoEmpty tables.membershipPaths

/-- What each query answers is what a filter over all rows leaves, in the order of the rows; the
closest membership is the one with the longest path among those that reach the path. -/
structure Scanned (tables : Tables) : Prop where
  itemAt : ∀ path, (tables.itemAt? path).toList =
    tables.snapshot.items.filter fun item => item.path == path
  itemsUnder : ∀ path, tables.itemsUnder path =
    tables.snapshot.items.filter fun item => path.covers item.path
  membershipAt : ∀ account path, (tables.membershipAt? account path).toList =
    tables.snapshot.memberships.filter fun row => row.itemPath == path && row.account == account
  membershipsUnder : ∀ path, tables.membershipsUnder path =
    tables.snapshot.memberships.filter fun row => path.covers row.itemPath
  membershipsUnderOf : ∀ account path, tables.membershipsUnderOf account path =
    tables.snapshot.memberships.filter fun row => row.account == account && path.covers row.itemPath
  membershipsCovering : ∀ path, tables.membershipsCovering path =
    tables.snapshot.memberships.filter fun row => row.itemPath.covers path
  membershipsOf : ∀ account, tables.membershipsOf account =
    tables.snapshot.memberships.filter fun row => row.account == account
  closest : ∀ account path row, tables.closestMembership? account path = some row ↔
    tables.Reaches account path row ∧ ∀ other, tables.Reaches account path other →
      other.itemPath.text.length ≤ row.itemPath.text.length
  closest_none : ∀ account path, tables.closestMembership? account path = none ↔
    ∀ row, ¬ tables.Reaches account path row

variable {tables : Tables}

theorem values_distinct {Key Value : Type} [Ord Key] [Std.TransOrd Key] [Std.LawfulEqOrd Key]
    {map : Std.ExtTreeMap Key Value} {key : Value → Key}
    (own : ∀ (k : Key) (value : Value), map[k]? = some value → key value = k) :
    (map.values.map key).Nodup := by
  have keys : map.values.map key = map.toList.map Prod.fst := by
    rw [values_eq, List.map_map]
    exact List.map_congr_left fun entry inside =>
      own entry.1 entry.2 (Std.ExtTreeMap.mem_toList_iff_getElem?_eq_some.mp inside)
  rw [keys]
  exact nodup_of_increasing compare (List.pairwise_map.mpr map.ordered_keys_toList)

theorem values_nodup {Key Value : Type} [Ord Key] [Std.TransOrd Key] [Std.LawfulEqOrd Key]
    {map : Std.ExtTreeMap Key Value} {key : Value → Key}
    (own : ∀ (k : Key) (value : Value), map[k]? = some value → key value = k) :
    map.values.Nodup :=
  List.Pairwise.of_map key (fun _ _ apart same => apart (congrArg key same)) (values_distinct own)

/-! The index of memberships as a list. -/

theorem mem_links (index : MembershipIndex) (path : Path) (account id : Id) :
    (path, account, id) ∈ links index ↔ linked? index path account = some id := by
  simp only [links, List.mem_flatMap, List.mem_map, Prod.exists, Prod.mk.injEq,
    Std.ExtTreeMap.mem_toList_iff_getElem?_eq_some, linked?, Option.bind_eq_some_iff]
  constructor
  · rintro ⟨_, accounts, known, _, _, found, rfl, rfl, rfl⟩
    exact ⟨accounts, known, found⟩
  · rintro ⟨accounts, known, found⟩
    exact ⟨path, accounts, known, account, id, found, rfl, rfl, rfl⟩

def linkOrder : Path × Id × Id → Path × Id × Id → Ordering :=
  compareLex (compareOn Prod.fst) (compareOn fun link => link.2.1)

instance : Std.TransCmp linkOrder := inferInstanceAs (Std.TransCmp (compareLex _ _))

theorem links_increasing (index : MembershipIndex) :
    (links index).Pairwise fun a b => linkOrder a b = .lt := by
  refine List.pairwise_flatMap.mpr ⟨fun entry _ => ?_, ?_⟩
  · refine List.pairwise_map.mpr (entry.2.ordered_keys_toList.imp fun {a b} less => ?_)
    simp [linkOrder, compareLex, compareOn, Std.ReflOrd.compare_self, less]
  · refine index.ordered_keys_toList.imp fun {a b} less => ?_
    rintro first inside second inside'
    obtain ⟨own, _, rfl⟩ := List.mem_map.mp inside
    obtain ⟨own', _, rfl⟩ := List.mem_map.mp inside'
    simp [linkOrder, compareLex, compareOn, less]

namespace Indexed

variable (indexed : tables.Indexed)
include indexed

/-! The scan. -/

theorem items_order :
    tables.snapshot.items.Pairwise fun a b => compare a.path b.path = .lt := by
  refine increasing_mergeSort (compareOn Item.path) (values_nodup indexed.item_id) ?_
  intro a inside b inside' equal
  exact indexed.item_unique ((indexed.mem_items a).mp inside) ((indexed.mem_items b).mp inside')
    (Std.LawfulEqOrd.eq_of_compare equal)

theorem memberships_order :
    tables.snapshot.memberships.Pairwise fun a b => membershipOrder a b = .lt := by
  refine increasing_mergeSort membershipOrder (values_nodup indexed.membership_id) ?_
  intro a inside b inside' equal
  obtain ⟨path, account⟩ := Ordering.then_eq_eq.mp equal
  exact indexed.row_unique ((indexed.mem_memberships a).mp inside)
    ((indexed.mem_memberships b).mp inside') (Std.LawfulEqOrd.eq_of_compare path)
    (Std.LawfulEqOrd.eq_of_compare account)

theorem itemPaths_toList :
    tables.itemPaths.toList = tables.snapshot.items.map fun item => (item.path, item.id) := by
  refine eq_of_increasing (compareOn Prod.fst) tables.itemPaths.ordered_keys_toList
    (List.pairwise_map.mpr indexed.items_order) ?_
  rintro ⟨path, id⟩
  simp only [Std.ExtTreeMap.mem_toList_iff_getElem?_eq_some, indexed.item_path, List.mem_map,
    indexed.items_listed, Prod.mk.injEq]
  constructor
  · rintro ⟨item, found, place⟩
    exact ⟨item, indexed.hasItem found, place, indexed.item_id id item found⟩
  · rintro ⟨item, stands, place, rfl⟩
    exact ⟨item, stands, place⟩

theorem membershipPaths_links : links tables.membershipPaths =
    tables.snapshot.memberships.map fun row => (row.itemPath, row.account, row.id) := by
  refine eq_of_increasing linkOrder (links_increasing _)
    (List.pairwise_map.mpr indexed.memberships_order) ?_
  rintro ⟨path, account, id⟩
  rw [mem_links, ← membershipIdAt_eq, indexed.membership_path]
  simp only [List.mem_map, indexed.memberships_listed, Prod.mk.injEq]
  constructor
  · rintro ⟨row, found, place, holder⟩
    exact ⟨row, indexed.hasRow found, place, holder, indexed.membership_id id row found⟩
  · rintro ⟨row, stands, place, holder, rfl⟩
    exact ⟨row, stands, place, holder⟩

/-! The queries. -/

theorem items_scan {rows : List Item} (keep : Item → Bool)
    (increasing : rows.Pairwise fun a b => compare a.path b.path = .lt)
    (same : ∀ item, item ∈ rows ↔ tables.HasItem item ∧ keep item = true) :
    rows = tables.snapshot.items.filter keep := by
  refine eq_of_increasing (compareOn Item.path) increasing (indexed.items_order.filter keep) ?_
  intro item
  rw [same, List.mem_filter, indexed.items_listed]

theorem memberships_scan {rows : List Membership} (keep : Membership → Bool)
    (increasing : rows.Pairwise fun a b => membershipOrder a b = .lt)
    (same : ∀ row, row ∈ rows ↔ tables.HasRow row ∧ keep row = true) :
    rows = tables.snapshot.memberships.filter keep := by
  refine eq_of_increasing membershipOrder increasing (indexed.memberships_order.filter keep) ?_
  intro row
  rw [same, List.mem_filter, indexed.memberships_listed]

theorem membershipsCovering_increasing (path : Path) :
    (tables.membershipsCovering path).Pairwise fun a b => membershipOrder a b = .lt := by
  refine List.pairwise_flatMap.mpr ⟨fun above _ => ?_, ?_⟩
  · cases known : tables.membershipPaths[above]? with
    | none => exact .nil
    | some accounts => exact indexed.membershipsIn_increasing known
  · refine path.lineage_increasing.imp fun {upper lower} less row inside row' inside' => ?_
    apply membershipOrder_of_path
    rw [((indexed.mem_membershipsOn upper row).mp inside).2,
      ((indexed.mem_membershipsOn lower row').mp inside').2]
    exact less

theorem membershipsOf_ascending (account : Id) :
    (tables.membershipsOf account).Pairwise fun a b => compare a.itemPath b.itemPath = .lt := by
  have distinct := (values_nodup indexed.membership_id).filter fun row => row.account == account
  refine increasing_mergeSort (compareOn Membership.itemPath) distinct ?_
  -- They are sorted by path alone, but an account has no two memberships on one path.
  intro a inside b inside' equal
  obtain ⟨found, holder⟩ := List.mem_filter.mp inside
  obtain ⟨found', holder'⟩ := List.mem_filter.mp inside'
  exact indexed.row_unique ((indexed.mem_memberships a).mp found)
    ((indexed.mem_memberships b).mp found') (Std.LawfulEqOrd.eq_of_compare equal)
    ((eq_of_beq holder).trans (eq_of_beq holder').symm)

theorem membershipsOf_increasing (account : Id) :
    (tables.membershipsOf account).Pairwise fun a b => membershipOrder a b = .lt :=
  (indexed.membershipsOf_ascending account).imp membershipOrder_of_path

theorem closestMembership_eq_some (account : Id) (path : Path) (row : Membership) :
    tables.closestMembership? account path = some row ↔
      tables.Reaches account path row ∧ ∀ other, tables.Reaches account path other →
        other.itemPath.text.length ≤ row.itemPath.text.length := by
  constructor
  · intro closest
    exact ⟨indexed.closestMembership_reaches closest, fun other reaches =>
      Path.length_le_of_covers (indexed.closestMembership_nearest closest reaches)⟩
  · rintro ⟨reaches, longest⟩
    cases closest : tables.closestMembership? account path with
    | none => exact absurd reaches (indexed.closestMembership_none closest row)
    | some nearest =>
        -- The path lies on or above that of the nearest one, and is no shorter.
        obtain ⟨stands, holder, spans⟩ := indexed.closestMembership_reaches closest
        have place := Path.eq_of_covers (indexed.closestMembership_nearest closest reaches)
          (longest nearest ⟨stands, holder, spans⟩)
        rw [indexed.row_unique stands reaches.1 place.symm (holder.trans reaches.2.1.symm)]

theorem closestMembership_eq_none (account : Id) (path : Path) :
    tables.closestMembership? account path = none ↔
      ∀ row, ¬ tables.Reaches account path row := by
  constructor
  · exact indexed.closestMembership_none
  · intro nothing
    cases closest : tables.closestMembership? account path with
    | none => rfl
    | some row => exact absurd (indexed.closestMembership_reaches closest) (nothing row)

theorem listed : tables.Listed where
  items := indexed.items_listed
  items_order := indexed.items_order
  items_distinct :=
    ((List.mergeSort_perm _ _).map Item.id).nodup_iff.mpr (values_distinct indexed.item_id)
  itemPaths := indexed.itemPaths_toList
  memberships := indexed.memberships_listed
  memberships_order := indexed.memberships_order
  memberships_distinct := ((List.mergeSort_perm _ _).map Membership.id).nodup_iff.mpr
    (values_distinct indexed.membership_id)
  membershipPaths := indexed.membershipPaths_links
  no_empty := indexed.no_empty

theorem scanned : tables.Scanned where
  itemAt path := by
    refine indexed.items_scan _ ?_ fun item => ?_
    · cases tables.itemAt? path <;> simp
    · simp [indexed.itemAt_eq_some]
  itemsUnder path :=
    indexed.items_scan _ (indexed.itemsUnder_increasing path) (indexed.mem_itemsUnder path)
  membershipAt account path := by
    refine indexed.memberships_scan _ ?_ fun row => ?_
    · cases tables.membershipAt? account path <;> simp
    · simp [indexed.membershipAt_eq_some]
  membershipsUnder path := indexed.memberships_scan _ (indexed.membershipsUnder_increasing path)
    (indexed.mem_membershipsUnder path)
  membershipsUnderOf account path := by
    refine indexed.memberships_scan _ ?_ fun row => ?_
    · exact (indexed.membershipsUnderOf_increasing account path).imp membershipOrder_of_path
    · simp [indexed.mem_membershipsUnderOf]
  membershipsCovering path := by
    refine indexed.memberships_scan _ (indexed.membershipsCovering_increasing path) fun row => ?_
    simp [membershipsCovering_eq, Path.mem_lineage, indexed.mem_membershipsOn, and_comm]
  membershipsOf account := by
    refine indexed.memberships_scan _ (indexed.membershipsOf_increasing account) fun row => ?_
    rw [indexed.mem_membershipsOf, beq_iff_eq]
  closest := indexed.closestMembership_eq_some
  closest_none := indexed.closestMembership_eq_none

end Indexed

end Tables

namespace Transaction

inductive Stage where
  | row (op : RowOp)
  | commit
  | rollback

def advance (transaction : Transaction) : Stage → Transaction
  | .row op => transaction.attempt op
  | .commit => .start transaction.tables
  | .rollback => .start transaction.rollback

def advanceAll (transaction : Transaction) (stages : List Stage) : Transaction :=
  stages.foldl advance transaction

variable {transaction : Transaction} {before : Tables}

/-- A transaction keeps a way back, or gives way to one that has written nothing. -/
theorem LeadsBackTo.advance (leads : transaction.LeadsBackTo before) (stage : Stage) :
    ∃ begun, (transaction.advance stage).LeadsBackTo begun := by
  cases stage with
  | row op => exact ⟨before, leads.attempt op⟩
  | commit => exact ⟨_, leadsBackTo_start leads.indexed⟩
  | rollback =>
      have back := rollback_of_leadsBackTo leads
      have begun : before.Indexed := Tables.Undoes.start_indexed leads
      exact ⟨_, leadsBackTo_start (back ▸ begun)⟩

theorem LeadsBackTo.advanceAll (leads : transaction.LeadsBackTo before) (stages : List Stage) :
    ∃ begun, (transaction.advanceAll stages).LeadsBackTo begun := by
  induction stages generalizing transaction before with
  | nil => exact ⟨before, leads⟩
  | cons stage rest ih =>
      obtain ⟨begun, stepped⟩ := leads.advance stage
      exact ih stepped

/-- In the middle of any transactions that began with nothing, the rows and the indexes list the
same and every query answers what a scan of the rows would. -/
theorem queries_scan (stages : List Stage) :
    let tables := ((start .empty).advanceAll stages).tables
    tables.Listed ∧ tables.Scanned := by
  obtain ⟨_, leads⟩ := (leadsBackTo_start empty_indexed).advanceAll stages
  exact ⟨leads.indexed.listed, leads.indexed.scanned⟩

end Transaction

end SharedTree
