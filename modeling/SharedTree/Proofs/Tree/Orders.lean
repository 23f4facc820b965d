import Mathlib.Data.List.Sort
import SharedTree.Proofs.Tables.Queries
/-!
The lists that tasks are planned from: what the indexes answer is in order, so that no row stands in
it twice, and the items below an item come by their levels, from the deepest up or from the closest
down. Once rows are gone, what is planned is what is left of the plan there was
(`deepestFirst_left`, `membershipsBelow_left`).
-/
namespace SharedTree

instance : Std.TransOrd Instant :=
  inferInstanceAs
    (Std.TransCmp (compareLex (compareOn Instant.seconds) (compareOn Instant.nanos)))

section Sorting

variable {Row : Type} {order first second : Row → Row → Ordering} [Std.TransCmp order]

theorem pairwise_mergeSort_isLE (rows : List Row) :
    (rows.mergeSort fun a b => (order a b).isLE).Pairwise fun a b => (order a b).isLE = true := by
  refine List.pairwise_mergeSort (fun a b c => Std.TransCmp.isLE_trans) (fun a b => ?_) rows
  have swapped : order b a = (order a b).swap := Std.OrientedCmp.eq_swap
  rw [swapped]
  cases order a b <;> rfl

theorem pairwise_mergeSort_first [Std.TransCmp first] [Std.TransCmp second] (rows : List Row) :
    (rows.mergeSort fun a b => ((first a b).then (second a b)).isLE).Pairwise
      fun a b => (first a b).isLE = true := by
  have sorted : (rows.mergeSort fun a b => (compareLex first second a b).isLE).Pairwise
      fun a b => (compareLex first second a b).isLE = true := pairwise_mergeSort_isLE rows
  refine sorted.imp fun {a b} le => ?_
  rw [compareLex] at le
  cases order : first a b <;> simp [order] at le ⊢

/-- To put in order those rows that are kept is to keep them in the order of all. No two rows may
share a place in it. -/
theorem mergeSort_kept {rows others : List Row} (keep : Row → Bool) (distinct : rows.Nodup)
    (distinct' : others.Nodup) (kept : ∀ row, row ∈ others ↔ row ∈ rows ∧ keep row = true)
    (told : ∀ a ∈ rows, ∀ b ∈ rows, order a b = .eq → a = b) :
    (others.mergeSort fun a b => (order a b).isLE) =
      (rows.mergeSort fun a b => (order a b).isLE).filter keep := by
  have sorted := List.mergeSort_perm rows fun a b => (order a b).isLE
  have sorted' := List.mergeSort_perm others fun a b => (order a b).isLE
  -- Both sides are sorted and have the same rows, and without ties there is only one such list.
  refine List.Perm.eq_of_pairwise (fun a b inside inside' le ge => ?_)
    (pairwise_mergeSort_isLE others) ((pairwise_mergeSort_isLE rows).filter keep) ?_
  · have among := ((kept a).mp (sorted'.mem_iff.mp inside)).1
    have among' := sorted.mem_iff.mp (List.mem_filter.mp inside').1
    exact told a among b among' (Std.OrientedCmp.isLE_antisymm le ge)
  · refine sorted'.trans (.trans ?_ (sorted.symm.filter keep))
    refine (List.perm_ext_iff_of_nodup distinct' (distinct.filter keep)).mpr fun row => ?_
    rw [kept, List.mem_filter]

theorem nodup_of_increasing (order : Row → Row → Ordering) [Std.TransCmp order] {rows : List Row}
    (increasing : rows.Pairwise fun a b => order a b = .lt) : rows.Nodup := by
  refine increasing.imp fun less same => ?_
  subst same
  exact absurd (Std.ReflCmp.compare_self.symm.trans less) (by decide)

/-- Rows in order are told by which they are. -/
theorem eq_of_increasing (order : Row → Row → Ordering) [Std.TransCmp order]
    {rows others : List Row} (increasing : rows.Pairwise fun a b => order a b = .lt)
    (increasing' : others.Pairwise fun a b => order a b = .lt)
    (same : ∀ row, row ∈ rows ↔ row ∈ others) : rows = others := by
  have : Std.Irrefl fun a b => order a b = .lt :=
    ⟨fun a less => absurd (Std.ReflCmp.compare_self.symm.trans less) (by decide)⟩
  have : Std.Antisymm fun a b => order a b = .lt :=
    ⟨fun a b less more => absurd ((Std.OrientedCmp.gt_of_lt less).symm.trans more) (by decide)⟩
  exact increasing.eq_of_mem_iff increasing' same

/-- Rows that are sorted and none of which shares its place with another are in strict order. -/
theorem increasing_mergeSort (order : Row → Row → Ordering) [Std.TransCmp order]
    {rows : List Row} (distinct : rows.Nodup)
    (told : ∀ a ∈ rows, ∀ b ∈ rows, order a b = .eq → a = b) :
    (rows.mergeSort fun a b => (order a b).isLE).Pairwise fun a b => order a b = .lt := by
  have sorted := List.mergeSort_perm rows fun a b => (order a b).isLE
  have apart : (rows.mergeSort fun a b => (order a b).isLE).Nodup := sorted.nodup_iff.mpr distinct
  refine ((pairwise_mergeSort_isLE rows).and apart).imp_of_mem fun {a b} inside inside' both => ?_
  have differ : order a b ≠ .eq := fun equal =>
    both.2 (told a (sorted.mem_iff.mp inside) b (sorted.mem_iff.mp inside') equal)
  have le := both.1
  cases place : order a b <;> simp_all

end Sorting

namespace Tables

variable {tables : Tables}

instance : Std.TransCmp siblingOrder :=
  inferInstanceAs (Std.TransCmp (compareLex (compareOn Item.createdAt) (compareOn Item.path)))

theorem deepestFirst_sorted (item : Item) :
    (tables.deepestFirst item).Pairwise fun a b => b.path.levels ≤ a.path.levels := by
  have : Std.TransCmp fun a b : Item => compare b.path.levels a.path.levels :=
    inferInstanceAs (Std.TransCmp fun a b => compareOn (fun row : Item => row.path.levels) b a)
  exact (pairwise_mergeSort_first _).imp Nat.isLE_compare.mp

theorem shallowestFirst_sorted (item : Item) :
    (tables.shallowestFirst item).Pairwise fun a b => a.path.levels ≤ b.path.levels := by
  have : Std.TransCmp fun a b : Item => compare a.path.levels b.path.levels :=
    inferInstanceAs (Std.TransCmp (compareOn fun row : Item => row.path.levels))
  exact (pairwise_mergeSort_first _).imp Nat.isLE_compare.mp

instance : Std.TransCmp membershipOrder :=
  inferInstanceAs (Std.TransCmp
    (compareLex (compareOn Membership.itemPath) (compareOn Membership.account)))

theorem membershipOrder_of_path {a b : Membership} (less : compare a.itemPath b.itemPath = .lt) :
    membershipOrder a b = .lt := by
  rw [membershipOrder, less]
  rfl

theorem membershipOrder_of_account {a b : Membership} (same : a.itemPath = b.itemPath)
    (less : compare a.account b.account = .lt) : membershipOrder a b = .lt := by
  rw [membershipOrder, same, Std.ReflOrd.compare_self, less]
  rfl

theorem stretch_increasing {Entry : Type} (index : Std.ExtTreeMap Path Entry) (path : Path) :
    (stretch index path).Pairwise fun a b => compare a.1 b.1 = .lt :=
  (index.ordered_keys_toList.filter _).filter _

theorem membershipAt_of_entry {account : Id} {path : Path} {accounts : Std.ExtTreeMap Id Id}
    (known : tables.membershipPaths[path]? = some accounts) :
    tables.membershipAt? account path =
      accounts[account]?.bind fun id => tables.memberships[id]? := by
  rw [membershipAt?, membershipIdAt?, known, Option.bind_some]

namespace Indexed

variable (indexed : tables.Indexed)
include indexed

theorem itemsUnder_increasing (path : Path) :
    (tables.itemsUnder path).Pairwise fun a b => compare a.path b.path = .lt := by
  refine List.pairwise_filterMap.mpr ((stretch_increasing _ path).imp_of_mem ?_)
  rintro ⟨upper, id⟩ ⟨lower, other⟩ first second less row found row' found'
  obtain ⟨known, stands, rfl⟩ := (indexed.item_path upper id).mp ((mem_stretch _ _ _ _).mp first).1
  obtain ⟨known', stands', rfl⟩ :=
    (indexed.item_path lower other).mp ((mem_stretch _ _ _ _).mp second).1
  cases stands.symm.trans found
  cases stands'.symm.trans found'
  exact less

theorem membershipsUnderOf_increasing (account : Id) (path : Path) :
    (tables.membershipsUnderOf account path).Pairwise fun a b =>
      compare a.itemPath b.itemPath = .lt := by
  refine List.pairwise_filterMap.mpr ((stretch_increasing _ path).imp_of_mem ?_)
  rintro ⟨upper, accounts⟩ ⟨lower, others⟩ first second less row found row' found'
  rw [← membershipAt_of_entry ((mem_stretch _ _ _ _).mp first).1,
    indexed.membershipAt_eq_some] at found
  rw [← membershipAt_of_entry ((mem_stretch _ _ _ _).mp second).1,
    indexed.membershipAt_eq_some] at found'
  rw [found.2.1, found'.2.1]
  exact less

theorem membershipsIn_increasing {path : Path} {accounts : Std.ExtTreeMap Id Id}
    (known : tables.membershipPaths[path]? = some accounts) :
    (tables.membershipsIn accounts).Pairwise fun a b => membershipOrder a b = .lt := by
  refine List.pairwise_filterMap.mpr (accounts.ordered_keys_toList.imp_of_mem ?_)
  have row_of {entry : Id × Id} (inside : entry ∈ accounts.toList) {row : Membership}
      (found : tables.memberships[entry.2]? = some row) :
      row.itemPath = path ∧ row.account = entry.1 := by
    have listed : tables.membershipIdAt? entry.1 path = some entry.2 := by
      rw [membershipIdAt?, known, Option.bind_some]
      exact Std.ExtTreeMap.mem_toList_iff_getElem?_eq_some.mp inside
    obtain ⟨other, found', own⟩ := (indexed.membership_path path entry.1 entry.2).mp listed
    cases found'.symm.trans found
    exact own
  intro first second inside inside' less row found row' found'
  obtain ⟨place, holder⟩ := row_of inside found
  obtain ⟨place', holder'⟩ := row_of inside' found'
  refine membershipOrder_of_account (place.trans place'.symm) ?_
  rw [holder, holder']
  exact less

theorem membershipsUnder_increasing (path : Path) :
    (tables.membershipsUnder path).Pairwise fun a b => membershipOrder a b = .lt := by
  refine List.pairwise_flatMap.mpr ⟨fun entry inside => ?_, ?_⟩
  · exact indexed.membershipsIn_increasing ((mem_stretch _ _ _ _).mp inside).1
  · refine (stretch_increasing _ path).imp_of_mem ?_
    rintro ⟨upper, accounts⟩ ⟨lower, others⟩ first second less row found row' found'
    have known := ((mem_stretch _ _ _ _).mp first).1
    have known' := ((mem_stretch _ _ _ _).mp second).1
    apply membershipOrder_of_path
    rw [((indexed.mem_membershipsIn _ _ known row).mp found).2,
      ((indexed.mem_membershipsIn _ _ known' row').mp found').2]
    exact less

/-- Items that share a place in the order of siblings share their path. -/
theorem sibling_unique {a b : Item} (found : tables.HasItem a) (found' : tables.HasItem b)
    (equal : siblingOrder a b = .eq) : a = b :=
  indexed.item_unique found found'
    (Std.LawfulEqOrd.eq_of_compare (Ordering.then_eq_eq.mp equal).2)

theorem itemsUnder_nodup (path : Path) : (tables.itemsUnder path).Nodup :=
  nodup_of_increasing (compareOn Item.path) (indexed.itemsUnder_increasing path)

theorem membershipsUnderOf_nodup (account : Id) (path : Path) :
    (tables.membershipsUnderOf account path).Nodup :=
  nodup_of_increasing (compareOn Membership.itemPath)
    (indexed.membershipsUnderOf_increasing account path)

theorem membershipsUnder_nodup (path : Path) : (tables.membershipsUnder path).Nodup :=
  nodup_of_increasing membershipOrder (indexed.membershipsUnder_increasing path)

theorem descendants_nodup (item : Item) : (tables.descendants item).Nodup :=
  (indexed.itemsUnder_nodup item.path).filter _

theorem membershipsBelow_nodup (account : Id) (path : Path) :
    (tables.membershipsBelow account path).Nodup :=
  (List.mergeSort_perm _ _).nodup_iff.mpr ((indexed.membershipsUnderOf_nodup account path).filter _)

/-! The lists once rows are gone. -/

variable {left : Tables} (indexed' : left.Indexed)
include indexed'

theorem deepestFirst_left (fewer : ∀ row, left.HasItem row → tables.HasItem row) {item : Item}
    (stands : left.HasItem item) :
    left.deepestFirst item =
      (tables.deepestFirst item).filter fun row => left.items[row.id]? = some row := by
  have : Std.TransCmp fun a b : Item => compare b.path.levels a.path.levels :=
    inferInstanceAs (Std.TransCmp fun a b => compareOn (fun row : Item => row.path.levels) b a)
  have : Std.TransCmp fun a b : Item =>
      (compare b.path.levels a.path.levels).then (siblingOrder a b) :=
    inferInstanceAs (Std.TransCmp
      (compareLex (fun a b : Item => compare b.path.levels a.path.levels) siblingOrder))
  refine mergeSort_kept _ (indexed.descendants_nodup item) (indexed'.descendants_nodup item) ?_ ?_
  · intro row
    rw [indexed'.mem_descendants item row stands,
      indexed.mem_descendants item row (fewer item stands), decide_eq_true_eq]
    constructor
    · rintro ⟨found, below⟩
      exact ⟨⟨fewer row found, below⟩, found⟩
    · rintro ⟨⟨_, below⟩, found⟩
      exact ⟨found, below⟩
  · intro a inside b inside' equal
    obtain ⟨found, _⟩ := (indexed.mem_descendants item a (fewer item stands)).mp inside
    obtain ⟨found', _⟩ := (indexed.mem_descendants item b (fewer item stands)).mp inside'
    exact indexed.sibling_unique found found' (Ordering.then_eq_eq.mp equal).2

instance : Std.TransCmp pruningOrder :=
  inferInstanceAs (Std.TransCmp
    (compareLex (fun a b => compareOn (fun row : Membership => row.itemPath.levels) b a)
      (compareOn Membership.itemPath)))

theorem membershipsBelow_left (fewer : ∀ row, left.HasRow row → tables.HasRow row) (account : Id)
    (path : Path) :
    left.membershipsBelow account path =
      (tables.membershipsBelow account path).filter fun row =>
        left.memberships[row.id]? = some row := by
  have listed (row : Membership) := indexed.mem_membershipsUnderOf account path row
  refine mergeSort_kept _ ((indexed.membershipsUnderOf_nodup account path).filter _)
    ((indexed'.membershipsUnderOf_nodup account path).filter _) ?_ ?_
  · intro row
    simp only [List.mem_filter, listed, indexed'.mem_membershipsUnderOf, decide_eq_true_eq]
    constructor
    · rintro ⟨⟨found, holder, spans⟩, different⟩
      exact ⟨⟨⟨fewer row found, holder, spans⟩, different⟩, found⟩
    · rintro ⟨⟨⟨_, holder, spans⟩, different⟩, found⟩
      exact ⟨⟨found, holder, spans⟩, different⟩
  · -- Memberships of one account that share a place in the order share their path.
    intro a inside b inside' equal
    obtain ⟨found, holder, _⟩ := (listed a).mp (List.mem_filter.mp inside).1
    obtain ⟨found', holder', _⟩ := (listed b).mp (List.mem_filter.mp inside').1
    have place : compare a.itemPath b.itemPath = .eq := by
      simp only [pruningOrder, Ordering.then_eq_eq] at equal
      exact equal.2
    exact indexed.row_unique found found' (Std.LawfulEqOrd.eq_of_compare place)
      (holder.trans holder'.symm)

end Indexed

end Tables

end SharedTree
