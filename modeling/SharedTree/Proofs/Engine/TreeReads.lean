import Mathlib.Logic.Relation
import SharedTree.Proofs.Engine.Reached
import SharedTree.Proofs.Tree.Orderly
import SharedTree.Proofs.Tree.Orders
/-!
The tree as it is read. Nothing stored says who is whose parent; the reads go by the beginnings of
paths and by the number of their labels. On rows that make up a tree they all tell of one relation,
that of an item to the one that its path names as its parent (`Orderly.related`), and so they do
after any runs of tasks (`tree_reads_agree`).
-/
namespace SharedTree

namespace Tables

/-- The parents of an item from the root down: none at the top level, and else those of its parent
and then the parent. -/
inductive Line (tables : Tables) : Item → List Item → Prop where
  | atTop {item : Item} : item.parentId? = none → tables.Line item []
  | under {item parent : Item} {line : List Item} : tables.HasItem parent →
      item.parentId? = some parent.id → tables.Line parent line →
      tables.Line item (line ++ [parent])

structure Related (tables : Tables) (item : Item) : Prop where
  children : ∀ other, other ∈ tables.children item ↔
    tables.HasItem other ∧ other.parentId? = some item.id
  children_order : (tables.children item).Pairwise fun a b =>
    (compare a.createdAt b.createdAt).then (compare a.path b.path) = .lt
  descendants : ∀ other, other ∈ tables.descendants item ↔
    Relation.TransGen (fun upper lower => lower ∈ tables.children upper) item other
  descendants_once : (tables.descendants item).Nodup
  parents_first : ∀ front other back, tables.descendants item = front ++ other :: back →
    ∃ parent, other.parentId? = some parent.id ∧ (parent = item ∨ parent ∈ front)
  ancestors : ∃ line, tables.ancestors item = .ok line ∧ tables.Line item line ∧
    ∀ other, tables.HasItem other → (other ∈ line ↔ item ∈ tables.descendants other)
  hasChildren : tables.hasChildren item = true ↔ tables.children item ≠ []

variable {tables : Tables} {item other : Item}

namespace Indexed

variable (indexed : tables.Indexed) (stands : tables.HasItem item)
include indexed stands

theorem mem_children :
    other ∈ tables.children item ↔
      tables.HasItem other ∧ other.path.parent? = some item.path := by
  rw [children, List.mem_mergeSort, List.mem_filter, indexed.mem_descendants item other stands,
    beq_iff_eq, and_assoc, Path.parent_iff_levels]

theorem children_increasing :
    (tables.children item).Pairwise fun a b => siblingOrder a b = .lt := by
  refine increasing_mergeSort siblingOrder ((indexed.descendants_nodup item).filter _) ?_
  intro a inside b inside' equal
  have found := (indexed.mem_descendants item a stands).mp (List.mem_of_mem_filter inside)
  have found' := (indexed.mem_descendants item b stands).mp (List.mem_of_mem_filter inside')
  exact indexed.sibling_unique found.1 found'.1 equal

/-- An item is read as having children if something is below it. -/
theorem hasChildren_iff :
    tables.hasChildren item = true ↔
      ∃ other, tables.HasItem other ∧ item.path.isAncestorOf other.path = true := by
  constructor
  · intro several
    by_contra childless
    have alone : tables.itemsUnder item.path ⊆ [item] := by
      intro row listed
      obtain ⟨found, spans⟩ := (indexed.mem_itemsUnder item.path row).mp listed
      rw [List.mem_singleton]
      by_contra different
      have unlisted : row ∉ tables.descendants item := fun inside =>
        childless ⟨row, (indexed.mem_descendants item row stands).mp inside⟩
      rw [indexed.apart_of_unlisted stands found different unlisted] at spans
      cases spans
    have least := (List.subperm_of_subset (indexed.itemsUnder_nodup item.path) alone).length_le
    rw [hasChildren, decide_eq_true_iff] at several
    exact absurd several (Nat.not_lt.mpr least)
  · rintro ⟨other, found, below⟩
    by_contra childless
    rw [Bool.not_eq_true] at childless
    obtain rfl := indexed.alone_of_no_children stands childless found
      (Path.covers_of_isAncestorOf below)
    exact absurd (Path.levels_lt_of_isAncestorOf below) (Nat.lt_irrefl _)

end Indexed

namespace Orderly

variable (orderly : tables.Orderly)
include orderly

/-- On the path above there is an item, and only one has the identifier that the path names. -/
theorem parentId_iff (stands : tables.HasItem item) (found : tables.HasItem other) :
    other.parentId? = some item.id ↔ other.path.parent? = some item.path := by
  rw [Item.parentId?, Path.parentId?, Option.map_eq_some_iff]
  constructor
  · rintro ⟨parent, above, same⟩
    obtain ⟨folder, stands', rfl, _⟩ := orderly.in_folder other parent found above
    rw [orderly.own_id folder stands'] at same
    rw [stands'.same stands same] at above
    exact above
  · exact fun above => ⟨item.path, above, orderly.own_id item stands⟩

/-- Going from an item to its parent ends at the top level. -/
theorem item_induction {motive : (item : Item) → tables.HasItem item → Prop}
    (top : ∀ item (stands : tables.HasItem item), item.path.parent? = none → motive item stands)
    (below : ∀ item parent (stands : tables.HasItem item) (stands' : tables.HasItem parent),
      item.path.parent? = some parent.path → motive parent stands' → motive item stands)
    {item : Item} (stands : tables.HasItem item) : motive item stands := by
  induction place : item.path using Path.parent_induction generalizing item with
  | top path missing => exact top item stands (place ▸ missing)
  | below path parent found ih =>
      subst place
      obtain ⟨folder, stands', rfl, _⟩ := orderly.in_folder item parent stands found
      exact below item folder stands stands' found (ih stands' rfl)

/-- What is below an item is what steps from parent to child lead to. -/
theorem descendants_iff (stands : tables.HasItem item) :
    other ∈ tables.descendants item ↔
      Relation.TransGen (fun upper lower => lower ∈ tables.children upper) item other := by
  rw [orderly.indexed.mem_descendants item other stands]
  constructor
  · rintro ⟨found, above⟩
    induction found using orderly.item_induction with
    | top other found missing =>
        rw [Path.isAncestorOf_iff_parent, missing] at above
        obtain ⟨_, known, _⟩ := above
        cases known
    | below other parent found stands' known ih =>
        have child := (orderly.indexed.mem_children stands').mpr ⟨found, known⟩
        rcases orderly.indexed.parent_within stands stands' known above with rfl | within
        · exact .single child
        · exact .tail (ih within) child
  · intro chain
    induction chain with
    | single child =>
        obtain ⟨found, known⟩ := (orderly.indexed.mem_children stands).mp child
        exact ⟨found, Path.parent_isAncestorOf known⟩
    | tail _ child ih =>
        obtain ⟨found, known⟩ := (orderly.indexed.mem_children ih.1).mp child
        exact ⟨found, Path.covers_isAncestorOf (Path.covers_of_isAncestorOf ih.2)
          (Path.parent_isAncestorOf known)⟩

/-- The order by path lists a parent before what is directly below it. -/
theorem descendants_parent (stands : tables.HasItem item) {front back : List Item}
    (listed : tables.descendants item = front ++ other :: back) :
    ∃ parent, other.parentId? = some parent.id ∧ (parent = item ∨ parent ∈ front) := by
  have below (row : Item) := orderly.indexed.mem_descendants item row stands
  obtain ⟨found, above⟩ := (below other).mp (by simp [listed])
  obtain ⟨_, known, _⟩ := (Path.isAncestorOf_iff_parent _ _).mp above
  obtain ⟨parent, stands', rfl, _⟩ := orderly.in_folder other _ found known
  refine ⟨parent, (orderly.parentId_iff stands' found).mpr known, ?_⟩
  refine (orderly.indexed.parent_within stands stands' known above).imp_right fun within => ?_
  have inside := (below parent).mpr ⟨stands', within⟩
  rw [listed, List.mem_append, List.mem_cons] at inside
  -- The parent is not the item itself, nor does it come later.
  rcases inside with before | rfl | behind
  · exact before
  · exact absurd (Path.levels_of_parent known) (Nat.ne_add_one _)
  · have increasing := (orderly.indexed.itemsUnder_increasing item.path).filter
      fun row => row.id != item.id
    rw [← descendants, listed, List.pairwise_append, List.pairwise_cons] at increasing
    have apart := Path.apart_of_compare (increasing.2.1.1 parent behind)
    rw [Path.parent_isAncestorOf known] at apart
    cases apart

theorem mem_line {line : List Item} (above : tables.Line item line) (stands : tables.HasItem item)
    (found : tables.HasItem other) :
    other ∈ line ↔ other.path.isAncestorOf item.path = true := by
  induction above with
  | atTop missing =>
      rw [Item.parentId?, Path.parentId?, Option.map_eq_none_iff] at missing
      simp [Path.isAncestorOf_iff_parent, missing]
  | under stands' known _ ih =>
      rw [orderly.parentId_iff stands' stands] at known
      rw [List.mem_append, List.mem_singleton, ih stands']
      constructor
      · rintro (higher | rfl)
        · exact Path.isAncestorOf_trans higher
            (Path.covers_of_isAncestorOf (Path.parent_isAncestorOf known))
        · exact Path.parent_isAncestorOf known
      · intro higher
        exact (orderly.indexed.parent_within found stands' known higher).symm.imp_right Eq.symm

theorem ancestors_line (stands : tables.HasItem item) :
    ∃ line, tables.ancestors item = .ok line ∧ tables.Line item line := by
  induction stands using orderly.item_induction with
  | top item stands missing =>
      refine ⟨[], ?_, .atTop (by rw [Item.parentId?, Path.parentId?, missing, Option.map_none])⟩
      rw [ancestors, Path.ancestors_of_root missing]
      rfl
  | below item parent stands stands' known ih =>
      obtain ⟨line, answered, above⟩ := ih
      have upper := (orderly.parentId_iff stands' stands).mpr known
      refine ⟨line ++ [parent], ?_, .under stands' upper above⟩
      rw [ancestors] at answered
      rw [ancestors, Path.ancestors_of_parent known, Path.lineage, List.mapM_append, answered,
        List.mapM_cons, orderly.indexed.getItemAt_of_hasItem stands' rfl]
      rfl

/-- All that is read around an item goes by who is whose parent. -/
theorem related (stands : tables.HasItem item) : tables.Related item where
  children other := by
    rw [orderly.indexed.mem_children stands]
    exact and_congr_right fun found => (orderly.parentId_iff stands found).symm
  children_order := orderly.indexed.children_increasing stands
  descendants other := orderly.descendants_iff stands
  descendants_once := orderly.indexed.descendants_nodup item
  parents_first front other back := orderly.descendants_parent stands
  ancestors := by
    obtain ⟨line, answered, above⟩ := orderly.ancestors_line stands
    refine ⟨line, answered, above, fun other found => ?_⟩
    rw [orderly.mem_line above stands found, orderly.indexed.mem_descendants other item found]
    exact (and_iff_right stands).symm
  hasChildren := by
    have below (row : Item) := orderly.indexed.mem_descendants item row stands
    simp only [orderly.indexed.hasChildren_iff stands, ← below, orderly.descendants_iff stands]
    constructor
    · rintro ⟨other, chain⟩
      obtain ⟨child, first, _⟩ := Relation.TransGen.head'_iff.mp chain
      exact List.ne_nil_of_mem first
    · intro some_child
      obtain ⟨child, first⟩ := List.exists_mem_of_ne_nil _ some_child
      exact ⟨child, .single first⟩

end Orderly

end Tables

/-- Whatever tasks were run, what is read around an item goes by who is whose parent. -/
theorem tree_reads_agree {allowed : Settings → Prop} {tables : Tables}
    (reached : Reached allowed tables) {item : Item} (stands : tables.HasItem item) :
    tables.Related item := by
  obtain ⟨_, sound⟩ := reached.sound
  exact (sound.shape.orderly sound.indexed).related stands

theorem sample_tree_reads_agree :
    Reached (fun _ => True) Sample.engine.store.tables ∧
      Sample.engine.store.tables.HasItem Sample.first ∧
      Sample.engine.store.tables.Related Sample.first ∧
      Sample.document ∈ Sample.engine.store.tables.children Sample.first ∧
      Sample.engine.store.tables.hasChildren Sample.first = true := by
  have first : Sample.engine.store.tables.HasItem Sample.first := by
    rw [Tables.HasItem]
    decide +kernel
  have document : Sample.engine.store.tables.HasItem Sample.document := by
    rw [Tables.HasItem]
    decide +kernel
  have related := tree_reads_agree Sample.reached_any first
  have child := (related.children Sample.document).mpr ⟨document, by decide +kernel⟩
  exact ⟨Sample.reached_any, first, related, child,
    related.hasChildren.mpr (List.ne_nil_of_mem child)⟩

end SharedTree
