import SharedTree.Proofs.Tables.Regions
import SharedTree.Proofs.Tree.Shape
/-!
Tables tree by tree. A change that works in some trees leaves the rows of the others as they were.
Two changes that work in the same way, each in its own trees, whether the other was made before or
not, can be made in either order (`ChangedAlike.commute`).
-/
namespace SharedTree.Tables

def trees (tables : Tables) : Set Path :=
  {tree | (∃ item, tables.HasItem item ∧ item.path.top = tree) ∨
    ∃ row, tables.HasRow row ∧ row.itemPath.top = tree}

structure Unused (ids : Set Id) (tables : Tables) : Prop where
  items : ∀ id ∈ ids, tables.items[id]? = none
  memberships : ∀ id ∈ ids, tables.memberships[id]? = none

structure SameIn (trees : Set Path) (left right : Tables) : Prop where
  items : ∀ item : Item, item.path.top ∈ trees → (left.HasItem item ↔ right.HasItem item)
  rows : ∀ row : Membership, row.itemPath.top ∈ trees → (left.HasRow row ↔ right.HasRow row)

/-- The trees that a change works in which names some trees: these, and those that had no rows
before. -/
def workedIn (named : Set Path) (before after : Tables) : Set Path :=
  named ∪ (after.trees \ before.trees)

/-- Two tables are changed alike: the changes work in the same trees, leave the same rows in these,
and in all other trees leave the rows as they were. -/
structure ChangedAlike (named : Set Path) (left left' right right' : Tables) : Prop where
  trees : workedIn named left left' = workedIn named right right'
  inside : left'.SameIn (workedIn named left left') right'
  outside_left : left.SameIn (workedIn named left left')ᶜ left'
  outside_right : right.SameIn (workedIn named right right')ᶜ right'

variable {trees fewer named : Set Path} {region : Region}
  {tables left right before after : Tables}

namespace SameIn

theorem symm (same : left.SameIn trees right) : right.SameIn trees left :=
  ⟨fun item inside => (same.items item inside).symm, fun row inside => (same.rows row inside).symm⟩

theorem mono (same : left.SameIn trees right) (subset : fewer ⊆ trees) : left.SameIn fewer right :=
  ⟨fun item inside => same.items item (subset inside),
    fun row inside => same.rows row (subset inside)⟩

theorem union (same : left.SameIn trees right) (same' : left.SameIn fewer right) :
    left.SameIn (trees ∪ fewer) right :=
  ⟨fun item inside => inside.elim (same.items item) (same'.items item),
    fun row inside => inside.elim (same.rows row) (same'.rows row)⟩

theorem of_vacant (missing : ∀ tree ∈ trees, tree ∉ left.trees)
    (missing' : ∀ tree ∈ trees, tree ∉ right.trees) : left.SameIn trees right where
  items item inside :=
    iff_of_false (fun stands => missing _ inside (.inl ⟨item, stands, rfl⟩))
      fun stands => missing' _ inside (.inl ⟨item, stands, rfl⟩)
  rows row inside :=
    iff_of_false (fun stands => missing _ inside (.inr ⟨row, stands, rfl⟩))
      fun stands => missing' _ inside (.inr ⟨row, stands, rfl⟩)

theorem tree_iff (same : left.SameIn trees right) {tree : Path} (inside : tree ∈ trees) :
    tree ∈ left.trees ↔ tree ∈ right.trees := by
  refine or_congr (exists_congr fun item => and_congr_left ?_)
    (exists_congr fun row => and_congr_left ?_)
  · rintro rfl
    exact same.items item inside
  · rintro rfl
    exact same.rows row inside

theorem item_found (same : left.SameIn trees right) (indexed : left.Indexed) {id : Id} {item : Item}
    (inside : item.path.top ∈ trees) (found : left.items[id]? = some item) :
    right.items[id]? = some item := by
  have stands := (same.items item inside).mp (indexed.hasItem found)
  exact indexed.item_id id item found ▸ stands

theorem row_found (same : left.SameIn trees right) (indexed : left.Indexed) {id : Id}
    {row : Membership} (inside : row.itemPath.top ∈ trees)
    (found : left.memberships[id]? = some row) : right.memberships[id]? = some row := by
  have stands := (same.rows row inside).mp (indexed.hasRow found)
  exact indexed.membership_id id row found ▸ stands

/-- Tables that have the same rows everywhere are the same. -/
theorem eq (same : left.SameIn Set.univ right) (indexed : left.Indexed) (indexed' : right.Indexed) :
    left = right :=
  indexed.ext indexed'
    (fun _ => Option.ext fun _ =>
      ⟨same.item_found indexed trivial, same.symm.item_found indexed' trivial⟩)
    fun _ => Option.ext fun _ =>
      ⟨same.row_found indexed trivial, same.symm.row_found indexed' trivial⟩

theorem removeWhole (indexed : tables.Indexed) {item : Item} (stands : tables.HasItem item)
    (apart : item.path.top ∉ trees) : tables.SameIn trees (tables.removeWhole item) where
  items other inside := by
    rw [removeWhole_hasItem]
    refine ⟨fun found => ⟨?_, found⟩, And.right⟩
    intro same
    cases stands.same found same.symm
    exact apart inside
  rows row inside := by
    rw [indexed.removeWhole_hasRow]
    refine ⟨fun found => ⟨found, ?_⟩, And.left⟩
    rw [← Bool.not_eq_true]
    exact fun spans => apart (Path.top_of_covers spans ▸ inside)

end SameIn

theorem Alike.sameIn (alike : left.Alike region right) : left.SameIn region.trees right :=
  ⟨fun _ inside => alike.hasItem_iff inside, fun _ inside => alike.hasRow_iff inside⟩

/-- Rows outside of the trees of a region are not found under its identifiers, so they are kept. -/
theorem KeepsOutside.sameIn (keeps : before.KeepsOutside region after) (fits : before.Fits region)
    (fits' : after.Fits region) : before.SameIn region.treesᶜ after where
  items item outside := by
    constructor
    · intro stands
      rw [HasItem, keeps.items item.id fun listed => outside ((fits.item _ item stands).mp listed)]
      exact stands
    · intro stands
      rw [HasItem, ← keeps.items item.id fun listed =>
        outside ((fits'.item _ item stands).mp listed)]
      exact stands
  rows row outside := by
    constructor
    · intro stands
      rw [HasRow, keeps.memberships row.id fun listed =>
        outside ((fits.membership _ row stands).mp listed)]
      exact stands
    · intro stands
      rw [HasRow, ← keeps.memberships row.id fun listed =>
        outside ((fits'.membership _ row stands).mp listed)]
      exact stands

section Region

variable (fits : before.Fits region) (fits' : after.Fits region)
  (keeps : before.KeepsOutside region after)
include fits fits' keeps

theorem workedIn_within (within : named ⊆ region.trees) :
    workedIn named before after ⊆ region.trees := by
  rintro tree (listed | ⟨found, missing⟩)
  · exact within listed
  · by_contra outside
    exact missing (((keeps.sameIn fits fits').tree_iff outside).mpr found)

/-- A tree of the region that the change does not work in has no rows, before or after. -/
theorem keeps_others (vacant : ∀ tree ∈ region.trees, tree ∈ before.trees → tree ∈ named) :
    before.SameIn (workedIn named before after)ᶜ after := by
  have unused : before.SameIn ((workedIn named before after)ᶜ ∩ region.trees) after := by
    have missing (tree : Path) (inside : tree ∈ (workedIn named before after)ᶜ ∩ region.trees) :
        tree ∉ before.trees := fun found => inside.1 (.inl (vacant tree inside.2 found))
    exact .of_vacant missing fun tree inside found =>
      inside.1 (.inr ⟨found, missing tree inside⟩)
  refine ((keeps.sameIn fits fits').union unused).mono fun tree outside => ?_
  by_cases inside : tree ∈ region.trees
  · exact .inr ⟨outside, inside⟩
  · exact .inl inside

end Region

/-- A change that keeps to a region leaves the tables alike in another region, apart from it: what
both look up by an identifier was not there before, and is not made. -/
theorem KeepsOutside.alike {other : Region} (keeps : before.KeepsOutside region after)
    (fits' : after.Fits region) (fits : before.Fits other)
    (apart : ∀ tree ∈ region.trees, tree ∉ other.trees)
    (items : ∀ id ∈ region.items, id ∈ other.items → id ∉ region.made ∧ before.items[id]? = none)
    (memberships : ∀ id ∈ region.memberships, id ∈ other.memberships →
      id ∉ region.made ∧ before.memberships[id]? = none) : before.Alike other after where
  fits_left := fits
  fits_right := by
    refine ⟨fits'.indexed, fun id item found => ?_, fun id row found => ?_⟩
    · by_cases mine : id ∈ region.items
      · have inside := (fits'.item id item found).mp mine
        refine iff_of_false (fun listed => ?_) (apart _ inside)
        obtain ⟨unmade, missing⟩ := items id mine listed
        cases found.symm.trans (keeps.no_item id unmade missing)
      · exact fits.item id item (keeps.items id mine ▸ found)
    · by_cases mine : id ∈ region.memberships
      · have inside := (fits'.membership id row found).mp mine
        refine iff_of_false (fun listed => ?_) (apart _ inside)
        obtain ⟨unmade, missing⟩ := memberships id mine listed
        cases found.symm.trans (keeps.no_membership id unmade missing)
      · exact fits.membership id row (keeps.memberships id mine ▸ found)
  items id listed := by
    by_cases mine : id ∈ region.items
    · obtain ⟨unmade, missing⟩ := items id mine listed
      rw [missing, keeps.no_item id unmade missing]
    · exact (keeps.items id mine).symm
  memberships id listed := by
    by_cases mine : id ∈ region.memberships
    · obtain ⟨unmade, missing⟩ := memberships id mine listed
      rw [missing, keeps.no_membership id unmade missing]
    · exact (keeps.memberships id mine).symm

/-- Two changes that keep to a region, in which the tables are alike before and after, are alike. -/
theorem ChangedAlike.of_region {left' right' : Tables} (within : named ⊆ region.trees)
    (vacant : ∀ tree ∈ region.trees, tree ∈ left.trees → tree ∈ named)
    (vacant' : ∀ tree ∈ region.trees, tree ∈ right.trees → tree ∈ named)
    (alike : left.Alike region right) (alike' : left'.Alike region right')
    (keeps : left.KeepsOutside region left') (keeps' : right.KeepsOutside region right') :
    ChangedAlike named left left' right right' := by
  have inside := workedIn_within alike.fits_left alike'.fits_left keeps within
  have inside' := workedIn_within alike.fits_right alike'.fits_right keeps' within
  refine ⟨?_, ?_, keeps_others alike.fits_left alike'.fits_left keeps vacant,
    keeps_others alike.fits_right alike'.fits_right keeps' vacant'⟩
  · refine Set.Subset.antisymm ?_ ?_
    · rintro tree (listed | ⟨after, missing⟩)
      · exact .inl listed
      · have here := inside (.inr ⟨after, missing⟩)
        exact .inr ⟨(alike'.sameIn.tree_iff here).mp after,
          fun found => missing ((alike.sameIn.tree_iff here).mpr found)⟩
    · rintro tree (listed | ⟨after, missing⟩)
      · exact .inl listed
      · have here := inside' (.inr ⟨after, missing⟩)
        exact .inr ⟨(alike'.sameIn.tree_iff here).mpr after,
          fun found => missing ((alike.sameIn.tree_iff here).mp found)⟩
  · exact alike'.sameIn.mono inside

/-- Changes that name different trees leave the same rows in either order. `first` and `second` are
what one of them makes of the tables at the start, `both` and `both'` what the other then makes of
these. -/
theorem ChangedAlike.commute {named' : Set Path} {start first second both both' : Tables}
    (apart : ∀ tree ∈ named, tree ∉ named') (known : named ⊆ start.trees)
    (known' : named' ⊆ start.trees) (changed : ChangedAlike named start first second both')
    (changed' : ChangedAlike named' start second first both) : both.SameIn Set.univ both' := by
  -- A tree new to the one change has rows by the time of the other, so it is not new to that one.
  have separate (tree : Path) (one : tree ∈ workedIn named start first) :
      tree ∉ workedIn named' start second := by
    intro other
    rcases one with listed | ⟨made, missing⟩
    · rcases other with listed' | ⟨_, missing'⟩
      · exact apart tree listed listed'
      · exact missing' (known listed)
    · rw [changed'.trees] at other
      rcases other with listed' | ⟨_, missing'⟩
      · exact missing (known' listed')
      · exact missing' made
  have through {Row : Type} (top : Row → Path) (has : Tables → Row → Prop)
      (same : ∀ {trees : Set Path} {left right : Tables}, left.SameIn trees right →
        ∀ row, top row ∈ trees → (has left row ↔ has right row)) (row : Row) :
      has both row ↔ has both' row := by
    by_cases one : top row ∈ workedIn named start first
    · have other := separate _ one
      rw [changed'.trees] at other
      exact (same changed'.outside_right row other).symm.trans (same changed.inside row one)
    · have outside := same changed.outside_left row one
      rw [changed.trees] at one
      have outside' := same changed.outside_right row one
      by_cases other : top row ∈ workedIn named' start second
      · exact (same changed'.inside row other).symm.trans outside'
      · have kept := same changed'.outside_left row other
        rw [changed'.trees] at other
        exact ((same changed'.outside_right row other).symm.trans outside.symm).trans
          (kept.trans outside')
  exact ⟨fun item _ => through (fun item => item.path.top) HasItem SameIn.items item,
    fun row _ => through (fun row => row.itemPath.top) HasRow SameIn.rows row⟩

/-- A tree that has rows has its root. -/
theorem Shape.root_stands {levels : Nat} (shape : tables.Shape levels) {id : Id}
    (found : Path.root id ∈ tables.trees) :
    ∃ item, tables.items[id]? = some item ∧ item.path = Path.root id := by
  have rooted {item : Item} (stands : tables.HasItem item) (place : item.path.top = Path.root id) :
      ∃ item, tables.items[id]? = some item ∧ item.path = Path.root id := by
    obtain ⟨root, stands', here⟩ :=
      shape.item_above stands (place ▸ Path.top_covers item.path)
    have own : root.id = id := by rw [← shape.own_id root stands', here, Path.id_root]
    exact ⟨root, own ▸ stands', here⟩
  rcases found with ⟨item, stands, place⟩ | ⟨row, stands, place⟩
  · exact rooted stands place
  · obtain ⟨item, stands', carries⟩ := shape.on_item row stands
    exact rooted stands' (carries ▸ place)

end SharedTree.Tables
