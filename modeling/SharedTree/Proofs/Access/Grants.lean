import SharedTree.Proofs.Permission.Order
import SharedTree.Proofs.Tables.Queries
/-!
What accounts hold, told by all the rows that reach a path. Where the rows of an account grow
stronger down the tree (`Graded`), the closest row is the strongest one, so what an account holds
is the most that any row gives it (`le_held_iff`). Such a statement is about rows one by one, and
adding, removing and moving rows can be followed through it.
-/
namespace SharedTree.Tables

def held (tables : Tables) (account : Id) (path : Path) : WithBot Permission :=
  match tables.effectivePermission? account path with
  | some level => level
  | none => ⊥

def standing (tables : Tables) (account id : Id) : WithBot Permission :=
  match tables.items[id]? with
  | some item => tables.held account item.path
  | none => ⊥

def Grants (tables : Tables) (account : Id) (path : Path) (level : Permission) : Prop :=
  ∃ row, tables.Reaches account path row ∧ level ≤ row.permission

/-- Of two rows of an account, one strictly below the other, the lower one is the stronger. -/
def Graded (tables : Tables) : Prop :=
  ∀ upper lower, tables.HasRow upper → tables.HasRow lower → upper.account = lower.account →
    upper.itemPath.isAncestorOf lower.itemPath = true → upper.permission < lower.permission

def Inherits (tables : Tables) (account : Id) (path : Path) (level : Permission) : Prop :=
  ∃ above, tables.inherited? account path = some above ∧ above.permission = level

def Exceeds (tables : Tables) (account : Id) (path : Path) (level : Permission) : Prop :=
  ∀ above, tables.inherited? account path = some above → above.permission < level

variable {tables before after : Tables} {account : Id} {path : Path} {level : Permission}

theorem standing_of_item {id : Id} {item : Item} (found : tables.items[id]? = some item) :
    tables.standing account id = tables.held account item.path := by
  simp [standing, found]

theorem reaches_of_covers {upper lower : Path} {row : Membership}
    (spans : upper.covers lower = true)
    (reaches : tables.Reaches account upper row) : tables.Reaches account lower row :=
  ⟨reaches.1, reaches.2.1, Path.covers_trans reaches.2.2 spans⟩

theorem grants_of_covers {upper lower : Path} (spans : upper.covers lower = true)
    (grants : tables.Grants account upper level) : tables.Grants account lower level := by
  obtain ⟨row, reaches, enough⟩ := grants
  exact ⟨row, reaches_of_covers spans reaches, enough⟩

/-- What a path grants is a matter of the rows on it and above. -/
theorem grants_congr (same : ∀ row, row.account = account → row.itemPath.covers path = true →
    (before.HasRow row ↔ after.HasRow row)) :
    before.Grants account path level ↔ after.Grants account path level := by
  constructor
  · rintro ⟨row, ⟨stands, holder, spans⟩, enough⟩
    exact ⟨row, ⟨(same row holder spans).mp stands, holder, spans⟩, enough⟩
  · rintro ⟨row, ⟨stands, holder, spans⟩, enough⟩
    exact ⟨row, ⟨(same row holder spans).mpr stands, holder, spans⟩, enough⟩

theorem grants_mono (kept : ∀ row, before.HasRow row → after.HasRow row)
    (grants : before.Grants account path level) : after.Grants account path level := by
  obtain ⟨row, ⟨stands, reaches⟩, enough⟩ := grants
  exact ⟨row, ⟨kept row stands, reaches⟩, enough⟩

/-- Without some of its rows a graded table is still graded. -/
theorem Graded.mono (graded : before.Graded) (fewer : ∀ row, after.HasRow row → before.HasRow row) :
    after.Graded := by
  intro upper lower first second
  exact graded upper lower (fewer upper first) (fewer lower second)

theorem Graded.putItem (graded : tables.Graded) (item : Item) : (tables.putItem item).Graded :=
  graded.mono fun row => (tables.putItem_hasRow item row).mp

/-- A row stronger than those above it and weaker than those below it can be written. -/
theorem Graded.putMembership (graded : tables.Graded) {row : Membership}
    (above : ∀ other, tables.HasRow other → other.account = row.account →
      other.itemPath.isAncestorOf row.itemPath = true → other.permission < row.permission)
    (below : ∀ other, tables.HasRow other → other.account = row.account →
      row.itemPath.isAncestorOf other.itemPath = true → row.permission < other.permission) :
    (tables.putMembership row).Graded := by
  intro upper lower first second holder higher
  rcases (tables.putMembership_hasRow row upper).mp first with rfl | ⟨_, first'⟩
  · rcases (tables.putMembership_hasRow upper lower).mp second with rfl | ⟨_, second'⟩
    · exact absurd rfl ((Path.isAncestorOf_iff_covers _ _).mp higher).2
    · exact below lower second' holder.symm higher
  · rcases (tables.putMembership_hasRow row lower).mp second with rfl | ⟨_, second'⟩
    · exact above upper first' holder higher
    · exact graded upper lower first' second' holder higher

namespace Indexed

variable (indexed : tables.Indexed) (graded : tables.Graded)
include indexed graded

theorem le_of_covers {upper lower : Membership} (first : tables.HasRow upper)
    (second : tables.HasRow lower) (holder : upper.account = lower.account)
    (spans : upper.itemPath.covers lower.itemPath = true) :
    upper.permission ≤ lower.permission := by
  by_cases same : upper.itemPath = lower.itemPath
  · rw [indexed.row_unique first second same holder]
  · have above := (Path.isAncestorOf_iff_covers _ _).mpr ⟨spans, same⟩
    exact (graded upper lower first second holder above).le

/-- The closest row is the strongest one that reaches a path. -/
theorem closest_strongest {closest other : Membership}
    (found : tables.closestMembership? account path = some closest)
    (reaches : tables.Reaches account path other) : other.permission ≤ closest.permission := by
  have nearest := indexed.closestMembership_nearest found reaches
  obtain ⟨stands, holder, _⟩ := indexed.closestMembership_reaches found
  exact indexed.le_of_covers graded reaches.1 stands (reaches.2.1.trans holder.symm) nearest

theorem grants_iff_closest :
    tables.Grants account path level ↔
      ∃ row, tables.closestMembership? account path = some row ∧ level ≤ row.permission := by
  constructor
  · rintro ⟨row, reaches, enough⟩
    cases found : tables.closestMembership? account path with
    | none => exact absurd reaches (indexed.closestMembership_none found row)
    | some closest =>
        exact ⟨closest, rfl, enough.trans (indexed.closest_strongest graded found reaches)⟩
  · rintro ⟨row, found, enough⟩
    exact ⟨row, indexed.closestMembership_reaches found, enough⟩

theorem le_held_iff : (level : WithBot Permission) ≤ tables.held account path ↔
    tables.Grants account path level := by
  rw [indexed.grants_iff_closest graded, held, effectivePermission?]
  cases tables.closestMembership? account path with
  | none => simp
  | some row => simp

theorem hasPermission_iff :
    tables.hasPermission account path level = true ↔ tables.Grants account path level := by
  rw [indexed.grants_iff_closest graded, hasPermission, effectivePermission?]
  cases tables.closestMembership? account path <;> simp [Permission.allows]

/-! Rows strictly above a path. -/

theorem inherited_strongest {above other : Membership}
    (inherits : tables.inherited? account path = some above) (stands : tables.HasRow other)
    (holder : other.account = account) (higher : other.itemPath.isAncestorOf path = true) :
    other.permission ≤ above.permission := by
  obtain ⟨above', inherits', spans⟩ := indexed.inherited_of_above stands holder higher
  cases inherits.symm.trans inherits'
  obtain ⟨stands', holder', _⟩ := indexed.inherited_reaches inherits
  exact indexed.le_of_covers graded stands stands' (holder.trans holder'.symm) spans

/-- A level that exceeds what an account inherits exceeds every row above. -/
theorem exceeds_above (exceeds : tables.Exceeds account path level) {other : Membership}
    (stands : tables.HasRow other) (holder : other.account = account)
    (higher : other.itemPath.isAncestorOf path = true) : other.permission < level := by
  obtain ⟨above, inherits, _⟩ := indexed.inherited_of_above stands holder higher
  exact (indexed.inherited_strongest graded inherits stands holder higher).trans_lt
    (exceeds above inherits)

end Indexed

/-! Comparing what is held before and after. -/

theorem le_of_levels {first second : WithBot Permission}
    (below : ∀ level : Permission, (level : WithBot Permission) ≤ first → level ≤ second) :
    first ≤ second := by
  cases first with
  | bot => exact bot_le
  | coe level => exact below level le_rfl

theorem eq_of_levels {first second : WithBot Permission}
    (same : ∀ level : Permission, (level : WithBot Permission) ≤ first ↔ level ≤ second) :
    first = second :=
  le_antisymm (le_of_levels fun level => (same level).mp)
    (le_of_levels fun level => (same level).mpr)

section Compare

variable {left right : Path} (indexed : before.Indexed) (graded : before.Graded)
  (indexed' : after.Indexed) (graded' : after.Graded)
include indexed graded indexed' graded'

theorem held_le
    (fewer : ∀ level, before.Grants account left level → after.Grants account right level) :
    before.held account left ≤ after.held account right := by
  apply le_of_levels
  intro level holds
  rw [indexed.le_held_iff graded] at holds
  rw [indexed'.le_held_iff graded']
  exact fewer level holds

theorem held_eq
    (same : ∀ level, before.Grants account left level ↔ after.Grants account right level) :
    before.held account left = after.held account right :=
  le_antisymm (held_le indexed graded indexed' graded' fun level => (same level).mp)
    (held_le indexed' graded' indexed graded fun level => (same level).mpr)

end Compare

end SharedTree.Tables
