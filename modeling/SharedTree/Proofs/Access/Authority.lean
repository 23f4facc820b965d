import SharedTree.Proofs.Access.Grants
import SharedTree.Proofs.Tree.Shape
/-!
What a change of rows may touch. A change confined to a region of the tree (`Confined`) leaves
every grant outside of it as it was; if the actor administers what the region holds, the change is
one that its authority covers (`Lawful`).
-/
namespace SharedTree.Tables

structure Sound (levels : Nat) (tables : Tables) : Prop where
  indexed : tables.Indexed
  shape : tables.Shape levels
  graded : tables.Graded

theorem empty_sound (levels : Nat) : empty.Sound levels where
  indexed := empty_indexed
  shape := empty_shape levels
  graded := by
    intro upper lower stands
    simp [HasRow, empty] at stands

/-- Other data for an item in its place leave the rows sound. -/
theorem Sound.putItem_same {levels : Nat} {tables : Tables} (sound : tables.Sound levels)
    {item touched : Item} (stands : tables.HasItem item) (same : touched.id = item.id)
    (place : touched.path = item.path) (kind : touched.type = item.type) :
    (tables.putItem touched).Sound levels where
  indexed := sound.indexed.putItem_same stands same place
  shape := sound.shape.putItem_same stands same place kind
  graded := sound.graded.putItem touched

theorem Sound.mono {levels more : Nat} {tables : Tables} (sound : tables.Sound levels)
    (le : levels ≤ more) : tables.Sound more :=
  { sound with shape := sound.shape.mono le }

structure Confined (region : Path → Prop) (before after : Tables) : Prop where
  rows : ∀ row, ¬ region row.itemPath → (after.HasRow row ↔ before.HasRow row)
  items : ∀ item, before.HasItem item → ¬ region item.path →
    ∃ new, after.HasItem new ∧ new.id = item.id ∧ new.path = item.path

abbrev ConfinedBelow (path : Path) : Tables → Tables → Prop :=
  Confined fun below => path.covers below = true

namespace Confined

variable {region : Path → Prop} {before middle after : Tables}

theorem refl (region : Path → Prop) (tables : Tables) : Confined region tables tables :=
  ⟨fun _ _ => Iff.rfl, fun item stands _ => ⟨item, stands, rfl, rfl⟩⟩

theorem trans (first : Confined region before middle) (second : Confined region middle after) :
    Confined region before after where
  rows row outside := (second.rows row outside).trans (first.rows row outside)
  items := by
    intro item stands outside
    obtain ⟨new, stands', ids, place⟩ := first.items item stands outside
    obtain ⟨new', stands'', ids', place'⟩ := second.items new stands' (place ▸ outside)
    exact ⟨new', stands'', ids'.trans ids, place'.trans place⟩

theorem widen {upper lower : Path} (spans : upper.covers lower = true)
    (confined : ConfinedBelow lower before after) : ConfinedBelow upper before after where
  rows row outside := confined.rows row fun inside => outside (Path.covers_trans spans inside)
  items item stands outside :=
    confined.items item stands fun inside => outside (Path.covers_trans spans inside)

theorem grants (confined : Confined region before after)
    (down : ∀ {upper lower}, upper.covers lower = true → region upper → region lower)
    {path : Path} (outside : ¬ region path) (account : Id) (level : Permission) :
    after.Grants account path level ↔ before.Grants account path level :=
  grants_congr fun row _ spans => confined.rows row fun inside => outside (down spans inside)

theorem putMembership {path : Path} {row : Membership} (inside : path.covers row.itemPath = true)
    (replaced : ∀ old, before.HasRow old → old.id = row.id → path.covers old.itemPath = true) :
    ConfinedBelow path before (before.putMembership row) where
  rows := by
    intro other outside
    rw [putMembership_hasRow]
    constructor
    · rintro (rfl | ⟨_, stands⟩)
      · exact absurd inside outside
      · exact stands
    · exact fun stands => Or.inr ⟨fun same => outside (replaced other stands same), stands⟩
  items item stands _ := ⟨item, (putMembership_hasItem _ _ item).mpr stands, rfl, rfl⟩

theorem removeMemberships {path : Path} {ids : List Id}
    (removed : ∀ old, before.HasRow old → old.id ∈ ids → path.covers old.itemPath = true) :
    ConfinedBelow path before (before.removeMemberships ids) where
  rows := by
    intro other outside
    rw [removeMemberships_hasRow]
    exact ⟨And.right, fun stands => ⟨fun inside => outside (removed other stands inside), stands⟩⟩
  items item stands _ := ⟨item, (removeMemberships_hasItem _ _ item).mpr stands, rfl, rfl⟩

end Confined

/-- Whoever does not administer an item leaves it in its place, leaves to others what they hold
there and gains nothing there itself. -/
def Lawful (actor : Id) (before after : Tables) : Prop :=
  ∀ old new, before.HasItem old → after.HasItem new → new.id = old.id →
    ¬ before.Grants actor old.path .admin →
      new.path = old.path ∧
      (∀ account level, account ≠ actor →
        (after.Grants account old.path level ↔ before.Grants account old.path level)) ∧
      ∀ level, after.Grants actor old.path level → before.Grants actor old.path level

variable {actor : Id} {before after : Tables}

theorem Confined.lawful {region : Path → Prop} (confined : Confined region before after)
    (down : ∀ {upper lower}, upper.covers lower = true → region upper → region lower)
    (admin : ∀ item, before.HasItem item → region item.path →
      before.Grants actor item.path .admin) : Lawful actor before after := by
  intro old new stands stands' ids powerless
  have outside : ¬ region old.path := fun inside => powerless (admin old stands inside)
  obtain ⟨new', stands'', ids', place⟩ := confined.items old stands outside
  cases stands'.same stands'' (ids.trans ids'.symm)
  exact ⟨place, fun account level _ => confined.grants down outside account level,
    fun level => (confined.grants down outside actor level).mp⟩

/-- A change below a path that the actor administers. -/
theorem Confined.lawful_below {path : Path} (confined : ConfinedBelow path before after)
    (admin : before.Grants actor path .admin) : Lawful actor before after :=
  confined.lawful (fun spans inside => Path.covers_trans inside spans)
    fun _ _ inside => grants_of_covers inside admin

/-- A change where there was nothing before. -/
theorem Confined.lawful_new {path : Path} (confined : ConfinedBelow path before after)
    (empty_there : ∀ item, before.HasItem item → path.covers item.path = false) :
    Lawful actor before after :=
  confined.lawful (fun spans inside => Path.covers_trans inside spans) fun item stands inside => by
    rw [empty_there item stands] at inside
    cases inside

theorem lawful_refl (actor : Id) (tables : Tables) : Lawful actor tables tables := by
  intro old new stands stands' ids _
  cases stands'.same stands ids
  exact ⟨rfl, fun _ _ _ => Iff.rfl, fun _ => id⟩

/-- Giving up rows of one's own. -/
theorem lawful_of_own (items : after.items = before.items)
    (fewer : ∀ row, after.HasRow row → before.HasRow row)
    (others : ∀ row, before.HasRow row → row.account ≠ actor → after.HasRow row) :
    Lawful actor before after := by
  intro old new stands stands' ids _
  rw [HasItem, items] at stands'
  have same : new = old := HasItem.same stands' stands ids
  refine ⟨congrArg Item.path same, ?_, fun level => grants_mono fewer⟩
  intro account level other
  refine grants_congr fun row holder _ => ⟨fewer row, fun found => others row found ?_⟩
  rw [holder]
  exact other

end SharedTree.Tables
