import SharedTree.Proofs.Access.Authority
import SharedTree.Proofs.Engine.Run
import SharedTree.Proofs.Task.Items
/-!
The tasks that make and change one item keep the rows sound and within the actor's authority.
-/
namespace SharedTree

open SharedTree.Tables SharedTree.Action

variable {levels : Nat} {scene : Scene} {before after : Tables}

theorem Action.MayHold.placed {tables : Tables} {under : Option Id} {folder : Option Item}
    (holds : MayHold scene tables under folder) (indexed : tables.Indexed) (id : Id) (parent : Path)
    (above : (pathWithin folder id).parent? = some parent) :
    ∃ row, tables.HasItem row ∧ row.path = parent ∧ row.isFolder = true := by
  cases under with
  | none =>
      cases holds
      rw [pathWithin, Path.parent_root] at above
      cases above
  | some parent_id =>
      obtain ⟨row, rfl, found, kind, _⟩ := holds
      rw [pathWithin, Path.parent_child] at above
      cases above
      exact ⟨row, indexed.hasItem found, rfl, kind⟩

structure Fits (levels : Nat) (tables : Tables) (made : Item) : Prop where
  unused : tables.items[made.id]? = none
  free : tables.itemPaths[made.path]? = none
  own_id : made.path.id = made.id
  short : made.path.levels ≤ levels
  placed : ∀ parent, made.path.parent? = some parent →
    ∃ folder, tables.HasItem folder ∧ folder.path = parent ∧ folder.isFolder = true

namespace Fits

variable {tables : Tables} {made : Item} (fits : Fits levels tables made)
  (sound : tables.Sound levels)
include fits sound

theorem nothing_there (item : Item) (stands : tables.HasItem item) : item.path ≠ made.path := by
  intro same
  have entry := (sound.indexed.item_path made.path item.id).mpr ⟨item, stands, same⟩
  rw [fits.free] at entry
  cases entry

theorem empty_there (item : Item) (stands : tables.HasItem item) :
    made.path.covers item.path = false :=
  sound.shape.nothing_below (fits.nothing_there sound) stands

theorem sound_putItem : (tables.putItem made).Sound levels where
  indexed := sound.indexed.putItem made fun _ row found place =>
    absurd place (fits.nothing_there sound row (sound.indexed.hasItem found))
  shape := sound.shape.putItem_new made fits.unused fits.own_id fits.short fits.placed
  graded := sound.graded.putItem made

omit sound in
theorem kept (item : Item) (stands : tables.HasItem item) : (tables.putItem made).HasItem item :=
  (tables.putItem_hasItem made item).mpr (Or.inr ⟨stands.id_ne fits.unused, stands⟩)

omit sound in
theorem confined_putItem :
    ConfinedBelow made.path tables (tables.putItem made) where
  rows row _ := tables.putItem_hasRow made row
  items item stands _ := ⟨item, fits.kept item stands, rfl, rfl⟩

/-- An actor becomes the administrator of what it made, unless it was one already. -/
theorem administered (granted : Administered scene made.path (tables.putItem made) after)
    (indexed : after.Indexed) :
    after.Sound levels ∧ ConfinedBelow made.path tables after ∧
      ∀ item, after.HasItem item ↔ (tables.putItem made).HasItem item := by
  have put := fits.sound_putItem sound
  have confined := fits.confined_putItem
  have carried : (tables.putItem made).HasItem made :=
    (tables.putItem_hasItem made made).mpr (Or.inl rfl)
  rcases granted with ⟨_, _, _, rfl⟩ | ⟨exceeds, id, unused, free, rfl⟩
  · exact ⟨put, confined, fun _ => Iff.rfl⟩
  · refine ⟨⟨indexed, put.shape.putMembership _ ⟨made, carried, rfl⟩, ?_⟩, ?_, ?_⟩
    · refine put.graded.putMembership ?_ ?_
      · intro other stands holder higher
        exact put.indexed.exceeds_above put.graded exceeds stands holder higher
      · intro other stands _ lower
        have outside := sound.shape.no_row_below (fits.nothing_there sound)
          ((tables.putItem_hasRow made other).mp stands)
        have inside : made.path.covers other.itemPath = true := Path.covers_of_isAncestorOf lower
        rw [outside] at inside
        cases inside
    · exact confined.trans (.putMembership (Path.covers_refl _)
        fun old stands same => absurd same (stands.id_ne unused))
    · exact putMembership_hasItem _ _

end Fits

theorem createItem_effect {new : NewItem} {output : TaskOutput} (quiet : scene.hooks.WriteNothing)
    (limit : scene.settings.maxTreeLevels ≤ levels) (sound : before.Sound levels)
    (turns : (createItem scene new).Turns before output after) :
    after.Sound levels ∧ Lawful scene.actor before after := by
  obtain ⟨_, indexed⟩ := turns.indexed (createItem_built new)
  obtain ⟨start, work, done, _, rfl, gives, rfl⟩ := turns
  obtain ⟨id, folder, holds, within, unused, free, _, granted⟩ := createItem_gives quiet gives
  have fits : Fits levels work.tables
      (.make id (pathWithin folder id) new.name new.type new.extra scene.actor scene.now) :=
    { unused, free
      own_id := pathWithin_id folder id
      short := Nat.le_trans within limit
      placed := holds.placed sound.indexed id }
  obtain ⟨sound', confined, _⟩ := fits.administered sound granted indexed
  exact ⟨sound', confined.lawful_new (fits.empty_there sound)⟩

theorem updateItem_effect {id : Id} {patch : ItemPatch} {output : TaskOutput}
    (quiet : scene.hooks.WriteNothing) (sound : before.Sound levels)
    (turns : (updateItem scene id patch).Turns before output after) :
    after.Sound levels ∧ Lawful scene.actor before after := by
  obtain ⟨start, work, done, _, rfl, gives, same⟩ := turns
  obtain ⟨old, found, _, _, put⟩ := updateItem_gives quiet gives
  rw [same] at put
  subst put
  have stands := sound.indexed.hasItem found
  refine ⟨sound.putItem_same stands rfl rfl rfl, ?_⟩
  have nowhere : Confined (fun _ => False) work.tables
      (work.tables.putItem (patch.apply scene.now old)) := by
    refine ⟨fun row _ => putItem_hasRow _ _ row, fun item stands' _ => ?_⟩
    by_cases replaced : item.id = old.id
    · cases stands'.same stands replaced
      exact ⟨_, (putItem_hasItem _ _ _).mpr (Or.inl rfl), rfl, rfl⟩
    · exact ⟨item, (putItem_hasItem _ _ _).mpr (Or.inr ⟨replaced, stands'⟩), rfl, rfl⟩
  exact nowhere.lawful (fun _ inside => inside) fun _ _ => False.elim

/-- A task that is done at once has its effect or is refused. -/
theorem Outcome.of_done {task : Task} {action : Action TaskOutput} {result : Except Error Cascade}
    (act : task.act scene = do return TaskStep.done (← action)) (sound : before.Sound levels)
    (effect : ∀ output, action.Turns before output after →
      after.Sound levels ∧ Lawful scene.actor before after)
    (outcome : Outcome scene task before result after) :
    after.Sound levels ∧ Lawful scene.actor before after := by
  cases result with
  | error cause =>
      cases outcome
      exact ⟨sound, lawful_refl scene.actor before⟩
  | ok cascade =>
      obtain ⟨output, turns⟩ := outcome.turns_of_done act
      exact effect output turns

end SharedTree
