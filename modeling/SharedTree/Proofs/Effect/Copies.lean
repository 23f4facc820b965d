import SharedTree.Proofs.Effect.Items
import SharedTree.Proofs.Task.Copies
/-!
Copying a subtree, row by row. Parents are copied before their children, and each copy goes as far
below the top of the copy as its source lies below the top of the subtree, so wherever the cascade
stops there is a tree.
-/
namespace SharedTree

open SharedTree.Tables SharedTree.Action

variable {levels : Nat} {scene : Scene} {before after : Tables}

def Copied (item : Item) (top : Path) (start tables : Tables) (id : Id) (path : Path) : Prop :=
  ∃ source made, start.HasItem source ∧ source.id = id ∧ tables.HasItem made ∧ made.path = path ∧
    made.type = source.type ∧ top.covers path = true ∧
    path.levels + item.path.levels = source.path.levels + top.levels

structure Copying (levels : Nat) (item : Item) (top : Path) (start : Tables) (rest : List SubTask)
    (tables : Tables) : Prop where
  sound : tables.Sound levels
  kept : ∀ row, start.HasItem row → tables.HasItem row
  confined : ConfinedBelow top start tables
  laid : ∃ copies rows, Laid copies rows rest ∧ (∀ row ∈ rows, start.HasItem row) ∧
    (∀ row ∈ rows, row.path.levels + top.levels ≤ levels + item.path.levels) ∧
    ∀ copied ∈ copies, Copied item top start tables copied.1 copied.2

theorem copyItemRow_effect {source : Item} {path : Path} {top : Bool} {output : TaskOutput}
    (quiet : scene.hooks.WriteNothing) (sound : before.Sound levels)
    (stands : before.HasItem source) (short : path.levels ≤ levels)
    (placed : ∀ parent, path.parent? = some parent →
      ∃ folder, before.HasItem folder ∧ folder.path = parent ∧ folder.isFolder = true)
    (turns : (copyItemRow scene source.id path top).Turns before output after) :
    after.Sound levels ∧ ConfinedBelow path before after ∧
      (∀ item, before.HasItem item → path.covers item.path = false) ∧
      (∀ item, before.HasItem item → after.HasItem item) ∧
      ∃ made, after.HasItem made ∧ made.path = path ∧ made.type = source.type := by
  obtain ⟨_, indexed⟩ := turns.indexed (copyItemRow_built source.id path top)
  obtain ⟨start, work, done, _, rfl, gives, rfl⟩ := turns
  obtain ⟨row, made, found, rfl, _, unused, free, _, put⟩ := copyItemRow_gives quiet gives
  have same := (sound.indexed.hasItem found).same stands (sound.indexed.item_id _ _ found)
  subst same
  have fits : Fits levels work.tables
      (.make path.id path row.name row.type row.extra scene.actor scene.now) :=
    { unused, free, own_id := rfl, short, placed }
  obtain ⟨sound', confined, items⟩ : done.tables.Sound levels ∧
      ConfinedBelow path work.tables done.tables ∧
      ∀ item, done.tables.HasItem item ↔ (work.tables.putItem _).HasItem item := by
    cases top with
    | true => exact fits.administered sound put indexed
    | false =>
        have put : done.tables = work.tables.putItem _ := put
        rw [put]
        exact ⟨fits.sound_putItem sound, fits.confined_putItem, fun _ => Iff.rfl⟩
  refine ⟨sound', confined, fits.empty_there sound,
    fun item stands' => (items item).mpr (fits.kept item stands'), _,
    (items _).mpr ((putItem_hasItem _ _ _).mpr (Or.inl rfl)), rfl, rfl⟩

/-- The parent of a row is a folder whose copy lies one level above the row's own. -/
theorem Copied.parent {item : Item} {top above : Path} {start tables : Tables} {row : Item}
    {parent : Id} (shape : start.Shape levels) (stands : start.HasItem row)
    (known : row.parentId? = some parent) (copied : Copied item top start tables parent above) :
    (∃ folder, tables.HasItem folder ∧ folder.path = above ∧ folder.isFolder = true) ∧
      above.levels + 1 + item.path.levels = row.path.levels + top.levels := by
  obtain ⟨source, made, found, ids, stands', place, kind, _, depth⟩ := copied
  obtain ⟨place_above, upper, rfl⟩ := Option.map_eq_some_iff.mp known
  obtain ⟨folder, found', here, holds⟩ := shape.in_folder row place_above stands upper
  have same : source = folder := found.same found' (by
    rw [ids, ← here]
    exact shape.own_id folder found')
  subst same
  refine ⟨⟨made, stands', place, by simpa [Item.isFolder, kind] using holds⟩, ?_⟩
  have deeper := Path.levels_of_parent upper
  rw [← here] at deeper
  omega

theorem Copying.turn {item : Item} {top : Path} {start : Tables} (quiet : scene.hooks.WriteNothing)
    (start_shape : start.Shape levels) (subtask : SubTask) (rest : List SubTask)
    (output : TaskOutput) (before after : Tables)
    (copying : Copying levels item top start (subtask :: rest) before)
    (turns : (subtask.act scene).Turns before output after) :
    Copying levels item top start rest after := by
  obtain ⟨copies, rows, laid, known, short, copied⟩ := copying.laid
  cases laid with
  | @cons _ row others _ parent above new place member later =>
      have stands := known row List.mem_cons_self
      have upper : Copied item top start before parent above := copied _ member
      obtain ⟨folder, depth⟩ := upper.parent start_shape stands place
      have spans : top.covers (above.child new) = true := by
        obtain ⟨_, _, _, _, _, _, _, spans, _⟩ := upper
        have lower := Path.parent_isAncestorOf (Path.parent_child above new)
        exact Path.covers_trans spans (Path.covers_of_isAncestorOf lower)
      have new_levels : (above.child new).levels + item.path.levels =
          row.path.levels + top.levels := by
        rw [Path.levels_child]
        exact depth
      have row_levels := short row List.mem_cons_self
      obtain ⟨sound, confined, _, kept, made, stands', here, kind⟩ :=
        copyItemRow_effect quiet copying.sound (copying.kept row stands) (by omega)
          (by
            intro parent_path upper
            rw [Path.parent_child] at upper
            cases upper
            exact folder)
          turns
      constructor
      case sound => exact sound
      case kept => exact fun other found => kept other (copying.kept other found)
      case confined => exact copying.confined.trans (confined.widen spans)
      case laid =>
        refine ⟨_, others, later, fun other inside => known other (List.mem_cons_of_mem row inside),
          fun other inside => short other (List.mem_cons_of_mem row inside), ?_⟩
        intro pair inside
        rcases List.mem_cons.mp inside with rfl | inside
        · exact ⟨row, made, stands, rfl, stands', here, kind, spans, new_levels⟩
        · obtain ⟨source, copy, found, ids, found', rest⟩ := copied pair inside
          exact ⟨source, copy, found, ids, kept copy found', rest⟩

/-- The first subtask of a copy makes its top; the rest go below it. -/
theorem Copying.of_top {under : Option Id} {item : Item} {folder : Option Item} {new : Id}
    {more : List SubTask} {output : TaskOutput} (quiet : scene.hooks.WriteNothing)
    (limit : scene.settings.maxTreeLevels ≤ levels) (sound : before.Sound levels)
    (stands : before.HasItem item) (holds : MayHold scene before under folder)
    (short : item.subtreeLevels (before.descendants item) - item.path.levels +
      (pathWithin folder new).levels ≤ scene.settings.maxTreeLevels)
    (laid : Laid [(item.id, pathWithin folder new)] (before.shallowestFirst item) more)
    (turns : (copyItemRow scene item.id (pathWithin folder new) true).Turns before output after) :
    Copying levels item (pathWithin folder new) before more after ∧
      ∀ row, before.HasItem row → (pathWithin folder new).covers row.path = false := by
  have fits_below (row : Item) (inside : row = item ∨ row ∈ before.descendants item) :
      row.path.levels + (pathWithin folder new).levels ≤ levels + item.path.levels := by
    have most := Item.levels_le_subtreeLevels item _ row inside
    omega
  have top_levels := fits_below item (Or.inl rfl)
  obtain ⟨sound', confined, empty_there, kept, made, stands', here, kind⟩ :=
    copyItemRow_effect quiet sound stands (by omega) (holds.placed sound.indexed new) turns
  refine ⟨⟨sound', kept, confined, _, _, laid, ?_, ?_, ?_⟩, empty_there⟩
  · intro row member
    exact ((sound.indexed.mem_shallowestFirst item row stands).mp member).1
  · intro row member
    rw [shallowestFirst, List.mem_mergeSort] at member
    exact fits_below row (Or.inr member)
  · intro pair member
    cases List.mem_singleton.mp member
    exact ⟨item, made, stands, rfl, stands', here, kind, Path.covers_refl _, Nat.add_comm _ _⟩

theorem copyItem_outcome {id : Id} {under : Option Id} {result : Except Error Cascade}
    (quiet : scene.hooks.WriteNothing) (limit : scene.settings.maxTreeLevels ≤ levels)
    (sound : before.Sound levels)
    (outcome : Outcome scene (.copyItem id under) before result after) :
    after.Sound levels ∧ Lawful scene.actor before after := by
  cases result with
  | error cause =>
      cases outcome
      exact ⟨sound, lawful_refl scene.actor before⟩
  | ok cascade =>
      obtain ⟨_, done, left, turns, committed, _⟩ := outcome.committed_of_delegated rfl
      obtain ⟨start, work, planned, _, rfl, gives, rfl⟩ := turns
      obtain ⟨item, folder, new, more, found, _, holds, short, plan, laid, same⟩ :=
        planCopy_gives gives
      rw [same] at committed
      cases committed with
      | none => exact ⟨sound, lawful_refl scene.actor _⟩
      | next first later =>
          cases plan
          obtain ⟨beginning, empty_there⟩ := Copying.of_top quiet limit sound
            (sound.indexed.hasItem found) holds short laid first
          have ending := later.invariant left _ (Copying.turn quiet sound.shape) beginning
          exact ⟨ending.sound, ending.confined.lawful_new empty_there⟩

end SharedTree
