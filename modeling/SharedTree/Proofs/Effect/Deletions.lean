import SharedTree.Proofs.Effect.Items
/-!
Deleting a subtree, row by row. Every row that is deleted lies in the subtree and has no children
left, so wherever the cascade stops the rest is a tree again, and nothing outside the subtree has
changed.
-/
namespace SharedTree

open SharedTree.Tables SharedTree.Action

variable {levels : Nat} {scene : Scene} {before after : Tables}

structure Deleting (levels : Nat) (root : Path) (start : Tables) (rest : List SubTask)
    (tables : Tables) : Prop where
  sound : tables.Sound levels
  fewer : ∀ item, tables.HasItem item → start.HasItem item
  confined : ConfinedBelow root start tables
  planned : ∀ subtask ∈ rest, ∃ row, subtask = .deleteItem row.id ∧ start.HasItem row ∧
    root.covers row.path = true

/-- What deleting a row does, to the letter. -/
theorem deleteItemRow_turns {id : Id} {output : TaskOutput} (quiet : scene.hooks.WriteNothing)
    (turns : (deleteItemRow scene id).Turns before output after) :
    ∃ row, before.HasItem row ∧ row.id = id ∧ before.hasChildren row = false ∧
      output = .itemDeleted row (before.membershipsUnder row.path) ∧
      after = before.removeWhole row := by
  obtain ⟨indexed, _⟩ := turns.indexed (deleteItemRow_built id)
  obtain ⟨start, work, done, _, rfl, gives, rfl⟩ := turns
  obtain ⟨row, found, childless, told, removed⟩ := deleteItemRow_gives quiet gives
  have own_id := indexed.item_id id row found
  exact ⟨row, indexed.hasItem found, own_id, childless, told, by rw [removed, removeWhole, own_id]⟩

theorem deleteItemRow_effect {item : Item} {output : TaskOutput} (quiet : scene.hooks.WriteNothing)
    (sound : before.Sound levels)
    (turns : (deleteItemRow scene item.id).Turns before output after) :
    ∃ row, before.HasItem row ∧ row.id = item.id ∧ after.Sound levels ∧
      (∀ other, after.HasItem other ↔ other.id ≠ item.id ∧ before.HasItem other) ∧
      ConfinedBelow row.path before after := by
  obtain ⟨_, indexed⟩ := turns.indexed (deleteItemRow_built item.id)
  obtain ⟨row, stands, own_id, childless, _, rfl⟩ := deleteItemRow_turns quiet turns
  have items (other : Item) : (before.removeWhole row).HasItem other ↔
      other.id ≠ item.id ∧ before.HasItem other := by
    rw [removeWhole_hasItem, own_id]
  have rows := sound.indexed.removeWhole_hasRow row
  refine ⟨row, stands, own_id, ⟨indexed, ?_, ?_⟩, items, ?_, ?_⟩
  · exact sound.shape.removeItem_childless sound.indexed stands childless
  · exact sound.graded.mono fun other found => ((rows other).mp found).1
  · intro other outside
    rw [rows]
    exact ⟨And.left, fun found' => ⟨found', Bool.not_eq_true _ ▸ outside⟩⟩
  · intro other stands' outside
    refine ⟨other, (items other).mpr ⟨fun equal => outside ?_, stands'⟩, rfl, rfl⟩
    rw [stands'.same stands (equal.trans own_id.symm)]
    exact Path.covers_refl _

theorem Deleting.turn {root : Path} {start : Tables} (quiet : scene.hooks.WriteNothing)
    (subtask : SubTask) (rest : List SubTask) (output : TaskOutput) (before after : Tables)
    (deleting : Deleting levels root start (subtask :: rest) before)
    (turns : (subtask.act scene).Turns before output after) :
    Deleting levels root start rest after := by
  obtain ⟨item, rfl, stands, inside⟩ := deleting.planned subtask List.mem_cons_self
  obtain ⟨row, found, ids, sound, items, confined⟩ :=
    deleteItemRow_effect quiet deleting.sound turns
  have same := (deleting.fewer row found).same stands ids
  subst same
  constructor
  case sound => exact sound
  case fewer => exact fun other found' => deleting.fewer other ((items other).mp found').2
  case confined => exact deleting.confined.trans (confined.widen inside)
  case planned => exact fun other member => deleting.planned other (List.mem_cons_of_mem _ member)

/-- A deletion that was not refused was one of an item that the actor administers, and some of its
plan is done. -/
theorem deleteItem_split {id : Id} {cascade : Cascade}
    (outcome : Outcome scene (.deleteItem id) before (.ok cascade) after) :
    ∃ (item : Item) (done : List (SubTask × TaskOutput)) (left : List SubTask),
      before.items[id]? = some item ∧
      before.hasPermission scene.actor item.path .admin = true ∧
      done.map Prod.fst ++ left =
        (before.deepestFirst item ++ [item]).map (fun row => .deleteItem row.id) ∧
      Committed scene before done after ∧ (cascade.failure = none ↔ left = []) ∧
      cascade.completed = numbered 0 done := by
  obtain ⟨_, done, left, turns, committed, told, report⟩ := outcome.split_of_delegated rfl
  obtain ⟨_, work, planned, _, rfl, gives, rfl⟩ := turns
  obtain ⟨item, found, allowed, _, plan, rfl⟩ := planDelete_gives gives
  exact ⟨item, done, left, found, allowed, plan, committed, told, report⟩

/-- Wherever a deletion stops, it was one of a subtree that the actor administers. -/
theorem deleteItem_deleting {id : Id} {cascade : Cascade} (quiet : scene.hooks.WriteNothing)
    (sound : before.Sound levels)
    (outcome : Outcome scene (.deleteItem id) before (.ok cascade) after) :
    ∃ (item : Item) (left : List SubTask), before.Grants scene.actor item.path .admin ∧
      Deleting levels item.path before left after := by
  obtain ⟨item, done, left, found, allowed, plan, committed, _⟩ := deleteItem_split outcome
  have stands := sound.indexed.hasItem found
  have admin := (sound.indexed.hasPermission_iff sound.graded).mp allowed
  -- Deepest first or not: every row that is planned stands and lies in the subtree.
  have beginning : Deleting levels item.path before (done.map Prod.fst ++ left) before := by
    refine ⟨sound, fun _ found' => found', Confined.refl _ _, ?_⟩
    intro subtask member
    rw [plan, List.mem_map] at member
    obtain ⟨row, member, rfl⟩ := member
    rcases List.mem_append.mp member with below | self
    · rw [sound.indexed.mem_deepestFirst item row stands] at below
      exact ⟨row, rfl, below.1, Path.covers_of_isAncestorOf below.2⟩
    · cases List.mem_singleton.mp self
      exact ⟨item, rfl, stands, Path.covers_refl _⟩
  exact ⟨item, left, admin, committed.invariant left _ (Deleting.turn quiet) beginning⟩

theorem deleteItem_outcome {id : Id} {result : Except Error Cascade}
    (quiet : scene.hooks.WriteNothing) (sound : before.Sound levels)
    (outcome : Outcome scene (.deleteItem id) before result after) :
    after.Sound levels ∧ Lawful scene.actor before after := by
  cases result with
  | error cause =>
      cases outcome
      exact ⟨sound, lawful_refl scene.actor before⟩
  | ok cascade =>
      obtain ⟨item, left, admin, ending⟩ := deleteItem_deleting quiet sound outcome
      exact ⟨ending.sound, ending.confined.lawful_below admin⟩

end SharedTree
