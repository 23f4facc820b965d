import Mathlib.Data.List.Nodup
import SharedTree.Proofs.Effect.Copies
import SharedTree.Proofs.Tree.Orders
/-!
What the subtasks of a copy put into the tables. A plan is told by the items of the subtree, each
with the place that its copy goes to (`Laid.places`); carrying it out puts in one new item for each
and nothing else (`replicas_of_committed`), wherever the copy goes, since its sources stay as they are.
-/
namespace SharedTree

open SharedTree.Tables SharedTree.Action

variable {levels : Nat} {scene : Scene} {before after : Tables}

def Item.copyAt (scene : Scene) (source : Item) (path : Path) : Item :=
  .make path.id path source.name source.type source.extra scene.actor scene.now

def copiesTo (places : List (Item × Path)) : List SubTask :=
  places.map fun place => .copyItem place.1.id place.2 false

def PlacedBelow (places : List (Id × Path)) (place : Item × Path) : Prop :=
  ∃ parent above new, place.1.parentId? = some parent ∧ place.2 = above.child new ∧
    (parent, above) ∈ places

theorem Laid.places {copies : List (Id × Path)} {rows : List Item} {subtasks : List SubTask}
    (laid : Laid copies rows subtasks) :
    ∃ places : List (Item × Path), places.map Prod.fst = rows ∧ subtasks = copiesTo places ∧
      ∀ place ∈ places,
        PlacedBelow (copies ++ places.map fun upper => (upper.1.id, upper.2)) place := by
  induction laid with
  | nil => exact ⟨[], rfl, rfl, by simp⟩
  | @cons copies row rest more parent above new known member _ ih =>
      obtain ⟨places, sources, plan, below⟩ := ih
      refine ⟨(row, above.child new) :: places, by rw [List.map_cons, sources], by rw [plan]; rfl, ?_⟩
      intro place inside
      rcases List.mem_cons.mp inside with rfl | inside
      · exact ⟨parent, above, new, known, rfl, List.mem_append_left _ member⟩
      · obtain ⟨upper, place_above, last, known, here, listed⟩ := below place inside
        refine ⟨upper, place_above, last, known, here, ?_⟩
        simp only [List.mem_append, List.mem_cons, List.map_cons] at listed ⊢
        tauto

/-- Copying one row puts in its copy, which is new. -/
theorem copyItemRow_puts {source : Item} {path : Path} {top : Bool} {output : TaskOutput}
    (quiet : scene.hooks.WriteNothing) (stands : before.HasItem source)
    (turns : (copyItemRow scene source.id path top).Turns before output after) :
    before.items[path.id]? = none ∧
      if top then Administered scene path (before.putItem (source.copyAt scene path)) after
      else after = before.putItem (source.copyAt scene path) := by
  obtain ⟨_, work, done, _, rfl, gives, rfl⟩ := turns
  obtain ⟨row, _, found, rfl, _, unused, _, _, put⟩ := copyItemRow_gives quiet gives
  cases stands.symm.trans found
  exact ⟨unused, put⟩

theorem putItem_kept {made : Item} (unused : before.items[made.id]? = none) {item : Item}
    (stands : before.HasItem item) : (before.putItem made).HasItem item :=
  (before.putItem_hasItem made item).mpr (Or.inr ⟨stands.id_ne unused, stands⟩)

theorem putItem_new_hasItem {made : Item} (unused : before.items[made.id]? = none) (item : Item) :
    (before.putItem made).HasItem item ↔ before.HasItem item ∨ item = made := by
  constructor
  · intro stands
    rcases (before.putItem_hasItem made item).mp stands with rfl | ⟨_, stands⟩
    · exact Or.inr rfl
    · exact Or.inl stands
  · rintro (stands | rfl)
    · exact putItem_kept unused stands
    · exact (before.putItem_hasItem item item).mpr (Or.inl rfl)

/-- Carrying out the plan puts in a copy for each place, under identifiers that are new. -/
theorem replicas_of_committed {done : List (SubTask × TaskOutput)} (quiet : scene.hooks.WriteNothing)
    (committed : Committed scene before done after) {places : List (Item × Path)}
    (plan : done.map Prod.fst = copiesTo places)
    (stands : ∀ place ∈ places, before.HasItem place.1) :
    (places.map fun place => place.2.id).Nodup ∧
      (∀ place ∈ places, before.items[place.2.id]? = none) ∧
      (∀ item, after.HasItem item ↔
        before.HasItem item ∨ ∃ place ∈ places, item = place.1.copyAt scene place.2) ∧
      after.memberships = before.memberships := by
  induction committed generalizing places with
  | none tables =>
      cases List.map_eq_nil_iff.mp plan.symm
      simp
  | @next before middle after subtask output rest turns _ ih =>
      cases places with
      | nil => cases plan
      | cons place others =>
          obtain ⟨rfl, later⟩ := List.cons.inj plan
          have source := stands place List.mem_cons_self
          obtain ⟨unused, put⟩ := copyItemRow_puts quiet source turns
          have put : middle = before.putItem (place.1.copyAt scene place.2) := put
          have made (item : Item) : middle.HasItem item ↔
              before.HasItem item ∨ item = place.1.copyAt scene place.2 := by
            rw [put]
            exact putItem_new_hasItem unused item
          have free (id : Id) (absent : middle.items[id]? = none) :
              id ≠ place.2.id ∧ before.items[id]? = none := by
            rw [put, putItem_items] at absent
            split at absent
            · cases absent
            · exact ⟨‹_›, absent⟩
          obtain ⟨distinct, new, items, rows⟩ := ih later fun other inside =>
            (made other.1).mpr (Or.inl (stands other (List.mem_cons_of_mem place inside)))
          refine ⟨List.nodup_cons.mpr ⟨?_, distinct⟩, ?_, fun item => ?_, ?_⟩
          · intro again
            obtain ⟨other, inside, same⟩ := List.mem_map.mp again
            exact (free _ (new other inside)).1 same
          · intro other inside
            rcases List.mem_cons.mp inside with rfl | inside
            · exact unused
            · exact (free _ (new other inside)).2
          · rw [items, made]
            simp only [List.mem_cons, exists_eq_or_imp, or_assoc]
          · rw [rows, put, putItem_memberships]

end SharedTree
