import SharedTree.Proofs.Effect.Clearing
import SharedTree.Proofs.Engine.Reached
/-!
Deleting an item takes away its subtree and nothing else. What a deletion that came to its end has
left and reported is told exactly, in either mode (`deletion_clears_subtree`): each item of the
subtree has one place in the report, after those of everything below it, and each membership has
the place of the item it was on.
-/
namespace SharedTree

open Tables

variable {levels : Nat} {scene : Scene} {before after : Tables} {cascade : Cascade}

namespace Cascade

def DeletesAt (cascade : Cascade) (place : Nat) (item : Item) : Prop :=
  ∃ outcome memberships, cascade.completed[place]? = some outcome ∧
    outcome.output = .itemDeleted item memberships

def RemovesAt (cascade : Cascade) (place : Nat) (row : Membership) : Prop :=
  ∃ outcome item memberships, cascade.completed[place]? = some outcome ∧
    outcome.output = .itemDeleted item memberships ∧ row ∈ memberships

/-- The report tells of deleted items one by one, in their order, each with the memberships on
it. -/
structure TellsOfEach (cascade : Cascade) (before : Tables) (rows : List Item) : Prop where
  told : ∀ (place : Nat) (item : Item), rows[place]? = some item → ∃ output,
    before.TellsOf item output ∧
      cascade.completed[place]? = some (SubTaskOutcome.mk place .deleteItem item.id output)
  no_more : cascade.completed.length = rows.length

namespace TellsOfEach

variable {rows : List Item} (tells : cascade.TellsOfEach before rows)
include tells

theorem outcome {place : Nat} {outcome : SubTaskOutcome}
    (completed : cascade.completed[place]? = some outcome) :
    ∃ item, rows[place]? = some item ∧ before.TellsOf item outcome.output ∧
      outcome = ⟨place, .deleteItem, item.id, outcome.output⟩ := by
  have within : place < rows.length := by
    rw [← tells.no_more]
    exact (List.getElem?_eq_some_iff.mp completed).1
  have listed := List.getElem?_eq_getElem within
  obtain ⟨output, told, same⟩ := tells.told place _ listed
  cases completed.symm.trans same
  exact ⟨_, listed, told, rfl⟩

theorem deletesAt_iff (place : Nat) (item : Item) :
    cascade.DeletesAt place item ↔ rows[place]? = some item := by
  constructor
  · rintro ⟨outcome, memberships, completed, output⟩
    obtain ⟨row, listed, ⟨_, told, _⟩, _⟩ := tells.outcome completed
    cases output.symm.trans told
    exact listed
  · intro listed
    obtain ⟨output, ⟨memberships, rfl, _⟩, completed⟩ := tells.told place item listed
    exact ⟨_, memberships, completed, rfl⟩

theorem removesAt_iff (place : Nat) (row : Membership) :
    cascade.RemovesAt place row ↔
      ∃ item, rows[place]? = some item ∧ before.HasRow row ∧ row.itemPath = item.path := by
  constructor
  · rintro ⟨outcome, item, memberships, completed, output, inside⟩
    obtain ⟨_, listed, ⟨_, told, _, on_it⟩, _⟩ := tells.outcome completed
    cases output.symm.trans told
    exact ⟨item, listed, (on_it row).mp inside⟩
  · rintro ⟨item, listed, found⟩
    obtain ⟨output, ⟨memberships, rfl, _, on_it⟩, completed⟩ := tells.told place item listed
    exact ⟨_, item, memberships, completed, rfl, (on_it row).mpr found⟩

end TellsOfEach

end Cascade

structure Deleted (item : Item) (before after : Tables) (cascade : Cascade) : Prop where
  items : ∀ id : Id,
    after.items[id]? = before.items[id]?.filter fun row => !item.path.covers row.path
  memberships : ∀ id : Id,
    after.memberships[id]? = before.memberships[id]?.filter fun row => !item.path.covers row.itemPath
  told : ∀ (place : Nat) (outcome : SubTaskOutcome), cascade.completed[place]? = some outcome →
    ∃ row, before.HasItem row ∧ item.path.covers row.path = true ∧
      before.TellsOf row outcome.output ∧ outcome = ⟨place, .deleteItem, row.id, outcome.output⟩
  each_item : ∀ row, before.HasItem row → item.path.covers row.path = true →
    ∃! place, cascade.DeletesAt place row
  each_membership : ∀ row, before.HasRow row → item.path.covers row.itemPath = true →
    ∃! place, cascade.RemovesAt place row
  children_first : ∀ place later upper lower, cascade.DeletesAt later upper →
    cascade.DeletesAt place lower → upper.path.isAncestorOf lower.path = true → place < later

/-- A report that tells of the rows of a plan of deletions, each before those above it. -/
theorem Deleted.of_plan {item : Item} {rows : List Item} (deletable : Deletable levels before rows)
    (listed : ∀ row, row ∈ rows ↔ before.HasItem row ∧ item.path.covers row.path = true)
    (tells : cascade.TellsOfEach before rows) :
    Deleted item before (before.removeEach rows) cascade := by
  have indexed := deletable.sound.indexed
  have indexed' := indexed.removeEach rows
  have distinct (place other : Nat) (row : Item) (first : rows[place]? = some row)
      (second : rows[other]? = some row) : other = place := by
    have within := (List.getElem?_eq_some_iff.mp second).1
    exact (List.getElem?_inj within deletable.distinct).mp (second.trans first.symm)
  constructor
  case items =>
    refine indexed.items_filter indexed' fun row => ?_
    rw [removeEach_hasItem, Bool.not_eq_true', ← Bool.not_eq_true]
    constructor
    · rintro ⟨apart, found⟩
      exact ⟨found, fun spans => apart row ((listed row).mpr ⟨found, spans⟩) rfl⟩
    · rintro ⟨found, outside⟩
      refine ⟨fun other inside same => outside ?_, found⟩
      have stands := (listed other).mp inside
      exact found.same stands.1 same ▸ stands.2
  case memberships =>
    refine indexed.memberships_filter indexed' fun row => ?_
    rw [indexed.removeEach_hasRow, Bool.not_eq_true', ← Bool.not_eq_true]
    constructor
    · rintro ⟨apart, found⟩
      refine ⟨found, fun spans => ?_⟩
      obtain ⟨carrier, stands, place⟩ := deletable.sound.shape.on_item row found
      have outside := apart carrier ((listed carrier).mpr ⟨stands, place ▸ spans⟩)
      rw [place, Path.covers_refl] at outside
      cases outside
    · rintro ⟨found, outside⟩
      refine ⟨fun other inside => ?_, found⟩
      rw [← Bool.not_eq_true]
      exact fun spans => outside (Path.covers_trans ((listed other).mp inside).2 spans)
  case told =>
    intro place outcome completed
    obtain ⟨row, found, told, same⟩ := tells.outcome completed
    obtain ⟨stands, spans⟩ := (listed row).mp (List.mem_of_getElem? found)
    exact ⟨row, stands, spans, told, same⟩
  case each_item =>
    intro row found spans
    obtain ⟨place, at_place⟩ := List.getElem?_of_mem ((listed row).mpr ⟨found, spans⟩)
    refine ⟨place, (tells.deletesAt_iff place row).mpr at_place, fun other deletes => ?_⟩
    exact distinct place other row at_place ((tells.deletesAt_iff other row).mp deletes)
  case each_membership =>
    intro row found spans
    obtain ⟨carrier, stands, on_it⟩ := deletable.sound.shape.on_item row found
    obtain ⟨place, at_place⟩ := List.getElem?_of_mem ((listed carrier).mpr ⟨stands, on_it ▸ spans⟩)
    refine ⟨place, (tells.removesAt_iff place row).mpr ⟨carrier, at_place, found, on_it.symm⟩, ?_⟩
    intro other removes
    obtain ⟨item', at_other, _, on_item'⟩ := (tells.removesAt_iff other row).mp removes
    have stands' := (listed item').mp (List.mem_of_getElem? at_other)
    rw [indexed.item_unique stands'.1 stands (on_item'.symm.trans on_it.symm)] at at_other
    exact distinct place other carrier at_place at_other
  case children_first =>
    intro place later upper lower deletes deletes' below
    rw [tells.deletesAt_iff] at deletes deletes'
    by_contra early
    rcases Nat.lt_or_eq_of_le (Nat.not_lt.mp early) with before_it | same
    · -- What comes later in the plan is not below.
      obtain ⟨within, first⟩ := List.getElem?_eq_some_iff.mp deletes
      obtain ⟨within', second⟩ := List.getElem?_eq_some_iff.mp deletes'
      have ordered := List.pairwise_iff_getElem.mp deletable.ordered _ _ within within' before_it
      rw [first, second, below] at ordered
      cases ordered
    · rw [same] at deletes
      cases deletes.symm.trans deletes'
      exact absurd rfl ((Path.isAncestorOf_iff_covers _ _).mp below).2

/-- A deletion that comes to its end takes away the item and everything below it, with the
memberships on these, and nothing else. -/
theorem deletion_clears_subtree {allowed : Settings → Prop} {engine : Engine}
    (reached : Reached allowed engine.store.tables) (quiet : scene.hooks.WriteNothing) {id : Id}
    (ran : (engine.run scene (.deleteItem id)).1 = .ok cascade)
    (complete : cascade.failure = none) :
    ∃ item, engine.store.tables.items[id]? = some item ∧
      Deleted item engine.store.tables (engine.run scene (.deleteItem id)).2.store.tables
        cascade := by
  obtain ⟨levels, sound⟩ := reached.sound
  have outcome := engine.run_outcome scene (.deleteItem id) sound.indexed
  generalize (engine.run scene (.deleteItem id)).2.store.tables = after at outcome ⊢
  rw [ran] at outcome
  obtain ⟨item, done, found, deletable, committed, plan, report, rfl⟩ :=
    deleteItem_completed quiet sound outcome complete
  have stands := sound.indexed.hasItem found
  refine ⟨item, found, .of_plan deletable (fun row => ?_) ⟨fun place row listed => ?_, ?_⟩⟩
  · rw [List.mem_append, List.mem_singleton, sound.indexed.mem_deepestFirst item row stands]
    constructor
    · rintro (⟨found', below⟩ | rfl)
      · exact ⟨found', Path.covers_of_isAncestorOf below⟩
      · exact ⟨stands, Path.covers_refl _⟩
    · rintro ⟨found', spans⟩
      by_cases place : item.path = row.path
      · exact Or.inr (sound.indexed.item_unique found' stands place.symm)
      · exact Or.inl ⟨found', (Path.isAncestorOf_iff_covers _ _).mpr ⟨spans, place⟩⟩
  · obtain ⟨output, ran', told⟩ := deletable.told quiet committed plan listed
    refine ⟨output, told, ?_⟩
    rw [report, numbered_getElem?, ran', Option.map_some, Nat.zero_add]
    rfl
  · have lengths := congrArg List.length plan
    rw [List.length_map, List.length_map] at lengths
    rw [report, numbered_length, lengths]

def Sample.cleared : Cascade :=
  ((Cascade.delegated .deleteItem (some (id 100)) 2).complete
    ⟨0, .deleteItem, document.id, .itemDeleted document [lower]⟩).complete
      ⟨1, .deleteItem, first.id,
        .itemDeleted first [.make (id 101) firstFolder owner .admin owner default, upper]⟩

theorem sample_deletion_clears_subtree :
    (Sample.engine.run (Sample.sceneOf Sample.owner) (.deleteItem (Sample.id 100))).1 =
      .ok Sample.cleared ∧
    ∃ item, Sample.engine.store.tables.items[Sample.id 100]? = some item ∧
      Deleted item Sample.engine.store.tables (Sample.engine.run (Sample.sceneOf Sample.owner)
        (.deleteItem (Sample.id 100))).2.store.tables Sample.cleared := by
  have ran : (Sample.engine.run (Sample.sceneOf Sample.owner) (.deleteItem (Sample.id 100))).1 =
      .ok Sample.cleared := by
    decide +kernel
  exact ⟨ran, deletion_clears_subtree Sample.reached_any (Sample.quiet Sample.owner) ran rfl⟩

end SharedTree
