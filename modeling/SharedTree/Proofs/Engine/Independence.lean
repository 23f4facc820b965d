import Mathlib.Order.Interval.Set.Basic
import SharedTree.Proofs.Engine.Completion
import SharedTree.Proofs.Engine.Events
import SharedTree.Proofs.Engine.Local
import SharedTree.Proofs.Task.Trees
/-!
Tasks keep to the trees that they name. What a task does depends on the rows in these trees alone,
and apart from them it writes only to trees that it makes; so two tasks that name different trees
can be run in either order (`tasks_keep_to_their_trees`).
-/
namespace SharedTree

open SharedTree.Tables SharedTree.Engine

/-- A store in which nothing goes wrong, with well-formed rows that the indexes agree with. -/
structure Store.Orderly (store : Store) : Prop where
  calm : store.Calm
  indexed : store.tables.Indexed
  wellFormed : ∃ levels, store.tables.WellFormed levels

def Engine.draws (engine : Engine) (scene : Scene) (task : Task) : Set Id :=
  scene.ids '' Set.Ico engine.drawn (engine.run scene task).2.drawn

theorem Fresh.unused {ids : Nat → Id} {number most : Nat} {tables : Tables}
    (fresh : Fresh ids number most tables) : tables.Unused (ids '' Set.Ico number most) where
  items := by
    rintro id ⟨n, ⟨above, below⟩, rfl⟩
    exact fresh.items n above below
  memberships := by
    rintro id ⟨n, ⟨above, below⟩, rfl⟩
    exact fresh.memberships n above below

theorem Task.Within.of_alike {region : Region} {left right : Tables} {task : Task}
    (within : task.Within region left) (alike : left.Alike region right) :
    task.Within region right := by
  cases task with
  | moveItem id under =>
      obtain ⟨listed, listed', top⟩ := within
      exact ⟨listed, listed', fun missing => alike.items id listed ▸ top missing⟩
  | _ => exact within

theorem Fresh.removeWhole {ids : Nat → Id} {number most : Nat} {tables : Tables}
    (fresh : Fresh ids number most tables) (item : Item) :
    Fresh ids number most (tables.removeWhole item) := by
  refine fresh.of_unused (fun id unused => ?_) fun id unused => ?_
  · rw [removeWhole_items, unused, ite_self]
  · rw [Tables.removeWhole, removeItem_memberships, removeMemberships_memberships, unused, ite_self]

/-- Runs of a task on stores that are alike in a region are alike, if the trees that the task names
are the only ones of the region with rows. -/
theorem Engine.run_changed_alike {region : Region} {left right : Engine} {scene : Scene}
    {task : Task} (bare : scene.hooks.pre = []) (calm : left.store.Calm) (calm' : right.store.Calm)
    (drawn : left.drawn = right.drawn) (alike : left.store.tables.Alike region right.store.tables)
    (within : task.Within region left.store.tables)
    (made : left.draws scene task ⊆ region.made)
    (named : task.trees left.store.tables ⊆ region.trees)
    (vacant : ∀ tree ∈ region.trees, tree ∈ left.store.tables.trees →
      tree ∈ task.trees left.store.tables)
    (vacant' : ∀ tree ∈ region.trees, tree ∈ right.store.tables.trees →
      tree ∈ task.trees left.store.tables) :
    (left.run scene task).1 = (right.run scene task).1 ∧
      ChangedAlike (task.trees left.store.tables)
        left.store.tables (left.run scene task).2.store.tables
        right.store.tables (right.run scene task).2.store.tables := by
  have supplied (n : Nat) (above : left.drawn ≤ n) (below : n < (left.run scene task).2.drawn) :
      scene.ids n ∈ region.made := made ⟨n, ⟨above, below⟩, rfl⟩
  obtain ⟨same, alike', drew, keeps⟩ := run_alike bare calm calm' alike drawn within supplied
  obtain ⟨_, _, _, keeps'⟩ := run_alike bare calm' calm alike.symm drawn.symm
    (within.of_alike alike) fun n above below => supplied n (drawn ▸ above) (drew ▸ below)
  exact ⟨same, .of_region named vacant vacant' alike alike' keeps keeps'⟩

structure Request where
  scene : Scene
  task : Task

namespace Request

/-- Runs the task on a store; nothing has been drawn from the supply of its scene before. -/
def run (request : Request) (store : Store) : Except Error Cascade × Engine :=
  (Engine.ofStore store).run request.scene request.task

def draws (request : Request) (store : Store) : Set Id :=
  (Engine.ofStore store).draws request.scene request.task

/-- There are no pre-hooks, and no row has an identifier that the task draws. -/
structure Ready (request : Request) (store : Store) : Prop where
  bare : request.scene.hooks.pre = []
  fresh : Fresh request.scene.ids 0 (request.run store).2.drawn store.tables

/-- The trees that two tasks name are different, and so are the identifiers that they draw; neither
task names one that the other draws. -/
structure Apart (store : Store) (first second : Request) : Prop where
  trees : ∀ tree ∈ first.task.trees store.tables, tree ∉ second.task.trees store.tables
  draws : ∀ id ∈ first.draws store, id ∉ second.draws store
  unnamed : ∀ id ∈ first.draws store, id ∉ second.task.names
  unnamed' : ∀ id ∈ second.draws store, id ∉ first.task.names

variable {store : Store} {first second : Request} {levels : Nat}

theorem Apart.symm (apart : Apart store first second) : Apart store second first :=
  ⟨fun tree inside inside' => apart.trees tree inside' inside,
    fun id drawn drawn' => apart.draws id drawn' drawn, apart.unnamed', apart.unnamed⟩

theorem Ready.unused (ready : first.Ready store) : store.tables.Unused (first.draws store) :=
  ready.fresh.unused

abbrev region (request : Request) (store : Store) : Region :=
  request.task.region store.tables (request.draws store)

section Apart

variable (apart : Apart store first second) (ready : first.Ready store)
  (ready' : second.Ready store) (indexed : store.tables.Indexed) (shape : store.tables.Shape levels)
include apart ready ready' indexed shape

theorem Apart.regions :
    ∀ tree ∈ (first.region store).trees, tree ∉ (second.region store).trees := by
  intro tree inside inside'
  have missing : tree ∉ store.tables.trees := fun stands => apart.trees tree
    (Task.reach_vacant shape ready.unused inside stands)
    (Task.reach_vacant shape ready'.unused inside' stands)
  rcases inside with named | ⟨id, home, rfl⟩
  · exact missing (Task.trees_stand indexed named)
  rcases inside' with named | ⟨other, home', same⟩
  · exact missing (Task.trees_stand indexed named)
  -- A tree that both can make is that of one identifier, drawn by one task or named by both.
  obtain rfl : other = id := by rw [← Path.id_root other, same, Path.id_root]
  rcases home with new | ⟨named, stands⟩
  · rcases home' with new' | ⟨named', _⟩
    · exact apart.draws _ new new'
    · exact apart.unnamed other new (Task.mem_names_of_item named')
  · rcases home' with new' | ⟨named', _⟩
    · exact apart.unnamed' other new' (Task.mem_names_of_item named)
    · obtain ⟨item, found⟩ := Option.ne_none_iff_exists'.mp stands
      exact apart.trees _ (.inl ⟨other, named, item, found, rfl⟩)
        (.inl ⟨other, named', item, found, rfl⟩)

/-- After the first task its region has changed, but not that of the second. -/
theorem Apart.alike_after {after : Tables} (fits : after.Fits (first.region store))
    (keeps : store.tables.KeepsOutside (first.region store) after) :
    store.tables.Alike (second.region store) after := by
  have regions := apart.regions ready ready' indexed shape
  have fits_first : store.tables.Fits (first.region store) := Task.region_fits indexed ready.unused
  have fits_second : store.tables.Fits (second.region store) :=
    Task.region_fits indexed ready'.unused
  refine keeps.alike fits fits_second regions (fun id mine other => ?_) fun id mine other => ?_
  · have missing : store.tables.items[id]? = none := by
      refine Option.eq_none_iff_forall_ne_some.mpr fun item found => ?_
      exact regions _ ((fits_first.item id item found).mp mine)
        ((fits_second.item id item found).mp other)
    refine ⟨fun new => ?_, missing⟩
    rcases other with new' | named | ⟨item, found, _⟩
    · exact apart.draws _ new new'
    · exact apart.unnamed id new (Task.mem_names_of_item named)
    · cases missing.symm.trans found
  · have missing : store.tables.memberships[id]? = none := by
      refine Option.eq_none_iff_forall_ne_some.mpr fun row found => ?_
      exact regions _ ((fits_first.membership id row found).mp mine)
        ((fits_second.membership id row found).mp other)
    refine ⟨fun new => ?_, missing⟩
    rcases other with new' | named | ⟨row, found, _⟩
    · exact apart.draws _ new new'
    · exact apart.unnamed id new (Task.mem_names_of_membership named)
    · cases missing.symm.trans found

/-- After another task the second is run as it is run before, in its own trees. -/
theorem Apart.second_after_first (calm : store.Calm) :
    (second.run store).1 = (second.run (first.run store).2.store).1 ∧
      ChangedAlike (second.task.trees store.tables)
        store.tables (second.run store).2.store.tables (first.run store).2.store.tables
        (second.run (first.run store).2.store).2.store.tables := by
  have fits : store.tables.Fits (first.region store) := Task.region_fits indexed ready.unused
  have self : store.tables.Alike (first.region store) store.tables :=
    ⟨fits, fits, fun _ _ => rfl, fun _ _ => rfl⟩
  have supplied (n : Nat) (above : 0 ≤ n) (below : n < (first.run store).2.drawn) :
      first.scene.ids n ∈ (first.region store).made := ⟨n, ⟨above, below⟩, rfl⟩
  have begun : (Engine.ofStore store).store.Calm := calm
  obtain ⟨_, alike, _, keeps⟩ := run_alike ready.bare begun begun self rfl
    (first.task.within_region _ _) supplied
  obtain ⟨_, _, calm'⟩ :=
    run_calm (Hooks.rowsOnly_of_bare ready.bare) first.task begun indexed
  have alike' := apart.alike_after ready ready' indexed shape alike.fits_left keeps
  refine run_changed_alike ready'.bare calm calm' rfl alike' (second.task.within_region _ _)
    subset_rfl Set.subset_union_left
    (fun tree inside stands => Task.reach_vacant shape ready'.unused inside stands)
    fun tree inside stands => ?_
  -- The trees that the first task made are not among those of the second.
  have outside : tree ∈ (first.region store).treesᶜ := fun mine =>
    apart.regions ready ready' indexed shape tree mine inside
  exact Task.reach_vacant shape ready'.unused inside
    (((keeps.sameIn fits alike.fits_left).tree_iff outside).mpr stands)

end Apart

end Request

/-- Tasks keep to the trees that they name. On stores that agree on what it names, a task that draws
new identifiers has the same result, leaves the same rows in these trees and in those that it makes,
and leaves all other trees as they were. And two tasks that name different trees, and draw different
new identifiers that the other does not name, have the same results and leave the same rows in
either order. -/
theorem tasks_keep_to_their_trees :
    (∀ (left right : Engine) (scene : Scene) (task : Task),
      left.store.Orderly → right.store.Orderly → scene.hooks.pre = [] → left.drawn = right.drawn →
      task.AgreeOn left.store.tables right.store.tables →
      Fresh scene.ids left.drawn (left.run scene task).2.drawn left.store.tables →
      Fresh scene.ids left.drawn (left.run scene task).2.drawn right.store.tables →
      (left.run scene task).1 = (right.run scene task).1 ∧
        ChangedAlike (task.trees left.store.tables)
          left.store.tables (left.run scene task).2.store.tables
          right.store.tables (right.run scene task).2.store.tables) ∧
    ∀ (store : Store) (first second : Request), store.Orderly → first.Ready store →
      second.Ready store → Request.Apart store first second →
      (first.run store).1 = (first.run (second.run store).2.store).1 ∧
        (second.run store).1 = (second.run (first.run store).2.store).1 ∧
        (second.run (first.run store).2.store).2.store.tables =
          (first.run (second.run store).2.store).2.store.tables := by
  constructor
  · intro left right scene task orderly orderly' bare drawn agree fresh fresh'
    obtain ⟨_, formed⟩ := orderly.wellFormed
    obtain ⟨_, formed'⟩ := orderly'.wellFormed
    have shape := formed.shape orderly.indexed
    have shape' := formed'.shape orderly'.indexed
    have alike := agree.alike shape shape' fresh.unused fresh'.unused orderly.indexed
      orderly'.indexed
    refine run_changed_alike bare orderly.calm orderly'.calm drawn alike (task.within_region _ _)
      subset_rfl Set.subset_union_left
      (fun tree inside stands => Task.reach_vacant shape fresh.unused inside stands)
      fun tree inside stands => ?_
    have inside' : tree ∈ task.reach right.store.tables (left.draws scene task) := by
      rw [← agree.reach_eq]
      exact inside
    rw [agree.trees_eq]
    exact Task.reach_vacant shape' fresh'.unused inside' stands
  · intro store first second orderly ready ready' apart
    obtain ⟨_, formed⟩ := orderly.wellFormed
    have shape := formed.shape orderly.indexed
    obtain ⟨same, changed⟩ := apart.symm.second_after_first ready' ready orderly.indexed shape
      orderly.calm
    obtain ⟨same', changed'⟩ := apart.second_after_first ready ready' orderly.indexed shape
      orderly.calm
    have indexed {start : Store} (request : Request) (good : start.tables.Indexed) :
        (request.run start).2.store.tables.Indexed := (Engine.ofStore start).run_indexed _ _ good
    have rows := ChangedAlike.commute apart.trees (Task.trees_stand orderly.indexed)
      (Task.trees_stand orderly.indexed) changed changed'
    exact ⟨same, same', rows.eq (indexed second (indexed first orderly.indexed))
      (indexed first (indexed second orderly.indexed))⟩

def Engine.without (engine : Engine) (item : Item) : Engine :=
  { engine with store := { engine.store with tables := engine.store.tables.removeWhole item } }

namespace Engine

variable (engine : Engine) (item : Item)

theorem without_drawn : (engine.without item).drawn = engine.drawn := rfl

theorem without_tables :
    (engine.without item).store.tables = engine.store.tables.removeWhole item := rfl

variable {engine item} {levels : Nat}

theorem without_orderly (calm : engine.store.Calm) (sound : engine.store.tables.Sound levels)
    (stands : engine.store.tables.HasItem item)
    (childless : engine.store.tables.hasChildren item = false) :
    (engine.without item).store.Orderly where
  calm := ⟨calm.gates, calm.faults, calm.usable⟩
  indexed := (sound.indexed.removeMemberships _).removeItem _
  wellFormed := by
    have shape := sound.shape.removeItem_childless sound.indexed stands childless
    exact ⟨levels, ((sound.indexed.removeMemberships _).removeItem _).wellFormed shape⟩

end Engine

namespace Sample

theorem orderly : engine.store.Orderly where
  calm := calm
  indexed := indexed
  wellFormed := by
    obtain ⟨levels, sound⟩ := reached_any.sound
    exact ⟨levels, sound.indexed.wellFormed sound.shape⟩

theorem second_stands : engine.store.tables.HasItem secondFolder := by
  unfold HasItem
  decide +kernel

def pruned : Engine := engine.without secondFolder

theorem pruned_drawn : engine.drawn = pruned.drawn := (without_drawn engine secondFolder).symm

theorem pruned_orderly : pruned.store.Orderly := by
  obtain ⟨levels, sound⟩ := reached_any.sound
  have childless : engine.store.tables.hasChildren secondFolder = false := by decide +kernel
  exact without_orderly calm sound second_stands childless

/-- The folders are trees of their own. -/
theorem folders_apart : firstFolder ≠ secondFolder.path.top := by
  intro same
  have top : secondFolder.path.top = .root (id 102) := Path.top_root (id 102)
  have same_id : id 100 = id 102 := by
    rw [← Path.id_root (id 100), ← Path.id_root (id 102), ← top, ← same]
    rfl
  exact id_ne (by omega) (by omega) (by omega) same_id

theorem first_found : engine.store.tables.items[id 100]? = some first := by decide +kernel

def copyTask : Task := .copyItem (id 100) none

theorem copy_trees : copyTask.trees engine.store.tables = {firstFolder} := by
  rw [Task.trees_of_item rfl rfl first_found]
  exact congrArg _ (Path.top_root (id 100))

theorem copy_agrees : copyTask.AgreeOn engine.store.tables pruned.store.tables := by
  unfold pruned
  rw [without_tables]
  have kept : id 100 ≠ secondFolder.id := id_ne (by omega) (by omega) (by omega)
  have rows : engine.store.tables.SameIn (copyTask.trees engine.store.tables)
      (engine.store.tables.removeWhole secondFolder) := by
    refine .removeWhole indexed second_stands ?_
    rw [copy_trees]
    exact folders_apart.symm
  refine ⟨fun other named => ?_, fun _ named => absurd named List.not_mem_nil, rows⟩
  obtain rfl : other = id 100 := List.mem_singleton.mp named
  rw [removeWhole_items, if_neg kept]

theorem pruned_fresh :
    Fresh (sceneOf owner).ids engine.drawn copying.2.drawn pruned.store.tables := by
  unfold pruned
  rw [without_tables]
  exact fresh.removeWhole secondFolder

def request (base : Nat) (task : Task) : Request :=
  ⟨{ sceneOf owner with ids := fun drawn => id (base + drawn) }, task⟩

theorem request_ready {base count : Nat} {task : Task}
    (drawn : ((request base task).run engine.store).2.drawn = count) (least : 107 ≤ base)
    (most : base + count ≤ 111) : (request base task).Ready engine.store where
  bare := rfl
  fresh := by
    rw [drawn]
    exact ⟨fun n _ below => (unused (base + n) (by omega) (by omega)).1,
      fun n _ below => (unused (base + n) (by omega) (by omega)).2,
      fun m n _ less below => id_ne (by omega) (by omega) (by omega)⟩

def copyRequest : Request := request 107 copyTask

def newRequest : Request :=
  request 110 (.createItem ((NewItem.ofType "third" .document).under (id 102)))

theorem copy_drawn : (copyRequest.run engine.store).2.drawn = 3 := by decide +kernel

theorem new_drawn : (newRequest.run engine.store).2.drawn = 1 := by decide +kernel

theorem copy_ready : copyRequest.Ready engine.store :=
  request_ready copy_drawn (by omega) (by omega)

theorem new_ready : newRequest.Ready engine.store :=
  request_ready new_drawn (by omega) (by omega)

theorem apart : Request.Apart engine.store copyRequest newRequest where
  trees := by
    have others : newRequest.task.trees engine.store.tables = {secondFolder.path.top} :=
      Task.trees_of_item rfl rfl second_stands
    have named : copyRequest.task.trees engine.store.tables = {firstFolder} := copy_trees
    rw [named, others]
    rintro tree rfl
    exact folders_apart
  draws := by
    rintro _ ⟨m, ⟨_, below⟩, rfl⟩ ⟨n, ⟨_, below'⟩, same⟩
    have least : m < 3 := copy_drawn ▸ below
    have least' : n < 1 := new_drawn ▸ below'
    exact id_ne (by omega) (by omega) (by omega) same.symm
  unnamed := by
    rintro _ ⟨m, ⟨_, below⟩, rfl⟩ named
    have least : m < 3 := copy_drawn ▸ below
    exact id_ne (m := 107 + m) (by omega) (by omega) (by omega) (List.mem_singleton.mp named)
  unnamed' := by
    rintro _ ⟨n, ⟨_, below⟩, rfl⟩ named
    have least : n < 1 := new_drawn ▸ below
    exact id_ne (m := 110 + n) (by omega) (by omega) (by omega) (List.mem_singleton.mp named)

end Sample

/-- The first folder is copied to the top level alike whether the second one is there or not, and
before or after a document is made in the second one. -/
theorem sample_tasks_keep_to_their_trees :
    Sample.engine.store.Orderly ∧ Sample.pruned.store.Orderly ∧
      (Sample.sceneOf Sample.owner).hooks.pre = [] ∧ Sample.engine.drawn = Sample.pruned.drawn ∧
      Sample.copyTask.AgreeOn Sample.engine.store.tables Sample.pruned.store.tables ∧
      Fresh (Sample.sceneOf Sample.owner).ids Sample.engine.drawn Sample.copying.2.drawn
        Sample.engine.store.tables ∧
      Fresh (Sample.sceneOf Sample.owner).ids Sample.engine.drawn Sample.copying.2.drawn
        Sample.pruned.store.tables ∧
      Sample.copying.1 = (Sample.pruned.run (Sample.sceneOf Sample.owner) Sample.copyTask).1 ∧
      ChangedAlike (Sample.copyTask.trees Sample.engine.store.tables)
        Sample.engine.store.tables Sample.copying.2.store.tables Sample.pruned.store.tables
        (Sample.pruned.run (Sample.sceneOf Sample.owner) Sample.copyTask).2.store.tables ∧
      Sample.copyRequest.Ready Sample.engine.store ∧ Sample.newRequest.Ready Sample.engine.store ∧
      Request.Apart Sample.engine.store Sample.copyRequest Sample.newRequest ∧
      (Sample.newRequest.run (Sample.copyRequest.run Sample.engine.store).2.store).2.store.tables =
        (Sample.copyRequest.run (Sample.newRequest.run Sample.engine.store).2.store).2.store.tables
    := by
  obtain ⟨alike, commute⟩ := tasks_keep_to_their_trees
  obtain ⟨same, changed⟩ := alike Sample.engine Sample.pruned (Sample.sceneOf Sample.owner)
    Sample.copyTask Sample.orderly Sample.pruned_orderly rfl Sample.pruned_drawn Sample.copy_agrees
    Sample.fresh Sample.pruned_fresh
  obtain ⟨_, _, tables⟩ := commute Sample.engine.store Sample.copyRequest Sample.newRequest
    Sample.orderly Sample.copy_ready Sample.new_ready Sample.apart
  exact ⟨Sample.orderly, Sample.pruned_orderly, rfl, Sample.pruned_drawn, Sample.copy_agrees,
    Sample.fresh, Sample.pruned_fresh, same, changed, Sample.copy_ready, Sample.new_ready,
    Sample.apart, tables⟩

end SharedTree
