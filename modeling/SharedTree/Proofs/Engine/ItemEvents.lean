import Mathlib.Data.Finset.Erase
import Mathlib.Data.Finset.Insert
import SharedTree.Proofs.Effect.Touched
import SharedTree.Proofs.Engine.Events
import SharedTree.Proofs.Engine.Failure
/-!
The events and the items. Who starts from the items there are and follows the events, adding what is
created or copied and removing what is deleted, has the items there are at any later time, and every
event fits in with what came before it (`events_mirror_items`). Each commit is looked at on its own:
its events lead from the items before it to the items after it (`Follows`).
-/
namespace SharedTree

namespace Tables

variable {before after tables : Tables}

def itemIds (tables : Tables) : Finset Id := tables.items.keys.toFinset

theorem mem_itemIds (tables : Tables) (id : Id) :
    id ∈ tables.itemIds ↔ ∃ item, tables.items[id]? = some item := by
  rw [itemIds, List.mem_toFinset, Std.ExtTreeMap.mem_keys,
    Std.ExtTreeMap.mem_iff_isSome_getElem?, Option.isSome_iff_exists]

theorem itemIds_putItem (tables : Tables) (item : Item) :
    (tables.putItem item).itemIds = insert item.id tables.itemIds := by
  ext id
  rw [mem_itemIds, putItem_items, Finset.mem_insert, mem_itemIds]
  split
  · rename_i here
    simp [here]
  · rename_i elsewhere
    simp [elsewhere]

/-- Other data for an item leave the identifiers as they are. -/
theorem itemIds_putItem_same {old : Item} (stands : tables.HasItem old) (item : Item)
    (same : item.id = old.id) : (tables.putItem item).itemIds = tables.itemIds := by
  have known : item.id ∈ tables.itemIds := same ▸ (mem_itemIds _ _).mpr ⟨old, stands⟩
  rw [itemIds_putItem, Finset.insert_eq_of_mem known]

theorem itemIds_removeItem (tables : Tables) (id : Id) :
    (tables.removeItem id).itemIds = tables.itemIds.erase id := by
  ext other
  rw [mem_itemIds, removeItem_items, Finset.mem_erase, mem_itemIds]
  split
  · rename_i here
    simp [here]
  · rename_i elsewhere
    simp [elsewhere]

theorem itemIds_congr (same : after.items = before.items) : after.itemIds = before.itemIds := by
  rw [itemIds, same, itemIds]

theorem Relocated.itemIds {old new : Path} (relocated : Relocated old new before after) :
    after.itemIds = before.itemIds := by
  ext id
  rw [mem_itemIds, mem_itemIds, relocated.items]
  simp

def OwnIds (tables : Tables) : Prop := ∀ item, tables.HasItem item → item.path.id = item.id

theorem OwnIds.of_same (own : before.OwnIds) (same : after.items = before.items) :
    after.OwnIds := by
  intro item stands
  exact own item (by rwa [HasItem, same] at stands)

theorem OwnIds.putItem (own : tables.OwnIds) {item : Item} (self : item.path.id = item.id) :
    (tables.putItem item).OwnIds := by
  intro other stands
  rcases (putItem_hasItem tables item other).mp stands with rfl | ⟨_, stands⟩
  · exact self
  · exact own other stands

theorem OwnIds.removeItem (own : tables.OwnIds) (id : Id) : (tables.removeItem id).OwnIds :=
  fun item stands => own item ((removeItem_hasItem tables id item).mp stands).2

theorem OwnIds.relocated {old new : Path} (own : before.OwnIds) (same : new.id = old.id)
    (relocated : Relocated old new before after) : after.OwnIds := by
  intro item stands
  obtain ⟨row, stood, rfl⟩ := (relocated.hasItem_iff item).mp stands
  exact (Path.relocate_id same).trans (own row stood)

def Above (tables : Tables) (item : Item) : Option Id → Prop
  | none => item.path.parent? = none
  | some parent => ∃ above, tables.items[parent]? = some above ∧
      item.path.parent? = some above.path

/-- An item on a path within a folder has that folder above it. -/
theorem above_pathWithin (own : tables.OwnIds) {folder : Option Item} {item : Item} {id : Id}
    (stands : ∀ row, folder = some row → tables.HasItem row)
    (place : item.path = Action.pathWithin folder id) : tables.Above item item.parentId? := by
  rw [Item.parentId?, Path.parentId?]
  cases folder with
  | none =>
      have top : item.path.parent? = none := place ▸ Path.parent_root id
      rw [top]
      exact top
  | some row =>
      have inside : item.path.parent? = some row.path := place ▸ Path.parent_child row.path id
      have found := stands row rfl
      rw [inside, Option.map_some, own row found]
      exact ⟨row, found, inside⟩

end Tables

namespace Event

def follow (ids : Finset Id) : Event → Finset Id
  | itemCreated id _ => insert id ids
  | itemCopied _ copy => insert copy ids
  | itemDeleted id => ids.erase id
  | _ => ids

def Fits (ids : Finset Id) : Event → Prop
  | itemCreated id _ => id ∉ ids
  | itemCopied _ copy => copy ∉ ids
  | itemDeleted id => id ∈ ids
  | _ => True

def NamesParent (tables : Tables) : Event → Prop
  | itemCreated id parent => ∃ item, tables.items[id]? = some item ∧ tables.Above item parent
  | itemMoved id parent => ∃ item, tables.items[id]? = some item ∧ tables.Above item parent
  | _ => True

inductive Leads : Finset Id → List Event → Finset Id → Prop where
  | none (ids : Finset Id) : Leads ids [] ids
  | next {ids last : Finset Id} {event : Event} {rest : List Event} : event.Fits ids →
      Leads (event.follow ids) rest last → Leads ids (event :: rest) last

namespace Leads

variable {ids middle last : Finset Id} {events more : List Event}

theorem append (first : Leads ids events middle) (second : Leads middle more last) :
    Leads ids (events ++ more) last := by
  induction first with
  | none ids => exact second
  | next fits _ ih => exact .next fits (ih second)

theorem followed (leads : Leads ids events last) : events.foldl follow ids = last := by
  induction leads with
  | none ids => rfl
  | next _ _ ih => exact ih

theorem fits (leads : Leads ids events last) {earlier later : List Event} {event : Event}
    (place : events = earlier ++ event :: later) : event.Fits (earlier.foldl follow ids) := by
  induction leads generalizing earlier with
  | none ids => simp at place
  | @next ids last first rest fits _ ih =>
      cases earlier with
      | nil =>
          obtain ⟨rfl, _⟩ := List.cons.inj place
          exact fits
      | cons other front =>
          obtain ⟨rfl, behind⟩ := List.cons.inj place
          exact ih behind

end Leads

def SparesItems : Event → Prop
  | itemUpdated _ | membershipCreated .. | membershipUpdated .. | membershipDeleted .. => True
  | itemCreated .. | itemDeleted _ | itemMoved .. | itemCopied .. => False

theorem leads_of_spared (ids : Finset Id) (events : List Event)
    (spared : ∀ event ∈ events, event.SparesItems) : Leads ids events ids := by
  induction events with
  | nil => exact .none ids
  | cons event rest ih =>
      have first := spared event List.mem_cons_self
      have later := ih fun other inside => spared other (List.mem_cons_of_mem event inside)
      cases event with
      | itemCreated | itemDeleted | itemMoved | itemCopied => exact first.elim
      | itemUpdated | membershipCreated | membershipUpdated | membershipDeleted =>
          exact .next trivial later

theorem SparesItems.namesParent {event : Event} (spares : event.SparesItems) (tables : Tables) :
    event.NamesParent tables := by
  cases event with
  | itemCreated | itemMoved => exact spares.elim
  | _ => trivial

end Event

/-- Events that tell what became of the items: they lead from those before to those after, whose
paths are in order again, and parents are named as they are. -/
structure Follows (before : Tables) (events : List Event) (after : Tables) : Prop where
  leads : Event.Leads before.itemIds events after.itemIds
  own_ids : after.OwnIds
  parents : ∀ event ∈ events, event.NamesParent after

variable {scene : Scene} {before after : Tables}

open Tables SharedTree.Action

theorem Follows.of_same {events : List Event} (own : before.OwnIds)
    (same : after.items = before.items) (spared : ∀ event ∈ events, event.SparesItems) :
    Follows before events after where
  leads := itemIds_congr same ▸ Event.leads_of_spared _ events spared
  own_ids := own.of_same same
  parents event inside := (spared event inside).namesParent after

/-- An item is added under an unused identifier. -/
theorem Follows.of_added {item : Item} {event : Event} (own : before.OwnIds)
    (unused : before.items[item.id]? = none) (self : item.path.id = item.id)
    (same : after.items = (before.putItem item).items)
    (fits : ∀ ids, event.Fits ids ↔ item.id ∉ ids)
    (follow : ∀ ids, event.follow ids = insert item.id ids)
    (named : event.NamesParent after) : Follows before [event] after where
  leads := by
    refine .next ((fits _).mpr fun known => ?_) ?_
    · obtain ⟨other, found⟩ := (mem_itemIds _ _).mp known
      cases unused.symm.trans found
    · rw [follow, itemIds_congr same, itemIds_putItem]
      exact .none _
  own_ids := (own.putItem self).of_same same
  parents other inside := List.mem_singleton.mp inside ▸ named

theorem Action.MayHold.hasItem {under : Option Id} {folder : Option Item} {row : Item}
    (holds : MayHold scene before under folder) (indexed : before.Indexed)
    (known : folder = some row) : before.HasItem row := by
  cases under with
  | none => cases holds.symm.trans known
  | some parent =>
      obtain ⟨other, same, found, _⟩ := holds
      cases same.symm.trans known
      exact indexed.hasItem found

section Acts

variable {output : TaskOutput} (quiet : scene.hooks.WriteNothing) (indexed : before.Indexed)
  (own : before.OwnIds)
include quiet indexed own

theorem createItem_follows {new : NewItem}
    (turns : (createItem scene new).Turns before output after) :
    Follows before (output.events .createItem) after := by
  obtain ⟨_, work, done, _, rfl, gives, rfl⟩ := turns
  obtain ⟨id, folder, holds, _, unused, _, rfl, administered⟩ := createItem_gives quiet gives
  have same := administered.same_items
  have self := pathWithin_id folder id
  refine .of_added own unused self same (fun _ => Iff.rfl) (fun _ => rfl)
    ⟨.make id (pathWithin folder id) new.name new.type new.extra scene.actor scene.now, ?_, ?_⟩
  · rw [same, putItem_items, if_pos rfl]
  · refine above_pathWithin ((own.putItem self).of_same same) (fun row known => ?_) rfl
    have stands := holds.hasItem indexed known
    rw [HasItem, same, putItem_items]
    exact (if_neg (stands.id_ne unused)).trans stands

theorem updateItem_follows {id : Id} {patch : ItemPatch}
    (turns : (updateItem scene id patch).Turns before output after) :
    Follows before (output.events .updateItem) after := by
  obtain ⟨_, work, done, _, rfl, gives, rfl⟩ := turns
  obtain ⟨row, found, _, rfl, put⟩ := updateItem_gives quiet gives
  have stands := indexed.hasItem found
  constructor
  case leads =>
    rw [put, itemIds_putItem_same stands (patch.apply scene.now row) rfl]
    exact Event.leads_of_spared _ [_] (by simp [Event.SparesItems])
  case own_ids => exact put ▸ own.putItem (own row stands)
  case parents =>
    intro event inside
    cases List.mem_singleton.mp inside
    trivial

theorem moveItem_follows {id : Id} {under : Option Id}
    (turns : (moveItem scene id under).Turns before output after) :
    Follows before (output.events .moveItem) after := by
  obtain ⟨_, work, done, _, rfl, gives, rfl⟩ := turns
  obtain ⟨item, folder, placed, kept, may, rfl, relocated, keeps, prune⟩ :=
    moveItem_passes quiet indexed gives
  let touched : Item := { item with updatedAt := scene.now }
  have stands := indexed.hasItem may.found
  have own_id := indexed.item_id id item may.found
  have same : done.tables.items = placed.items := (pruneRedundant_fewer prune).1.trans keeps.items
  have ids : done.tables.itemIds = work.tables.itemIds := by
    rw [itemIds_congr same, relocated.itemIds, itemIds_putItem_same stands touched rfl]
  have self : (pathWithin folder id).id = item.path.id := by
    rw [pathWithin_id, own item stands, own_id]
  have put : (work.tables.putItem touched).OwnIds := own.putItem (own item stands)
  have own' : done.tables.OwnIds := (put.relocated self relocated).of_same same
  have place : (touched.relocate item.path (pathWithin folder id)).path = pathWithin folder id :=
    Path.relocate_self
  have found : done.tables.items[item.id]? =
      some (touched.relocate item.path (pathWithin folder id)) := by
    rw [same, relocated.items, putItem_items, if_pos rfl, Option.map_some]
  constructor
  case leads => exact ids ▸ .next trivial (.none _)
  case own_ids => exact own'
  case parents =>
    intro event inside
    cases List.mem_singleton.mp inside
    refine ⟨_, found, ?_⟩
    have stays (row : Item) (known : folder = some row) : done.tables.HasItem row := by
      -- The folder stays where it is while the subtree moves into it.
      obtain ⟨stood, outside⟩ := may.folder_outside indexed known
      have apart : row.id ≠ item.id := by
        intro equal
        rw [stood.same stands equal, Path.covers_refl] at outside
        cases outside
      rw [HasItem, same, relocated.items, putItem_items, if_neg apart, stood, Option.map_some,
        Item.relocate, Path.relocate_outside outside]
    have above := above_pathWithin own' stays place
    rw [Item.parentId?, place] at above
    exact above

theorem deleteItemRow_follows {id : Id}
    (turns : (deleteItemRow scene id).Turns before output after) :
    Follows before (output.events .deleteItem) after ∧
      ∀ event ∈ output.events .deleteItem, ∀ tables, event.NamesParent tables := by
  obtain ⟨_, work, done, _, rfl, gives, rfl⟩ := turns
  obtain ⟨item, found, _, rfl, removed⟩ := deleteItemRow_gives quiet gives
  have own_id := indexed.item_id id item found
  have events := events_itemDeleted .deleteItem item (work.tables.membershipsUnder item.path)
  have named : ∀ event ∈ (TaskOutput.itemDeleted item
      (work.tables.membershipsUnder item.path)).events .deleteItem,
      ∀ tables, event.NamesParent tables := by
    rw [events]
    intro event inside tables
    rcases List.mem_append.mp inside with rows | last
    · obtain ⟨row, _, rfl⟩ := List.mem_map.mp rows
      trivial
    · cases List.mem_singleton.mp last
      trivial
  have rows : (work.tables.removeMemberships
      ((work.tables.membershipsUnder item.path).map Membership.id)).items = work.tables.items :=
    removeMemberships_items _ _
  refine ⟨⟨?_, ?_, fun event inside => named event inside _⟩, named⟩
  · rw [events, removed, itemIds_removeItem, itemIds_congr rows]
    refine (Event.leads_of_spared _ _ ?_).append (.next ?_ ?_)
    · intro event inside
      obtain ⟨row, _, rfl⟩ := List.mem_map.mp inside
      trivial
    · exact (mem_itemIds _ _).mpr ⟨item, own_id ▸ found⟩
    · rw [Event.follow, own_id]
      exact .none _
  · rw [removed]
    exact (own.of_same rows).removeItem id

omit indexed in
theorem copyItemRow_follows {id : Id} {path : Path} {top : Bool}
    (turns : (copyItemRow scene id path top).Turns before output after) :
    Follows before (output.events .copyItem) after ∧
      ∀ event ∈ output.events .copyItem, ∀ tables, event.NamesParent tables := by
  obtain ⟨_, work, done, _, rfl, gives, rfl⟩ := turns
  obtain ⟨source, made, _, rfl, _, unused, _, rfl, put⟩ := copyItemRow_gives quiet gives
  refine ⟨.of_added own unused rfl ?_ (fun _ => Iff.rfl) (fun _ => rfl) trivial, ?_⟩
  · cases top with
    | true => exact Action.Administered.same_items put
    | false => exact congrArg Tables.items put
  · intro event inside tables
    cases List.mem_singleton.mp inside
    trivial

/-! The tasks on memberships leave the items as they are, and so do their events. -/

omit quiet indexed own in
theorem spared_of_membership (kind : TaskKind)
    (told : output = .unchanged ∨
      ∃ row, output = .membership row ∨ output = .membershipRemoved row) :
    ∀ event ∈ output.events kind, event.SparesItems := by
  intro event inside
  rcases told with rfl | ⟨row, rfl | rfl⟩
  · cases inside
  · simp only [TaskOutput.events, TaskOutput.announced, TaskOutput.event?, List.flatMap_singleton,
      Option.mem_toList] at inside
    split at inside <;> cases inside <;> trivial
  · cases List.mem_singleton.mp inside
    trivial

omit indexed in
theorem createMembership_follows {id account : Id} {permission : Permission}
    (turns : (createMembership scene id account permission).Turns before output after) :
    Follows before (output.events .createMembership) after := by
  have same := createMembership_spares quiet turns
  obtain ⟨_, work, done, _, rfl, gives, rfl⟩ := turns
  obtain ⟨_, _, _, given_rows⟩ := createMembership_gives quiet gives
  refine .of_same own same (spared_of_membership _ ?_)
  generalize done.tables = rows at given_rows
  cases given_rows with
  | unchanged => exact .inl rfl
  | removed row => exact .inr ⟨row, .inr rfl⟩
  | written => exact .inr ⟨_, .inl rfl⟩

theorem updateMembership_follows {id : Id} {permission : Permission}
    (turns : (updateMembership scene id permission).Turns before (.done output) after) :
    Follows before (output.events .updateMembership) after := by
  have same := (updateMembership_spares quiet indexed turns).1
  obtain ⟨_, work, done, _, rfl, gives, rfl⟩ := turns
  obtain ⟨_, _, _, changed⟩ := updateMembership_gives quiet indexed gives
  refine .of_same own same (spared_of_membership _ ?_)
  generalize done.tables = rows at changed
  cases changed with
  | unchanged => exact .inl rfl
  | written => exact .inr ⟨_, .inl rfl⟩

omit indexed in
theorem deleteMembership_follows {id : Id} {purgeBelow : Bool}
    (turns : (deleteMembership scene id purgeBelow).Turns before (.done output) after) :
    Follows before (output.events .deleteMembership) after := by
  have same := (deleteMembership_spares quiet turns).1
  obtain ⟨_, work, done, _, rfl, gives, rfl⟩ := turns
  obtain ⟨_, _, _, removed⟩ := deleteMembership_gives quiet gives
  refine .of_same own same (spared_of_membership _ ?_)
  generalize done.tables = rows at removed
  cases removed
  exact .inr ⟨_, .inr rfl⟩

/-- The events of a task that is done at once tell what became of the items. -/
theorem task_follows {task : Task} (turns : (task.act scene).Turns before (.done output) after) :
    Follows before (output.events task.kind) after := by
  cases task with
  | createItem new =>
      obtain ⟨_, same, turns⟩ := turns.of_done
      cases same
      exact createItem_follows quiet indexed own turns
  | updateItem id patch =>
      obtain ⟨_, same, turns⟩ := turns.of_done
      cases same
      exact updateItem_follows quiet indexed own turns
  | moveItem id under =>
      obtain ⟨_, same, turns⟩ := turns.of_done
      cases same
      exact moveItem_follows quiet indexed own turns
  | createMembership item account permission =>
      obtain ⟨_, same, turns⟩ := turns.of_done
      cases same
      exact createMembership_follows quiet own turns
  | updateMembership id permission => exact updateMembership_follows quiet indexed own turns
  | deleteMembership id purgeBelow => exact deleteMembership_follows quiet own turns
  | deleteItem id =>
      obtain ⟨_, impossible, _⟩ := turns.of_delegated
      cases impossible
  | copyItem id under =>
      obtain ⟨_, impossible, _⟩ := turns.of_delegated
      cases impossible

/-- The events of a subtask do so too, and none of them names a parent. -/
theorem subtask_follows {subtask : SubTask}
    (turns : (subtask.act scene).Turns before output after) :
    Follows before (output.events subtask.kind) after ∧
      ∀ event ∈ output.events subtask.kind, ∀ tables, event.NamesParent tables := by
  cases subtask with
  | deleteItem id => exact deleteItemRow_follows quiet indexed own turns
  | copyItem source path top => exact copyItemRow_follows quiet own turns
  | updateMembership id permission =>
      have same := subtask_spares quiet (.inl rfl) turns
      obtain ⟨_, work, done, _, rfl, gives, rfl⟩ := turns
      obtain ⟨_, _, told, _⟩ := updateMembershipRow_gives quiet gives
      have spared := spared_of_membership .updateMembership (.inr ⟨_, .inl told⟩)
      exact ⟨.of_same own same spared, fun event inside => (spared event inside).namesParent⟩
  | deleteMembership id =>
      have same := subtask_spares quiet (.inr rfl) turns
      obtain ⟨_, work, done, _, rfl, gives, rfl⟩ := turns
      obtain ⟨_, _, told, _⟩ := deleteMembershipRow_gives quiet gives
      have spared := spared_of_membership .deleteMembership (.inr ⟨_, .inr told⟩)
      exact ⟨.of_same own same spared, fun event inside => (spared event inside).namesParent⟩

/-- One after the other the events of subtasks tell what became of the items. -/
theorem Commit.Parts.follows {commits : List Commit}
    (parts : Commit.Parts scene before commits after) :
    Follows before (commits.flatMap Commit.events) after := by
  induction parts with
  | none tables => exact ⟨.none _, own, by simp⟩
  | next subtask output turns _ ih =>
      obtain ⟨first, unnamed⟩ := subtask_follows quiet indexed own turns
      have later := ih (turns.indexed (subtask.act_built scene)).2 first.own_ids
      rw [List.flatMap_cons]
      refine ⟨first.leads.append later.leads, later.own_ids, fun event inside => ?_⟩
      rcases List.mem_append.mp inside with now | then_on
      · exact unnamed event now _
      · exact later.parents event then_on

theorem Commit.Chain.follows {task : Task} {commits : List Commit}
    (chain : Commit.Chain scene task before commits after) :
    Follows before (commits.flatMap Commit.events) after := by
  cases chain with
  | whole output turns =>
      rw [List.flatMap_singleton]
      exact task_follows quiet indexed own turns
  | parts parts => exact parts.follows quiet indexed own

end Acts

/-- A run of a task, with the calls that the store lets through meanwhile and what fails on its
disk. -/
structure Trial where
  scene : Scene
  task : Task
  gates : Gates
  faults : Journal.Faults

namespace Engine

def facing (engine : Engine) (trial : Trial) : Engine :=
  { engine with store := { engine.store with
      gates := trial.gates
      disk := { engine.store.disk with faults := trial.faults } } }

def attempt (engine : Engine) (trial : Trial) : Except Error Cascade × Engine :=
  (engine.facing trial).run trial.scene trial.task

def attemptAll (engine : Engine) (trials : List Trial) : Engine :=
  trials.foldl (fun engine trial => (engine.attempt trial).2) engine

/-- One run, whatever comes of it: what it publishes tells what it made of the items. -/
theorem attempt_follows (engine : Engine) (trial : Trial)
    (quiet : trial.scene.hooks.WriteNothing) (indexed : engine.store.tables.Indexed)
    (own : engine.store.tables.OwnIds) :
    (engine.attempt trial).2.store.tables.Indexed ∧
      ∃ told, (engine.attempt trial).2.events = engine.events ++ told ∧
        Follows engine.store.tables told (engine.attempt trial).2.store.tables := by
  obtain ⟨commits, chain, outputs⟩ :=
    (engine.facing trial).run_commits trial.scene trial.task indexed
  have told := (engine.facing trial).run_events trial.scene trial.task indexed
  rw [← outputs, eventsOf_commits] at told
  exact ⟨chain.indexed indexed, _, told, chain.follows quiet indexed own⟩

/-- Runs of tasks from rows that are in order, whatever is refused and fails meanwhile: the events
published lead from the items there were to the items there are. -/
theorem attemptAll_follows (engine : Engine) (trials : List Trial)
    (quiet : ∀ trial ∈ trials, trial.scene.hooks.WriteNothing)
    (indexed : engine.store.tables.Indexed) (own : engine.store.tables.OwnIds) :
    (engine.attemptAll trials).store.tables.Indexed ∧
      (engine.attemptAll trials).store.tables.OwnIds ∧
      ∃ told, (engine.attemptAll trials).events = engine.events ++ told ∧
        Event.Leads engine.store.tables.itemIds told
          (engine.attemptAll trials).store.tables.itemIds := by
  induction trials generalizing engine with
  | nil => exact ⟨indexed, own, [], (List.append_nil _).symm, .none _⟩
  | cons trial rest ih =>
      obtain ⟨indexed', told, published, follows⟩ :=
        engine.attempt_follows trial (quiet trial List.mem_cons_self) indexed own
      obtain ⟨kept, owned, more, later, leads⟩ := ih (engine.attempt trial).2
        (fun other inside => quiet other (List.mem_cons_of_mem trial inside)) indexed'
        follows.own_ids
      refine ⟨kept, owned, told ++ more, ?_, follows.leads.append leads⟩
      rw [← List.append_assoc, ← published]
      exact later

end Engine

/-- The events and the items agree over any runs of tasks: followed from the items there were, the
events give the items there are; an item that is added was not there before and one that is removed
was; and each run names the parents of the items that it creates or moves as they are when it
publishes that. Of the rows at the start it is asked that the indexes agree with them and that every
item has its own identifier at the end of its path. -/
theorem events_mirror_items (engine : Engine) (trials : List Trial)
    (indexed : engine.store.tables.Indexed) (own : engine.store.tables.OwnIds)
    (quiet : ∀ trial ∈ trials, trial.scene.hooks.WriteNothing) :
    ∃ told, (engine.attemptAll trials).events = engine.events ++ told ∧
      told.foldl Event.follow engine.store.tables.itemIds =
        (engine.attemptAll trials).store.tables.itemIds ∧
      (∀ earlier event later, told = earlier ++ event :: later →
        event.Fits (earlier.foldl Event.follow engine.store.tables.itemIds)) ∧
      ∀ earlier trial later, trials = earlier ++ trial :: later →
        ∃ published, ((engine.attemptAll earlier).attempt trial).2.events =
            (engine.attemptAll earlier).events ++ published ∧
          ∀ event ∈ published,
            event.NamesParent ((engine.attemptAll earlier).attempt trial).2.store.tables := by
  obtain ⟨_, _, told, published, leads⟩ := engine.attemptAll_follows trials quiet indexed own
  refine ⟨told, published, leads.followed, fun _ _ _ place => leads.fits place, ?_⟩
  rintro earlier trial later rfl
  obtain ⟨indexed', own', _⟩ := engine.attemptAll_follows earlier
    (fun other inside => quiet other (List.mem_append_left _ inside)) indexed own
  obtain ⟨_, new, published', follows⟩ := (engine.attemptAll earlier).attempt_follows trial
    (quiet trial (List.mem_append_right _ List.mem_cons_self)) indexed' own'
  exact ⟨new, published', follows.parents⟩

namespace Sample

def trials : List Trial :=
  let trial (task : Task) : Trial := ⟨sceneOf owner, task, {}, {}⟩
  [trial (.moveItem secondFolder.id (some (id 100))),
    { trial (.createItem (.folder "third")) with gates := { commits := some 0 } },
    trial (.copyItem document.id (some secondFolder.id)), trial (.deleteItem document.id)]

theorem ownIds : engine.store.tables.OwnIds := by
  obtain ⟨levels, sound⟩ := reached_any.sound
  exact sound.shape.own_id

end Sample

theorem sample_events_mirror_items :
    (Sample.engine.attemptAll Sample.trials).store.tables.itemIds =
        {Sample.id 100, Sample.secondFolder.id, Sample.id 109} ∧
      ∃ told, (Sample.engine.attemptAll Sample.trials).events = Sample.engine.events ++ told ∧
        told.foldl Event.follow Sample.engine.store.tables.itemIds =
          {Sample.id 100, Sample.secondFolder.id, Sample.id 109} := by
  have ids : (Sample.engine.attemptAll Sample.trials).store.tables.itemIds =
      {Sample.id 100, Sample.secondFolder.id, Sample.id 109} := by
    decide +kernel
  have quiet : ∀ trial ∈ Sample.trials, trial.scene.hooks.WriteNothing := by
    simp [Sample.trials, Sample.quiet]
  obtain ⟨told, published, followed, _⟩ :=
    events_mirror_items Sample.engine Sample.trials Sample.indexed Sample.ownIds quiet
  exact ⟨ids, told, published, followed.trans ids⟩

end SharedTree
