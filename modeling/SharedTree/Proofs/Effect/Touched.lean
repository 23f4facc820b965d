import SharedTree.Proofs.Effect.Copies
import SharedTree.Proofs.Effect.Deletions
import SharedTree.Proofs.Effect.Memberships
import SharedTree.Proofs.Effect.Moves
/-!
What the tasks do to items, told by what their actor was granted before (`Touched`). Only the root
of an operation and its destination are looked at by the tasks; the rows in between are covered
because a grant reaches everything below it.
-/
namespace SharedTree

open SharedTree.Tables SharedTree.Action

variable {levels : Nat} {scene : Scene} {before after : Tables} {actor : Id}

/-- Items went away or to other places only where the actor was an administrator, and changed only
where it could write; a new item in a folder that was there before is in one where it could write. -/
structure Touched (actor : Id) (before after : Tables) : Prop where
  displaced : ∀ old, before.HasItem old →
    (∀ new, after.HasItem new → new.id = old.id → new.path ≠ old.path) →
    before.Grants actor old.path .admin
  edited : ∀ old new, before.HasItem old → after.HasItem new → new.id = old.id →
    new.name ≠ old.name ∨ new.extra ≠ old.extra → before.Grants actor old.path .write
  placed : ∀ new, after.HasItem new → before.items[new.id]? = none → ∀ folder,
    before.HasItem folder → new.parentId? = some folder.id →
    folder.isFolder = true ∧ before.Grants actor folder.path .write

/-- All items stay as they were, and new ones are where the actor may put them. -/
theorem Touched.of_kept (kept : ∀ item, before.HasItem item → after.HasItem item)
    (placed : ∀ new, after.HasItem new → before.items[new.id]? = none → ∀ folder,
      before.HasItem folder → new.parentId? = some folder.id →
      folder.isFolder = true ∧ before.Grants actor folder.path .write) :
    Touched actor before after where
  displaced old stands gone := (gone old (kept old stands) rfl rfl).elim
  edited := by
    intro old new stands stands' ids changed
    cases stands'.same (kept old stands) ids
    simp at changed
  placed := placed

theorem Touched.of_items (same : after.items = before.items) : Touched actor before after := by
  refine .of_kept (fun item stands => by rwa [HasItem, same]) ?_
  intro new stands unused
  rw [HasItem, same, unused] at stands
  cases stands

/-- A folder that may hold an item is one where the actor can write. -/
theorem Action.MayHold.writable {under : Option Id} {folder : Option Item}
    (holds : MayHold scene before under folder) (sound : before.Sound levels) {id : Id} {row : Item}
    (stands : before.HasItem row) (known : (pathWithin folder id).parentId? = some row.id) :
    row.isFolder = true ∧ before.Grants scene.actor row.path .write := by
  rw [holds.parentId sound.indexed sound.shape.own_id] at known
  subst known
  obtain ⟨other, _, found, kind, allowed⟩ := holds
  cases stands.symm.trans found
  exact ⟨kind, (sound.indexed.hasPermission_iff sound.graded).mp allowed⟩

theorem createItem_touched {new : NewItem} {output : TaskOutput} (quiet : scene.hooks.WriteNothing)
    (sound : before.Sound levels) (turns : (createItem scene new).Turns before output after) :
    Touched scene.actor before after := by
  obtain ⟨_, work, done, _, rfl, gives, rfl⟩ := turns
  obtain ⟨id, folder, holds, _, unused, _, _, granted⟩ := createItem_gives quiet gives
  refine .of_kept ?_ ?_
  · intro item stands
    rw [granted.hasItem, putItem_hasItem]
    exact Or.inr ⟨stands.id_ne unused, stands⟩
  · intro made stands unknown row stands' known
    rw [granted.hasItem, putItem_hasItem] at stands
    rcases stands with rfl | ⟨_, stood⟩
    · exact holds.writable sound stands' known
    · cases stood.symm.trans unknown

theorem updateItem_touched {id : Id} {patch : ItemPatch} {output : TaskOutput}
    (quiet : scene.hooks.WriteNothing) (sound : before.Sound levels)
    (turns : (updateItem scene id patch).Turns before output after) :
    Touched scene.actor before after := by
  obtain ⟨_, work, done, _, rfl, gives, rfl⟩ := turns
  obtain ⟨row, found, allowed, _, put⟩ := updateItem_gives quiet gives
  have stands := sound.indexed.hasItem found
  have items (item : Item) : done.tables.HasItem item ↔
      item = patch.apply scene.now row ∨ item.id ≠ row.id ∧ work.tables.HasItem item := by
    rw [put]
    exact putItem_hasItem _ _ _
  constructor
  case displaced =>
    intro old stood gone
    by_cases same : old.id = row.id
    · cases stood.same stands same
      exact (gone _ ((items _).mpr (Or.inl rfl)) rfl rfl).elim
    · exact (gone old ((items old).mpr (Or.inr ⟨same, stood⟩)) rfl rfl).elim
  case edited =>
    intro old new stood stands' ids changed
    rcases (items new).mp stands' with rfl | ⟨_, stood'⟩
    · cases stands.same stood ids
      exact (sound.indexed.hasPermission_iff sound.graded).mp allowed
    · cases stood'.same stood ids
      simp at changed
  case placed =>
    intro new stands' unknown
    rcases (items new).mp stands' with rfl | ⟨_, stood⟩
    · cases stands.symm.trans unknown
    · cases stood.symm.trans unknown

theorem deleteItem_touched {id : Id} {cascade : Cascade} (quiet : scene.hooks.WriteNothing)
    (sound : before.Sound levels)
    (outcome : Outcome scene (.deleteItem id) before (.ok cascade) after) :
    Touched scene.actor before after := by
  obtain ⟨root, left, admin, deleting⟩ := deleteItem_deleting quiet sound outcome
  constructor
  case displaced =>
    intro old stood gone
    by_cases inside : root.path.covers old.path = true
    · exact grants_of_covers inside admin
    · obtain ⟨new, stands, ids, place⟩ := deleting.confined.items old stood inside
      exact absurd place (gone new stands ids)
  case edited =>
    intro old new stood stands ids changed
    cases (deleting.fewer new stands).same stood ids
    simp at changed
  case placed =>
    intro new stands unknown
    cases (deleting.fewer new stands).symm.trans unknown

theorem MoveEffect.touched {item : Item} {new : Path}
    (effect : MoveEffect scene item new before after) : Touched scene.actor before after := by
  constructor
  case displaced =>
    intro old stood gone
    obtain ⟨other, stands, ids, place⟩ := effect.items old stood
    by_cases inside : item.path.covers old.path = true
    · exact grants_of_covers inside effect.admin
    · rw [Path.relocate_outside (Bool.not_eq_true _ ▸ inside)] at place
      exact absurd place (gone other stands ids)
  case edited =>
    intro old other stood stands ids changed
    obtain ⟨row, stood', same, name, extra⟩ := effect.earlier other stands
    cases stood'.same stood (same.trans ids)
    simp [name, extra] at changed
  case placed =>
    intro other stands unknown
    obtain ⟨row, stood, same, _⟩ := effect.earlier other stands
    rw [← same, stood] at unknown
    cases unknown

/-! Copies. -/

def Item.SameContent (made source : Item) : Prop :=
  made.name = source.name ∧ made.type = source.type ∧ made.extra = source.extra

def AtOrBelow (top path : Path) : Prop :=
  path = top ∨ ∃ above, path.parent? = some above ∧ top.covers above = true

def PlansCopy (root top : Path) (start : Tables) (subtask : SubTask) : Prop :=
  ∃ (source : Item) (path : Path) (first : Bool), subtask = .copyItem source.id path first ∧
    start.HasItem source ∧ root.covers source.path = true ∧ AtOrBelow top path

def TellsCopy (root top : Path) (start : Tables) (output : TaskOutput) : Prop :=
  ∃ source made, output = .copied source made ∧ made.SameContent source ∧
    start.HasItem source ∧ root.covers source.path = true ∧ AtOrBelow top made.path

theorem copyItemRow_copied {root top : Path} {start : Tables} {subtask : SubTask}
    {output : TaskOutput} (quiet : scene.hooks.WriteNothing)
    (kept : ∀ item, start.HasItem item → before.HasItem item)
    (planned : PlansCopy root top start subtask)
    (turns : (subtask.act scene).Turns before output after) :
    TellsCopy root top start output ∧ (∀ item, before.HasItem item → after.HasItem item) ∧
      ∀ item, after.HasItem item → before.HasItem item ∨ ∃ source, output = .copied source item := by
  obtain ⟨source, path, first, rfl, stood, inside, place⟩ := planned
  obtain ⟨_, work, done, _, rfl, gives, rfl⟩ := turns
  obtain ⟨row, made, found, rfl, _, unused, _, rfl, put⟩ := copyItemRow_gives quiet gives
  cases (kept source stood).symm.trans found
  have items (item : Item) : done.tables.HasItem item ↔ (work.tables.putItem
      (.make path.id path source.name source.type source.extra scene.actor scene.now)).HasItem
        item := by
    cases first with
    | true =>
        have granted : Administered scene path _ done.tables := put
        exact granted.hasItem item
    | false =>
        have put : done.tables = _ := put
        rw [put]
  refine ⟨⟨source, _, rfl, ⟨rfl, rfl, rfl⟩, stood, inside, place⟩, ?_, ?_⟩
  · intro item stands
    rw [items, putItem_hasItem]
    exact Or.inr ⟨stands.id_ne unused, stands⟩
  · intro item stands
    rw [items, putItem_hasItem] at stands
    rcases stands with rfl | ⟨_, stands⟩
    · exact Or.inr ⟨source, rfl⟩
    · exact Or.inl stands

/-- What subtasks of a copy leave: the items there were, and those that are told of. -/
theorem Committed.copies {root top : Path} {start : Tables} {done : List (SubTask × TaskOutput)}
    (quiet : scene.hooks.WriteNothing) (committed : Committed scene before done after)
    (kept : ∀ item, start.HasItem item → before.HasItem item)
    (planned : ∀ ran ∈ done, PlansCopy root top start ran.1) :
    (∀ ran ∈ done, TellsCopy root top start ran.2) ∧
      (∀ item, before.HasItem item → after.HasItem item) ∧
      ∀ item, after.HasItem item →
        before.HasItem item ∨ ∃ ran ∈ done, ∃ source, ran.2 = .copied source item := by
  induction committed with
  | none => exact ⟨by simp, fun _ => id, fun _ => Or.inl⟩
  | next turns _ ih =>
      obtain ⟨told, stay, added⟩ :=
        copyItemRow_copied quiet kept (planned _ List.mem_cons_self) turns
      obtain ⟨told', stay', added'⟩ := ih (fun item stood => stay item (kept item stood))
        fun ran inside => planned ran (List.mem_cons_of_mem _ inside)
      refine ⟨?_, fun item stands => stay' item (stay item stands), ?_⟩
      · intro ran inside
        rcases List.mem_cons.mp inside with rfl | inside
        · exact told
        · exact told' ran inside
      · intro item stands
        rcases added' item stands with middle | ⟨ran, inside, source, same⟩
        · rcases added item middle with stood | ⟨source, same⟩
          · exact Or.inl stood
          · exact Or.inr ⟨_, List.mem_cons_self, source, same⟩
        · exact Or.inr ⟨ran, List.mem_cons_of_mem _ inside, source, same⟩

/-- How far a copy got: the subtasks that are done copy items of a subtree that the actor can read,
to a place where nothing was. -/
theorem copyItem_done {id : Id} {under : Option Id} {cascade : Cascade}
    (quiet : scene.hooks.WriteNothing) (sound : before.Sound levels)
    (outcome : Outcome scene (.copyItem id under) before (.ok cascade) after) :
    ∃ (item : Item) (folder : Option Item) (new : Id) (done : List (SubTask × TaskOutput)),
      before.Grants scene.actor item.path .read ∧ MayHold scene before under folder ∧
      cascade.completed = numbered 0 done ∧ Committed scene before done after ∧
      (∀ ran ∈ done, PlansCopy item.path (pathWithin folder new) before ran.1) ∧
      (done ≠ [] → ∀ row, before.HasItem row →
        (pathWithin folder new).covers row.path = false) := by
  obtain ⟨_, done, left, turns, committed, report⟩ := outcome.committed_of_delegated rfl
  obtain ⟨_, work, planned, _, rfl, gives, rfl⟩ := turns
  obtain ⟨item, folder, new, more, found, allowed, holds, _, plan, laid, same⟩ :=
    planCopy_gives gives
  rw [same] at committed
  have stands := sound.indexed.hasItem found
  refine ⟨item, folder, new, done, (sound.indexed.hasPermission_iff sound.graded).mp allowed,
    holds, report, committed, ?_, ?_⟩
  · intro ran inside
    have member : ran.1 ∈ SubTask.copyItem item.id (pathWithin folder new) true :: more := by
      rw [← plan]
      exact List.mem_append_left _ (List.mem_map_of_mem inside)
    rcases List.mem_cons.mp member with first | member
    · exact ⟨item, _, true, first, stands, Path.covers_refl _, Or.inl rfl⟩
    · have start : ∀ copy ∈ [(item.id, pathWithin folder new)],
          (pathWithin folder new).covers copy.2 = true := by simp [Path.covers_refl]
      obtain ⟨row, listed, above, last, spans, planned⟩ := laid.all_below start ran.1 member
      rw [sound.indexed.mem_shallowestFirst item row stands] at listed
      exact ⟨row, _, false, planned, listed.1, Path.covers_of_isAncestorOf listed.2,
        Or.inr ⟨above, Path.parent_child above last, spans⟩⟩
  · intro some_done row stood
    cases committed with
    | none => exact absurd rfl some_done
    | next turns _ =>
        cases plan
        obtain ⟨_, work', _, _, rows, gives', _⟩ := turns
        obtain ⟨_, _, _, _, _, _, free, _⟩ := copyItemRow_gives quiet gives'
        rw [rows] at free
        refine sound.shape.nothing_below (fun other stood' place => ?_) stood
        have entry := (sound.indexed.item_path _ other.id).mpr ⟨other, stood', place⟩
        rw [free] at entry
        cases entry

theorem copyItem_touched {id : Id} {under : Option Id} {cascade : Cascade}
    (quiet : scene.hooks.WriteNothing) (sound : before.Sound levels) (sound' : after.Sound levels)
    (outcome : Outcome scene (.copyItem id under) before (.ok cascade) after) :
    Touched scene.actor before after := by
  obtain ⟨item, folder, new, done, _, holds, _, committed, planned, vacant⟩ :=
    copyItem_done quiet sound outcome
  obtain ⟨told, kept, added⟩ := committed.copies quiet (fun _ stood => stood) planned
  refine .of_kept kept ?_
  intro made stands unknown row stood known
  rcases added made stands with stood' | ⟨ran, inside, source, same⟩
  · cases stood'.symm.trans unknown
  obtain ⟨_, _, same', _, _, _, place⟩ := told ran inside
  rw [same] at same'
  cases same'
  rcases place with place | ⟨above, upper, spans⟩
  · rw [Item.parentId?, place] at known
    exact holds.writable sound stood known
  · -- The parent is itself a copy, so no item there was has its identifier.
    obtain ⟨parent, stands', here, _⟩ := sound'.shape.in_folder made above stands upper
    have ids : parent.id = row.id := by
      rw [Item.parentId?, Path.parentId?, upper, Option.map_some, Option.some.injEq] at known
      rw [← known, ← here, sound'.shape.own_id parent stands']
    cases stands'.same (kept row stood) ids
    have apart := vacant (List.ne_nil_of_mem inside) row stood
    rw [here, spans] at apart
    cases apart

/-! Tasks on memberships. -/

def SparesItems (before : Tables) (step : TaskStep) (after : Tables) : Prop :=
  after.items = before.items ∧ ∀ subtasks, step = .delegated subtasks → ∀ subtask ∈ subtasks,
    subtask.kind = .updateMembership ∨ subtask.kind = .deleteMembership

theorem SparesItems.of_done (output : TaskOutput) (same : after.items = before.items) :
    SparesItems before (.done output) after := by
  refine ⟨same, ?_⟩
  rintro _ ⟨⟩

theorem SparesItems.of_delegated {subtasks : List SubTask} (kinds : ∀ subtask ∈ subtasks,
    subtask.kind = .updateMembership ∨ subtask.kind = .deleteMembership) :
    SparesItems before (.delegated subtasks) before := by
  refine ⟨rfl, ?_⟩
  rintro _ ⟨⟩
  exact kinds

theorem createMembership_spares {id account : Id} {permission : Permission} {output : TaskOutput}
    (quiet : scene.hooks.WriteNothing)
    (turns : (createMembership scene id account permission).Turns before output after) :
    after.items = before.items := by
  obtain ⟨_, work, done, _, rfl, gives, rfl⟩ := turns
  obtain ⟨_, _, _, given_rows⟩ := createMembership_gives quiet gives
  generalize done.tables = rows at given_rows
  cases given_rows with
  | unchanged => rfl
  | removed row => exact removeMembership_items _ _
  | written => rw [putMembership_items, removeMemberships_items]

theorem updateMembership_spares {id : Id} {permission : Permission} {step : TaskStep}
    (quiet : scene.hooks.WriteNothing) (indexed : before.Indexed)
    (turns : (updateMembership scene id permission).Turns before step after) :
    SparesItems before step after := by
  obtain ⟨_, work, done, _, rfl, gives, rfl⟩ := turns
  obtain ⟨_, _, _, changed⟩ := updateMembership_gives quiet indexed gives
  generalize done.tables = rows at changed
  cases changed with
  | unchanged => exact .of_done _ rfl
  | written => exact .of_done _ (putMembership_items _ _)
  | redundant => exact .of_delegated (by simp [SubTask.kind])
  | planned =>
      refine .of_delegated fun subtask planned => ?_
      rcases List.mem_append.mp planned with removal | change
      · obtain ⟨row, _, rfl⟩ := List.mem_map.mp removal
        exact Or.inr rfl
      · cases List.mem_singleton.mp change
        exact Or.inl rfl

theorem deleteMembership_spares {id : Id} {purgeBelow : Bool} {step : TaskStep}
    (quiet : scene.hooks.WriteNothing)
    (turns : (deleteMembership scene id purgeBelow).Turns before step after) :
    SparesItems before step after := by
  obtain ⟨_, work, done, _, rfl, gives, rfl⟩ := turns
  obtain ⟨_, _, _, removed⟩ := deleteMembership_gives quiet gives
  generalize done.tables = rows at removed
  cases removed with
  | done => exact .of_done _ (removeMembership_items _ _)
  | planned =>
      refine .of_delegated fun subtask planned => ?_
      obtain ⟨row, _, rfl⟩ := List.mem_map.mp planned
      exact Or.inr rfl

/-- A subtask on a membership leaves the items as they are. -/
theorem subtask_spares {subtask : SubTask} {output : TaskOutput} (quiet : scene.hooks.WriteNothing)
    (kind : subtask.kind = .updateMembership ∨ subtask.kind = .deleteMembership)
    (turns : (subtask.act scene).Turns before output after) : after.items = before.items := by
  cases subtask with
  | updateMembership id permission =>
      obtain ⟨_, work, done, _, rfl, gives, rfl⟩ := turns
      obtain ⟨_, _, _, put⟩ := updateMembershipRow_gives quiet gives
      rw [put, putMembership_items]
  | deleteMembership id =>
      rw [deleteMembershipRow_effect quiet turns, removeMembership_items]
  | deleteItem id => simp [SubTask.kind] at kind
  | copyItem source path top => simp [SubTask.kind] at kind

theorem Committed.spares {done : List (SubTask × TaskOutput)} (quiet : scene.hooks.WriteNothing)
    (committed : Committed scene before done after)
    (kinds : ∀ ran ∈ done, ran.1.kind = .updateMembership ∨ ran.1.kind = .deleteMembership) :
    after.items = before.items := by
  induction committed with
  | none => rfl
  | next turns _ ih =>
      rw [ih fun ran inside => kinds ran (List.mem_cons_of_mem _ inside),
        subtask_spares quiet (kinds _ List.mem_cons_self) turns]

/-- Wherever a task on memberships stops, the items are as they were. -/
theorem Outcome.spares {task : Task} {cascade : Cascade} (quiet : scene.hooks.WriteNothing)
    (spares : ∀ step rows, (task.act scene).Turns before step rows → SparesItems before step rows)
    (outcome : Outcome scene task before (.ok cascade) after) : after.items = before.items := by
  cases outcome with
  | done output turns => exact (spares _ _ turns).1
  | split _ done left turns committed _ _ =>
      obtain ⟨same, kinds⟩ := spares _ _ turns
      rw [← same]
      exact committed.spares quiet fun ran inside =>
        kinds _ rfl ran.1 (List.mem_append_left _ (List.mem_map_of_mem inside))

end SharedTree
