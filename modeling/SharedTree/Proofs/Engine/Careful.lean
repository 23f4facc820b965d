import SharedTree.Proofs.Effect.Orderly
import SharedTree.Proofs.Engine.Events
/-!
Hooks that write and do not break the tree. A store that is in order stays so through a task whose
hooks leave the rows in order and heed what the task has read before them (`run_orderly`): every
commit, of the task or of one of its subtasks, leaves the rows in order, in either mode. That hooks
keep the rows in order is not enough (`sample_order_lost`): a task does not look again after them.
-/
namespace SharedTree

open SharedTree.Tables SharedTree.Action

variable {scene : Scene} {plan : List SubTask} {before after tables start : Tables}

theorem SubTask.act_orderly (keep : scene.hooks.KeepOrder) (heed : scene.hooks.Heed plan)
    (orderly : before.Orderly) {subtask : SubTask} (plain : subtask.kind ≠ .copyItem)
    {output : TaskOutput} (turns : (subtask.act scene).Turns before output after) :
    after.Orderly := by
  cases subtask with
  | deleteItem id => exact deleteItemRow_orderly keep heed orderly turns
  | copyItem source path top => exact absurd rfl plain
  | updateMembership id permission =>
      obtain ⟨first, work, done, leads, rfl, gives, rfl⟩ := turns
      obtain ⟨row, _, asked, changed⟩ := (gives_bind _ _ _).mp gives
      obtain ⟨ok, rfl⟩ := (gives_demand _ _).mp asked
      exact changePermission_orderly keep heed orderly (orderly.indexed.hasRow (getMembership_ok ok))
        ⟨first, work, done, leads, rfl, changed, rfl⟩
  | deleteMembership id =>
      obtain ⟨first, work, done, leads, rfl, gives, rfl⟩ := turns
      obtain ⟨row, _, asked, removed⟩ := (gives_bind _ _ _).mp gives
      obtain ⟨_, rfl⟩ := (gives_demand _ _).mp asked
      exact removeMembership_orderly keep heed orderly ⟨first, work, done, leads, rfl, removed, rfl⟩

theorem Task.act_orderly (keep : scene.hooks.KeepOrder) (heed : scene.hooks.Heed plan)
    (orderly : before.Orderly) (task : Task) {output : TaskOutput}
    (turns : (task.act scene).Turns before (.done output) after) : after.Orderly := by
  have at_once {action : Action TaskOutput} (act : task.act scene = do return .done (← action))
      (effect : ∀ output, action.Turns before output after → after.Orderly) : after.Orderly := by
    rw [act] at turns
    obtain ⟨output, _, turns⟩ := turns.of_done
    exact effect output turns
  have never {action : Action (List SubTask)}
      (act : task.act scene = do return .delegated (← action)) : after.Orderly := by
    rw [act] at turns
    obtain ⟨_, impossible, _⟩ := turns.of_delegated
    cases impossible
  cases task with
  | createItem new => exact at_once rfl fun _ => createItem_orderly keep heed orderly
  | updateItem id patch => exact at_once rfl fun _ => updateItem_orderly keep heed orderly
  | deleteItem id => exact never rfl
  | moveItem id under => exact at_once rfl fun _ => moveItem_orderly keep heed orderly
  | copyItem id under => exact never rfl
  | createMembership item account permission =>
      exact at_once rfl fun _ => createMembership_orderly keep heed orderly
  | updateMembership id permission =>
      obtain ⟨first, work, done, leads, rfl, gives, rfl⟩ := turns
      obtain ⟨row, found, _, chosen⟩ := updateMembership_chosen orderly.indexed gives
      cases chosen with
      | unchanged _ kept => exact kept ▸ orderly
      | changing _ _ _ changed =>
          exact changePermission_orderly keep heed orderly (orderly.indexed.hasRow found)
            ⟨first, work, done, leads, rfl, changed, rfl⟩
  | deleteMembership id purgeBelow =>
      obtain ⟨first, work, done, leads, rfl, gives, rfl⟩ := turns
      obtain ⟨row, _, _, withdrawn⟩ := deleteMembership_chosen gives
      cases withdrawn with
      | alone _ removed =>
          exact removeMembership_orderly keep heed orderly
            ⟨first, work, done, leads, rfl, removed, rfl⟩

/-- How far a plan is that was made on some rows: it makes no copies, it is to begin with the top of
a copy, or it is in the middle of one. -/
inductive InOrder (scene : Scene) (plan : List SubTask) (start : Tables) :
    List SubTask → Tables → Prop where
  | plain {rest : List SubTask} {tables : Tables} : tables.Orderly →
      (∀ subtask ∈ rest, subtask.kind ≠ .copyItem) → InOrder scene plan start rest tables
  | top {under : Option Id} {item : Item} {folder : Option Item} {new : Id} {more : List SubTask} :
      start.Orderly → start.HasItem item → MayHold scene start under folder →
      (∀ subtask ∈ .copyItem item.id (pathWithin folder new) true :: more, subtask ∈ plan) →
      Laid [(item.id, pathWithin folder new)] (start.shallowestFirst item) more →
      InOrder scene plan start (.copyItem item.id (pathWithin folder new) true :: more) start
  | copying {rest : List SubTask} {tables : Tables} : start.Orderly →
      CopyingInOrder plan start rest tables → InOrder scene plan start rest tables

theorem InOrder.orderly {rest : List SubTask} (in_order : InOrder scene plan start rest tables) :
    tables.Orderly := by
  cases in_order with
  | plain orderly _ => exact orderly
  | top orderly _ _ _ => exact orderly
  | copying _ copying => exact copying.orderly

theorem InOrder.turn (keep : scene.hooks.KeepOrder) (heed : scene.hooks.Heed plan)
    {subtask : SubTask} {rest : List SubTask} {output : TaskOutput}
    (in_order : InOrder scene plan start (subtask :: rest) before)
    (turns : (subtask.act scene).Turns before output after) :
    InOrder scene plan start rest after := by
  cases in_order with
  | plain orderly kinds =>
      exact .plain
        (SubTask.act_orderly keep heed orderly (kinds subtask List.mem_cons_self) turns)
        fun other inside => kinds other (List.mem_cons_of_mem subtask inside)
  | top orderly stands holds planned laid =>
      exact .copying orderly (.of_top keep heed orderly stands holds planned laid turns)
  | copying orderly copying =>
      exact .copying orderly (copying.turn keep heed orderly subtask rest output before after turns)

/-- Every plan begins in order, on the rows that it was made on. -/
theorem Task.act_in_order (orderly : before.Orderly) (task : Task) {subtasks : List SubTask}
    (turns : (task.act scene).Turns before (.delegated subtasks) after) :
    InOrder scene subtasks before subtasks after := by
  have same : after = before := by
    obtain ⟨_, work, done, _, rfl, gives, rfl⟩ := turns
    exact task.act_plans scene work subtasks done gives
  subst same
  have never {action : Action TaskOutput} (act : task.act scene = do return .done (← action)) :
      InOrder scene subtasks after subtasks after := by
    rw [act] at turns
    obtain ⟨_, impossible, _⟩ := turns.of_done
    cases impossible
  cases task with
  | createItem new => exact never rfl
  | updateItem id patch => exact never rfl
  | moveItem id under => exact never rfl
  | createMembership item account permission => exact never rfl
  | deleteItem id =>
      obtain ⟨_, planned, _, work, done, _, rfl, gives, same⟩ := turns.of_delegated
      obtain ⟨item, _, _, _, rfl, _⟩ := planDelete_gives gives
      cases planned
      refine .plain orderly fun subtask inside => ?_
      obtain ⟨row, _, rfl⟩ := List.mem_map.mp inside
      simp [SubTask.kind]
  | copyItem id under =>
      obtain ⟨_, planned, _, work, done, _, rfl, gives, same⟩ := turns.of_delegated
      obtain ⟨item, folder, new, more, found, _, holds, _, rfl, laid, _⟩ := planCopy_gives gives
      cases planned
      exact .top orderly (orderly.indexed.hasItem found) holds (fun _ inside => inside) laid
  | updateMembership id permission =>
      obtain ⟨_, work, done, _, rfl, gives, same⟩ := turns
      obtain ⟨row, _, _, chosen⟩ := updateMembership_chosen orderly.indexed gives
      refine .plain orderly fun subtask inside => ?_
      cases chosen with
      | redundant =>
          cases List.mem_singleton.mp inside
          simp [SubTask.kind]
      | planned =>
          rcases List.mem_append.mp inside with below | self
          · obtain ⟨row, _, rfl⟩ := List.mem_map.mp below
            simp [SubTask.kind]
          · cases List.mem_singleton.mp self
            simp [SubTask.kind]
  | deleteMembership id purgeBelow =>
      obtain ⟨_, work, done, _, rfl, gives, same⟩ := turns
      obtain ⟨row, _, _, withdrawn⟩ := deleteMembership_chosen gives
      generalize plan : TaskStep.delegated subtasks = step at withdrawn
      cases withdrawn with
      | alone => cases plan
      | planned =>
          cases plan
          refine .plain orderly fun subtask inside => ?_
          obtain ⟨row, _, rfl⟩ := List.mem_map.mp inside
          simp [SubTask.kind]

/-- The commits of a plan, each on rows in order. -/
theorem Committed.orderly (keep : scene.hooks.KeepOrder) (heed : scene.hooks.Heed plan)
    {done : List (SubTask × TaskOutput)} {left : List SubTask}
    (committed : Committed scene before done after)
    (in_order : InOrder scene plan start (done.map Prod.fst ++ left) before) :
    ∃ commits, Commit.Parts scene before commits after ∧
      commits.map (fun commit => (commit.kind, commit.output)) =
        done.map (fun ran => (ran.1.kind, ran.2)) ∧
      (∀ commit ∈ commits, commit.before.Orderly ∧ commit.after.Orderly) ∧ after.Orderly := by
  induction committed with
  | none tables => exact ⟨[], .none tables, rfl, by simp, in_order.orderly⟩
  | @next before middle after subtask output rest turns _ ih =>
      have next := in_order.turn keep heed turns
      obtain ⟨commits, parts, same, orderly, ended⟩ := ih next
      refine ⟨⟨subtask.kind, output, before, middle⟩ :: commits, .next subtask output turns parts,
        by simp [same], ?_, ended⟩
      intro commit inside
      rcases List.mem_cons.mp inside with rfl | inside
      · exact ⟨in_order.orderly, next.orderly⟩
      · exact orderly commit inside

/-- Hooks that leave the rows in order and heed the task cannot break the tree: every commit of a
run leaves the rows in order, and so does the run. -/
theorem run_orderly (engine : Engine) (scene : Scene) (task : Task)
    (orderly : engine.store.tables.Orderly) (keep : scene.hooks.KeepOrder)
    (heed : scene.hooks.Heed (engine.plan scene task)) :
    (engine.run scene task).2.store.tables.Orderly ∧
      ∃ commits, Commit.Chain scene task engine.store.tables commits
          (engine.run scene task).2.store.tables ∧
        commits.map (fun commit => (commit.kind, commit.output)) =
          reported (engine.run scene task).1 ∧
        ∀ commit ∈ commits, commit.before.Orderly ∧ commit.after.Orderly := by
  rcases ran : engine.transact scene (fun cause _ => cause) (task.act scene) with
    ⟨cause | output | subtasks, middle⟩
  · rw [Engine.run_refused ran,
      Engine.transact_error scene orderly.indexed (task.act_built scene).logged ran]
    exact ⟨orderly, [], .parts (.none _), rfl, by simp⟩
  · have turns := Engine.transact_ok scene orderly.indexed ran
    have ordered := task.act_orderly keep heed orderly turns
    rw [Engine.run_done ran]
    refine ⟨ordered, _, .whole output turns, rfl, fun commit inside => ?_⟩
    cases List.mem_singleton.mp inside
    exact ⟨orderly, ordered⟩
  · -- The plan that the run goes by is the one that the hooks heed.
    obtain ⟨planning, gives, _⟩ := Engine.transact_gives scene ran
    rw [Engine.plan_of_gives gives] at heed
    have turns := Engine.transact_ok scene orderly.indexed ran
    have same : middle.store.tables = engine.store.tables := by
      obtain ⟨_, _, _, _, before, planned, after⟩ := turns
      rw [← after, task.act_plans scene _ _ _ planned, before]
    have in_order := task.act_in_order orderly turns
    obtain ⟨cascade, done, left, told, split, committed, _, completed⟩ :=
      Engine.run_delegated (same ▸ orderly.indexed) ran
    rw [same] at committed in_order
    rw [split] at in_order heed
    obtain ⟨commits, parts, outputs, each, ordered⟩ := committed.orderly keep heed in_order
    exact ⟨ordered, commits, .parts parts,
      by rw [outputs, told, reported, completed, numbered_outputs], each⟩

/-! Hooks on the sample: one marks the folder that an item is made in, one does away with an empty
folder while another is copied, and one puts a late document into a folder that is being deleted. -/

namespace Sample

theorem rows_orderly : engine.store.tables.Orderly := by
  obtain ⟨levels, sound⟩ := reached_any.sound
  exact sound.shape.orderly sound.indexed

def mark (call : HookCall) : HookProgram :=
  match call.payload with
  | .item made => .look fun tables =>
      match made.path.parent?.bind tables.itemAt? with
      | some folder => .write (.updateItem { folder with name := "marked" }) fun _ => .done
      | none => .done
  | _ => .done

theorem mark_renames {call : HookCall} {ids : Nat → Id} {work after : Work}
    (indexed : work.tables.Indexed) (ran : (mark call).run ids work = (none, after)) :
    after = work ∨ ∃ folder, work.tables.HasItem folder ∧
      after.tables = work.tables.putItem { folder with name := "marked" } := by
  unfold mark at ran
  split at ran
  · rename_i made _
    simp only [HookProgram.run] at ran
    cases above : made.path.parent?.bind work.transaction.tables.itemAt? with
    | none =>
        rw [above] at ran
        cases ran
        exact Or.inl rfl
    | some folder =>
        rw [above] at ran
        rcases HookProgram.run_lastWrite ran with ⟨found, wrote⟩ | same
        · obtain ⟨path, _, carried⟩ := Option.bind_eq_some_iff.mp above
          obtain ⟨stands, _⟩ := (indexed.itemAt_eq_some path folder).mp carried
          exact Or.inr ⟨folder, stands, (gives_updateItem wrote).2.2⟩
        · exact Or.inl same
  · cases ran
    exact Or.inl rfl

def shelved : Item := { secondFolder with type := .document }

def shelve (_ : HookCall) : HookProgram :=
  .look fun tables =>
    if tables.items[secondFolder.id]? = some secondFolder ∧
        tables.hasChildren secondFolder = false then
      .write (.updateItem shelved) fun _ => .done
    else .done

theorem shelve_shelves (call : HookCall) {ids : Nat → Id} {work after : Work}
    (ran : (shelve call).run ids work = (none, after)) :
    after = work ∨ work.tables.HasItem secondFolder ∧
      work.tables.hasChildren secondFolder = false ∧
      after.tables = work.tables.putItem shelved := by
  simp only [shelve, HookProgram.run] at ran
  split at ran
  · rename_i empty
    rcases HookProgram.run_lastWrite ran with ⟨found, wrote⟩ | same
    · exact Or.inr ⟨empty.1, empty.2, (gives_updateItem wrote).2.2⟩
    · exact Or.inl same
  · cases ran
    exact Or.inl rfl

def late (folder : Item) : Item :=
  .make (id 200) (folder.path.child (id 200)) "late" .document .null owner default

def refill (call : HookCall) : HookProgram :=
  match call.payload with
  | .item folder => .look fun tables =>
      if tables.items[folder.id]? = some folder ∧ folder.isFolder = true then
        .write (.insertItem (late folder)) fun _ => .done
      else .done
  | _ => .done

def marking : Scene := { sceneOf owner with hooks := { pre := [(.createItem, mark)] } }

def shelving : Scene := { sceneOf owner with hooks := { pre := [(.copyItem, shelve)] } }

def refilling : Scene := { sceneOf owner with hooks := { pre := [(.deleteItem, refill)] } }

theorem marking_keepOrder : marking.hooks.KeepOrder := by
  rintro hook (_ | ⟨_, ⟨⟩⟩) call ids work after orderly ran
  rcases mark_renames orderly.indexed ran with rfl | ⟨folder, stands, put⟩
  · exact orderly
  · rw [put]
    exact orderly.putItem_same stands rfl rfl rfl

theorem marking_heed (plan : List SubTask) : marking.hooks.Heed plan := by
  rintro hook (_ | ⟨_, ⟨⟩⟩) call ids work after orderly ran
  rcases mark_renames orderly.indexed ran with rfl | ⟨folder, stands, put⟩
  · exact .refl _ _ _ _
  · have same : ({ folder with name := "marked" } : Item).id = folder.id := rfl
    rw [put]
    exact ⟨fun row found _ => putItem_same_later stands same rfl rfl found,
      fun row _ listed => absurd listed (HookPayload.not_listed (Or.inl rfl))⟩

theorem shelving_keepOrder : shelving.hooks.KeepOrder := by
  rintro hook (_ | ⟨_, ⟨⟩⟩) call ids work after orderly ran
  rcases shelve_shelves call ran with rfl | ⟨stands, childless, put⟩
  · exact orderly
  · rw [put]
    exact orderly.putItem_childless stands childless rfl rfl

def copies : List SubTask :=
  [.copyItem (id 100) (.root (id 107)) true,
    .copyItem (id 104) ((Path.root (id 107)).child (id 108)) false]

theorem copies_spare_second {row : Item} (own_id : row.path.id = row.id)
    (receives : Receives copies row) : row.id ≠ id 102 := by
  obtain ⟨-, ⟨source, path, top, inside, above⟩ | ⟨place, top, inside, _⟩⟩ := receives
  · rcases List.mem_pair.mp inside with same | same <;> cases same
    · cases (Path.parent_root _).symm.trans above
    · have here := Option.some.inj ((Path.parent_child _ _).symm.trans above)
      rw [← own_id, ← here, Path.id_root]
      exact id_ne (by decide) (by decide) (by decide)
  · rcases List.mem_pair.mp inside with same | same
    · rw [(SubTask.copyItem.inj same).1]
      exact id_ne (by decide) (by decide) (by decide)
    · rw [(SubTask.copyItem.inj same).1]
      exact id_ne (by decide) (by decide) (by decide)

theorem shelving_heed : shelving.hooks.Heed copies := by
  rintro hook (_ | ⟨_, ⟨⟩⟩) call ids work after orderly ran
  rcases shelve_shelves call ran with rfl | ⟨_, _, put⟩
  · exact .refl _ _ _ _
  · rw [put]
    constructor
    case relied =>
      intro row found relied
      have kept := copies_spare_second (orderly.own_id row found)
        (HookPayload.receives_of_relied relied)
      exact ⟨row, (putItem_hasItem _ _ _).mpr (Or.inr ⟨kept, found⟩), rfl, rfl, rfl⟩
    case listed =>
      intro row _ listed
      exact absurd listed (HookPayload.not_listed (Or.inr rfl))

theorem refilling_keepOrder : refilling.hooks.KeepOrder := by
  rintro hook (_ | ⟨_, ⟨⟩⟩) call ids work after orderly ran
  change (refill call).run ids work = (none, after) at ran
  unfold refill at ran
  split at ran
  · rename_i folder _
    simp only [HookProgram.run] at ran
    split at ran
    · rename_i standing
      rcases HookProgram.run_lastWrite ran with ⟨found, wrote⟩ | rfl
      · obtain ⟨unused, free, put⟩ := gives_insertItem wrote
        rw [put]
        refine orderly.putItem_new unused free (Path.id_child _ _) fun parent above => ?_
        cases (Path.parent_child _ _).symm.trans above
        exact ⟨folder, standing.1, rfl, standing.2⟩
      · exact orderly
    · cases ran
      exact orderly
  · cases ran
    exact orderly

def marked : Except Error Cascade × Engine :=
  engine.run marking (.createItem ((NewItem.ofType "more" .document).under (Sample.id 100)))

def copied : Except Error Cascade × Engine := engine.run shelving (.copyItem (Sample.id 100) none)

def refilled : Except Error Cascade × Engine := engine.run refilling (.deleteItem (Sample.id 102))

end Sample

theorem sample_run_orderly :
    Sample.engine.store.tables.Orderly ∧
    (Sample.marking.hooks.KeepOrder ∧ (∀ plan, Sample.marking.hooks.Heed plan) ∧
      Sample.marked.2.store.tables.items[Sample.id 100]?.map Item.name = some "marked" ∧
      Sample.marked.2.store.tables.items[Sample.id 107]?.bind Item.parentId? =
        some (Sample.id 100) ∧
      Sample.marked.2.store.tables.Orderly) ∧
    Sample.shelving.hooks.KeepOrder ∧
      Sample.engine.plan Sample.shelving (.copyItem (Sample.id 100) none) = Sample.copies ∧
      Sample.shelving.hooks.Heed Sample.copies ∧
      Sample.copied.2.store.tables.items[Sample.id 102]? = some Sample.shelved ∧
      Sample.copied.2.store.tables.items[Sample.id 108]?.bind Item.parentId? =
        some (Sample.id 107) ∧
      Sample.copied.2.store.tables.Orderly := by
  have planned : Sample.engine.plan Sample.shelving (.copyItem (Sample.id 100) none) =
      Sample.copies := by decide +kernel
  refine ⟨Sample.rows_orderly, ⟨Sample.marking_keepOrder, Sample.marking_heed, ?_, ?_, ?_⟩,
    Sample.shelving_keepOrder, planned, Sample.shelving_heed, ?_, ?_, ?_⟩
  · decide +kernel
  · decide +kernel
  · exact (run_orderly Sample.engine Sample.marking _ Sample.rows_orderly
      Sample.marking_keepOrder (Sample.marking_heed _)).1
  · decide +kernel
  · decide +kernel
  · exact (run_orderly Sample.engine Sample.shelving _ Sample.rows_orderly
      Sample.shelving_keepOrder (planned ▸ Sample.shelving_heed)).1

/-- A hook that leaves every tree a tree, and a deletion that it makes lose the order: the folder
goes, and the document that was put into it stays. -/
theorem sample_order_lost :
    Sample.engine.store.tables.Orderly ∧ Sample.refilling.hooks.KeepOrder ∧
      Sample.refilled.1.toOption.map Cascade.failure = some none ∧
      Sample.refilled.2.store.tables.items[Sample.id 200]? =
        some (Sample.late Sample.secondFolder) ∧
      ¬ Sample.refilled.2.store.tables.Orderly := by
  have stays : Sample.refilled.2.store.tables.items[Sample.id 200]? =
      some (Sample.late Sample.secondFolder) := by decide +kernel
  have gone : Sample.refilled.2.store.tables.itemPaths[Sample.secondFolder.path]? = none := by
    decide +kernel
  refine ⟨Sample.rows_orderly, Sample.refilling_keepOrder, by decide +kernel, stays, ?_⟩
  intro orderly
  obtain ⟨folder, stands, place, _⟩ := orderly.in_folder (Sample.late Sample.secondFolder) _ stays
    (Path.parent_child _ _)
  have entry := (orderly.indexed.item_path _ _).mpr ⟨folder, stands, place⟩
  cases gone.symm.trans entry

end SharedTree
