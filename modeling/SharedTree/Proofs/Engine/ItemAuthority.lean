import SharedTree.Engine.Requests
import SharedTree.Proofs.Effect.Touched
import SharedTree.Proofs.Engine.Access
/-!
Changes of items need authority. Whatever becomes of a task, its actor administered every item that
went away or elsewhere, could write every item that changed and every folder that something was put
into, and could read every item that was copied; and requests show it only items that it can read
(`items_need_authority`).
-/
namespace SharedTree

open SharedTree.Tables SharedTree.Action

variable {levels : Nat} {scene : Scene} {before after : Tables} {actor : Id}

structure ItemAuthority (actor : Id) (task : Task) (before : Tables)
    (result : Except Error Cascade) (after : Tables) : Prop where
  displaced : ∀ (id : Id) (old : Item), before.items[id]? = some old →
    (∀ new, after.items[id]? = some new → new.path ≠ old.path) →
    before.standing actor id = Permission.admin
  edited : ∀ (id : Id) (old new : Item), before.items[id]? = some old →
    after.items[id]? = some new → new.name ≠ old.name ∨ new.extra ≠ old.extra →
    (Permission.write : WithBot Permission) ≤ before.standing actor id
  placed : ∀ (id : Id) (new : Item), before.items[id]? = none → after.items[id]? = some new →
    ∀ (parent : Id) (folder : Item), new.parentId? = some parent →
    before.items[parent]? = some folder →
    folder.isFolder = true ∧ (Permission.write : WithBot Permission) ≤ before.standing actor parent
  /-- Every copy that is reported. -/
  copied : ∀ cascade, result = .ok cascade → ∀ told ∈ cascade.completed, told.kind = .copyItem →
    ∃ source made, told.output = .copied source made ∧ made.SameContent source ∧
      before.items[source.id]? = some source ∧
      (Permission.read : WithBot Permission) ≤ before.standing actor source.id
  /-- Every copy that is left in the rows is reported. -/
  reported : task.kind = .copyItem → ∀ (id : Id) (new : Item), before.items[id]? = none →
    after.items[id]? = some new → ∃ cascade, result = .ok cascade ∧
      ∃ told ∈ cascade.completed, told.kind = .copyItem ∧ ∃ source, told.output = .copied source new

def Tables.ShowsTo (tables : Tables) (actor : Id) (item : Item) : Prop :=
  tables.items[item.id]? = some item ∧
    (Permission.read : WithBot Permission) ≤ tables.standing actor item.id

theorem Tables.Sound.le_standing (sound : before.Sound levels) {item : Item}
    (stands : before.HasItem item) {level : Permission}
    (grants : before.Grants actor item.path level) :
    (level : WithBot Permission) ≤ before.standing actor item.id := by
  rw [standing_of_item stands, sound.indexed.le_held_iff sound.graded]
  exact grants

/-- What a change touched, with what is reported of copies. -/
theorem Touched.authority {task : Task} {result : Except Error Cascade}
    (touched : Touched actor before after) (sound : before.Sound levels) (indexed : after.Indexed)
    (copied : ∀ cascade, result = .ok cascade → ∀ told ∈ cascade.completed,
      told.kind = .copyItem → ∃ source made, told.output = .copied source made ∧
        made.SameContent source ∧ before.HasItem source ∧ before.Grants actor source.path .read)
    (reported : task.kind = .copyItem → ∀ new, after.HasItem new → before.items[new.id]? = none →
      ∃ cascade, result = .ok cascade ∧ ∃ told ∈ cascade.completed,
        told.kind = .copyItem ∧ ∃ source, told.output = .copied source new) :
    ItemAuthority actor task before result after := by
  constructor
  case displaced =>
    intro id old found gone
    rw [standing_admin_iff sound found]
    refine touched.displaced old (sound.indexed.hasItem found) fun new stands ids => gone new ?_
    rw [← sound.indexed.item_id id old found, ← ids]
    exact stands
  case edited =>
    intro id old new found found' changed
    obtain rfl := sound.indexed.item_id id old found
    exact sound.le_standing found (touched.edited old new found (indexed.hasItem found')
      (indexed.item_id _ new found') changed)
  case placed =>
    intro id new unused found parent folder known found'
    obtain rfl := indexed.item_id id new found
    obtain rfl := sound.indexed.item_id parent folder found'
    obtain ⟨kind, grants⟩ := touched.placed new found unused folder found' known
    exact ⟨kind, sound.le_standing found' grants⟩
  case copied =>
    intro cascade ended told inside kind
    obtain ⟨source, made, same, content, stood, grants⟩ := copied cascade ended told inside kind
    exact ⟨source, made, same, content, stood, sound.le_standing stood grants⟩
  case reported =>
    intro kind id new unused found
    obtain rfl := indexed.item_id id new found
    exact reported kind new found unused

/-- A task that is no copy reports none. -/
theorem Outcome.uncopied {task : Task} {cascade : Cascade} (kind : task.kind ≠ .copyItem)
    (plans : ∀ subtasks rows, (task.act scene).Turns before (.delegated subtasks) rows →
      ∀ subtask ∈ subtasks, subtask.kind ≠ .copyItem)
    (outcome : Outcome scene task before (.ok cascade) after) :
    ∀ told ∈ cascade.completed, told.kind ≠ .copyItem := by
  cases outcome with
  | done output turns =>
      intro told inside
      cases List.mem_singleton.mp inside
      exact kind
  | split _ done left turns _ _ report =>
      intro told inside
      rw [report] at inside
      obtain ⟨ran, listed, same, _⟩ := mem_numbered inside
      rw [same]
      exact plans _ _ turns ran.1 (List.mem_append_left _ (List.mem_map_of_mem listed))

theorem no_plan {action : Action TaskOutput} {subtasks : List SubTask} {rows : Tables}
    (turns : Action.Turns (do return TaskStep.done (← action)) before (.delegated subtasks) rows) :
    ∀ subtask ∈ subtasks, subtask.kind ≠ .copyItem := by
  obtain ⟨_, impossible, _⟩ := turns.of_done
  cases impossible

theorem SparesItems.plan {subtasks : List SubTask}
    (spares : SparesItems before (.delegated subtasks) after) :
    ∀ subtask ∈ subtasks, subtask.kind ≠ .copyItem := by
  intro subtask inside
  rcases spares.2 subtasks rfl subtask inside with kind | kind <;> simp [kind]

theorem copyItem_authority {id : Id} {under : Option Id} {cascade : Cascade}
    (quiet : scene.hooks.WriteNothing) (sound : before.Sound levels) (sound' : after.Sound levels)
    (outcome : Outcome scene (.copyItem id under) before (.ok cascade) after) :
    ItemAuthority scene.actor (.copyItem id under) before (.ok cascade) after := by
  obtain ⟨item, folder, new, done, grants, _, report, committed, planned, _⟩ :=
    copyItem_done quiet sound outcome
  obtain ⟨tells, _, added⟩ := committed.copies quiet (fun _ stood => stood) planned
  refine (copyItem_touched quiet sound sound' outcome).authority sound sound'.indexed ?_ ?_
  · rintro _ ⟨⟩ told inside _
    rw [report] at inside
    obtain ⟨ran, listed, _, same⟩ := mem_numbered inside
    obtain ⟨source, made, output, content, stood, spans, _⟩ := tells ran listed
    exact ⟨source, made, same.trans output, content, stood, grants_of_covers spans grants⟩
  · intro _ made stands unused
    rcases added made stands with stood | ⟨ran, listed, source, output⟩
    · cases stood.symm.trans unused
    · obtain ⟨told, inside, kind, same⟩ := numbered_tells 0 listed
      obtain ⟨_, _, _, copies, _⟩ := planned ran listed
      refine ⟨cascade, rfl, told, report ▸ inside, ?_, source, same.trans output⟩
      rw [kind, copies]
      rfl

/-- Every task, whatever becomes of it. -/
theorem Outcome.authority {task : Task} {result : Except Error Cascade}
    (quiet : scene.hooks.WriteNothing) (limit : scene.settings.maxTreeLevels ≤ levels)
    (sound : before.Sound levels) (sound' : after.Sound levels)
    (outcome : Outcome scene task before result after) :
    ItemAuthority scene.actor task before result after := by
  cases result with
  | error cause =>
      cases outcome
      refine (Touched.of_items rfl).authority sound sound.indexed (by simp) ?_
      intro _ new stands unused
      cases stands.symm.trans unused
  | ok cascade =>
      -- All but a copy are alike: what they touch, and that they report no copies.
      have settled (touched : Touched scene.actor before after) (kind : task.kind ≠ .copyItem)
          (plans : ∀ subtasks rows, (task.act scene).Turns before (.delegated subtasks) rows →
            ∀ subtask ∈ subtasks, subtask.kind ≠ .copyItem) :
          ItemAuthority scene.actor task before (.ok cascade) after := by
        refine touched.authority sound sound'.indexed ?_ fun copy => absurd copy kind
        rintro _ ⟨⟩ told inside copy
        exact absurd copy (outcome.uncopied kind plans told inside)
      cases task with
      | createItem new =>
          obtain ⟨_, turns⟩ := outcome.turns_of_done rfl
          exact settled (createItem_touched quiet sound turns) nofun fun _ _ => no_plan
      | updateItem id patch =>
          obtain ⟨_, turns⟩ := outcome.turns_of_done rfl
          exact settled (updateItem_touched quiet sound turns) nofun fun _ _ => no_plan
      | deleteItem id =>
          refine settled (deleteItem_touched quiet sound outcome) nofun ?_
          intro subtasks rows turns subtask inside
          obtain ⟨_, same, _, _, _, _, _, gives, _⟩ := turns.of_delegated
          cases same
          obtain ⟨_, _, _, _, rfl, _⟩ := planDelete_gives gives
          obtain ⟨row, _, rfl⟩ := List.mem_map.mp inside
          exact nofun
      | moveItem id under =>
          obtain ⟨_, turns⟩ := outcome.turns_of_done rfl
          obtain ⟨_, _, _, _, _, effect⟩ := moveItem_effect quiet limit sound turns
          exact settled effect.touched nofun fun _ _ => no_plan
      | copyItem id under => exact copyItem_authority quiet sound sound' outcome
      | createMembership item account permission =>
          obtain ⟨_, turns⟩ := outcome.turns_of_done rfl
          exact settled (.of_items (createMembership_spares quiet turns)) nofun fun _ _ => no_plan
      | updateMembership id permission =>
          have spares (step : TaskStep) (rows : Tables)
              (turns : ((Task.updateMembership id permission).act scene).Turns before step rows) :
              SparesItems before step rows := updateMembership_spares quiet sound.indexed turns
          exact settled (.of_items (outcome.spares quiet spares)) nofun
            fun _ _ turns => (spares _ _ turns).plan
      | deleteMembership id purgeBelow =>
          have spares (step : TaskStep) (rows : Tables)
              (turns : ((Task.deleteMembership id purgeBelow).act scene).Turns before step rows) :
              SparesItems before step rows := deleteMembership_spares quiet turns
          exact settled (.of_items (outcome.spares quiet spares)) nofun
            fun _ _ turns => (spares _ _ turns).plan

/-! Requests that only read. -/

theorem Engine.read_ok {Answer : Type} {engine : Engine} {now : Instant}
    {question : Tables → Except Error Answer} {answer : Answer}
    (answered : (engine.read now question).1 = .ok answer) :
    question engine.store.tables = .ok answer := by
  unfold read at answered
  split at answered
  · cases answered
  · rename_i transaction begun began
    obtain ⟨rfl, _⟩ := Store.tryBegin_ok began
    split at answered
    · cases answered
    · rename_i other asked
      split at answered
      · cases answered
        exact asked
      · cases answered

namespace Tables

variable {id : Id}

theorem Sound.shows (sound : before.Sound levels) {item : Item}
    (ok : before.getItemFor actor .read id = .ok item) : before.ShowsTo actor item := by
  obtain ⟨found, allowed⟩ := getItemFor_ok ok
  have stands := sound.indexed.hasItem found
  exact ⟨stands, sound.le_standing stands
    ((sound.indexed.hasPermission_iff sound.graded).mp allowed)⟩

theorem Sound.shows_descendants (sound : before.Sound levels) {items : List Item}
    (ok : before.descendantsFor actor id = .ok items) : ∀ item ∈ items, before.ShowsTo actor item := by
  intro item inside
  cases got : before.getItemFor actor .read id with
  | error cause => simp [descendantsFor, got, bind, Except.bind] at ok
  | ok root =>
      obtain rfl : before.descendants root = items := by
        simpa [descendantsFor, got, bind, Except.bind, pure, Except.pure] using ok
      obtain ⟨found, allowed⟩ := getItemFor_ok got
      have stands := sound.indexed.hasItem found
      obtain ⟨stands', lower⟩ := (sound.indexed.mem_descendants root item stands).mp inside
      have grants := (sound.indexed.hasPermission_iff sound.graded).mp allowed
      exact ⟨stands', sound.le_standing stands'
        (grants_of_covers (Path.covers_of_isAncestorOf lower) grants)⟩

/-- The children that are shown are among the items below. -/
theorem childrenFor_ok {items : List Item} (ok : before.childrenFor actor id = .ok items) :
    ∃ below, before.descendantsFor actor id = .ok below ∧ ∀ item ∈ items, item ∈ below := by
  cases got : before.getItemFor actor .read id with
  | error cause => simp [childrenFor, got, bind, Except.bind] at ok
  | ok root =>
      obtain rfl : before.children root = items := by
        simpa [childrenFor, got, bind, Except.bind, pure, Except.pure] using ok
      refine ⟨before.descendants root, by simp [descendantsFor, got, bind, Except.bind, pure,
        Except.pure], fun item inside => ?_⟩
      rw [children, List.mem_mergeSort] at inside
      exact List.mem_of_mem_filter inside

end Tables

/-- Whatever becomes of a task, its actor had authority over all items that it touched; and whoever
asks for items is shown only such as it can read. -/
theorem items_need_authority {allowed : Settings → Prop} {engine : Engine}
    (reached : Reached allowed engine.store.tables) (quiet : scene.hooks.WriteNothing) :
    (∀ task, ItemAuthority scene.actor task engine.store.tables (engine.run scene task).1
      (engine.run scene task).2.store.tables) ∧
    ∀ (actor id : Id) (now : Instant),
      (∀ item, (engine.read now fun tables => tables.getItemFor actor .read id).1 = .ok item →
        engine.store.tables.ShowsTo actor item) ∧
      (∀ items, (engine.read now fun tables => tables.childrenFor actor id).1 = .ok items →
        ∀ item ∈ items, engine.store.tables.ShowsTo actor item) ∧
      (∀ items, (engine.read now fun tables => tables.descendantsFor actor id).1 = .ok items →
        ∀ item ∈ items, engine.store.tables.ShowsTo actor item) := by
  obtain ⟨levels, sound⟩ := reached.sound
  constructor
  · intro task
    have sound := sound.mono (Nat.le_max_left levels scene.settings.maxTreeLevels)
    obtain ⟨sound', _⟩ := engine.run_effect task quiet (Nat.le_max_right _ _) sound
    exact (engine.run_outcome scene task sound.indexed).authority quiet (Nat.le_max_right _ _)
      sound sound'
  · intro actor id now
    refine ⟨fun item answered => sound.shows (Engine.read_ok answered),
      fun items answered item inside => ?_,
      fun items answered => sound.shows_descendants (Engine.read_ok answered)⟩
    obtain ⟨below, listed, among⟩ := childrenFor_ok (Engine.read_ok answered)
    exact sound.shows_descendants listed item (among item inside)

/-- The guest, who can write the document, copies it to the top level. -/
theorem sample_items_need_authority :
    (Sample.engine.run (Sample.sceneOf Sample.guest) (.copyItem Sample.document.id none)).1.isOk =
      true ∧
    ItemAuthority Sample.guest (.copyItem Sample.document.id none) Sample.engine.store.tables
      (Sample.engine.run (Sample.sceneOf Sample.guest) (.copyItem Sample.document.id none)).1
      (Sample.engine.run (Sample.sceneOf Sample.guest)
        (.copyItem Sample.document.id none)).2.store.tables ∧
    Sample.engine.store.tables.ShowsTo Sample.guest Sample.document := by
  obtain ⟨tasks, requests⟩ := items_need_authority
    Sample.reached_any (Sample.quiet Sample.guest)
  have shown : (Sample.engine.read default fun tables =>
      tables.getItemFor Sample.guest .read Sample.document.id).1 = .ok Sample.document := by
    decide +kernel
  exact ⟨by decide +kernel, tasks _,
    (requests Sample.guest Sample.document.id default).1 Sample.document shown⟩

end SharedTree
