import SharedTree.Proofs.Engine.Reached
import SharedTree.Proofs.Effect.Granting
/-!
What runs of tasks do to access. Whatever becomes of a task, only an administrator of an item
changes what others hold on it, and nobody gains anything on an item that was there
(`run_access_needs_authority`). A move gives an account what it held on the item and what it holds
on the new place, whichever is more (`move_access`). A permission that is given on a path holds
there and below, except where a row in between gives more (`grant_access`).
-/
namespace SharedTree

open Tables

variable {levels : Nat} {scene : Scene} {before after : Tables}

theorem standing_admin_iff (sound : before.Sound levels) {account id : Id} {item : Item}
    (found : before.items[id]? = some item) :
    before.standing account id = Permission.admin ↔ before.Grants account item.path .admin := by
  rw [standing_of_item found, ← sound.indexed.le_held_iff sound.graded]
  constructor
  · exact fun same => same.ge
  · intro most
    refine le_antisymm (le_of_levels fun level _ => ?_) most
    exact WithBot.coe_le_coe.mpr level.le_admin

theorem Tables.Lawful.standing {actor : Id} (lawful : Lawful actor before after)
    (sound : before.Sound levels) (sound' : after.Sound levels) {id : Id} {old new : Item}
    (found : before.items[id]? = some old) (found' : after.items[id]? = some new) :
    (∀ account, account ≠ actor → after.standing account id ≠ before.standing account id →
      before.standing actor id = Permission.admin) ∧
    after.standing actor id ≤ before.standing actor id := by
  -- An administrator may change what others hold, but holds the most itself already.
  by_cases admin : before.standing actor id = Permission.admin
  · refine ⟨fun _ _ _ => admin, ?_⟩
    rw [admin]
    exact le_of_levels fun level _ => WithBot.coe_le_coe.mpr level.le_admin
  · have powerless : ¬ before.Grants actor old.path .admin :=
      fun grants => admin ((standing_admin_iff sound found).mpr grants)
    have ids := (sound'.indexed.item_id id new found').trans
      (sound.indexed.item_id id old found).symm
    obtain ⟨place, others, own⟩ := lawful old new (sound.indexed.hasItem found)
      (sound'.indexed.hasItem found') ids powerless
    simp only [standing_of_item found, standing_of_item found', place]
    constructor
    · intro account other changed
      exact absurd (held_eq sound'.indexed sound'.graded sound.indexed sound.graded
        fun level => others account level other) changed
    · exact held_le sound'.indexed sound'.graded sound.indexed sound.graded own

/-- Whatever becomes of a task: what another account holds on an item that is there before and after
changes only if the actor administered the item, and what the actor holds there does not rise. -/
theorem run_access_needs_authority {allowed : Settings → Prop} {engine : Engine}
    (reached : Reached allowed engine.store.tables) (quiet : scene.hooks.WriteNothing) (task : Task)
    {id : Id} {old new : Item} (found : engine.store.tables.items[id]? = some old)
    (found' : (engine.run scene task).2.store.tables.items[id]? = some new) :
    (∀ account, account ≠ scene.actor →
      (engine.run scene task).2.store.tables.standing account id ≠
        engine.store.tables.standing account id →
      engine.store.tables.standing scene.actor id = Permission.admin) ∧
    (engine.run scene task).2.store.tables.standing scene.actor id ≤
      engine.store.tables.standing scene.actor id := by
  obtain ⟨levels, sound⟩ := reached.sound
  have wider := sound.mono (Nat.le_max_left levels scene.settings.maxTreeLevels)
  obtain ⟨sound', lawful⟩ := engine.run_effect task quiet (Nat.le_max_right _ _) wider
  exact lawful.standing wider sound' found found'

theorem sample_run_access_needs_authority :
    Sample.engine.store.tables.items[Sample.document.id]? = some Sample.document ∧
      (Sample.engine.run (Sample.sceneOf Sample.owner)
        (.updateMembership Sample.lower.id .admin)).2.store.tables.standing Sample.guest
          Sample.document.id ≠
        Sample.engine.store.tables.standing Sample.guest Sample.document.id ∧
      Sample.engine.store.tables.standing Sample.owner Sample.document.id = Permission.admin ∧
      (Sample.engine.run (Sample.sceneOf Sample.owner)
        (.updateMembership Sample.lower.id .admin)).2.store.tables.standing Sample.owner
          Sample.document.id ≤
        Sample.engine.store.tables.standing Sample.owner Sample.document.id := by
  have found : Sample.engine.store.tables.items[Sample.document.id]? = some Sample.document := by
    decide +kernel
  have changed : (Sample.engine.run (Sample.sceneOf Sample.owner)
      (.updateMembership Sample.lower.id .admin)).2.store.tables.standing Sample.guest
        Sample.document.id ≠
      Sample.engine.store.tables.standing Sample.guest Sample.document.id := by
    decide +kernel
  have found' : (Sample.engine.run (Sample.sceneOf Sample.owner)
      (.updateMembership Sample.lower.id .admin)).2.store.tables.items[Sample.document.id]? =
      some Sample.document := by
    decide +kernel
  have law := run_access_needs_authority Sample.reached_any (Sample.quiet Sample.owner)
    (.updateMembership Sample.lower.id .admin) found found'
  exact ⟨found, changed, law.1 Sample.guest (by decide) changed, law.2⟩

/-- What an account holds on the item that another is put under; nothing at the top level. -/
def Tables.standingUnder (tables : Tables) (account : Id) : Option Id → WithBot Permission
  | some id => tables.standing account id
  | none => ⊥

/-- What a place grants is what is held on the folder there. -/
theorem Action.MayHold.grants {under : Option Id} {folder : Option Item} {id account : Id}
    (holds : MayHold scene before under folder) (sound : before.Sound levels) (level : Permission) :
    (∃ parent, (pathWithin folder id).parent? = some parent ∧ before.Grants account parent level) ↔
      (level : WithBot Permission) ≤ before.standingUnder account under := by
  cases under with
  | none =>
      cases holds
      simp [pathWithin, Path.parent_root, standingUnder]
  | some parent =>
      obtain ⟨row, rfl, found, _, _⟩ := holds
      simp [pathWithin, Path.parent_child, standingUnder, standing_of_item found,
        sound.indexed.le_held_iff sound.graded]

/-- After a move every account holds on the items of the subtree the most of what it held there and
of what it held on the new parent, and on all other items what it held before. -/
theorem move_access {allowed : Settings → Prop} {engine : Engine}
    (reached : Reached allowed engine.store.tables) (quiet : scene.hooks.WriteNothing) {id : Id}
    {under : Option Id} {cascade : Cascade}
    (moved : (engine.run scene (.moveItem id under)).1 = .ok cascade) :
    ∃ item, engine.store.tables.items[id]? = some item ∧
      ∀ (other : Id) (row : Item), engine.store.tables.items[other]? = some row →
        (∃ new, (engine.run scene (.moveItem id under)).2.store.tables.items[other]? = some new) ∧
        ∀ account, (engine.run scene (.moveItem id under)).2.store.tables.standing account other =
          if item.path.covers row.path then
            max (engine.store.tables.standing account other)
              (engine.store.tables.standingUnder account under)
          else engine.store.tables.standing account other := by
  obtain ⟨levels, sound⟩ := reached.sound
  have sound := sound.mono (Nat.le_max_left levels scene.settings.maxTreeLevels)
  have outcome := engine.run_outcome scene (.moveItem id under) sound.indexed
  generalize (engine.run scene (.moveItem id under)).2.store.tables = after at outcome ⊢
  rw [moved] at outcome
  obtain ⟨_, turns⟩ := outcome.turns_of_done rfl
  obtain ⟨sound', item, folder, found, holds, effect⟩ :=
    moveItem_effect quiet (Nat.le_max_right _ _) sound turns
  refine ⟨item, found, fun other row known => ?_⟩
  have stands := sound.indexed.hasItem known
  obtain ⟨new, stands', ids, place⟩ := effect.items row stands
  have found' : after.items[other]? = some new := by
    rw [← sound.indexed.item_id other row known, ← ids]
    exact stands'
  refine ⟨⟨new, found'⟩, fun account => ?_⟩
  rw [standing_of_item found', standing_of_item known, place]
  split
  · rename_i inside
    refine le_antisymm (le_of_levels fun level holds' => ?_) (max_le ?_ ?_)
    · rw [sound'.indexed.le_held_iff sound'.graded, effect.inside account row.path level inside,
        holds.grants sound] at holds'
      rw [le_max_iff, sound.indexed.le_held_iff sound.graded]
      exact holds'
    · refine held_le sound.indexed sound.graded sound'.indexed sound'.graded fun level holds' => ?_
      exact (effect.inside account row.path level inside).mpr (Or.inl holds')
    · refine le_of_levels fun level holds' => ?_
      rw [sound'.indexed.le_held_iff sound'.graded, effect.inside account row.path level inside,
        holds.grants sound]
      exact Or.inr holds'
  · rename_i outside
    have apart : item.path.covers row.path = false := Bool.not_eq_true _ ▸ outside
    rw [Path.relocate_outside apart]
    exact held_eq sound'.indexed sound'.graded sound.indexed sound.graded
      fun level => effect.outside account row level stands apart

theorem sample_move_access :
    (Sample.engine.run (Sample.sceneOf Sample.owner)
      (.moveItem Sample.secondFolder.id (some (Sample.id 100)))).1 =
      .ok (.direct .moveItem (.item { Sample.secondFolder with
        path := Sample.firstFolder.child Sample.secondFolder.id })) ∧
    ∃ item, Sample.engine.store.tables.items[Sample.secondFolder.id]? = some item ∧
      (Sample.engine.run (Sample.sceneOf Sample.owner)
        (.moveItem Sample.secondFolder.id (some (Sample.id 100)))).2.store.tables.standing
          Sample.guest
          Sample.secondFolder.id =
        if item.path.covers Sample.secondFolder.path then
          max (Sample.engine.store.tables.standing Sample.guest Sample.secondFolder.id)
            (Sample.engine.store.tables.standingUnder Sample.guest (some (Sample.id 100)))
        else Sample.engine.store.tables.standing Sample.guest Sample.secondFolder.id := by
  have moved : (Sample.engine.run (Sample.sceneOf Sample.owner)
      (.moveItem Sample.secondFolder.id (some (Sample.id 100)))).1 =
      .ok (.direct .moveItem (.item { Sample.secondFolder with
        path := Sample.firstFolder.child Sample.secondFolder.id })) := by
    decide +kernel
  obtain ⟨item, found, access⟩ := move_access Sample.reached_any (Sample.quiet Sample.owner) moved
  exact ⟨moved, item, found,
    (access Sample.secondFolder.id Sample.secondFolder (by decide +kernel)).2 Sample.guest⟩

inductive Task.Assigns (tables : Tables) : Task → Id → Path → Permission → Prop where
  | created {id : Id} {item : Item} (account : Id) (permission : Permission) :
      tables.items[id]? = some item →
      Assigns tables (.createMembership id account permission) account item.path permission
  | updated {id : Id} {row : Membership} (permission : Permission) :
      tables.memberships[id]? = some row →
      Assigns tables (.updateMembership id permission) row.account row.itemPath permission

/-- However a permission is given, what becomes of the rows is the same. -/
theorem Outcome.granting {task : Task} {cascade : Cascade}
    (outcome : Outcome scene task before (.ok cascade) after)
    (grant : task.kind = .createMembership ∨ task.kind = .updateMembership)
    (complete : cascade.failure = none) (quiet : scene.hooks.WriteNothing)
    (sound : before.Sound levels) (indexed : after.Indexed) :
    ∃ account path permission, task.Assigns before account path permission ∧
      Granting account path permission before after := by
  cases task with
  | createMembership id account permission =>
      obtain ⟨_, turns⟩ := outcome.turns_of_done rfl
      obtain ⟨item, found, granting⟩ := createMembership_granting quiet sound turns
      exact ⟨account, item.path, permission, .created account permission found, granting⟩
  | updateMembership id permission =>
      obtain ⟨row, found, granting⟩ :=
        updateMembership_granting quiet sound indexed complete outcome
      exact ⟨row.account, row.itemPath, permission, .updated permission found, granting⟩
  | _ => simp [Task.kind] at grant

/-- After a permission was given on a path, the account holds on the items there and below the most
of that permission and of what its closest row gives it, if that row lies strictly below the path;
all else that is held stays as it was. -/
theorem grant_access {allowed : Settings → Prop} {engine : Engine}
    (reached : Reached allowed engine.store.tables) (quiet : scene.hooks.WriteNothing) {task : Task}
    (grant : task.kind = .createMembership ∨ task.kind = .updateMembership) {cascade : Cascade}
    (ended : (engine.run scene task).1 = .ok cascade) (complete : cascade.failure = none) :
    ∃ account path permission, task.Assigns engine.store.tables account path permission ∧
      (engine.run scene task).2.store.tables.items = engine.store.tables.items ∧
      ∀ (id : Id) (item : Item), engine.store.tables.items[id]? = some item → ∀ holder,
        (engine.run scene task).2.store.tables.standing holder id =
          if holder = account ∧ path.covers item.path = true then
            max (permission : WithBot Permission)
              (engine.store.tables.heldBelow account path item.path)
          else engine.store.tables.standing holder id := by
  obtain ⟨levels, sound⟩ := reached.sound
  have sound := sound.mono (Nat.le_max_left levels scene.settings.maxTreeLevels)
  obtain ⟨sound', _⟩ := engine.run_effect task quiet (Nat.le_max_right _ _) sound
  have outcome := engine.run_outcome scene task sound.indexed
  rw [ended] at outcome
  obtain ⟨account, path, permission, assigns, granting⟩ :=
    outcome.granting grant complete quiet sound sound'.indexed
  refine ⟨account, path, permission, assigns, granting.items, fun id item found holder => ?_⟩
  rw [standing_of_item (granting.items ▸ found), standing_of_item found]
  exact granting.held sound.indexed sound.graded sound'.indexed sound'.graded holder item.path

def Sample.raised : Cascade :=
  { Cascade.delegated .updateMembership (some upper.id) 2 with
    completed :=
      [⟨0, .deleteMembership, lower.id, .membershipRemoved lower⟩,
        ⟨1, .updateMembership, upper.id, .membership { upper with permission := .admin }⟩] }

theorem sample_grant_access :
    (Sample.engine.run (Sample.sceneOf Sample.owner)
      (.updateMembership Sample.upper.id .admin)).1 = .ok Sample.raised ∧
    ∃ account path permission,
      Task.Assigns Sample.engine.store.tables (.updateMembership Sample.upper.id .admin) account
        path permission ∧
      (Sample.engine.run (Sample.sceneOf Sample.owner)
        (.updateMembership Sample.upper.id .admin)).2.store.tables.standing Sample.guest
          Sample.document.id =
        if Sample.guest = account ∧ path.covers Sample.document.path = true then
          max (permission : WithBot Permission)
            (Sample.engine.store.tables.heldBelow account path Sample.document.path)
        else Sample.engine.store.tables.standing Sample.guest Sample.document.id := by
  have ended : (Sample.engine.run (Sample.sceneOf Sample.owner)
      (.updateMembership Sample.upper.id .admin)).1 = .ok Sample.raised := by
    decide +kernel
  obtain ⟨account, path, permission, assigns, _, access⟩ :=
    grant_access Sample.reached_any (Sample.quiet Sample.owner) (Or.inr rfl) ended rfl
  exact ⟨ended, account, path, permission, assigns,
    access Sample.document.id Sample.document (by decide +kernel) Sample.guest⟩

end SharedTree
