import Mathlib.Data.List.Nodup
import SharedTree.Proofs.Engine.Events
import SharedTree.Proofs.Tree.Orders
/-!
The memberships that go away and the events that tell of it. A removal is told of where it is what a
task or a subtask is about, or comes with a deleted item, and then once for each row. Two kinds of
commits remove rows besides that tell of nothing but themselves: a new grant removes the rows below
that it makes redundant, and a move those of the subtree that the destination makes redundant
(`Commit.Silent`). With these every row that went away is accounted for (`removals_accounted`).
-/
namespace SharedTree

def Tables.Gone (before after : Tables) (row : Membership) : Prop :=
  before.HasRow row ∧ after.memberships[row.id]? = none

def Event.isRemoval : Event → Bool
  | membershipDeleted .. => true
  | _ => false

namespace Commit

def removals (commit : Commit) : List Event := commit.events.filter Event.isRemoval

/-- The memberships that a commit removes without telling of them: those below a new grant that do
not exceed it, and those of a moved subtree that do not exceed what their accounts inherit in its new
place. A row whose identifier the new grant bears is not counted as removed; identifiers that are
fresh rule that out. -/
def Silent (commit : Commit) (row : Membership) : Prop :=
  match commit.kind, commit.output with
  | .createMembership, .membership made =>
      row ∈ commit.before.redundantBelow made.account made.itemPath made.permission ∧
        row.id ≠ made.id
  | .moveItem, .item moved =>
      commit.before.HasRow row ∧ ∃ item, commit.before.items[moved.id]? = some item ∧
        item.path.covers row.itemPath = true ∧
        ¬ commit.before.Exceeds row.account moved.path row.permission
  | _, _ => False

/-- Every membership that a commit removes is told of, once, or one of the silent ones; and nothing
else is told of. -/
structure Accounted (commit : Commit) : Prop where
  named : ∀ event ∈ commit.removals, ∃ row, commit.before.Gone commit.after row ∧
    ¬ commit.Silent row ∧ event = row.removal
  gone : ∀ row, commit.before.Gone commit.after row →
    row.removal ∈ commit.removals ∨ commit.Silent row
  silent : ∀ row, commit.Silent row → commit.before.Gone commit.after row
  once : commit.removals.Nodup

variable {commit : Commit}

/-- A commit that tells of all that it removes. -/
theorem Accounted.of_told {rows : List Membership} (distinct : rows.Nodup)
    (gone : ∀ row, commit.before.Gone commit.after row ↔ row ∈ rows)
    (told : commit.removals = rows.map Membership.removal)
    (loud : ∀ row, ¬ commit.Silent row) : commit.Accounted where
  named := by
    rw [told]
    intro event inside
    obtain ⟨row, listed, rfl⟩ := List.mem_map.mp inside
    exact ⟨row, (gone row).mpr listed, loud row, rfl⟩
  gone := by
    intro row away
    rw [told]
    exact .inl (List.mem_map_of_mem ((gone row).mp away))
  silent row unheard := absurd unheard (loud row)
  once := by
    rw [told]
    refine List.Nodup.map_on (fun row listed other listed' same => ?_) distinct
    have ids : row.id = other.id := by
      injection same
    exact ((gone row).mpr listed).1.same ((gone other).mpr listed').1 ids

/-- A commit that removes nothing. -/
theorem Accounted.of_kept
    (kept : ∀ row, commit.before.HasRow row → commit.after.memberships[row.id]? ≠ none)
    (told : commit.removals = []) (loud : ∀ row, ¬ commit.Silent row) : commit.Accounted := by
  refine .of_told List.nodup_nil (fun row => ?_) told loud
  simp only [List.not_mem_nil, iff_false]
  rintro ⟨stood, away⟩
  exact kept row stood away

/-- A commit that tells of nothing that it removes. -/
theorem Accounted.of_silent (told : commit.removals = [])
    (gone : ∀ row, commit.before.Gone commit.after row ↔ commit.Silent row) :
    commit.Accounted where
  named := by simp [told]
  gone row away := .inr ((gone row).mp away)
  silent row := (gone row).mpr
  once := told ▸ List.nodup_nil

end Commit

open Tables SharedTree.Action

variable {scene : Scene} {before after : Tables} {output : TaskOutput}

/-! What keeps the memberships. -/

theorem kept_of_same (same : after.memberships = before.memberships) (row : Membership)
    (stood : before.HasRow row) : after.memberships[row.id]? ≠ none := by
  rw [same, stood]
  simp

theorem kept_of_put {made : Membership}
    (same : after.memberships = (before.putMembership made).memberships) (row : Membership)
    (stood : before.HasRow row) : after.memberships[row.id]? ≠ none := by
  rw [same, putMembership_memberships]
  split
  · simp
  · rw [stood]
    simp

theorem Action.Administered.kept {path : Path} {item : Item}
    (granted : Administered scene path (before.putItem item) after) (row : Membership)
    (stood : before.HasRow row) : after.memberships[row.id]? ≠ none := by
  have stands := (putItem_hasRow before item row).mpr stood
  rcases granted with ⟨_, _, _, rfl⟩ | ⟨_, _, _, _, rfl⟩
  · exact kept_of_same rfl row stands
  · exact kept_of_put rfl row stands

theorem gone_of_cleared {rows : List Membership} (stood : ∀ row ∈ rows, before.HasRow row)
    (same : after.memberships = (before.removeMemberships (rows.map Membership.id)).memberships)
    (row : Membership) : before.Gone after row ↔ row ∈ rows := by
  rw [Gone, same, removeMemberships_memberships]
  constructor
  · rintro ⟨found, away⟩
    split at away
    · rename_i listed
      obtain ⟨other, inside, ids⟩ := List.mem_map.mp listed
      exact found.same (stood other inside) ids.symm ▸ inside
    · cases away.symm.trans found
  · intro inside
    exact ⟨stood row inside, if_pos (List.mem_map_of_mem inside)⟩

/-- One row goes. -/
theorem gone_of_removed {row : Membership} (stood : before.HasRow row) (other : Membership) :
    before.Gone (before.removeMembership row.id) other ↔ other ∈ [row] :=
  gone_of_cleared (List.forall_mem_singleton.mpr stood) rfl other

/-! What a move removes. -/

section Moving

variable {levels : Nat} {item : Item} {new : Path} {grants : List Membership}
  {placed kept : Tables}
  (indexed : before.Indexed) (shape : before.Shape levels) (graded : before.Graded)
  (movable : before.Movable levels item new)
  (relocated : Relocated item.path new before placed)
  (known : ∀ grant ∈ grants, before.inherited? grant.account item.path = some grant)
  (keeps : placed.Keeps new grants kept)
  (prunes : kept.Prunes (fun row => new.covers row.itemPath = true) after)

include shape movable in
/-- Nothing was in the new place before. -/
theorem vacant_place {row : Membership} (stood : before.HasRow row) :
    new.covers row.itemPath = false :=
  shape.no_row_below movable.free stood

include relocated keeps in
theorem kept_relocated {row : Membership} (stood : before.HasRow row) :
    kept.HasRow (row.relocate item.path new) :=
  keeps.kept _ ((relocated.hasRow_iff _).mpr ⟨row, stood, rfl⟩)

include indexed shape graded movable relocated known keeps prunes in
/-- A row that went away was in the subtree and does not exceed what is inherited in the new
place: whatever still grants its level from above does so from outside of the subtree. -/
theorem redundant_of_pruned {row : Membership} (stood : before.HasRow row)
    (away : ¬ after.HasRow (row.relocate item.path new)) :
    item.path.covers row.itemPath = true ∧ ¬ before.Exceeds row.account new row.permission := by
  have stands := kept_relocated relocated keeps stood
  have within : new.covers (row.itemPath.relocate item.path new) = true := by
    by_contra outside
    exact away (prunes.others _ stands outside)
  have inside : item.path.covers row.itemPath = true := by
    by_contra outside
    rw [Path.relocate_outside (Bool.not_eq_true _ ▸ outside),
      vacant_place shape movable stood] at within
    cases within
  refine ⟨inside, fun exceeds => ?_⟩
  -- The level is granted as before, so another row grants it now, and that one is further up.
  obtain ⟨upper, ⟨stands', holder, spans⟩, enough⟩ :=
    (prunes.grants row.account (row.itemPath.relocate item.path new) row.permission).mpr
      ⟨_, ⟨stands, rfl, Path.covers_refl _⟩, le_refl _⟩
  have apart : upper.itemPath ≠ row.itemPath.relocate item.path new := by
    intro same
    have equal := keeps.indexed.row_unique (prunes.fewer _ stands') stands same holder
    exact away (equal ▸ stands')
  rcases keeps.added upper (prunes.fewer _ stands') with found | ⟨_, grant, listed, like, level⟩
  · obtain ⟨origin, stood', rfl⟩ := (relocated.hasRow_iff upper).mp found
    by_cases moved : item.path.covers origin.itemPath = true
    · have higher := (Path.relocate_covers_iff moved inside).mp spans
      have strict := (Path.isAncestorOf_iff_covers _ _).mpr
        ⟨higher, fun same => apart (congrArg (Path.relocate · item.path new) same)⟩
      exact absurd enough (not_le.mpr (graded origin row stood' stood holder strict))
    · have stays : origin.relocate item.path new = origin := by
        rw [Membership.relocate, Path.relocate_outside (Bool.not_eq_true _ ▸ moved)]
      rw [stays] at spans enough holder
      have outside := vacant_place shape movable stood'
      have higher := Path.isAncestorOf_of_apart spans within outside
      obtain ⟨above, inherits, _⟩ := indexed.inherited_of_above stood' holder higher
      have strongest := indexed.inherited_strongest graded inherits stood' holder higher
      exact absurd (enough.trans strongest) (not_le.mpr (exceeds above inherits))
  · -- A grant that was kept stood above the subtree, so it is weaker than the rows within.
    obtain ⟨stood', _, higher⟩ := indexed.inherited_reaches (known grant listed)
    have weaker := graded grant row stood' stood (like.trans holder)
      (Path.isAncestorOf_trans higher inside)
    exact absurd (level ▸ enough) (not_le.mpr weaker)

include indexed movable relocated keeps prunes in
/-- A row of the subtree that does not exceed what is inherited in the new place went away: the row
above stays where it is, and what is left is in order. -/
theorem pruned_of_redundant (graded' : after.Graded) {row : Membership}
    (inside : item.path.covers row.itemPath = true)
    (weak : ¬ before.Exceeds row.account new row.permission) :
    ¬ after.HasRow (row.relocate item.path new) := by
  intro stands
  obtain ⟨above, inherits, enough⟩ : ∃ above, before.inherited? row.account new = some above ∧
      row.permission ≤ above.permission := by
    by_contra none
    exact weak fun above inherits => not_le.mp fun le => none ⟨above, inherits, le⟩
  obtain ⟨stood', holder, higher⟩ := indexed.inherited_reaches inherits
  have outside := Path.apart_of_covers movable.apart (Path.covers_of_isAncestorOf higher)
  have stays := kept_relocated relocated keeps stood'
  rw [Membership.relocate, Path.relocate_outside outside] at stays
  have apart : ¬ new.covers above.itemPath = true := by
    intro lower
    obtain ⟨upper, different⟩ := (Path.isAncestorOf_iff_covers _ _).mp higher
    exact different (Path.covers_antisymm upper lower)
  have stands' := prunes.others _ stays apart
  have strict := Path.isAncestorOf_trans higher (Path.relocate_inside new inside)
  exact absurd enough
    (not_le.mpr (graded' above (row.relocate item.path new) stands' stands holder strict))

include indexed shape graded movable relocated known keeps prunes in
/-- A move removes just the rows of its subtree that do not exceed what is inherited in the new
place. -/
theorem gone_of_moved (graded' : after.Graded) (row : Membership) :
    before.Gone after row ↔ before.HasRow row ∧ item.path.covers row.itemPath = true ∧
      ¬ before.Exceeds row.account new row.permission := by
  have left (stood : before.HasRow row) : after.memberships[row.id]? = none ↔
      ¬ after.HasRow (row.relocate item.path new) := by
    constructor
    · intro away stands
      cases away.symm.trans stands
    · intro away
      cases found : after.memberships[row.id]? with
      | none => rfl
      | some other =>
          have ids := prunes.indexed.membership_id row.id other found
          have same := (prunes.fewer other (prunes.indexed.hasRow found)).same
            (kept_relocated relocated keeps stood) ids
          exact absurd (same ▸ prunes.indexed.hasRow found) away
  refine and_congr_right fun stood => ?_
  rw [left stood]
  constructor
  · exact redundant_of_pruned indexed shape graded movable relocated known keeps prunes stood
  · rintro ⟨inside, weak⟩
    exact pruned_of_redundant indexed movable relocated keeps prunes graded' inside weak

end Moving

/-! What each task and each subtask removes. -/

section Acts

variable {levels : Nat} (quiet : scene.hooks.WriteNothing)
include quiet

theorem createItem_accounted {new : NewItem}
    (turns : (createItem scene new).Turns before output after) :
    Commit.Accounted ⟨.createItem, output, before, after⟩ := by
  obtain ⟨_, work, done, _, rfl, gives, rfl⟩ := turns
  obtain ⟨id, folder, _, _, _, _, rfl, administered⟩ := createItem_gives quiet gives
  exact .of_kept administered.kept rfl fun _ unheard => unheard

theorem updateItem_accounted {id : Id} {patch : ItemPatch}
    (turns : (updateItem scene id patch).Turns before output after) :
    Commit.Accounted ⟨.updateItem, output, before, after⟩ := by
  obtain ⟨_, work, done, _, rfl, gives, rfl⟩ := turns
  obtain ⟨row, _, _, rfl, put⟩ := updateItem_gives quiet gives
  exact .of_kept (kept_of_same (by rw [put, putItem_memberships])) rfl fun _ unheard => unheard

theorem moveItem_accounted {id : Id} {under : Option Id}
    (limit : scene.settings.maxTreeLevels ≤ levels) (sound : before.Sound levels)
    (turns : (moveItem scene id under).Turns before output after) :
    Commit.Accounted ⟨.moveItem, output, before, after⟩ := by
  obtain ⟨_, work, done, _, rfl, gives, rfl⟩ := turns
  obtain ⟨item, folder, may, rfl, ⟨placed, kept, relocated, keeps, prunes⟩, graded'⟩ :=
    moveItem_gives quiet sound.indexed sound.graded gives
  let touched : Item := { item with updatedAt := scene.now }
  have stands := sound.indexed.hasItem may.found
  have start : (work.tables.putItem touched).Sound levels := sound.putItem_same stands rfl rfl rfl
  have movable := (may.movable limit sound).putItem touched rfl rfl rfl
  have known (grant : Membership) (listed : grant ∈ work.tables.grantsAbove item.path) :
      (work.tables.putItem touched).inherited? grant.account touched.path = some grant := by
    rw [putItem_inherited]
    exact (sound.indexed.mem_grantsAbove item.path grant).mp listed
  have gone := gone_of_moved start.indexed start.shape start.graded movable
    (relocated : Relocated touched.path (pathWithin folder id) _ placed) known keeps prunes graded'
  refine .of_silent rfl fun row => ?_
  -- The time of the move is written to the item alone, and no membership is touched by that.
  have same : (work.tables.putItem touched).Gone done.tables row ↔
      work.tables.Gone done.tables row :=
    and_congr_left' (putItem_hasRow work.tables touched row)
  rw [← same, gone]
  simp only [putItem_hasRow, Exceeds, putItem_inherited]
  constructor
  · rintro ⟨stood, inside, weak⟩
    exact ⟨stood, item, stands, inside, weak⟩
  · rintro ⟨stood, other, found, inside, weak⟩
    cases found.symm.trans stands
    exact ⟨stood, inside, weak⟩

theorem createMembership_accounted {id account : Id} {permission : Permission}
    (indexed : before.Indexed)
    (turns : (createMembership scene id account permission).Turns before output after) :
    Commit.Accounted ⟨.createMembership, output, before, after⟩ := by
  obtain ⟨_, work, done, _, rfl, gives, rfl⟩ := turns
  obtain ⟨item, _, _, given_rows⟩ := createMembership_gives quiet gives
  generalize done.tables = rows at given_rows
  cases given_rows with
  | unchanged => exact .of_kept (kept_of_same rfl) rfl fun _ unheard => unheard
  | removed row _ own =>
      have stood := ((indexed.membershipAt_eq_some _ _ _).mp own).1
      exact .of_told (List.nodup_singleton row) (gone_of_removed stood) rfl
        fun _ unheard => unheard
  | written made exceeds unused =>
      -- The rows below go first, and then the new one is put.
      have stood (row : Membership)
          (listed : row ∈ work.tables.redundantBelow account item.path permission) :
          work.tables.HasRow row := ((indexed.mem_redundantBelow row).mp listed).1
      have below := gone_of_cleared stood rfl
      refine .of_silent rfl fun row => ?_
      rw [Gone, putMembership_memberships]
      constructor
      · rintro ⟨stood, away⟩
        split at away
        · cases away
        · rename_i another
          exact ⟨(below row).mp ⟨stood, away⟩, another⟩
      · rintro ⟨listed, another⟩
        obtain ⟨stood, away⟩ := (below row).mpr listed
        exact ⟨stood, (if_neg another).trans away⟩

theorem updateMembership_accounted {id : Id} {permission : Permission} (indexed : before.Indexed)
    (turns : (updateMembership scene id permission).Turns before (.done output) after) :
    Commit.Accounted ⟨.updateMembership, output, before, after⟩ := by
  obtain ⟨_, work, done, _, rfl, gives, rfl⟩ := turns
  obtain ⟨row, _, _, changed⟩ := updateMembership_gives quiet indexed gives
  generalize done.tables = rows at changed
  cases changed with
  | unchanged => exact .of_kept (kept_of_same rfl) rfl fun _ unheard => unheard
  | written => exact .of_kept (kept_of_put rfl) rfl fun _ unheard => unheard

theorem deleteMembership_accounted {id : Id} {purgeBelow : Bool} (indexed : before.Indexed)
    (turns : (deleteMembership scene id purgeBelow).Turns before (.done output) after) :
    Commit.Accounted ⟨.deleteMembership, output, before, after⟩ := by
  obtain ⟨_, work, done, _, rfl, gives, rfl⟩ := turns
  obtain ⟨row, found, _, removed⟩ := deleteMembership_gives quiet gives
  generalize done.tables = rows at removed
  cases removed
  exact .of_told (List.nodup_singleton row) (gone_of_removed (indexed.hasRow found)) rfl
    fun _ unheard => unheard

theorem deleteItemRow_accounted {id : Id} (indexed : before.Indexed)
    (turns : (deleteItemRow scene id).Turns before output after) :
    Commit.Accounted ⟨.deleteItem, output, before, after⟩ := by
  obtain ⟨_, work, done, _, rfl, gives, rfl⟩ := turns
  obtain ⟨item, found, _, rfl, removed⟩ := deleteItemRow_gives quiet gives
  refine .of_told (indexed.membershipsUnder_nodup item.path) ?_ ?_ fun _ unheard => unheard
  · refine gone_of_cleared (fun row inside => ((indexed.mem_membershipsUnder _ _).mp inside).1) ?_
    rw [removed, removeItem_memberships]
  · have all : ((work.tables.membershipsUnder item.path).map Membership.removal).filter
        Event.isRemoval = (work.tables.membershipsUnder item.path).map Membership.removal := by
      refine List.filter_eq_self.mpr fun event inside => ?_
      obtain ⟨row, _, rfl⟩ := List.mem_map.mp inside
      rfl
    rw [Commit.removals, Commit.events, events_itemDeleted, List.filter_append, all]
    exact List.append_nil _

theorem copyItemRow_accounted {id : Id} {path : Path} {top : Bool}
    (turns : (copyItemRow scene id path top).Turns before output after) :
    Commit.Accounted ⟨.copyItem, output, before, after⟩ := by
  obtain ⟨_, work, done, _, rfl, gives, rfl⟩ := turns
  obtain ⟨source, made, _, rfl, _, _, _, rfl, put⟩ := copyItemRow_gives quiet gives
  refine .of_kept ?_ rfl fun _ unheard => unheard
  cases top with
  | true => exact Action.Administered.kept put
  | false =>
      have same : done.tables = _ := put
      exact kept_of_same (by rw [same, putItem_memberships])

/-- A task that is done at once accounts for what it removes. -/
theorem task_accounted {task : Task} (limit : scene.settings.maxTreeLevels ≤ levels)
    (sound : before.Sound levels) (turns : (task.act scene).Turns before (.done output) after) :
    Commit.Accounted ⟨task.kind, output, before, after⟩ := by
  cases task with
  | createItem new =>
      obtain ⟨_, same, turns⟩ := turns.of_done
      cases same
      exact createItem_accounted quiet turns
  | updateItem id patch =>
      obtain ⟨_, same, turns⟩ := turns.of_done
      cases same
      exact updateItem_accounted quiet turns
  | moveItem id under =>
      obtain ⟨_, same, turns⟩ := turns.of_done
      cases same
      exact moveItem_accounted quiet limit sound turns
  | createMembership item account permission =>
      obtain ⟨_, same, turns⟩ := turns.of_done
      cases same
      exact createMembership_accounted quiet sound.indexed turns
  | updateMembership id permission => exact updateMembership_accounted quiet sound.indexed turns
  | deleteMembership id purgeBelow => exact deleteMembership_accounted quiet sound.indexed turns
  | deleteItem id =>
      obtain ⟨_, impossible, _⟩ := turns.of_delegated
      cases impossible
  | copyItem id under =>
      obtain ⟨_, impossible, _⟩ := turns.of_delegated
      cases impossible

theorem subtask_accounted {subtask : SubTask} (indexed : before.Indexed)
    (turns : (subtask.act scene).Turns before output after) :
    Commit.Accounted ⟨subtask.kind, output, before, after⟩ := by
  cases subtask with
  | deleteItem id => exact deleteItemRow_accounted quiet indexed turns
  | copyItem source path top => exact copyItemRow_accounted quiet turns
  | updateMembership id permission =>
      obtain ⟨_, work, done, _, rfl, gives, rfl⟩ := turns
      obtain ⟨_, _, rfl, put⟩ := updateMembershipRow_gives quiet gives
      exact .of_kept (kept_of_put (congrArg Tables.memberships put)) rfl fun _ unheard => unheard
  | deleteMembership id =>
      obtain ⟨_, work, done, _, rfl, gives, rfl⟩ := turns
      obtain ⟨row, found, rfl, removed⟩ := deleteMembershipRow_gives quiet gives
      have gone := gone_of_removed (indexed.hasRow found)
      rw [← removed] at gone
      exact .of_told (List.nodup_singleton row) gone rfl fun _ unheard => unheard

theorem Commit.Parts.accounted {commits : List Commit} (indexed : before.Indexed)
    (parts : Commit.Parts scene before commits after) :
    ∀ commit ∈ commits, commit.Accounted := by
  induction parts with
  | none tables => simp
  | next subtask output turns _ ih =>
      refine List.forall_mem_cons.mpr ⟨subtask_accounted quiet indexed turns, ?_⟩
      exact ih (turns.indexed (subtask.act_built scene)).2

theorem Commit.Chain.accounted {task : Task} {commits : List Commit}
    (limit : scene.settings.maxTreeLevels ≤ levels) (sound : before.Sound levels)
    (chain : Commit.Chain scene task before commits after) :
    ∀ commit ∈ commits, commit.Accounted := by
  cases chain with
  | whole output turns =>
      exact List.forall_mem_singleton.mpr (task_accounted quiet limit sound turns)
  | parts parts => exact parts.accounted quiet sound.indexed

end Acts

/-- Every run on rows that tasks have reached is a chain of commits, one for each output that it
reports, with the events of the run, and each of them accounts for the memberships that it removes:
those that its removal events name, each once, and the silent ones. -/
theorem removals_accounted {allowed : Settings → Prop} {engine : Engine} {scene : Scene}
    {task : Task} (reached : Reached allowed engine.store.tables)
    (quiet : scene.hooks.WriteNothing) :
    ∃ commits, Commit.Chain scene task engine.store.tables commits
        (engine.run scene task).2.store.tables ∧
      commits.map (fun commit => (commit.kind, commit.output)) =
        reported (engine.run scene task).1 ∧
      (engine.run scene task).2.events = engine.events ++ commits.flatMap Commit.events ∧
      ∀ commit ∈ commits, commit.Accounted := by
  obtain ⟨levels, sound⟩ := reached.sound
  have wider := sound.mono (Nat.le_max_left levels scene.settings.maxTreeLevels)
  obtain ⟨commits, chain, outputs⟩ := engine.run_commits scene task sound.indexed
  have told := engine.run_events scene task sound.indexed
  rw [← outputs, eventsOf_commits] at told
  exact ⟨commits, chain, outputs, told,
    chain.accounted quiet (Nat.le_max_right levels _) wider⟩

/-! The guest loses the access to the folder but not that to the document in it, and then gets more
access to the folder than there was to the document. -/

namespace Sample

def revoked : Engine := (engine.run (sceneOf owner) (.deleteMembership upper.id false)).2

def regrant : Task := .createMembership (id 100) guest .admin

theorem revoked_reached : Reached (fun _ => True) revoked.store.tables :=
  .run engine (sceneOf owner) (.deleteMembership upper.id false) reached_any trivial (quiet owner)

end Sample

/-- What a grant makes redundant goes without an event. -/
theorem sample_removal_untold :
    Reached (fun _ => True) Sample.revoked.store.tables ∧
      Sample.revoked.store.tables.Gone
        (Sample.revoked.run (Sample.sceneOf Sample.owner) Sample.regrant).2.store.tables
        Sample.lower ∧
      (Sample.revoked.run (Sample.sceneOf Sample.owner) Sample.regrant).2.events =
        Sample.revoked.events ++
          [.membershipCreated (Sample.id 107) (Sample.id 100) Sample.guest .admin] :=
  ⟨Sample.revoked_reached, ⟨by unfold Tables.HasRow; decide +kernel, by decide +kernel⟩,
    by decide +kernel⟩

/-- The grant on the folder is the only commit, and the row on the document the only one that went
away. -/
theorem sample_removals_accounted :
    Reached (fun _ => True) Sample.revoked.store.tables ∧
      ∃ commits, Commit.Chain (Sample.sceneOf Sample.owner) Sample.regrant
          Sample.revoked.store.tables commits
          (Sample.revoked.run (Sample.sceneOf Sample.owner) Sample.regrant).2.store.tables ∧
        (Sample.revoked.run (Sample.sceneOf Sample.owner) Sample.regrant).2.events =
          Sample.revoked.events ++ commits.flatMap Commit.events ∧
        ∀ commit ∈ commits, commit.Accounted := by
  obtain ⟨commits, chain, _, told, accounted⟩ :=
    @removals_accounted (fun _ => True) Sample.revoked (Sample.sceneOf Sample.owner) Sample.regrant
      Sample.revoked_reached (Sample.quiet Sample.owner)
  exact ⟨Sample.revoked_reached, commits, chain, told, accounted⟩

end SharedTree
