import SharedTree.Proofs.Effect.Items
import SharedTree.Proofs.Task.Memberships
/-!
The tasks on memberships. A row is written only when no row of its account below it is redundant,
and rows are only removed below the path that the task is about (`Removing`), so every step of a
cascade leaves rows that grow stronger down the tree.
-/
namespace SharedTree

open SharedTree.Tables SharedTree.Action

variable {levels : Nat} {scene : Scene} {before after start tables : Tables}

theorem Tables.Indexed.mem_redundantBelow (indexed : tables.Indexed) {account : Id} {path : Path}
    {permission : Permission} (row : Membership) :
    row ∈ tables.redundantBelow account path permission ↔
      tables.HasRow row ∧ row.account = account ∧ path.isAncestorOf row.itemPath = true ∧
        row.permission ≤ permission := by
  rw [redundantBelow, List.mem_filter, indexed.mem_membershipsBelow, decide_eq_true_eq, and_assoc,
    and_assoc]

/-- A row can be written where it exceeds what is inherited, once the rows are gone that it makes
redundant. -/
theorem Tables.Sound.write (origin : start.Sound levels) (sound : tables.Sound levels)
    (fewer : ∀ row, tables.HasRow row → start.HasRow row) {row : Membership}
    (carried : ∃ item, tables.HasItem item ∧ item.path = row.itemPath)
    (exceeds : start.Exceeds row.account row.itemPath row.permission)
    (cleared : ∀ other, tables.HasRow other →
      other ∉ start.redundantBelow row.account row.itemPath row.permission)
    (indexed : (tables.putMembership row).Indexed) : (tables.putMembership row).Sound levels where
  indexed := indexed
  shape := sound.shape.putMembership row carried
  graded := by
    refine sound.graded.putMembership ?_ ?_
    · intro other stands holder higher
      exact origin.indexed.exceeds_above origin.graded exceeds (fewer other stands) holder higher
    · intro other stands holder lower
      refine not_le.mp fun weak => cleared other stands ?_
      exact (origin.indexed.mem_redundantBelow other).mpr ⟨fewer other stands, holder, lower, weak⟩

theorem Action.Administers.admin {path : Path} (administers : Administers scene tables path)
    (sound : tables.Sound levels) : tables.Grants scene.actor path .admin := by
  obtain ⟨item, carries, allowed⟩ := administers
  obtain ⟨_, rfl⟩ := (sound.indexed.itemAt_eq_some path item).mp carries
  exact (sound.indexed.hasPermission_iff sound.graded).mp allowed

/-- Some rows of an account on a path and below are gone, and nothing else. -/
structure Removing (levels : Nat) (account : Id) (path : Path) (start tables : Tables) : Prop where
  sound : tables.Sound levels
  items : tables.items = start.items
  fewer : ∀ row, tables.HasRow row → start.HasRow row
  others : ∀ row, start.HasRow row → ¬ (row.account = account ∧ path.covers row.itemPath = true) →
    tables.HasRow row

namespace Removing

variable {account : Id} {path : Path}

theorem none_removed (account : Id) (path : Path) (sound : tables.Sound levels) :
    Removing levels account path tables tables :=
  ⟨sound, rfl, fun _ stands => stands, fun _ stands _ => stands⟩

variable (removing : Removing levels account path start tables)
include removing

theorem remove {row : Membership} (stands : start.HasRow row) (holder : row.account = account)
    (inside : path.covers row.itemPath = true) :
    Removing levels account path start (tables.removeMembership row.id) where
  sound :=
    { indexed := removing.sound.indexed.removeMembership row.id
      shape := removing.sound.shape.removeMembership row.id
      graded := removing.sound.graded.mono fun other found =>
        ((tables.removeMembership_hasRow row.id other).mp found).2 }
  items := by rw [removeMembership_items, removing.items]
  fewer other found :=
    removing.fewer other ((tables.removeMembership_hasRow row.id other).mp found).2
  others := by
    intro other found outside
    refine (tables.removeMembership_hasRow row.id other).mpr
      ⟨fun same => outside ?_, removing.others other found outside⟩
    rw [found.same stands same]
    exact ⟨holder, inside⟩

theorem removeAll {rows : List Membership} (inside : ∀ row ∈ rows,
      start.HasRow row ∧ row.account = account ∧ path.covers row.itemPath = true) :
    Removing levels account path start (tables.removeMemberships (rows.map Membership.id)) := by
  induction rows generalizing tables with
  | nil => exact removing
  | cons first rest ih =>
      obtain ⟨stands, holder, spans⟩ := inside first List.mem_cons_self
      exact ih (removing.remove stands holder spans)
        fun other member => inside other (List.mem_cons_of_mem first member)

theorem confined : ConfinedBelow path start tables where
  rows row outside :=
    ⟨removing.fewer row, fun stands => removing.others row stands fun inside => outside inside.2⟩
  items item stands _ := ⟨item, by rw [HasItem, removing.items]; exact stands, rfl, rfl⟩

/-- The removal is lawful for the account itself and for whoever administers the path. -/
theorem lawful (allowed : account = scene.actor ∨ start.Grants scene.actor path .admin) :
    Lawful scene.actor start tables := by
  rcases allowed with rfl | admin
  · exact lawful_of_own removing.items removing.fewer fun row stands other =>
      removing.others row stands fun inside => other inside.1
  · exact removing.confined.lawful_below admin

end Removing

theorem deleteMembershipRow_effect {id : Id} {output : TaskOutput}
    (quiet : scene.hooks.WriteNothing)
    (turns : (deleteMembershipRow scene id).Turns before output after) :
    after = before.removeMembership id := by
  obtain ⟨_, work, done, leads, rfl, gives, rfl⟩ := turns
  obtain ⟨row, found, _, removed⟩ := deleteMembershipRow_gives quiet gives
  rw [removed, leads.indexed.membership_id id row found]

/-- However far a plan of removals got, just the rows are gone that it got to. -/
theorem removals_committed {rows : List Membership} {done : List (SubTask × TaskOutput)}
    {left : List SubTask} (quiet : scene.hooks.WriteNothing)
    (committed : Committed scene before done after)
    (plan : done.map Prod.fst ++ left = rows.map fun row => .deleteMembership row.id) :
    ∃ gone rest, rows = gone ++ rest ∧ left = rest.map (fun row => .deleteMembership row.id) ∧
      after = before.removeMemberships (gone.map Membership.id) := by
  induction committed generalizing rows with
  | none tables => exact ⟨[], rows, rfl, plan, rfl⟩
  | next turns _ ih =>
      cases rows with
      | nil => cases plan
      | cons first others =>
          obtain ⟨rfl, later⟩ := List.cons.inj plan
          obtain rfl := deleteMembershipRow_effect quiet turns
          obtain ⟨gone, rest, rfl, rfl, rfl⟩ := ih later
          exact ⟨first :: gone, rest, rfl, rfl, rfl⟩

theorem createMembership_effect {item account : Id} {permission : Permission} {output : TaskOutput}
    (quiet : scene.hooks.WriteNothing) (sound : before.Sound levels)
    (turns : (createMembership scene item account permission).Turns before output after) :
    after.Sound levels ∧ Lawful scene.actor before after := by
  obtain ⟨_, indexed⟩ := turns.indexed (createMembership_built item account permission)
  obtain ⟨_, work, done, _, rfl, gives, same⟩ := turns
  obtain ⟨carrier, found, allowed, given_rows⟩ := createMembership_gives quiet gives
  have stands := sound.indexed.hasItem found
  have admin := (sound.indexed.hasPermission_iff sound.graded).mp allowed
  rw [same] at given_rows
  cases given_rows with
  | unchanged => exact ⟨sound, lawful_refl _ _⟩
  | removed row _ own =>
      obtain ⟨own_row, place, holder⟩ := (sound.indexed.membershipAt_eq_some _ _ _).mp own
      have removing := (Removing.none_removed account carrier.path sound).remove own_row
        holder (place ▸ Path.covers_refl _)
      exact ⟨removing.sound, removing.lawful (Or.inr admin)⟩
  | written id exceeds unused =>
      let ids := (work.tables.redundantBelow account carrier.path permission).map Membership.id
      have fewer (row : Membership) (kept : (work.tables.removeMemberships ids).HasRow row) :=
        ((work.tables.removeMemberships_hasRow ids row).mp kept).2
      have pruned : (work.tables.removeMemberships ids).Sound levels :=
        { indexed := sound.indexed.removeMemberships ids
          shape := sound.shape.removeMemberships ids
          graded := sound.graded.mono fewer }
      refine ⟨sound.write pruned fewer
        ⟨carrier, (removeMemberships_hasItem _ _ _).mpr stands, rfl⟩ exceeds ?_ indexed, ?_⟩
      · intro row kept redundant
        exact ((removeMemberships_hasRow _ _ _).mp kept).1 (List.mem_map.mpr ⟨row, redundant, rfl⟩)
      · refine Confined.lawful_below (.trans (.removeMemberships ?_) (.putMembership ?_ ?_)) admin
        · intro old found' inside
          obtain ⟨row, redundant, ids⟩ := List.mem_map.mp inside
          obtain ⟨found'', _, lower, _⟩ := (sound.indexed.mem_redundantBelow row).mp redundant
          rw [← found''.same found' ids]
          exact Path.covers_of_isAncestorOf lower
        · exact Path.covers_refl _
        · exact fun old kept same_id => absurd same_id (kept.id_ne unused)

/-! Changing a permission. -/

/-- A row is changed where the new permission exceeds what is inherited and no row below is
redundant. -/
theorem Removing.change {row : Membership} {permission : Permission} (origin : start.Sound levels)
    (removing : Removing levels row.account row.itemPath start tables) (stands : tables.HasRow row)
    (exceeds : start.Exceeds row.account row.itemPath permission)
    (cleared : ∀ other, tables.HasRow other →
      other ∉ start.redundantBelow row.account row.itemPath permission)
    (indexed : (tables.putMembership { row with permission, updatedAt := scene.now }).Indexed) :
    (tables.putMembership { row with permission, updatedAt := scene.now }).Sound levels ∧
      ConfinedBelow row.itemPath start
        (tables.putMembership { row with permission, updatedAt := scene.now }) := by
  have carried := removing.sound.shape.on_item row stands
  refine ⟨origin.write removing.sound removing.fewer carried exceeds cleared indexed,
    removing.confined.trans (.putMembership (Path.covers_refl _) ?_)⟩
  intro old found same
  rw [found.same stands same]
  exact Path.covers_refl _

inductive Changing (levels : Nat) (row : Membership) (permission : Permission) (start : Tables) :
    List SubTask → Tables → Prop where
  | pending {tables : Tables} (rows : List Membership) :
      Removing levels row.account row.itemPath start tables →
      (∀ other ∈ rows, start.HasRow other ∧ other.account = row.account ∧
        row.itemPath.covers other.itemPath = true) →
      (∀ other, tables.HasRow other →
        other ∈ start.redundantBelow row.account row.itemPath permission → other ∈ rows) →
      Changing levels row permission start
        (rows.map (fun other => .deleteMembership other.id) ++
          [.updateMembership row.id permission]) tables
  | done {tables : Tables} : tables.Sound levels →
      ConfinedBelow row.itemPath start tables →
      Changing levels row permission start [] tables

theorem Changing.turn {row : Membership} {permission : Permission}
    (quiet : scene.hooks.WriteNothing) (origin : start.Sound levels) (stands : start.HasRow row)
    (exceeds : start.Exceeds row.account row.itemPath permission) (subtask : SubTask)
    (rest : List SubTask) (output : TaskOutput) (before after : Tables)
    (changing : Changing levels row permission start (subtask :: rest) before)
    (turns : (subtask.act scene).Turns before output after) :
    Changing levels row permission start rest after := by
  -- What is left begins with a row to remove, or it is the change itself.
  generalize plan : subtask :: rest = subtasks at changing
  cases changing with
  | done => cases plan
  | pending rows removing planned left =>
      cases rows with
      | cons first others =>
          cases plan
          obtain ⟨found, holder, inside⟩ := planned first List.mem_cons_self
          rw [deleteMembershipRow_effect quiet turns]
          refine .pending others (removing.remove found holder inside)
            (fun other member => planned other (List.mem_cons_of_mem first member)) ?_
          intro other kept redundant
          obtain ⟨different, kept'⟩ := (removeMembership_hasRow _ _ _).mp kept
          rcases List.mem_cons.mp (left other kept' redundant) with rfl | member
          · exact absurd rfl different
          · exact member
      | nil =>
          cases plan
          obtain ⟨_, indexed⟩ := turns.indexed (updateMembershipRow_built row.id permission)
          obtain ⟨_, work, done, _, rfl, gives, same⟩ := turns
          obtain ⟨old, found, _, put⟩ := updateMembershipRow_gives quiet gives
          have stands' := removing.sound.indexed.hasRow found
          have equal := (removing.fewer old stands').same stands
            (removing.sound.indexed.membership_id _ _ found)
          subst equal
          rw [same] at put
          subst put
          obtain ⟨sound, confined⟩ := removing.change origin stands' exceeds
            (fun other kept redundant => by simpa using left other kept redundant) indexed
          exact .done sound confined

theorem Changing.ending {row : Membership} {permission : Permission} {rest : List SubTask}
    (changing : Changing levels row permission start rest tables) :
    tables.Sound levels ∧ ConfinedBelow row.itemPath start tables := by
  cases changing with
  | pending rows removing => exact ⟨removing.sound, removing.confined⟩
  | done sound confined => exact ⟨sound, confined⟩

theorem updateMembership_outcome {id : Id} {permission : Permission}
    {result : Except Error Cascade} (quiet : scene.hooks.WriteNothing) (sound : before.Sound levels)
    (outcome : Outcome scene (.updateMembership id permission) before result after) :
    after.Sound levels ∧ Lawful scene.actor before after := by
  cases outcome with
  | refused => exact ⟨sound, lawful_refl scene.actor before⟩
  | done output turns =>
      obtain ⟨_, indexed⟩ := turns.indexed (updateMembership_built id permission)
      obtain ⟨_, work, done, _, rfl, gives, same⟩ := turns
      obtain ⟨row, found, administers, changed⟩ := updateMembership_gives quiet sound.indexed gives
      have admin := administers.admin sound
      rw [same] at changed
      cases changed with
      | unchanged => exact ⟨sound, lawful_refl _ _⟩
      | written exceeds nothing_below =>
          obtain ⟨sound', confined⟩ := (Removing.none_removed _ _ sound).change sound
            (sound.indexed.hasRow found) exceeds (by simp [nothing_below]) indexed
          exact ⟨sound', confined.lawful_below admin⟩
  | split cascade done left turns committed whole _ =>
      obtain ⟨_, work, planned, _, rfl, gives, rfl⟩ := turns
      obtain ⟨row, found, administers, changed⟩ := updateMembership_gives quiet sound.indexed gives
      have stands := sound.indexed.hasRow found
      have admin := administers.admin sound
      generalize plan : TaskStep.delegated (done.map Prod.fst ++ left) = step at changed
      generalize rows : planned.tables = tables at changed committed
      cases changed with
      | unchanged => cases plan
      | written => cases plan
      | redundant =>
          have alone : done.map Prod.fst ++ left =
              [row].map fun row => .deleteMembership row.id := TaskStep.delegated.inj plan
          obtain ⟨gone, rest, shape, _, rfl⟩ := removals_committed quiet committed alone
          have inside : ∀ other ∈ gone, work.tables.HasRow other ∧ other.account = row.account ∧
              row.itemPath.covers other.itemPath = true := by
            intro other member
            have same : other ∈ [row] := shape ▸ List.mem_append_left rest member
            rw [List.mem_singleton.mp same]
            exact ⟨stands, rfl, Path.covers_refl _⟩
          have removing := (Removing.none_removed _ _ sound).removeAll inside
          exact ⟨removing.sound, removing.lawful (Or.inr admin)⟩
      | planned exceeds =>
          have beginning : Changing levels row permission work.tables (done.map Prod.fst ++ left)
              work.tables := by
            rw [TaskStep.delegated.inj plan]
            refine .pending _ (.none_removed _ _ sound) ?_ fun _ _ redundant => redundant
            intro other redundant
            obtain ⟨found', holder, lower, _⟩ :=
              (sound.indexed.mem_redundantBelow other).mp redundant
            exact ⟨found', holder, Path.covers_of_isAncestorOf lower⟩
          obtain ⟨sound', confined⟩ := (committed.invariant left _
            (Changing.turn quiet sound stands exceeds) beginning).ending
          exact ⟨sound', confined.lawful_below admin⟩

/-! Removing a row. -/

/-- How far the removal of a row got: it is gone at once, or as many rows are as were taken away of
those planned. -/
inductive Revoked (row : Membership) (before : Tables) : Bool → Cascade → Tables → Prop where
  | alone {cascade : Cascade} :
      Revoked row before false cascade (before.removeMembership row.id)
  | purged {cascade : Cascade} (gone left : List Membership) :
      before.membershipsBelow row.account row.itemPath ++ [row] = gone ++ left →
      (cascade.failure = none ↔ left = []) →
      Revoked row before true cascade (before.removeMemberships (gone.map Membership.id))

theorem deleteMembership_revoked {id : Id} {purgeBelow : Bool} {cascade : Cascade}
    (quiet : scene.hooks.WriteNothing)
    (outcome : Outcome scene (.deleteMembership id purgeBelow) before (.ok cascade) after) :
    ∃ row, before.memberships[id]? = some row ∧
      (row.account = scene.actor ∨ Administers scene before row.itemPath) ∧
      Revoked row before purgeBelow cascade after := by
  cases outcome with
  | done output turns =>
      obtain ⟨_, work, done, _, rfl, gives, rfl⟩ := turns
      obtain ⟨row, found, allowed, withdrawn⟩ := deleteMembership_chosen gives
      refine ⟨row, found, allowed, ?_⟩
      cases withdrawn with
      | alone _ removed =>
          rw [(removeMembership_gives quiet removed).2]
          exact .alone
  | split cascade done left turns committed whole _ =>
      obtain ⟨_, work, planned, _, rfl, gives, rfl⟩ := turns
      obtain ⟨row, found, allowed, withdrawn⟩ := deleteMembership_chosen gives
      refine ⟨row, found, allowed, ?_⟩
      generalize plan : TaskStep.delegated (done.map Prod.fst ++ left) = step at withdrawn
      cases withdrawn with
      | alone => cases plan
      | planned _ kept =>
          obtain ⟨gone, rest, rows, rfl, rfl⟩ :=
            removals_committed quiet committed (TaskStep.delegated.inj plan)
          rw [kept]
          exact .purged gone rest rows (whole.trans List.map_eq_nil_iff)

theorem Tables.Indexed.mem_purged (indexed : tables.Indexed) {row : Membership}
    (stands : tables.HasRow row) (other : Membership) :
    other ∈ tables.membershipsBelow row.account row.itemPath ++ [row] ↔
      tables.HasRow other ∧ other.account = row.account ∧
        row.itemPath.covers other.itemPath = true := by
  rw [List.mem_append, List.mem_singleton, indexed.mem_membershipsBelow]
  constructor
  · rintro (⟨found, holder, below⟩ | rfl)
    · exact ⟨found, holder, Path.covers_of_isAncestorOf below⟩
    · exact ⟨stands, rfl, Path.covers_refl _⟩
  · rintro ⟨found, holder, spans⟩
    by_cases place : row.itemPath = other.itemPath
    · exact Or.inr (indexed.row_unique found stands place.symm holder)
    · exact Or.inl ⟨found, holder, (Path.isAncestorOf_iff_covers _ _).mpr ⟨spans, place⟩⟩

theorem Revoked.removing {row : Membership} {purgeBelow : Bool} {cascade : Cascade}
    (revoked : Revoked row before purgeBelow cascade after) (sound : before.Sound levels)
    (stands : before.HasRow row) : Removing levels row.account row.itemPath before after := by
  have start := Removing.none_removed row.account row.itemPath sound
  cases revoked with
  | alone => exact start.remove stands rfl (Path.covers_refl _)
  | purged gone left rows _ =>
      refine start.removeAll fun other member => ?_
      exact (sound.indexed.mem_purged stands other).mp (rows ▸ List.mem_append_left _ member)

theorem deleteMembership_outcome {id : Id} {purgeBelow : Bool} {result : Except Error Cascade}
    (quiet : scene.hooks.WriteNothing) (sound : before.Sound levels)
    (outcome : Outcome scene (.deleteMembership id purgeBelow) before result after) :
    after.Sound levels ∧ Lawful scene.actor before after := by
  cases result with
  | error cause =>
      cases outcome
      exact ⟨sound, lawful_refl scene.actor before⟩
  | ok cascade =>
      -- Rows of one account on a path and below are removed, by the account or an administrator.
      obtain ⟨row, found, allowed, revoked⟩ := deleteMembership_revoked quiet outcome
      have removing := revoked.removing sound (sound.indexed.hasRow found)
      exact ⟨removing.sound,
        removing.lawful (allowed.imp_right fun administers => administers.admin sound)⟩

end SharedTree
