import SharedTree.Proofs.Engine.Events
import SharedTree.Proofs.Engine.Reached
/-!
Removing a membership never gives anybody more. Where rows grow stronger down the tree the row that
comes to count is no stronger than the one that is gone, so with every row that goes nobody's
standing rises (`Thinned.noWider`), and once all are gone the account is left with what it holds
above (`revocation_narrows_access`).
-/
namespace SharedTree

open Tables

variable {levels : Nat} {scene : Scene} {before after start tables : Tables}

namespace Tables

def heldAbove (tables : Tables) (account : Id) (path : Path) : WithBot Permission :=
  match path.parent? with
  | some parent => tables.held account parent
  | none => ⊥

theorem Indexed.le_heldAbove_iff (indexed : tables.Indexed) (graded : tables.Graded) {account : Id}
    {path : Path} {level : Permission} :
    (level : WithBot Permission) ≤ tables.heldAbove account path ↔
      ∃ row, tables.HasRow row ∧ row.account = account ∧ row.itemPath.isAncestorOf path = true ∧
        level ≤ row.permission := by
  simp only [Path.isAncestorOf_iff_parent, heldAbove]
  cases path.parent? with
  | none => simp
  | some parent =>
      rw [indexed.le_held_iff graded]
      constructor
      · rintro ⟨row, ⟨stands, holder, spans⟩, enough⟩
        exact ⟨row, stands, holder, ⟨parent, rfl, spans⟩, enough⟩
      · rintro ⟨row, stands, holder, ⟨_, same, spans⟩, enough⟩
        cases same
        exact ⟨row, ⟨stands, holder, spans⟩, enough⟩

/-- What is left of an account's rows on a path are those above another path. -/
theorem Indexed.held_eq_heldAbove (indexed : before.Indexed) (graded : before.Graded)
    (indexed' : after.Indexed) (graded' : after.Graded) {account : Id} {place above : Path}
    (left : ∀ row, after.Reaches account place row ↔
      before.HasRow row ∧ row.account = account ∧ row.itemPath.isAncestorOf above = true) :
    after.held account place = before.heldAbove account above := by
  refine eq_of_levels fun level => ?_
  rw [indexed'.le_held_iff graded', indexed.le_heldAbove_iff graded]
  simp only [Grants, left, and_assoc]

def NoWider (before after : Tables) : Prop :=
  ∀ account id, after.standing account id ≤ before.standing account id

structure Thinned (before after : Tables) : Prop where
  indexed : after.Indexed
  items : after.items = before.items
  fewer : ∀ row, after.HasRow row → before.HasRow row

namespace Thinned

theorem refl (indexed : tables.Indexed) : Thinned tables tables :=
  ⟨indexed, rfl, fun _ stands => stands⟩

variable (thinned : Thinned before after)
include thinned

theorem removeMembership (id : Id) : Thinned before (after.removeMembership id) where
  indexed := thinned.indexed.removeMembership id
  items := by rw [removeMembership_items, thinned.items]
  fewer row stands := thinned.fewer row ((after.removeMembership_hasRow id row).mp stands).2

/-- Without some rows nobody stands higher anywhere. -/
theorem noWider (sound : before.Sound levels) : before.NoWider after := by
  intro account id
  rw [standing, standing, thinned.items]
  split
  · exact held_le thinned.indexed (sound.graded.mono thinned.fewer) sound.indexed sound.graded
      fun level => grants_mono thinned.fewer
  · exact le_rfl

end Thinned

end Tables

/-! The commits of a removal. -/

theorem Commit.Parts.thinned {commits : List Commit} (quiet : scene.hooks.WriteNothing)
    (parts : Parts scene before commits after)
    (kinds : ∀ commit ∈ commits, commit.kind = .deleteMembership)
    (thinned : Thinned start before) :
    (∀ commit ∈ commits, Thinned start commit.after) ∧ Thinned start after := by
  induction parts with
  | none => exact ⟨by simp, thinned⟩
  | next subtask output turns _ ih =>
      have kind := kinds _ List.mem_cons_self
      -- Of the subtasks only the removal of a row has this kind.
      cases subtask with
      | deleteMembership id =>
          obtain rfl := deleteMembershipRow_effect quiet turns
          have next := thinned.removeMembership id
          obtain ⟨others, last⟩ :=
            ih (fun other inside => kinds other (List.mem_cons_of_mem _ inside)) next
          exact ⟨List.forall_mem_cons.mpr ⟨next, others⟩, last⟩
      | deleteItem id => cases kind
      | copyItem source path top => cases kind
      | updateMembership id permission => cases kind

theorem Commit.Chain.thinned {commits : List Commit} {id : Id} {purgeBelow : Bool}
    (quiet : scene.hooks.WriteNothing) (indexed : before.Indexed)
    (chain : Chain scene (.deleteMembership id purgeBelow) before commits after)
    (kinds : ∀ commit ∈ commits, commit.kind = .deleteMembership) :
    (∀ commit ∈ commits, Thinned before commit.after) ∧ Thinned before after := by
  cases chain with
  | parts parts => exact parts.thinned quiet kinds (.refl indexed)
  | whole output turns =>
      obtain ⟨_, work, done, _, rfl, gives, rfl⟩ := turns
      obtain ⟨row, _, _, removed⟩ := Action.deleteMembership_gives quiet gives
      have thinned : Thinned work.tables done.tables := by
        generalize done.tables = rows at removed
        cases removed
        exact (Thinned.refl indexed).removeMembership row.id
      exact ⟨List.forall_mem_singleton.mpr thinned, thinned⟩

/-- What a removal reports are removals of memberships. -/
theorem Outcome.removals {id : Id} {purgeBelow : Bool} {cascade : Cascade}
    (outcome : Outcome scene (.deleteMembership id purgeBelow) before (.ok cascade) after) :
    ∀ told ∈ cascade.completed, told.kind = .deleteMembership := by
  cases outcome with
  | done output turns => simp [Cascade.direct, Task.kind]
  | split cascade done left turns committed _ report =>
      obtain ⟨_, work, planned, _, _, gives, _⟩ := turns
      obtain ⟨row, _, _, withdrawn⟩ := Action.deleteMembership_chosen gives
      generalize plan : TaskStep.delegated (done.map Prod.fst ++ left) = step at withdrawn
      cases withdrawn with
      | alone => cases plan
      | planned =>
          intro told inside
          rw [report] at inside
          obtain ⟨ran, listed, kind, _⟩ := mem_numbered inside
          have among := List.mem_append_left left (List.mem_map_of_mem (f := Prod.fst) listed)
          rw [TaskStep.delegated.inj plan] at among
          obtain ⟨other, _, same⟩ := List.mem_map.mp among
          rw [kind, ← same]
          rfl

theorem Outcome.removing {id : Id} {purgeBelow : Bool} {result : Except Error Cascade}
    (outcome : Outcome scene (.deleteMembership id purgeBelow) before result after)
    {commits : List Commit}
    (outputs : commits.map (fun commit => (commit.kind, commit.output)) = reported result) :
    ∀ commit ∈ commits, commit.kind = .deleteMembership := by
  intro commit inside
  have told := List.mem_map_of_mem (f := fun commit => (commit.kind, commit.output)) inside
  rw [outputs] at told
  cases result with
  | error cause => cases told
  | ok cascade =>
      obtain ⟨other, listed, same⟩ := List.mem_map.mp told
      rw [← outcome.removals other listed]
      exact (congrArg Prod.fst same).symm

/-! What accounts are left with. -/

/-- Removing rows of an account on a path and below leaves other accounts what they hold, and the
account what it holds on other items. -/
theorem Removing.standing_kept {account holder : Id} {path : Path} (sound : before.Sound levels)
    (removing : Removing levels account path before after) {id : Id}
    (apart : holder = account → ∀ item, before.items[id]? = some item →
      path.covers item.path = false) :
    after.standing holder id = before.standing holder id := by
  rw [standing, standing, removing.items]
  split
  · rename_i item found
    refine held_eq removing.sound.indexed removing.sound.graded sound.indexed sound.graded
      fun level => grants_congr fun row own reaches => ⟨removing.fewer row, fun stands => ?_⟩
    -- A row that is gone was the account's and on the path or below, so it covers nothing else.
    refine removing.others row stands fun inside => ?_
    have outside := apart (own.symm.trans inside.1) item found
    rw [Path.covers_trans inside.2 reaches] at outside
    cases outside
  · rfl

namespace Tables

/-- Where a row was the closest, those left to its account are the ones above it. -/
theorem Sound.left_without {row : Membership} {place : Path} (sound : before.Sound levels)
    (stands : before.HasRow row) (closest : before.closestMembership? row.account place = some row)
    (other : Membership) :
    (before.removeMembership row.id).Reaches row.account place other ↔
      before.HasRow other ∧ other.account = row.account ∧
        other.itemPath.isAncestorOf row.itemPath = true := by
  have spans := (sound.indexed.closestMembership_reaches closest).2.2
  rw [Reaches, removeMembership_hasRow]
  constructor
  · rintro ⟨⟨different, found⟩, holder, reaches⟩
    have nearest := sound.indexed.closestMembership_nearest closest ⟨found, holder, reaches⟩
    refine ⟨found, holder, (Path.isAncestorOf_iff_covers _ _).mpr ⟨nearest, fun same => ?_⟩⟩
    exact different (congrArg Membership.id (sound.indexed.row_unique found stands same holder))
  · rintro ⟨found, holder, higher⟩
    refine ⟨⟨fun same => ?_, found⟩, holder,
      Path.covers_trans (Path.covers_of_isAncestorOf higher) spans⟩
    rw [found.same stands same] at higher
    exact ((Path.isAncestorOf_iff_covers _ _).mp higher).2 rfl

/-- Where a row was not the closest, it takes nothing away. -/
theorem Sound.grants_without {row : Membership} {place : Path} (sound : before.Sound levels)
    (stands : before.HasRow row)
    (farther : before.closestMembership? row.account place ≠ some row) (level : Permission) :
    (before.removeMembership row.id).Grants row.account place level ↔
      before.Grants row.account place level := by
  constructor
  · exact grants_mono fun other found => ((before.removeMembership_hasRow row.id other).mp found).2
  · rw [sound.indexed.grants_iff_closest sound.graded]
    rintro ⟨closest, found, enough⟩
    obtain ⟨stands', holder, reaches⟩ := sound.indexed.closestMembership_reaches found
    refine ⟨closest, ⟨(before.removeMembership_hasRow _ _).mpr ⟨fun same => ?_, stands'⟩, holder,
      reaches⟩, enough⟩
    exact farther (stands'.same stands same ▸ found)

/-- Once an account has no rows left on a path and below, those it has left there are above. -/
theorem reaches_above {account : Id} {path place : Path} (spans : path.covers place = true)
    (left : ∀ row, after.HasRow row ↔ before.HasRow row ∧
      ¬ (row.account = account ∧ path.covers row.itemPath = true)) (row : Membership) :
    after.Reaches account place row ↔ before.HasRow row ∧ row.account = account ∧
      row.itemPath.isAncestorOf path = true := by
  rw [Reaches, left]
  constructor
  · rintro ⟨⟨found, apart⟩, holder, reaches⟩
    refine ⟨found, holder, ?_⟩
    -- Two paths above a third lie one above the other.
    rcases Path.covers_total reaches spans with above | below
    · refine (Path.isAncestorOf_iff_covers _ _).mpr ⟨above, fun same => apart ⟨holder, ?_⟩⟩
      rw [same]
      exact Path.covers_refl _
    · exact absurd ⟨holder, below⟩ apart
  · rintro ⟨found, holder, higher⟩
    refine ⟨⟨found, fun inside => ?_⟩, holder,
      Path.covers_trans (Path.covers_of_isAncestorOf higher) spans⟩
    have same := Path.covers_antisymm inside.2 (Path.covers_of_isAncestorOf higher)
    exact ((Path.isAncestorOf_iff_covers _ _).mp higher).2 same.symm

/-- The rows left once a removal with all rows below is through. -/
theorem Sound.left_purged {row : Membership} (sound : before.Sound levels)
    (stands : before.HasRow row) (other : Membership) :
    (before.removeMemberships ((before.membershipsBelow row.account row.itemPath ++ [row]).map
        Membership.id)).HasRow other ↔
      before.HasRow other ∧
        ¬ (other.account = row.account ∧ row.itemPath.covers other.itemPath = true) := by
  have listed := sound.indexed.mem_purged stands
  rw [removeMemberships_hasRow, List.mem_map]
  constructor
  · rintro ⟨unlisted, found⟩
    exact ⟨found, fun inside => unlisted ⟨other, (listed other).mpr ⟨found, inside⟩, rfl⟩⟩
  · rintro ⟨found, apart⟩
    refine ⟨fun ⟨same_id, inside, same⟩ => apart ?_, found⟩
    have stands' := (listed same_id).mp inside
    exact stands'.1.same found same ▸ stands'.2

end Tables

structure Narrowed (row : Membership) (purgeBelow : Bool) (cascade : Cascade)
    (before after : Tables) : Prop where
  items : after.items = before.items
  others : ∀ account id, account ≠ row.account →
    after.standing account id = before.standing account id
  outside : ∀ (id : Id) (item : Item), before.items[id]? = some item →
    row.itemPath.covers item.path = false →
    after.standing row.account id = before.standing row.account id
  purged : purgeBelow = true → cascade.failure = none →
    ∀ (id : Id) (item : Item), before.items[id]? = some item →
      row.itemPath.covers item.path = true →
      after.standing row.account id = before.heldAbove row.account row.itemPath
  revoked : purgeBelow = false → ∀ (id : Id) (item : Item), before.items[id]? = some item →
    after.standing row.account id =
      if before.closestMembership? row.account item.path = some row
      then before.heldAbove row.account row.itemPath
      else before.standing row.account id

theorem Revoked.narrowed {row : Membership} {purgeBelow : Bool} {cascade : Cascade}
    (revoked : Revoked row before purgeBelow cascade after) (sound : before.Sound levels)
    (stands : before.HasRow row) : Narrowed row purgeBelow cascade before after := by
  have removing := revoked.removing sound stands
  have indexed' := removing.sound.indexed
  have graded' := removing.sound.graded
  constructor
  case items => exact removing.items
  case others =>
    intro account other different
    exact removing.standing_kept sound fun same => absurd same different
  case outside =>
    intro other item known outside
    refine removing.standing_kept sound fun _ item' known' => ?_
    cases known.symm.trans known'
    exact outside
  case purged =>
    rintro rfl complete other item known spans
    cases revoked with
    | purged gone left rows whole =>
        obtain rfl := whole.mp complete
        rw [List.append_nil] at rows
        subst rows
        rw [standing_of_item (removing.items ▸ known)]
        exact sound.indexed.held_eq_heldAbove sound.graded indexed' graded'
          (reaches_above spans (sound.left_purged stands))
  case revoked =>
    rintro rfl other item known
    cases revoked with
    | alone =>
        rw [standing_of_item (removing.items ▸ known), standing_of_item known]
        split
        · rename_i closest
          exact sound.indexed.held_eq_heldAbove sound.graded indexed' graded'
            (sound.left_without stands closest)
        · rename_i farther
          exact held_eq indexed' graded' sound.indexed sound.graded
            (sound.grants_without stands farther)

/-- A removal never widens access, however far it gets and whatever it reports: in each state that is
committed on the way nobody holds more than before. Where it is not refused, other accounts hold
what they held; when it is through, the account is left with what it held above the path, wherever
the rows counted that are gone. -/
theorem revocation_narrows_access {allowed : Settings → Prop} {engine : Engine}
    (reached : Reached allowed engine.store.tables) (quiet : scene.hooks.WriteNothing) (id : Id)
    (purgeBelow : Bool) :
    (∃ commits, Commit.Chain scene (.deleteMembership id purgeBelow) engine.store.tables commits
        (engine.run scene (.deleteMembership id purgeBelow)).2.store.tables ∧
      commits.map (fun commit => (commit.kind, commit.output)) =
        reported (engine.run scene (.deleteMembership id purgeBelow)).1 ∧
      ∀ commit ∈ commits, engine.store.tables.NoWider commit.after) ∧
    engine.store.tables.NoWider
      (engine.run scene (.deleteMembership id purgeBelow)).2.store.tables ∧
    ∀ cascade, (engine.run scene (.deleteMembership id purgeBelow)).1 = .ok cascade →
      ∃ row, engine.store.tables.memberships[id]? = some row ∧
        Narrowed row purgeBelow cascade engine.store.tables
          (engine.run scene (.deleteMembership id purgeBelow)).2.store.tables := by
  obtain ⟨levels, sound⟩ := reached.sound
  obtain ⟨commits, chain, outputs⟩ :=
    engine.run_commits scene (.deleteMembership id purgeBelow) sound.indexed
  have outcome := engine.run_outcome scene (.deleteMembership id purgeBelow) sound.indexed
  generalize (engine.run scene (.deleteMembership id purgeBelow)).1 = result
    at outcome outputs ⊢
  generalize (engine.run scene (.deleteMembership id purgeBelow)).2.store.tables = after
    at outcome chain ⊢
  have thinned := chain.thinned quiet sound.indexed (outcome.removing outputs)
  refine ⟨⟨commits, chain, outputs, fun commit inside => (thinned.1 commit inside).noWider sound⟩,
    thinned.2.noWider sound, ?_⟩
  rintro cascade rfl
  obtain ⟨row, found, _, revoked⟩ := deleteMembership_revoked quiet outcome
  exact ⟨row, found, revoked.narrowed sound (sound.indexed.hasRow found)⟩

def Sample.purged : Cascade :=
  ((Cascade.delegated .deleteMembership (some upper.id) 2).complete
    ⟨0, .deleteMembership, lower.id, .membershipRemoved lower⟩).complete
      ⟨1, .deleteMembership, upper.id, .membershipRemoved upper⟩

theorem sample_revocation_narrows_access :
    (Sample.engine.run (Sample.sceneOf Sample.owner)
      (.deleteMembership Sample.upper.id true)).1 = .ok Sample.purged ∧
    Sample.engine.store.tables.NoWider (Sample.engine.run (Sample.sceneOf Sample.owner)
      (.deleteMembership Sample.upper.id true)).2.store.tables ∧
    ∃ row, Sample.engine.store.tables.memberships[Sample.upper.id]? = some row ∧
      Narrowed row true Sample.purged Sample.engine.store.tables
        (Sample.engine.run (Sample.sceneOf Sample.owner)
          (.deleteMembership Sample.upper.id true)).2.store.tables := by
  have ran : (Sample.engine.run (Sample.sceneOf Sample.owner)
      (.deleteMembership Sample.upper.id true)).1 = .ok Sample.purged := by
    decide +kernel
  obtain ⟨_, noWider, narrowed⟩ := revocation_narrows_access Sample.reached_any
    (Sample.quiet Sample.owner) Sample.upper.id true
  exact ⟨ran, noWider, narrowed _ ran⟩

end SharedTree
