import Mathlib.Order.MinMax
import SharedTree.Proofs.Effect.Memberships
/-!
What is left when a level was given to an account on a path, whichever way it was done: a row
written or changed, one removed that had become redundant, or nothing at all. In every case the
account holds just that level on the path, of its rows below those stay that give more, and nothing
else is different (`Granting`). What accounts hold afterwards follows from that (`Granting.held`).
-/
namespace SharedTree

namespace Tables

/-- What the closest membership of an account on a path gives it, if that one lies strictly below
another path. -/
def heldBelow (tables : Tables) (account : Id) (above path : Path) : WithBot Permission :=
  match tables.closestMembership? account path with
  | some row => if above.isAncestorOf row.itemPath then row.permission else ⊥
  | none => ⊥

/-- The tables without the rows of an account below a path that a level on the path makes
redundant. -/
def pruneBelow (tables : Tables) (account : Id) (path : Path) (permission : Permission) : Tables :=
  tables.removeMemberships ((tables.redundantBelow account path permission).map Membership.id)

structure Granting (account : Id) (path : Path) (permission : Permission) (before after : Tables) :
    Prop where
  items : after.items = before.items
  others : ∀ row, ¬ (row.account = account ∧ path.covers row.itemPath = true) →
    (after.HasRow row ↔ before.HasRow row)
  here : ∀ level, after.Grants account path level ↔ level ≤ permission
  below : ∀ row, row.account = account → path.isAncestorOf row.itemPath = true →
    (after.HasRow row ↔ before.HasRow row ∧ permission < row.permission)

variable {before after : Tables} {account : Id} {path : Path} {permission : Permission}

theorem Indexed.le_heldBelow_iff (indexed : before.Indexed) (graded : before.Graded) {place : Path}
    (level : Permission) :
    (level : WithBot Permission) ≤ before.heldBelow account path place ↔
      ∃ row, before.Reaches account place row ∧ path.isAncestorOf row.itemPath = true ∧
        level ≤ row.permission := by
  unfold heldBelow
  cases found : before.closestMembership? account place with
  | none =>
      have nothing := indexed.closestMembership_none found
      simp [nothing]
  | some closest =>
      have reaches := indexed.closestMembership_reaches found
      by_cases lower : path.isAncestorOf closest.itemPath = true
      · simp only [if_pos lower, WithBot.coe_le_coe]
        constructor
        · exact fun enough => ⟨closest, reaches, lower, enough⟩
        · rintro ⟨row, reaches', _, enough⟩
          exact enough.trans (indexed.closest_strongest graded found reaches')
      · -- Rows further up than the closest one are not below the path either.
        simp only [if_neg lower, WithBot.not_coe_le_bot, false_iff, not_exists, not_and]
        intro row reaches' lower'
        have nearest := indexed.closestMembership_nearest found reaches'
        exact absurd (Path.isAncestorOf_trans lower' nearest) lower

namespace Granting

variable (granting : Granting account path permission before after)
include granting

theorem grants_inside {place : Path} (inside : path.covers place = true) (level : Permission) :
    after.Grants account place level ↔
      level ≤ permission ∨
        ∃ row, before.Reaches account place row ∧ path.isAncestorOf row.itemPath = true ∧
          level ≤ row.permission := by
  constructor
  · rintro ⟨row, ⟨stands, holder, spans⟩, enough⟩
    cases higher : row.itemPath.covers path with
    | true => exact Or.inl ((granting.here level).mp ⟨row, ⟨stands, holder, higher⟩, enough⟩)
    | false =>
        have lower := Path.isAncestorOf_of_apart inside spans higher
        obtain ⟨stood, _⟩ := (granting.below row holder lower).mp stands
        exact Or.inr ⟨row, ⟨stood, holder, spans⟩, lower, enough⟩
  · rintro (most | ⟨row, ⟨stood, holder, spans⟩, lower, enough⟩)
    · exact grants_of_covers inside ((granting.here level).mpr most)
    · by_cases more : permission < row.permission
      · have stands := (granting.below row holder lower).mpr ⟨stood, more⟩
        exact ⟨row, ⟨stands, holder, spans⟩, enough⟩
      · have most := enough.trans (not_lt.mp more)
        exact grants_of_covers inside ((granting.here level).mpr most)

theorem grants_outside {holder : Id} {place : Path}
    (outside : ¬ (holder = account ∧ path.covers place = true)) (level : Permission) :
    after.Grants holder place level ↔ before.Grants holder place level :=
  grants_congr fun row own spans => granting.others row fun inside =>
    outside ⟨own.symm.trans inside.1, Path.covers_trans inside.2 spans⟩

theorem held (indexed : before.Indexed) (graded : before.Graded) (indexed' : after.Indexed)
    (graded' : after.Graded) (holder : Id) (place : Path) :
    after.held holder place =
      if holder = account ∧ path.covers place = true then
        max (permission : WithBot Permission) (before.heldBelow account path place)
      else before.held holder place := by
  split
  · rename_i inside
    obtain ⟨rfl, inside⟩ := inside
    refine eq_of_levels fun level => ?_
    rw [indexed'.le_held_iff graded', granting.grants_inside inside, le_max_iff,
      WithBot.coe_le_coe, indexed.le_heldBelow_iff graded]
  · rename_i outside
    exact held_eq indexed' graded' indexed graded fun level => granting.grants_outside outside level

end Granting

theorem Inherits.grants (inherits : before.Inherits account path permission)
    (indexed : before.Indexed) (graded : before.Graded)
    (fewer : ∀ row, after.HasRow row → before.HasRow row)
    (kept : ∀ row, before.HasRow row → row.itemPath ≠ path → after.HasRow row)
    (vacant : ∀ row, after.HasRow row → row.account = account → row.itemPath ≠ path)
    (level : Permission) : after.Grants account path level ↔ level ≤ permission := by
  obtain ⟨above, known, rfl⟩ := inherits
  obtain ⟨stands, holder, higher⟩ := indexed.inherited_reaches known
  constructor
  · rintro ⟨row, ⟨found, own, spans⟩, enough⟩
    have strict := (Path.isAncestorOf_iff_covers _ _).mpr ⟨spans, vacant row found own⟩
    exact enough.trans (indexed.inherited_strongest graded known (fewer row found) own strict)
  · intro most
    have apart := ((Path.isAncestorOf_iff_covers _ _).mp higher).2
    exact ⟨above, ⟨kept above stands apart, holder, Path.covers_of_isAncestorOf higher⟩, most⟩

theorem Inherits.lt_below (inherits : before.Inherits account path permission)
    (indexed : before.Indexed) (graded : before.Graded) {row : Membership}
    (stands : before.HasRow row) (holder : row.account = account)
    (lower : path.isAncestorOf row.itemPath = true) : permission < row.permission := by
  obtain ⟨above, known, rfl⟩ := inherits
  obtain ⟨stands', holder', higher⟩ := indexed.inherited_reaches known
  exact graded above row stands' stands (holder'.trans holder.symm)
    (Path.isAncestorOf_trans higher (Path.covers_of_isAncestorOf lower))

/-- A row with just the level stood on the path already. -/
theorem Granting.of_held (indexed : before.Indexed) (graded : before.Graded) {row : Membership}
    (stood : before.HasRow row) :
    Granting row.account row.itemPath row.permission before before where
  items := rfl
  others _ _ := Iff.rfl
  here := by
    intro level
    constructor
    · rintro ⟨other, ⟨stands, holder, spans⟩, enough⟩
      exact enough.trans (indexed.le_of_covers graded stands stood holder spans)
    · exact fun most => ⟨row, ⟨stood, rfl, Path.covers_refl _⟩, most⟩
  below := by
    intro other holder lower
    exact ⟨fun stands => ⟨stands, graded row other stood stands holder.symm lower⟩, And.left⟩

/-- The level was inherited already, and no row stood on the path. -/
theorem Granting.of_vacant (inherits : before.Inherits account path permission)
    (indexed : before.Indexed) (graded : before.Graded)
    (vacant : before.membershipAt? account path = none) :
    Granting account path permission before before where
  items := rfl
  others _ _ := Iff.rfl
  here := inherits.grants indexed graded (fun _ stands => stands) (fun _ stands _ => stands) <| by
    intro row stands holder place
    rw [(indexed.membershipAt_eq_some account path row).mpr ⟨stands, place, holder⟩] at vacant
    cases vacant
  below := by
    intro row holder lower
    exact ⟨fun stands => ⟨stands, inherits.lt_below indexed graded stands holder lower⟩, And.left⟩

/-- The level was inherited already, and the row on the path has gone. -/
theorem Granting.of_removed (inherits : before.Inherits account path permission)
    (indexed : before.Indexed) (graded : before.Graded) {own : Membership}
    (stood : before.HasRow own) (place : own.itemPath = path) (holder : own.account = account) :
    Granting account path permission before (before.removeMembership own.id) := by
  have stays (row : Membership) (apart : ¬ (row.account = account ∧ row.itemPath = path)) :
      (before.removeMembership own.id).HasRow row ↔ before.HasRow row := by
    rw [removeMembership_hasRow]
    refine ⟨And.right, fun stands => ⟨fun same => apart ?_, stands⟩⟩
    rw [stands.same stood same]
    exact ⟨holder, place⟩
  constructor
  case items => rw [removeMembership_items]
  case others =>
    intro row outside
    exact stays row fun same => outside ⟨same.1, same.2 ▸ Path.covers_refl _⟩
  case here =>
    refine inherits.grants indexed graded
      (fun row stands => ((before.removeMembership_hasRow own.id row).mp stands).2)
      (fun row stands apart => (stays row fun same => apart same.2).mpr stands) ?_
    intro row stands own_account own_path
    obtain ⟨different, stood'⟩ := (before.removeMembership_hasRow own.id row).mp stands
    exact different (congrArg Membership.id (indexed.row_unique stood' stood
      (own_path.trans place.symm) (own_account.trans holder.symm)))
  case below =>
    intro row own_account lower
    have apart := ((Path.isAncestorOf_iff_covers _ _).mp lower).2
    rw [stays row fun same => apart same.2.symm]
    exact ⟨fun stands => ⟨stands, inherits.lt_below indexed graded stands own_account lower⟩,
      And.left⟩

theorem Indexed.pruneBelow_hasRow (indexed : before.Indexed) (account : Id) (path : Path)
    (permission : Permission) (row : Membership) :
    (before.pruneBelow account path permission).HasRow row ↔
      before.HasRow row ∧ ¬ (row.account = account ∧ path.isAncestorOf row.itemPath = true ∧
        row.permission ≤ permission) := by
  rw [pruneBelow, removeMemberships_hasRow, List.mem_map]
  constructor
  · rintro ⟨unlisted, stood⟩
    refine ⟨stood, fun facts => unlisted ⟨row, ?_, rfl⟩⟩
    exact (indexed.mem_redundantBelow row).mpr ⟨stood, facts⟩
  · rintro ⟨stood, apart⟩
    refine ⟨fun listed => apart ?_, stood⟩
    obtain ⟨found, member, same⟩ := listed
    obtain ⟨stands, facts⟩ := (indexed.mem_redundantBelow found).mp member
    exact stands.same stood same ▸ facts

/-- The level is more than was inherited, the rows below that it makes redundant are gone, and a
row with the level stands on the path. -/
theorem Granting.of_written (exceeds : before.Exceeds account path permission)
    (indexed : before.Indexed) (graded : before.Graded) {row : Membership}
    (place : row.itemPath = path) (holder : row.account = account)
    (level : row.permission = permission)
    (replaced : ∀ old, (before.pruneBelow account path permission).HasRow old →
      old.id = row.id → old.account = account ∧ old.itemPath = path)
    (indexed' : ((before.pruneBelow account path permission).putMembership row).Indexed) :
    Granting account path permission before
      ((before.pruneBelow account path permission).putMembership row) := by
  have pruned := indexed.pruneBelow_hasRow account path permission
  have written := (before.pruneBelow account path permission).putMembership_hasRow row
  constructor
  case items => rw [putMembership_items, pruneBelow, removeMemberships_items]
  case others =>
    intro other outside
    rw [written, pruned]
    constructor
    · rintro (rfl | ⟨_, stood, _⟩)
      · exact absurd ⟨holder, place ▸ Path.covers_refl _⟩ outside
      · exact stood
    · intro stood
      have kept := (pruned other).mpr ⟨stood, fun facts =>
        outside ⟨facts.1, Path.covers_of_isAncestorOf facts.2.1⟩⟩
      refine Or.inr ⟨fun same => ?_, (pruned other).mp kept⟩
      obtain ⟨own, here⟩ := replaced other kept same
      exact outside ⟨own, here ▸ Path.covers_refl _⟩
  case here =>
    -- Rows above give less, and no other row of the account is on the path.
    have stands := (written row).mpr (Or.inl rfl)
    intro wanted
    constructor
    · rintro ⟨other, ⟨found, own, spans⟩, enough⟩
      by_cases here : other.itemPath = path
      · rw [indexed'.row_unique found stands (here.trans place.symm) (own.trans holder.symm),
          level] at enough
        exact enough
      · have higher := (Path.isAncestorOf_iff_covers _ _).mpr ⟨spans, here⟩
        rcases (written other).mp found with rfl | ⟨_, kept⟩
        · exact absurd place here
        · have stood := ((pruned other).mp kept).1
          exact enough.trans (indexed.exceeds_above graded exceeds stood own higher).le
    · intro most
      exact ⟨row, ⟨stands, holder, place ▸ Path.covers_refl _⟩, level ▸ most⟩
  case below =>
    intro other own lower
    have apart := ((Path.isAncestorOf_iff_covers _ _).mp lower).2
    rw [written, pruned]
    constructor
    · rintro (rfl | ⟨_, stood, kept⟩)
      · exact absurd place.symm apart
      · exact ⟨stood, not_le.mp fun weak => kept ⟨own, lower, weak⟩⟩
    · rintro ⟨stood, more⟩
      have kept := (pruned other).mpr ⟨stood, fun facts => not_le.mpr more facts.2.2⟩
      refine Or.inr ⟨fun same => ?_, (pruned other).mp kept⟩
      exact apart (replaced other kept same).2.symm

theorem Granting.of_changed {row : Membership} (now : Instant)
    (exceeds : before.Exceeds row.account row.itemPath permission)
    (indexed : before.Indexed) (graded : before.Graded) (stood : before.HasRow row)
    (indexed' : ((before.pruneBelow row.account row.itemPath permission).putMembership
      { row with permission, updatedAt := now }).Indexed) :
    Granting row.account row.itemPath permission before
      ((before.pruneBelow row.account row.itemPath permission).putMembership
        { row with permission, updatedAt := now }) := by
  refine .of_written exceeds indexed graded rfl rfl rfl ?_ indexed'
  intro old kept same
  have stood' := ((indexed.pruneBelow_hasRow _ _ _ old).mp kept).1
  rw [stood'.same stood same]
  exact ⟨rfl, rfl⟩

end Tables

open SharedTree.Tables SharedTree.Action

variable {levels : Nat} {scene : Scene} {before after : Tables}

theorem createMembership_granting {id account : Id} {permission : Permission} {output : TaskOutput}
    (quiet : scene.hooks.WriteNothing) (sound : before.Sound levels)
    (turns : (createMembership scene id account permission).Turns before output after) :
    ∃ item, before.items[id]? = some item ∧
      Granting account item.path permission before after := by
  obtain ⟨_, indexed⟩ := turns.indexed (createMembership_built id account permission)
  obtain ⟨_, work, done, _, rfl, gives, rfl⟩ := turns
  obtain ⟨item, found, _, given_rows⟩ := createMembership_gives quiet gives
  refine ⟨item, found, ?_⟩
  generalize done.tables = rows at given_rows indexed
  cases given_rows with
  | unchanged inherits vacant => exact .of_vacant inherits sound.indexed sound.graded vacant
  | removed row inherits own =>
      obtain ⟨stood, place, holder⟩ := (sound.indexed.membershipAt_eq_some _ _ _).mp own
      exact .of_removed inherits sound.indexed sound.graded stood place holder
  | written drawn exceeds unused =>
      refine .of_written exceeds sound.indexed sound.graded rfl rfl rfl ?_ indexed
      exact fun old kept same => absurd same (kept.id_ne unused)

theorem Committed.prunes (quiet : scene.hooks.WriteNothing) (rows : List Membership)
    {rest : List SubTask} {done : List (SubTask × TaskOutput)}
    (planned : done.map Prod.fst = rows.map (fun row => .deleteMembership row.id) ++ rest)
    (committed : Committed scene before done after) :
    ∃ later, later.map Prod.fst = rest ∧
      Committed scene (before.removeMemberships (rows.map Membership.id)) later after := by
  induction rows generalizing before done with
  | nil => exact ⟨done, planned, committed⟩
  | cons row others ih =>
      cases committed with
      | none => cases planned
      | @next _ middle _ subtask output others' turns later =>
          rw [List.map_cons, List.map_cons, List.cons_append, List.cons.injEq] at planned
          obtain ⟨rfl, planned⟩ := planned
          obtain rfl := deleteMembershipRow_effect quiet turns
          exact ih planned later

theorem Committed.changes {row : Membership} {permission : Permission}
    {done : List (SubTask × TaskOutput)} (quiet : scene.hooks.WriteNothing)
    (planned : done.map Prod.fst = [.updateMembership row.id permission])
    (committed : Committed scene before done after) (stands : before.HasRow row) :
    after = before.putMembership { row with permission, updatedAt := scene.now } := by
  cases committed with
  | none => cases planned
  | @next _ middle _ subtask output rest turns later =>
      rw [List.map_cons, List.cons.injEq, List.map_eq_nil_iff] at planned
      obtain ⟨rfl, rfl⟩ := planned
      cases later
      obtain ⟨_, work, done, _, rfl, gives, rfl⟩ := turns
      obtain ⟨other, found, _, put⟩ := updateMembershipRow_gives quiet gives
      cases stands.symm.trans found
      exact put

theorem updateMembership_granting {id : Id} {permission : Permission} {cascade : Cascade}
    (quiet : scene.hooks.WriteNothing) (sound : before.Sound levels) (indexed : after.Indexed)
    (complete : cascade.failure = none)
    (outcome : Outcome scene (.updateMembership id permission) before (.ok cascade) after) :
    ∃ row, before.memberships[id]? = some row ∧
      Granting row.account row.itemPath permission before after := by
  cases outcome with
  | done output turns =>
      obtain ⟨_, work, done, _, rfl, gives, rfl⟩ := turns
      obtain ⟨row, found, _, changed⟩ := updateMembership_gives quiet sound.indexed gives
      have stood := sound.indexed.hasRow found
      refine ⟨row, found, ?_⟩
      generalize done.tables = rows at changed indexed
      cases changed with
      | unchanged same => exact same ▸ .of_held sound.indexed sound.graded stood
      | written exceeds nothing_below =>
          have unpruned :
              work.tables.pruneBelow row.account row.itemPath permission = work.tables := by
            rw [pruneBelow, nothing_below]
            rfl
          have granting :=
            Granting.of_changed scene.now exceeds sound.indexed sound.graded stood
          rw [unpruned] at granting
          exact granting indexed
  | split _ done left turns committed whole _ =>
      -- The whole plan was committed: one removal, or the removals and then the change.
      obtain rfl := whole.mp complete
      obtain ⟨_, work, planned, _, rfl, gives, rfl⟩ := turns
      obtain ⟨row, found, _, changed⟩ := updateMembership_gives quiet sound.indexed gives
      have stood := sound.indexed.hasRow found
      refine ⟨row, found, ?_⟩
      rw [List.append_nil] at changed
      generalize plan : TaskStep.delegated (done.map Prod.fst) = step at changed
      generalize planned.tables = rows at changed committed
      cases changed with
      | unchanged => cases plan
      | written => cases plan
      | redundant inherits =>
          have shape : done.map Prod.fst = [row].map (fun row => .deleteMembership row.id) ++ [] :=
            TaskStep.delegated.inj plan
          obtain ⟨later, nothing, committed⟩ := committed.prunes quiet [row] shape
          obtain rfl := List.map_eq_nil_iff.mp nothing
          cases committed
          exact .of_removed inherits sound.indexed sound.graded stood rfl rfl
      | planned exceeds =>
          obtain ⟨later, last, committed⟩ := committed.prunes quiet _ (TaskStep.delegated.inj plan)
          have kept :=
            (sound.indexed.pruneBelow_hasRow row.account row.itemPath permission row).mpr
              ⟨stood, fun facts => ((Path.isAncestorOf_iff_covers _ _).mp facts.2.1).2 rfl⟩
          obtain rfl := committed.changes quiet last kept
          exact .of_changed scene.now exceeds sound.indexed sound.graded stood indexed

end SharedTree
