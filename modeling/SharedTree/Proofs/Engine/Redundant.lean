import SharedTree.Engine.Requests
import SharedTree.Proofs.Engine.Access
/-!
Giving an account what it inherits. No row is written then, and a row of the account's own on the
item goes away. In rows that runs can reach such a row is stronger than what is inherited, so the
account loses access, wherever that row was the closest (`redundant_grant_access`); without such a
row nothing changes.
-/
namespace SharedTree

open SharedTree.Tables SharedTree.Action

variable {levels : Nat} {scene : Scene} {before after : Tables} {account : Id} {path : Path}
  {permission : Permission}

/-- A row on a path is stronger than what its account inherits there. -/
theorem Tables.Inherits.lt_own (inherits : before.Inherits account path permission)
    (sound : before.Sound levels) {row : Membership}
    (own : before.membershipAt? account path = some row) : permission < row.permission := by
  obtain ⟨stands, rfl, rfl⟩ := (sound.indexed.membershipAt_eq_some _ _ _).mp own
  obtain ⟨above, known, rfl⟩ := inherits
  obtain ⟨stands', holder, higher⟩ := sound.indexed.inherited_reaches known
  exact sound.graded above row stands' stands holder higher

/-- What is held without a row that was stronger than what is inherited: where the row was the
closest one, what is inherited counts. -/
theorem held_without_own (inherits : before.Inherits account path permission)
    (sound : before.Sound levels) {row : Membership}
    (own : before.membershipAt? account path = some row)
    (sound' : (before.removeMembership row.id).Sound levels) (holder : Id) (place : Path) :
    (before.removeMembership row.id).held holder place =
      if holder = account ∧ before.closestMembership? account place = some row then
        (permission : WithBot Permission)
      else before.held holder place := by
  have less := inherits.lt_own sound own
  obtain ⟨stands, here, owner⟩ := (sound.indexed.membershipAt_eq_some _ _ _).mp own
  have granting := Granting.of_removed inherits sound.indexed sound.graded stands here owner
  rw [granting.held sound.indexed sound.graded sound'.indexed sound'.graded]
  by_cases inside : holder = account ∧ path.covers place = true
  · obtain ⟨rfl, spans⟩ := inside
    have reaches : before.Reaches holder place row := ⟨stands, owner, here ▸ spans⟩
    rw [if_pos ⟨rfl, spans⟩, heldBelow, held, effectivePermission?]
    cases closest : before.closestMembership? holder place with
    | none => exact absurd reaches (sound.indexed.closestMembership_none closest row)
    | some other =>
        by_cases same : other = row
        · subst same
          have level : path.isAncestorOf other.itemPath = false := by
            rw [← Bool.not_eq_true]
            exact fun lower => ((Path.isAncestorOf_iff_covers _ _).mp lower).2 here.symm
          simp [level]
        · -- A closer row lies strictly below, so it is stronger still.
          obtain ⟨stands', holder', _⟩ := sound.indexed.closestMembership_reaches closest
          have nearest := sound.indexed.closestMembership_nearest closest reaches
          have apart : row.itemPath ≠ other.itemPath := fun equal =>
            same (sound.indexed.row_unique stands' stands equal.symm (holder'.trans owner.symm))
          have lower := (Path.isAncestorOf_iff_covers _ _).mpr ⟨nearest, apart⟩
          have more := sound.graded row other stands stands' (owner.trans holder'.symm) lower
          rw [here] at lower
          simp [lower, same, (less.trans more).le]
  · have elsewhere : ¬ (holder = account ∧ before.closestMembership? account place = some row) := by
      rintro ⟨rfl, closest⟩
      have spans := (sound.indexed.closestMembership_reaches closest).2.2
      exact inside ⟨rfl, here ▸ spans⟩
    rw [if_neg inside, if_neg elsewhere]

/-- A membership is asked for and none is written. The account inherits just what it was to get. If
it has no row of its own on the item, nobody's access changes. If it has one, that row gave more;
then the account holds what it inherits wherever that row was the closest one, and everything else
that is held stays as it was. -/
theorem redundant_grant_access {allowed : Settings → Prop} {engine : Engine}
    (reached : Reached allowed engine.store.tables) (quiet : scene.hooks.WriteNothing) {id : Id}
    (unwritten : (engine.runForMembership scene (.createMembership id account permission)).1 =
      .ok none) :
    ∃ item, engine.store.tables.items[id]? = some item ∧
      engine.store.tables.Inherits account item.path permission ∧
      (engine.store.tables.membershipAt? account item.path = none → ∀ holder other,
        (engine.runForMembership scene
            (.createMembership id account permission)).2.store.tables.standing holder other =
          engine.store.tables.standing holder other) ∧
      ∀ row, engine.store.tables.membershipAt? account item.path = some row →
        permission < row.permission ∧
        ∀ (other : Id) (place : Item), engine.store.tables.items[other]? = some place → ∀ holder,
          (engine.runForMembership scene
              (.createMembership id account permission)).2.store.tables.standing holder other =
            if holder = account ∧
                engine.store.tables.closestMembership? account place.path = some row then
              (permission : WithBot Permission)
            else engine.store.tables.standing holder other := by
  obtain ⟨levels, sound⟩ := reached.sound
  have sound := sound.mono (Nat.le_max_left levels scene.settings.maxTreeLevels)
  have outcome := engine.run_outcome scene (.createMembership id account permission) sound.indexed
  obtain ⟨sound', _⟩ := engine.run_effect (.createMembership id account permission) quiet
    (Nat.le_max_right _ _) sound
  unfold Engine.runForMembership Engine.runForOutput at unwritten ⊢
  generalize engine.run scene (.createMembership id account permission) = ran at *
  obtain ⟨result, after⟩ := ran
  cases result with
  | error cause => cases unwritten
  | ok cascade =>
      obtain ⟨output, rfl, turns⟩ := outcome.direct_of_done rfl
      obtain ⟨_, work, done, _, started, gives, ended⟩ := turns
      obtain ⟨item, found, _, given_rows⟩ := createMembership_gives quiet gives
      rw [started] at found given_rows
      rw [ended] at given_rows
      have silent : output.writtenMembership? = none := Except.ok.inj unwritten
      simp only at sound' given_rows ⊢
      generalize after.store.tables = rows at sound' given_rows ⊢
      cases given_rows with
      | unchanged inherits vacant =>
          refine ⟨item, found, inherits, fun _ _ _ => rfl, fun row own => ?_⟩
          rw [vacant] at own
          cases own
      | removed row inherits own =>
          refine ⟨item, found, inherits, fun vacant => ?_, fun other own' => ?_⟩
          · rw [own] at vacant
            cases vacant
          · cases own.symm.trans own'
            refine ⟨inherits.lt_own sound own, fun id place known holder => ?_⟩
            rw [standing_of_item known, standing_of_item (by rwa [removeMembership_items])]
            exact held_without_own inherits sound own sound' holder place.path
      | written => cases silent

/-- The guest can read the first folder and so inherits on the document what it is given there; but
it could write the document. -/
theorem sample_redundant_grant_access :
    (Sample.engine.runForMembership (Sample.sceneOf Sample.owner)
      (.createMembership Sample.document.id Sample.guest .read)).1 = .ok none ∧
    Permission.read < Sample.lower.permission ∧
    (Sample.engine.runForMembership (Sample.sceneOf Sample.owner)
        (.createMembership Sample.document.id Sample.guest .read)).2.store.tables.standing
          Sample.guest Sample.document.id =
      if Sample.guest = Sample.guest ∧ Sample.engine.store.tables.closestMembership? Sample.guest
          Sample.document.path = some Sample.lower then
        (Permission.read : WithBot Permission)
      else Sample.engine.store.tables.standing Sample.guest Sample.document.id := by
  have unwritten : (Sample.engine.runForMembership (Sample.sceneOf Sample.owner)
      (.createMembership Sample.document.id Sample.guest .read)).1 = .ok none := by
    decide +kernel
  obtain ⟨item, found, _, _, removed⟩ :=
    redundant_grant_access Sample.reached_any (Sample.quiet Sample.owner) unwritten
  have known : Sample.engine.store.tables.items[Sample.document.id]? = some Sample.document := by
    decide +kernel
  cases known.symm.trans found
  obtain ⟨less, access⟩ := removed Sample.lower (by decide +kernel)
  exact ⟨unwritten, less, access Sample.document.id Sample.document known Sample.guest⟩

theorem sample_redundant_grant_lowers_access :
    Reached (fun _ => True) Sample.engine.store.tables ∧
      (Sample.sceneOf Sample.owner).hooks.WriteNothing ∧
      (Sample.engine.runForMembership (Sample.sceneOf Sample.owner)
        (.createMembership Sample.document.id Sample.guest .read)).1 = .ok none ∧
      Sample.engine.store.tables.standing Sample.guest Sample.document.id = Permission.write ∧
      (Sample.engine.runForMembership (Sample.sceneOf Sample.owner)
        (.createMembership Sample.document.id Sample.guest .read)).2.store.tables.standing
          Sample.guest Sample.document.id = Permission.read :=
  ⟨Sample.reached_any, Sample.quiet Sample.owner, by decide +kernel, by decide +kernel,
    by decide +kernel⟩

end SharedTree
