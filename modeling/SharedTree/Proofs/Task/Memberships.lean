import SharedTree.Proofs.Task.Items
/-!
What the tasks on memberships do to the rows when they succeed. A row is only written where it
exceeds what its account inherits (`Exceeds`), and the rows of the account below that it would make
redundant go away before it.
-/
namespace SharedTree

namespace Tables

variable {tables : Tables} {account : Id} {path : Path} {permission : Permission}

def redundantBelow (tables : Tables) (account : Id) (path : Path) (permission : Permission) :
    List Membership :=
  (tables.membershipsBelow account path).filter fun row => decide (row.permission ≤ permission)

theorem getMembership_ok {id : Id} {row : Membership} (ok : tables.getMembership id = .ok row) :
    tables.memberships[id]? = some row := by
  unfold getMembership membership? at ok
  cases found : tables.memberships[id]? with
  | none => simp [found] at ok
  | some other => simpa [found] using ok

theorem getMembership_of_found {id : Id} {row : Membership}
    (found : tables.memberships[id]? = some row) : tables.getMembership id = .ok row := by
  rw [getMembership, membership?, found]

/-- A plan that is made either finds the level inherited already, or writes a row that exceeds what
is inherited. -/
theorem planWrite_ok {limit : Nat} {plan : WritePlan}
    (ok : tables.planWrite account path permission limit = .ok plan) :
    (tables.Inherits account path permission ∧
        plan = .redundant (tables.membershipAt? account path)) ∨
      (tables.Exceeds account path permission ∧
        plan = .write (tables.membershipAt? account path)
          (tables.redundantBelow account path permission)) := by
  have written (done : (do
      let below := tables.redundantBelow account path permission
      ensureWithin below.length limit
      return WritePlan.write (tables.membershipAt? account path) below) = Except.ok plan) :
      plan = .write (tables.membershipAt? account path)
        (tables.redundantBelow account path permission) := by
    simp only [ensureWithin] at done
    split at done
    · cases done
    · cases done
      rfl
  unfold planWrite at ok
  simp only at ok
  cases inherits : tables.inherited? account path with
  | none =>
      rw [inherits] at ok
      refine Or.inr ⟨?_, written ok⟩
      intro above known
      rw [inherits] at known
      cases known
  | some above =>
      rw [inherits] at ok
      simp only at ok
      split at ok
      · rename_i same
        cases ok
        exact Or.inl ⟨⟨above, inherits, same.symm⟩, rfl⟩
      · rename_i different
        split at ok
        · cases ok
        · rename_i enough
          refine Or.inr ⟨?_, written ok⟩
          intro other known
          rw [inherits] at known
          cases known
          exact lt_of_le_of_ne (not_lt.mp enough) (Ne.symm different)

end Tables

namespace Action

variable {scene : Scene} {work after : Work} {output : TaskOutput}

def Administers (scene : Scene) (tables : Tables) (path : Path) : Prop :=
  ∃ item, tables.itemAt? path = some item ∧
    tables.hasPermission scene.actor item.path .admin = true

inductive Given (scene : Scene) (path : Path) (account : Id) (permission : Permission)
    (before : Tables) : TaskOutput → Tables → Prop where
  | unchanged : before.Inherits account path permission →
      before.membershipAt? account path = none →
      Given scene path account permission before .unchanged before
  | removed (row : Membership) : before.Inherits account path permission →
      before.membershipAt? account path = some row →
      Given scene path account permission before (.membershipRemoved row)
        (before.removeMembership row.id)
  | written (id : Id) : before.Exceeds account path permission →
      (before.removeMemberships ((before.redundantBelow account path permission).map
        Membership.id)).memberships[id]? = none →
      Given scene path account permission before
        (.membership (.make id path account permission scene.actor scene.now))
        ((before.removeMemberships
          ((before.redundantBelow account path permission).map Membership.id)).putMembership
            (.make id path account permission scene.actor scene.now))

/-- What is written when a permission is given to an account on a path: the choice is made before
the hooks are called, and the rows are written after. -/
inductive GivenAfter (scene : Scene) (path : Path) (account : Id) (permission : Permission)
    (work : Work) : TaskOutput → Tables → Prop where
  | unchanged : work.tables.Inherits account path permission →
      work.tables.membershipAt? account path = none →
      GivenAfter scene path account permission work .unchanged work.tables
  | removed (row : Membership) (hooked : Work) : work.tables.Inherits account path permission →
      work.tables.membershipAt? account path = some row →
      Hooked scene .createMembership (.membership row) work hooked →
      GivenAfter scene path account permission work (.membershipRemoved row)
        (hooked.tables.removeMembership row.id)
  | written (id : Id) (cleared : List Id) (hooked : Work) :
      work.tables.Exceeds account path permission →
      cleared = (work.tables.redundantBelow account path permission).map Membership.id →
      Hooked scene .createMembership
        (.membership (.make id path account permission scene.actor scene.now)) work hooked →
      (hooked.tables.removeMemberships cleared).memberships[id]? = none →
      GivenAfter scene path account permission work
        (.membership (.make id path account permission scene.actor scene.now))
        ((hooked.tables.removeMemberships cleared).putMembership
          (.make id path account permission scene.actor scene.now))

theorem createMembership_hooked {itemId account : Id} {permission : Permission}
    (gives : (createMembership scene itemId account permission).Gives work output after) :
    ∃ item, work.tables.items[itemId]? = some item ∧
      work.tables.hasPermission scene.actor item.path .admin = true ∧
      GivenAfter scene item.path account permission work output after.tables := by
  obtain ⟨item, _, asked, rest⟩ := (gives_bind _ _ _).mp gives
  obtain ⟨ok, rfl⟩ := (gives_demand _ _).mp asked
  obtain ⟨stands, allowed⟩ := Tables.getItemFor_ok ok
  refine ⟨item, stands, allowed, ?_⟩
  obtain ⟨plan, _, planned, rest⟩ := (gives_bind _ _ _).mp rest
  obtain ⟨made, rfl⟩ := (gives_demand _ _).mp planned
  rcases Tables.planWrite_ok made with ⟨inherits, rfl⟩ | ⟨exceeds, rfl⟩
  · cases own : work.tables.membershipAt? account item.path with
    | none =>
        rw [own] at rest
        obtain ⟨rfl, rfl⟩ := (gives_pure _ _).mp rest
        exact .unchanged inherits own
    | some existing =>
        rw [own] at rest
        obtain ⟨_, hooked, called, rest⟩ := (gives_bind _ _ _).mp rest
        obtain ⟨_, removed, wrote, ended⟩ := (gives_bind _ _ _).mp rest
        obtain ⟨rfl, rfl⟩ := (gives_pure _ _).mp ended
        rw [gives_deleteMembership wrote]
        exact .removed existing hooked inherits own (hooked_of_gives called)
  · cases own : work.tables.membershipAt? account item.path with
    | some existing =>
        rw [own] at rest
        exact absurd rest (gives_throw _ _)
    | none =>
        rw [own] at rest
        obtain ⟨id, drawn, drew, rest⟩ := (gives_bind _ _ _).mp rest
        obtain ⟨_, rfl⟩ := (gives_draw _ _).mp drew
        obtain ⟨_, hooked, called, rest⟩ := (gives_bind _ _ _).mp rest
        obtain ⟨_, cleared, removed, rest⟩ := (gives_bind _ _ _).mp rest
        obtain ⟨_, inserted, wrote, ended⟩ := (gives_bind _ _ _).mp rest
        obtain ⟨rfl, rfl⟩ := (gives_pure _ _).mp ended
        obtain ⟨_, unused, put⟩ := gives_insertMembership wrote
        rw [deleteMemberships_gives removed] at unused put
        rw [put]
        exact .written id _ hooked exceeds rfl ⟨{ work with drawn := work.drawn + 1 }, rfl, called⟩
          unused

theorem createMembership_gives {itemId account : Id} {permission : Permission}
    (quiet : scene.hooks.WriteNothing)
    (gives : (createMembership scene itemId account permission).Gives work output after) :
    ∃ item, work.tables.items[itemId]? = some item ∧
      work.tables.hasPermission scene.actor item.path .admin = true ∧
      Given scene item.path account permission work.tables output after.tables := by
  obtain ⟨item, stands, allowed, given_after⟩ := createMembership_hooked gives
  refine ⟨item, stands, allowed, ?_⟩
  generalize after.tables = rows at given_after ⊢
  cases given_after with
  | unchanged inherits own => exact .unchanged inherits own
  | removed existing hooked inherits own called =>
      rw [called.quiet quiet]
      exact .removed existing inherits own
  | written id cleared hooked exceeds same called unused =>
      subst same
      rw [called.quiet quiet] at unused ⊢
      exact .written id exceeds unused

theorem changePermission_hooked {row : Membership} {permission : Permission}
    (gives : (changePermission scene row permission).Gives work output after) :
    ∃ hooked, Hooked scene .updateMembership
        (.membership { row with permission, updatedAt := scene.now }) work hooked ∧
      output = .membership { row with permission, updatedAt := scene.now } ∧
      after.tables =
        hooked.tables.putMembership { row with permission, updatedAt := scene.now } := by
  obtain ⟨_, hooked, called, rest⟩ := (gives_bind _ _ _).mp gives
  obtain ⟨_, updated, wrote, ended⟩ := (gives_bind _ _ _).mp rest
  obtain ⟨rfl, rfl⟩ := (gives_pure _ _).mp ended
  obtain ⟨_, _, put⟩ := gives_updateMembership wrote
  exact ⟨hooked, hooked_of_gives called, rfl, put⟩

theorem changePermission_gives {row : Membership} {permission : Permission}
    (quiet : scene.hooks.WriteNothing)
    (gives : (changePermission scene row permission).Gives work output after) :
    output = .membership { row with permission, updatedAt := scene.now } ∧
      after.tables = work.tables.putMembership { row with permission, updatedAt := scene.now } := by
  obtain ⟨hooked, called, told, put⟩ := changePermission_hooked gives
  exact ⟨told, by rw [put, called.quiet quiet]⟩

inductive Changed (scene : Scene) (row : Membership) (permission : Permission) (before : Tables) :
    TaskStep → Tables → Prop where
  | unchanged : row.permission = permission →
      Changed scene row permission before (.done .unchanged) before
  | written : before.Exceeds row.account row.itemPath permission →
      before.redundantBelow row.account row.itemPath permission = [] →
      Changed scene row permission before
        (.done (.membership { row with permission, updatedAt := scene.now }))
        (before.putMembership { row with permission, updatedAt := scene.now })
  | redundant : before.Inherits row.account row.itemPath permission →
      Changed scene row permission before (.delegated [.deleteMembership row.id]) before
  | planned : before.Exceeds row.account row.itemPath permission →
      Changed scene row permission before
        (.delegated
          ((before.redundantBelow row.account row.itemPath permission).map
            (fun below => .deleteMembership below.id) ++ [.updateMembership row.id permission]))
        before

inductive Chosen (scene : Scene) (row : Membership) (permission : Permission) (work after : Work) :
    TaskStep → Prop where
  | unchanged : row.permission = permission → after = work →
      Chosen scene row permission work after (.done .unchanged)
  | changing (output : TaskOutput) :
      work.tables.Exceeds row.account row.itemPath permission →
      work.tables.redundantBelow row.account row.itemPath permission = [] →
      (changePermission scene row permission).Gives work output after →
      Chosen scene row permission work after (.done output)
  | redundant : work.tables.Inherits row.account row.itemPath permission → after = work →
      Chosen scene row permission work after (.delegated [.deleteMembership row.id])
  | planned : work.tables.Exceeds row.account row.itemPath permission → after = work →
      Chosen scene row permission work after
        (.delegated
          ((work.tables.redundantBelow row.account row.itemPath permission).map
            (fun below => .deleteMembership below.id) ++ [.updateMembership row.id permission]))

theorem updateMembership_chosen {id : Id} {permission : Permission} {step : TaskStep}
    (indexed : work.tables.Indexed)
    (gives : (updateMembership scene id permission).Gives work step after) :
    ∃ row, work.tables.memberships[id]? = some row ∧ Administers scene work.tables row.itemPath ∧
      Chosen scene row permission work after step := by
  obtain ⟨row, _, asked, rest⟩ := (gives_bind _ _ _).mp gives
  obtain ⟨ok, rfl⟩ := (gives_demand _ _).mp asked
  have stands := Tables.getMembership_ok ok
  have own_id := indexed.membership_id id row stands
  obtain ⟨item, _, carried, rest⟩ := (gives_bind _ _ _).mp rest
  obtain ⟨at_path, rfl⟩ := (gives_demand _ _).mp carried
  obtain ⟨_, _, required, rest⟩ := (gives_bind _ _ _).mp rest
  obtain ⟨allowed, rfl⟩ := (gives_demand _ _).mp required
  refine ⟨row, stands, ⟨item, Tables.getItemAt_ok at_path, Tables.require_ok allowed⟩, ?_⟩
  rcases (gives_ite _ _ _ _).mp rest with ⟨same, ended⟩ | ⟨_, rest⟩
  · obtain ⟨rfl, rfl⟩ := (gives_pure _ _).mp ended
    exact .unchanged same rfl
  · obtain ⟨plan, _, planned, rest⟩ := (gives_bind _ _ _).mp rest
    obtain ⟨made, rfl⟩ := (gives_demand _ _).mp planned
    rcases Tables.planWrite_ok made with ⟨inherits, rfl⟩ | ⟨exceeds, rfl⟩
    · obtain ⟨rfl, rfl⟩ := (gives_pure _ _).mp rest
      exact own_id ▸ .redundant inherits rfl
    · cases below : work.tables.redundantBelow row.account row.itemPath permission with
      | nil =>
          rw [below] at rest
          obtain ⟨output, _, changed, ended⟩ := (gives_bind _ _ _).mp rest
          obtain ⟨rfl, rfl⟩ := (gives_pure _ _).mp ended
          exact .changing output exceeds below changed
      | cons first others =>
          rw [below] at rest
          obtain ⟨rfl, rfl⟩ := (gives_pure _ _).mp rest
          rw [← below, ← own_id]
          exact .planned exceeds rfl

theorem updateMembership_gives {id : Id} {permission : Permission} {step : TaskStep}
    (quiet : scene.hooks.WriteNothing) (indexed : work.tables.Indexed)
    (gives : (updateMembership scene id permission).Gives work step after) :
    ∃ row, work.tables.memberships[id]? = some row ∧ Administers scene work.tables row.itemPath ∧
      Changed scene row permission work.tables step after.tables := by
  obtain ⟨row, stands, administers, chosen⟩ := updateMembership_chosen indexed gives
  refine ⟨row, stands, administers, ?_⟩
  cases chosen with
  | unchanged same kept =>
      subst kept
      exact .unchanged same
  | changing output exceeds below changed =>
      obtain ⟨rfl, put⟩ := changePermission_gives quiet changed
      rw [put]
      exact .written exceeds below
  | redundant inherits kept =>
      subst kept
      exact .redundant inherits
  | planned exceeds kept =>
      subst kept
      exact .planned exceeds

theorem updateMembershipRow_gives {id : Id} {permission : Permission}
    (quiet : scene.hooks.WriteNothing)
    (gives : (updateMembershipRow scene id permission).Gives work output after) :
    ∃ row, work.tables.memberships[id]? = some row ∧
      output = .membership { row with permission, updatedAt := scene.now } ∧
      after.tables = work.tables.putMembership { row with permission, updatedAt := scene.now } := by
  obtain ⟨row, _, asked, changed⟩ := (gives_bind _ _ _).mp gives
  obtain ⟨ok, rfl⟩ := (gives_demand _ _).mp asked
  exact ⟨row, Tables.getMembership_ok ok, changePermission_gives quiet changed⟩

theorem removeMembership_hooked {row : Membership}
    (gives : (removeMembership scene row).Gives work output after) :
    ∃ hooked, Hooked scene .deleteMembership (.membership row) work hooked ∧
      output = .membershipRemoved row ∧
      after.tables = hooked.tables.removeMembership row.id := by
  obtain ⟨_, hooked, called, rest⟩ := (gives_bind _ _ _).mp gives
  obtain ⟨_, removed, wrote, ended⟩ := (gives_bind _ _ _).mp rest
  obtain ⟨rfl, rfl⟩ := (gives_pure _ _).mp ended
  exact ⟨hooked, hooked_of_gives called, rfl, gives_deleteMembership wrote⟩

theorem removeMembership_gives {row : Membership} (quiet : scene.hooks.WriteNothing)
    (gives : (removeMembership scene row).Gives work output after) :
    output = .membershipRemoved row ∧ after.tables = work.tables.removeMembership row.id := by
  obtain ⟨hooked, called, told, gone⟩ := removeMembership_hooked gives
  exact ⟨told, by rw [gone, called.quiet quiet]⟩

inductive Removed (row : Membership) (before : Tables) : TaskStep → Tables → Prop where
  | done : Removed row before (.done (.membershipRemoved row)) (before.removeMembership row.id)
  | planned :
      Removed row before
        (.delegated ((before.membershipsBelow row.account row.itemPath ++ [row]).map
          fun below => .deleteMembership below.id))
        before

inductive Withdrawn (scene : Scene) (row : Membership) (work after : Work) :
    Bool → TaskStep → Prop where
  | alone (output : TaskOutput) : (removeMembership scene row).Gives work output after →
      Withdrawn scene row work after false (.done output)
  | planned :
      (work.tables.membershipsBelow row.account row.itemPath).length <
        scene.settings.maxItemMembershipsForDelete →
      after = work →
      Withdrawn scene row work after true
        (.delegated ((work.tables.membershipsBelow row.account row.itemPath ++ [row]).map
          fun below => .deleteMembership below.id))

theorem ensureWithin_ok {count limit : Nat} (ok : ensureWithin count limit = .ok ()) :
    count ≤ limit := by
  unfold ensureWithin at ok
  split at ok
  · cases ok
  · omega

theorem deleteMembership_chosen {id : Id} {purgeBelow : Bool} {step : TaskStep}
    (gives : (deleteMembership scene id purgeBelow).Gives work step after) :
    ∃ row, work.tables.memberships[id]? = some row ∧
      (row.account = scene.actor ∨ Administers scene work.tables row.itemPath) ∧
      Withdrawn scene row work after purgeBelow step := by
  obtain ⟨row, _, asked, rest⟩ := (gives_bind _ _ _).mp gives
  obtain ⟨ok, rfl⟩ := (gives_demand _ _).mp asked
  refine ⟨row, Tables.getMembership_ok ok, ?_⟩
  -- Once the actor is let through, the same is done for the own row and for another's.
  have removal (rest : Gives (do
      if purgeBelow then
        let below ← ask fun tables => tables.membershipsBelow row.account row.itemPath
        demand fun _ => ensureWithin (below.length + 1) scene.settings.maxItemMembershipsForDelete
        return TaskStep.delegated ((below ++ [row]).map fun row => .deleteMembership row.id)
      else return TaskStep.done (← removeMembership scene row)) work step after) :
      Withdrawn scene row work after purgeBelow step := by
    rcases (gives_ite _ _ _ _).mp rest with ⟨purges, rest⟩ | ⟨spares, rest⟩
    · obtain ⟨below, _, listed, rest⟩ := (gives_bind _ _ _).mp rest
      obtain ⟨rfl, rfl⟩ := (gives_ask _ _).mp listed
      obtain ⟨_, _, counted, ended⟩ := (gives_bind _ _ _).mp rest
      obtain ⟨within, rfl⟩ := (gives_demand _ _).mp counted
      obtain ⟨rfl, rfl⟩ := (gives_pure _ _).mp ended
      exact purges ▸ .planned (ensureWithin_ok within) rfl
    · obtain ⟨output, _, removed, ended⟩ := (gives_bind _ _ _).mp rest
      obtain ⟨rfl, rfl⟩ := (gives_pure _ _).mp ended
      exact Bool.eq_false_iff.mpr spares ▸ .alone output removed
  rcases (gives_ite _ _ _ _).mp rest with ⟨_, rest⟩ | ⟨own, rest⟩
  · obtain ⟨item, _, carried, rest⟩ := (gives_bind _ _ _).mp rest
    obtain ⟨at_path, rfl⟩ := (gives_demand _ _).mp carried
    obtain ⟨_, _, required, rest⟩ := (gives_bind _ _ _).mp rest
    obtain ⟨allowed, rfl⟩ := (gives_demand _ _).mp required
    exact ⟨Or.inr ⟨item, Tables.getItemAt_ok at_path, Tables.require_ok allowed⟩, removal rest⟩
  · exact ⟨Or.inl (not_not.mp own), removal rest⟩

theorem deleteMembership_gives {id : Id} {purgeBelow : Bool} {step : TaskStep}
    (quiet : scene.hooks.WriteNothing)
    (gives : (deleteMembership scene id purgeBelow).Gives work step after) :
    ∃ row, work.tables.memberships[id]? = some row ∧
      (row.account = scene.actor ∨ Administers scene work.tables row.itemPath) ∧
      Removed row work.tables step after.tables := by
  obtain ⟨row, stands, let_through, withdrawn⟩ := deleteMembership_chosen gives
  refine ⟨row, stands, let_through, ?_⟩
  cases withdrawn with
  | alone output removed =>
      obtain ⟨rfl, gone⟩ := removeMembership_gives quiet removed
      rw [gone]
      exact .done
  | planned _ kept =>
      rw [kept]
      exact .planned

/-- Whoever may remove a row may have those below it removed as well, if they are not too many. -/
theorem deleteMembership_given {id : Id} {row : Membership}
    (found : work.tables.memberships[id]? = some row)
    (allowed : row.account = scene.actor ∨ Administers scene work.tables row.itemPath)
    (within : (work.tables.membershipsBelow row.account row.itemPath).length <
      scene.settings.maxItemMembershipsForDelete) :
    (deleteMembership scene id true).Gives work
      (.delegated ((work.tables.membershipsBelow row.account row.itemPath ++ [row]).map
        fun below => .deleteMembership below.id)) work := by
  have counted : ensureWithin
      ((work.tables.membershipsBelow row.account row.itemPath).length + 1)
      scene.settings.maxItemMembershipsForDelete = .ok () := by
    rw [ensureWithin, if_neg (Nat.not_lt.mpr within)]
  have removal : Gives (do
      let below ← ask fun tables => tables.membershipsBelow row.account row.itemPath
      demand fun _ => ensureWithin (below.length + 1) scene.settings.maxItemMembershipsForDelete
      return TaskStep.delegated ((below ++ [row]).map fun row => .deleteMembership row.id)) work
      (.delegated ((work.tables.membershipsBelow row.account row.itemPath ++ [row]).map
        fun below => .deleteMembership below.id)) work := by
    refine (gives_bind _ _ _).mpr ⟨_, work, (gives_ask _ _).mpr ⟨rfl, rfl⟩, ?_⟩
    refine (gives_bind _ _ _).mpr ⟨(), work, (gives_demand _ _).mpr ⟨counted, rfl⟩, ?_⟩
    exact (gives_pure _ _).mpr ⟨rfl, rfl⟩
  refine (gives_bind _ _ _).mpr ⟨row, work,
    (gives_demand _ _).mpr ⟨Tables.getMembership_of_found found, rfl⟩, ?_⟩
  by_cases own : row.account = scene.actor
  · exact (gives_ite _ _ _ _).mpr (Or.inr ⟨not_not.mpr own, removal⟩)
  · obtain ⟨item, at_path, permitted⟩ := allowed.resolve_left own
    obtain ⟨held, required⟩ := Tables.require_of_permission permitted
    refine (gives_ite _ _ _ _).mpr (Or.inl ⟨own, ?_⟩)
    refine (gives_bind _ _ _).mpr ⟨item, work, (gives_demand _ _).mpr ⟨?_, rfl⟩, ?_⟩
    · simp [Tables.getItemAt, at_path]
    · exact (gives_bind _ _ _).mpr
        ⟨held, work, (gives_demand _ _).mpr ⟨required, rfl⟩, removal⟩

theorem deleteMembershipRow_gives {id : Id} (quiet : scene.hooks.WriteNothing)
    (gives : (deleteMembershipRow scene id).Gives work output after) :
    ∃ row, work.tables.memberships[id]? = some row ∧ output = .membershipRemoved row ∧
      after.tables = work.tables.removeMembership row.id := by
  obtain ⟨row, _, asked, removed⟩ := (gives_bind _ _ _).mp gives
  obtain ⟨ok, rfl⟩ := (gives_demand _ _).mp asked
  exact ⟨row, Tables.getMembership_ok ok, removeMembership_gives quiet removed⟩

end Action

end SharedTree
