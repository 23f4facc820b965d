import SharedTree.Proofs.Access.Authority
import SharedTree.Proofs.Action.Failure
import SharedTree.Proofs.Task.Copies
import SharedTree.Proofs.Task.Memberships
/-!
Why tasks are refused. On sound rows, with identifiers that are new, a task that is not let through
was told so by what it asked first: about the actor's permission, about a limit, or about a row that
it names itself (`Error.Expected`). No row operation fails, and neither does a lookup along a path.
-/
namespace SharedTree

/-- The errors to be expected of a request that names some rows: none of them comes from the store
or from rows that do not fit together, and no other row is missing. -/
def Error.Expected (names : List Id) : Error → Prop
  | itemNotFound id => id ∈ names
  | membershipNotFound id => id ∈ names
  | invalidPath _ => False
  | itemHasChildren _ => False
  | hook _ _ => False
  | storage _ => False
  | settings _ => False
  | _ => True

def Task.names : Task → List Id
  | createItem new => new.parent.toList
  | updateItem id _ => [id]
  | deleteItem id => [id]
  | moveItem id under => id :: under.toList
  | copyItem id under => id :: under.toList
  | createMembership item _ _ => [item]
  | updateMembership id _ => [id]
  | deleteMembership id _ => [id]

/-- From one number up to another, a supply gives identifiers that differ and that no row has. -/
structure Fresh (ids : Nat → Id) (number most : Nat) (tables : Tables) : Prop where
  items : ∀ n, number ≤ n → n < most → tables.items[ids n]? = none
  memberships : ∀ n, number ≤ n → n < most → tables.memberships[ids n]? = none
  distinct : ∀ m n, number ≤ m → m < n → n < most → ids m ≠ ids n

section Fresh

variable {ids : Nat → Id} {number most : Nat} {tables after : Tables}

theorem Fresh.later {more : Nat} (fresh : Fresh ids number most tables) (le : number ≤ more) :
    Fresh ids more most tables where
  items n from_more := fresh.items n (Nat.le_trans le from_more)
  memberships n from_more := fresh.memberships n (Nat.le_trans le from_more)
  distinct m n from_more := fresh.distinct m n (Nat.le_trans le from_more)

theorem Fresh.of_unused (fresh : Fresh ids number most tables)
    (items : ∀ id : Id, tables.items[id]? = none → after.items[id]? = none)
    (memberships : ∀ id : Id, tables.memberships[id]? = none → after.memberships[id]? = none) :
    Fresh ids number most after where
  items n above below := items _ (fresh.items n above below)
  memberships n above below := memberships _ (fresh.memberships n above below)
  distinct := fresh.distinct

theorem Fresh.putMembership (fresh : Fresh ids number most tables) {row : Membership}
    (drawn : row.id = ids number) :
    Fresh ids (number + 1) most (tables.putMembership row) where
  items n above below := by
    rw [Tables.putMembership_items]
    exact fresh.items n (Nat.le_of_succ_le above) below
  memberships n above below := by
    have other : ids n ≠ row.id := fun same =>
      fresh.distinct number n (Nat.le_refl _) above below (same.trans drawn).symm
    rw [Tables.putMembership_memberships, if_neg other]
    exact fresh.memberships n (Nat.le_of_succ_le above) below
  distinct m n above := fresh.distinct m n (Nat.le_of_succ_le above)

end Fresh

namespace Tables

variable {levels : Nat} {tables : Tables} {account : Id} {path : Path} {names : List Id}
  {cause : Error}

/-! What questions are answered with. -/

theorem getItem_expected {id : Id} (named : id ∈ names)
    (failed : tables.getItem id = .error cause) : cause.Expected names := by
  unfold getItem at failed
  split at failed <;> cases failed
  exact named

theorem getMembership_expected {id : Id} (named : id ∈ names)
    (failed : tables.getMembership id = .error cause) : cause.Expected names := by
  unfold getMembership at failed
  split at failed <;> cases failed
  exact named

theorem require_expected {item : Item} {required : Permission}
    (failed : tables.require account item required = .error cause) : cause.Expected names := by
  unfold require at failed
  split at failed
  · split at failed <;> cases failed
    trivial
  · cases failed
    trivial

theorem getItemFor_expected {id : Id} {required : Permission} (named : id ∈ names)
    (failed : tables.getItemFor account required id = .error cause) : cause.Expected names := by
  unfold getItemFor at failed
  cases got : tables.getItem id with
  | error other =>
      simp only [got, bind, Except.bind] at failed
      cases failed
      exact getItem_expected named got
  | ok item =>
      cases asked : tables.require account item required with
      | error other =>
          simp only [got, asked, bind, Except.bind] at failed
          cases failed
          exact require_expected asked
      | ok held => simp [got, asked, bind, Except.bind, pure, Except.pure] at failed

theorem ensureWithin_expected {count limit : Nat} (failed : ensureWithin count limit = .error cause) :
    cause.Expected names := by
  unfold ensureWithin at failed
  split at failed <;> cases failed
  trivial

theorem planWrite_expected {permission : Permission} {limit : Nat}
    (failed : tables.planWrite account path permission limit = .error cause) :
    cause.Expected names := by
  have stands (failed : (do
      let below := tables.redundantBelow account path permission
      ensureWithin below.length limit
      return WritePlan.write (tables.membershipAt? account path) below) = Except.error cause) :
      cause.Expected names := by
    cases within : ensureWithin (tables.redundantBelow account path permission).length limit with
    | error other =>
        simp only [within, bind, Except.bind] at failed
        cases failed
        exact ensureWithin_expected within
    | ok _ => simp [within, bind, Except.bind, pure, Except.pure] at failed
  unfold planWrite at failed
  simp only at failed
  cases inherits : tables.inherited? account path with
  | none =>
      rw [inherits] at failed
      exact stands failed
  | some above =>
      rw [inherits] at failed
      simp only at failed
      split at failed
      · cases failed
      · split at failed
        · cases failed
          trivial
        · exact stands failed

/-! Lookups along a path that a row has, and places that are free. -/

theorem Sound.item_carrying (sound : tables.Sound levels) {row : Membership}
    (stands : tables.HasRow row) : ∃ item, tables.getItemAt row.itemPath = .ok item := by
  obtain ⟨item, found, place⟩ := sound.shape.on_item row stands
  exact ⟨item, sound.indexed.getItemAt_of_hasItem found place⟩

theorem Sound.nothing_at (sound : tables.Sound levels) (unused : tables.items[path.id]? = none)
    (item : Item) (stands : tables.HasItem item) : item.path ≠ path := by
  rintro rfl
  rw [sound.shape.own_id item stands] at unused
  cases stands.symm.trans unused

theorem Sound.free_path (sound : tables.Sound levels) (unused : tables.items[path.id]? = none) :
    tables.itemPaths[path]? = none := by
  cases entry : tables.itemPaths[path]? with
  | none => rfl
  | some id =>
      obtain ⟨item, found, place⟩ := (sound.indexed.item_path path id).mp entry
      exact absurd place (sound.nothing_at unused item (sound.indexed.hasItem found))

theorem Sound.free_grant (sound : tables.Sound levels) (unused : tables.items[path.id]? = none)
    (account : Id) : tables.membershipIdAt? account path = none := by
  cases entry : tables.membershipIdAt? account path with
  | none => rfl
  | some id =>
      obtain ⟨row, found, place, _⟩ := (sound.indexed.membership_path path account id).mp entry
      obtain ⟨item, stands, there⟩ := sound.shape.on_item row (sound.indexed.hasRow found)
      exact absurd (there.trans place) (sound.nothing_at unused item stands)

theorem Indexed.vacant_grant (indexed : tables.Indexed)
    (vacant : tables.membershipAt? account path = none) :
    tables.membershipIdAt? account path = none := by
  cases entry : tables.membershipIdAt? account path with
  | none => rfl
  | some id =>
      obtain ⟨row, found, place, holder⟩ := (indexed.membership_path path account id).mp entry
      rw [(indexed.membershipAt_eq_some account path row).mpr
        ⟨indexed.hasRow found, place, holder⟩] at vacant
      cases vacant

/-! Where there are fewer memberships there is more room. -/

section Fewer

variable {after : Tables} (indexed : after.Indexed)
  (fewer : ∀ row, after.HasRow row → tables.HasRow row)
include indexed fewer

theorem Indexed.vacant_of_fewer (all : tables.Indexed)
    (vacant : tables.membershipAt? account path = none) :
    after.membershipIdAt? account path = none := by
  refine indexed.vacant_grant (Option.eq_none_iff_forall_ne_some.mpr fun row found => ?_)
  obtain ⟨stands, place⟩ := (indexed.membershipAt_eq_some account path row).mp found
  rw [(all.membershipAt_eq_some account path row).mpr ⟨fewer row stands, place⟩] at vacant
  cases vacant

theorem Indexed.unused_of_fewer {id : Id} (unused : tables.memberships[id]? = none) :
    after.memberships[id]? = none := by
  refine Option.eq_none_iff_forall_ne_some.mpr fun row found => ?_
  exact (fewer row (indexed.hasRow found)).id_ne unused (indexed.membership_id id row found)

end Fewer

end Tables

namespace Action

open SharedTree.Tables

variable {levels most : Nat} {scene : Scene} {work after : Work} {names : List Id}

theorem write_drawn {op : RowOp} {found : Bool} (wrote : (write op).Gives work found after) :
    after.drawn = work.drawn := by
  obtain ⟨_, _, rfl⟩ := (gives_write _ _).mp wrote
  rfl

theorem checkLevels_expected (levels : Nat) :
    (checkLevels scene levels).FailsOnly most (Error.Expected names) work :=
  failsOnly_ite _ (fun _ => failsOnly_throw trivial) fun _ => (neverFails_pure _).failsOnly

theorem checkDescendants_expected (id : Id) (rows : List Item) (limit : Nat) :
    (checkDescendants id rows limit).FailsOnly most (Error.Expected names) work :=
  failsOnly_ite _ (fun _ => failsOnly_throw trivial) fun _ => (neverFails_pure _).failsOnly

theorem optional_destination_expected {under : Option Id} (named : ∀ id ∈ under, id ∈ names) :
    (destination? scene under).FailsOnly most (Error.Expected names) work := by
  cases under with
  | none => exact (neverFails_pure _).failsOnly
  | some parent =>
      refine failsOnly_bind ?_ fun _ _ _ => (neverFails_pure _).failsOnly
      refine failsOnly_of_demand (fun _ => getItemFor_expected (named parent rfl)) fun folder _ => ?_
      exact failsOnly_ite _ (fun _ => (neverFails_pure _).failsOnly)
        fun _ => failsOnly_throw trivial

theorem grantCreator_neverFails {item : Item}
    (free : work.tables.membershipIdAt? scene.actor item.path = none)
    (unused : work.drawn < most → work.tables.memberships[scene.ids work.drawn]? = none) :
    (grantCreator scene item).NeverFails most work := by
  refine failsOnly_of_ask (failsOnly_ite _ (fun _ => failsOnly_of_draw ?_) fun _ =>
    neverFails_pure _)
  exact failsOnly_bind (neverFails_write_within fun within =>
    neverFails_insertMembership free (unused within)) fun _ _ _ => neverFails_pure _

/-- What is new has a place, and there its maker can be made its administrator. -/
theorem insertion_neverFails {item : Item} {next : Action TaskOutput}
    (sound : work.tables.Sound levels) (own_id : item.path.id = item.id)
    (unused : work.drawn ≤ most → work.tables.items[item.id]? = none)
    (later : ∀ after, after.drawn = work.drawn → after.tables = work.tables.putItem item →
      (∀ account, after.tables.membershipIdAt? account item.path = none) →
      next.NeverFails most after) :
    NeverFails most (do let _ ← write (.insertItem item); next) work := by
  refine failsOnly_bind (neverFails_write_within fun within =>
    neverFails_insertItem (unused within) (sound.free_path (own_id ▸ unused within)))
    fun _ after wrote => ?_
  obtain ⟨unused, _, put⟩ := gives_insertItem wrote
  refine later after (write_drawn wrote) put fun account => ?_
  rw [put, membershipIdAt_eq, putItem_membershipPaths, ← membershipIdAt_eq]
  exact sound.free_grant (own_id ▸ unused) account

section Bare

variable (bare : scene.hooks.pre = [])
include bare

theorem createItem_expected (sound : work.tables.Sound levels)
    (fresh : Fresh scene.ids work.drawn most work.tables) (new : NewItem) :
    (createItem scene new).FailsOnly most (Error.Expected new.parent.toList) work := by
  refine failsOnly_of_draw ?_
  refine failsOnly_bind (optional_destination_expected (by simp)) fun folder _ found => ?_
  obtain ⟨_, rfl⟩ := optional_destination_gives found
  refine failsOnly_bind (checkLevels_expected _) fun _ _ checked => ?_
  obtain ⟨_, rfl⟩ := gives_checkLevels checked
  refine failsOnly_of_callHooks bare (NeverFails.failsOnly ?_)
  refine insertion_neverFails sound
    (pathWithin_id folder _) (fresh.items _ (Nat.le_refl _)) fun after drawn put free => ?_
  refine failsOnly_bind (grantCreator_neverFails (free _) ?_) fun _ _ _ => neverFails_pure _
  rw [put, putItem_memberships, drawn]
  exact fresh.memberships _ (Nat.le_succ _)

theorem updateItem_expected (indexed : work.tables.Indexed) (id : Id) (patch : ItemPatch) :
    (updateItem scene id patch).FailsOnly most (Error.Expected [id]) work := by
  refine failsOnly_of_demand (fun _ => getItemFor_expected (List.mem_singleton_self id))
    fun item ok => failsOnly_of_callHooks bare (NeverFails.failsOnly ?_)
  have stands := indexed.hasItem (getItemFor_ok ok).1
  refine failsOnly_bind (neverFails_updateItem stands fun other entry => ?_)
    fun _ _ _ => neverFails_pure _
  obtain ⟨row, found, place⟩ := (indexed.item_path _ other).mp entry
  exact indexed.same_item found stands place

omit bare in
theorem planDelete_expected (id : Id) :
    (planDelete scene id).FailsOnly most (Error.Expected [id]) work := by
  refine failsOnly_of_demand (fun _ => getItemFor_expected (List.mem_singleton_self id))
    fun item _ => failsOnly_of_ask ?_
  exact failsOnly_bind (checkDescendants_expected _ _ _) fun _ _ _ => (neverFails_pure _).failsOnly

omit bare in
theorem deleteMemberships_neverFails (rows : List Membership) :
    (deleteMemberships rows).NeverFails most work :=
  failsOnly_forM (fun _ _ => True) (fun row _ _ _ => ⟨failsOnly_bind
    (neverFails_deleteMembership row.id) fun _ _ _ => neverFails_pure _, fun _ _ => trivial⟩) trivial

theorem removeMembership_neverFails (row : Membership) :
    (removeMembership scene row).NeverFails most work :=
  failsOnly_of_callHooks bare
    (failsOnly_bind (neverFails_deleteMembership _) fun _ _ _ => neverFails_pure _)

theorem createMembership_expected (indexed : work.tables.Indexed)
    (fresh : Fresh scene.ids work.drawn most work.tables) (item account : Id) (permission : Permission) :
    (createMembership scene item account permission).FailsOnly most (Error.Expected [item]) work := by
  refine failsOnly_of_demand (fun _ => getItemFor_expected (List.mem_singleton_self item))
    fun carrier _ => failsOnly_of_demand (fun _ => planWrite_expected) fun plan planned => ?_
  rcases planWrite_ok planned with ⟨_, rfl⟩ | ⟨_, rfl⟩
  · cases work.tables.membershipAt? account carrier.path with
    | none => exact (neverFails_pure _).failsOnly
    | some existing =>
        exact failsOnly_of_callHooks bare (failsOnly_bind
          (neverFails_deleteMembership _).failsOnly fun _ _ _ => (neverFails_pure _).failsOnly)
  · cases vacant : work.tables.membershipAt? account carrier.path with
    | some existing => exact failsOnly_throw trivial
    | none =>
        -- What goes away first leaves the place of the new row free and its identifier unused.
        refine failsOnly_of_draw (failsOnly_of_callHooks bare (NeverFails.failsOnly ?_))
        refine failsOnly_bind (deleteMemberships_neverFails _) fun _ cleared removed => ?_
        have same := deleteMemberships_gives removed
        have indexed' : cleared.tables.Indexed := same ▸ indexed.removeMemberships _
        have fewer (row : Membership) (stands : cleared.tables.HasRow row) :
            work.tables.HasRow row := by
          rw [same] at stands
          exact ((removeMemberships_hasRow _ _ _).mp stands).2
        have drawn := (deleteMemberships_built _).drawn_le_of_gives bare removed
        refine failsOnly_bind (neverFails_write_within fun within =>
          neverFails_insertMembership ?_ ?_) fun _ _ _ => neverFails_pure _
        · exact indexed'.vacant_of_fewer fewer indexed vacant
        · exact indexed'.unused_of_fewer fewer
            (fresh.memberships _ (Nat.le_refl _) (Nat.le_trans drawn within))

theorem changePermission_neverFails (indexed : work.tables.Indexed) {row : Membership}
    (stands : work.tables.HasRow row) (permission : Permission) :
    (changePermission scene row permission).NeverFails most work := by
  refine failsOnly_of_callHooks bare (failsOnly_bind (neverFails_updateMembership stands
    fun other entry => ?_) fun _ _ _ => neverFails_pure _)
  obtain ⟨found, known, place, holder⟩ := (indexed.membership_path _ _ other).mp entry
  exact indexed.same_membership known stands place holder

theorem updateMembership_expected (sound : work.tables.Sound levels) (id : Id)
    (permission : Permission) :
    (updateMembership scene id permission).FailsOnly most (Error.Expected [id]) work := by
  refine failsOnly_of_demand (fun _ => getMembership_expected (List.mem_singleton_self id))
    fun row ok => ?_
  have stands := sound.indexed.hasRow (getMembership_ok ok)
  obtain ⟨carrier, carried⟩ := sound.item_carrying stands
  refine failsOnly_of_demand (by simp [carried]) fun item _ =>
    failsOnly_of_demand (fun _ => require_expected) fun _ _ =>
    failsOnly_ite _ (fun _ => (neverFails_pure _).failsOnly) fun _ =>
    failsOnly_of_demand (fun _ => planWrite_expected) fun plan _ => ?_
  split
  · exact (neverFails_pure _).failsOnly
  · exact failsOnly_bind
      (changePermission_neverFails bare sound.indexed stands permission).failsOnly
      fun _ _ _ => (neverFails_pure _).failsOnly
  · exact (neverFails_pure _).failsOnly

theorem deleteMembership_expected (sound : work.tables.Sound levels) (id : Id)
    (purgeBelow : Bool) :
    (deleteMembership scene id purgeBelow).FailsOnly most (Error.Expected [id]) work := by
  refine failsOnly_of_demand (fun _ => getMembership_expected (List.mem_singleton_self id))
    fun row ok => ?_
  have removal : FailsOnly most (Error.Expected [id]) (do
      if purgeBelow then
        let below ← ask fun tables => tables.membershipsBelow row.account row.itemPath
        demand fun _ => ensureWithin (below.length + 1) scene.settings.maxItemMembershipsForDelete
        return TaskStep.delegated ((below ++ [row]).map fun row => .deleteMembership row.id)
      else return TaskStep.done (← removeMembership scene row)) work :=
    failsOnly_ite _
      (fun _ => failsOnly_of_ask (failsOnly_of_demand (fun _ => ensureWithin_expected) fun _ _ =>
        (neverFails_pure _).failsOnly))
      fun _ => failsOnly_bind (removeMembership_neverFails bare row).failsOnly
        fun _ _ _ => (neverFails_pure _).failsOnly
  obtain ⟨carrier, carried⟩ := sound.item_carrying (sound.indexed.hasRow (getMembership_ok ok))
  exact failsOnly_ite _
    (fun _ => failsOnly_of_demand (by simp [carried]) fun item _ =>
      failsOnly_of_demand (fun _ => require_expected) fun _ _ => removal)
    fun _ => removal

end Bare

end Action

end SharedTree
