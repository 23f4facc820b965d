import SharedTree.Proofs.Path.Relocate
import SharedTree.Proofs.Task.Items
/-!
What a move does to the rows when it succeeds, pass by pass: the rows of the subtree get their new
paths (`Relocated`), grants from the old place are kept where they would be lost (`Keeps`), and from
the top down rows go away that no longer exceed what is inherited (`Prunes`).
-/
namespace SharedTree

def Item.relocate (item : Item) (old new : Path) : Item :=
  { item with path := item.path.relocate old new }

def Membership.relocate (row : Membership) (old new : Path) : Membership :=
  { row with itemPath := row.itemPath.relocate old new }

namespace Tables

variable {tables : Tables}

/-- Other data for an item leaves its descendants as they are. -/
theorem Indexed.descendant_stays (indexed : tables.Indexed) {item touched row : Item}
    (stands : tables.HasItem item) (same : touched.id = item.id)
    (listed : row ∈ tables.descendants item) : (tables.putItem touched).HasItem row := by
  obtain ⟨found, below⟩ := (indexed.mem_descendants item row stands).mp listed
  refine (putItem_hasItem _ _ _).mpr (Or.inr ⟨fun here => ?_, found⟩)
  rw [found.same stands (here.trans same)] at below
  exact ((Path.isAncestorOf_iff_covers _ _).mp below).2 rfl

def grantsAbove (tables : Tables) (path : Path) : List Membership :=
  match path.parent? with
  | some parent => tables.effectiveAt parent
  | none => []

theorem Indexed.mem_grantsAbove (indexed : tables.Indexed) (path : Path) (row : Membership) :
    row ∈ tables.grantsAbove path ↔ tables.inherited? row.account path = some row := by
  unfold grantsAbove inherited?
  cases path.parent? with
  | none => simp
  | some parent => simp [indexed.mem_effectiveAt]

structure Relocated (old new : Path) (before after : Tables) : Prop where
  indexed : after.Indexed
  items : ∀ id : Id, after.items[id]? = before.items[id]?.map fun item => item.relocate old new
  memberships : ∀ id : Id,
    after.memberships[id]? = before.memberships[id]?.map fun row => row.relocate old new

/-- Every grant still counts on a path, by a row that was there, by one above or by one added. -/
structure Keeps (path : Path) (grants : List Membership) (before after : Tables) : Prop where
  indexed : after.Indexed
  items : after.items = before.items
  kept : ∀ row, before.HasRow row → after.HasRow row
  added : ∀ row, after.HasRow row → before.HasRow row ∨
    (row.itemPath = path ∧
      ∃ grant ∈ grants, grant.account = row.account ∧ grant.permission = row.permission)
  granted : ∀ grant ∈ grants, ∃ row, after.HasRow row ∧ row.account = grant.account ∧
    (row.itemPath = path ∨
      (row.itemPath.isAncestorOf path = true ∧ grant.permission ≤ row.permission))

/-- Two rows of an account are in order, unless the lower one is still to be looked at. -/
def GradedBut (tables : Tables) (pending : List Membership) : Prop :=
  ∀ upper lower, tables.HasRow upper → tables.HasRow lower → upper.account = lower.account →
    upper.itemPath.isAncestorOf lower.itemPath = true →
    upper.permission < lower.permission ∨ lower ∈ pending

structure Prunes (may_go : Membership → Prop) (before after : Tables) : Prop where
  indexed : after.Indexed
  items : after.items = before.items
  fewer : ∀ row, after.HasRow row → before.HasRow row
  others : ∀ row, before.HasRow row → ¬ may_go row → after.HasRow row
  grants : ∀ account path level,
    after.Grants account path level ↔ before.Grants account path level

def Moved (item : Item) (path : Path) (grants : List Membership) (start after : Tables) : Prop :=
  ∃ placed kept, Relocated item.path path start placed ∧ placed.Keeps path grants kept ∧
    kept.Prunes (fun row => path.covers row.itemPath = true) after

namespace Relocated

variable {old new : Path} {before after : Tables} (relocated : Relocated old new before after)
include relocated

theorem hasItem_iff (item : Item) :
    after.HasItem item ↔ ∃ row, before.HasItem row ∧ row.relocate old new = item := by
  rw [HasItem, relocated.items, Option.map_eq_some_iff]
  constructor
  · rintro ⟨row, found, rfl⟩
    exact ⟨row, found, rfl⟩
  · rintro ⟨row, stands, rfl⟩
    exact ⟨row, stands, rfl⟩

theorem hasRow_iff (row : Membership) :
    after.HasRow row ↔ ∃ other, before.HasRow other ∧ other.relocate old new = row := by
  rw [HasRow, relocated.memberships, Option.map_eq_some_iff]
  constructor
  · rintro ⟨other, found, rfl⟩
    exact ⟨other, found, rfl⟩
  · rintro ⟨other, stands, rfl⟩
    exact ⟨other, stands, rfl⟩

theorem row_outside {row : Membership} (outside : new.covers row.itemPath = false)
    (stands : after.HasRow row) : before.HasRow row := by
  obtain ⟨other, stands', rfl⟩ := (relocated.hasRow_iff row).mp stands
  have apart : old.covers other.itemPath = false := by
    rw [← Bool.not_eq_true]
    intro inside
    have moved := Path.relocate_inside new inside
    rw [Membership.relocate] at outside
    rw [moved] at outside
    cases outside
  rw [Membership.relocate, Path.relocate_outside apart]
  exact stands'

end Relocated

/-- Outside of the new place the rows are the old ones, and in order as they were. -/
theorem Graded.outside {old new : Path} {grants : List Membership} {start placed kept : Tables}
    (graded : start.Graded) (relocated : Relocated old new start placed)
    (keeps : placed.Keeps new grants kept) {upper lower : Membership} (stands : kept.HasRow upper)
    (stands' : kept.HasRow lower) (holder : upper.account = lower.account)
    (above : upper.itemPath.isAncestorOf lower.itemPath = true)
    (outside : new.covers lower.itemPath = false) : upper.permission < lower.permission := by
  have original {row : Membership} (found : kept.HasRow row)
      (apart : new.covers row.itemPath = false) : start.HasRow row := by
    rcases keeps.added row found with found' | ⟨place, _⟩
    · exact relocated.row_outside apart found'
    · rw [place, Path.covers_refl] at apart
      cases apart
  have apart := Path.apart_of_covers outside (Path.covers_of_isAncestorOf above)
  exact graded upper lower (original stands apart) (original stands' outside) holder above

/-- A row that does not exceed what its account inherits can go without changing any grant. -/
theorem Indexed.grants_without (indexed : tables.Indexed) {row above : Membership}
    (known : ∀ other, tables.HasRow other → other.id = row.id → other = row)
    (inherits : tables.inherited? row.account row.itemPath = some above)
    (weak : row.permission ≤ above.permission) (account : Id) (path : Path) (level : Permission) :
    (tables.removeMembership row.id).Grants account path level ↔
      tables.Grants account path level := by
  obtain ⟨stands, holder, higher⟩ := indexed.inherited_reaches inherits
  constructor
  · exact grants_mono fun other found => ((tables.removeMembership_hasRow row.id other).mp found).2
  · rintro ⟨other, ⟨found, mine, spans⟩, enough⟩
    -- The row above stands in for the one that goes.
    by_cases same : other.id = row.id
    · cases known other found same
      have different : above.id ≠ row.id := by
        intro equal
        rw [found.same stands equal.symm] at higher
        exact ((Path.isAncestorOf_iff_covers _ _).mp higher).2 rfl
      have covers := (Path.isAncestorOf_iff_covers _ _).mp (Path.isAncestorOf_trans higher spans)
      exact ⟨above, ⟨(tables.removeMembership_hasRow _ _).mpr ⟨different, stands⟩,
        holder.trans mine, covers.1⟩, enough.trans weak⟩
    · exact ⟨other, ⟨(tables.removeMembership_hasRow _ _).mpr ⟨same, found⟩, mine, spans⟩, enough⟩

/-- A grant that a row already carries to the path needs no row of its own. -/
theorem Keeps.of_standing (indexed : tables.Indexed) {path : Path} {grant row : Membership}
    (stands : tables.HasRow row) (holder : row.account = grant.account)
    (counts : row.itemPath = path ∨
      (row.itemPath.isAncestorOf path = true ∧ grant.permission ≤ row.permission)) :
    tables.Keeps path [grant] tables := by
  refine ⟨indexed, rfl, fun _ => id, fun _ => Or.inl, ?_⟩
  intro other inside
  cases List.mem_singleton.mp inside
  exact ⟨row, stands, holder, counts⟩

/-- Any other grant gets a row on the path, under an unused identifier. -/
theorem Keeps.of_put (indexed : tables.Indexed) {path : Path} {grant row : Membership}
    (place : row.itemPath = path) (holder : row.account = grant.account)
    (level : row.permission = grant.permission) (unused : tables.memberships[row.id]? = none)
    (free : tables.membershipIdAt? row.account row.itemPath = none) :
    tables.Keeps path [grant] (tables.putMembership row) := by
  constructor
  case indexed => exact indexed.putMembership_own (by simp [free])
  case items => exact putMembership_items _ _
  case kept =>
    intro other stands
    exact (putMembership_hasRow _ _ _).mpr (Or.inr ⟨stands.id_ne unused, stands⟩)
  case added =>
    intro other stands
    rcases (putMembership_hasRow _ _ _).mp stands with rfl | ⟨_, stands'⟩
    · exact Or.inr ⟨place, grant, List.mem_singleton_self grant, holder.symm, level.symm⟩
    · exact Or.inl stands'
  case granted =>
    intro other inside
    cases List.mem_singleton.mp inside
    exact ⟨row, (putMembership_hasRow _ _ _).mpr (Or.inl rfl), holder, Or.inl place⟩

theorem Prunes.refl (indexed : tables.Indexed) (may_go : Membership → Prop) :
    tables.Prunes may_go tables :=
  ⟨indexed, rfl, fun _ => id, fun _ stands _ => stands, fun _ _ _ => Iff.rfl⟩

theorem Prunes.of_weak (indexed : tables.Indexed) {row above : Membership}
    (known : ∀ other, tables.HasRow other → other.id = row.id → other = row)
    (inherits : tables.inherited? row.account row.itemPath = some above)
    (weak : row.permission ≤ above.permission) :
    tables.Prunes (· = row) (tables.removeMembership row.id) := by
  refine ⟨indexed.removeMembership row.id, removeMembership_items _ _,
    fun other stands => ((removeMembership_hasRow _ _ _).mp stands).2, ?_,
    indexed.grants_without known inherits weak⟩
  intro other stands outside
  exact (removeMembership_hasRow _ _ _).mpr ⟨fun same => outside (known other stands same), stands⟩

theorem GradedBut.of_removed {row : Membership} {rest : List Membership}
    (graded : tables.GradedBut (row :: rest)) :
    (tables.removeMembership row.id).GradedBut rest := by
  intro upper lower stands stands' holder higher
  obtain ⟨_, stands⟩ := (removeMembership_hasRow _ _ _).mp stands
  obtain ⟨different, stands'⟩ := (removeMembership_hasRow _ _ _).mp stands'
  rcases graded upper lower stands stands' holder higher with less | inside
  · exact Or.inl less
  · rcases List.mem_cons.mp inside with rfl | inside
    · exact absurd rfl different
    · exact Or.inr inside

/-- A row that exceeds what its account inherits is in order with every row above it, once those
have been looked at. -/
theorem GradedBut.of_exceeds (indexed : tables.Indexed) {row : Membership} {rest : List Membership}
    (ordered : ∀ other ∈ rest, row.itemPath.levels ≤ other.itemPath.levels)
    (exceeds : tables.Exceeds row.account row.itemPath row.permission)
    (graded : tables.GradedBut (row :: rest)) : tables.GradedBut rest := by
  intro upper lower stands stands' holder higher
  rcases graded upper lower stands stands' holder higher with less | inside
  · exact Or.inl less
  rcases List.mem_cons.mp inside with rfl | inside
  · refine Or.inl ?_
    obtain ⟨above, inherits, spans⟩ := indexed.inherited_of_above stands holder higher
    obtain ⟨stands'', holder'', higher''⟩ := indexed.inherited_reaches inherits
    have holders := holder.trans holder''.symm
    by_cases same : upper.itemPath = above.itemPath
    · rw [indexed.row_unique stands stands'' same holders]
      exact exceeds above inherits
    · have between := (Path.isAncestorOf_iff_covers _ _).mpr ⟨spans, same⟩
      rcases graded upper above stands stands'' holders between with less | pending
      · exact less.trans (exceeds above inherits)
      · -- The closest row above comes before the row at hand, so it is not pending.
        have fewer := Path.levels_lt_of_isAncestorOf higher''
        rcases List.mem_cons.mp pending with rfl | pending
        · exact absurd fewer (Nat.lt_irrefl _)
        · exact absurd fewer (Nat.not_lt.mpr (ordered above pending))
  · exact Or.inr inside

end Tables

namespace Action

variable {scene : Scene} {work after : Work}

/-- A loop that puts another row in the place of each of the given ones has done so for all rows, if
those not given are as they should be already. -/
theorem replace_gives {Row Rest : Type} (key : Row → Id) (rowOf : Tables → Id → Option Row)
    (others : Tables → Rest) (replaced : Row → Row) (start : Id → Option Row)
    {body : Row → Action Unit} {rows : List Row}
    (turn : ∀ row work after, work.tables.Indexed → start (key row) = some row →
      (body row).Gives work () after →
        after.tables.Indexed ∧ others after.tables = others work.tables ∧
          ∀ id, rowOf after.tables id =
            if id = key row then some (replaced row) else rowOf work.tables id)
    (indexed : work.tables.Indexed) (known : ∀ row ∈ rows, start (key row) = some row)
    (outside : ∀ id, id ∉ rows.map key → rowOf work.tables id = (start id).map replaced)
    (gives : (rows.forM body).Gives work () after) :
    after.tables.Indexed ∧ others after.tables = others work.tables ∧
      ∀ id, rowOf after.tables id = (start id).map replaced := by
  induction rows generalizing work with
  | nil =>
      obtain ⟨_, rfl⟩ := (gives_pure _ _).mp gives
      exact ⟨indexed, rfl, fun id => outside id List.not_mem_nil⟩
  | cons row rest ih =>
      rw [List.forM_eq_forM, List.forM_cons] at gives
      obtain ⟨_, middle, first, later⟩ := (gives_bind _ _ _).mp gives
      have stands := known row List.mem_cons_self
      obtain ⟨indexed', same, put⟩ := turn row work middle indexed stands first
      have outside' (id : Id) (apart : id ∉ rest.map key) :
          rowOf middle.tables id = (start id).map replaced := by
        rw [put]
        split
        · rename_i here
          rw [here, stands, Option.map_some]
        · rename_i elsewhere
          exact outside id (by simpa [elsewhere] using apart)
      obtain ⟨indexed'', same', done⟩ := ih indexed'
        (fun other inside => known other (List.mem_cons_of_mem row inside)) outside' later
      exact ⟨indexed'', same'.trans same, done⟩

theorem rebaseItem_gives {old new : Path} {row : Item} (indexed : work.tables.Indexed)
    (gives : Gives (do
      let path ← ExceptT.mk (pure (row.path.rebase old new))
      let _ ← write (.updateItem { row with path })) work () after) :
    after.tables.Indexed ∧ after.tables.memberships = work.tables.memberships ∧
      ∀ id : Id, after.tables.items[id]? =
        if id = row.id then some (row.relocate old new) else work.tables.items[id]? := by
  obtain ⟨path, _, rebased, rest⟩ := (gives_bind _ _ _).mp gives
  obtain ⟨found, rfl⟩ := (gives_except _ _).mp rebased
  obtain ⟨_, updated, wrote, ended⟩ := (gives_bind _ _ _).mp rest
  obtain ⟨_, rfl⟩ := (gives_pure _ _).mp ended
  obtain ⟨_, taken, put⟩ := gives_updateItem wrote
  rw [put, Item.relocate, ← Path.relocate_of_rebase found]
  exact ⟨indexed.putItem_own taken, Tables.putItem_memberships _ _, Tables.putItem_items _ _⟩

theorem rebaseItems_gives {old new : Path} {rows : List Item} (start : Id → Option Item)
    (indexed : work.tables.Indexed) (known : ∀ row ∈ rows, start row.id = some row)
    (outside : ∀ id : Id, id ∉ rows.map Item.id →
      work.tables.items[id]? = (start id).map fun item => item.relocate old new)
    (gives : (rebaseItems old new rows).Gives work () after) :
    after.tables.Indexed ∧ after.tables.memberships = work.tables.memberships ∧
      ∀ id : Id, after.tables.items[id]? = (start id).map fun item => item.relocate old new := by
  exact replace_gives Item.id (fun tables id => tables.items[id]?) Tables.memberships _ start
    (fun _ _ _ indexed _ gives => rebaseItem_gives indexed gives) indexed known outside gives

theorem rebaseMembership_gives {old new : Path} {row : Membership} (indexed : work.tables.Indexed)
    (gives : Gives (do
      let itemPath ← ExceptT.mk (pure (row.itemPath.rebase old new))
      let _ ← write (.updateMembership { row with itemPath })) work () after) :
    after.tables.Indexed ∧ after.tables.items = work.tables.items ∧
      ∀ id : Id, after.tables.memberships[id]? =
        if id = row.id then some (row.relocate old new) else work.tables.memberships[id]? := by
  obtain ⟨path, _, rebased, rest⟩ := (gives_bind _ _ _).mp gives
  obtain ⟨found, rfl⟩ := (gives_except _ _).mp rebased
  obtain ⟨_, updated, wrote, ended⟩ := (gives_bind _ _ _).mp rest
  obtain ⟨_, rfl⟩ := (gives_pure _ _).mp ended
  obtain ⟨_, taken, put⟩ := gives_updateMembership wrote
  rw [put, Membership.relocate, ← Path.relocate_of_rebase found]
  exact ⟨indexed.putMembership_own taken, Tables.putMembership_items _ _,
    Tables.putMembership_memberships _ _⟩

theorem rebaseMemberships_gives {old new : Path} {rows : List Membership} (start : Tables)
    (indexed : work.tables.Indexed) (known : ∀ row ∈ rows, start.HasRow row)
    (outside : ∀ id : Id, id ∉ rows.map Membership.id →
      work.tables.memberships[id]? = start.memberships[id]?.map fun row => row.relocate old new)
    (gives : (rebaseMemberships old new rows).Gives work () after) :
    after.tables.Indexed ∧ after.tables.items = work.tables.items ∧
      ∀ id : Id, after.tables.memberships[id]? =
        start.memberships[id]?.map fun row => row.relocate old new := by
  exact replace_gives Membership.id (fun tables id => tables.memberships[id]?) Tables.items _
    (fun id => start.memberships[id]?)
    (fun _ _ _ indexed _ gives => rebaseMembership_gives indexed gives) indexed known outside gives

section Grant

variable {path : Path} {grant : Membership} (gives : Gives (do
  if (← ask fun tables => tables.membershipAt? grant.account path).isNone then
    let inherited ← ask fun tables => tables.inherited? grant.account path
    if inherited.all fun above => decide (above.permission < grant.permission) then
      let id ← draw scene
      let _ ← write (.insertMembership
        (.make id path grant.account grant.permission scene.actor scene.now))) work () after)
include gives

/-- One grant: a row is added unless the account has one on the path or inherits as much. -/
theorem keepGrant_cases :
    (after = work ∧ ((∃ row, work.tables.membershipAt? grant.account path = some row) ∨
      ∃ above, work.tables.inherited? grant.account path = some above ∧
        grant.permission ≤ above.permission)) ∨
    (work.tables.membershipIdAt? grant.account path = none ∧
      work.tables.memberships[scene.ids work.drawn]? = none ∧ after.drawn = work.drawn + 1 ∧
      after.tables = work.tables.putMembership (.make (scene.ids work.drawn) path grant.account
        grant.permission scene.actor scene.now)) := by
  obtain ⟨own, _, asked, rest⟩ := (gives_bind _ _ _).mp gives
  obtain ⟨rfl, rfl⟩ := (gives_ask _ _).mp asked
  rcases (gives_ite _ _ _ _).mp rest with ⟨_, rest⟩ | ⟨owned, ended⟩
  · obtain ⟨inherited, _, asked, rest⟩ := (gives_bind _ _ _).mp rest
    obtain ⟨rfl, rfl⟩ := (gives_ask _ _).mp asked
    rcases (gives_ite _ _ _ _).mp rest with ⟨_, rest⟩ | ⟨enough, ended⟩
    · obtain ⟨id, _, drew, rest⟩ := (gives_bind _ _ _).mp rest
      obtain ⟨rfl, rfl⟩ := (gives_draw _ _).mp drew
      obtain ⟨_, _, wrote, ended⟩ := (gives_bind _ _ _).mp rest
      obtain ⟨_, rfl⟩ := (gives_pure _ _).mp ended
      obtain ⟨free, unused, put⟩ := gives_insertMembership wrote
      obtain ⟨_, _, rfl⟩ := (gives_write _ _).mp wrote
      exact Or.inr ⟨free, unused, rfl, put⟩
    · obtain ⟨_, rfl⟩ := (gives_pure _ _).mp ended
      refine Or.inl ⟨rfl, Or.inr ?_⟩
      cases inherits : work.tables.inherited? grant.account path with
      | none => simp [inherits] at enough
      | some above => exact ⟨above, rfl, by simpa [inherits] using enough⟩
  · obtain ⟨_, rfl⟩ := (gives_pure _ _).mp ended
    refine Or.inl ⟨rfl, Or.inl ?_⟩
    cases known : work.tables.membershipAt? grant.account path with
    | none => simp [known] at owned
    | some row => exact ⟨row, rfl⟩

theorem keepGrant_gives (indexed : work.tables.Indexed) :
    work.tables.Keeps path [grant] after.tables := by
  rcases keepGrant_cases gives with ⟨rfl, ⟨row, known⟩ | ⟨above, inherits, enough⟩⟩ |
    ⟨free, unused, _, put⟩
  · obtain ⟨stands, place, holder⟩ := (indexed.membershipAt_eq_some _ _ _).mp known
    exact .of_standing indexed stands holder (Or.inl place)
  · obtain ⟨stands, holder, higher⟩ := indexed.inherited_reaches inherits
    exact .of_standing indexed stands holder (Or.inr ⟨higher, enough⟩)
  · rw [put]
    exact .of_put indexed rfl rfl rfl unused free

end Grant

theorem keepGrants_gives {path : Path} {grants : List Membership} (indexed : work.tables.Indexed)
    (gives : (keepGrants scene path grants).Gives work () after) :
    work.tables.Keeps path grants after.tables := by
  induction grants generalizing work with
  | nil =>
      obtain ⟨_, rfl⟩ := (gives_pure _ _).mp gives
      exact ⟨indexed, rfl, fun _ => id, fun _ => Or.inl, by simp⟩
  | cons grant rest ih =>
      rw [keepGrants, List.forM_eq_forM, List.forM_cons] at gives
      obtain ⟨_, middle, turn, later⟩ := (gives_bind _ _ _).mp gives
      have first := keepGrant_gives turn indexed
      have others := ih first.indexed later
      constructor
      case indexed => exact others.indexed
      case items => exact others.items.trans first.items
      case kept => exact fun row stands => others.kept row (first.kept row stands)
      case added =>
        intro row stands
        rcases others.added row stands with stands' | ⟨place, other, inside, like⟩
        · rcases first.added row stands' with stands'' | ⟨place, other, inside, like⟩
          · exact Or.inl stands''
          · cases List.mem_singleton.mp inside
            exact Or.inr ⟨place, grant, List.mem_cons_self, like⟩
        · exact Or.inr ⟨place, other, List.mem_cons_of_mem grant inside, like⟩
      case granted =>
        intro other inside
        rcases List.mem_cons.mp inside with rfl | inside'
        · obtain ⟨row, stands, counts⟩ := first.granted other (List.mem_singleton_self other)
          exact ⟨row, others.kept row stands, counts⟩
        · exact others.granted other inside'

/-- One row: it goes if it does not exceed what its account inherits. The rows come by their levels,
so those above have been looked at. -/
theorem pruneOne_gives {row : Membership} {rest : List Membership} (indexed : work.tables.Indexed)
    (known : ∀ other, work.tables.HasRow other → other.id = row.id → other = row)
    (ordered : ∀ other ∈ rest, row.itemPath.levels ≤ other.itemPath.levels)
    (graded : work.tables.GradedBut (row :: rest))
    (gives : Gives (do
      let inherited ← ask fun tables => tables.inherited? row.account row.itemPath
      if inherited.any fun above => decide (row.permission ≤ above.permission) then
        let _ ← write (.deleteMembership row.id)) work () after) :
    work.tables.Prunes (· = row) after.tables ∧ after.tables.GradedBut rest := by
  obtain ⟨inherited, _, asked, turn⟩ := (gives_bind _ _ _).mp gives
  obtain ⟨rfl, rfl⟩ := (gives_ask _ _).mp asked
  rcases (gives_ite _ _ _ _).mp turn with ⟨weak, turn⟩ | ⟨strong, ended⟩
  · obtain ⟨_, _, wrote, ended⟩ := (gives_bind _ _ _).mp turn
    obtain ⟨_, rfl⟩ := (gives_pure _ _).mp ended
    rw [gives_deleteMembership wrote]
    obtain ⟨above, inherits, weak⟩ : ∃ above,
        work.tables.inherited? row.account row.itemPath = some above ∧
          row.permission ≤ above.permission := by
      simpa [Option.any_eq_true] using weak
    exact ⟨.of_weak indexed known inherits weak, graded.of_removed⟩
  · obtain ⟨_, rfl⟩ := (gives_pure _ _).mp ended
    have exceeds : work.tables.Exceeds row.account row.itemPath row.permission := by
      intro above inherits
      simpa [inherits] using strong
    exact ⟨.refl indexed _, graded.of_exceeds indexed ordered exceeds⟩

theorem pruneRedundant_gives {rows : List Membership} (indexed : work.tables.Indexed)
    (known : ∀ row ∈ rows, ∀ other, work.tables.HasRow other → other.id = row.id → other = row)
    (ordered : rows.Pairwise fun a b => a.itemPath.levels ≤ b.itemPath.levels)
    (graded : work.tables.GradedBut rows) (gives : (pruneRedundant rows).Gives work () after) :
    work.tables.Prunes (· ∈ rows) after.tables ∧ after.tables.Graded := by
  induction rows generalizing work with
  | nil =>
      obtain ⟨_, rfl⟩ := (gives_pure _ _).mp gives
      refine ⟨.refl indexed _, ?_⟩
      intro upper lower stands stands' holder higher
      simpa using graded upper lower stands stands' holder higher
  | cons row rest ih =>
      rw [pruneRedundant, List.forM_eq_forM, List.forM_cons] at gives
      obtain ⟨_, middle, turn, later⟩ := (gives_bind _ _ _).mp gives
      obtain ⟨before, after⟩ := List.pairwise_cons.mp ordered
      obtain ⟨first, graded'⟩ :=
        pruneOne_gives indexed (known row List.mem_cons_self) before graded turn
      obtain ⟨others, graded''⟩ := ih first.indexed
        (fun other inside third stands => known other (List.mem_cons_of_mem row inside) third
          (first.fewer third stands)) after graded' later
      refine ⟨⟨others.indexed, others.items.trans first.items,
        fun other stands => first.fewer other (others.fewer other stands), ?_,
        fun account path level => (others.grants account path level).trans
          (first.grants account path level)⟩, graded''⟩
      intro other stands outside
      rw [List.mem_cons, not_or] at outside
      exact others.others other (first.others other stands outside.1) outside.2

/-- Whatever the rows are, the pass over them only takes some away. -/
theorem pruneRedundant_fewer {rows : List Membership}
    (gives : (pruneRedundant rows).Gives work () after) :
    after.tables.items = work.tables.items ∧
      ∀ row, after.tables.HasRow row → work.tables.HasRow row := by
  induction rows generalizing work with
  | nil =>
      obtain ⟨_, rfl⟩ := (gives_pure _ _).mp gives
      exact ⟨rfl, fun _ stands => stands⟩
  | cons row rest ih =>
      rw [pruneRedundant, List.forM_eq_forM, List.forM_cons] at gives
      obtain ⟨_, middle, turn, later⟩ := (gives_bind _ _ _).mp gives
      obtain ⟨_, _, asked, turn⟩ := (gives_bind _ _ _).mp turn
      obtain ⟨_, rfl⟩ := (gives_ask _ _).mp asked
      obtain ⟨items, fewer⟩ := ih later
      rcases (gives_ite _ _ _ _).mp turn with ⟨_, turn⟩ | ⟨_, ended⟩
      · obtain ⟨_, _, wrote, ended⟩ := (gives_bind _ _ _).mp turn
        obtain ⟨_, rfl⟩ := (gives_pure _ _).mp ended
        rw [gives_deleteMembership wrote] at items fewer
        exact ⟨items.trans (Tables.removeMembership_items _ _), fun other stands =>
          ((Tables.removeMembership_hasRow _ _ _).mp (fewer other stands)).2⟩
      · obtain ⟨_, rfl⟩ := (gives_pure _ _).mp ended
        exact ⟨items, fewer⟩

section Passes

variable {item : Item} {new : Path} {now : Instant} {before : Tables} {moved rebased placed : Work}
  (indexed : before.Indexed) (stands : before.HasItem item)
  (taken : ∀ other, before.itemPaths[new]? = some other → other = item.id)
  (put : moved.tables = before.putItem { item with path := new, updatedAt := now })

include indexed taken put in
omit stands in
/-- Once the moved item itself has its new path, the pass over rows that were listed before puts
these in the place of what stands under their identifiers, relocated. The new time is written
together with the new path; it is taken as written before. -/
theorem listed_relocated {origin : Tables} {rows : List Item}
    (known : ∀ row ∈ rows, origin.HasItem row)
    (whole : ∀ row, before.HasItem row → item.path.covers row.path = true →
      row.id = item.id ∨ row.id ∈ rows.map Item.id)
    (rebase_items : (rebaseItems item.path new rows).Gives moved () rebased) :
    rebased.tables.Indexed ∧ rebased.tables.memberships = before.memberships ∧
      ∀ id : Id, rebased.tables.items[id]? =
        (if id ∈ rows.map Item.id then origin.items[id]?
          else (before.putItem { item with updatedAt := now }).items[id]?).map
            fun row => row.relocate item.path new := by
  have untouched (id : Id) (outside : id ∉ rows.map Item.id) : moved.tables.items[id]? =
      (if id ∈ rows.map Item.id then origin.items[id]?
        else (before.putItem { item with updatedAt := now }).items[id]?).map
          fun row => row.relocate item.path new := by
    rw [if_neg outside, put, Tables.putItem_items, Tables.putItem_items]
    by_cases here : id = item.id
    · rw [if_pos here, if_pos here, Option.map_some, Item.relocate, Path.relocate_self]
    · rw [if_neg here, if_neg here]
      cases found : before.items[id]? with
      | none => rfl
      | some row =>
          have apart : item.path.covers row.path = false := by
            rw [← Bool.not_eq_true]
            intro spans
            have row_id := indexed.item_id id row found
            rcases whole row (indexed.hasItem found) spans with same | listed
            · exact here (row_id.symm.trans same)
            · exact outside (row_id ▸ listed)
          rw [Option.map_some, Item.relocate, Path.relocate_outside apart]
  obtain ⟨indexed', same_rows, items⟩ := rebaseItems_gives _ (put ▸ indexed.putItem_own taken)
    (fun row inside => (if_pos (List.mem_map.mpr ⟨row, inside, rfl⟩)).trans (known row inside))
    untouched rebase_items
  exact ⟨indexed', by rw [same_rows, put, Tables.putItem_memberships], items⟩

/-- The pass over the memberships of the subtree relocates these. -/
theorem rows_relocated {old : Path} (indexed : before.Indexed) (indexed' : rebased.tables.Indexed)
    (same : rebased.tables.memberships = before.memberships)
    (rebase_rows : (rebaseMemberships old new (rebased.tables.membershipsUnder old)).Gives rebased ()
      placed) :
    placed.tables.Indexed ∧ placed.tables.items = rebased.tables.items ∧
      ∀ id : Id, placed.tables.memberships[id]? =
        before.memberships[id]?.map fun row => row.relocate old new := by
  have listed_rows (row : Membership) : row ∈ rebased.tables.membershipsUnder old ↔
      before.HasRow row ∧ old.covers row.itemPath = true := by
    rw [indexed'.mem_membershipsUnder, Tables.HasRow, same, Tables.HasRow]
  have untouched_rows (id : Id)
      (outside : id ∉ (rebased.tables.membershipsUnder old).map Membership.id) :
      rebased.tables.memberships[id]? =
        before.memberships[id]?.map fun row => row.relocate old new := by
    rw [same]
    cases found : before.memberships[id]? with
    | none => rfl
    | some row =>
        have apart : old.covers row.itemPath = false := by
          rw [← Bool.not_eq_true]
          intro spans
          have member := (listed_rows row).mpr ⟨indexed.hasRow found, spans⟩
          exact outside (List.mem_map.mpr ⟨row, member, indexed.membership_id id row found⟩)
        rw [Option.map_some, Membership.relocate, Path.relocate_outside apart]
  exact rebaseMemberships_gives before indexed' (fun row inside => ((listed_rows row).mp inside).1)
    untouched_rows rebase_rows

variable
  (rebase_items :
    (rebaseItems item.path new (before.descendants item)).Gives moved () rebased)
include indexed stands taken put rebase_items

/-- Where nothing was written between the listing and the pass, the pass relocates the other items
of the subtree. -/
theorem descendants_relocated :
    rebased.tables.Indexed ∧ rebased.tables.memberships = before.memberships ∧
      ∀ id : Id, rebased.tables.items[id]? =
        (before.putItem { item with updatedAt := now }).items[id]?.map
          fun row => row.relocate item.path new := by
  have whole (row : Item) (stands' : before.HasItem row) (spans : item.path.covers row.path = true) :
      row.id = item.id ∨ row.id ∈ (before.descendants item).map Item.id := by
    by_contra unlisted
    rw [not_or] at unlisted
    rw [indexed.apart_of_unlisted stands stands' (fun same => unlisted.1 (congrArg Item.id same))
      fun member => unlisted.2 (List.mem_map.mpr ⟨row, member, rfl⟩)] at spans
    cases spans
  have known (row : Item) (listed : row ∈ before.descendants item) :
      (before.putItem { item with updatedAt := now }).HasItem row :=
    indexed.descendant_stays stands rfl listed
  obtain ⟨indexed', same, items⟩ := listed_relocated indexed taken put known whole rebase_items
  exact ⟨indexed', same, fun id => by rw [items, ite_self]⟩

/-- The pass over the memberships relocates these, and with them the whole subtree. -/
theorem relocation_gives (rebase_rows : (rebaseMemberships item.path new
      (rebased.tables.membershipsUnder item.path)).Gives rebased () placed) :
    Tables.Relocated item.path new
      (before.putItem { item with updatedAt := now }) placed.tables := by
  obtain ⟨indexed', same, items⟩ := descendants_relocated indexed stands taken put rebase_items
  obtain ⟨indexed'', same_items, memberships⟩ := rows_relocated indexed indexed' same rebase_rows
  exact ⟨indexed'', fun id => by rw [same_items, items], fun id => by
    rw [memberships, Tables.putItem_memberships]⟩

end Passes

theorem prunePath_gives {path : Path} (indexed : work.tables.Indexed)
    (outside : ∀ upper lower, work.tables.HasRow upper → work.tables.HasRow lower →
      upper.account = lower.account → upper.itemPath.isAncestorOf lower.itemPath = true →
      path.covers lower.itemPath = false → upper.permission < lower.permission)
    (gives : (pruneRedundant ((work.tables.membershipsUnder path).mergeSort
      fun a b => decide (a.itemPath.levels ≤ b.itemPath.levels))).Gives work () after) :
    work.tables.Prunes (fun row => path.covers row.itemPath = true) after.tables ∧
      after.tables.Graded := by
  let rows := (work.tables.membershipsUnder path).mergeSort
    fun a b => decide (a.itemPath.levels ≤ b.itemPath.levels)
  have listed (row : Membership) : row ∈ rows ↔
      work.tables.HasRow row ∧ path.covers row.itemPath = true := by
    rw [List.mem_mergeSort, indexed.mem_membershipsUnder]
  have ordered : rows.Pairwise fun a b => a.itemPath.levels ≤ b.itemPath.levels := by
    have sorted : rows.Pairwise fun a b => decide (a.itemPath.levels ≤ b.itemPath.levels) = true :=
      List.pairwise_mergeSort (by simpa using fun a b c : Membership => Nat.le_trans)
        (by simpa using fun a b : Membership => Nat.le_total _ _) _
    exact sorted.imp of_decide_eq_true
  -- The rows on the path and below are all still to be looked at; the others are in order.
  have graded : work.tables.GradedBut rows := by
    intro upper lower stands stands' holder above
    by_cases inside : path.covers lower.itemPath = true
    · exact Or.inr ((listed lower).mpr ⟨stands', inside⟩)
    · exact Or.inl (outside upper lower stands stands' holder above (Bool.not_eq_true _ ▸ inside))
  obtain ⟨prunes, graded'⟩ := pruneRedundant_gives indexed
    (fun row inside other found same => found.same ((listed row).mp inside).1 same) ordered graded
    gives
  refine ⟨⟨prunes.indexed, prunes.items, prunes.fewer, ?_, prunes.grants⟩, graded'⟩
  intro row stands apart
  exact prunes.others row stands fun inside => apart ((listed row).mp inside).2

structure MoveChecked (scene : Scene) (tables : Tables) (id : Id) (under : Option Id) (item : Item)
    (folder : Option Item) : Prop where
  found : tables.items[id]? = some item
  allowed : tables.hasPermission scene.actor item.path .admin = true
  another : item.parentId? ≠ under
  not_itself : under ≠ some id
  holds : MayHold scene tables under folder
  not_below : ∀ parent, folder = some parent → item.path.isAncestorOf parent.path = false
  short : item.subtreeLevels (tables.descendants item) - item.path.levels +
    (pathWithin folder id).levels ≤ scene.settings.maxTreeLevels

structure MayMove (scene : Scene) (tables : Tables) (id : Id) (under : Option Id) (item : Item)
    (folder : Option Item) : Prop extends MoveChecked scene tables id under item folder where
  free : ∀ other, tables.HasItem other → other.path = pathWithin folder id → other.id = id

/-- The passes of a move over the rows that the hooks left. The subtree was listed before. -/
structure MovePasses (scene : Scene) (listed hooked : Tables) (item : Item) (new : Path)
    (moved rebased placed kept after : Work) : Prop where
  taken : ∀ other, hooked.itemPaths[new]? = some other → other = item.id
  put : moved.tables = hooked.putItem { item with path := new, updatedAt := scene.now }
  rebase_items : (rebaseItems item.path new (listed.descendants item)).Gives moved () rebased
  rebase_rows : (rebaseMemberships item.path new
    (rebased.tables.membershipsUnder item.path)).Gives rebased () placed
  keep : (keepGrants scene new (hooked.grantsAbove item.path)).Gives placed () kept
  prune : (pruneRedundant ((kept.tables.membershipsUnder new).mergeSort
    fun a b => decide (a.itemPath.levels ≤ b.itemPath.levels))).Gives kept () after

theorem moveItem_hooked {id : Id} {under : Option Id} {output : TaskOutput}
    (gives : (moveItem scene id under).Gives work output after) :
    ∃ item folder hooked moved rebased placed kept,
      MoveChecked scene work.tables id under item folder ∧
      Hooked scene .moveItem (.move item under) work hooked ∧
      output = .item { item with path := pathWithin folder id, updatedAt := scene.now } ∧
      MovePasses scene work.tables hooked.tables item (pathWithin folder id) moved rebased placed
        kept after := by
  obtain ⟨item, _, asked, found_item⟩ := (gives_bind _ _ _).mp gives
  obtain ⟨ok, rfl⟩ := (gives_demand _ _).mp asked
  obtain ⟨found, allowed⟩ := Tables.getItemFor_ok ok
  rcases (gives_ite _ _ _ _).mp found_item with ⟨_, stopped⟩ | ⟨proper, passed⟩
  · obtain ⟨_, _, thrown, _⟩ := (gives_bind _ _ _).mp stopped
    exact absurd thrown (gives_throw _ _)
  rw [not_or] at proper
  obtain ⟨folder, _, given_folder, chosen⟩ := (gives_bind _ _ _).mp passed
  obtain ⟨holds, rfl⟩ := optional_destination_gives given_folder
  rcases (gives_ite _ _ _ _).mp chosen with ⟨_, stopped⟩ | ⟨apart, rest⟩
  · obtain ⟨_, _, thrown, _⟩ := (gives_bind _ _ _).mp stopped
    exact absurd thrown (gives_throw _ _)
  obtain ⟨descendants, _, listed, rest⟩ := (gives_bind _ _ _).mp rest
  obtain ⟨rfl, rfl⟩ := (gives_ask _ _).mp listed
  obtain ⟨_, _, checked, rest⟩ := (gives_bind _ _ _).mp rest
  obtain ⟨_, rfl⟩ := gives_checkDescendants checked
  obtain ⟨_, _, measured, rest⟩ := (gives_bind _ _ _).mp rest
  obtain ⟨short, rfl⟩ := gives_checkLevels measured
  obtain ⟨_, hooked, called, rest⟩ := (gives_bind _ _ _).mp rest
  obtain ⟨grants, _, asked, rest⟩ := (gives_bind _ _ _).mp rest
  obtain ⟨rfl, rfl⟩ := (gives_ask _ _).mp asked
  -- From here on rows are written, pass by pass.
  obtain ⟨_, moved, wrote, rest⟩ := (gives_bind _ _ _).mp rest
  obtain ⟨_, taken, put⟩ := gives_updateItem wrote
  obtain ⟨_, rebased, rebase_items, rest⟩ := (gives_bind _ _ _).mp rest
  obtain ⟨_, _, listed, rest⟩ := (gives_bind _ _ _).mp rest
  obtain ⟨rfl, rfl⟩ := (gives_ask _ _).mp listed
  obtain ⟨_, placed, rebase_rows, rest⟩ := (gives_bind _ _ _).mp rest
  obtain ⟨_, kept, keep, rest⟩ := (gives_bind _ _ _).mp rest
  obtain ⟨_, _, listed, rest⟩ := (gives_bind _ _ _).mp rest
  obtain ⟨rfl, rfl⟩ := (gives_ask _ _).mp listed
  obtain ⟨_, pruned, prune, ended⟩ := (gives_bind _ _ _).mp rest
  obtain ⟨rfl, rfl⟩ := (gives_pure _ _).mp ended
  refine ⟨item, folder, hooked, moved, rebased, placed, kept, ?_, hooked_of_gives called, rfl,
    taken, put, rebase_items, rebase_rows, keep, prune⟩
  constructor
  case found => exact found
  case allowed => exact allowed
  case another => exact proper.1
  case not_itself => exact proper.2
  case holds => exact holds
  case short => exact short
  case not_below =>
    rintro parent rfl
    simpa using apart

/-- A move goes over the rows in passes, and the last one takes redundant memberships away. -/
theorem moveItem_passes {id : Id} {under : Option Id} {output : TaskOutput}
    (quiet : scene.hooks.WriteNothing) (indexed : work.tables.Indexed)
    (gives : (moveItem scene id under).Gives work output after) :
    ∃ item folder placed kept, MayMove scene work.tables id under item folder ∧
      output = .item { item with path := pathWithin folder id, updatedAt := scene.now } ∧
      Tables.Relocated item.path (pathWithin folder id)
        (work.tables.putItem { item with updatedAt := scene.now }) placed ∧
      placed.Keeps (pathWithin folder id) (work.tables.grantsAbove item.path) kept.tables ∧
      (pruneRedundant ((kept.tables.membershipsUnder (pathWithin folder id)).mergeSort
        fun a b => decide (a.itemPath.levels ≤ b.itemPath.levels))).Gives kept () after := by
  obtain ⟨item, folder, hooked, moved, rebased, placed, kept, checked, called, told, passes⟩ :=
    moveItem_hooked gives
  obtain ⟨taken, put, rebase_items, rebase_rows, keep, prune⟩ := passes
  rw [called.quiet quiet] at taken put keep
  have stands := indexed.hasItem checked.found
  have relocated := relocation_gives indexed stands taken put rebase_items rebase_rows
  have keeps := keepGrants_gives relocated.indexed keep
  refine ⟨item, folder, _, kept, ⟨checked, ?_⟩, told, relocated, keeps, prune⟩
  intro other found' place
  have entry := (indexed.item_path _ _).mpr ⟨other, found', place⟩
  exact (taken other.id entry).trans (indexed.item_id id item checked.found)

theorem moveItem_gives {id : Id} {under : Option Id} {output : TaskOutput}
    (quiet : scene.hooks.WriteNothing) (indexed : work.tables.Indexed)
    (graded : work.tables.Graded) (gives : (moveItem scene id under).Gives work output after) :
    ∃ item folder, MayMove scene work.tables id under item folder ∧
      output = .item { item with path := pathWithin folder id, updatedAt := scene.now } ∧
      Tables.Moved item (pathWithin folder id) (work.tables.grantsAbove item.path)
        (work.tables.putItem { item with updatedAt := scene.now }) after.tables ∧
      after.tables.Graded := by
  obtain ⟨item, folder, placed, kept, may_move, told, relocated, keeps, prune⟩ :=
    moveItem_passes quiet indexed gives
  obtain ⟨prunes, graded'⟩ := prunePath_gives keeps.indexed
    (fun _ _ found found' => (graded.putItem _).outside relocated keeps found found') prune
  exact ⟨item, folder, may_move, told, ⟨_, _, relocated, keeps, prunes⟩, graded'⟩

end Action

end SharedTree
