import SharedTree.Proofs.Action.Local
import SharedTree.Proofs.Task.Copies
import SharedTree.Proofs.Task.Memberships
/-!
What the tasks look at and write to. In a region with the rows that a task or a subtask names, and
with the identifiers that it draws for new rows, each action is local: it asks only about paths in
the trees of the region, and the rows that it writes are there as well.
-/
namespace SharedTree

open Tables

def Task.Within (region : Region) (tables : Tables) : Task → Prop
  | createItem new => ∀ parent ∈ new.parent, parent ∈ region.items
  | updateItem id _ => id ∈ region.items
  | deleteItem id => id ∈ region.items
  | moveItem id under => id ∈ region.items ∧ (∀ parent ∈ under, parent ∈ region.items) ∧
      (under = none → tables.items[id]? ≠ none → Path.root id ∈ region.trees)
  | copyItem id under => id ∈ region.items ∧ ∀ parent ∈ under, parent ∈ region.items
  | createMembership item _ _ => item ∈ region.items
  | updateMembership id _ => id ∈ region.memberships
  | deleteMembership id _ => id ∈ region.memberships

def SubTask.Within (region : Region) : SubTask → Prop
  | deleteItem id => id ∈ region.items
  | copyItem source path _ =>
      source ∈ region.items ∧ path.id ∈ region.made ∧ path.top ∈ region.trees
  | updateMembership id _ => id ∈ region.memberships
  | deleteMembership id => id ∈ region.memberships

theorem Tables.Fits.descendants_listed {region : Region} {tables : Tables} {item row : Item}
    (fits : tables.Fits region) (inside : item.path.top ∈ region.trees)
    (stands : tables.HasItem item) (below : row ∈ tables.descendants item) :
    row.id ∈ region.items ∧ item.path.covers row.path = true := by
  obtain ⟨stands', higher⟩ := (fits.indexed.mem_descendants item row stands).mp below
  have spans := Path.covers_of_isAncestorOf higher
  exact ⟨fits.item_under inside stands' spans, spans⟩

theorem Tables.Fits.under_listed {region : Region} {tables : Tables} {path : Path}
    {row : Membership} (fits : tables.Fits region) (inside : path.top ∈ region.trees)
    (found : row ∈ tables.membershipsUnder path) :
    row.id ∈ region.memberships ∧ path.covers row.itemPath = true := by
  obtain ⟨stands, spans⟩ := (fits.indexed.mem_membershipsUnder path row).mp found
  exact ⟨fits.row_under inside stands spans, spans⟩

theorem Tables.Fits.redundant_listed {region : Region} {tables : Tables} {account : Id}
    {path : Path} {permission : Permission} (fits : tables.Fits region)
    (inside : path.top ∈ region.trees) {row : Membership}
    (weaker : row ∈ tables.redundantBelow account path permission) :
    row.id ∈ region.memberships := by
  obtain ⟨stands, _, higher⟩ :=
    (fits.indexed.mem_membershipsBelow _ _ _).mp (List.mem_filter.mp weaker).1
  exact fits.row_under inside stands (Path.covers_of_isAncestorOf higher)

namespace Action

variable {region : Region} {most : Nat} {left right : Work} {scene : Scene} {Next : Type}

/-! The place of an item. -/

theorem destination_local (works : left.Alike region scene.ids most right) {under : Option Id}
    (listed : ∀ parent ∈ under, parent ∈ region.items) :
    (destination? scene under).Local region scene.ids most left right := by
  cases under with
  | none => exact local_pure works none
  | some parent =>
      have known := listed parent rfl
      have chosen : (destination scene parent).Local region scene.ids most left right :=
        local_of_demand works (works.tables.getItemFor scene.actor .write known) fun folder _ =>
          local_ite _ (fun _ => local_pure works folder) fun _ => local_throw works _
      refine local_of_still works chosen (fun work folder after gives => ?_) fun folder _ =>
        local_pure works (some folder)
      have found : (destination? scene (some parent)).Gives work (some folder) after :=
        (gives_bind _ _ _).mpr ⟨folder, after, gives, rfl⟩
      exact (optional_destination_gives found).2

theorem MayHold.top_inside {tables : Tables} {under : Option Id} {folder : Option Item}
    (holds : MayHold scene tables under folder) (fits : tables.Fits region)
    (listed : ∀ parent ∈ under, parent ∈ region.items) :
    ∀ row ∈ folder, row.path.top ∈ region.trees := by
  cases under with
  | none =>
      obtain rfl : folder = none := holds
      simp
  | some parent =>
      obtain ⟨row, rfl, stands, _⟩ := holds
      rintro other ⟨⟩
      exact (fits.item parent row stands).mp (listed parent rfl)

theorem MayHold.at_top {tables : Tables} {under : Option Id} {folder : Option Item}
    (holds : MayHold scene tables under folder) (missing : folder = none) : under = none := by
  cases under with
  | none => rfl
  | some parent =>
      obtain ⟨row, rfl, _⟩ := holds
      cases missing

theorem local_of_destination (works : left.Alike region scene.ids most right) {under : Option Id}
    (listed : ∀ parent ∈ under, parent ∈ region.items) {next : Option Item → Action Next}
    (later : ∀ folder, (∀ row ∈ folder, row.path.top ∈ region.trees) →
      (folder = none → under = none) → (next folder).Local region scene.ids most left right) :
    (destination? scene under >>= next).Local region scene.ids most left right := by
  refine local_of_still works (destination_local works listed)
    (fun _ _ _ gives => (optional_destination_gives gives).2) fun folder gives => ?_
  have holds := (optional_destination_gives gives).1
  exact later folder (holds.top_inside works.tables.fits_left listed) holds.at_top

theorem pathWithin_top {folder : Option Item} {id : Id}
    (inside : ∀ row ∈ folder, row.path.top ∈ region.trees)
    (top : folder = none → Path.root id ∈ region.trees) :
    (pathWithin folder id).top ∈ region.trees := by
  cases folder with
  | none => exact (Path.top_root id).symm ▸ top rfl
  | some row => exact (Path.top_child row.path id).symm ▸ inside row rfl

/-! The actions on items. -/

theorem planDelete_local (works : left.Alike region scene.ids most right) {id : Id}
    (listed : id ∈ region.items) :
    (planDelete scene id).Local region scene.ids most left right := by
  refine local_of_demand works (works.tables.getItemFor scene.actor .admin listed)
    fun item ok => ?_
  have inside := (works.tables.fits_left.item id item (getItemFor_ok ok).1).mp listed
  refine local_of_ask works (works.tables.deepestFirst inside) ?_
  exact local_of_checkDescendants works (local_pure works _)

section Bare

variable (bare : scene.hooks.pre = []) (works : left.Alike region scene.ids most right)
include bare works

theorem grantCreator_local {item : Item} (inside : item.path.top ∈ region.trees) :
    (grantCreator scene item).Local region scene.ids most left right := by
  refine local_of_ask works (works.tables.inherited scene.actor inside) ?_
  refine local_ite _ (fun _ => ?_) fun _ => local_pure works ()
  refine local_of_draw bare works (fun _ => .bind (.write rfl) fun _ => built_pure _)
    fun id made _ _ _ works => ?_
  exact local_of_write works ⟨made, inside⟩ fun _ _ _ works => local_pure works ()

theorem createItem_local {new : NewItem} (listed : ∀ parent ∈ new.parent, parent ∈ region.items) :
    (createItem scene new).Local region scene.ids most left right := by
  refine local_of_draw bare works (fun _ =>
    .bind (optional_destination_built new.parent) fun _ =>
    .bind (built_checkLevels _) fun _ =>
    .bind (.callHooks _ _) fun _ =>
    .bind (.write rfl) fun _ =>
    .bind (grantCreator_built _) fun _ => built_pure _) fun id made _ _ _ works => ?_
  refine local_of_destination works listed fun folder inside _ => ?_
  have place := pathWithin_top inside fun _ => region.made_tree id made
  refine local_of_checkLevels works (local_of_callHooks bare works ?_)
  refine local_of_write works ⟨made, place⟩ fun _ _ _ works => ?_
  exact local_bind bare (fun _ => built_pure _) (grantCreator_local bare works place)
    fun _ _ _ _ _ works => local_pure works _

theorem updateItem_local {id : Id} (listed : id ∈ region.items) (patch : ItemPatch) :
    (updateItem scene id patch).Local region scene.ids most left right := by
  refine local_of_demand works (works.tables.getItemFor scene.actor .write listed)
    fun before ok => ?_
  have stands := (getItemFor_ok ok).1
  have inside := (works.tables.fits_left.item id before stands).mp listed
  have same := works.tables.fits_left.indexed.item_id id before stands
  refine local_of_callHooks bare works ?_
  exact local_of_write works ⟨same ▸ listed, inside⟩ fun _ _ _ works => local_pure works _

theorem deleteMemberships_local {rows : List Membership}
    (listed : ∀ row ∈ rows, row.id ∈ region.memberships) :
    (deleteMemberships rows).Local region scene.ids most left right :=
  local_forM bare (fun _ => .bind (.write rfl) fun _ => built_pure _)
    (fun row inside _ _ works =>
      local_of_write works (listed row inside) fun _ _ _ works => local_pure works ()) works

theorem deleteItemRow_local {id : Id} (listed : id ∈ region.items) :
    (deleteItemRow scene id).Local region scene.ids most left right := by
  refine local_of_demand works (works.tables.getItem listed) fun item ok => ?_
  have inside := (works.tables.fits_left.item id item (getItem_ok ok)).mp listed
  refine local_of_ask works (works.tables.hasChildren inside) ?_
  refine local_ite _ (fun _ => local_of_throw works _) fun _ => ?_
  refine local_of_callHooks bare works
    (local_of_ask works (works.tables.membershipsUnder inside) ?_)
  have on_it (row : Membership) (on_path : row ∈ left.tables.membershipsUnder item.path) :
      row.id ∈ region.memberships := by
    obtain ⟨stands, spans⟩ := (works.tables.fits_left.indexed.mem_membershipsUnder _ _).mp on_path
    exact works.tables.fits_left.row_under inside stands spans
  refine local_bind bare (fun _ => .bind (.write rfl) fun _ => built_pure _)
    (deleteMemberships_local bare works on_it) fun _ _ _ _ _ works => ?_
  exact local_of_write works listed fun _ _ _ works => local_pure works _

theorem rebaseItems_local {old new : Path} {rows : List Item} (target : new.top ∈ region.trees)
    (listed : ∀ row ∈ rows, row.id ∈ region.items ∧ old.covers row.path = true) :
    (rebaseItems old new rows).Local region scene.ids most left right := by
  refine local_forM bare (fun _ =>
    .bind (built_except _) fun _ => .bind (.write rfl) fun _ => built_pure _)
    (fun row inside _ _ works => local_of_except works fun path found => ?_) works
  obtain ⟨known, spans⟩ := listed row inside
  have place : path.top ∈ region.trees := by
    rw [Path.relocate_of_rebase found, Path.top_relocate new spans]
    exact target
  exact local_of_write works ⟨known, place⟩ fun _ _ _ works => local_pure works ()

theorem rebaseMemberships_local {old new : Path} {rows : List Membership}
    (target : new.top ∈ region.trees)
    (listed : ∀ row ∈ rows, row.id ∈ region.memberships ∧ old.covers row.itemPath = true) :
    (rebaseMemberships old new rows).Local region scene.ids most left right := by
  refine local_forM bare (fun _ =>
    .bind (built_except _) fun _ => .bind (.write rfl) fun _ => built_pure _)
    (fun row inside _ _ works => local_of_except works fun path found => ?_) works
  obtain ⟨known, spans⟩ := listed row inside
  have place : path.top ∈ region.trees := by
    rw [Path.relocate_of_rebase found, Path.top_relocate new spans]
    exact target
  exact local_of_write works ⟨known, place⟩ fun _ _ _ works => local_pure works ()

theorem keepGrants_local {path : Path} (inside : path.top ∈ region.trees)
    (grants : List Membership) :
    (keepGrants scene path grants).Local region scene.ids most left right := by
  refine local_forM bare (fun _ =>
    .bind (built_ask _) fun _ =>
    built_ite _
      (.bind (built_ask _) fun _ =>
        built_ite _ (.bind .draw fun _ => .bind (.write rfl) fun _ => built_pure _) (built_pure _))
      (built_pure _)) (fun grant _ left right works => ?_) works
  refine local_of_ask works (works.tables.membershipAt grant.account inside) ?_
  refine local_ite _ (fun _ => ?_) fun _ => local_pure works ()
  refine local_of_ask works (works.tables.inherited grant.account inside) ?_
  refine local_ite _ (fun _ => ?_) fun _ => local_pure works ()
  refine local_of_draw bare works (fun _ => .bind (.write rfl) fun _ => built_pure _)
    fun id made _ _ _ works => ?_
  exact local_of_write works ⟨made, inside⟩ fun _ _ _ works => local_pure works ()

theorem pruneRedundant_local {rows : List Membership}
    (listed : ∀ row ∈ rows, row.id ∈ region.memberships ∧ row.itemPath.top ∈ region.trees) :
    (pruneRedundant rows).Local region scene.ids most left right := by
  refine local_forM bare (fun _ =>
    .bind (built_ask _) fun _ =>
    built_ite _ (.bind (.write rfl) fun _ => built_pure _) (built_pure _))
    (fun row inside _ _ works => ?_) works
  obtain ⟨known, place⟩ := listed row inside
  refine local_of_ask works (works.tables.inherited row.account place) ?_
  refine local_ite _ (fun _ => ?_) fun _ => local_pure works ()
  exact local_of_write works known fun _ _ _ works => local_pure works ()

/-- What a move does once the item itself has its new path. -/
theorem relocation_local {old new : Path} {rows : List Item} {grants : List Membership}
    {output : TaskOutput} (inside : old.top ∈ region.trees) (place : new.top ∈ region.trees)
    (listed : ∀ row ∈ rows, row.id ∈ region.items ∧ old.covers row.path = true) :
    Local region scene.ids most (do
      rebaseItems old new rows
      rebaseMemberships old new (← ask fun tables => tables.membershipsUnder old)
      keepGrants scene new grants
      let memberships ← ask fun tables => tables.membershipsUnder new
      pruneRedundant
        (memberships.mergeSort fun a b => decide (a.itemPath.levels ≤ b.itemPath.levels))
      return output) left right := by
  refine local_bind bare (fun _ =>
    .bind (built_ask _) fun _ =>
    .bind (rebaseMemberships_built _ _ _) fun _ =>
    .bind (keepGrants_built _ _) fun _ =>
    .bind (built_ask _) fun _ =>
    .bind (pruneRedundant_built _) fun _ => built_pure _)
    (rebaseItems_local bare works place listed) fun _ left right _ _ works => ?_
  refine local_of_ask works (works.tables.membershipsUnder inside) ?_
  refine local_bind bare (fun _ =>
    .bind (keepGrants_built _ _) fun _ =>
    .bind (built_ask _) fun _ =>
    .bind (pruneRedundant_built _) fun _ => built_pure _)
    (rebaseMemberships_local bare works place fun _ found =>
      works.tables.fits_left.under_listed inside found) fun _ left right _ _ works => ?_
  refine local_bind bare (fun _ =>
    .bind (built_ask _) fun _ =>
    .bind (pruneRedundant_built _) fun _ => built_pure _)
    (keepGrants_local bare works place _) fun _ left right _ _ works => ?_
  refine local_of_ask works (works.tables.membershipsUnder place) ?_
  refine local_bind bare (fun _ => built_pure _)
    (pruneRedundant_local bare works fun row found => ?_)
    fun _ _ _ _ _ works => local_pure works _
  obtain ⟨known, spans⟩ :=
    works.tables.fits_left.under_listed place (List.mem_mergeSort.mp found)
  exact ⟨known, Path.top_of_covers spans ▸ place⟩

theorem moveItem_local {id : Id} {under : Option Id} (listed : id ∈ region.items)
    (listed' : ∀ parent ∈ under, parent ∈ region.items)
    (top : under = none → left.tables.items[id]? ≠ none → Path.root id ∈ region.trees) :
    (moveItem scene id under).Local region scene.ids most left right := by
  refine local_of_demand works (works.tables.getItemFor scene.actor .admin listed)
    fun item ok => ?_
  have stands := (getItemFor_ok ok).1
  have fits := works.tables.fits_left
  have inside := (fits.item id item stands).mp listed
  have same := fits.indexed.item_id id item stands
  refine local_ite _ (fun _ => local_of_throw works _) fun _ => ?_
  refine local_of_destination works listed' fun folder inside' at_top => ?_
  have place := pathWithin_top inside' fun missing =>
    top (at_top missing) (stands ▸ Option.some_ne_none item)
  refine local_ite _ (fun _ => local_of_throw works _) fun _ => ?_
  refine local_of_ask works (works.tables.descendants inside) ?_
  refine local_of_checkDescendants works (local_of_checkLevels works ?_)
  refine local_of_callHooks bare works (local_of_ask works ?_ ?_)
  · cases above : item.path.parent? with
    | none => rfl
    | some parent => exact works.tables.effectiveAt (Path.top_of_parent above ▸ inside)
  exact local_of_write works ⟨same ▸ listed, place⟩ fun _ left right works =>
    relocation_local bare works inside place fun _ below =>
      fits.descendants_listed inside (fits.indexed.hasItem stands) below

theorem planCopies_local (copies : List (Id × Path)) (rows : List Item) :
    (planCopies scene copies rows).Local region scene.ids most left right := by
  induction rows generalizing copies left right with
  | nil => exact local_pure works []
  | cons item rest ih =>
      unfold planCopies
      split
      · exact local_throw works _
      · refine local_of_draw bare works
          (fun _ => .bind (planCopies_built _ _) fun _ => built_pure _)
          fun id _ _ _ _ works => ?_
        exact local_bind bare (fun _ => built_pure _) (ih works _)
          fun _ _ _ _ _ works => local_pure works _

theorem planCopy_local {id : Id} {under : Option Id} (listed : id ∈ region.items)
    (listed' : ∀ parent ∈ under, parent ∈ region.items) :
    (planCopy scene id under).Local region scene.ids most left right := by
  refine local_of_demand works (works.tables.getItemFor scene.actor .read listed)
    fun item ok => ?_
  have inside := (works.tables.fits_left.item id item (getItemFor_ok ok).1).mp listed
  refine local_of_destination works listed' fun folder _ _ => ?_
  refine local_of_draw bare works (fun _ =>
    .bind (built_ask _) fun _ =>
    .bind (built_checkDescendants _ _ _) fun _ =>
    .bind (built_checkLevels _) fun _ =>
    .bind (built_ask _) fun _ =>
    .bind (planCopies_built _ _) fun _ => built_pure _) fun new _ left right _ works => ?_
  refine local_of_ask works (works.tables.descendants inside) ?_
  refine local_of_checkDescendants works (local_of_checkLevels works ?_)
  refine local_of_ask works (works.tables.shallowestFirst inside) ?_
  exact local_bind bare (fun _ => built_pure _) (planCopies_local bare works _ _)
    fun _ _ _ _ _ works => local_pure works _

theorem copyItemRow_local {id : Id} {path : Path} (listed : id ∈ region.items)
    (made : path.id ∈ region.made) (inside : path.top ∈ region.trees) (top : Bool) :
    (copyItemRow scene id path top).Local region scene.ids most left right := by
  refine local_of_demand works (works.tables.getItem listed) fun source _ => ?_
  have insertion : Local region scene.ids most (do
      let made := Item.make path.id path source.name source.type source.extra scene.actor scene.now
      callHooks scene .copyItem (.copy source made)
      let _ ← write (.insertItem made)
      if top then grantCreator scene made
      return TaskOutput.copied source made) left right := by
    refine local_of_callHooks bare works (local_of_write works ⟨made, inside⟩ fun _ _ _ works => ?_)
    refine local_ite _ (fun _ => ?_) fun _ => local_pure works _
    exact local_bind bare (fun _ => built_pure _) (grantCreator_local bare works inside)
      fun _ _ _ _ _ works => local_pure works _
  cases above : path.parent? with
  | none => exact insertion
  | some parent =>
      exact local_of_demand works (works.tables.getItemAt (Path.top_of_parent above ▸ inside))
        fun _ _ => insertion

/-! The actions on memberships. -/

theorem createMembership_local {item : Id} (listed : item ∈ region.items) (account : Id)
    (permission : Permission) :
    (createMembership scene item account permission).Local region scene.ids most left right := by
  refine local_of_demand works (works.tables.getItemFor scene.actor .admin listed)
    fun row ok => ?_
  have inside := (works.tables.fits_left.item item row (getItemFor_ok ok).1).mp listed
  refine local_of_demand works (works.tables.planWrite account permission _ inside)
    fun plan made => ?_
  have fits := works.tables.fits_left
  rcases planWrite_ok made with ⟨_, rfl⟩ | ⟨_, rfl⟩
  · cases own : left.tables.membershipAt? account row.path with
    | none => exact local_pure works _
    | some existing =>
        obtain ⟨stands, place, _⟩ := (fits.indexed.membershipAt_eq_some _ _ _).mp own
        have known := fits.row_under inside stands (place ▸ Path.covers_refl _)
        exact local_of_callHooks bare works
          (local_of_write works known fun _ _ _ works => local_pure works _)
  · cases own : left.tables.membershipAt? account row.path with
    | some existing => exact local_throw works _
    | none =>
        refine local_of_draw bare works (fun _ =>
          .bind (.callHooks _ _) fun _ =>
          .bind (deleteMemberships_built _) fun _ =>
          .bind (.write rfl) fun _ => built_pure _) fun id new left' right' _ works => ?_
        refine local_of_callHooks bare works ?_
        refine local_bind bare (fun _ => .bind (.write rfl) fun _ => built_pure _)
          (deleteMemberships_local bare works fun below weaker =>
            fits.redundant_listed inside weaker)
          fun _ _ _ _ _ works => ?_
        exact local_of_write works ⟨new, inside⟩ fun _ _ _ works => local_pure works _

theorem changePermission_local {row : Membership} (listed : row.id ∈ region.memberships)
    (inside : row.itemPath.top ∈ region.trees) (permission : Permission) :
    (changePermission scene row permission).Local region scene.ids most left right :=
  local_of_callHooks bare works
    (local_of_write works ⟨listed, inside⟩ fun _ _ _ works => local_pure works _)

theorem updateMembership_local {id : Id} (listed : id ∈ region.memberships)
    (permission : Permission) :
    (updateMembership scene id permission).Local region scene.ids most left right := by
  refine local_of_demand works (works.tables.getMembership listed) fun row ok => ?_
  have fits := works.tables.fits_left
  have stands := getMembership_ok ok
  have inside := (fits.membership id row stands).mp listed
  refine local_of_demand works (works.tables.getItemAt inside) fun item found => ?_
  have place := ((fits.indexed.itemAt_eq_some _ _).mp (getItemAt_ok found)).2
  refine local_of_demand works (works.tables.require scene.actor .admin (place ▸ inside))
    fun _ _ => ?_
  refine local_ite _ (fun _ => local_pure works _) fun _ => ?_
  refine local_of_demand works (works.tables.planWrite row.account permission _ inside)
    fun plan _ => ?_
  cases plan with
  | redundant existing => exact local_pure works _
  | write existing below =>
      cases below with
      | nil =>
          exact local_bind bare (fun _ => built_pure _)
            (changePermission_local bare works (fits.indexed.membership_id id row stands ▸ listed)
              inside permission) fun _ _ _ _ _ works => local_pure works _
      | cons first rest => exact local_pure works _

theorem updateMembershipRow_local {id : Id} (listed : id ∈ region.memberships)
    (permission : Permission) :
    (updateMembershipRow scene id permission).Local region scene.ids most left right := by
  refine local_of_demand works (works.tables.getMembership listed) fun row ok => ?_
  have stands := getMembership_ok ok
  have same := works.tables.fits_left.indexed.membership_id id row stands
  exact changePermission_local bare works (same ▸ listed)
    ((works.tables.fits_left.membership id row stands).mp listed) permission

theorem removeMembership_local {row : Membership} (listed : row.id ∈ region.memberships) :
    (removeMembership scene row).Local region scene.ids most left right :=
  local_of_callHooks bare works
    (local_of_write works listed fun _ _ _ works => local_pure works _)

theorem deleteMembership_local {id : Id} (listed : id ∈ region.memberships) (purgeBelow : Bool) :
    (deleteMembership scene id purgeBelow).Local region scene.ids most left right := by
  refine local_of_demand works (works.tables.getMembership listed) fun row ok => ?_
  have fits := works.tables.fits_left
  have stands := getMembership_ok ok
  have inside := (fits.membership id row stands).mp listed
  have same := fits.indexed.membership_id id row stands
  have removal : Local region scene.ids most (do
      if purgeBelow then
        let below ← ask fun tables => tables.membershipsBelow row.account row.itemPath
        demand fun _ => ensureWithin (below.length + 1) scene.settings.maxItemMembershipsForDelete
        return TaskStep.delegated ((below ++ [row]).map fun row => .deleteMembership row.id)
      else return TaskStep.done (← removeMembership scene row)) left right := by
    refine local_ite _ (fun _ => ?_) fun _ => ?_
    · exact local_of_ask works (works.tables.membershipsBelow row.account inside)
        (local_of_demand works rfl fun _ _ => local_pure works _)
    · exact local_bind bare (fun _ => built_pure _)
        (removeMembership_local bare works (same ▸ listed))
        fun _ _ _ _ _ works => local_pure works _
  refine local_ite _ (fun _ => ?_) fun _ => removal
  refine local_of_demand works (works.tables.getItemAt inside) fun item found => ?_
  have place := ((fits.indexed.itemAt_eq_some _ _).mp (getItemAt_ok found)).2
  exact local_of_demand works (works.tables.require scene.actor .admin (place ▸ inside))
    fun _ _ => removal

theorem deleteMembershipRow_local {id : Id} (listed : id ∈ region.memberships) :
    (deleteMembershipRow scene id).Local region scene.ids most left right := by
  refine local_of_demand works (works.tables.getMembership listed) fun row ok => ?_
  have same := works.tables.fits_left.indexed.membership_id id row (getMembership_ok ok)
  exact removeMembership_local bare works (same ▸ listed)

end Bare

end Action

variable {region : Region} {most : Nat} {left right : Work} {scene : Scene}

/-- What a task does in its first transaction is local to a region with the rows that it names. -/
theorem Task.act_local (bare : scene.hooks.pre = [])
    (works : left.Alike region scene.ids most right) {task : Task}
    (within : task.Within region left.tables) :
    (task.act scene).Local region scene.ids most left right := by
  have done {action : Action TaskOutput} (acts : action.Local region scene.ids most left right) :
      Action.Local region scene.ids most (do return TaskStep.done (← action)) left right :=
    Action.local_bind bare (fun _ => Action.built_pure _) acts
      fun _ _ _ _ _ works => Action.local_pure works _
  have delegated {action : Action (List SubTask)}
      (plans : action.Local region scene.ids most left right) :
      Action.Local region scene.ids most (do return TaskStep.delegated (← action)) left right :=
    Action.local_bind bare (fun _ => Action.built_pure _) plans
      fun _ _ _ _ _ works => Action.local_pure works _
  cases task with
  | createItem new => exact done (Action.createItem_local bare works within)
  | updateItem id patch => exact done (Action.updateItem_local bare works within patch)
  | deleteItem id => exact delegated (Action.planDelete_local works within)
  | moveItem id under =>
      exact done (Action.moveItem_local bare works within.1 within.2.1 within.2.2)
  | copyItem id under => exact delegated (Action.planCopy_local bare works within.1 within.2)
  | createMembership item account permission =>
      exact done (Action.createMembership_local bare works within account permission)
  | updateMembership id permission =>
      exact Action.updateMembership_local bare works within permission
  | deleteMembership id purgeBelow =>
      exact Action.deleteMembership_local bare works within purgeBelow

/-- What a subtask does is local to a region with the row that it names. -/
theorem SubTask.act_local (bare : scene.hooks.pre = [])
    (works : left.Alike region scene.ids most right) {subtask : SubTask}
    (within : subtask.Within region) :
    (subtask.act scene).Local region scene.ids most left right := by
  cases subtask with
  | deleteItem id => exact Action.deleteItemRow_local bare works within
  | copyItem source path top =>
      exact Action.copyItemRow_local bare works within.1 within.2.1 within.2.2 top
  | updateMembership id permission =>
      exact Action.updateMembershipRow_local bare works within permission
  | deleteMembership id => exact Action.deleteMembershipRow_local bare works within

end SharedTree
