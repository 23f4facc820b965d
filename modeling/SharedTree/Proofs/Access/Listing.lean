import SharedTree.Proofs.Transaction.Scans
/-!
The memberships that count on a path. The listing collects the rows from the root down and keeps
the last of each account; the question for one account goes up from the path and stops at the first
row. They agree for every account (`listing_agrees`), however the rows came about.
-/
namespace SharedTree.Tables

variable {tables : Tables}

theorem effectivePermission_eq_some (account : Id) (path : Path) (level : Permission) :
    tables.effectivePermission? account path = some level ↔
      ∃ row, tables.closestMembership? account path = some row ∧ row.permission = level :=
  Option.map_eq_some_iff

theorem effectiveAt_sorted (path : Path) : (tables.effectiveAt path).Pairwise fun a b =>
    (compare a.itemPath b.itemPath).isLE = true :=
  have : Std.TransCmp fun a b : Membership => compare a.itemPath b.itemPath :=
    inferInstanceAs (Std.TransCmp (compareOn Membership.itemPath))
  have : Std.TransCmp fun a b : Membership => compare a.createdAt b.createdAt :=
    inferInstanceAs (Std.TransCmp (compareOn Membership.createdAt))
  pairwise_mergeSort_first _

namespace Indexed

variable (indexed : tables.Indexed)
include indexed

/-- Each account is kept under itself, so it is listed once. -/
theorem effectiveAt_distinct (path : Path) :
    ((tables.effectiveAt path).map Membership.account).Nodup := by
  have sorted := List.mergeSort_perm (lastOfAccounts (tables.membershipsCovering path)).values
    fun a b => (effectiveOrder a b).isLE
  refine (sorted.map Membership.account).nodup_iff.mpr (values_distinct fun account row kept => ?_)
  rw [lastOfAccounts_lookup, indexed.covering_last] at kept
  exact (indexed.closestMembership_reaches kept).2.1

/-- The listing tells of every account what the question for that account does. -/
theorem listing_agrees (path : Path) :
    ((tables.effectiveAt path).map Membership.account).Nodup ∧
    (∀ account, (∃ row ∈ tables.effectiveAt path, row.account = account) ↔
      tables.effectivePermission? account path ≠ none) ∧
    (∀ row ∈ tables.effectiveAt path,
      tables.closestMembership? row.account path = some row ∧
      tables.effectivePermission? row.account path = some row.permission) ∧
    (tables.effectiveAt path).Pairwise fun a b => (compare a.itemPath b.itemPath).isLE = true := by
  refine ⟨indexed.effectiveAt_distinct path, fun account => ?_, fun row listed => ?_,
    effectiveAt_sorted path⟩
  · simp only [indexed.mem_effectiveAt, Option.ne_none_iff_exists', effectivePermission_eq_some]
    constructor
    · rintro ⟨row, closest, rfl⟩
      exact ⟨row.permission, row, closest, rfl⟩
    · rintro ⟨_, row, closest, _⟩
      obtain ⟨_, rfl, _⟩ := indexed.closestMembership_reaches closest
      exact ⟨row, closest, rfl⟩
  · have closest := (indexed.mem_effectiveAt path row).mp listed
    exact ⟨closest, (effectivePermission_eq_some _ _ _).mpr ⟨row, closest, rfl⟩⟩

end Indexed

/-! Rows written one by one, without the rules that tasks keep: the guest holds less on a page than
on the folder above, and something in a second folder but nothing on the folder itself. -/

namespace Written

def owner : Id := .ofNat 1

def guest : Id := .ofNat 2

def item (path : Path) : Item := .make path.id path "item" .folder .null owner default

def folder : Path := .root (.ofNat 10)

def chapter : Path := folder.child (.ofNat 11)

def page : Path := chapter.child (.ofNat 12)

def second : Path := .root (.ofNat 13)

def letter : Path := second.child (.ofNat 14)

def owned : Membership := .make (.ofNat 20) folder owner .admin owner default

def upper : Membership := .make (.ofNat 21) folder guest .write owner default

def lower : Membership := .make (.ofNat 22) page guest .read owner default

def apart : Membership := .make (.ofNat 23) letter guest .read owner default

def stages : List Transaction.Stage :=
  ([folder, chapter, page, second, letter].map fun path => .row (.insertItem (item path))) ++
    [lower, apart, owned, upper].map fun row => .row (.insertMembership row)

def store : Tables := ((Transaction.start .empty).advanceAll stages).tables

theorem indexed : store.Indexed :=
  ((Transaction.leadsBackTo_start empty_indexed).advanceAll stages).choose_spec.indexed

end Written

theorem written_listing_agrees :
    Written.store.Indexed ∧ Written.lower ∈ Written.store.effectiveAt Written.page ∧
      Written.store.closestMembership? Written.guest Written.page = some Written.lower ∧
      Written.store.effectivePermission? Written.guest Written.page = some .read := by
  have listed : Written.lower ∈ Written.store.effectiveAt Written.page :=
    List.mem_mergeSort.mpr (by decide +kernel)
  obtain ⟨_, _, told, _⟩ := Written.indexed.listing_agrees Written.page
  exact ⟨Written.indexed, listed, told Written.lower listed⟩

end SharedTree.Tables
