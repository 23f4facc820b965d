import Mathlib.Data.List.Induction
import SharedTree.Engine.Requests
import SharedTree.Proofs.Access.Listing
/-!
What an account is shown first: the tops of what it may see. The rows are gone through in the order
of their paths and compared only with those kept before, which are all that matter: a row passed
over lies below one that was kept (`topmost_covers`), and none that comes later is above
(`topmost_eq_filter`). Main statement: `shared_items_are_tops`.
-/
namespace SharedTree.Tables

def HoldsAt (tables : Tables) (account : Id) (path : Path) : Prop :=
  ∃ row, tables.HasRow row ∧ row.account = account ∧ row.itemPath = path

variable {tables : Tables}

theorem topmost_concat (rows : List Membership) (last : Membership) :
    topmost (rows ++ [last]) =
      if (topmost rows).any fun top => top.itemPath.isAncestorOf last.itemPath then topmost rows
      else topmost rows ++ [last] := by
  rw [topmost, List.foldl_append]
  rfl

/-- Every row lies on one that is kept or below. -/
theorem topmost_covers (rows : List Membership) :
    ∀ row ∈ rows, ∃ top ∈ topmost rows, top.itemPath.covers row.itemPath = true := by
  induction rows using List.reverseRecOn with
  | nil => simp
  | append_singleton rows last ih =>
      intro row inside
      rw [topmost_concat]
      split
      · rename_i above
        rcases List.mem_append.mp inside with earlier | now
        · exact ih row earlier
        · obtain ⟨top, kept, higher⟩ := List.any_eq_true.mp above
          rw [List.mem_singleton.mp now]
          exact ⟨top, kept, Path.covers_of_isAncestorOf higher⟩
      · rcases List.mem_append.mp inside with earlier | now
        · obtain ⟨top, kept, spans⟩ := ih row earlier
          exact ⟨top, List.mem_append_left _ kept, spans⟩
        · exact ⟨row, List.mem_append_right _ now, Path.covers_refl _⟩

/-- Where no row comes before one that is above it, those are kept that have no other above them. -/
theorem topmost_eq_filter {rows : List Membership}
    (ordered : rows.Pairwise fun a b => b.itemPath.isAncestorOf a.itemPath = false) :
    topmost rows = rows.filter fun row =>
      !rows.any fun other => other.itemPath.isAncestorOf row.itemPath := by
  induction rows using List.reverseRecOn with
  | nil => rfl
  | append_singleton rows last ih =>
      obtain ⟨before, -, apart⟩ := List.pairwise_append.mp ordered
      have apart (row : Membership) (inside : row ∈ rows) :
          last.itemPath.isAncestorOf row.itemPath = false :=
        apart row inside last List.mem_cons_self
      -- Whether something is above the last row can be told by the rows that are kept.
      have told : ((topmost rows).any fun top => top.itemPath.isAncestorOf last.itemPath) =
          rows.any fun other => other.itemPath.isAncestorOf last.itemPath := by
        rw [Bool.eq_iff_iff, List.any_eq_true, List.any_eq_true]
        constructor
        · rintro ⟨top, kept, higher⟩
          rw [ih before] at kept
          exact ⟨top, List.mem_of_mem_filter kept, higher⟩
        · rintro ⟨other, inside, higher⟩
          obtain ⟨top, kept, spans⟩ := topmost_covers rows other inside
          exact ⟨top, kept, Path.covers_isAncestorOf spans higher⟩
      have self : last.itemPath.isAncestorOf last.itemPath = false := by
        simp [← Bool.not_eq_true, Path.isAncestorOf_iff_covers]
      have earlier : (rows.filter fun row =>
          !(rows ++ [last]).any fun other => other.itemPath.isAncestorOf row.itemPath) =
            topmost rows := by
        rw [ih before]
        refine List.filter_congr fun row inside => ?_
        rw [List.any_append, List.any_cons, apart row inside]
        simp
      rw [topmost_concat, told, List.filter_append, earlier, List.filter_cons, List.any_append,
        List.any_cons, self]
      cases rows.any fun other => other.itemPath.isAncestorOf last.itemPath <;> simp

namespace Indexed

variable (indexed : tables.Indexed)
include indexed

/-- The rows of an account that have none of its rows above them. -/
theorem mem_tops (account : Id) (row : Membership) :
    row ∈ topmost (tables.membershipsOf account) ↔ (tables.HasRow row ∧ row.account = account) ∧
      ∀ other, tables.HasRow other → other.account = account →
        ¬ other.itemPath.isAncestorOf row.itemPath = true := by
  have ordered := (indexed.membershipsOf_ascending account).imp Path.apart_of_compare
  simp only [topmost_eq_filter ordered, List.mem_filter, indexed.mem_membershipsOf,
    Bool.not_eq_true', List.any_eq_false, and_imp]

theorem tops_ascending (account : Id) :
    ((topmost (tables.membershipsOf account)).map Membership.itemPath).Pairwise
      fun a b => compare a b = .lt := by
  have ascending := indexed.membershipsOf_ascending account
  rw [topmost_eq_filter (ascending.imp Path.apart_of_compare)]
  exact List.pairwise_map.mpr (ascending.filter _)

theorem effectivePermission_iff (account : Id) (path : Path) :
    tables.effectivePermission? account path ≠ none ↔ ∃ row, tables.Reaches account path row := by
  rw [effectivePermission?, Ne, Option.map_eq_none_iff, indexed.closestMembership_eq_none,
    not_forall_not]

/-- Tops are reached from where the account may do anything, and no two of them on one line. -/
theorem existsUnique_top (account : Id) (path : Path) :
    tables.effectivePermission? account path ≠ none ↔
      ∃! top, top ∈ (topmost (tables.membershipsOf account)).map Membership.itemPath ∧
        top.covers path = true := by
  simp only [indexed.effectivePermission_iff, List.mem_map]
  constructor
  · rintro ⟨row, stands, holder, spans⟩
    obtain ⟨top, kept, higher⟩ :=
      topmost_covers _ row ((indexed.mem_membershipsOf account row).mpr ⟨stands, holder⟩)
    refine ⟨top.itemPath, ⟨⟨top, kept, rfl⟩, Path.covers_trans higher spans⟩, ?_⟩
    rintro _ ⟨⟨other, kept', rfl⟩, spans'⟩
    obtain ⟨⟨found, owner⟩, free⟩ := (indexed.mem_tops account top).mp kept
    obtain ⟨⟨found', owner'⟩, free'⟩ := (indexed.mem_tops account other).mp kept'
    -- Both are above the path, so one would be above the other.
    by_contra different
    rcases Path.covers_total (Path.covers_trans higher spans) spans' with down | up
    · exact free' top found owner ((Path.isAncestorOf_iff_covers _ _).mpr ⟨down, Ne.symm different⟩)
    · exact free other found' owner' ((Path.isAncestorOf_iff_covers _ _).mpr ⟨up, different⟩)
  · rintro ⟨_, ⟨⟨top, kept, rfl⟩, spans⟩, _⟩
    obtain ⟨⟨found, owner⟩, _⟩ := (indexed.mem_tops account top).mp kept
    exact ⟨top, found, owner, spans⟩

variable
  (carried : ∀ row, tables.HasRow row → ∃ item, tables.HasItem item ∧ item.path = row.itemPath)
include carried

/-- The items of the tops are found, in the order of the tops. -/
theorem sharedItems_answer (account : Id) :
    ∃ items, tables.sharedItems account = .ok items ∧
      items.map Item.path = (topmost (tables.membershipsOf account)).map Membership.itemPath ∧
      ∀ item, item ∈ items ↔ tables.HasItem item ∧
        item.path ∈ (topmost (tables.membershipsOf account)).map Membership.itemPath := by
  rw [sharedItems, ← Function.comp_def tables.getItemAt, ← List.mapM_map]
  refine indexed.mapM_getItemAt fun path inside => ?_
  obtain ⟨row, kept, rfl⟩ := List.mem_map.mp inside
  exact carried row ((indexed.mem_tops account row).mp kept).1.1

/-- An account is shown the items that it has a membership on and on none above, by path; it may do
anything on an item just if one of these is the item or above it, and then it is one only. -/
theorem shared_items_are_tops (account : Id) :
    ∃ items, tables.sharedItems account = .ok items ∧
      items.Pairwise (fun a b => compare a.path b.path = .lt) ∧
      (∀ item, item ∈ items ↔ tables.HasItem item ∧ tables.HoldsAt account item.path ∧
        ∀ above, tables.HasItem above → above.path.isAncestorOf item.path = true →
          ¬ tables.HoldsAt account above.path) ∧
      ∀ item, tables.HasItem item →
        (tables.effectivePermission? account item.path ≠ none ↔
          ∃! top, top ∈ items ∧ top.path.covers item.path = true) := by
  have tops := indexed.mem_tops account
  obtain ⟨items, answered, places, listed⟩ := indexed.sharedItems_answer carried account
  refine ⟨items, answered, ?_, fun item => ?_, fun item stands => ?_⟩
  · have ascending := indexed.tops_ascending account
    rw [← places] at ascending
    exact List.pairwise_map.mp ascending
  · rw [listed, List.mem_map]
    refine and_congr_right fun stands => ⟨?_, ?_⟩
    · rintro ⟨row, kept, here⟩
      obtain ⟨⟨found, owner⟩, free⟩ := (tops row).mp kept
      refine ⟨⟨row, found, owner, here⟩, ?_⟩
      rintro above - higher ⟨other, found', owner', there⟩
      exact free other found' owner' (by rwa [there, here])
    · rintro ⟨⟨row, found, owner, here⟩, free⟩
      refine ⟨row, (tops row).mpr ⟨⟨found, owner⟩, fun other found' owner' higher => ?_⟩, here⟩
      -- The other row is on an item too, which is above this one.
      obtain ⟨above, stands', there⟩ := carried other found'
      exact free above stands' (by rwa [there, ← here]) ⟨other, found', owner', there.symm⟩
  · rw [indexed.existsUnique_top, ← places]
    constructor
    · rintro ⟨_, ⟨inside, spans⟩, only⟩
      obtain ⟨top, shown, rfl⟩ := List.mem_map.mp inside
      refine ⟨top, ⟨shown, spans⟩, fun other ⟨shown', spans'⟩ => ?_⟩
      exact indexed.item_unique ((listed other).mp shown').1 ((listed top).mp shown).1
        (only _ ⟨List.mem_map_of_mem shown', spans'⟩)
    · rintro ⟨top, ⟨shown, spans⟩, only⟩
      refine ⟨top.path, ⟨List.mem_map_of_mem shown, spans⟩, ?_⟩
      rintro _ ⟨inside, spans'⟩
      obtain ⟨other, shown', rfl⟩ := List.mem_map.mp inside
      rw [only other ⟨shown', spans'⟩]

end Indexed

theorem Written.carried (row : Membership) (stands : store.HasRow row) :
    ∃ item, store.HasItem item ∧ item.path = row.itemPath := by
  have all : ∀ row ∈ store.memberships.values,
      ∃ item ∈ store.items.values, item.path = row.itemPath := by
    decide +kernel
  obtain ⟨item, inside, place⟩ := all row ((indexed.mem_memberships row).mpr stands)
  exact ⟨item, (indexed.mem_items item).mp inside, place⟩

theorem written_shared_items_are_tops :
    Written.store.HasRow Written.upper ∧ Written.store.HasRow Written.lower ∧
      Written.store.HasItem (Written.item Written.page) ∧
      ∃ items, Written.store.sharedItems Written.guest = .ok items ∧
        Written.item Written.page ∉ items ∧
        ∃! top, top ∈ items ∧ top.path.covers Written.page = true := by
  have upper : Written.store.HasRow Written.upper := by
    rw [HasRow]
    decide +kernel
  have lower : Written.store.HasRow Written.lower := by
    rw [HasRow]
    decide +kernel
  have page : Written.store.HasItem (Written.item Written.page) := by
    rw [HasItem]
    decide +kernel
  have folder : Written.store.HasItem (Written.item Written.folder) := by
    rw [HasItem]
    decide +kernel
  obtain ⟨items, answered, _, listed, tops⟩ :=
    Written.indexed.shared_items_are_tops Written.carried Written.guest
  refine ⟨upper, lower, page, items, answered, fun shown => ?_, (tops _ page).mp ?_⟩
  · exact ((listed _).mp shown).2.2 _ folder (by decide +kernel) ⟨_, upper, rfl, rfl⟩
  · decide +kernel

end SharedTree.Tables
