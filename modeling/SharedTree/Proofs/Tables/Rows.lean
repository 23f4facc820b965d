import SharedTree.Tables.Query
import Mathlib.Tactic.Common
/-!
Rows and their indexes. The indexes hold nothing that the rows do not tell: each entry leads to a
row that stands there, each row has its entry, and no path has an empty set of accounts. Tables
like that are told by their rows (`Indexed.ext`), and every write keeps them so.
-/
namespace SharedTree.Tables

variable {Key Value : Type} [Ord Key] [Std.TransOrd Key] [Std.LawfulEqOrd Key] [DecidableEq Key]

theorem lookup_insert (map : Std.ExtTreeMap Key Value) (key other : Key) (value : Value) :
    (map.insert key value)[other]? = if other = key then some value else map[other]? := by
  rw [Std.ExtTreeMap.getElem?_insert]
  by_cases same : other = key
  · simp [same, Std.ReflOrd.compare_self]
  · have apart : compare key other ≠ .eq :=
      fun equal => same (Std.LawfulEqOrd.eq_of_compare equal).symm
    simp [same, apart]

theorem lookup_erase (map : Std.ExtTreeMap Key Value) (key other : Key) :
    (map.erase key)[other]? = if other = key then none else map[other]? := by
  rw [Std.ExtTreeMap.getElem?_erase]
  by_cases same : other = key
  · simp [same, Std.ReflOrd.compare_self]
  · have apart : compare key other ≠ .eq :=
      fun equal => same (Std.LawfulEqOrd.eq_of_compare equal).symm
    simp [same, apart]

/-! What each write does to the rows. -/

variable (tables : Tables)

theorem removeItem_items (id other : Id) :
    (tables.removeItem id).items[other]? = if other = id then none else tables.items[other]? := by
  unfold removeItem
  split
  · rename_i missing
    split
    · rename_i same
      rw [same, missing]
    · rfl
  · exact lookup_erase tables.items id other

theorem putItem_items (item : Item) (other : Id) :
    (tables.putItem item).items[other]? =
      if other = item.id then some item else tables.items[other]? := by
  simp only [putItem, lookup_insert, removeItem_items]
  split <;> rfl

theorem removeMembership_memberships (id other : Id) :
    (tables.removeMembership id).memberships[other]? =
      if other = id then none else tables.memberships[other]? := by
  unfold removeMembership
  split
  · rename_i missing
    split
    · rename_i same
      rw [same, missing]
    · rfl
  · exact lookup_erase tables.memberships id other

theorem putMembership_memberships (membership : Membership) (other : Id) :
    (tables.putMembership membership).memberships[other]? =
      if other = membership.id then some membership else tables.memberships[other]? := by
  simp only [putMembership, lookup_insert, removeMembership_memberships]
  split <;> rfl

@[simp] theorem removeItem_memberships (id : Id) :
    (tables.removeItem id).memberships = tables.memberships := by
  unfold removeItem
  split <;> rfl

@[simp] theorem removeItem_membershipPaths (id : Id) :
    (tables.removeItem id).membershipPaths = tables.membershipPaths := by
  unfold removeItem
  split <;> rfl

@[simp] theorem putItem_memberships (item : Item) :
    (tables.putItem item).memberships = tables.memberships := removeItem_memberships tables item.id

@[simp] theorem putItem_membershipPaths (item : Item) :
    (tables.putItem item).membershipPaths = tables.membershipPaths :=
  removeItem_membershipPaths tables item.id

@[simp] theorem removeMembership_items (id : Id) :
    (tables.removeMembership id).items = tables.items := by
  unfold removeMembership
  split <;> rfl

@[simp] theorem removeMembership_itemPaths (id : Id) :
    (tables.removeMembership id).itemPaths = tables.itemPaths := by
  unfold removeMembership
  split <;> rfl

@[simp] theorem putMembership_items (membership : Membership) :
    (tables.putMembership membership).items = tables.items :=
  removeMembership_items tables membership.id

@[simp] theorem putMembership_itemPaths (membership : Membership) :
    (tables.putMembership membership).itemPaths = tables.itemPaths :=
  removeMembership_itemPaths tables membership.id

/-! The index of memberships, read as one map from a path and an account. -/

abbrev MembershipIndex := Std.ExtTreeMap Path (Std.ExtTreeMap Id Id)

def linked? (index : MembershipIndex) (path : Path) (account : Id) : Option Id :=
  index[path]?.bind fun accounts => accounts[account]?

theorem membershipIdAt_eq (account : Id) (path : Path) :
    tables.membershipIdAt? account path = linked? tables.membershipPaths path account := rfl

def NoEmpty (index : MembershipIndex) : Prop :=
  ∀ (path : Path) (accounts : Std.ExtTreeMap Id Id), index[path]? = some accounts → accounts ≠ ∅

/-- Without empty sets of accounts, the sets on a path are told by their entries. -/
theorem accounts_ext {left right : MembershipIndex} (noneLeft : NoEmpty left)
    (noneRight : NoEmpty right) {path : Path}
    (same : ∀ account, linked? left path account = linked? right path account) :
    left[path]? = right[path]? := by
  -- A set of accounts that is not empty has an entry, which the other index must have too.
  have inhabited (accounts : Std.ExtTreeMap Id Id) (some_entry : accounts ≠ ∅) :
      ∃ account id : Id, accounts[account]? = some id := by
    by_contra nothing
    push Not at nothing
    apply some_entry
    apply Std.ExtTreeMap.ext_getElem?
    intro account
    cases found : accounts[account]? with
    | none => simp
    | some id => exact absurd found (nothing account id)
  have missing (a b : MembershipIndex) (fullB : NoEmpty b)
      (agree : ∀ account, linked? a path account = linked? b path account)
      (absent : a[path]? = none) : b[path]? = none := by
    cases found : b[path]? with
    | none => rfl
    | some accounts =>
        obtain ⟨account, id, entry⟩ := inhabited accounts (fullB path accounts found)
        have other := agree account
        simp [linked?, absent, found, entry] at other
  cases foundLeft : left[path]? with
  | none => exact (missing left right noneRight same foundLeft).symm
  | some accounts =>
      cases foundRight : right[path]? with
      | none =>
          have absent := missing right left noneLeft (fun account => (same account).symm) foundRight
          rw [absent] at foundLeft
          cases foundLeft
      | some accounts' =>
          apply congrArg some
          apply Std.ExtTreeMap.ext_getElem?
          intro account
          simpa [linked?, foundLeft, foundRight] using same account

theorem index_ext (left right : MembershipIndex) (noneLeft : NoEmpty left)
    (noneRight : NoEmpty right)
    (same : ∀ path account, linked? left path account = linked? right path account) :
    left = right :=
  Std.ExtTreeMap.ext_getElem? fun {path} => accounts_ext noneLeft noneRight (same path)

theorem link_entry (index : MembershipIndex) (path other : Path) (account holder id : Id) :
    linked? (link index path account id) other holder =
      if other = path ∧ holder = account then some id else linked? index other holder := by
  by_cases here : other = path
  · subst here
    by_cases mine : holder = account
    · simp [linked?, link, mine]
    · cases found : index[other]? <;> simp [linked?, link, lookup_insert, mine, found]
  · simp [linked?, link, lookup_insert, here]

theorem link_noEmpty (index : MembershipIndex) (path : Path) (account id : Id)
    (full : NoEmpty index) : NoEmpty (link index path account id) := by
  intro other accounts found
  rw [link, lookup_insert] at found
  split at found
  · cases found
    intro empty
    have entry := lookup_insert (index[path]?.getD ∅) account account id
    simp [empty] at entry
  · exact full other accounts found

theorem unlink_entry (index : MembershipIndex) (path other : Path) (account holder id : Id) :
    linked? (unlink index path account id) other holder =
      if other = path ∧ holder = account ∧ linked? index path account = some id then none
      else linked? index other holder := by
  unfold unlink
  split
  · rename_i missing
    by_cases here : other = path
    · simp [here, linked?, missing]
    · simp [here]
  · rename_i accounts found
    -- Whether the set is dropped or put back, a lookup gives what is left of it.
    have left_over (left : Std.ExtTreeMap Id Id) :
        linked? (if left.isEmpty then index.erase path else index.insert path left) other holder =
          if other = path then left[holder]? else linked? index other holder := by
      by_cases here : other = path
      · subst here
        by_cases empty : left.isEmpty = true
        · have none_left : left = ∅ := Std.ExtTreeMap.isEmpty_iff.mp empty
          simp [linked?, none_left]
        · simp [linked?, empty]
      · by_cases empty : left.isEmpty = true <;>
          simp [linked?, here, empty, lookup_erase, lookup_insert]
    rw [left_over]
    by_cases here : other = path
    · subst here
      by_cases owner : accounts[account]? = some id
      · by_cases mine : holder = account <;> simp [linked?, found, owner, mine, lookup_erase]
      · simp [linked?, found, owner]
    · simp [here]

theorem putBack_noEmpty (index : MembershipIndex) (path : Path) (left : Std.ExtTreeMap Id Id)
    (full : NoEmpty index) :
    NoEmpty (if left.isEmpty then index.erase path else index.insert path left) := by
  intro other accounts found
  split at found
  · rw [lookup_erase] at found
    split at found
    · cases found
    · exact full other accounts found
  · rename_i nonempty
    rw [lookup_insert] at found
    split at found
    · cases found
      exact fun empty => nonempty (Std.ExtTreeMap.isEmpty_iff.mpr empty)
    · exact full other accounts found

theorem unlink_noEmpty (index : MembershipIndex) (path : Path) (account id : Id)
    (full : NoEmpty index) : NoEmpty (unlink index path account id) := by
  unfold unlink
  split
  · exact full
  · exact putBack_noEmpty index path _ full

end SharedTree.Tables

namespace SharedTree

/-- Rows are found under their own identifiers, and the indexes hold just what the rows tell. -/
structure Tables.Indexed (tables : Tables) : Prop where
  item_id : ∀ (id : Id) (item : Item), tables.items[id]? = some item → item.id = id
  item_path : ∀ (path : Path) (id : Id), tables.itemPaths[path]? = some id ↔
    ∃ item, tables.items[id]? = some item ∧ item.path = path
  membership_id : ∀ (id : Id) (row : Membership), tables.memberships[id]? = some row → row.id = id
  membership_path : ∀ path account id, tables.membershipIdAt? account path = some id ↔
    ∃ row, tables.memberships[id]? = some row ∧ row.itemPath = path ∧ row.account = account
  no_empty : Tables.NoEmpty tables.membershipPaths

namespace Tables

theorem empty_indexed : empty.Indexed where
  item_id := by simp [empty]
  item_path := by simp [empty]
  membership_id := by simp [empty]
  membership_path := by simp [empty, membershipIdAt?]
  no_empty := by simp [empty, NoEmpty]

namespace Indexed

variable {tables : Tables}

/-- Tables with their indexes in step are told by their rows. -/
theorem ext {other : Tables} (indexed : tables.Indexed) (indexed' : other.Indexed)
    (items : ∀ id : Id, tables.items[id]? = other.items[id]?)
    (memberships : ∀ id : Id, tables.memberships[id]? = other.memberships[id]?) :
    tables = other := by
  have rows : tables.items = other.items := Std.ExtTreeMap.ext_getElem? fun {id} => items id
  have grants : tables.memberships = other.memberships :=
    Std.ExtTreeMap.ext_getElem? fun {id} => memberships id
  apply Tables.ext
  · exact rows
  · apply Std.ExtTreeMap.ext_getElem?
    intro path
    apply Option.ext
    intro id
    rw [indexed.item_path, indexed'.item_path, rows]
  · exact grants
  · apply index_ext _ _ indexed.no_empty indexed'.no_empty
    intro path account
    apply Option.ext
    intro id
    rw [← membershipIdAt_eq, ← membershipIdAt_eq, indexed.membership_path,
      indexed'.membership_path, grants]

theorem same_item (indexed : tables.Indexed) {a b : Id} {left right : Item}
    (first : tables.items[a]? = some left) (second : tables.items[b]? = some right)
    (same : left.path = right.path) : a = b := by
  have entry := (indexed.item_path right.path a).mpr ⟨left, first, same⟩
  have entry' := (indexed.item_path right.path b).mpr ⟨right, second, rfl⟩
  exact Option.some.inj (entry.symm.trans entry')

theorem same_membership (indexed : tables.Indexed) {a b : Id} {left right : Membership}
    (first : tables.memberships[a]? = some left) (second : tables.memberships[b]? = some right)
    (path : left.itemPath = right.itemPath) (account : left.account = right.account) : a = b := by
  have entry := (indexed.membership_path right.itemPath right.account a).mpr
    ⟨left, first, path, account⟩
  have entry' := (indexed.membership_path right.itemPath right.account b).mpr
    ⟨right, second, rfl, rfl⟩
  exact Option.some.inj (entry.symm.trans entry')

theorem removeItem (indexed : tables.Indexed) (id : Id) : (tables.removeItem id).Indexed where
  item_id := by
    intro other item found
    rw [removeItem_items] at found
    split at found
    · cases found
    · exact indexed.item_id other item found
  item_path := by
    intro path other
    have paths : (tables.removeItem id).itemPaths[path]? = some other ↔
        tables.itemPaths[path]? = some other ∧ other ≠ id := by
      unfold Tables.removeItem
      split
      · rename_i missing
        refine ⟨fun entry => ⟨entry, ?_⟩, And.left⟩
        rintro rfl
        obtain ⟨item, found, _⟩ := (indexed.item_path path other).mp entry
        rw [missing] at found
        cases found
      · rename_i old found
        have owner := (indexed.item_path old.path id).mpr ⟨old, found, rfl⟩
        simp only [owner, if_true, lookup_erase]
        by_cases here : path = old.path
        · subst here
          simp only [if_true, owner, Option.some.injEq]
          constructor
          · intro absurd_entry
            cases absurd_entry
          · rintro ⟨same, different⟩
            exact absurd same.symm different
        · simp only [here, if_false, iff_self_and]
          rintro entry rfl
          obtain ⟨item, found', place⟩ := (indexed.item_path path other).mp entry
          rw [found] at found'
          cases found'
          exact here place.symm
    rw [paths, indexed.item_path]
    by_cases same : other = id <;> simp [removeItem_items, same]
  membership_id := by simpa using indexed.membership_id
  membership_path := by simpa [membershipIdAt_eq] using indexed.membership_path
  no_empty := by simpa using indexed.no_empty

theorem putItem (indexed : tables.Indexed) (item : Item)
    (free : ∀ (id : Id) (row : Item), tables.items[id]? = some row →
      row.path = item.path → id = item.id) :
    (tables.putItem item).Indexed where
  item_id := by
    intro other row found
    rw [putItem_items] at found
    split at found
    · rename_i same
      cases found
      exact same.symm
    · exact indexed.item_id other row found
  item_path := by
    intro path other
    have cleared := indexed.removeItem item.id
    have paths : (tables.putItem item).itemPaths[path]? =
        if path = item.path then some item.id else (tables.removeItem item.id).itemPaths[path]? :=
      lookup_insert _ _ _ _
    rw [paths]
    by_cases here : path = item.path
    · subst here
      simp only [if_true, Option.some.injEq, putItem_items]
      constructor
      · rintro rfl
        exact ⟨item, by simp, rfl⟩
      · rintro ⟨row, found, place⟩
        split at found
        · rename_i same
          exact same.symm
        · exact (free other row found place).symm
    · rw [if_neg here, cleared.item_path]
      simp only [putItem_items, removeItem_items]
      by_cases same : other = item.id
      · simp [same, Ne.symm here]
      · simp [same]
  membership_id := by simpa using indexed.membership_id
  membership_path := by simpa [membershipIdAt_eq] using indexed.membership_path
  no_empty := by simpa using indexed.no_empty

theorem removeMembership (indexed : tables.Indexed) (id : Id) :
    (tables.removeMembership id).Indexed where
  item_id := by simpa using indexed.item_id
  item_path := by simpa using indexed.item_path
  membership_id := by
    intro other row found
    rw [removeMembership_memberships] at found
    split at found
    · cases found
    · exact indexed.membership_id other row found
  membership_path := by
    intro path account other
    have entries : (tables.removeMembership id).membershipIdAt? account path = some other ↔
        tables.membershipIdAt? account path = some other ∧ other ≠ id := by
      unfold Tables.removeMembership
      split
      · rename_i missing
        refine ⟨fun entry => ⟨entry, ?_⟩, And.left⟩
        rintro rfl
        obtain ⟨row, found, _⟩ := (indexed.membership_path path account other).mp entry
        rw [missing] at found
        cases found
      · rename_i old found
        have owner :=
          (indexed.membership_path old.itemPath old.account id).mpr ⟨old, found, rfl, rfl⟩
        rw [membershipIdAt_eq] at owner
        simp only [membershipIdAt_eq, unlink_entry, owner, and_true]
        by_cases here : path = old.itemPath ∧ account = old.account
        · obtain ⟨rfl, rfl⟩ := here
          simp only [and_self, if_true, owner, Option.some.injEq]
          constructor
          · intro absurd_entry
            cases absurd_entry
          · rintro ⟨same, different⟩
            exact absurd same.symm different
        · rw [if_neg here, iff_self_and]
          rintro entry rfl
          obtain ⟨row, found', place, holder⟩ :=
            (indexed.membership_path path account other).mp entry
          rw [found] at found'
          cases found'
          exact here ⟨place.symm, holder.symm⟩
    rw [entries, indexed.membership_path]
    by_cases same : other = id <;> simp [removeMembership_memberships, same]
  no_empty := by
    unfold Tables.removeMembership
    split
    · exact indexed.no_empty
    · exact unlink_noEmpty _ _ _ _ indexed.no_empty

theorem putMembership (indexed : tables.Indexed) (membership : Membership)
    (free : ∀ (id : Id) (row : Membership), tables.memberships[id]? = some row →
      row.itemPath = membership.itemPath → row.account = membership.account → id = membership.id) :
    (tables.putMembership membership).Indexed where
  item_id := by simpa using indexed.item_id
  item_path := by simpa using indexed.item_path
  membership_id := by
    intro other row found
    rw [putMembership_memberships] at found
    split at found
    · rename_i same
      cases found
      exact same.symm
    · exact indexed.membership_id other row found
  membership_path := by
    intro path account other
    have cleared := indexed.removeMembership membership.id
    have entries : (tables.putMembership membership).membershipIdAt? account path =
        if path = membership.itemPath ∧ account = membership.account then some membership.id
        else (tables.removeMembership membership.id).membershipIdAt? account path :=
      link_entry _ _ _ _ _ _
    rw [entries]
    by_cases here : path = membership.itemPath ∧ account = membership.account
    · obtain ⟨rfl, rfl⟩ := here
      simp only [and_self, if_true, Option.some.injEq, putMembership_memberships]
      constructor
      · rintro rfl
        exact ⟨membership, by simp, rfl, rfl⟩
      · rintro ⟨row, found, place, holder⟩
        split at found
        · rename_i same
          exact same.symm
        · exact (free other row found place holder).symm
    · rw [if_neg here, cleared.membership_path]
      simp only [putMembership_memberships, removeMembership_memberships]
      by_cases same : other = membership.id
      · have apart : ¬ (membership.itemPath = path ∧ membership.account = account) :=
          fun both => here ⟨both.1.symm, both.2.symm⟩
        simp [same, apart]
      · simp [same]
  no_empty := link_noEmpty _ _ _ _ (indexed.removeMembership membership.id).no_empty

/-- The path is free, or the item's own. -/
theorem putItem_own (indexed : tables.Indexed) {item : Item}
    (taken : ∀ other, tables.itemPaths[item.path]? = some other → other = item.id) :
    (tables.putItem item).Indexed :=
  indexed.putItem item fun id row found place =>
    taken id ((indexed.item_path item.path id).mpr ⟨row, found, place⟩)

theorem putMembership_own (indexed : tables.Indexed) {row : Membership}
    (taken : ∀ other, tables.membershipIdAt? row.account row.itemPath = some other →
      other = row.id) :
    (tables.putMembership row).Indexed :=
  indexed.putMembership row fun id other found place holder =>
    taken id ((indexed.membership_path row.itemPath row.account id).mpr
      ⟨other, found, place, holder⟩)

end Indexed

end Tables

end SharedTree
