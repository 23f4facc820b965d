import SharedTree.Proofs.Tables.Queries
/-!
Changes lead to the tables whose rows they tell (`applyAll_toward`), so those of a snapshot lead to
the tables it was taken of (`applyAll_snapshot`). Between two changes there can be two rows on one
path, and the indexes are not in step with the rows all the way. `Approaches` says what is kept
instead: no entry of an index is wrong, and rows that already are as they end up have theirs.
-/
namespace SharedTree

/-- Tables on the way to others: each entry of an index leads to a row that stands there, and the
rows that are as in the target have their entries. -/
structure Tables.Approaches (target tables : Tables) : Prop where
  item_id : ∀ (id : Id) (item : Item), tables.items[id]? = some item → item.id = id
  item_entry : ∀ (path : Path) (id : Id), tables.itemPaths[path]? = some id →
    ∃ item, tables.items[id]? = some item ∧ item.path = path
  item_settled : ∀ (id : Id) (item : Item), tables.items[id]? = some item →
    target.items[id]? = some item → tables.itemPaths[item.path]? = some id
  membership_id : ∀ (id : Id) (row : Membership), tables.memberships[id]? = some row → row.id = id
  membership_entry : ∀ path account id, tables.membershipIdAt? account path = some id →
    ∃ row, tables.memberships[id]? = some row ∧ row.itemPath = path ∧ row.account = account
  membership_settled : ∀ (id : Id) (row : Membership), tables.memberships[id]? = some row →
    target.memberships[id]? = some row →
      tables.membershipIdAt? row.account row.itemPath = some id
  no_empty : Tables.NoEmpty tables.membershipPaths

def Change.Toward (target : Tables) : Change → Prop
  | putItem item => target.items[item.id]? = some item
  | deleteItem id => target.items[id]? = none
  | putMembership row => target.memberships[row.id]? = some row
  | deleteMembership id => target.memberships[id]? = none

def Change.item? : Change → Option Id
  | putItem item => some item.id
  | deleteItem id => some id
  | _ => none

def Change.membership? : Change → Option Id
  | putMembership row => some row.id
  | deleteMembership id => some id
  | _ => none

namespace Tables

variable {target tables : Tables}

theorem Indexed.approaches (indexed : tables.Indexed) (target : Tables) :
    target.Approaches tables where
  item_id := indexed.item_id
  item_entry := fun path id => (indexed.item_path path id).mp
  item_settled := fun id item found _ => (indexed.item_path item.path id).mpr ⟨item, found, rfl⟩
  membership_id := indexed.membership_id
  membership_entry := fun path account id => (indexed.membership_path path account id).mp
  membership_settled := fun id row found _ =>
    (indexed.membership_path row.itemPath row.account id).mpr ⟨row, found, rfl, rfl⟩
  no_empty := indexed.no_empty

namespace Approaches

/-- The entries of an item go with it, and no others. -/
theorem removeItem_entry (approaches : target.Approaches tables) (id other : Id) (path : Path) :
    (tables.removeItem id).itemPaths[path]? = some other ↔
      tables.itemPaths[path]? = some other ∧ other ≠ id := by
  -- An entry for the item leads to its path.
  have own (here : tables.itemPaths[path]? = some id) :
      ∃ old, tables.items[id]? = some old ∧ old.path = path := approaches.item_entry path id here
  unfold Tables.removeItem
  split
  · grind
  · rename_i old found
    dsimp only
    split
    · rename_i owner
      rw [lookup_erase]
      split
      · rename_i here
        rw [here, owner]
        grind
      · grind
    · grind

theorem removeItem (approaches : target.Approaches tables) (id : Id)
    (gone : target.items[id]? = none) : target.Approaches (tables.removeItem id) where
  item_id := by
    intro other item found
    rw [removeItem_items] at found
    split at found
    · cases found
    · exact approaches.item_id other item found
  item_entry := by
    intro path other entry
    obtain ⟨before, apart⟩ := (approaches.removeItem_entry id other path).mp entry
    obtain ⟨item, found, place⟩ := approaches.item_entry path other before
    exact ⟨item, by rw [removeItem_items, if_neg apart, found], place⟩
  item_settled := by
    intro other item found settled
    have apart : other ≠ id := by
      rintro rfl
      rw [gone] at settled
      cases settled
    rw [removeItem_items, if_neg apart] at found
    exact (approaches.removeItem_entry id other item.path).mpr
      ⟨approaches.item_settled other item found settled, apart⟩
  membership_id := by simpa using approaches.membership_id
  membership_entry := by simpa [membershipIdAt_eq] using approaches.membership_entry
  membership_settled := by simpa [membershipIdAt_eq] using approaches.membership_settled
  no_empty := by simpa using approaches.no_empty

theorem putItem (approaches : target.Approaches tables) (indexed : target.Indexed) (item : Item)
    (there : target.items[item.id]? = some item) : target.Approaches (tables.putItem item) where
  item_id := by
    intro other row found
    rw [putItem_items] at found
    split at found
    · rename_i same
      cases found
      exact same.symm
    · exact approaches.item_id other row found
  item_entry := by
    intro path other entry
    have entries : (tables.putItem item).itemPaths[path]? =
        if path = item.path then some item.id else (tables.removeItem item.id).itemPaths[path]? :=
      lookup_insert _ _ _ _
    rw [entries] at entry
    split at entry
    · rename_i here
      cases entry
      exact ⟨item, by simp [putItem_items], here.symm⟩
    · obtain ⟨before, apart⟩ := (approaches.removeItem_entry item.id other path).mp entry
      obtain ⟨row, found, place⟩ := approaches.item_entry path other before
      exact ⟨row, by rw [putItem_items, if_neg apart, found], place⟩
  item_settled := by
    intro other row found settled
    have entries : (tables.putItem item).itemPaths[row.path]? =
        if row.path = item.path then some item.id
        else (tables.removeItem item.id).itemPaths[row.path]? := lookup_insert _ _ _ _
    rw [entries]
    split
    · -- In the target there is one row on the path.
      rename_i here
      exact congrArg some (indexed.same_item settled there here).symm
    · rename_i elsewhere
      have apart : other ≠ item.id := by
        rintro rfl
        rw [there] at settled
        cases settled
        exact elsewhere rfl
      rw [putItem_items, if_neg apart] at found
      exact (approaches.removeItem_entry item.id other row.path).mpr
        ⟨approaches.item_settled other row found settled, apart⟩
  membership_id := by simpa using approaches.membership_id
  membership_entry := by simpa [membershipIdAt_eq] using approaches.membership_entry
  membership_settled := by simpa [membershipIdAt_eq] using approaches.membership_settled
  no_empty := by simpa using approaches.no_empty

theorem removeMembership_entry (approaches : target.Approaches tables) (id other account : Id)
    (path : Path) :
    (tables.removeMembership id).membershipIdAt? account path = some other ↔
      tables.membershipIdAt? account path = some other ∧ other ≠ id := by
  have own (here : tables.membershipIdAt? account path = some id) :
      ∃ old, tables.memberships[id]? = some old ∧ old.itemPath = path ∧ old.account = account :=
    approaches.membership_entry path account id here
  unfold Tables.removeMembership
  split
  · grind
  · rename_i old found
    simp only [membershipIdAt_eq, unlink_entry] at own ⊢
    split
    · rename_i here
      obtain ⟨rfl, rfl, owner⟩ := here
      rw [owner]
      grind
    · grind

theorem removeMembership_noEmpty (approaches : target.Approaches tables) (id : Id) :
    NoEmpty (tables.removeMembership id).membershipPaths := by
  unfold Tables.removeMembership
  split
  · exact approaches.no_empty
  · exact unlink_noEmpty _ _ _ _ approaches.no_empty

theorem removeMembership (approaches : target.Approaches tables) (id : Id)
    (gone : target.memberships[id]? = none) :
    target.Approaches (tables.removeMembership id) where
  item_id := by simpa using approaches.item_id
  item_entry := by simpa using approaches.item_entry
  item_settled := by simpa using approaches.item_settled
  membership_id := by
    intro other row found
    rw [removeMembership_memberships] at found
    split at found
    · cases found
    · exact approaches.membership_id other row found
  membership_entry := by
    intro path account other entry
    obtain ⟨before, apart⟩ := (approaches.removeMembership_entry id other account path).mp entry
    obtain ⟨row, found, place⟩ := approaches.membership_entry path account other before
    exact ⟨row, by rw [removeMembership_memberships, if_neg apart, found], place⟩
  membership_settled := by
    intro other row found settled
    have apart : other ≠ id := by
      rintro rfl
      rw [gone] at settled
      cases settled
    rw [removeMembership_memberships, if_neg apart] at found
    exact (approaches.removeMembership_entry id other row.account row.itemPath).mpr
      ⟨approaches.membership_settled other row found settled, apart⟩
  no_empty := approaches.removeMembership_noEmpty id

theorem putMembership (approaches : target.Approaches tables) (indexed : target.Indexed)
    (row : Membership) (there : target.memberships[row.id]? = some row) :
    target.Approaches (tables.putMembership row) where
  item_id := by simpa using approaches.item_id
  item_entry := by simpa using approaches.item_entry
  item_settled := by simpa using approaches.item_settled
  membership_id := by
    intro other found_row found
    rw [putMembership_memberships] at found
    split at found
    · rename_i same
      cases found
      exact same.symm
    · exact approaches.membership_id other found_row found
  membership_entry := by
    intro path account other entry
    have entries : (tables.putMembership row).membershipIdAt? account path =
        if path = row.itemPath ∧ account = row.account then some row.id
        else (tables.removeMembership row.id).membershipIdAt? account path := link_entry _ _ _ _ _ _
    rw [entries] at entry
    split at entry
    · rename_i here
      cases entry
      exact ⟨row, by simp [putMembership_memberships], here.1.symm, here.2.symm⟩
    · obtain ⟨before, apart⟩ := (approaches.removeMembership_entry row.id other account path).mp entry
      obtain ⟨old, found, place⟩ := approaches.membership_entry path account other before
      exact ⟨old, by rw [putMembership_memberships, if_neg apart, found], place⟩
  membership_settled := by
    intro other old found settled
    have entries : (tables.putMembership row).membershipIdAt? old.account old.itemPath =
        if old.itemPath = row.itemPath ∧ old.account = row.account then some row.id
        else (tables.removeMembership row.id).membershipIdAt? old.account old.itemPath :=
      link_entry _ _ _ _ _ _
    rw [entries]
    split
    · rename_i here
      exact congrArg some (indexed.same_membership settled there here.1 here.2).symm
    · rename_i elsewhere
      have apart : other ≠ row.id := by
        rintro rfl
        rw [there] at settled
        cases settled
        exact elsewhere ⟨rfl, rfl⟩
      rw [putMembership_memberships, if_neg apart] at found
      exact (approaches.removeMembership_entry row.id other old.account old.itemPath).mpr
        ⟨approaches.membership_settled other old found settled, apart⟩
  no_empty := link_noEmpty _ _ _ _ (approaches.removeMembership_noEmpty row.id)

/-- A change toward the target stays on the way. -/
theorem apply (approaches : target.Approaches tables) (indexed : target.Indexed) (change : Change)
    (toward : change.Toward target) : target.Approaches (tables.apply change) := by
  cases change with
  | putItem item => exact approaches.putItem indexed item toward
  | deleteItem id => exact approaches.removeItem id toward
  | putMembership row => exact approaches.putMembership indexed row toward
  | deleteMembership id => exact approaches.removeMembership id toward

/-- Where all rows are as in the target, the indexes are too. -/
theorem arrive (approaches : target.Approaches tables) (indexed : target.Indexed)
    (items : ∀ id : Id, tables.items[id]? = target.items[id]?)
    (memberships : ∀ id : Id, tables.memberships[id]? = target.memberships[id]?) :
    tables = target := by
  have whole : tables.Indexed := {
    item_id := approaches.item_id
    item_path := by
      intro path id
      refine ⟨approaches.item_entry path id, ?_⟩
      rintro ⟨item, found, rfl⟩
      exact approaches.item_settled id item found (items id ▸ found)
    membership_id := approaches.membership_id
    membership_path := by
      intro path account id
      refine ⟨approaches.membership_entry path account id, ?_⟩
      rintro ⟨row, found, rfl, rfl⟩
      exact approaches.membership_settled id row found (memberships id ▸ found)
    no_empty := approaches.no_empty }
  exact whole.ext indexed items memberships

end Approaches

/-! What a change toward the target does to the rows. -/

theorem apply_items (change : Change) (toward : change.Toward target) (id : Id) :
    (tables.apply change).items[id]? =
      if change.item? = some id then target.items[id]? else tables.items[id]? := by
  cases change with
  | putItem item =>
    simp only [apply, putItem_items, Change.item?, Option.some.injEq]
    by_cases same : id = item.id
    · simpa [same] using toward.symm
    · simp [same, Ne.symm same]
  | deleteItem other =>
    simp only [apply, removeItem_items, Change.item?, Option.some.injEq]
    by_cases same : id = other
    · simpa [same] using toward.symm
    · simp [same, Ne.symm same]
  | putMembership row => simp [apply, Change.item?]
  | deleteMembership other => simp [apply, Change.item?]

theorem apply_memberships (change : Change) (toward : change.Toward target) (id : Id) :
    (tables.apply change).memberships[id]? =
      if change.membership? = some id then target.memberships[id]? else tables.memberships[id]? := by
  cases change with
  | putItem item => simp [apply, Change.membership?]
  | deleteItem other => simp [apply, Change.membership?]
  | putMembership row =>
    simp only [apply, putMembership_memberships, Change.membership?, Option.some.injEq]
    by_cases same : id = row.id
    · simpa [same] using toward.symm
    · simp [same, Ne.symm same]
  | deleteMembership other =>
    simp only [apply, removeMembership_memberships, Change.membership?, Option.some.injEq]
    by_cases same : id = other
    · simpa [same] using toward.symm
    · simp [same, Ne.symm same]

/-- Changes lead to the target if each is toward it and they reach every row that differs. -/
theorem applyAll_toward (indexed : target.Indexed) (changes : List Change)
    (approaches : target.Approaches tables) (toward : ∀ change ∈ changes, change.Toward target)
    (items : ∀ id : Id, tables.items[id]? ≠ target.items[id]? →
      ∃ change ∈ changes, change.item? = some id)
    (memberships : ∀ id : Id, tables.memberships[id]? ≠ target.memberships[id]? →
      ∃ change ∈ changes, change.membership? = some id) :
    tables.applyAll changes = target := by
  induction changes generalizing tables with
  | nil =>
    -- No row differs any more.
    apply approaches.arrive indexed
    · intro id
      by_contra differ
      obtain ⟨change, inside, _⟩ := items id differ
      cases inside
    · intro id
      by_contra differ
      obtain ⟨change, inside, _⟩ := memberships id differ
      cases inside
  | cons change rest ih =>
    have here := toward change List.mem_cons_self
    apply ih (approaches.apply indexed change here)
      (fun c inside => toward c (List.mem_cons_of_mem change inside))
    · -- A row that still differs is not the one just written, so a later change is about it.
      intro id differ
      rw [apply_items change here] at differ
      split at differ
      · exact absurd rfl differ
      · rename_i other
        obtain ⟨c, inside, same⟩ := items id differ
        rcases List.mem_cons.mp inside with rfl | later
        · exact absurd same other
        · exact ⟨c, later, same⟩
    · intro id differ
      rw [apply_memberships change here] at differ
      split at differ
      · exact absurd rfl differ
      · rename_i other
        obtain ⟨c, inside, same⟩ := memberships id differ
        rcases List.mem_cons.mp inside with rfl | later
        · exact absurd same other
        · exact ⟨c, later, same⟩

/-- The changes of a snapshot lead from nothing to the rows it was taken of. -/
theorem applyAll_snapshot {tables : Tables} (indexed : tables.Indexed) :
    Tables.empty.applyAll tables.snapshot.changes = tables := by
  apply applyAll_toward indexed _ (empty_indexed.approaches _)
  · intro change inside
    simp only [Snapshot.changes, List.mem_append, List.mem_map] at inside
    rcases inside with ⟨item, listed, rfl⟩ | ⟨row, listed, rfl⟩
    · exact (indexed.items_listed item).mp listed
    · exact (indexed.memberships_listed row).mp listed
  · intro id differ
    cases found : tables.items[id]? with
    | none => simp [empty, found] at differ
    | some item =>
      have same := indexed.item_id id item found
      have listed := (indexed.items_listed item).mpr (indexed.hasItem found)
      exact ⟨.putItem item, by simp [Snapshot.changes, listed], congrArg some same⟩
  · intro id differ
    cases found : tables.memberships[id]? with
    | none => simp [empty, found] at differ
    | some row =>
      have same := indexed.membership_id id row found
      have listed := (indexed.memberships_listed row).mpr (indexed.hasRow found)
      exact ⟨.putMembership row, by simp [Snapshot.changes, listed], congrArg some same⟩

end Tables

end SharedTree
