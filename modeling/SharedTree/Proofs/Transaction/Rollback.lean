import SharedTree.Transaction
import SharedTree.Proofs.Tables.Rows
/-!
The log of a transaction leads back to the tables it began with. A row operation that succeeds logs
what undoes it, so the invariant `LeadsBackTo` holds after any row and savepoint operations, and
rolling back gives the first tables again (`rollback_of_leadsBackTo`).
-/
namespace SharedTree

variable {transaction after : Transaction} {tables start : Tables}

namespace Transaction

/-! What it takes for a row operation to succeed, and what it does then. -/

theorem insertItem_ok {item : Item} (ok : transaction.insertItem item = .ok after) :
    transaction.tables.items[item.id]? = none ∧ transaction.tables.itemPaths[item.path]? = none ∧
      after = { transaction with
        tables := transaction.tables.putItem item
        log := .item item.id none :: transaction.log } := by
  simp only [insertItem] at ok
  split at ok
  · cases ok
  · rename_i free
    simp only [Bool.or_eq_true, Std.ExtTreeMap.contains_eq_isSome_getElem?, not_or,
      Bool.not_eq_true, Option.isSome_eq_false_iff, Option.isNone_iff_eq_none] at free
    exact ⟨free.1, free.2, (Except.ok.inj ok).symm⟩

theorem updateItem_ok {item : Item} (ok : transaction.updateItem item = .ok after) :
    ∃ before, transaction.tables.items[item.id]? = some before ∧
      (∀ other, transaction.tables.itemPaths[item.path]? = some other → other = item.id) ∧
      after = { transaction with
        tables := transaction.tables.putItem item
        log := .item item.id (some before) :: transaction.log } := by
  simp only [updateItem] at ok
  split at ok
  · cases ok
  · rename_i before found
    split at ok
    · cases ok
    · rename_i free
      refine ⟨before, found, ?_, (Except.ok.inj ok).symm⟩
      intro other taken
      simpa [taken] using free

theorem insertMembership_ok {row : Membership} (ok : transaction.insertMembership row = .ok after) :
    transaction.tables.membershipIdAt? row.account row.itemPath = none ∧
      transaction.tables.memberships[row.id]? = none ∧
      after = { transaction with
        tables := transaction.tables.putMembership row
        log := .membership row.id none :: transaction.log } := by
  simp only [insertMembership] at ok
  split at ok
  · cases ok
  · rename_i free
    split at ok
    · cases ok
    · rename_i unused
      simp only [Std.ExtTreeMap.contains_eq_isSome_getElem?, Bool.not_eq_true,
        Option.isSome_eq_false_iff, Option.isNone_iff_eq_none] at unused
      exact ⟨free, unused, (Except.ok.inj ok).symm⟩

theorem updateMembership_ok {row : Membership} (ok : transaction.updateMembership row = .ok after) :
    ∃ before, transaction.tables.memberships[row.id]? = some before ∧
      (∀ other, transaction.tables.membershipIdAt? row.account row.itemPath = some other →
        other = row.id) ∧
      after = { transaction with
        tables := transaction.tables.putMembership row
        log := .membership row.id (some before) :: transaction.log } := by
  simp only [updateMembership] at ok
  split at ok
  · cases ok
  · rename_i before found
    split at ok
    · cases ok
    · rename_i free
      refine ⟨before, found, ?_, (Except.ok.inj ok).symm⟩
      intro other taken
      simpa [taken] using free

theorem deleteItem_tables (transaction : Transaction) (id : Id) :
    (transaction.deleteItem id).2.tables = transaction.tables.removeItem id := by
  unfold deleteItem
  split
  · rename_i missing
    simp [Tables.removeItem, missing]
  · rfl

theorem deleteMembership_tables (transaction : Transaction) (id : Id) :
    (transaction.deleteMembership id).2.tables = transaction.tables.removeMembership id := by
  unfold deleteMembership
  split
  · rename_i missing
    simp [Tables.removeMembership, missing]
  · rfl

end Transaction

/-! One write taken back. -/

namespace Tables.Indexed

theorem revert_insertItem (indexed : tables.Indexed) (item : Item)
    (unused : tables.items[item.id]? = none) (free : tables.itemPaths[item.path]? = none) :
    (tables.putItem item).Indexed ∧ (tables.putItem item).revert (.item item.id none) = tables := by
  have put := indexed.putItem item fun id row found place => by
    have entry := (indexed.item_path item.path id).mpr ⟨row, found, place⟩
    rw [free] at entry
    cases entry
  refine ⟨put, Indexed.ext (put.removeItem item.id) indexed ?_ (by simp [revert])⟩
  intro id
  simp only [revert, removeItem_items, putItem_items]
  split
  · rename_i same
    rw [same, unused]
  · rfl

theorem putItem_back (indexed : tables.Indexed) {before : Item}
    (found : tables.items[before.id]? = some before) :
    (tables.removeItem before.id).putItem before = tables := by
  have put := (indexed.removeItem before.id).putItem before fun id row kept place => by
    rw [removeItem_items] at kept
    split at kept
    · cases kept
    · exact indexed.same_item kept found place
  apply put.ext indexed
  · intro id
    simp only [putItem_items, removeItem_items]
    split
    · rename_i same
      rw [same, found]
    · rfl
  · simp

theorem revert_updateItem (indexed : tables.Indexed) {item before : Item}
    (found : tables.items[item.id]? = some before)
    (own : ∀ other, tables.itemPaths[item.path]? = some other → other = item.id) :
    (tables.putItem item).Indexed ∧
      (tables.putItem item).revert (.item item.id (some before)) = tables := by
  have put := indexed.putItem item fun id row kept place =>
    own id ((indexed.item_path item.path id).mpr ⟨row, kept, place⟩)
  have same := indexed.item_id item.id before found
  -- Without the row the tables are the same before and after the write.
  have cleared : (tables.putItem item).removeItem item.id = tables.removeItem item.id := by
    apply (put.removeItem item.id).ext (indexed.removeItem item.id)
    · intro id
      simp only [removeItem_items, putItem_items]
      split <;> rfl
    · simp
  refine ⟨put, ?_⟩
  rw [revert, cleared, ← same]
  exact indexed.putItem_back (same ▸ found)

theorem revert_deleteItem (indexed : tables.Indexed) {id : Id} {before : Item}
    (found : tables.items[id]? = some before) :
    (tables.removeItem id).Indexed ∧
      (tables.removeItem id).revert (.item id (some before)) = tables := by
  have same := indexed.item_id id before found
  have absent : (tables.removeItem id).removeItem id = tables.removeItem id := by
    have missing : (tables.removeItem id).items[id]? = none := by simp [removeItem_items]
    rw [Tables.removeItem.eq_1 (tables.removeItem id), missing]
  refine ⟨indexed.removeItem id, ?_⟩
  rw [revert, absent, ← same]
  exact indexed.putItem_back (same ▸ found)

theorem revert_insertMembership (indexed : tables.Indexed) (row : Membership)
    (unused : tables.memberships[row.id]? = none)
    (free : tables.membershipIdAt? row.account row.itemPath = none) :
    (tables.putMembership row).Indexed ∧
      (tables.putMembership row).revert (.membership row.id none) = tables := by
  have put := indexed.putMembership row fun id other found place holder => by
    have entry := (indexed.membership_path row.itemPath row.account id).mpr
      ⟨other, found, place, holder⟩
    rw [free] at entry
    cases entry
  refine ⟨put, Indexed.ext (put.removeMembership row.id) indexed (by simp [revert]) ?_⟩
  intro id
  simp only [revert, removeMembership_memberships, putMembership_memberships]
  split
  · rename_i same
    rw [same, unused]
  · rfl

theorem putMembership_back (indexed : tables.Indexed) {before : Membership}
    (found : tables.memberships[before.id]? = some before) :
    (tables.removeMembership before.id).putMembership before = tables := by
  have put := (indexed.removeMembership before.id).putMembership before
    fun id row kept place holder => by
      rw [removeMembership_memberships] at kept
      split at kept
      · cases kept
      · exact indexed.same_membership kept found place holder
  apply put.ext indexed
  · simp
  · intro id
    simp only [putMembership_memberships, removeMembership_memberships]
    split
    · rename_i same
      rw [same, found]
    · rfl

theorem revert_updateMembership (indexed : tables.Indexed) {row before : Membership}
    (found : tables.memberships[row.id]? = some before)
    (own : ∀ other, tables.membershipIdAt? row.account row.itemPath = some other → other = row.id) :
    (tables.putMembership row).Indexed ∧
      (tables.putMembership row).revert (.membership row.id (some before)) = tables := by
  have put := indexed.putMembership row fun id other kept place holder =>
    own id ((indexed.membership_path row.itemPath row.account id).mpr ⟨other, kept, place, holder⟩)
  have same := indexed.membership_id row.id before found
  have cleared : (tables.putMembership row).removeMembership row.id =
      tables.removeMembership row.id := by
    apply (put.removeMembership row.id).ext (indexed.removeMembership row.id)
    · simp
    · intro id
      simp only [removeMembership_memberships, putMembership_memberships]
      split <;> rfl
  refine ⟨put, ?_⟩
  rw [revert, cleared, ← same]
  exact indexed.putMembership_back (same ▸ found)

theorem revert_deleteMembership (indexed : tables.Indexed) {id : Id} {before : Membership}
    (found : tables.memberships[id]? = some before) :
    (tables.removeMembership id).Indexed ∧
      (tables.removeMembership id).revert (.membership id (some before)) = tables := by
  have same := indexed.membership_id id before found
  have absent : (tables.removeMembership id).removeMembership id = tables.removeMembership id := by
    have missing : (tables.removeMembership id).memberships[id]? = none := by
      simp [removeMembership_memberships]
    rw [Tables.removeMembership.eq_1 (tables.removeMembership id), missing]
  refine ⟨indexed.removeMembership id, ?_⟩
  rw [revert, absent, ← same]
  exact indexed.putMembership_back (same ▸ found)

end Tables.Indexed

/-! The whole log. -/

/-- Taking back a log from tables, the newest entry first, ends at the given ones, with the indexes
in step all the way. -/
def Tables.Undoes (start : Tables) : List Undo → Tables → Prop
  | [], tables => tables.Indexed ∧ tables = start
  | entry :: rest, tables => tables.Indexed ∧ Tables.Undoes start rest (tables.revert entry)

namespace Tables

theorem Undoes.indexed {log : List Undo} (undoes : Undoes start log tables) : tables.Indexed := by
  cases log with
  | nil => exact undoes.1
  | cons entry rest => exact undoes.1

theorem Undoes.revertAll {newest oldest : List Undo}
    (undoes : Undoes start (newest ++ oldest) tables) :
    Undoes start oldest (tables.revertAll newest) := by
  induction newest generalizing tables with
  | nil => exact undoes
  | cons entry rest ih => exact ih undoes.2

theorem Undoes.revertAll_eq {log : List Undo} (undoes : Undoes start log tables) :
    tables.revertAll log = start := by
  have whole : Undoes start (log ++ []) tables := by simpa using undoes
  exact whole.revertAll.2

end Tables

def RowOp.item? : RowOp → Option Id
  | insertItem item => some item.id
  | updateItem item => some item.id
  | deleteItem id => some id
  | _ => none

def RowOp.membership? : RowOp → Option Id
  | insertMembership row => some row.id
  | updateMembership row => some row.id
  | deleteMembership id => some id
  | _ => none

def RowOp.Logs (op : RowOp) : Undo → Prop
  | .item id before => op.item? = some id ∧ ∀ row, before = some row → row.id = id
  | .membership id before => op.membership? = some id ∧ ∀ row, before = some row → row.id = id

namespace Transaction

def LeadsBackTo (start : Tables) (transaction : Transaction) : Prop :=
  Tables.Undoes start transaction.log transaction.tables

theorem leadsBackTo_start (indexed : tables.Indexed) :
    (Transaction.start tables).LeadsBackTo tables :=
  ⟨indexed, rfl⟩

theorem LeadsBackTo.indexed (leads : transaction.LeadsBackTo start) : transaction.tables.Indexed :=
  Tables.Undoes.indexed leads

/-- Rolling back gives the tables that the log leads back to. -/
theorem rollback_of_leadsBackTo (leads : transaction.LeadsBackTo start) :
    transaction.rollback = start := by
  simp only [rollback, undoTo, Nat.sub_zero, List.take_length]
  exact Tables.Undoes.revertAll_eq leads

theorem LeadsBackTo.write (leads : transaction.LeadsBackTo start) {entry : Undo} {written : Tables}
    (undone : written.Indexed ∧ written.revert entry = transaction.tables) :
    LeadsBackTo start { transaction with tables := written, log := entry :: transaction.log } := by
  refine ⟨undone.1, ?_⟩
  show Tables.Undoes start transaction.log (written.revert entry)
  rw [undone.2]
  exact leads

theorem LeadsBackTo.undoTo (leads : transaction.LeadsBackTo start) (mark : Nat) :
    (transaction.undoTo mark).LeadsBackTo start := by
  have whole : Tables.Undoes start (transaction.log.take (transaction.log.length - mark) ++
      transaction.log.drop (transaction.log.length - mark)) transaction.tables := by
    rw [List.take_append_drop]
    exact leads
  exact whole.revertAll

/-- What an operation that succeeds makes of a transaction: it finds no row to delete, logs one
write that can be taken back, or sets, forgets or goes back to a savepoint. -/
inductive Does (transaction : Transaction) : RowOp → Transaction → Prop
  | finds_none {op : RowOp} (deletes : ∃ id, op = .deleteItem id ∨ op = .deleteMembership id) :
      Does transaction op transaction
  | writes {op : RowOp} {entry : Undo} {written : Tables} (logs : op.Logs entry)
      (undone : written.Indexed ∧ written.revert entry = transaction.tables) :
      Does transaction op
        { transaction with tables := written, log := entry :: transaction.log }
  | marks : Does transaction .savepoint transaction.savepoint
  | releases {mark : Nat} {rest : List Nat} (found : transaction.savepoints = mark :: rest) :
      Does transaction .releaseSavepoint { transaction with savepoints := rest }
  | goes_back {mark : Nat} {rest : List Nat} (found : transaction.savepoints = mark :: rest) :
      Does transaction .rollbackToSavepoint ({ transaction with savepoints := rest }.undoTo mark)

theorem apply_does (indexed : transaction.tables.Indexed) {op : RowOp} {found : Bool}
    (ok : transaction.apply op = .ok (found, after)) : transaction.Does op after := by
  have mapped {result : Except Error Transaction}
      (equal : (result.map fun t => (true, t)) = Except.ok (found, after)) :
        result = .ok after := by
    cases result <;> simp_all [Except.map]
  cases op with
  | insertItem item =>
      obtain ⟨unused, free, rfl⟩ := insertItem_ok (mapped ok)
      exact .writes ⟨rfl, fun row equal => by cases equal⟩
        (indexed.revert_insertItem item unused free)
  | updateItem item =>
      obtain ⟨before, known, own, rfl⟩ := updateItem_ok (mapped ok)
      refine .writes ⟨rfl, fun row equal => ?_⟩ (indexed.revert_updateItem known own)
      cases equal
      exact indexed.item_id _ before known
  | deleteItem id =>
      have result := congrArg Prod.snd (Except.ok.inj ok)
      simp only [deleteItem] at result
      split at result
      · subst result
        exact .finds_none ⟨id, .inl rfl⟩
      · rename_i before known
        subst result
        refine .writes ⟨rfl, fun row equal => ?_⟩ (indexed.revert_deleteItem known)
        cases equal
        exact indexed.item_id _ before known
  | insertMembership row =>
      obtain ⟨free, unused, rfl⟩ := insertMembership_ok (mapped ok)
      exact .writes ⟨rfl, fun row equal => by cases equal⟩
        (indexed.revert_insertMembership row unused free)
  | updateMembership row =>
      obtain ⟨before, known, own, rfl⟩ := updateMembership_ok (mapped ok)
      refine .writes ⟨rfl, fun row equal => ?_⟩ (indexed.revert_updateMembership known own)
      cases equal
      exact indexed.membership_id _ before known
  | deleteMembership id =>
      have result := congrArg Prod.snd (Except.ok.inj ok)
      simp only [deleteMembership] at result
      split at result
      · subst result
        exact .finds_none ⟨id, .inr rfl⟩
      · rename_i before known
        subst result
        refine .writes ⟨rfl, fun row equal => ?_⟩ (indexed.revert_deleteMembership known)
        cases equal
        exact indexed.membership_id _ before known
  | savepoint =>
      cases ok
      exact .marks
  | releaseSavepoint =>
      have released := mapped ok
      unfold Transaction.releaseSavepoint at released
      split at released
      · cases released
      · rename_i mark rest known
        cases released
        exact .releases known
  | rollbackToSavepoint =>
      have back := mapped ok
      unfold Transaction.rollbackToSavepoint at back
      split at back
      · cases back
      · rename_i mark rest known
        cases back
        exact .goes_back known

/-- Every row and savepoint operation keeps the way back. -/
theorem LeadsBackTo.apply (leads : transaction.LeadsBackTo start) {op : RowOp} {found : Bool}
    (ok : transaction.apply op = .ok (found, after)) : after.LeadsBackTo start := by
  cases apply_does leads.indexed ok with
  | finds_none _ => exact leads
  | writes _ undone => exact leads.write undone
  | marks => exact leads
  | releases _ => exact leads
  | goes_back found =>
      rename_i mark rest
      have unmarked : LeadsBackTo start { transaction with savepoints := rest } := leads
      exact unmarked.undoTo mark

end Transaction

end SharedTree
