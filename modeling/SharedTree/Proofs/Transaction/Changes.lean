import SharedTree.Proofs.Tables.Changes
import SharedTree.Proofs.Transaction.Rollback
/-!
The changes of a transaction lead from the tables it began with to those it ends with
(`applyAll_changes`). They hold each row once, by its identifier, so that no identifier may name an
item and a membership (`Parts`).
-/
namespace SharedTree

/-- True of the row operations that write items under the given identifiers and memberships under
the others. -/
def RowOp.Parts (isItem : Id → Prop) (op : RowOp) : Prop :=
  (∀ id, op.item? = some id → isItem id) ∧ ∀ id, op.membership? = some id → ¬ isItem id

def Undo.Parts (isItem : Id → Prop) : Undo → Prop
  | item id before => isItem id ∧ ∀ row, before = some row → row.id = id
  | membership id before => ¬ isItem id ∧ ∀ row, before = some row → row.id = id

def Undo.id : Undo → Id
  | item id _ => id
  | membership id _ => id

def Undo.change (tables : Tables) : Undo → Change
  | item id _ => Transaction.itemChange tables id
  | membership id _ => Transaction.membershipChange tables id

def Undo.Reached : Undo → Change → Prop
  | item id _, change => change.item? = some id
  | membership id _, change => change.membership? = some id

namespace Tables

variable {tables start : Tables} {isItem : Id → Prop}

theorem revert_items (entry : Undo) (parts : entry.Parts isItem) (id : Id)
    (other : ∀ before, entry ≠ .item id before) :
    (tables.revert entry).items[id]? = tables.items[id]? := by
  cases entry with
  | item key before =>
    have apart : id ≠ key := by
      rintro rfl
      exact other before rfl
    cases before with
    | none => simp [revert, removeItem_items, apart]
    | some row =>
      have same := parts.2 row rfl
      simp [revert, putItem_items, removeItem_items, same, apart]
  | membership key before => cases before <;> simp [revert]

theorem revert_memberships (entry : Undo) (parts : entry.Parts isItem) (id : Id)
    (other : ∀ before, entry ≠ .membership id before) :
    (tables.revert entry).memberships[id]? = tables.memberships[id]? := by
  cases entry with
  | item key before => cases before <;> simp [revert]
  | membership key before =>
    have apart : id ≠ key := by
      rintro rfl
      exact other before rfl
    cases before with
    | none => simp [revert, removeMembership_memberships, apart]
    | some row =>
      have same := parts.2 row rfl
      simp [revert, putMembership_memberships, removeMembership_memberships, same, apart]

/-- A log tells which rows can differ from those that it leads back to. -/
theorem Undoes.unchanged {log : List Undo} (undoes : Undoes start log tables)
    (parts : ∀ entry ∈ log, entry.Parts isItem) (id : Id) :
    ((∀ before, .item id before ∉ log) → tables.items[id]? = start.items[id]?) ∧
      ((∀ before, .membership id before ∉ log) →
        tables.memberships[id]? = start.memberships[id]?) := by
  induction log generalizing tables with
  | nil => simp [undoes.2]
  | cons entry rest ih =>
    have own := parts entry List.mem_cons_self
    have earlier := ih undoes.2 fun e inside => parts e (List.mem_cons_of_mem entry inside)
    constructor
    · intro untouched
      rw [← earlier.1 fun before inside => untouched before (List.mem_cons_of_mem entry inside)]
      refine (revert_items entry own id ?_).symm
      rintro before rfl
      exact untouched before List.mem_cons_self
    · intro untouched
      rw [← earlier.2 fun before inside => untouched before (List.mem_cons_of_mem entry inside)]
      refine (revert_memberships entry own id ?_).symm
      rintro before rfl
      exact untouched before List.mem_cons_self

theorem Undoes.start_indexed {log : List Undo} (undoes : Undoes start log tables) :
    start.Indexed := by
  induction log generalizing tables with
  | nil => exact undoes.2 ▸ undoes.1
  | cons entry rest ih => exact ih undoes.2

end Tables

namespace Transaction

variable {transaction after : Transaction} {tables start : Tables} {isItem : Id → Prop}

theorem itemChange_toward (indexed : tables.Indexed) (id : Id) :
    (itemChange tables id).Toward tables ∧ (itemChange tables id).item? = some id := by
  unfold itemChange
  split
  · rename_i item found
    have same := indexed.item_id id item found
    exact ⟨by rw [Change.Toward, same, found], congrArg some same⟩
  · rename_i missing
    exact ⟨missing, rfl⟩

theorem membershipChange_toward (indexed : tables.Indexed) (id : Id) :
    (membershipChange tables id).Toward tables ∧
      (membershipChange tables id).membership? = some id := by
  unfold membershipChange
  split
  · rename_i row found
    have same := indexed.membership_id id row found
    exact ⟨by rw [Change.Toward, same, found], congrArg some same⟩
  · rename_i missing
    exact ⟨missing, rfl⟩

theorem changesFrom_cons (tables : Tables) (seen : List Id) (entry : Undo) (rest : List Undo) :
    changesFrom tables seen (entry :: rest) =
      if entry.id ∈ seen then changesFrom tables seen rest
      else entry.change tables :: changesFrom tables (entry.id :: seen) rest := by
  cases entry <;> rfl

theorem change_toward (indexed : tables.Indexed) (entry : Undo) :
    (entry.change tables).Toward tables ∧ entry.Reached (entry.change tables) := by
  cases entry with
  | item id before => exact itemChange_toward indexed id
  | membership id before => exact membershipChange_toward indexed id

theorem changesFrom_toward (indexed : tables.Indexed) (seen : List Id) (log : List Undo) :
    ∀ change ∈ changesFrom tables seen log, change.Toward tables := by
  induction log generalizing seen with
  | nil => simp [changesFrom]
  | cons entry rest ih =>
    intro change inside
    rw [changesFrom_cons] at inside
    split at inside
    · exact ih seen change inside
    · rcases List.mem_cons.mp inside with rfl | later
      · exact (change_toward indexed entry).1
      · exact ih _ change later

/-- Two log entries with one identifier are about one row. -/
theorem reached_same {first second : Undo} (same : first.id = second.id)
    (parts : first.Parts isItem) (others : second.Parts isItem) (change : Change) :
    first.Reached change ↔ second.Reached change := by
  cases first <;> cases second <;> simp only [Undo.id] at same <;> subst same
  · exact Iff.rfl
  · exact absurd parts.1 others.1
  · exact absurd others.1 parts.1
  · exact Iff.rfl

/-- Every row of the log is among the changes, unless its identifier was already seen. -/
theorem changesFrom_reach (indexed : tables.Indexed) (seen : List Id) (log : List Undo)
    (parts : ∀ entry ∈ log, entry.Parts isItem) {logged : Undo} (inside : logged ∈ log)
    (fresh : logged.id ∉ seen) : ∃ change ∈ changesFrom tables seen log, logged.Reached change := by
  induction log generalizing seen with
  | nil => cases inside
  | cons entry rest ih =>
    have own := parts entry List.mem_cons_self
    have later := fun e inside => parts e (List.mem_cons_of_mem entry inside)
    rw [changesFrom_cons]
    by_cases same : entry.id = logged.id
    · -- The first entry with the identifier counts, and none of another kind can stand before it.
      rw [if_neg (same ▸ fresh)]
      exact ⟨_, List.mem_cons_self,
        (reached_same same own (parts _ inside) _).mp (change_toward indexed entry).2⟩
    · have behind : logged ∈ rest := by
        rcases List.mem_cons.mp inside with rfl | behind
        · exact absurd rfl same
        · exact behind
      split
      · exact ih seen later behind fresh
      · obtain ⟨change, found, about⟩ :=
          ih (entry.id :: seen) later behind (by simp [fresh, Ne.symm same])
        exact ⟨change, List.mem_cons_of_mem _ found, about⟩

/-- The changes of a transaction lead from the tables it began with to those it ends with. -/
theorem applyAll_changes (leads : transaction.LeadsBackTo start)
    (parts : ∀ entry ∈ transaction.log, entry.Parts isItem) :
    start.applyAll transaction.changes = transaction.tables := by
  have indexed := leads.indexed
  have begun : start.Indexed := Tables.Undoes.start_indexed leads
  have same := fun id => Tables.Undoes.unchanged leads parts id
  have backwards : ∀ entry ∈ transaction.log.reverse, entry.Parts isItem := by simpa using parts
  apply Tables.applyAll_toward indexed _ (begun.approaches _) (changesFrom_toward indexed [] _)
  · intro id differ
    by_contra unreached
    apply differ
    refine ((same id).1 fun before logged => unreached ?_).symm
    exact changesFrom_reach indexed [] _ backwards (List.mem_reverse.mpr logged) (by simp)
  · intro id differ
    by_contra unreached
    apply differ
    refine ((same id).2 fun before logged => unreached ?_).symm
    exact changesFrom_reach indexed [] _ backwards (List.mem_reverse.mpr logged) (by simp)

theorem parts_cons {log : List Undo} {entry : Undo} (here : entry.Parts isItem)
    (parts : ∀ entry ∈ log, entry.Parts isItem) : ∀ e ∈ entry :: log, e.Parts isItem := by
  intro e inside
  rcases List.mem_cons.mp inside with rfl | earlier
  · exact here
  · exact parts e earlier

theorem parts_of_logs {op : RowOp} {entry : Undo} (own : op.Parts isItem) (logs : op.Logs entry) :
    entry.Parts isItem := by
  cases entry with
  | item id before => exact ⟨own.1 id logs.1, logs.2⟩
  | membership id before => exact ⟨own.2 id logs.1, logs.2⟩

/-- A row operation logs no row but its own. -/
theorem Does.parts {op : RowOp} (does : transaction.Does op after) (own : op.Parts isItem)
    (parts : ∀ entry ∈ transaction.log, entry.Parts isItem) :
    ∀ entry ∈ after.log, entry.Parts isItem := by
  cases does with
  | finds_none _ => exact parts
  | writes logs _ => exact parts_cons (parts_of_logs own logs) parts
  | marks => exact parts
  | releases _ => exact parts
  | goes_back _ => exact fun entry inside => parts entry (List.mem_of_mem_drop inside)

def attempt (transaction : Transaction) (op : RowOp) : Transaction :=
  match transaction.apply op with
  | .ok (_, after) => after
  | .error _ => transaction

def attemptAll (transaction : Transaction) (ops : List RowOp) : Transaction :=
  ops.foldl attempt transaction

theorem LeadsBackTo.attempt (leads : transaction.LeadsBackTo start) (op : RowOp) :
    (transaction.attempt op).LeadsBackTo start := by
  unfold Transaction.attempt
  cases ok : transaction.apply op with
  | error cause => exact leads
  | ok outcome => exact leads.apply ok

/-- What every operation that succeeds keeps is kept by operations of which some may fail. -/
theorem attemptAll_keeps {kept : Transaction → Prop} (leads : transaction.LeadsBackTo start)
    (holds : kept transaction) (ops : List RowOp)
    (keeps : ∀ {before after : Transaction}, ∀ op ∈ ops, before.Does op after → kept before →
      kept after) :
    (transaction.attemptAll ops).LeadsBackTo start ∧ kept (transaction.attemptAll ops) := by
  induction ops generalizing transaction with
  | nil => exact ⟨leads, holds⟩
  | cons op rest ih =>
    have later : ∀ {before after : Transaction}, ∀ op ∈ rest, before.Does op after → kept before →
        kept after :=
      fun o inside => keeps o (List.mem_cons_of_mem op inside)
    have stepped : kept (transaction.attempt op) := by
      unfold Transaction.attempt
      cases ok : transaction.apply op with
      | error cause => exact holds
      | ok outcome => exact keeps op List.mem_cons_self (apply_does leads.indexed ok) holds
    exact ih (leads.attempt op) stepped later

theorem attemptAll_parts (leads : transaction.LeadsBackTo start)
    (parts : ∀ entry ∈ transaction.log, entry.Parts isItem) (ops : List RowOp)
    (own : ∀ op ∈ ops, op.Parts isItem) :
    (transaction.attemptAll ops).LeadsBackTo start ∧
      ∀ entry ∈ (transaction.attemptAll ops).log, entry.Parts isItem :=
  attemptAll_keeps leads parts ops fun op inside does => does.parts (own op inside)

end Transaction

end SharedTree
