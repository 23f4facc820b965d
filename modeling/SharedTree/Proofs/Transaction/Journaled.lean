import SharedTree.Proofs.Transaction.Changes
/-!
What a commit writes to the journal, row by row. One change is kept for each identifier in the log,
and it is about the row that was first written under it (`changes_by_id`). Where no identifier names
both an item and a membership, that is one change for each row, and the changes lead from the tables
at the beginning to those at the end (`changes_each_row`). Where one does, the row that was written
second is left out (`sample_row_left_out`).
-/
namespace SharedTree

inductive Row where
  | item (id : Id)
  | membership (id : Id)
deriving DecidableEq

namespace Row

def id : Row → Id
  | item id => id
  | membership id => id

def change (tables : Tables) : Row → Change
  | item id => Transaction.itemChange tables id
  | membership id => Transaction.membershipChange tables id

end Row

def Undo.row : Undo → Row
  | item id _ => .item id
  | membership id _ => .membership id

def Change.row : Change → Row
  | putItem item => .item item.id
  | deleteItem id => .item id
  | putMembership row => .membership row.id
  | deleteMembership id => .membership id

theorem Undo.row_id (entry : Undo) : entry.row.id = entry.id := by cases entry <;> rfl

theorem Undo.row_change (entry : Undo) (tables : Tables) :
    entry.row.change tables = entry.change tables := by
  cases entry <;> rfl

theorem Row.change_row {tables : Tables} (indexed : tables.Indexed) (row : Row) :
    (row.change tables).row = row := by
  cases row with
  | item id =>
    show (Transaction.itemChange tables id).row = .item id
    unfold Transaction.itemChange
    split
    · exact congrArg Row.item (indexed.item_id id _ ‹_›)
    · rfl
  | membership id =>
    show (Transaction.membershipChange tables id).row = .membership id
    unfold Transaction.membershipChange
    split
    · exact congrArg Row.membership (indexed.membership_id id _ ‹_›)
    · rfl

namespace Transaction

variable {transaction : Transaction} {tables : Tables}

def rows (transaction : Transaction) : List Row := transaction.log.reverse.map Undo.row

/-- Of the entries with one identifier the first counts, unless the identifier was seen before. -/
theorem changesFrom_by_id (indexed : tables.Indexed) (seen : List Id) (log : List Undo) (id : Id) :
    (changesFrom tables seen log).filter (fun change => change.row.id = id) =
      if id ∈ seen then []
      else (((log.map Undo.row).find? fun row => row.id = id).map (Row.change tables)).toList := by
  induction log generalizing seen with
  | nil => simp [changesFrom]
  | cons entry rest ih =>
    have about : (entry.change tables).row.id = entry.id := by
      rw [← entry.row_change, Row.change_row indexed, entry.row_id]
    rw [changesFrom_cons]
    by_cases known : entry.id ∈ seen
    · rw [if_pos known, ih seen]
      by_cases same : entry.id = id
      · rw [if_pos (same ▸ known), if_pos (same ▸ known)]
      · simp [entry.row_id, same]
    · rw [if_neg known, List.filter_cons, ih (entry.id :: seen), about]
      by_cases same : entry.id = id
      · simp [entry.row_id, entry.row_change, same, same ▸ known]
      · simp [entry.row_id, same, Ne.symm same]

/-- There is one change for each identifier of the log. It is what became of the row that was first
written under the identifier. -/
theorem changes_by_id (indexed : transaction.tables.Indexed) (id : Id) :
    transaction.changes.filter (fun change => change.row.id = id) =
      ((transaction.rows.find? fun row => row.id = id).map
        (Row.change transaction.tables)).toList := by
  have exact := changesFrom_by_id indexed [] transaction.log.reverse id
  rwa [if_neg (by simp)] at exact

/-- True of the transactions in which no identifier names two rows, an item and a membership. -/
def Apart (transaction : Transaction) : Prop :=
  ∀ row ∈ transaction.rows, ∀ other ∈ transaction.rows, row.id = other.id → row = other

theorem changes_of_row (indexed : transaction.tables.Indexed) (apart : transaction.Apart)
    (row : Row) :
    transaction.changes.filter (fun change => change.row = row) =
      if row ∈ transaction.rows then [row.change transaction.tables] else [] := by
  have narrow : transaction.changes.filter (fun change => change.row = row) =
      (transaction.changes.filter fun change => change.row.id = row.id).filter
        fun change => change.row = row := by
    rw [List.filter_filter]
    refine List.filter_congr fun change _ => ?_
    by_cases same : change.row = row <;> simp [same]
  rw [narrow, changes_by_id indexed]
  cases first : transaction.rows.find? fun other => other.id = row.id with
  | none =>
    have absent : row ∉ transaction.rows := fun inside => by
      simpa using List.find?_eq_none.mp first row inside
    rw [if_neg absent]
    rfl
  | some other =>
    have inside := List.mem_of_find?_eq_some first
    have same : other.id = row.id := by simpa using List.find?_some first
    have about := Row.change_row indexed other
    by_cases logged : row ∈ transaction.rows
    · obtain rfl := apart other inside row logged same
      simp [about, logged]
    · have different : other ≠ row := fun equal => logged (equal ▸ inside)
      simp [about, logged, different]

/-- The entries of a log are those of operations. -/
theorem Does.logs {after : Transaction} {op : RowOp} (does : transaction.Does op after)
    (own : ∀ entry ∈ transaction.log, ∃ op : RowOp, op.Logs entry) :
    ∀ entry ∈ after.log, ∃ op : RowOp, op.Logs entry := by
  cases does with
  | finds_none _ => exact own
  | writes logs _ =>
    intro entry inside
    rcases List.mem_cons.mp inside with rfl | earlier
    · exact ⟨op, logs⟩
    · exact own entry earlier
  | marks => exact own
  | releases _ => exact own
  | goes_back _ => exact fun entry inside => own entry (List.mem_of_mem_drop inside)

theorem Apart.parts (apart : transaction.Apart)
    (own : ∀ entry ∈ transaction.log, ∃ op : RowOp, op.Logs entry) :
    ∀ entry ∈ transaction.log, entry.Parts fun id => Row.item id ∈ transaction.rows := by
  intro entry inside
  obtain ⟨op, logs⟩ := own entry inside
  have row : entry.row ∈ transaction.rows :=
    List.mem_map.mpr ⟨entry, List.mem_reverse.mpr inside, rfl⟩
  cases entry with
  | item id before => exact ⟨row, logs.2⟩
  | membership id before =>
    refine ⟨fun item => ?_, logs.2⟩
    cases apart _ item _ row rfl

/-- The changes of a transaction after any row and savepoint operations, of which some may fail. For
each identifier in the log there is one change, which is about the row first written under it. If no
identifier names both an item and a membership, there is one change for each row in the log, which
says what became of it, and none for others; the changes lead from the tables at the beginning to
those at the end. -/
theorem changes_each_row (begun : Tables) (indexed : begun.Indexed) (ops : List RowOp) :
    let transaction := (start begun).attemptAll ops
    (∀ id, transaction.changes.filter (fun change => change.row.id = id) =
      ((transaction.rows.find? fun row => row.id = id).map
        (Row.change transaction.tables)).toList) ∧
    (transaction.Apart →
      (∀ row, transaction.changes.filter (fun change => change.row = row) =
        if row ∈ transaction.rows then [row.change transaction.tables] else []) ∧
      begun.applyAll transaction.changes = transaction.tables) := by
  intro transaction
  obtain ⟨leads, own⟩ : transaction.LeadsBackTo begun ∧
      ∀ entry ∈ transaction.log, ∃ op : RowOp, op.Logs entry :=
    attemptAll_keeps (leadsBackTo_start indexed) (by simp [start]) ops fun op _ does => does.logs
  refine ⟨changes_by_id leads.indexed, fun apart => ⟨changes_of_row leads.indexed apart, ?_⟩⟩
  exact applyAll_changes leads (apart.parts own)

namespace Sample

def folder : Item := .make (.ofNat 1) (.root (.ofNat 1)) "folder" .folder .null (.ofNat 9) default

def grant (id : Id) : Membership := .make id folder.path (.ofNat 9) .admin (.ofNat 9) default

def comings : List RowOp :=
  [.insertItem folder, .insertMembership (grant (.ofNat 2)),
    .updateItem { folder with path := .root (.ofNat 3) }, .savepoint, .deleteItem folder.id,
    .insertItem folder, .rollbackToSavepoint, .deleteItem folder.id]

def twins : List RowOp := [.insertItem folder, .insertMembership (grant folder.id)]

end Sample

theorem sample_changes_each_row :
    ((start .empty).attemptAll Sample.comings).changes =
        [.deleteItem Sample.folder.id, .putMembership (Sample.grant (.ofNat 2))] ∧
      Tables.empty.applyAll ((start .empty).attemptAll Sample.comings).changes =
        ((start .empty).attemptAll Sample.comings).tables := by
  have apart : ((start .empty).attemptAll Sample.comings).Apart := by
    unfold Apart
    decide +kernel
  exact ⟨by decide +kernel,
    ((@changes_each_row .empty Tables.empty_indexed Sample.comings).2 apart).2⟩

/-- Of two rows with one identifier the second is left out, and is gone when the changes are made
again. -/
theorem sample_row_left_out :
    ((start .empty).attemptAll Sample.twins).changes = [.putItem Sample.folder] ∧
      Row.membership Sample.folder.id ∈ ((start .empty).attemptAll Sample.twins).rows ∧
      Tables.empty.applyAll ((start .empty).attemptAll Sample.twins).changes ≠
        ((start .empty).attemptAll Sample.twins).tables := by
  refine ⟨by decide +kernel, by decide +kernel, fun same => ?_⟩
  have left : (Tables.empty.applyAll ((start .empty).attemptAll Sample.twins).changes).memberships[
      Sample.folder.id]? = none := by
    decide +kernel
  have stands : ((start .empty).attemptAll Sample.twins).tables.memberships[Sample.folder.id]? =
      some (Sample.grant Sample.folder.id) := by
    decide +kernel
  rw [same, stands] at left
  cases left

end Transaction

end SharedTree
