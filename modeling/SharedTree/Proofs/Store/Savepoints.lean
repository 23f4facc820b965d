import SharedTree.Hook
import SharedTree.Proofs.Store.Course
/-!
Going back is exact. `Recording` runs row and savepoint operations and keeps, beside the
transaction, a copy of the tables that stood at each savepoint. The transaction has no copies, only
lengths of its log. `Recalls` says that the log leads from each savepoint to the next one's copy; it
holds after any operations (`Recording.run_recalls`), so a rollback to a savepoint gives the copy.
-/
namespace SharedTree

namespace Transaction

variable {transaction after : Transaction} {tables start : Tables}

/-- Going back in two steps is going back at once. -/
theorem undoTo_undoTo (transaction : Transaction) {near far : Nat} (order : far ≤ near)
    (inside : near ≤ transaction.log.length) :
    (transaction.undoTo near).undoTo far = transaction.undoTo far := by
  have steps : transaction.log.length - far =
      (transaction.log.length - near) + (near - far) := by omega
  have left : (transaction.log.drop (transaction.log.length - near)).length = near := by
    rw [List.length_drop]
    omega
  simp only [undoTo, left, steps, Tables.revertAll, List.take_add, List.foldl_append,
    List.drop_drop]

theorem undoTo_length (transaction : Transaction) {mark : Nat}
    (inside : mark ≤ transaction.log.length) : (transaction.undoTo mark).log.length = mark := by
  simp only [undoTo, List.length_drop]
  omega

/-- One more write makes no difference to where an older mark leads. -/
theorem undoTo_write {entry : Undo} {written : Tables} (marks : List Nat) {mark : Nat}
    (inside : mark ≤ transaction.log.length)
    (undone : written.revert entry = transaction.tables) :
    Transaction.undoTo ⟨written, entry :: transaction.log, marks⟩ mark =
      Transaction.undoTo { transaction with savepoints := marks } mark := by
  have more : (entry :: transaction.log).length - mark =
      (transaction.log.length - mark) + 1 := by
    rw [List.length_cons]
    omega
  simp only [undoTo, more, List.take_succ_cons, List.drop_succ_cons, Tables.revertAll,
    List.foldl_cons, undone]

def Recalls : Transaction → List Tables → Prop
  | transaction, [] => transaction.savepoints = []
  | transaction, stood :: rest =>
      ∃ mark marks, transaction.savepoints = mark :: marks ∧ mark ≤ transaction.log.length ∧
        (transaction.undoTo mark).tables = stood ∧
        Recalls ({ transaction with savepoints := marks }.undoTo mark) rest

/-- What an older savepoint leads to does not hang on a younger one. -/
theorem Recalls.release {mark : Nat} {marks : List Nat} {stood : List Tables}
    (inside : mark ≤ transaction.log.length)
    (recalls : Recalls ({ transaction with savepoints := marks }.undoTo mark) stood) :
    Recalls { transaction with savepoints := marks } stood := by
  cases stood with
  | nil => exact recalls
  | cons stood rest =>
    obtain ⟨older, others, known, order, same, further⟩ := recalls
    have length : (Transaction.undoTo { transaction with savepoints := marks } mark).log.length =
        mark := undoTo_length _ inside
    rw [length] at order
    refine ⟨older, others, known, Nat.le_trans order inside, ?_, ?_⟩
    · have joined := undoTo_undoTo { transaction with savepoints := marks } order inside
      rw [← joined]
      exact same
    · have joined := undoTo_undoTo { transaction with savepoints := others } order inside
      rw [← joined]
      exact further

theorem Recalls.write {entry : Undo} {written : Tables} {stood : List Tables}
    (recalls : transaction.Recalls stood) (undone : written.revert entry = transaction.tables) :
    Recalls { transaction with tables := written, log := entry :: transaction.log } stood := by
  cases stood with
  | nil => exact recalls
  | cons stood rest =>
    obtain ⟨mark, marks, known, inside, same, further⟩ := recalls
    refine ⟨mark, marks, known, by simp only [List.length_cons]; omega, ?_, ?_⟩
    · have older := undoTo_write transaction.savepoints inside undone
      rw [older]
      exact same
    · have older := undoTo_write marks inside undone
      rw [older]
      exact further

theorem Recalls.savepoint {stood : List Tables} (recalls : transaction.Recalls stood) :
    transaction.savepoint.Recalls (transaction.tables :: stood) := by
  have nothing (marks : List Nat) : Transaction.undoTo { transaction with savepoints := marks }
      transaction.log.length = { transaction with savepoints := marks } := by
    simp [undoTo, Tables.revertAll]
  refine ⟨transaction.log.length, transaction.savepoints, rfl, Nat.le_refl _, ?_, ?_⟩
  · rw [Transaction.savepoint, nothing]
  · rw [Transaction.savepoint, nothing]
    exact recalls

end Transaction

def RowOp.record (tables : Tables) (stood : List Tables) : RowOp → List Tables
  | savepoint => tables :: stood
  | releaseSavepoint => stood.tail
  | rollbackToSavepoint => stood.tail
  | _ => stood

/-- A transaction with copies of the tables as they stood at its savepoints, the innermost first. -/
structure Recording where
  transaction : Transaction
  stood : List Tables

namespace Recording

variable {recording : Recording} {begun : Tables}

def start (tables : Tables) : Recording := ⟨.start tables, []⟩

def step (recording : Recording) (op : RowOp) : Recording :=
  match recording.transaction.apply op with
  | .ok (_, after) => ⟨after, op.record recording.transaction.tables recording.stood⟩
  | .error _ => recording

def run (recording : Recording) (ops : List RowOp) : Recording := ops.foldl step recording

/-- The copies are only kept beside the transaction. -/
theorem run_transaction (recording : Recording) (ops : List RowOp) :
    (recording.run ops).transaction = recording.transaction.attemptAll ops := by
  induction ops generalizing recording with
  | nil => rfl
  | cons op rest ih =>
    have same : (recording.step op).transaction = recording.transaction.attempt op := by
      unfold step Transaction.attempt
      cases recording.transaction.apply op <;> rfl
    calc (recording.run (op :: rest)).transaction
        = (recording.step op).transaction.attemptAll rest := ih (recording.step op)
      _ = recording.transaction.attemptAll (op :: rest) := by rw [same]; rfl

theorem record_of_logs {op : RowOp} {entry : Undo} (logs : op.Logs entry) (tables : Tables)
    (stood : List Tables) : op.record tables stood = stood := by
  cases entry <;> cases op <;> first | rfl | cases logs.1

/-- An operation keeps the way back to the beginning, and to each of the copies. -/
theorem step_recalls (leads : recording.transaction.LeadsBackTo begun)
    (recalls : recording.transaction.Recalls recording.stood) (op : RowOp) :
    (recording.step op).transaction.LeadsBackTo begun ∧
      (recording.step op).transaction.Recalls (recording.step op).stood := by
  unfold step
  cases ok : recording.transaction.apply op with
  | error cause => exact ⟨leads, recalls⟩
  | ok outcome =>
    obtain ⟨found, after⟩ := outcome
    refine ⟨leads.apply ok, ?_⟩
    cases Transaction.apply_does leads.indexed ok with
    | finds_none deletes => obtain ⟨id, rfl | rfl⟩ := deletes <;> exact recalls
    | writes logs undone =>
      dsimp only
      rw [record_of_logs logs]
      exact recalls.write undone.2
    | marks => exact recalls.savepoint
    | releases known =>
      -- There is a copy for the savepoint that is let go of.
      cases stood : recording.stood with
      | nil =>
        rw [stood] at recalls
        cases known.symm.trans recalls
      | cons tables rest =>
        rw [stood] at recalls
        obtain ⟨mark, marks, known', inside, _, further⟩ := recalls
        cases known.symm.trans known'
        exact further.release inside
    | goes_back known =>
      cases stood : recording.stood with
      | nil =>
        rw [stood] at recalls
        cases known.symm.trans recalls
      | cons tables rest =>
        rw [stood] at recalls
        obtain ⟨mark, marks, known', inside, _, further⟩ := recalls
        cases known.symm.trans known'
        exact further

theorem run_recalls (leads : recording.transaction.LeadsBackTo begun)
    (recalls : recording.transaction.Recalls recording.stood) (ops : List RowOp) :
    (recording.run ops).transaction.LeadsBackTo begun ∧
      (recording.run ops).transaction.Recalls (recording.run ops).stood := by
  induction ops generalizing recording with
  | nil => exact ⟨leads, recalls⟩
  | cons op rest ih =>
    obtain ⟨leads, recalls⟩ := step_recalls leads recalls op
    exact ih leads recalls

end Recording

namespace Transaction

variable {transaction : Transaction}

/-- A rollback to a savepoint gives the innermost copy, and fails if there is none. -/
theorem rollbackToSavepoint_recalls {stood : List Tables} (recalls : transaction.Recalls stood) :
    transaction.rollbackToSavepoint.map Transaction.tables =
      stood.head?.elim (.error (.storage .nothingToRollBackTo)) .ok := by
  cases stood with
  | nil =>
    have none : transaction.savepoints = [] := recalls
    simp only [rollbackToSavepoint, none]
    rfl
  | cons tables rest =>
    obtain ⟨mark, marks, known, _, same, _⟩ := recalls
    simp only [rollbackToSavepoint, known]
    exact congrArg Except.ok same

end Transaction

namespace Recording

/-- A transaction of a store that does not end with a commit that succeeds leaves the rows alone. -/
theorem act_unkept (store : Store) {ops : List RowOp}
    (leads : (store.begin.attemptAll ops).LeadsBackTo store.tables) {directory : String}
    {now : Instant} {ending : Store.Ending} {answer : Except Error Unit} {after : Store}
    (ended : store.act directory now (.transact ops ending) = (answer, after))
    (unkept : ending = .commit → answer ≠ .ok ()) : after.tables = store.tables := by
  have back := Transaction.rollback_of_leadsBackTo leads
  cases ending with
  | rollback =>
    cases ended
    exact back
  | drop =>
    cases ended
    exact back
  | commit =>
    cases present : store.journal with
    | none =>
      simp only [Store.act, Store.commit, present] at ended
      exact absurd (congrArg Prod.fst ended).symm (unkept rfl)
    | some journal =>
      simp only [Store.act] at ended
      rcases Store.commit_cases present (store.begin.attemptAll ops) with
        ⟨_, done⟩ | ⟨_, ⟨number, grown, disk, _, done⟩ | ⟨cause, same, disk, _, failed⟩⟩
      · exact absurd (congrArg Prod.fst (ended.symm.trans done)) (unkept rfl)
      · exact absurd (congrArg Prod.fst (ended.symm.trans done)) (unkept rfl)
      · cases ended.symm.trans failed
        exact back

/-- Any row and savepoint operations, of which some may fail, in a transaction of a store. One that
fails changes nothing, a rollback to a savepoint gives the tables that stood when the savepoint was
taken, with their indexes, and the store has the tables it had at first, with theirs, unless the
transaction ends with a commit that succeeds. -/
theorem undone_exactly (store : Store) (indexed : store.tables.Indexed) (ops : List RowOp) :
    let recording := (start store.tables).run ops
    recording.transaction = store.begin.attemptAll ops ∧
      (∀ op cause, recording.transaction.apply op = .error cause →
        recording.step op = recording ∧
          ∀ drawn notes, Work.perform ⟨recording.transaction, drawn, notes⟩ op =
            (.error cause, ⟨recording.transaction, drawn, notes⟩)) ∧
      recording.transaction.rollbackToSavepoint.map Transaction.tables =
        recording.stood.head?.elim (.error (.storage .nothingToRollBackTo)) .ok ∧
      ∀ directory now ending answer after,
        store.act directory now (.transact ops ending) = (answer, after) →
          (ending = .commit → answer ≠ .ok ()) → after.tables = store.tables := by
  intro recording
  have same : recording.transaction = store.begin.attemptAll ops :=
    run_transaction (start store.tables) ops
  have began : (start store.tables).transaction.LeadsBackTo store.tables :=
    Transaction.leadsBackTo_start indexed
  obtain ⟨leads, recalls⟩ : recording.transaction.LeadsBackTo store.tables ∧
      recording.transaction.Recalls recording.stood := run_recalls began rfl ops
  refine ⟨same, ?_, Transaction.rollbackToSavepoint_recalls recalls, ?_⟩
  · intro op cause failed
    exact ⟨by rw [step, failed], fun drawn notes => by rw [Work.perform, failed]⟩
  · intro directory now ending answer after ended unkept
    rw [same] at leads
    exact act_unkept store leads ended unkept

namespace Sample

def folder : Item := .make (.ofNat 1) (.root (.ofNat 1)) "folder" .folder .null (.ofNat 9) default

def other : Item := .make (.ofNat 2) folder.path "other" .folder .null (.ofNat 9) default

def grant : Membership := .make (.ofNat 3) folder.path (.ofNat 9) .admin (.ofNat 9) default

def store : Store :=
  { tables := (Tables.empty.putItem folder).putMembership grant
    journal := some ⟨"journal", 0, false⟩
    disk := { site := .file Journal.mark, faults := { room := some 0 } }
    gates := {} }

theorem indexed : store.tables.Indexed := by
  have item := Tables.empty_indexed.putItem folder fun id row found _ => by simp [Tables.empty] at found
  exact item.putMembership grant fun id row found _ _ => by
    simp [Tables.empty, Tables.putItem_memberships] at found

def ops : List RowOp :=
  [.deleteMembership grant.id, .savepoint, .updateItem { folder with path := .root (.ofNat 4) },
    .savepoint, .insertItem other, .insertMembership grant, .insertItem other, .releaseSavepoint]

end Sample

theorem sample_undone_exactly :
    ((start Sample.store.tables).run Sample.ops).stood.length = 1 ∧
      ((start Sample.store.tables).run Sample.ops).transaction.rollbackToSavepoint.map
          Transaction.tables =
        .ok (Sample.store.begin.attempt (.deleteMembership Sample.grant.id)).tables ∧
      ∃ cause after,
        Sample.store.act "journal" default (.transact Sample.ops .commit) = (.error cause, after) ∧
          after.tables = Sample.store.tables := by
  obtain ⟨_, _, back, unkept⟩ := @undone_exactly Sample.store Sample.indexed Sample.ops
  have stood : ((start Sample.store.tables).run Sample.ops).stood =
      [(Sample.store.begin.attempt (.deleteMembership Sample.grant.id)).tables] := by
    rfl
  refine ⟨by rw [stood]; rfl, by rw [back, stood]; rfl, ?_⟩
  rcases ended : Sample.store.act "journal" default (.transact Sample.ops .commit) with
    ⟨answer, after⟩
  have failed : (Sample.store.act "journal" default (.transact Sample.ops .commit)).1 ≠ .ok () := by
    decide +kernel
  rw [ended] at failed
  cases answer with
  | ok _ => exact absurd rfl failed
  | error cause =>
    exact ⟨cause, after, rfl, unkept "journal" default .commit _ after ended fun _ => failed⟩

end Recording

end SharedTree
