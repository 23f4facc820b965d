import SharedTree.Proofs.Action.Trail
/-!
Actions do not look at what was written before them. In a transaction that already has writes and
savepoints an action does what it does in a new one on the same rows: it ends the same way, its
writes come on top of those before, and the savepoints stay (`Built.framed`). For that its hooks
must keep to row operations.
-/
namespace SharedTree

/-- Programs of row operations alone, whatever they learn on the way. -/
inductive HookProgram.RowsOnly : HookProgram → Prop where
  | done : RowsOnly .done
  | refuse (reason : String) : RowsOnly (.refuse reason)
  | look {next : Tables → HookProgram} : (∀ tables, RowsOnly (next tables)) → RowsOnly (.look next)
  | draw {next : Id → HookProgram} : (∀ id, RowsOnly (next id)) → RowsOnly (.draw next)
  | write {op : RowOp} {next : Except Error Bool → HookProgram} : op.isControl = false →
      (∀ result, RowsOnly (next result)) → RowsOnly (.write op next)
  | note (text : Json) {next : HookProgram} : RowsOnly next → RowsOnly (.note text next)

def Hooks.RowsOnly (hooks : Hooks) : Prop := ∀ hook ∈ hooks.pre, ∀ call, (hook.2 call).RowsOnly

theorem Hooks.rowsOnly_of_bare {hooks : Hooks} (bare : hooks.pre = []) : hooks.RowsOnly := by
  intro hook inside
  rw [bare] at inside
  cases inside

def Transaction.onTop (transaction base : Transaction) : Transaction :=
  { transaction with log := transaction.log ++ base.log, savepoints := base.savepoints }

theorem Transaction.apply_onTop (transaction base : Transaction) {op : RowOp}
    (plain : op.isControl = false) :
    (transaction.onTop base).apply op =
      (transaction.apply op).map fun result => (result.1, result.2.onTop base) := by
  cases op with
  | insertItem item =>
      dsimp only [apply, insertItem, onTop]
      by_cases taken : (transaction.tables.items.contains item.id ||
          transaction.tables.itemPaths.contains item.path) = true
      · rw [if_pos taken, if_pos taken]
        rfl
      · rw [if_neg taken, if_neg taken]
        rfl
  | updateItem item =>
      dsimp only [apply, updateItem, onTop]
      cases transaction.tables.items[item.id]? with
      | none => rfl
      | some before =>
          cases transaction.tables.itemPaths[item.path]?.any fun other => other != item.id <;> rfl
  | deleteItem id =>
      dsimp only [apply, deleteItem, onTop]
      cases transaction.tables.items[id]? <;> rfl
  | insertMembership row =>
      dsimp only [apply, insertMembership, onTop]
      cases transaction.tables.membershipIdAt? row.account row.itemPath with
      | some existing => rfl
      | none => cases transaction.tables.memberships.contains row.id <;> rfl
  | updateMembership row =>
      dsimp only [apply, updateMembership, onTop]
      cases transaction.tables.memberships[row.id]? with
      | none => rfl
      | some before =>
          cases (transaction.tables.membershipIdAt? row.account row.itemPath).filter
            fun other => other != row.id <;> rfl
  | deleteMembership id =>
      dsimp only [apply, deleteMembership, onTop]
      cases transaction.tables.memberships[id]? <;> rfl
  | savepoint => cases plain
  | releaseSavepoint => cases plain
  | rollbackToSavepoint => cases plain

theorem Transaction.rollbackToSavepoint_onTop {transaction base : Transaction}
    (leads : transaction.LeadsBackTo base.tables) :
    (transaction.onTop base.savepoint).rollbackToSavepoint = .ok base := by
  -- The savepoint marks how long the log below is, so just the log on top is taken back.
  have excess :
      (transaction.log ++ base.log).length - base.log.length = transaction.log.length := by
    rw [List.length_append, Nat.add_sub_cancel]
  simp only [rollbackToSavepoint, onTop, savepoint, undoTo, excess, List.take_left, List.drop_left,
    Tables.Undoes.revertAll_eq leads]

namespace Work

def onTop (work : Work) (base : Transaction) : Work :=
  { work with transaction := work.transaction.onTop base }

theorem renewed_onTop (work : Work) : work.renewed.onTop work.transaction = work := rfl

theorem perform_onTop (work : Work) (base : Transaction) {op : RowOp}
    (plain : op.isControl = false) :
    (work.onTop base).perform op = ((work.perform op).1, (work.perform op).2.onTop base) := by
  unfold perform
  rw [onTop, Transaction.apply_onTop _ base plain]
  cases work.transaction.apply op <;> rfl

end Work

theorem HookProgram.RowsOnly.run_onTop (ids : Nat → Id) {program : HookProgram}
    (rows : program.RowsOnly) (work : Work) (base : Transaction) :
    program.run ids (work.onTop base) =
      ((program.run ids work).1, (program.run ids work).2.onTop base) := by
  induction rows generalizing work with
  | done => rfl
  | refuse reason => rfl
  | look _ ih => exact ih _ work
  | draw _ ih => exact ih _ (work.draw ids).2
  | write plain _ ih =>
      simp only [run, work.perform_onTop base plain]
      exact ih _ _
  | note text _ ih => exact ih (work.addNote text)

theorem HookProgram.runAll_onTop (ids : Nat → Id) (programs : List HookProgram)
    (rows : ∀ program ∈ programs, program.RowsOnly) (work : Work) (base : Transaction) :
    runAll ids programs (work.onTop base) =
      ((runAll ids programs work).1, (runAll ids programs work).2.onTop base) := by
  induction programs generalizing work with
  | nil => rfl
  | cons program rest ih =>
      have first := (rows program List.mem_cons_self).run_onTop ids work base
      rw [runAll, runAll, first]
      cases program.run ids work with
      | mk ending after =>
          cases ending with
          | some reason => rfl
          | none => exact ih (fun other inside => rows other (List.mem_cons_of_mem _ inside)) after

namespace Action

variable {Answer Next : Type} {scene : Scene}

/-- The action does the same on top of any transaction. -/
def Framed (action : Action Answer) : Prop :=
  ∀ work base, action.ending (work.onTop base) =
    ((action.ending work).1, (action.ending work).2.onTop base)

theorem framed_callHooks (rows : scene.hooks.RowsOnly) (kind : TaskKind) (payload : HookPayload) :
    (callHooks scene kind payload).Framed := by
  intro work base
  have same := HookProgram.runAll_onTop scene.ids
    (scene.hooks.programs kind ⟨scene.actor, payload, scene.now⟩)
    (fun program inside => by
      obtain ⟨hook, registered, _, rfl⟩ := Hooks.mem_programs inside
      exact rows hook registered _) work base
  simp only [ending, callHooks, ExceptT.run, ExceptT.mk, StateT.run, same]
  generalize HookProgram.runAll scene.ids
    (scene.hooks.programs kind ⟨scene.actor, payload, scene.now⟩) work = ran
  cases ran with
  | mk refusal after => cases refusal <;> rfl

theorem framed_bind {action : Action Answer} {next : Answer → Action Next} (first : action.Framed)
    (later : ∀ answer, (next answer).Framed) : (action >>= next).Framed := by
  intro work base
  rw [ending_bind, ending_bind, first]
  cases action.ending work with
  | mk result middle =>
      cases result with
      | ok answer => exact later answer middle base
      | error cause => rfl

theorem Built.framed (rows : scene.hooks.RowsOnly) {action : Action Answer}
    (built : action.Built scene) : action.Framed := by
  induction built with
  | demand question => exact fun _ _ => rfl
  | draw => exact fun _ _ => rfl
  | write plain => exact fun work base => work.perform_onTop base plain
  | callHooks kind payload => exact framed_callHooks rows kind payload
  | bind _ _ first later => exact framed_bind first later

theorem Framed.ending_renewed {action : Action Answer} (framed : action.Framed) (work : Work) :
    action.ending work = ((action.ending work.renewed).1,
      (action.ending work.renewed).2.onTop work.transaction) := by
  have same := framed work.renewed work.transaction
  rwa [work.renewed_onTop] at same

end Action

end SharedTree
