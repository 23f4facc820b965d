import SharedTree.Proofs.Action.Built
import SharedTree.Proofs.Action.Success
/-!
No action leaves its log. Whatever an action does and however it ends, its hooks' writes included,
the log of its transaction still leads back to where it began; so the engine can always take it
back.
-/
namespace SharedTree

theorem Work.perform_leadsBackTo {start : Tables} {work : Work} (op : RowOp)
    (leads : work.transaction.LeadsBackTo start) :
    (work.perform op).2.transaction.LeadsBackTo start := by
  unfold Work.perform
  cases applied : work.transaction.apply op with
  | ok result => exact leads.apply applied
  | error cause => exact leads

theorem HookProgram.run_leadsBackTo (ids : Nat → Id) {start : Tables} (program : HookProgram)
    (work : Work) (leads : work.transaction.LeadsBackTo start) :
    (program.run ids work).2.transaction.LeadsBackTo start := by
  induction program generalizing work with
  | done => exact leads
  | refuse reason => exact leads
  | look next ih => exact ih _ work leads
  | draw next ih => exact ih _ (work.draw ids).2 leads
  | write op next ih => exact ih _ (work.perform op).2 (Work.perform_leadsBackTo op leads)
  | note text next ih => exact ih (work.addNote text) leads

theorem HookProgram.runAll_leadsBackTo (ids : Nat → Id) {start : Tables}
    (programs : List HookProgram) (work : Work) (leads : work.transaction.LeadsBackTo start) :
    (runAll ids programs work).2.transaction.LeadsBackTo start := by
  induction programs generalizing work with
  | nil => exact leads
  | cons program rest ih =>
      have first := program.run_leadsBackTo ids work leads
      rw [runAll]
      cases ran : program.run ids work with
      | mk ending after =>
          rw [ran] at first
          cases ending with
          | some reason => exact first
          | none => exact ih after first

namespace Action

variable {Answer Next : Type} {scene : Scene}

/-- However the action ends, the log still leads back. -/
def Logged (action : Action Answer) : Prop :=
  ∀ start work, work.transaction.LeadsBackTo start →
    (action.ending work).2.transaction.LeadsBackTo start

theorem logged_pure (answer : Answer) : Logged (pure answer) := fun _ _ leads => leads

theorem logged_throw (cause : Error) : Logged (throw cause : Action Answer) :=
  fun _ _ leads => leads

theorem logged_demand (question : Tables → Except Error Answer) : (demand question).Logged :=
  fun _ _ leads => leads

theorem logged_draw (scene : Scene) : (draw scene).Logged := fun _ _ leads => leads

theorem logged_write (op : RowOp) : (write op).Logged :=
  fun _ _ leads => Work.perform_leadsBackTo op leads

theorem logged_callHooks (kind : TaskKind) (payload : HookPayload) :
    (callHooks scene kind payload).Logged := by
  intro start work leads
  have kept := HookProgram.runAll_leadsBackTo scene.ids
    (scene.hooks.programs kind ⟨scene.actor, payload, scene.now⟩) work leads
  unfold ending callHooks
  simp only [ExceptT.run, ExceptT.mk, StateT.run]
  split
  · rename_i same
    rw [same] at kept
    exact kept
  · rename_i same
    rw [same] at kept
    exact kept

theorem logged_bind {action : Action Answer} {next : Answer → Action Next} (first : action.Logged)
    (later : ∀ answer, (next answer).Logged) : (action >>= next).Logged := by
  intro start work leads
  have middle := first start work leads
  rw [ending_bind]
  cases ran : action.ending work with
  | mk result after =>
      rw [ran] at middle
      cases result with
      | ok answer => exact later answer start after middle
      | error cause => exact middle

theorem Built.logged {action : Action Answer} (built : action.Built scene) : action.Logged := by
  induction built with
  | demand question => exact logged_demand question
  | draw => exact logged_draw scene
  | write => exact logged_write _
  | callHooks kind payload => exact logged_callHooks kind payload
  | bind _ _ first later => exact logged_bind first later

end Action

end SharedTree
