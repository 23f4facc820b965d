import SharedTree.Engine
import SharedTree.Proofs.Action.Trail
/-!
What one transaction leaves. An action that ends well leaves what it made of the rows, and the next
transaction begins where it left off (`Engine.transact_gives`); one that does not leaves the rows as
they were (`Engine.transact_error`), whether it was refused, or the store refused or lost a call.
-/
namespace SharedTree

namespace Store

variable {store after : Store} {transaction : Transaction} {cause : Error}

theorem letThrough_tables (store : Store) (call : StoreCall) :
    (store.letThrough call).2.tables = store.tables := by
  cases call <;> rfl

theorem tryBegin_ok (begun : store.tryBegin = (.ok transaction, after)) :
    transaction = .start store.tables ∧ after.tables = store.tables := by
  have same := letThrough_tables store .begin
  unfold tryBegin at begun
  split at begun
  · rename_i let_through
    cases begun
    rw [let_through] at same
    exact ⟨congrArg Transaction.start same, same⟩
  · cases begun

theorem tryBegin_error (refused : store.tryBegin = (.error cause, after)) :
    after.tables = store.tables := by
  have same := letThrough_tables store .begin
  unfold tryBegin at refused
  split at refused
  · cases refused
  · rename_i held_back
    cases refused
    rw [held_back] at same
    exact same

theorem commit_tables (store : Store) (now : Instant) (transaction : Transaction) :
    (store.commit now transaction).2.tables =
      match (store.commit now transaction).1 with
      | .ok _ => transaction.tables
      | .error _ => transaction.rollback := by
  simp only [commit]
  cases store.journal with
  | none => rfl
  | some journal =>
      simp only
      split
      · rfl
      · rcases journal.append now transaction.changes store.disk with ⟨ending, rest⟩
        cases ending <;> rfl

theorem tryCommit_tables (store : Store) (now : Instant) (transaction : Transaction) :
    (store.tryCommit now transaction).2.tables =
      match (store.tryCommit now transaction).1 with
      | .ok _ => transaction.tables
      | .error _ => transaction.rollback := by
  unfold tryCommit
  split
  · exact commit_tables _ now transaction
  · rfl

theorem tryRollback_tables (store : Store) (transaction : Transaction) :
    (store.tryRollback transaction).2.tables = transaction.rollback := by
  unfold tryRollback
  split <;> rfl

end Store

/-- The action, run on some rows, ends well with an answer and leaves other rows. The transaction
may have written before. -/
def Action.Turns {Answer : Type} (action : Action Answer) (before : Tables) (answer : Answer)
    (after : Tables) : Prop :=
  ∃ start work done, work.transaction.LeadsBackTo start ∧ work.tables = before ∧
    action.Gives work answer done ∧ done.tables = after

theorem Action.Turns.indexed {Answer : Type} {action : Action Answer} {before after : Tables}
    {answer : Answer} {scene : Scene} (built : action.Built scene)
    (turns : action.Turns before answer after) : before.Indexed ∧ after.Indexed := by
  obtain ⟨start, work, done, leads, rfl, gives, rfl⟩ := turns
  have kept := built.logged start work leads
  rw [gives] at kept
  exact ⟨leads.indexed, kept.indexed⟩

theorem Action.Turns.of_done {action : Action TaskOutput} {before after : Tables} {step : TaskStep}
    (turns : Action.Turns (do return TaskStep.done (← action)) before step after) :
    ∃ output, step = .done output ∧ action.Turns before output after := by
  obtain ⟨start, work, done, leads, same, gives, same'⟩ := turns
  obtain ⟨output, _, ran, ended⟩ := (Action.gives_bind _ _ _).mp gives
  obtain ⟨rfl, rfl⟩ := (Action.gives_pure _ _).mp ended
  exact ⟨output, rfl, start, work, _, leads, same, ran, same'⟩

theorem Action.Turns.of_delegated {action : Action (List SubTask)} {before after : Tables}
    {step : TaskStep}
    (turns : Action.Turns (do return TaskStep.delegated (← action)) before step after) :
    ∃ subtasks, step = .delegated subtasks ∧ action.Turns before subtasks after := by
  obtain ⟨start, work, done, leads, same, gives, same'⟩ := turns
  obtain ⟨subtasks, _, ran, ended⟩ := (Action.gives_bind _ _ _).mp gives
  obtain ⟨rfl, rfl⟩ := (Action.gives_pure _ _).mp ended
  exact ⟨subtasks, rfl, start, work, _, leads, same, ran, same'⟩

namespace Engine

variable (scene : Scene)

def nextWork (engine : Engine) : Work := engine.startWork (.start engine.store.tables)

theorem startWork_eq (engine : Engine) :
    engine.startWork (.start engine.store.tables) = engine.nextWork := rfl

theorem nextWork_leadsBackTo (engine : Engine) (indexed : engine.store.tables.Indexed) :
    engine.nextWork.transaction.LeadsBackTo engine.store.tables :=
  Transaction.leadsBackTo_start indexed

structure Silent (before after : Engine) : Prop where
  events : after.events = before.events
  reports : after.reports = before.reports

theorem transact_silent {Answer : Type} (engine : Engine) (settle : Error → Error → Error)
    (action : Action Answer) : Silent engine (engine.transact scene settle action).2 := by
  unfold transact
  split
  · exact ⟨rfl, rfl⟩
  · split <;> split <;> exact ⟨rfl, rfl⟩

/-- A transaction that ends with an error leaves the rows as they were. -/
theorem transact_error {Answer : Type} {engine after : Engine} {settle : Error → Error → Error}
    {action : Action Answer} {cause : Error} (indexed : engine.store.tables.Indexed)
    (logged : action.Logged) (ran : engine.transact scene settle action = (.error cause, after)) :
    after.store.tables = engine.store.tables := by
  unfold transact at ran
  split at ran
  · rename_i refused
    cases ran
    exact Store.tryBegin_error refused
  · rename_i transaction begun began
    obtain ⟨rfl, _⟩ := Store.tryBegin_ok began
    have kept := logged _ _ (engine.nextWork_leadsBackTo indexed)
    have taken_back := Transaction.rollback_of_leadsBackTo kept
    unfold Action.ending nextWork at taken_back
    split at ran
    · rename_i answer work ended
      have committed := Store.tryCommit_tables begun scene.now work.transaction
      split at ran
      · cases ran
      · rename_i failed
        cases ran
        rw [failed] at committed
        rw [ended] at taken_back
        exact committed.trans taken_back
    · rename_i work ended
      have rolled_back := Store.tryRollback_tables begun work.transaction
      rw [ended] at taken_back
      split at ran
      · rename_i passed
        cases ran
        rw [passed] at rolled_back
        exact rolled_back.trans taken_back
      · rename_i refused
        cases ran
        rw [refused] at rolled_back
        exact rolled_back.trans taken_back

/-- A transaction that ends well has run its action to its end, and the next one begins where the
action left off. -/
theorem transact_gives {Answer : Type} {engine after : Engine} {settle : Error → Error → Error}
    {action : Action Answer} {answer : Answer}
    (ran : engine.transact scene settle action = (.ok answer, after)) :
    ∃ work, action.Gives engine.nextWork answer work ∧ after.nextWork = work.renewed := by
  unfold transact at ran
  split at ran
  · cases ran
  · rename_i transaction begun began
    obtain ⟨rfl, _⟩ := Store.tryBegin_ok began
    split at ran
    · rename_i answer' work ended
      have committed := Store.tryCommit_tables begun scene.now work.transaction
      split at ran
      · rename_i store passed
        cases ran
        rw [passed] at committed
        refine ⟨work, ended, ?_⟩
        have same : store.tables = work.tables := committed
        simp only [nextWork, startWork, afterWork, Work.renewed, same]
      · cases ran
    · split at ran <;> cases ran

/-- A transaction that ends well leaves what its action made of the rows. -/
theorem transact_ok {Answer : Type} {engine after : Engine} {settle : Error → Error → Error}
    {action : Action Answer} {answer : Answer} (indexed : engine.store.tables.Indexed)
    (ran : engine.transact scene settle action = (.ok answer, after)) :
    action.Turns engine.store.tables answer after.store.tables := by
  obtain ⟨work, gives, next⟩ := transact_gives scene ran
  exact ⟨_, _, work, engine.nextWork_leadsBackTo indexed, rfl, gives,
    (congrArg Work.tables next).symm⟩

end Engine

end SharedTree
