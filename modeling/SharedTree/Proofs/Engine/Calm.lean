import SharedTree.Proofs.Engine.Run
import SharedTree.Proofs.Journal.Log
/-!
A store in which nothing goes wrong: no call is refused, the disk takes all that is written, and the
journal is usable. In such a store a transaction ends the way its action does, and the store stays
such a one (`transact_calm_ok`, `transact_calm_error`).
-/
namespace SharedTree

namespace Store

/-- Nothing is refused, the disk has no faults and the journal is usable. -/
structure Calm (store : Store) : Prop where
  gates : store.gates = {}
  faults : store.disk.faults = {}
  usable : ∀ journal, store.journal = some journal → journal.poisoned = false

namespace Calm

variable {store : Store} (calm : store.Calm)
include calm

theorem letThrough (call : StoreCall) : store.letThrough call = (true, store) := by
  obtain ⟨tables, journal, disk, gates⟩ := store
  obtain rfl : gates = {} := calm.gates
  cases call <;> rfl

theorem tryBegin : store.tryBegin = (.ok (.start store.tables), store) := by
  rw [Store.tryBegin, calm.letThrough]
  rfl

theorem tryRollback (transaction : Transaction) :
    store.tryRollback transaction = (.ok (), store.rollback transaction) := by
  rw [Store.tryRollback, calm.letThrough]

theorem rollback (transaction : Transaction) : (store.rollback transaction).Calm :=
  ⟨calm.gates, calm.faults, calm.usable⟩

theorem tryCommit (now : Instant) (transaction : Transaction) :
    ∃ after, store.tryCommit now transaction = (.ok (), after) ∧ after.Calm ∧
      after.tables = transaction.tables := by
  rw [Store.tryCommit, calm.letThrough]
  simp only [commit]
  cases found : store.journal with
  | none => exact ⟨_, rfl, ⟨calm.gates, calm.faults, by simp⟩, rfl⟩
  | some journal =>
      simp only
      split
      · exact ⟨_, rfl, ⟨calm.gates, calm.faults, found ▸ calm.usable⟩, rfl⟩
      · obtain ⟨disk, appended, faults⟩ := Journal.append_calm (calm.usable journal found)
          calm.faults now transaction.changes
        rw [appended]
        refine ⟨_, rfl, ⟨calm.gates, faults, ?_⟩, rfl⟩
        rintro _ ⟨⟩
        exact calm.usable journal found

end Calm

end Store

namespace Engine

variable (scene : Scene)

variable {Answer : Type} {engine : Engine} {action : Action Answer} {work : Work}

theorem transact_calm_ok {answer : Answer} (calm : engine.store.Calm)
    (settle : Error → Error → Error) (gives : action.Gives engine.nextWork answer work) :
    ∃ after, engine.transact scene settle action = (.ok answer, after) ∧ after.store.Calm ∧
      after.nextWork = work.renewed := by
  unfold Action.Gives Action.ending nextWork at gives
  obtain ⟨store, passed, calm', same⟩ := calm.tryCommit scene.now work.transaction
  unfold transact
  rw [calm.tryBegin]
  simp only [gives, passed]
  exact ⟨_, rfl, calm', by simp [nextWork, startWork, afterWork, Work.renewed, same]⟩

theorem transact_calm_error {cause : Error} (calm : engine.store.Calm)
    (indexed : engine.store.tables.Indexed) (logged : action.Logged)
    (settle : Error → Error → Error)
    (ended : action.ending engine.nextWork = (.error cause, work)) :
    ∃ after, engine.transact scene settle action = (.error cause, after) ∧ after.store.Calm ∧
      after.nextWork = { work with transaction := .start engine.store.tables } := by
  have kept := logged _ _ (engine.nextWork_leadsBackTo indexed)
  rw [ended] at kept
  unfold Action.ending nextWork at ended
  unfold transact
  rw [calm.tryBegin]
  simp only [ended, calm.tryRollback]
  refine ⟨_, rfl, calm.rollback work.transaction, ?_⟩
  simp [nextWork, startWork, afterWork, Store.rollback, Transaction.rollback_of_leadsBackTo kept]

end Engine

end SharedTree
