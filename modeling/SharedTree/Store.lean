import SharedTree.Transaction
import SharedTree.Journal
/-!
The store: the committed rows, and the journal that they can be read back from. A commit is written
to the journal before it counts; if that fails, its writes are taken back.
-/
namespace SharedTree

/-- How many more calls of each kind are let through, without a number as many as there are. -/
structure Gates where
  begins : Option Nat := none
  commits : Option Nat := none
  rollbacks : Option Nat := none
deriving DecidableEq

structure Store where
  tables : Tables
  journal : Option Journal
  disk : Journal.Disk
  gates : Gates

namespace Store

def inMemory : Store := ⟨.empty, none, {}, {}⟩

def replay (entries : List Journal.Entry) : Tables :=
  entries.foldl (fun tables entry => tables.applyAll entry.changes) .empty

def openJournal (directory : String) (disk : Journal.Disk) :
    Except Error Store × Journal.Disk :=
  match Journal.openLog directory disk with
  | (.ok (journal, entries), after) => (.ok ⟨replay entries, some journal, after, {}⟩, after)
  | (.error cause, after) => (.error (.storage (.journal cause)), after)

def begin (store : Store) : Transaction := .start store.tables

def rollback (store : Store) (transaction : Transaction) : Store :=
  { store with tables := transaction.rollback }

def commit (store : Store) (now : Instant) (transaction : Transaction) :
    Except Error Unit × Store :=
  let kept : Store := { store with tables := transaction.tables }
  match store.journal with
  | none => (.ok (), kept)
  | some journal =>
      if transaction.changes.isEmpty then (.ok (), kept)
      else
        match journal.append now transaction.changes store.disk with
        | (.ok _, after, disk) => (.ok (), { kept with journal := some after, disk })
        | (.error cause, after, disk) =>
            (.error (.storage (.commitNotJournaled cause)),
              { store.rollback transaction with journal := some after, disk })

def compact (store : Store) (now : Instant) : Except Error Unit × Store :=
  match store.journal with
  | none => (.ok (), store)
  | some journal =>
      match journal.condense now store.tables.snapshot.changes store.disk with
      | (.ok _, after, disk) => (.ok (), { store with journal := some after, disk })
      | (.error cause, after, disk) =>
          (.error (.storage (.journal cause)), { store with journal := some after, disk })

def passed : Option Nat → Bool × Option Nat
  | none => (true, none)
  | some 0 => (false, some 0)
  | some (left + 1) => (true, some left)

def letThrough (store : Store) (call : StoreCall) : Bool × Store :=
  match call with
  | .begin =>
      let (pass, left) := passed store.gates.begins
      (pass, { store with gates := { store.gates with begins := left } })
  | .commit =>
      let (pass, left) := passed store.gates.commits
      (pass, { store with gates := { store.gates with commits := left } })
  | .rollback =>
      let (pass, left) := passed store.gates.rollbacks
      (pass, { store with gates := { store.gates with rollbacks := left } })

def tryBegin (store : Store) : Except Error Transaction × Store :=
  match store.letThrough .begin with
  | (true, after) => (.ok after.begin, after)
  | (false, after) => (.error (.storage (.refused .begin)), after)

def tryCommit (store : Store) (now : Instant) (transaction : Transaction) :
    Except Error Unit × Store :=
  match store.letThrough .commit with
  | (true, after) => after.commit now transaction
  | (false, after) => (.error (.storage (.refused .commit)), after.rollback transaction)

/-- Ends a transaction without its writes, and reports if the call was not let through. -/
def tryRollback (store : Store) (transaction : Transaction) : Except Error Unit × Store :=
  match store.letThrough .rollback with
  | (true, after) => (.ok (), after.rollback transaction)
  | (false, after) => (.error (.storage (.refused .rollback)), after.rollback transaction)

end Store

end SharedTree
