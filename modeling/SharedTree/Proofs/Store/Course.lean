import SharedTree.Store
import SharedTree.Proofs.Journal.Log
import SharedTree.Proofs.Transaction.Changes
/-!
What happens to a store that is kept in a journal. A step is a transaction with its end, a
compaction or an opening of the journal anew, under faults of the disk. The trail tells which
entries the log holds by the answers that were given, each with the rows it left. Main statement:
`Sound.run`, after any steps the file holds the frames of the trail, and the trail makes up the rows.
-/
namespace SharedTree

open Journal (Entry Faults)
open Journal.Frame (frames)

namespace Store

inductive Ending where
  | commit
  | rollback
  | drop
deriving DecidableEq

inductive Deed where
  | transact (ops : List RowOp) (ending : Ending)
  | compact
  | reopen
deriving DecidableEq

def Deed.ops : Deed → List RowOp
  | transact ops _ => ops
  | _ => []

structure Step where
  deed : Deed
  now : Instant
  faults : Faults := {}

def under (store : Store) (faults : Faults) : Store :=
  { store with disk := store.disk.under faults }

def act (directory : String) (store : Store) (now : Instant) : Deed → Except Error Unit × Store
  | .transact ops .commit => store.commit now (store.begin.attemptAll ops)
  | .transact ops _ => (.ok (), store.rollback (store.begin.attemptAll ops))
  | .compact => store.compact now
  | .reopen =>
      match Store.openJournal directory store.disk with
      | (.ok again, _) => (.ok (), again)
      | (.error cause, disk) => (.error cause, { store with disk })

def written? (store : Store) (now : Instant) : Deed → Option Entry
  | .transact ops .commit =>
      let changes := (store.begin.attemptAll ops).changes
      if changes.isEmpty then none
      else
        (store.journal.filter fun journal => !journal.poisoned).map fun journal =>
          journal.nextEntry now changes
  | .compact => store.journal.map fun journal => journal.nextEntry now store.tables.snapshot.changes
  | _ => none

variable {store : Store} {journal : Journal} {now : Instant}

theorem commit_cases (present : store.journal = some journal) (transaction : Transaction) :
    (transaction.changes.isEmpty = true ∧
      store.commit now transaction = (.ok (), { store with tables := transaction.tables })) ∨
    transaction.changes.isEmpty = false ∧
      ((∃ number after disk,
          journal.append now transaction.changes store.disk = (.ok number, after, disk) ∧
          store.commit now transaction =
            (.ok (), { store with tables := transaction.tables, journal := some after, disk })) ∨
        ∃ cause after disk,
          journal.append now transaction.changes store.disk = (.error cause, after, disk) ∧
          store.commit now transaction = (.error (.storage (.commitNotJournaled cause)),
            { store with tables := transaction.rollback, journal := some after, disk })) := by
  simp only [Store.commit, present, Store.rollback]
  cases empty : transaction.changes.isEmpty with
  | true => exact .inl ⟨rfl, rfl⟩
  | false =>
    rcases written : journal.append now transaction.changes store.disk with ⟨_ | _, after, disk⟩
    · exact .inr ⟨rfl, .inr ⟨_, _, _, rfl, rfl⟩⟩
    · exact .inr ⟨rfl, .inl ⟨_, _, _, rfl, rfl⟩⟩

theorem compact_cases (present : store.journal = some journal) (now : Instant) :
    (∃ after disk,
      journal.condense now store.tables.snapshot.changes store.disk = (.ok (), after, disk) ∧
      store.compact now = (.ok (), { store with journal := some after, disk })) ∨
    ∃ cause after disk,
      journal.condense now store.tables.snapshot.changes store.disk = (.error cause, after, disk) ∧
      store.compact now =
        (.error (.storage (.journal cause)), { store with journal := some after, disk }) := by
  simp only [Store.compact, present]
  rcases written : journal.condense now store.tables.snapshot.changes store.disk with
    ⟨_ | _, after, disk⟩
  · exact .inr ⟨_, _, _, rfl, rfl⟩
  · exact .inl ⟨_, _, rfl, rfl⟩

theorem openJournal_ok {directory : String} {disk opened : Journal.Disk} {entries : List Entry}
    (ok : Journal.openLog directory disk = (.ok (journal, entries), opened)) :
    Store.openJournal directory disk = (.ok ⟨replay entries, some journal, opened, {}⟩, opened) := by
  simp only [Store.openJournal, ok]

end Store

/-- A store after some steps, and the entries that were written with success since the log was last
condensed, each with the rows after it. -/
structure Course where
  store : Store
  trail : List (Entry × Tables)

namespace Course

def start (store : Store) : Course := ⟨store.under {}, []⟩

def entries (course : Course) : List Entry := course.trail.map Prod.fst

def rowsAfter (trail : List (Entry × Tables)) : Tables := (trail.getLast?.map Prod.snd).getD .empty

def record (course : Course) (step : Store.Step) (rows : Tables) : List (Entry × Tables) :=
  match course.store.written? step.now step.deed with
  | none => course.trail
  | some entry => if step.deed = .compact then [(entry, rows)] else course.trail ++ [(entry, rows)]

def step (directory : String) (course : Course) (step : Store.Step) : Course :=
  match (course.store.under step.faults).act directory step.now step.deed with
  | (.ok (), after) => ⟨after.under {}, course.record step after.tables⟩
  | (.error _, after) => ⟨after.under {}, course.trail⟩

def run (directory : String) (course : Course) (steps : List Store.Step) : Course :=
  steps.foldl (step directory) course

def writes (directory : String) : Course → List Store.Step → List (Store.Step × Entry)
  | _, [] => []
  | course, step :: rest =>
      ((course.store.written? step.now step.deed).map fun entry => (step, entry)).toList ++
        writes directory (course.step directory step) rest

def itemIds (steps : List Store.Step) : List Id :=
  steps.flatMap fun step => step.deed.ops.filterMap RowOp.item?

def membershipIds (steps : List Store.Step) : List Id :=
  steps.flatMap fun step => step.deed.ops.filterMap RowOp.membership?

/-- True of steps that use no identifier for an item and for a membership, write only entries that
are read back, and strand none of them: where the file can neither be synced nor cut back, the frame
must not be all in it. -/
structure Legal (directory : String) (course : Course) (steps : List Store.Step) : Prop where
  apart : ∀ id ∈ itemIds steps, id ∉ membershipIds steps
  replayable : ∀ write ∈ course.writes directory steps, write.2.Replayable
  kept : ∀ write ∈ course.writes directory steps, write.1.deed ≠ .compact →
    ¬ write.1.faults.Strand (Journal.Frame.ofEntry write.2).length

/-- Each entry of a trail leads to the rows noted with it, the first from the given rows. -/
def Tracks : Tables → List (Entry × Tables) → Tables → Prop
  | before, [], after => before = after
  | before, (entry, rows) :: rest, after =>
      before.applyAll entry.changes = rows ∧ Tracks rows rest after

theorem Tracks.append {before middle after : Tables} {trail : List (Entry × Tables)} {entry : Entry}
    (tracks : Tracks before trail middle) (last : middle.applyAll entry.changes = after) :
    Tracks before (trail ++ [(entry, after)]) after := by
  induction trail generalizing before with
  | nil =>
    cases tracks
    exact ⟨last, rfl⟩
  | cons point rest ih => exact ⟨tracks.1, ih tracks.2⟩

theorem Tracks.replay {before after : Tables} {trail : List (Entry × Tables)}
    (tracks : Tracks before trail after) :
    (trail.map Prod.fst).foldl (fun tables entry => tables.applyAll entry.changes) before = after := by
  induction trail generalizing before with
  | nil => exact tracks
  | cons point rest ih =>
    rw [List.map_cons, List.foldl_cons, tracks.1]
    exact ih tracks.2

theorem Tracks.take {before after : Tables} {trail : List (Entry × Tables)}
    (tracks : Tracks before trail after) (count : Nat) :
    Tracks before (trail.take count) (((trail.take count).getLast?.map Prod.snd).getD before) := by
  induction trail generalizing before count with
  | nil => simp [Tracks]
  | cons point rest ih =>
    cases count with
    | zero => simp [Tracks]
    | succ count =>
      have later := ih tracks.2 count
      rw [List.take_succ_cons, List.getLast?_cons]
      refine ⟨tracks.1, ?_⟩
      cases last : (rest.take count).getLast? <;> simpa [last] using later

structure Sound (course : Course) : Prop where
  log : ∃ journal, course.store.journal = some journal ∧
    journal.Holds course.store.disk (frames course.entries) course.entries
  idle : course.store.disk.faults = {}
  replayable : ∀ entry ∈ course.entries, entry.Replayable
  indexed : course.store.tables.Indexed
  traced : ∀ point ∈ course.trail, point.2.Indexed
  tracks : Tracks .empty course.trail course.store.tables

variable {course : Course} {directory : String} {isItem : Id → Prop}

/-- A step that is not written to the log, or not with success, has to leave log and rows alone. -/
theorem Sound.unwritten (sound : course.Sound) {after : Store} {journal : Journal}
    (same : after.journal = some journal)
    (holds : journal.Holds after.disk (frames course.entries) course.entries)
    (rows : after.tables = course.store.tables) : Sound ⟨after.under {}, course.trail⟩ where
  log := ⟨journal, same, holds.under {}⟩
  idle := rfl
  replayable := sound.replayable
  indexed := rows ▸ sound.indexed
  traced := sound.traced
  tracks := rows ▸ sound.tracks

theorem Sound.transaction (sound : course.Sound) (ops : List RowOp)
    (parts : ∀ op ∈ ops, op.Parts isItem) :
    (course.store.begin.attemptAll ops).LeadsBackTo course.store.tables ∧
      ∀ entry ∈ (course.store.begin.attemptAll ops).log, entry.Parts isItem :=
  Transaction.attemptAll_parts (Transaction.leadsBackTo_start sound.indexed) (by simp [Transaction.start])
    ops parts

theorem step_ok (directory : String) (step : Store.Step) {after : Store}
    (ok : (course.store.under step.faults).act directory step.now step.deed = (.ok (), after)) :
    course.step directory step = ⟨after.under {}, course.record step after.tables⟩ := by
  simp [Course.step, ok]

theorem step_error (directory : String) (step : Store.Step) {after : Store} {cause : Error}
    (failed : (course.store.under step.faults).act directory step.now step.deed =
      (.error cause, after)) :
    course.step directory step = ⟨after.under {}, course.trail⟩ := by
  simp [Course.step, failed]

theorem Sound.grown (sound : course.Sound) {after : Store} {journal : Journal} {entry : Entry}
    (same : after.journal = some journal)
    (holds : journal.Holds after.disk (frames course.entries ++ Journal.Frame.ofEntry entry)
      (course.entries ++ [entry]))
    (replayable : entry.Replayable) (indexed : after.tables.Indexed)
    (arrived : course.store.tables.applyAll entry.changes = after.tables) :
    Sound ⟨after.under {}, course.trail ++ [(entry, after.tables)]⟩ := by
  have listed : entries ⟨after.under {}, course.trail ++ [(entry, after.tables)]⟩ =
      course.entries ++ [entry] := by simp [entries]
  refine ⟨⟨journal, same, ?_⟩, rfl, ?_, indexed, ?_, sound.tracks.append arrived⟩
  · rw [listed, Journal.Frame.frames_append, Journal.Frame.frames_single]
    exact holds.under {}
  · rw [listed]
    intro e inside
    rcases List.mem_append.mp inside with earlier | last
    · exact sound.replayable e earlier
    · rw [List.mem_singleton.mp last]
      exact replayable
  · intro point inside
    rcases List.mem_append.mp inside with earlier | last
    · exact sound.traced point earlier
    · rw [List.mem_singleton.mp last]
      exact indexed

theorem Sound.commit (sound : course.Sound) {faults : Faults} {now : Instant} {ops : List RowOp}
    (parts : ∀ op ∈ ops, op.Parts isItem)
    (replayable : ∀ entry, course.store.written? now (.transact ops .commit) = some entry →
      entry.Replayable)
    (kept : ∀ entry, course.store.written? now (.transact ops .commit) = some entry →
      ¬ faults.Strand (Journal.Frame.ofEntry entry).length) :
    (course.step directory ⟨.transact ops .commit, now, faults⟩).Sound := by
  obtain ⟨journal, present, holds⟩ := sound.log
  obtain ⟨leads, logged⟩ := sound.transaction ops parts
  have arrived := Transaction.applyAll_changes leads logged
  have armed : (course.store.under faults).journal = some journal := present
  rcases Store.commit_cases armed (course.store.begin.attemptAll ops) with
    ⟨empty, done⟩ | ⟨filled, ⟨number, after, disk, appended, done⟩ | ⟨cause, after, disk, failed, done⟩⟩
  · -- Nothing was written, so nothing changed.
    have nothing : course.store.written? now (.transact ops .commit) = none := by
      simp [Store.written?, empty]
    have rows : (course.store.begin.attemptAll ops).tables = course.store.tables := by
      rw [← arrived, List.isEmpty_iff.mp empty]
      rfl
    rw [step_ok directory ⟨.transact ops .commit, now, faults⟩ done, record, nothing]
    exact sound.unwritten present (holds.under faults) rows
  · have usable := Journal.append_usable appended
    have one : course.store.written? now (.transact ops .commit) =
        some (journal.nextEntry now (course.store.begin.attemptAll ops).changes) := by
      simp [Store.written?, filled, present, usable]
    have next := (holds.under faults).append_ok (replayable _ one) appended
    rw [step_ok directory ⟨.transact ops .commit, now, faults⟩ done, record, one]
    exact sound.grown rfl next (replayable _ one) leads.indexed arrived
  · -- The journal was not asked, or the frame was cut back, or a part of it stays behind the others.
    have same : after.Holds disk (frames course.entries) course.entries := by
      cases usable : journal.poisoned with
      | true =>
        obtain ⟨rfl, rfl⟩ := Journal.append_refused usable failed
        exact holds.under faults
      | false =>
        have one : course.store.written? now (.transact ops .commit) =
            some (journal.nextEntry now (course.store.begin.attemptAll ops).changes) := by
          simp [Store.written?, filled, present, usable]
        exact (holds.under faults).append_error (replayable _ one) (kept _ one) failed
    rw [step_error directory ⟨.transact ops .commit, now, faults⟩ done]
    exact sound.unwritten rfl same (Transaction.rollback_of_leadsBackTo leads)

theorem Sound.abandon (sound : course.Sound) {faults : Faults} {now : Instant}
    {ending : Store.Ending} (other : ending ≠ .commit) (ops : List RowOp)
    (parts : ∀ op ∈ ops, op.Parts isItem) :
    (course.step directory ⟨.transact ops ending, now, faults⟩).Sound := by
  obtain ⟨journal, present, holds⟩ := sound.log
  obtain ⟨leads, _⟩ := sound.transaction ops parts
  have nothing : course.store.written? now (.transact ops ending) = none := by
    cases ending <;> first | exact absurd rfl other | rfl
  have done : (course.store.under faults).act directory now (.transact ops ending) =
      (.ok (), (course.store.under faults).rollback (course.store.begin.attemptAll ops)) := by
    cases ending <;> first | exact absurd rfl other | rfl
  rw [step_ok directory ⟨.transact ops ending, now, faults⟩ done, record, nothing]
  exact sound.unwritten present (holds.under faults) (Transaction.rollback_of_leadsBackTo leads)

theorem Sound.compact (sound : course.Sound) {faults : Faults} {now : Instant}
    (replayable : ∀ entry, course.store.written? now .compact = some entry → entry.Replayable) :
    (course.step directory ⟨.compact, now, faults⟩).Sound := by
  obtain ⟨journal, present, holds⟩ := sound.log
  have one : course.store.written? now .compact =
      some (journal.nextEntry now course.store.tables.snapshot.changes) := by
    simp [Store.written?, present]
  have armed : (course.store.under faults).journal = some journal := present
  rcases Store.compact_cases armed now with
    ⟨after, disk, condensed, done⟩ | ⟨cause, after, disk, failed, done⟩
  · -- The one entry that is left leads from no rows to all of them.
    have only := Journal.Holds.condense_ok (replayable _ one) condensed
    have arrived := Tables.applyAll_snapshot sound.indexed
    rw [step_ok directory ⟨.compact, now, faults⟩ done, record, one]
    refine ⟨⟨after, rfl, ?_⟩, rfl, by simpa [entries] using replayable _ one, sound.indexed, ?_,
      arrived, rfl⟩
    · have alone := only.under {}
      rwa [← Journal.Frame.frames_single] at alone
    · intro point inside
      rw [List.mem_singleton.mp inside]
      exact sound.indexed
  · have same := (holds.under faults).condense_error failed
    rw [step_error directory ⟨.compact, now, faults⟩ done]
    exact sound.unwritten rfl same rfl

/-- Opening the journal of a store anew, under any faults, gives the entries of the trail and the
rows that are there, unless it fails; then the file stays as it is. -/
theorem Sound.openJournal (sound : course.Sound) (directory : String) (faults : Faults) :
    (∃ again journal, Store.openJournal directory (course.store.disk.under faults) =
        (.ok again, again.disk) ∧
      Journal.openLog directory (course.store.disk.under faults) =
        (.ok (journal, course.entries), again.disk) ∧
      again.journal = some journal ∧ again.tables = course.store.tables ∧
      journal.Holds again.disk (frames course.entries) course.entries) ∨
    (faults.failTruncate = true ∧ ∃ cause, Store.openJournal directory (course.store.disk.under faults) =
      (.error cause, course.store.disk.under faults)) := by
  obtain ⟨journal, present, holds⟩ := sound.log
  -- Replaying passes through the rows that the trail notes, to the last of them.
  have replayed : Store.replay course.entries = course.store.tables := sound.tracks.replay
  rcases (holds.under faults).reopened directory with ⟨again, opened, ok, kept⟩ | ⟨fails, failed⟩
  · exact .inl ⟨_, again, Store.openJournal_ok ok, ok, rfl, replayed, kept⟩
  · exact .inr ⟨fails, _, by simp [Store.openJournal, failed]; rfl⟩

theorem Sound.reopen (sound : course.Sound) {faults : Faults} {now : Instant} :
    (course.step directory ⟨.reopen, now, faults⟩).Sound := by
  obtain ⟨journal, present, holds⟩ := sound.log
  rcases sound.openJournal directory faults with
    ⟨again, anew, opened, _, same, rows, kept⟩ | ⟨_, cause, failed⟩
  · have done : (course.store.under faults).act directory now .reopen = (.ok (), again) := by
      simp [Store.act, Store.under, opened]
    rw [step_ok directory ⟨.reopen, now, faults⟩ done]
    exact sound.unwritten same kept rows
  · have done : (course.store.under faults).act directory now .reopen =
        (.error cause, course.store.under faults) := by
      simp [Store.act, Store.under, failed]
    rw [step_error directory ⟨.reopen, now, faults⟩ done]
    exact sound.unwritten present (holds.under faults) rfl

/-- Every step keeps the file and the rows in step. -/
theorem Sound.step (sound : course.Sound) (directory : String) (step : Store.Step)
    (parts : ∀ op ∈ step.deed.ops, op.Parts isItem)
    (replayable : ∀ entry, course.store.written? step.now step.deed = some entry → entry.Replayable)
    (kept : ∀ entry, course.store.written? step.now step.deed = some entry → step.deed ≠ .compact →
      ¬ step.faults.Strand (Journal.Frame.ofEntry entry).length) :
    (course.step directory step).Sound := by
  obtain ⟨deed, now, faults⟩ := step
  cases deed with
  | compact => exact sound.compact replayable
  | reopen => exact sound.reopen
  | transact ops ending =>
    cases ending with
    | commit => exact sound.commit parts replayable fun entry one => kept entry one (by simp)
    | rollback => exact sound.abandon (by simp) ops parts
    | drop => exact sound.abandon (by simp) ops parts

/-- The identifiers of items that later steps write too are apart from those of memberships. -/
theorem Legal.tail {step : Store.Step} {rest : List Store.Step}
    (legal : course.Legal directory (step :: rest)) :
    (course.step directory step).Legal directory rest where
  apart := fun id item membership => legal.apart id (List.mem_append_right _ item)
    (List.mem_append_right _ membership)
  replayable := fun write inside => legal.replayable write (List.mem_append_right _ inside)
  kept := fun write inside => legal.kept write (List.mem_append_right _ inside)

theorem Legal.head {step : Store.Step} {rest : List Store.Step}
    (legal : course.Legal directory (step :: rest)) :
    (∀ op ∈ step.deed.ops, op.Parts fun id => id ∈ itemIds (step :: rest)) ∧
      (∀ entry, course.store.written? step.now step.deed = some entry → entry.Replayable) ∧
      ∀ entry, course.store.written? step.now step.deed = some entry → step.deed ≠ .compact →
        ¬ step.faults.Strand (Journal.Frame.ofEntry entry).length := by
  have written (entry : Entry) (one : course.store.written? step.now step.deed = some entry) :
      (step, entry) ∈ course.writes directory (step :: rest) := by
    simp [writes, one]
  -- Whether an identifier is an item's is told by the whole run, not by the step alone.
  refine ⟨fun op inside => ⟨fun id item => ?_, fun id membership item => ?_⟩,
    fun entry one => legal.replayable _ (written entry one),
    fun entry one => legal.kept _ (written entry one)⟩
  · exact List.mem_flatMap.mpr ⟨step, List.mem_cons_self, List.mem_filterMap.mpr ⟨op, inside, item⟩⟩
  · apply legal.apart id item
    exact List.mem_flatMap.mpr
      ⟨step, List.mem_cons_self, List.mem_filterMap.mpr ⟨op, inside, membership⟩⟩

/-- After any steps the file holds the frames of the trail, and the trail makes up the rows. -/
theorem Sound.run (sound : course.Sound) (directory : String) (steps : List Store.Step)
    (legal : course.Legal directory steps) : (course.run directory steps).Sound := by
  induction steps generalizing course with
  | nil => exact sound
  | cons step rest ih =>
    obtain ⟨parts, replayable, kept⟩ := legal.head
    exact ih (sound.step directory step parts replayable kept) legal.tail

theorem start_sound {disk : Journal.Disk} {store : Store} (absent : disk.site = .absent)
    (opened : (Store.openJournal directory disk).1 = .ok store) : (start store).Sound := by
  unfold Store.openJournal Journal.openLog at opened
  rw [absent] at opened
  dsimp only at opened
  split at opened
  · rename_i journal entries after anew
    cases opened
    have holds := Journal.startLog_holds anew
    -- A log that was just started has no entries.
    obtain ⟨rfl, _⟩ := Prod.mk.inj (Journal.Frame.readAll_nil.symm.trans holds.whole)
    exact ⟨⟨journal, rfl, holds.under {}⟩, rfl, by simp [entries, start], Tables.empty_indexed,
      by simp [start], rfl⟩
  · cases opened

end Course

end SharedTree
