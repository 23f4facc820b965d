import SharedTree.Proofs.Store.Durability
/-!
Failures. A step that fails leaves rows and log as they were, whatever failed: no later opening
answers its entry (`failed_gone`). The one exception is a frame that got into the file as a whole
but could neither be synced nor cut back; `sample_failed_back` is a commit like that.
-/
namespace SharedTree.Course

open Journal (Entry)
open Journal.Frame (frames)

variable {course : Course} {directory : String}

def accepted? (directory : String) (course : Course) (step : Store.Step) : Option Entry :=
  match ((course.store.under step.faults).act directory step.now step.deed).1 with
  | .ok () => course.store.written? step.now step.deed
  | .error _ => none

def accepted (directory : String) : Course → List Store.Step → List Entry
  | _, [] => []
  | course, step :: rest =>
      (course.accepted? directory step).toList ++ accepted directory (course.step directory step) rest

theorem step_accepted (course : Course) (directory : String) (step : Store.Step) :
    (course.step directory step).entries <:+
      course.entries ++ (course.accepted? directory step).toList := by
  unfold accepted? Course.step
  rcases (course.store.under step.faults).act directory step.now step.deed with ⟨_ | _, after⟩
  · simp [entries]
  · dsimp only [record]
    cases course.store.written? step.now step.deed with
    | none => simp [entries]
    | some entry =>
      dsimp only
      split
      · -- The entry of a compaction stands alone.
        exact ⟨course.entries, by simp [entries]⟩
      · simp [entries]

/-- The log holds entries of steps that succeeded, and the last of them. -/
theorem run_accepted (course : Course) (directory : String) (steps : List Store.Step) :
    (course.run directory steps).entries <:+ course.entries ++ course.accepted directory steps := by
  induction steps generalizing course with
  | nil => simp [accepted, run]
  | cons step rest ih =>
    obtain ⟨first, here⟩ := step_accepted course directory step
    obtain ⟨later, there⟩ := ih (course.step directory step)
    refine ⟨first ++ later, ?_⟩
    rw [accepted, ← List.append_assoc, ← here, List.append_assoc, List.append_assoc, ← there]
    rfl

theorem run_append (course : Course) (directory : String) (before later : List Store.Step) :
    course.run directory (before ++ later) = (course.run directory before).run directory later :=
  List.foldl_append

theorem writes_append (course : Course) (directory : String) (before later : List Store.Step) :
    course.writes directory (before ++ later) =
      course.writes directory before ++ (course.run directory before).writes directory later := by
  induction before generalizing course with
  | nil => rfl
  | cons step rest ih =>
    rw [List.cons_append, writes, writes, ih, List.append_assoc]
    rfl

theorem Legal.front {before later : List Store.Step}
    (legal : course.Legal directory (before ++ later)) : course.Legal directory before where
  apart := fun id item membership => legal.apart id
    (by rw [itemIds, List.flatMap_append]; exact List.mem_append_left _ item)
    (by rw [membershipIds, List.flatMap_append]; exact List.mem_append_left _ membership)
  replayable := fun write inside =>
    legal.replayable write (writes_append course directory before later ▸ List.mem_append_left _ inside)
  kept := fun write inside =>
    legal.kept write (writes_append course directory before later ▸ List.mem_append_left _ inside)

theorem Sound.failed_rows (sound : course.Sound) {step : Store.Step} {cause : Error}
    (later : (course.step directory step).Sound)
    (failed : ((course.store.under step.faults).act directory step.now step.deed).1 = .error cause) :
    (course.step directory step).trail = course.trail ∧
      (course.step directory step).store.tables = course.store.tables := by
  have trail : (course.step directory step).trail = course.trail := by
    rw [step_error directory step (Prod.ext failed rfl)]
  -- The rows are what the trail makes up.
  have before := sound.tracks.replay
  have after := later.tracks.replay
  rw [trail] at after
  exact ⟨trail, after.symm.trans before⟩

/-- Whatever fails in any steps: a step that fails leaves the rows. Each opening later, if it
succeeds, answers entries of other steps only, those that are accepted before and after, and the
rows that are in the store. -/
theorem failed_gone {disk : Journal.Disk} {store : Store} (absent : disk.site = .absent)
    (opened : (Store.openJournal directory disk).1 = .ok store) (before later : List Store.Step)
    (step : Store.Step) (legal : (start store).Legal directory (before ++ step :: later))
    {cause : Error}
    (failed : ((((start store).run directory before).store.under step.faults).act directory step.now
      step.deed).1 = .error cause) :
    let held := (start store).run directory before
    let ended := (start store).run directory (before ++ step :: later)
    (held.step directory step).store.tables = held.store.tables ∧
    ended.entries <:+ (start store).accepted directory before ++
        (held.step directory step).accepted directory later ∧
    ∀ faults,
      (∃ journal again,
        Journal.openLog directory (ended.store.disk.under faults) =
          (.ok (journal, ended.entries), again.disk) ∧
        Store.openJournal directory (ended.store.disk.under faults) = (.ok again, again.disk) ∧
        again.tables = ended.store.tables) ∨
      (faults.failTruncate = true ∧ ∃ refusal,
        Store.openJournal directory (ended.store.disk.under faults) =
          (.error refusal, ended.store.disk.under faults)) := by
  intro held ended
  have begun := start_sound absent opened
  have sound : held.Sound := begun.run directory before legal.front
  have split : before ++ step :: later = (before ++ [step]) ++ later := by simp
  have left := begun.run directory (before ++ [step]) (split ▸ legal).front
  rw [run_append] at left
  obtain ⟨trail, rows⟩ := sound.failed_rows left failed
  refine ⟨rows, ?_, fun faults => ?_⟩
  · obtain ⟨first, front⟩ := run_accepted (start store) directory before
    obtain ⟨second, back⟩ := run_accepted (held.step directory step) directory later
    -- What is accepted before and after the step, without a gap.
    have same : (held.step directory step).entries = held.entries := congrArg (List.map Prod.fst) trail
    have ran : ended = (held.step directory step).run directory later := run_append _ directory before _
    have none_yet : (start store).entries = [] := rfl
    rw [none_yet, List.nil_append] at front
    rw [same, ← ran] at back
    exact ⟨first ++ second, by rw [List.append_assoc, back, ← List.append_assoc, front]⟩
  · have whole : ended.Sound := begun.run directory _ legal
    rcases whole.openJournal directory faults with ⟨again, journal, anew, logged, _, rows, _⟩ | fails
    · exact .inl ⟨journal, again, logged, anew, rows⟩
    · exact .inr fails

namespace Sample

def failing : Store.Step :=
  ⟨.transact [.insertItem second] .commit, default, { room := some 100, failTruncate := true }⟩

def beginning : List Store.Step := [⟨.transact [.insertItem first] .commit, default, {}⟩]

def ending : List Store.Step :=
  [⟨.compact, default, {}⟩, ⟨.transact [.insertItem second] .commit, default, {}⟩]

end Sample

theorem sample_failed_gone :
    (((start Sample.store).run "journal" Sample.beginning).step "journal" Sample.failing).store.tables =
        ((start Sample.store).run "journal" Sample.beginning).store.tables ∧
      ∃ (journal : Journal) (again : Store),
        Journal.openLog "journal" (((start Sample.store).run "journal"
            (Sample.beginning ++ Sample.failing :: Sample.ending)).store.disk.under {}) =
          (.ok (journal, ((start Sample.store).run "journal"
            (Sample.beginning ++ Sample.failing :: Sample.ending)).entries), again.disk) ∧
        again.tables = ((start Sample.store).run "journal"
          (Sample.beginning ++ Sample.failing :: Sample.ending)).store.tables := by
  have legal : (start Sample.store).Legal "journal"
      (Sample.beginning ++ Sample.failing :: Sample.ending) :=
    ⟨by decide +kernel, by decide +kernel, by decide +kernel⟩
  obtain ⟨rows, _, opening⟩ := @failed_gone "journal" {} Sample.store rfl Sample.opened
    Sample.beginning Sample.ending Sample.failing legal
    (.storage (.commitNotJournaled (.frameNotCutBack 337))) (by decide +kernel)
  rcases opening {} with ⟨journal, again, logged, _, same⟩ | ⟨fails, _⟩
  · exact ⟨rows, journal, again, logged, same⟩
  · cases fails

/-- A commit whose frame is stranded fails, but its entry is answered when the log is opened. -/
theorem Sound.commit_stranded (sound : course.Sound) {journal : Journal}
    (present : course.store.journal = some journal) (usable : journal.poisoned = false)
    (directory : String) (now : Instant) (ops : List RowOp) (faults : Journal.Faults) {entry : Entry}
    (filled : (course.store.begin.attemptAll ops).changes.isEmpty = false)
    (writes : journal.nextEntry now (course.store.begin.attemptAll ops).changes = entry)
    (replayable : entry.Replayable) (strand : faults.Strand (Journal.Frame.ofEntry entry).length) :
    ∃ cause journal again,
      ((course.store.under faults).act directory now (.transact ops .commit)).1 = .error cause ∧
      Journal.openLog directory
          (course.step directory ⟨.transact ops .commit, now, faults⟩).store.disk =
        (.ok (journal, course.entries ++ [entry]), again) := by
  obtain ⟨_, same, holds⟩ := sound.log
  cases present.symm.trans same
  subst writes
  obtain ⟨cause, after, written, appended, _, stays⟩ := (holds.under faults).append_stranded usable
    now _ replayable strand
  have armed : (course.store.under faults).journal = some journal := present
  rcases Store.commit_cases armed (course.store.begin.attemptAll ops) with
    ⟨empty, _⟩ | ⟨_, ⟨number, _, _, ok, _⟩ | ⟨reason, _, _, failed, done⟩⟩
  · rw [filled] at empty
    cases empty
  · cases appended.symm.trans ok
  · cases appended.symm.trans failed
    rw [step_error directory ⟨.transact ops .commit, now, faults⟩ done]
    rcases (stays.under {}).reopened directory with ⟨again, opened, anew, _⟩ | ⟨fails, _⟩
    · exact ⟨_, again, opened, congrArg Prod.fst done, anew⟩
    · cases fails

namespace Sample

def stranding : Store.Step :=
  ⟨.transact [.insertItem first] .commit, default, { failSync := true, failTruncate := true }⟩

def stranded : Entry := ⟨0, 0, [.putItem first]⟩

end Sample

theorem sample_failed_back :
    ∃ cause journal again,
      (((start Sample.store).store.under Sample.stranding.faults).act "journal" default
        Sample.stranding.deed).1 = .error cause ∧
      Journal.openLog "journal"
          ((start Sample.store).step "journal" Sample.stranding).store.disk =
        (.ok (journal, [Sample.stranded]), again) := by
  have begun := @start_sound "journal" {} Sample.store rfl Sample.opened
  have writes : Journal.nextEntry ⟨"journal", 0, false⟩ default
      ((start Sample.store).store.begin.attemptAll [.insertItem Sample.first]).changes =
        Sample.stranded := by
    decide +kernel
  have all (count : Nat) : Sample.stranding.faults.accepted count = count := rfl
  have deed : Sample.stranding.deed = .transact [.insertItem Sample.first] .commit := rfl
  obtain ⟨cause, journal, again, failed, logged⟩ := begun.commit_stranded rfl rfl "journal" default
    [.insertItem Sample.first] Sample.stranding.faults (by decide +kernel) writes (by decide +kernel)
    ⟨all _, rfl, rfl⟩
  have unwritten : (start Sample.store).entries = [] := rfl
  have step : (⟨.transact [.insertItem Sample.first] .commit, default, Sample.stranding.faults⟩ :
      Store.Step) = Sample.stranding := rfl
  rw [unwritten, List.nil_append, step] at logged
  exact ⟨cause, journal, again, deed ▸ failed, logged⟩

end SharedTree.Course
