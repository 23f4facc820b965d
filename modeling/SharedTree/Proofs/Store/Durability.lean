import SharedTree.Proofs.Store.Course
/-!
Durability: where no disk fails, opening the journal again gives the rows that are in the store,
after any transactions, compactions and openings (`durable`). The rows' floats are read back only as
well as the reader of JSON does; `sample_not_durable` is a row that changes.
-/
namespace SharedTree.Course

open Journal.Frame (frames)

variable {directory : String}

theorem writes_mem (course : Course) (steps : List Store.Step) :
    ∀ write ∈ course.writes directory steps, write.1 ∈ steps := by
  induction steps generalizing course with
  | nil => simp [writes]
  | cons step rest ih =>
    intro write inside
    rcases List.mem_append.mp inside with here | later
    · simp only [Option.mem_toList, Option.map_eq_some_iff] at here
      obtain ⟨entry, _, rfl⟩ := here
      exact List.mem_cons_self
    · exact List.mem_cons_of_mem step (ih _ write later)

/-- Where nothing fails no frame is stranded. -/
theorem legal_of_calm {course : Course} {steps : List Store.Step}
    (calm : ∀ step ∈ steps, step.faults = {})
    (apart : ∀ id ∈ itemIds steps, id ∉ membershipIds steps)
    (replayable : ∀ write ∈ course.writes directory steps, write.2.Replayable) :
    course.Legal directory steps where
  apart := apart
  replayable := replayable
  kept := by
    -- A frame is stranded only if a sync fails.
    rintro write inside _ ⟨_, unsynced, _⟩
    rw [calm write.1 (writes_mem course steps write inside)] at unsynced
    cases unsynced

/-- Where nothing fails, opening the journal again gives the entries of the trail, and the rows. -/
theorem Sound.reopened {course : Course} (sound : course.Sound) (directory : String) :
    ∃ journal again,
      Journal.openLog directory course.store.disk = (.ok (journal, course.entries), again.disk) ∧
      Store.openJournal directory course.store.disk = (.ok again, again.disk) ∧
      again.tables = course.store.tables := by
  have same : course.store.disk.under {} = course.store.disk := by
    rw [Journal.Disk.under, ← sound.idle]
  have attempt := sound.openJournal directory {}
  rw [same] at attempt
  rcases attempt with ⟨again, journal, anew, logged, _, rows, _⟩ | ⟨fails, _⟩
  · exact ⟨journal, again, logged, anew, rows⟩
  · cases fails

/-- Without disk faults, opening the journal again gives the rows in the store, indexes included,
after any steps on a store that was opened on a new log. -/
theorem durable {disk : Journal.Disk} {store : Store} (absent : disk.site = .absent)
    (opened : (Store.openJournal directory disk).1 = .ok store) (steps : List Store.Step)
    (calm : ∀ step ∈ steps, step.faults = {})
    (apart : ∀ id ∈ itemIds steps, id ∉ membershipIds steps)
    (replayable : ∀ write ∈ (start store).writes directory steps, write.2.Replayable) :
    ∃ again, Store.openJournal directory ((start store).run directory steps).store.disk =
        (.ok again, again.disk) ∧
      again.tables = ((start store).run directory steps).store.tables := by
  have sound := (start_sound absent opened).run directory steps (legal_of_calm calm apart replayable)
  obtain ⟨_, again, _, anew, rows⟩ := sound.reopened directory
  exact ⟨again, anew, rows⟩

/-- What a commit leaves where nothing fails, if its entry is read back as a given one, which need
not be the entry itself. -/
theorem Sound.commit_calm {course : Course} (sound : course.Sound) {journal : Journal}
    (present : course.store.journal = some journal) (usable : journal.poisoned = false)
    (directory : String) (now : Instant) (ops : List RowOp) {entry found : Journal.Entry}
    (filled : (course.store.begin.attemptAll ops).changes.isEmpty = false)
    (writes : journal.nextEntry now (course.store.begin.attemptAll ops).changes = entry)
    (short : (Journal.Frame.payload entry).length + 4 ≤ Journal.Frame.maxBody)
    (read : Journal.Entry.ofText? (Journal.Frame.payload entry) = some found) :
    ∃ after disk, course.step directory ⟨.transact ops .commit, now, {}⟩ =
        ⟨⟨(course.store.begin.attemptAll ops).tables, some after, disk, course.store.gates⟩,
          course.trail ++ [(entry, (course.store.begin.attemptAll ops).tables)]⟩ ∧
      disk.faults = {} ∧ disk.site = .file (Journal.mark ++
        (frames course.entries ++ Journal.Frame.ofEntry entry)) ∧
      after.Holds disk (frames course.entries ++ Journal.Frame.ofEntry entry)
        (course.entries ++ [found]) := by
  obtain ⟨_, same, holds⟩ := sound.log
  cases present.symm.trans same
  have armed : (course.store.under {}).journal = some journal := present
  have calm : (course.store.under {}).disk.faults = {} := rfl
  obtain ⟨written, appended, _⟩ := Journal.append_calm usable calm now
    (course.store.begin.attemptAll ops).changes
  have begun := holds.under {}
  obtain ⟨linked, site⟩ := Journal.append_site begun.linked (begun.site_eq usable) appended
  have frame := Journal.Frame.read_payload entry short []
  rw [read, List.append_nil, Option.map_some] at frame
  rw [writes, List.append_assoc] at site
  rcases Store.commit_cases armed (course.store.begin.attemptAll ops) with
    ⟨empty, _⟩ | ⟨_, ⟨number, after, disk, ok, done⟩ | ⟨cause, after, disk, failed, _⟩⟩
  · rw [filled] at empty
    cases empty
  · cases appended.symm.trans ok
    have one : course.store.written? now (.transact ops .commit) = some entry := by
      simp [Store.written?, filled, present, usable, writes]
    have stepped := step_ok directory ⟨.transact ops .commit, now, {}⟩ done
    rw [record, one] at stepped
    -- The log holds what the frame is read as, not what was written.
    refine ⟨_, _, stepped, rfl, site, linked, ?_, [], ?_, Journal.Frame.torn_nil, fun _ => rfl⟩
    · rw [Journal.Frame.readAll_behind _ _ _ holds.whole, Journal.Frame.readAll_some _ _ _ frame,
        Journal.Frame.readAll_nil]
    · rw [List.append_nil]
      exact site
  · cases appended.symm.trans failed

namespace Sample

def id (number : Nat) : Id := Id.ofNat number

def first : Item := .make (id 1) (.root (id 1)) "first" .folder .null (id 9) default

def second : Item := .make (id 2) (.root (id 2)) "second" .folder .null (id 9) default

def store : Store := ⟨.empty, some ⟨"journal", 0, false⟩, { site := .file Journal.mark }, {}⟩

theorem opened : (Store.openJournal "journal" {}).1 = .ok store := rfl

def trade : List RowOp :=
  [.updateItem { first with path := .root (id 3) }, .updateItem { second with path := first.path },
    .updateItem { first with path := second.path }]

def trading : List Store.Step :=
  [⟨.transact [.insertItem first, .insertItem second] .commit, default, {}⟩,
    ⟨.transact trade .commit, default, {}⟩]

theorem trading_replayable :
    ∀ write ∈ (start store).writes "journal" trading, write.2.Replayable := by
  decide +kernel

end Sample

theorem sample_durable :
    ((start Sample.store).run "journal" Sample.trading).store.tables.itemPaths[Sample.first.path]? =
      some Sample.second.id ∧
    ∃ again, Store.openJournal "journal"
        ((start Sample.store).run "journal" Sample.trading).store.disk = (.ok again, again.disk) ∧
      again.tables = ((start Sample.store).run "journal" Sample.trading).store.tables :=
  ⟨by decide +kernel,
    @durable "journal" {} Sample.store rfl Sample.opened Sample.trading (by decide)
      (by decide +kernel) Sample.trading_replayable⟩

namespace Sample

/-- An item with a float among its attributes, and the same item with the next float in its place. -/
def weight (bits : UInt64) (fits : Json.fits (.float bits) = true) : Item :=
  .make (id 1) (.root (id 1)) "weight" .document ⟨.scalar (.float bits), fits⟩ (id 9) default

def weighed : Item := weight 4474277683630148115 (by decide)

def misread : Item := weight 4474277683630148114 (by decide)

def weighing : Store.Step := ⟨.transact [.insertItem weighed] .commit, default, {}⟩

def weighedEntry : Journal.Entry := ⟨0, 0, [.putItem weighed]⟩

def misreadEntry : Journal.Entry := ⟨0, 0, [.putItem misread]⟩

theorem ofText_weighed :
    Journal.Entry.ofText? (Journal.Frame.payload weighedEntry) = some misreadEntry := by
  rw [weighedEntry.ofText_parsed misreadEntry.toJson (by decide +kernel)]
  decide +kernel

theorem weighing_short :
    ∀ write ∈ (start store).writes "journal" [weighing],
      write.2.toJson.depth ≤ Json.maxDepth ∧
        (Journal.Frame.payload write.2).length + 4 ≤ Journal.Frame.maxBody := by
  decide +kernel

/-- What the store holds after the item was put in, and what it holds when it is opened again. -/
theorem weighed_again :
    ∃ journal tables disk again, (start store).run "journal" [weighing] =
        ⟨⟨tables, some journal, disk, {}⟩, [(weighedEntry, tables)]⟩ ∧
      disk.site = .file (Journal.mark ++ Journal.Frame.ofEntry weighedEntry) ∧
      Store.openJournal "journal" disk = (.ok again, again.disk) ∧
      again.tables ≠ tables := by
  have begun := @start_sound "journal" {} store rfl opened
  have written : Journal.nextEntry ⟨"journal", 0, false⟩ default
      ((start store).store.begin.attemptAll [.insertItem weighed]).changes = weighedEntry := by
    decide +kernel
  have row : ((start store).store.begin.attemptAll [.insertItem weighed]).tables.items[weighed.id]? =
      some weighed := by
    decide +kernel
  have found : (Store.replay [misreadEntry]).items[weighed.id]? = some misread := by decide +kernel
  obtain ⟨after, disk, done, calm, site, holds⟩ := begun.commit_calm rfl rfl "journal"
    default [.insertItem weighed] (by decide +kernel) written (by decide +kernel) ofText_weighed
  have unwritten : frames (start store).entries = [] := rfl
  rw [unwritten, List.nil_append] at site holds
  have ran : (start store).run "journal" [weighing] = (start store).step "journal" weighing := by
    rw [run, List.foldl_cons, List.foldl_nil]
  rcases holds.reopened "journal" with ⟨journal, opened, anew, _⟩ | ⟨fails, _⟩
  · refine ⟨after, _, disk, _, ran.trans done, site, Store.openJournal_ok anew, fun same => ?_⟩
    have rows : Store.replay [misreadEntry] =
        ((start store).store.begin.attemptAll [.insertItem weighed]).tables := same
    rw [← rows] at row
    exact absurd (found.symm.trans row) (by decide +kernel)
  · rw [calm] at fails
    cases fails

end Sample

/-- A row whose float is not read back changes when the journal is opened again. -/
theorem sample_not_durable :
    (∀ write ∈ (start Sample.store).writes "journal" [Sample.weighing],
      write.2.toJson.depth ≤ Json.maxDepth ∧
        (Journal.Frame.payload write.2).length + 4 ≤ Journal.Frame.maxBody) ∧
    ∃ again, Store.openJournal "journal"
        ((start Sample.store).run "journal" [Sample.weighing]).store.disk = (.ok again, again.disk) ∧
      again.tables ≠ ((start Sample.store).run "journal" [Sample.weighing]).store.tables := by
  refine ⟨Sample.weighing_short, ?_⟩
  obtain ⟨_, tables, disk, again, ran, _, anew, other⟩ := Sample.weighed_again
  rw [ran]
  exact ⟨again, anew, other⟩

end SharedTree.Course
