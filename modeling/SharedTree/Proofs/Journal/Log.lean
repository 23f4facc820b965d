import SharedTree.Journal
import SharedTree.Proofs.Journal.Frames
/-!
What is in the log file. `Holds` says which entries an open journal would be opened with again: the
file is the mark, frames that are read to the end, and perhaps a part of a frame whose append could
not be undone. Opening a log gives a journal like that (`openLog_holds`), and each write keeps it
one, with the entry if it succeeds and without it if not (`append_holds`, `condense_holds`).
-/
namespace SharedTree.Journal

def Disk.under (disk : Disk) (faults : Faults) : Disk := { disk with faults }

def nextEntry (journal : Journal) (now : Instant) (changes : List Change) : Entry :=
  ⟨journal.next, Int64.ofInt now.millis, changes⟩

/-- True if a whole frame can be written, but neither synced nor cut back. -/
def Faults.Strand (faults : Faults) (count : Nat) : Prop :=
  faults.accepted count = count ∧ faults.refuseSync = true ∧ faults.failTruncate = true

instance (faults : Faults) (count : Nat) : Decidable (faults.Strand count) :=
  inferInstanceAs (Decidable (_ ∧ _))

/-- The log file holds frames, read as the given entries, and nothing else but a part of a frame
while the journal takes no appends. -/
structure Holds (journal : Journal) (disk : Disk) (bytes : List UInt8) (entries : List Entry) :
    Prop where
  linked : disk.unlinked = none
  whole : Frame.readAll bytes = (entries, [])
  file : ∃ rest, disk.site = .file (mark ++ bytes ++ rest) ∧ Frame.Torn rest ∧
    (journal.poisoned = false → rest = [])

variable {journal after : Journal} {disk written : Disk} {bytes : List UInt8}
  {entries : List Entry} {directory : String}

theorem Holds.under (holds : journal.Holds disk bytes entries) (faults : Faults) :
    journal.Holds (disk.under faults) bytes entries :=
  ⟨holds.linked, holds.whole, holds.file⟩

/-! Opening. -/

theorem startLog_holds {before : List UInt8}
    (opened : startLog directory before disk = (.ok (journal, entries), written)) :
    journal.Holds written [] entries := by
  unfold startLog at opened
  split at opened
  · cases opened
  · dsimp only at opened
    split at opened
    · cases opened
    · rename_i enough
      simp only [Bool.or_eq_true, decide_eq_true_eq, not_or, Nat.not_lt] at enough
      cases opened
      refine ⟨rfl, Frame.readAll_nil, [], ?_, Frame.torn_nil, fun _ => rfl⟩
      rw [List.take_of_length_le enough.1, List.append_nil, List.append_nil]

theorem take_front (front rest : List UInt8) :
    (front ++ rest).take ((front ++ rest).length - rest.length) = front := by
  simp

/-- A log that is opened holds the entries that opening answers. -/
theorem openLog_holds (opened : openLog directory disk = (.ok (journal, entries), written)) :
    ∃ bytes, journal.Holds written bytes entries := by
  unfold openLog at opened
  split at opened
  · cases opened
  · cases opened
  · exact ⟨[], startLog_holds opened⟩
  · rename_i bytes found
    split at opened
    · exact ⟨[], startLog_holds opened⟩
    · rename_i long
      split at opened
      · cases opened
      · rename_i marked
        obtain ⟨kept, front, whole⟩ := Frame.readAll_kept (bytes.drop mark.length)
        generalize Frame.readAll (bytes.drop mark.length) = read at opened front whole
        have file : bytes = mark ++ kept ++ read.2 := by
          rw [List.append_assoc, ← front]
          have start : bytes.take mark.length = mark := Classical.not_not.mp marked
          exact (start ▸ List.take_append_drop mark.length bytes).symm
        refine ⟨kept, ?_⟩
        dsimp only at opened
        split at opened
        · rename_i empty
          cases opened
          refine ⟨rfl, whole, [], ?_, Frame.torn_nil, fun _ => rfl⟩
          rw [found, file, List.isEmpty_iff.mp empty]
        · -- What stands behind the frames that were read is cut off.
          split at opened
          · cases opened
          · cases opened
            refine ⟨rfl, whole, [], ?_, Frame.torn_nil, fun _ => rfl⟩
            rw [file, take_front, List.append_nil]

theorem openLog_journal (opened : openLog directory disk = (.ok (journal, entries), written)) :
    journal = ⟨directory, numberAfter entries, false⟩ := by
  have started {before : List UInt8}
      (started : startLog directory before disk = (.ok (journal, entries), written)) :
      journal = ⟨directory, numberAfter entries, false⟩ := by
    unfold startLog at started
    dsimp only at started
    split at started
    · cases started
    · split at started <;> cases started
      rfl
  unfold openLog at opened
  split at opened
  · cases opened
  · cases opened
  · exact started opened
  · split at opened
    · exact started opened
    · split at opened
      · cases opened
      · dsimp only at opened
        split at opened
        · cases opened
          rfl
        · split at opened <;> cases opened
          rfl

def Disk.trimmed (disk : Disk) (kept : List UInt8) : Disk :=
  { disk with site := .file (mark ++ kept), unlinked := none }

/-- A file that begins with the mark is opened with the frames that can be read, and keeps them,
unless something stands behind them that cannot be cut off. -/
theorem openLog_marked (site : disk.site = .file (mark ++ bytes)) {kept : List UInt8}
    (split : bytes = kept ++ (Frame.readAll bytes).2) (directory : String) :
    openLog directory disk =
      if (Frame.readAll bytes).2 = [] ∨ disk.faults.failTruncate = false then
        (.ok (⟨directory, numberAfter (Frame.readAll bytes).1, false⟩, (Frame.readAll bytes).1),
          disk.trimmed kept)
      else (.error (.disk .noSpace), disk) := by
  have long : ¬ (mark ++ bytes).length < mark.length := by
    rw [List.length_append]
    omega
  simp only [openLog, site, if_neg long, List.take_left, List.drop_left, ne_eq, not_true_eq_false,
    if_false, Disk.trimmed, List.isEmpty_iff]
  generalize Frame.readAll bytes = read at split
  subst split
  by_cases empty : read.2 = []
  · rw [if_pos empty, if_pos (Or.inl empty), empty, List.append_nil]
  · cases cuts : disk.faults.failTruncate with
    | true => simp [empty]
    | false => simp [empty, ← List.append_assoc]

theorem openLog_trims (site : disk.site = .file (mark ++ bytes))
    (cuts : disk.faults.failTruncate = false) {kept : List UInt8}
    (split : bytes = kept ++ (Frame.readAll bytes).2) (directory : String) :
    openLog directory disk = (.ok (⟨directory, numberAfter (Frame.readAll bytes).1, false⟩,
      (Frame.readAll bytes).1), disk.trimmed kept) := by
  rw [openLog_marked site split, if_pos (Or.inr cuts)]

/-- A log is opened with what it holds, unless a part of a frame would have to be cut off and
cannot be. -/
theorem Holds.reopened (holds : journal.Holds disk bytes entries) (directory : String) :
    (∃ again opened, openLog directory disk = (.ok (again, entries), opened) ∧
        again.Holds opened bytes entries) ∨
      (disk.faults.failTruncate = true ∧
        openLog directory disk = (.error (.disk .noSpace), disk)) := by
  obtain ⟨rest, site, torn, _⟩ := holds.file
  rw [List.append_assoc] at site
  have read : Frame.readAll (bytes ++ rest) = (entries, rest) := by
    rw [Frame.readAll_behind bytes rest entries holds.whole, torn.readAll, List.append_nil]
  have opened := openLog_marked site (by rw [read]) directory
  rw [read] at opened
  split at opened
  · exact .inl ⟨_, _, opened, rfl, holds.whole, [], by rw [List.append_nil]; rfl, Frame.torn_nil,
      fun _ => rfl⟩
  · rename_i uncut
    exact .inr ⟨by simpa using (not_or.mp uncut).2, opened⟩

theorem openLog_file (site : disk.site = .file (mark ++ bytes))
    (cuts : disk.faults.failTruncate = false) (directory : String) :
    ∃ opened, openLog directory disk = (.ok (⟨directory, numberAfter (Frame.readAll bytes).1, false⟩,
      (Frame.readAll bytes).1), opened) := by
  obtain ⟨kept, split, _⟩ := Frame.readAll_kept bytes
  exact ⟨_, openLog_trims site cuts split directory⟩

/-! Opening a log that was cut off. -/

def Disk.cut (disk : Disk) (limit : Nat) : Disk :=
  match disk.site with
  | .file bytes => { disk with site := .file (bytes.take limit) }
  | _ => disk

theorem Disk.cut_whole {disk : Disk} {bytes : List UInt8} (site : disk.site = .file bytes) :
    disk.cut bytes.length = disk := by
  obtain ⟨_, aside, unlinked, faults⟩ := disk
  cases site
  simp [Disk.cut]

/-- Where nothing fails, a file that is shorter than the mark is started anew. -/
theorem openLog_starts {bytes : List UInt8} (site : disk.site = .file bytes)
    (short : bytes.length < mark.length) (calm : disk.faults = {}) (directory : String) :
    openLog directory disk = (.ok (⟨directory, 0, false⟩, []), disk.trimmed []) := by
  obtain ⟨_, aside, unlinked, faults⟩ := disk
  cases site
  cases calm
  simp only [openLog, if_pos short]
  rfl

theorem openLog_short {bytes : List UInt8} (site : disk.site = .file bytes)
    (short : bytes.length < mark.length) (calm : disk.faults = {}) (directory : String) :
    ∃ again opened, openLog directory disk = (.ok (again, []), opened) ∧
      again.Holds opened [] [] := by
  have ok := openLog_starts site short calm directory
  exact ⟨_, _, ok, rfl, Frame.readAll_nil, [], rfl, Frame.torn_nil, fun _ => rfl⟩

/-- A log file that was cut off behind the mark holds the entries whose frames fit in. -/
theorem Holds.cut (holds : journal.Holds disk (Frame.frames entries) entries)
    (replayable : ∀ entry ∈ entries, entry.Replayable) (limit : Nat) (marked : mark.length ≤ limit) :
    ∃ kept, kept ≤ entries.length ∧
      (∃ closed : Journal, closed.Holds (disk.cut limit) (Frame.frames (entries.take kept))
        (entries.take kept)) ∧
      mark.length + (Frame.frames (entries.take kept)).length ≤ limit ∧
      ∀ more, kept < more → more ≤ entries.length →
        limit < mark.length + (Frame.frames (entries.take more)).length := by
  obtain ⟨rest, site, torn, _⟩ := holds.file
  obtain ⟨kept, left, cut, torn_left, within, fits, longest⟩ :=
    Frame.frames_cut entries replayable torn (limit - mark.length)
  -- Who wrote the file is gone; any journal does that does not say that nothing stands behind.
  refine ⟨kept, within, ⟨{ journal with poisoned := true }, ?_, ?_, left, ?_, torn_left, ?_⟩, by omega,
    fun more later inside => ?_⟩
  · rw [Disk.cut, site]
    exact holds.linked
  · exact Frame.readAll_frames _ fun entry inside => replayable entry (List.mem_of_mem_take inside)
  · simp only [Disk.cut, site]
    rw [List.append_assoc, List.append_assoc, ← cut, List.take_append,
      List.take_of_length_le marked]
  · intro clean
    cases clean
  · have beyond := longest more later inside
    omega

/-! Writing. -/

theorem Holds.site_eq (holds : journal.Holds disk bytes entries) (clean : journal.poisoned = false) :
    disk.site = .file (mark ++ bytes) := by
  obtain ⟨rest, site, _, none_left⟩ := holds.file
  rw [site, none_left clean, List.append_nil]

theorem opened_file (linked : disk.unlinked = none) (site : disk.site = .file bytes) :
    disk.opened = bytes := by
  simp [Disk.opened, linked, Disk.log?, site]

/-- An append that succeeds puts the frame at the end of the file, whether it can be read or not. -/
theorem append_site (linked : disk.unlinked = none) (site : disk.site = .file bytes) {now : Instant}
    {changes : List Change} {number : UInt64}
    (ok : journal.append now changes disk = (.ok number, after, written)) :
    written.unlinked = none ∧
      written.site = .file (bytes ++ Frame.ofEntry (journal.nextEntry now changes)) := by
  have frame : journal.nextFrame now changes = Frame.ofEntry (journal.nextEntry now changes) := rfl
  unfold append at ok
  split at ok
  · cases ok
  · simp only [frame, opened_file linked site] at ok
    generalize journal.nextEntry now changes = entry at ok ⊢
    split at ok
    · rename_i through
      cases ok
      simp [Disk.setOpened, linked, through.1]
    · split at ok <;> cases ok

theorem append_usable {now : Instant} {changes : List Change} {number : UInt64}
    (ok : journal.append now changes disk = (.ok number, after, written)) :
    journal.poisoned = false := by
  unfold append at ok
  split at ok
  · cases ok
  · rename_i clean
    simpa using clean

theorem Holds.append_ok (holds : journal.Holds disk bytes entries) {now : Instant}
    {changes : List Change} {number : UInt64}
    (replayable : (journal.nextEntry now changes).Replayable)
    (ok : journal.append now changes disk = (.ok number, after, written)) :
    after.Holds written (bytes ++ Frame.ofEntry (journal.nextEntry now changes))
      (entries ++ [journal.nextEntry now changes]) := by
  obtain ⟨linked, site⟩ := append_site holds.linked (holds.site_eq (append_usable ok)) ok
  refine ⟨linked, ?_, [], by rw [site, List.append_assoc, List.append_nil], Frame.torn_nil,
    fun _ => rfl⟩
  rw [Frame.readAll_behind _ _ _ holds.whole, Frame.readAll_ofEntry _ replayable]

/-- Where nothing fails an append succeeds, unless an earlier one could not be undone. -/
theorem append_calm (usable : journal.poisoned = false) (faults : disk.faults = {}) (now : Instant)
    (changes : List Change) :
    ∃ disk', journal.append now changes disk =
        (.ok journal.next, { journal with next := journal.next + 1 }, disk') ∧
      disk'.faults = {} := by
  have all (count : Nat) : disk.faults.accepted count = count := by rw [faults]; rfl
  have synced : disk.faults.refuseSync = false := by rw [faults]; rfl
  have spent (count : Nat) : disk.faults.spend count = {} := by rw [faults]; rfl
  unfold append
  simp only [usable, all, synced, spent, Bool.false_eq_true, if_false, and_self, if_true]
  exact ⟨_, rfl, by unfold Disk.setOpened; split <;> rfl⟩

theorem append_refused (poisoned : journal.poisoned = true) {now : Instant} {changes : List Change}
    {cause : JournalFault}
    (failed : journal.append now changes disk = (.error cause, after, written)) :
    after = journal ∧ written = disk := by
  unfold append at failed
  rw [if_pos poisoned] at failed
  cases failed
  exact ⟨rfl, rfl⟩

/-- An append that fails leaves the file as it was, or else a part of the frame that cannot be cut
off; then no appends are taken any more. -/
theorem append_failed (usable : journal.poisoned = false) (linked : disk.unlinked = none)
    (site : disk.site = .file bytes) {now : Instant} {changes : List Change} {cause : JournalFault}
    (failed : journal.append now changes disk = (.error cause, after, written)) :
    let frame := Frame.ofEntry (journal.nextEntry now changes)
    let count := disk.faults.accepted frame.length
    written.unlinked = none ∧
      ((after = journal ∧ written.site = .file bytes) ∨
        (disk.faults.failTruncate = true ∧ after.poisoned = true ∧
          written.site = .file (bytes ++ frame.take count) ∧
          (count = frame.length → disk.faults.refuseSync = true))) := by
  have frame : journal.nextFrame now changes = Frame.ofEntry (journal.nextEntry now changes) := rfl
  unfold append at failed
  simp only [usable, Bool.false_eq_true, if_false, frame, opened_file linked site] at failed
  generalize journal.nextEntry now changes = entry at failed ⊢
  split at failed
  · cases failed
  · rename_i stopped
    split at failed
    · rename_i uncut
      cases failed
      refine ⟨by simp [Disk.setOpened, linked], .inr ⟨uncut, rfl, by simp [Disk.setOpened, linked], ?_⟩⟩
      intro whole
      simpa [whole] using stopped
    · cases failed
      exact ⟨by simp [Disk.setOpened, linked], .inl ⟨rfl, by simp [Disk.setOpened, linked]⟩⟩

/-- An append that fails leaves the log with the entries it had. -/
theorem Holds.append_error (holds : journal.Holds disk bytes entries) {now : Instant}
    {changes : List Change} {cause : JournalFault}
    (replayable : (journal.nextEntry now changes).Replayable)
    (kept : ¬ disk.faults.Strand (Frame.ofEntry (journal.nextEntry now changes)).length)
    (failed : journal.append now changes disk = (.error cause, after, written)) :
    after.Holds written bytes entries := by
  cases usable : journal.poisoned with
  | true =>
    obtain ⟨rfl, rfl⟩ := append_refused usable failed
    exact holds
  | false =>
    obtain ⟨linked, ⟨_, site⟩ | ⟨uncut, poisoned, site, unsynced⟩⟩ :=
      append_failed usable holds.linked (holds.site_eq usable) failed
    · exact ⟨linked, holds.whole, [], by rw [site, List.append_nil], Frame.torn_nil, fun _ => rfl⟩
    · -- A whole frame would be read as the entry, but that is the frame that was stranded.
      refine ⟨linked, holds.whole, _, site, Frame.torn_take _ replayable _ ?_, fun clean => ?_⟩
      · apply Nat.lt_of_le_of_ne (disk.faults.accepted_le _)
        intro whole
        exact kept ⟨whole, unsynced whole, uncut⟩
      · rw [poisoned] at clean
        cases clean

/-- A frame that is all in the file, but neither synced nor cut back, is read by the next opening,
although the append failed. -/
theorem Holds.append_stranded (holds : journal.Holds disk bytes entries)
    (usable : journal.poisoned = false) (now : Instant) (changes : List Change)
    (replayable : (journal.nextEntry now changes).Replayable)
    (strand : disk.faults.Strand (Frame.ofEntry (journal.nextEntry now changes)).length) :
    ∃ cause after written, journal.append now changes disk = (.error cause, after, written) ∧
      after.poisoned = true ∧
      after.Holds written (bytes ++ Frame.ofEntry (journal.nextEntry now changes))
        (entries ++ [journal.nextEntry now changes]) := by
  have frame : journal.nextFrame now changes = Frame.ofEntry (journal.nextEntry now changes) := rfl
  have before := opened_file holds.linked (holds.site_eq usable)
  obtain ⟨all, unsynced, uncut⟩ := strand
  unfold append
  simp only [frame, before, all, usable, unsynced, uncut, Bool.false_eq_true, if_false, and_false,
    if_true, Bool.true_eq_false]
  generalize journal.nextEntry now changes = entry at replayable
  refine ⟨_, _, _, rfl, rfl, by simp [Disk.setOpened, holds.linked], ?_, [], ?_, Frame.torn_nil,
    fun _ => rfl⟩
  · rw [Frame.readAll_behind _ _ _ holds.whole, Frame.readAll_ofEntry _ replayable]
  · simp [Disk.setOpened, holds.linked]

theorem Holds.condense_ok {now : Instant} {changes : List Change}
    (replayable : (journal.nextEntry now changes).Replayable)
    (ok : journal.condense now changes disk = (.ok (), after, written)) :
    after.Holds written (Frame.ofEntry (journal.nextEntry now changes))
      [journal.nextEntry now changes] := by
  have frame : journal.nextFrame now changes = Frame.ofEntry (journal.nextEntry now changes) := rfl
  simp only [condense, frame] at ok
  generalize journal.nextEntry now changes = entry at replayable ok ⊢
  split at ok
  · cases ok
  split at ok
  · cases ok
  split at ok
  · cases ok
  split at ok
  · cases ok
  cases ok
  refine ⟨rfl, Frame.readAll_ofEntry _ replayable, [], ?_, Frame.torn_nil, fun _ => rfl⟩
  rw [List.append_nil]

theorem condense_failed {now : Instant} {changes : List Change} {cause : JournalFault}
    (failed : journal.condense now changes disk = (.error cause, after, written)) :
    after.poisoned = journal.poisoned ∧ written.site = disk.site ∧
      written.unlinked = disk.unlinked := by
  simp only [condense] at failed
  split at failed
  · cases failed
    exact ⟨rfl, rfl, rfl⟩
  split at failed
  · cases failed
    exact ⟨rfl, rfl, rfl⟩
  split at failed
  · cases failed
    exact ⟨rfl, rfl, rfl⟩
  split at failed
  · cases failed
    exact ⟨rfl, rfl, rfl⟩
  · cases failed

theorem Holds.condense_error (holds : journal.Holds disk bytes entries) {now : Instant}
    {changes : List Change} {cause : JournalFault}
    (failed : journal.condense now changes disk = (.error cause, after, written)) :
    after.Holds written bytes entries := by
  obtain ⟨usable, same, unlinked⟩ := condense_failed failed
  obtain ⟨rest, site, torn, clean⟩ := holds.file
  exact ⟨unlinked.trans holds.linked, holds.whole, rest, same.trans site, torn,
    fun open_again => clean (usable.symm.trans open_again)⟩

end SharedTree.Journal
