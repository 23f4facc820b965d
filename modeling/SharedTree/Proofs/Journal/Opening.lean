import SharedTree.Proofs.Journal.Log
/-!
Opening a file with any bytes in it. Reading takes the longest run of frames at the start
(`longest_readAll`). So a file that is not refused is cut down to the mark and that run, and opening
it once more changes nothing (`opening_normalizes`).
-/
namespace SharedTree.Journal

namespace Frame

inductive Run : List UInt8 → List Entry → Prop where
  | nil : Run [] []
  | cons {frame bytes : List UInt8} {entry : Entry} {entries : List Entry} :
      Tells frame entry → Run bytes entries → Run (frame ++ bytes) (entry :: entries)

structure Longest (bytes kept : List UInt8) (entries : List Entry) : Prop where
  run : Run kept entries
  front : kept <+: bytes
  farthest : ∀ others more, Run others more → others <+: bytes → others <+: kept ∧ more <+: entries

variable {bytes kept : List UInt8} {entries : List Entry}

/-- A run is what is read to the end. -/
theorem run_iff : Run bytes entries ↔ readAll bytes = (entries, []) := by
  constructor
  · intro run
    induction run with
    | nil => exact readAll_nil
    | cons told run ih => rw [readAll_some _ _ _ (told.read _), ih]
  · intro whole
    induction entries generalizing bytes with
    | nil =>
      obtain ⟨rfl, _⟩ | ⟨_, _, _, _, cons, _⟩ := readAll_whole bytes [] whole
      · exact .nil
      · cases cons
    | cons first rest ih =>
      obtain ⟨_, nil⟩ | ⟨entry, tail, later, read, cons, behind⟩ := readAll_whole bytes _ whole
      · cases nil
      · cases cons
        obtain ⟨frame, told, rfl⟩ := read_iff.mp read
        exact .cons told (ih behind)

theorem Run.readAll (run : Run kept entries) (behind : List UInt8) :
    readAll (kept ++ behind) = (entries ++ (readAll behind).1, (readAll behind).2) :=
  readAll_behind kept behind entries (run_iff.mp run)

/-- What is read of any bytes is their longest run, and what is left over stands behind it. -/
theorem longest_readAll (bytes : List UInt8) :
    ∃ kept, Longest bytes kept (readAll bytes).1 ∧ bytes = kept ++ (readAll bytes).2 := by
  obtain ⟨kept, split, whole⟩ := readAll_kept bytes
  refine ⟨kept, ⟨run_iff.mpr whole, ⟨_, split.symm⟩, ?_⟩, split⟩
  rintro others more run ⟨behind, rfl⟩
  -- The frames of the other run are read first, and then those that stand behind it.
  obtain ⟨further, rest, _⟩ := readAll_kept behind
  rw [run.readAll behind] at split ⊢
  refine ⟨⟨further, ?_⟩, List.prefix_append more _⟩
  apply (List.append_left_inj (Frame.readAll behind).2).mp
  rw [← split, List.append_assoc, ← rest]

end Frame

variable {disk : Disk} {bytes : List UInt8}

/-! Opening. -/

theorem openLog_foreign (site : disk.site = .file bytes) (long : mark.length ≤ bytes.length)
    (foreign : ¬ mark <+: bytes) (directory : String) :
    openLog directory disk = (.error (.foreignFile (logName directory)), disk) := by
  have other : bytes.take mark.length ≠ mark := by
    intro same
    exact foreign ⟨_, same ▸ List.take_append_drop mark.length bytes⟩
  simp only [openLog, site, if_neg (Nat.not_lt.mpr long), if_pos other]

/-- What is not refused is cut down to the longest run of frames behind the mark. -/
theorem openLog_known (site : disk.site = .file bytes) (calm : disk.faults = {})
    (known : bytes.length < mark.length ∨ mark <+: bytes) (directory : String) :
    ∃ journal kept entries, Frame.Longest (bytes.drop mark.length) kept entries ∧
      openLog directory disk = (.ok (journal, entries), disk.trimmed kept) := by
  obtain ⟨kept, longest, split⟩ := Frame.longest_readAll (bytes.drop mark.length)
  rcases known with short | ⟨behind, rfl⟩
  · rw [List.drop_of_length_le (Nat.le_of_lt short), Frame.readAll_nil] at longest split
    obtain ⟨rfl, _⟩ := List.append_eq_nil_iff.mp split.symm
    rw [List.drop_of_length_le (Nat.le_of_lt short)]
    exact ⟨_, [], [], longest, openLog_starts site short calm directory⟩
  · rw [List.drop_left] at longest split ⊢
    exact ⟨_, kept, _, longest, openLog_trims site (by rw [calm]) split directory⟩

/-- A run behind the mark is opened with its entries, and the file stays as it is. -/
theorem openLog_run {kept : List UInt8} {entries : List Entry} (run : Frame.Run kept entries)
    (calm : disk.faults = {}) (directory : String) :
    ∃ journal, openLog directory (disk.trimmed kept) =
      (.ok (journal, entries), disk.trimmed kept) := by
  have whole := Frame.run_iff.mp run
  have site : (disk.trimmed kept).site = .file (mark ++ kept) := rfl
  have opened := openLog_trims site (by rw [Disk.trimmed, calm]) (by rw [whole, List.append_nil])
    directory
  rw [whole] at opened
  exact ⟨_, opened⟩

/-- A file is refused if it is as long as the mark but does not begin with it. Any other is opened,
with the entries of the longest run of frames behind the mark, and cut down to that run; opening it
again answers the same entries and leaves it alone. -/
theorem opening_normalizes (site : disk.site = .file bytes) (calm : disk.faults = {})
    (directory : String) :
    (mark.length ≤ bytes.length ∧ ¬ mark <+: bytes ∧
        openLog directory disk = (.error (.foreignFile (logName directory)), disk)) ∨
      ((bytes.length < mark.length ∨ mark <+: bytes) ∧
        ∃ journal kept entries, Frame.Longest (bytes.drop mark.length) kept entries ∧
          (bytes.length < mark.length → entries = []) ∧
          openLog directory disk = (.ok (journal, entries), disk.trimmed kept) ∧
          ∀ elsewhere, ∃ again,
            openLog elsewhere (disk.trimmed kept) = (.ok (again, entries), disk.trimmed kept)) := by
  by_cases known : bytes.length < mark.length ∨ mark <+: bytes
  · obtain ⟨journal, kept, entries, longest, opened⟩ := openLog_known site calm known directory
    refine Or.inr ⟨known, journal, kept, entries, longest, fun short => ?_, opened,
      openLog_run longest.run calm⟩
    have answered := (openLog_starts site short calm directory).symm.trans opened
    cases answered
    rfl
  · obtain ⟨long, foreign⟩ := not_or.mp known
    exact Or.inl ⟨Nat.not_lt.mp long, foreign,
      openLog_foreign site (Nat.not_lt.mp long) foreign directory⟩

namespace Sample

def deletion : Entry := ⟨6, 1500, [.deleteItem (.ofNat 1)]⟩

def padding : List UInt8 := [0, 0, 0, 4, 0, 0, 0, 0]

def padded : Disk := { site := .file (mark ++ (Frame.ofEntry deletion ++ padding)) }

end Sample

theorem sample_opening_normalizes :
    let opened := Sample.padded.trimmed (Frame.ofEntry Sample.deletion)
    (∃ journal, openLog "journal" Sample.padded = (.ok (journal, [Sample.deletion]), opened)) ∧
      ∃ again, openLog "elsewhere" opened = (.ok (again, [Sample.deletion]), opened) := by
  have read : Frame.readAll (Frame.ofEntry Sample.deletion ++ Sample.padding) =
      ([Sample.deletion], Sample.padding) := by
    rw [Frame.readAll_behind _ _ _ (Frame.readAll_ofEntry _ (by decide +kernel)),
      Frame.readAll_none _ (by decide +kernel)]
    rfl
  obtain ⟨_, foreign, _⟩ | ⟨_, journal, kept, entries, _, _, opened, again⟩ :=
    opening_normalizes (rfl : Sample.padded.site = _) rfl "journal"
  · exact absurd ⟨_, rfl⟩ foreign
  · have trims := openLog_trims (rfl : Sample.padded.site = _) rfl (by rw [read]) "journal"
    rw [read] at trims
    obtain ⟨answered, left⟩ := Prod.mk.inj (opened.symm.trans trims)
    cases answered
    rw [left] at opened again
    exact ⟨⟨_, opened⟩, again "elsewhere"⟩

end SharedTree.Journal
