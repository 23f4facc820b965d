import SharedTree.Proofs.Journal.Opening
/-!
A damaged byte in a log file. No two bodies differ in one place only, since the checksum tells them
apart or is itself the place (`body_injective`). So a frame with one changed byte behind its length
is no frame, and a log is opened with the entries before it (`damage_detected`).
-/
namespace SharedTree.Journal

namespace Frame

variable {front back text other : List UInt8} {a b : UInt8}

theorem word_injective (first second : BitVec 32) (same : word first.toNat = word second.toNat) :
    first = second := by
  have read := congrArg (fun bytes => readWord? (bytes ++ [])) same
  simp only [readWord_word _ first.isLt, readWord_word _ second.isLt, Option.some.injEq,
    Prod.mk.injEq, and_true] at read
  exact BitVec.eq_of_toNat_eq read

theorem body_take (text : List UInt8) : (body text).take text.length = text := List.take_left

theorem body_drop (text : List UInt8) :
    (body text).drop text.length = word (Checksum.crc32 text).toNat := List.drop_left

/-- Bodies that are the same everywhere but in one place are the same there too. -/
theorem body_injective (first : body text = front ++ a :: back)
    (second : body other = front ++ b :: back) : a = b := by
  have lengths : text.length = other.length := by
    have whole := congrArg List.length first
    have whole' := congrArg List.length second
    simp only [body_length, List.length_append, List.length_cons] at whole whole'
    omega
  have text_eq := body_take text
  have other_eq := body_take other
  rw [first] at text_eq
  rw [second, ← lengths] at other_eq
  rcases Nat.lt_or_ge front.length text.length with early | late
  · -- The place is in the text. The checksums are the same, so the texts are too.
    obtain ⟨count, inside⟩ := Nat.exists_eq_add_of_lt early
    have sum := body_drop text
    have other_sum := body_drop other
    rw [first, inside, Nat.add_assoc, List.drop_length_add_append, List.drop_succ_cons] at sum
    rw [second, ← lengths, inside, Nat.add_assoc, List.drop_length_add_append,
      List.drop_succ_cons] at other_sum
    have checksums := word_injective _ _ (sum.symm.trans other_sum)
    rw [inside, Nat.add_assoc, List.take_length_add_append, List.take_succ_cons] at text_eq other_eq
    rw [← text_eq, ← other_eq] at checksums
    exact Checksum.crc32_injective _ _ a b checksums
  · -- The place is in the checksum. The texts are the same, so the checksums are too.
    rw [List.take_append_of_le_length late] at text_eq other_eq
    rw [← other_eq, text_eq] at second
    exact (List.cons.inj (List.append_cancel_left (first.symm.trans second))).1

/-- A frame is not read if one byte behind its length is changed. -/
theorem read_changed (inside : body text = front ++ a :: back) (short : text.length + 4 ≤ maxBody)
    (changed : b ≠ a) (rest : List UInt8) :
    read? (word (text.length + 4) ++ (front ++ b :: back ++ rest)) = none := by
  have length : (front ++ b :: back).length = text.length + 4 := by
    rw [← body_length, inside, List.length_append, List.length_append, List.length_cons,
      List.length_cons]
  rw [← length, read_inside _ rest (by omega) (by omega), Option.map_eq_none_iff]
  cases found : readBody? (front ++ b :: back) with
  | none => rfl
  | some entry =>
    obtain ⟨other, same, _⟩ := readBody_eq (by omega) found
    exact absurd (body_injective inside same.symm).symm changed

end Frame

/-- The bytes with one of them changed in the places of the given bits. -/
def damaged (bytes : List UInt8) (place : Nat) (bits : UInt8) : List UInt8 :=
  bytes.modify place (· ^^^ bits)

theorem damaged_at (front back : List UInt8) (byte bits : UInt8) :
    damaged (front ++ byte :: back) front.length bits = front ++ (byte ^^^ bits) :: back :=
  List.modifyTailIdx_add (List.modifyHead (· ^^^ bits)) 0 front (byte :: back)

theorem xor_ne (byte : UInt8) {bits : UInt8} (some_bit : bits ≠ 0) : byte ^^^ bits ≠ byte := by
  intro same
  apply some_bit
  have undone := congrArg (byte ^^^ ·) same
  simpa [← UInt8.xor_assoc] using undone

theorem exists_at (bytes : List UInt8) {place : Nat} (inside : place < bytes.length) :
    ∃ front byte back, bytes = front ++ byte :: back ∧ front.length = place :=
  ⟨bytes.take place, bytes[place], bytes.drop (place + 1),
    by rw [← List.drop_eq_getElem_cons inside, List.take_append_drop],
    by rw [List.length_take]; omega⟩

variable {before behind found : List Entry} {entry : Entry} {disk : Disk} {place : Nat}
  {bits : UInt8}

/-- The log with a changed byte in the frame of an entry, where the byte is in the body. -/
theorem damaged_log {front back : List UInt8} {byte : UInt8}
    (inside : Frame.body (Frame.payload entry) = front ++ byte :: back) :
    damaged (mark ++ Frame.frames (before ++ entry :: behind))
        ((mark ++ Frame.frames before).length + 4 + front.length) bits =
      mark ++ (Frame.frames before ++ (Frame.word ((Frame.payload entry).length + 4) ++
        (front ++ (byte ^^^ bits) :: back ++ Frame.frames behind))) := by
  have split : mark ++ Frame.frames (before ++ entry :: behind) =
      (mark ++ Frame.frames before ++ Frame.word ((Frame.payload entry).length + 4) ++ front) ++
        byte :: (back ++ Frame.frames behind) := by
    rw [Frame.frames_append, Frame.frames_cons, Frame.ofEntry, inside]
    simp only [List.append_assoc, List.cons_append]
  have length : (mark ++ Frame.frames before).length + 4 + front.length =
      (mark ++ Frame.frames before ++ Frame.word ((Frame.payload entry).length + 4) ++
        front).length := by
    simp only [List.length_append, Frame.word_length]
  rw [split, length, damaged_at]
  simp only [List.append_assoc, List.cons_append]

/-- A log in which one byte of a frame's text or checksum is changed is opened with the entries that
are read from the frames before it, and is cut off where the frame starts. -/
theorem damage_detected (readable : Frame.Run (Frame.frames before) found)
    (short : (Frame.payload entry).length + 4 ≤ Frame.maxBody)
    (inside : place < (Frame.payload entry).length + 4) (some_bit : bits ≠ 0)
    (site : disk.site = .file (damaged (mark ++ Frame.frames (before ++ entry :: behind))
      ((mark ++ Frame.frames before).length + 4 + place) bits))
    (calm : disk.faults = {}) (directory : String) :
    ((∀ earlier ∈ before, earlier.Replayable) → found = before) ∧
      ∃ journal, openLog directory disk =
        (.ok (journal, found), disk.trimmed (Frame.frames before)) := by
  refine ⟨fun replayable => ?_, ?_⟩
  · have read := (Frame.run_iff.mp readable).symm.trans (Frame.readAll_frames before replayable)
    exact (Prod.mk.inj read).1
  · obtain ⟨front, byte, back, body, rfl⟩ := exists_at (Frame.body (Frame.payload entry))
      (by rwa [Frame.body_length])
    rw [damaged_log body] at site
    have unread := Frame.readAll_none _ (Frame.read_changed body short (xor_ne byte some_bit)
      (Frame.frames behind))
    have read := readable.readAll (Frame.word ((Frame.payload entry).length + 4) ++
      (front ++ (byte ^^^ bits) :: back ++ Frame.frames behind))
    rw [unread, List.append_nil] at read
    have opened := openLog_trims site (by rw [calm]) (by rw [read]) directory
    rw [read] at opened
    exact ⟨_, opened⟩

namespace Sample

def second : Entry := { deletion with sequence := 7 }

def third : Entry := { deletion with sequence := 8 }

def spoilt : Disk :=
  { site := .file (damaged (mark ++ Frame.frames ([deletion] ++ second :: [third]))
      ((mark ++ Frame.frames [deletion]).length + 4 + 19) 0x20) }

end Sample

theorem sample_damage_detected :
    (∀ earlier ∈ [Sample.deletion], earlier.Replayable) ∧
      ∃ journal, openLog "journal" Sample.spoilt =
        (.ok (journal, [Sample.deletion]),
          Sample.spoilt.trimmed (Frame.frames [Sample.deletion])) := by
  have replayable : ∀ earlier ∈ [Sample.deletion], earlier.Replayable := by decide +kernel
  have short : (Frame.payload Sample.second).length + 4 ≤ Frame.maxBody := by decide +kernel
  have inside : 19 < (Frame.payload Sample.second).length + 4 := by decide +kernel
  have readable := Frame.run_iff.mpr (Frame.readAll_frames _ replayable)
  exact ⟨replayable, (damage_detected readable short inside (by decide) rfl rfl "journal").2⟩

end SharedTree.Journal
