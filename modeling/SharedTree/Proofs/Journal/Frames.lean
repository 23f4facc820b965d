import SharedTree.Proofs.Journal.Rows
/-!
Frames in a file. What is read is a frame at the start, told by its parts (`read_iff`). The frame of
an entry is read as that entry, whatever stands behind it (`read_ofEntry`), and no part of it is
read as anything (`read_cut`). So frames that stand one behind the other are read in their order
(`readAll_frames`), also if the file was cut off in the middle of one (`frames_cut`).
-/
namespace SharedTree.Journal.Frame

/-- True of the bytes of one frame in which the entry can be read: the length, which is not too
large, the text of the entry, and its checksum. -/
def Tells (frame : List UInt8) (entry : Entry) : Prop :=
  ∃ text, frame = word (text.length + 4) ++ body text ∧ text.length + 4 ≤ maxBody ∧
    Entry.ofText? text = some entry

/-! Words and runs of bytes. -/

theorem readWord_word (number : Nat) (small : number < 4294967296) (rest : List UInt8) :
    readWord? (word number ++ rest) = some (number, rest) := by
  have digits : number / 16777216 % 256 * 16777216 + number / 65536 % 256 * 65536 +
      number / 256 % 256 * 256 + number % 256 = number := by omega
  simp [word, readWord?, UInt8.toNat_ofNat', digits]

theorem readWord_eq {bytes rest : List UInt8} {number : Nat}
    (read : readWord? bytes = some (number, rest)) : bytes = word number ++ rest := by
  match bytes, read with
  | a :: b :: c :: d :: behind, read =>
    simp only [readWord?, Option.some.injEq, Prod.mk.injEq] at read
    obtain ⟨rfl, rfl⟩ := read
    have digits := And.intro (And.intro a.toNat_lt b.toNat_lt) (And.intro c.toNat_lt d.toNat_lt)
    simp only [word, List.cons_append, List.nil_append, List.cons.injEq, and_true,
      ← UInt8.toNat_inj, UInt8.toNat_ofNat']
    omega

theorem word_length (number : Nat) : (word number).length = 4 := rfl

theorem readBytes_run (taken rest : List UInt8) :
    readBytes? taken.length (taken ++ rest) = some (taken, rest) := by
  simp [readBytes?]

theorem readBytes_short (count : Nat) (bytes : List UInt8) (short : bytes.length < count) :
    readBytes? count bytes = none := by
  have fewer : ¬ (bytes.take count).length = count := by
    rw [List.length_take]
    omega
  exact if_neg fewer

/-! One frame. -/

theorem body_length (text : List UInt8) : (body text).length = text.length + 4 := by
  simp [body, word_length]

theorem ofEntry_length (entry : Entry) : (ofEntry entry).length = (payload entry).length + 8 := by
  simp only [ofEntry, List.length_append, word_length, body_length]
  omega

theorem readBody_body (text : List UInt8) : readBody? (body text) = Entry.ofText? text := by
  have length : (body text).length - 4 = text.length := by simp [body_length]
  have sum : readWord? (word (Checksum.crc32 text).toNat) =
      some ((Checksum.crc32 text).toNat, []) := by
    have read := readWord_word _ (Checksum.crc32 text).isLt []
    rwa [List.append_nil] at read
  rw [readBody?, length, body, readBytes_run]
  simp only [Option.bind_eq_bind, Option.bind_some, sum, if_true]

theorem readBody_eq {inside : List UInt8} {entry : Entry} (long : 4 ≤ inside.length)
    (read : readBody? inside = some entry) :
    ∃ text, inside = body text ∧ Entry.ofText? text = some entry := by
  obtain ⟨text, sum, split, four⟩ : ∃ text sum, inside = text ++ sum ∧ sum.length = 4 :=
    ⟨inside.take (inside.length - 4), inside.drop (inside.length - 4),
      (List.take_append_drop _ _).symm, by rw [List.length_drop]; omega⟩
  have length : inside.length - 4 = text.length := by
    rw [split, List.length_append]
    omega
  rw [readBody?, length, split, readBytes_run] at read
  simp only [Option.bind_eq_bind, Option.bind_some] at read
  cases found : readWord? sum with
  | none => simp [found] at read
  | some parts =>
    obtain ⟨number, behind⟩ := parts
    have nothing : behind = [] := by
      have shorter := readWord_length sum number behind found
      exact List.length_eq_zero_iff.mp (by omega)
    simp only [found, Option.bind_some] at read
    split at read
    · rename_i right
      refine ⟨text, ?_, read⟩
      rw [split, readWord_eq found, nothing, List.append_nil, ← right, body]
    · cases read

/-- A frame is read as what its body is read as, if the length in front of it is right. -/
theorem read_inside (inside rest : List UInt8) (least : 4 ≤ inside.length)
    (most : inside.length ≤ maxBody) :
    read? (word inside.length ++ (inside ++ rest)) =
      (readBody? inside).map fun found => (found, rest) := by
  have header := readWord_word inside.length (by unfold maxBody at most; omega) (inside ++ rest)
  simp only [read?, header, Option.bind_eq_bind, Option.bind_some, if_pos (And.intro least most),
    readBytes_run]
  cases readBody? inside <;> rfl

/-- A frame that is not too long is read as what its text is read as. -/
theorem read_payload (entry : Entry) (short : (payload entry).length + 4 ≤ maxBody)
    (rest : List UInt8) :
    read? (ofEntry entry ++ rest) =
      (Entry.ofText? (payload entry)).map fun found => (found, rest) := by
  have length := body_length (payload entry)
  rw [ofEntry, List.append_assoc, ← length, read_inside _ rest (by omega) (by omega), readBody_body]

theorem read_ofEntry (entry : Entry) (replayable : entry.Replayable) (rest : List UInt8) :
    read? (ofEntry entry ++ rest) = some (entry, rest) := by
  rw [read_payload entry replayable.short, entry.ofText_payload replayable, Option.map_some]

/-- No part of a frame is read as anything. -/
theorem read_cut (entry : Entry) (replayable : entry.Replayable) (count : Nat)
    (short : count < (ofEntry entry).length) : read? ((ofEntry entry).take count) = none := by
  have limit := replayable.short
  rw [ofEntry_length] at short
  by_cases word_cut : count < 4
  · -- Not even the length is there.
    cases header : readWord? ((ofEntry entry).take count) with
    | none => simp [read?, header]
    | some parts =>
      have four := readWord_length _ parts.1 parts.2 header
      rw [List.length_take] at four
      omega
  · -- The length is there, but the body that it tells is not.
    have front : (ofEntry entry).take count =
        word ((payload entry).length + 4) ++ (body (payload entry)).take (count - 4) := by
      rw [ofEntry, List.take_append, List.take_of_length_le (by rw [word_length]; omega),
        word_length]
    have header := readWord_word ((payload entry).length + 4) (by unfold maxBody at limit; omega)
      ((body (payload entry)).take (count - 4))
    have missing : readBytes? ((payload entry).length + 4)
        ((body (payload entry)).take (count - 4)) = none := by
      apply readBytes_short
      rw [List.length_take]
      omega
    rw [front]
    simp [read?, header, missing]

/-- What is read is a frame at the start. -/
theorem read_iff {bytes tail : List UInt8} {entry : Entry} :
    read? bytes = some (entry, tail) ↔ ∃ frame, Tells frame entry ∧ bytes = frame ++ tail := by
  constructor
  · intro read
    obtain ⟨length, rest, inside, header, least, most, split, body⟩ :=
      read_parts bytes entry tail read
    obtain ⟨rfl, rfl⟩ := readBytes_append length rest inside tail split
    obtain ⟨text, rfl, told⟩ := readBody_eq least body
    rw [body_length] at header most
    exact ⟨_, ⟨text, rfl, most, told⟩, by rw [readWord_eq header, List.append_assoc]⟩
  · rintro ⟨_, ⟨text, rfl, short, told⟩, rfl⟩
    have length := body_length text
    rw [List.append_assoc, ← length, read_inside _ tail (by omega) (by omega), readBody_body, told,
      Option.map_some]

theorem Tells.read {frame : List UInt8} {entry : Entry} (told : Tells frame entry)
    (rest : List UInt8) : read? (frame ++ rest) = some (entry, rest) :=
  read_iff.mpr ⟨frame, told, rfl⟩

/-- What is read does not depend on what stands behind it. -/
theorem read_append (bytes : List UInt8) (entry : Entry) (tail more : List UInt8)
    (read : read? bytes = some (entry, tail)) :
    read? (bytes ++ more) = some (entry, tail ++ more) := by
  obtain ⟨frame, told, rfl⟩ := read_iff.mp read
  rw [List.append_assoc]
  exact told.read (tail ++ more)

/-! Frames in a row. -/

theorem readAll_none (bytes : List UInt8) (none : read? bytes = none) :
    readAll bytes = ([], bytes) := by
  unfold readAll
  split
  · rfl
  · rename_i found
    rw [none] at found
    cases found

theorem readAll_some (bytes : List UInt8) (entry : Entry) (tail : List UInt8)
    (read : read? bytes = some (entry, tail)) :
    readAll bytes = (entry :: (readAll tail).1, (readAll tail).2) := by
  conv => lhs; unfold readAll
  split
  · rename_i found
    rw [read] at found
    cases found
  · rename_i found
    rw [read] at found
    cases found
    rfl

theorem readAll_nil : readAll [] = ([], []) := readAll_none [] rfl

/-- Bytes that are read to the end are none, or else a frame and behind it such bytes again. -/
theorem readAll_whole (bytes : List UInt8) (entries : List Entry)
    (whole : readAll bytes = (entries, [])) :
    (bytes = [] ∧ entries = []) ∨ ∃ entry tail later, read? bytes = some (entry, tail) ∧
      entries = entry :: later ∧ readAll tail = (later, []) := by
  cases read : read? bytes with
  | none =>
    rw [readAll_none bytes read] at whole
    exact Or.inl ⟨(Prod.mk.inj whole).2, (Prod.mk.inj whole).1.symm⟩
  | some parts =>
    rw [readAll_some bytes parts.1 parts.2 read] at whole
    obtain ⟨first, rest⟩ := Prod.mk.inj whole
    exact Or.inr ⟨parts.1, parts.2, _, rfl, first.symm, Prod.ext rfl rest⟩

/-- What stands behind frames that are read to the end is read next. -/
theorem readAll_behind (bytes more : List UInt8) (entries : List Entry)
    (whole : readAll bytes = (entries, [])) :
    readAll (bytes ++ more) = (entries ++ (readAll more).1, (readAll more).2) := by
  -- By induction on what is read: the bytes need not be those that the entries would be written as.
  induction entries generalizing bytes with
  | nil =>
    obtain ⟨rfl, _⟩ | ⟨entry, tail, later, _, cons, _⟩ := readAll_whole bytes [] whole
    · rfl
    · cases cons
  | cons first rest ih =>
    obtain ⟨_, nil⟩ | ⟨entry, tail, later, read, cons, behind⟩ := readAll_whole bytes _ whole
    · cases nil
    · cases cons
      rw [readAll_some _ first _ (read_append bytes first tail more read), ih tail behind]
      rfl

/-- Frames that were read are read to the end without what stands behind them. -/
theorem readAll_kept (bytes : List UInt8) :
    ∃ kept, bytes = kept ++ (readAll bytes).2 ∧ readAll kept = ((readAll bytes).1, []) := by
  fun_induction readAll bytes with
  | case1 bytes none => exact ⟨[], rfl, readAll_nil⟩
  | case2 bytes entry tail found shorter entries rest equal ih =>
    obtain ⟨frame, told, front⟩ := read_iff.mp found
    obtain ⟨kept, back, whole⟩ := ih
    rw [equal] at back whole
    refine ⟨frame ++ kept, by rw [front, List.append_assoc, ← back], ?_⟩
    rw [readAll_some _ entry kept (told.read kept), whole]

def frames (entries : List Entry) : List UInt8 := entries.flatMap ofEntry

theorem frames_append (first second : List Entry) :
    frames (first ++ second) = frames first ++ frames second := List.flatMap_append

theorem frames_cons (entry : Entry) (rest : List Entry) :
    frames (entry :: rest) = ofEntry entry ++ frames rest := List.flatMap_cons

theorem frames_single (entry : Entry) : frames [entry] = ofEntry entry := by simp [frames]

theorem readAll_ofEntry (entry : Entry) (replayable : entry.Replayable) :
    readAll (ofEntry entry) = ([entry], []) := by
  have read := read_ofEntry entry replayable []
  rw [List.append_nil] at read
  rw [readAll_some _ entry [] read, readAll_nil]

theorem readAll_frames (entries : List Entry) (replayable : ∀ entry ∈ entries, entry.Replayable) :
    readAll (frames entries) = (entries, []) := by
  induction entries with
  | nil => exact readAll_nil
  | cons entry rest ih =>
    have first := readAll_ofEntry entry (replayable entry List.mem_cons_self)
    have later := ih fun e inside => replayable e (List.mem_cons_of_mem entry inside)
    rw [frames_cons, readAll_behind _ _ _ first, later]
    rfl

/-- True of bytes that a write can leave behind which did not get through: no frame, but a part
of one. -/
def Torn (rest : List UInt8) : Prop :=
  rest = [] ∨ ∃ (entry : Entry) (count : Nat), entry.Replayable ∧ count < (ofEntry entry).length ∧
    rest = (ofEntry entry).take count

theorem torn_nil : Torn [] := .inl rfl

theorem torn_take (entry : Entry) (replayable : entry.Replayable) (count : Nat)
    (short : count < (ofEntry entry).length) : Torn ((ofEntry entry).take count) :=
  .inr ⟨entry, count, replayable, short, rfl⟩

theorem Torn.readAll {rest : List UInt8} (torn : Torn rest) : readAll rest = ([], rest) := by
  rcases torn with rfl | ⟨entry, count, replayable, short, rfl⟩
  · exact readAll_nil
  · exact readAll_none _ (read_cut entry replayable count short)

theorem Torn.take {rest : List UInt8} (torn : Torn rest) (limit : Nat) : Torn (rest.take limit) := by
  rcases torn with rfl | ⟨entry, count, replayable, short, rfl⟩
  · rw [List.take_nil]
    exact torn_nil
  · rw [List.take_take]
    exact torn_take entry replayable _ (by omega)

/-- The first bytes of frames, and of a part of a frame behind them, are the frames that fit in and
again a part of a frame. -/
theorem frames_cut (entries : List Entry) (replayable : ∀ entry ∈ entries, entry.Replayable)
    {rest : List UInt8} (torn : Torn rest) (limit : Nat) :
    ∃ kept left, (frames entries ++ rest).take limit = frames (entries.take kept) ++ left ∧
      Torn left ∧ kept ≤ entries.length ∧ (frames (entries.take kept)).length ≤ limit ∧
      ∀ more, kept < more → more ≤ entries.length →
        limit < (frames (entries.take more)).length := by
  induction entries generalizing limit with
  | nil => exact ⟨0, rest.take limit, rfl, torn.take limit, by simp, by simp [frames], by simp; omega⟩
  | cons entry later ih =>
    have first := replayable entry List.mem_cons_self
    have split : frames (entry :: later) ++ rest = ofEntry entry ++ (frames later ++ rest) := by
      rw [frames_cons, List.append_assoc]
    by_cases whole : (ofEntry entry).length ≤ limit
    · -- The first frame fits in; the others are cut where the limit is by then.
      obtain ⟨kept, left, cut, torn, within, fits, longest⟩ :=
        ih (fun e inside => replayable e (List.mem_cons_of_mem entry inside))
          (limit - (ofEntry entry).length)
      have before (count : Nat) : frames ((entry :: later).take (count + 1)) =
          ofEntry entry ++ frames (later.take count) := rfl
      refine ⟨kept + 1, left, ?_, torn, by simpa using within, ?_, ?_⟩
      · rw [split, List.take_append, List.take_of_length_le whole, cut, before, List.append_assoc]
      · rw [before, List.length_append]
        omega
      · intro more beyond inside
        obtain ⟨less, rfl⟩ : ∃ less, more = less + 1 := ⟨more - 1, by omega⟩
        have long := longest less (by omega) (by simpa using inside)
        rw [before, List.length_append]
        omega
    · -- Not even the first fits in, so no more than none of them does.
      refine ⟨0, (ofEntry entry).take limit, ?_, torn_take entry first limit (by omega), by simp,
        by simp [frames], ?_⟩
      · rw [split, List.take_append_of_le_length (by omega)]
        rfl
      · intro more beyond inside
        obtain ⟨less, rfl⟩ : ∃ less, more = less + 1 := ⟨more - 1, by omega⟩
        show limit < (ofEntry entry ++ frames (later.take less)).length
        rw [List.length_append]
        omega

end SharedTree.Journal.Frame
