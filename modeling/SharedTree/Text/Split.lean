/-!
Text cut at a separator character and joined again. Main statements: `join_split` (joining the
pieces gives the text back), `split_append` (a separator between two texts separates their pieces)
and `beforeLast_eq_some` (what stands before the last separator).
-/
namespace SharedTree.Text

/-- The pieces between separators. There is one more piece than there are separators, so the empty
text has one empty piece. -/
def split (sep : Char) : List Char → List (List Char)
  | [] => [[]]
  | c :: rest =>
      if c = sep then [] :: split sep rest
      else match split sep rest with
        | [] => [[c]]
        | piece :: pieces => (c :: piece) :: pieces

def join (sep : Char) : List (List Char) → List Char
  | [] => []
  | [piece] => piece
  | piece :: rest => piece ++ sep :: join sep rest

def beforeLast (sep : Char) : List Char → Option (List Char)
  | [] => none
  | c :: rest =>
      match beforeLast sep rest with
      | some before => some (c :: before)
      | none => if c = sep then some [] else none

def beforeEach (sep : Char) : List Char → List (List Char)
  | [] => []
  | c :: rest =>
      let later := (beforeEach sep rest).map (c :: ·)
      if c = sep then [] :: later else later

theorem split_ne_nil (sep : Char) (text : List Char) : split sep text ≠ [] := by
  cases text with
  | nil => simp [split]
  | cons c rest =>
    simp only [split]
    split
    · simp
    · split <;> simp

theorem split_sep (sep : Char) (rest : List Char) :
    split sep (sep :: rest) = [] :: split sep rest := by
  simp [split]

theorem split_other (sep c : Char) (rest piece : List Char) (pieces : List (List Char))
    (other : c ≠ sep) (tail : split sep rest = piece :: pieces) :
    split sep (c :: rest) = (c :: piece) :: pieces := by
  simp [split, other, tail]

theorem join_split (sep : Char) (text : List Char) : join sep (split sep text) = text := by
  induction text with
  | nil => rfl
  | cons c rest ih =>
    match found : split sep rest with
    | [] => exact absurd found (split_ne_nil sep rest)
    | piece :: pieces =>
      rw [found] at ih
      by_cases same : c = sep
      · subst same
        rw [split_sep, found]
        simp [join, ih]
      · rw [split_other sep c rest piece pieces same found]
        cases pieces with
        | nil => simpa [join] using ih
        | cons next more => simpa [join] using ih

theorem split_append (sep : Char) (before rest : List Char) :
    split sep (before ++ sep :: rest) = split sep before ++ split sep rest := by
  induction before with
  | nil => simp [split]
  | cons c before ih =>
    match found : split sep before with
    | [] => exact absurd found (split_ne_nil sep before)
    | piece :: pieces =>
      rw [found] at ih
      by_cases same : c = sep
      · subst same
        rw [List.cons_append, split_sep, split_sep, ih, found]
        rfl
      · rw [List.cons_append, split_other sep c before piece pieces same found]
        exact split_other sep c _ piece (pieces ++ split sep rest) same ih

theorem split_free (sep : Char) (text : List Char) (free : sep ∉ text) :
    split sep text = [text] := by
  induction text with
  | nil => rfl
  | cons c rest ih =>
    have other : c ≠ sep := fun same => free (same ▸ List.mem_cons_self)
    exact split_other sep c rest rest [] other (ih fun inside => free (List.mem_cons_of_mem c inside))

theorem split_join (sep : Char) (piece : List Char) (pieces : List (List Char))
    (free : ∀ p ∈ piece :: pieces, sep ∉ p) :
    split sep (join sep (piece :: pieces)) = piece :: pieces := by
  induction pieces generalizing piece with
  | nil => exact split_free sep piece (free piece List.mem_cons_self)
  | cons next more ih =>
    have tail := ih next fun p inside => free p (List.mem_cons_of_mem piece inside)
    show split sep (piece ++ sep :: join sep (next :: more)) = _
    rw [split_append, tail, split_free sep piece (free piece List.mem_cons_self)]
    rfl

theorem mem_split (sep c : Char) (text : List Char) (inside : c ∈ text) :
    c = sep ∨ c ∈ (split sep text).flatten := by
  induction text with
  | nil => simp at inside
  | cons d rest ih =>
    match found : split sep rest with
    | [] => exact absurd found (split_ne_nil sep rest)
    | piece :: pieces =>
      rw [found] at ih
      by_cases same : d = sep
      · subst same
        rw [split_sep, found]
        rcases List.mem_cons.mp inside with equal | later
        · exact Or.inl equal
        · simpa using ih later
      · rw [split_other sep d rest piece pieces same found]
        rcases List.mem_cons.mp inside with equal | later
        · right
          simp [equal]
        · rcases ih later with equal | covered
          · exact Or.inl equal
          · right
            simp only [List.flatten_cons, List.cons_append, List.mem_cons, List.mem_append] at covered ⊢
            exact Or.inr covered

theorem beforeLast_eq_none (sep : Char) (text : List Char) :
    beforeLast sep text = none ↔ sep ∉ text := by
  induction text with
  | nil => simp [beforeLast]
  | cons c rest ih =>
    simp only [beforeLast, List.mem_cons, not_or]
    cases found : beforeLast sep rest with
    | some before =>
      have inside : sep ∈ rest := by
        rw [found] at ih
        simpa using ih
      simp [inside]
    | none =>
      have outside := ih.mp found
      by_cases same : c = sep
      · simp [same]
      · simp [same, outside, Ne.symm same]

theorem beforeLast_eq_some (sep : Char) (text before : List Char)
    (found : beforeLast sep text = some before) :
    ∃ last, text = before ++ sep :: last ∧ sep ∉ last := by
  induction text generalizing before with
  | nil => simp [beforeLast] at found
  | cons c rest ih =>
    simp only [beforeLast] at found
    cases tail : beforeLast sep rest with
    | some inner =>
      rw [tail] at found
      obtain ⟨last, equal, free⟩ := ih inner tail
      have shape : before = c :: inner := by simpa using found.symm
      exact ⟨last, by rw [shape, equal]; rfl, free⟩
    | none =>
      rw [tail] at found
      by_cases same : c = sep
      · have shape : before = [] := by simpa [same] using found.symm
        exact ⟨rest, by rw [shape, same]; rfl, (beforeLast_eq_none sep rest).mp tail⟩
      · simp [same] at found

theorem mem_beforeEach (sep : Char) (text before : List Char)
    (inside : before ∈ beforeEach sep text) : ∃ last, text = before ++ sep :: last := by
  induction text generalizing before with
  | nil => simp [beforeEach] at inside
  | cons c rest ih =>
    have later (found : before ∈ (beforeEach sep rest).map (c :: ·)) :
        ∃ last, c :: rest = before ++ sep :: last := by
      obtain ⟨inner, member, equal⟩ := List.mem_map.mp found
      obtain ⟨last, shape⟩ := ih inner member
      exact ⟨last, by rw [← equal, shape]; rfl⟩
    simp only [beforeEach] at inside
    split at inside
    · rename_i same
      rcases List.mem_cons.mp inside with empty | found
      · exact ⟨rest, by simp [empty, same]⟩
      · exact later found
    · exact later inside

end SharedTree.Text
