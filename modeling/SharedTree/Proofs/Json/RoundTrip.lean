import SharedTree.Json.Selection
import SharedTree.Proofs.Json.Numbers
import SharedTree.Proofs.Json.Strings
/-!
What is written as JSON is read again: a value comes back from its text, whatever stands behind the
text, if it is nested no more deeply than the reader goes and its floats read back
(`readValue_render`). An object is not read if a value that is asked for cannot be read
(`readObject_none`).
-/
namespace SharedTree

/-- True of the scalars whose text is read as themselves: all strings, the integers of 64 bits, and
most floats. -/
def Scalar.ReadsBack : Scalar → Prop
  | .integer value => Json.fits (.integer value) = true
  | .float bits => Binary64.ReadsBack bits
  | _ => True

namespace Json

mutual
def scalars : Json → List Scalar
  | .scalar value => [value]
  | .array elements => elementsScalars elements
  | .object members => membersScalars members

def elementsScalars : List Json → List Scalar
  | [] => []
  | element :: rest => element.scalars ++ elementsScalars rest

def membersScalars : List (String × Json) → List Scalar
  | [] => []
  | (_, value) :: rest => value.scalars ++ membersScalars rest
end

def ReadsBack (value : Json) : Prop := ∀ scalar ∈ value.scalars, scalar.ReadsBack

theorem readScalar_render (scalar : Scalar) (rest : List Char) (back : scalar.ReadsBack)
    (stops : Stops rest) : readScalar? (renderScalar scalar ++ rest) = some (scalar, rest) := by
  cases scalar with
  | null => simp [renderScalar, readScalar?, after?]
  | bool value => cases value <;> simp [renderScalar, readScalar?, after?]
  | integer value => exact readScalar_integer stops value back
  | float bits => exact readScalar_float stops bits back
  | string text =>
    simp only [renderScalar, quoted, List.cons_append, List.append_assoc, List.nil_append,
      readScalar?, readString_quoted, Option.map_some]

def Opens (c : Char) : Prop := isSpace c = false ∧ c ≠ ']' ∧ c ≠ '}'

instance (c : Char) : Decidable (Opens c) := inferInstanceAs (Decidable (_ ∧ _))

theorem Opens.skipSpace {c : Char} (opens : Opens c) (tail : List Char) :
    skipSpace (c :: tail) = c :: tail := by
  simp [Json.skipSpace, opens.1]

theorem digit_opens (c : Char) (digit : Decimal.isDigit c = true) :
    Opens c ∧ c ≠ '[' ∧ c ≠ '{' := by
  have apart (d : Char) (other : Decimal.isDigit d = false) : c ≠ d := by
    rintro rfl
    rw [digit] at other
    cases other
  refine ⟨⟨?_, apart _ (by decide), apart _ (by decide)⟩, apart _ (by decide), apart _ (by decide)⟩
  simp [isSpace, apart ' ' (by decide), apart '\t' (by decide), apart '\n' (by decide),
    apart '\r' (by decide)]

theorem readScalar_head (text : List Char) (value : Scalar) (final : List Char)
    (read : readScalar? text = some (value, final)) :
    ∃ c tail, text = c :: tail ∧ Opens c ∧ c ≠ '[' ∧ c ≠ '{' := by
  unfold readScalar? at read
  split at read
  · exact ⟨_, _, rfl, by decide⟩
  · exact ⟨_, _, rfl, by decide⟩
  · exact ⟨_, _, rfl, by decide⟩
  · exact ⟨_, _, rfl, by decide⟩
  · exact ⟨_, _, rfl, by decide⟩
  · obtain ⟨c, tail, rfl, digit⟩ := readUnsigned_head false _ _ _ read
    exact ⟨c, tail, rfl, digit_opens c digit⟩

theorem readValue_scalar (levels : Nat) (text : List Char) (value : Scalar) (final : List Char)
    (read : readScalar? text = some (value, final)) :
    readValue? levels text = some (.scalar value, final) := by
  obtain ⟨c, tail, rfl, _, square, curly⟩ := readScalar_head text value final read
  cases levels with
  | zero => simp [readValue?, read]
  | succ levels => simp [readValue?, square, curly, read]

theorem render_head (value : Json) (back : value.ReadsBack) :
    ∃ c tail, value.render = c :: tail ∧ Opens c := by
  cases value with
  | scalar scalar =>
    have read := readScalar_render scalar [] (back scalar (List.mem_singleton.mpr rfl)) stops_nil
    rw [List.append_nil] at read
    obtain ⟨c, tail, front, opens, _⟩ := readScalar_head _ _ _ read
    exact ⟨c, tail, front, opens⟩
  | array elements => exact ⟨'[', _, rfl, by decide⟩
  | object members => exact ⟨'{', _, rfl, by decide⟩

theorem stops_elements (elements : List Json) (rest : List Char) :
    Stops (renderMoreElements elements ++ rest) := by
  cases elements with
  | nil => exact stops_cons ']' rest (by decide)
  | cons element more => exact stops_cons ',' _ (by decide)

theorem stops_members (members : List (String × Json)) (rest : List Char) :
    Stops (renderMoreMembers members ++ rest) := by
  cases members with
  | nil => exact stops_cons '}' rest (by decide)
  | cons member more => exact stops_cons ',' _ (by decide)

/-! Each part takes a character at least, so there is always enough fuel to read them all. -/

theorem length_elements (elements : List Json) (rest : List Char) :
    elements.length < (renderMoreElements elements ++ rest).length := by
  induction elements with
  | nil => simp [renderMoreElements]
  | cons element more ih =>
    simp only [renderMoreElements, List.length_append, List.length_cons] at ih ⊢
    omega

theorem length_members (members : List (String × Json)) (rest : List Char) :
    members.length < (renderMoreMembers members ++ rest).length := by
  induction members with
  | nil => simp [renderMoreMembers]
  | cons member more ih =>
    simp only [renderMoreMembers, List.length_append, List.length_cons] at ih ⊢
    omega

theorem readMember_render (value? : List Char → Option (Json × List Char)) (key : String)
    (value : Json) (rest : List Char) (back : value.ReadsBack)
    (read : value? (value.render ++ rest) = some (value, rest)) :
    readMember? value? (quoted key ++ ':' :: (value.render ++ rest)) =
      some ((key, value), rest) := by
  obtain ⟨c, tail, front, opens⟩ := render_head value back
  have solid : skipSpace (value.render ++ rest) = value.render ++ rest := by
    rw [front]
    exact opens.skipSpace _
  have colon (text : List Char) : skipSpace (':' :: text) = ':' :: text :=
    Opens.skipSpace (by decide) text
  simp only [readMember?, quoted, List.cons_append, List.append_assoc, List.nil_append, after?,
    Option.bind_eq_bind, Option.bind_some, readString_quoted, colon, solid, read, if_true]

/-! A value with parts is its first part and the others, which the reader takes one by one. -/

theorem readValue_array (levels : Nat) (c : Char) (tail middle last : List Char) (first : Json)
    (more : List Json) (opens : Opens c) (one : readValue? levels (c :: tail) = some (first, middle))
    (others : readElements? (readValue? levels) middle.length middle = some (more, last)) :
    readValue? (levels + 1) ('[' :: c :: tail) = some (.array (first :: more), last) := by
  have inside : ¬ c = ']' := opens.2.1
  simp [readValue?, opens.skipSpace, inside, one, others]

theorem readValue_object (levels : Nat) (c : Char) (tail middle last : List Char)
    (first : String × Json) (more : List (String × Json)) (opens : Opens c)
    (one : readMember? (readValue? levels) (c :: tail) = some (first, middle))
    (others : readMembers? (readValue? levels) middle.length middle = some (more, last)) :
    readValue? (levels + 1) ('{' :: c :: tail) = some (.object (first :: more), last) := by
  have inside : ¬ c = '}' := opens.2.2
  simp [readValue?, opens.skipSpace, inside, one, others]

theorem readElements_more (value? : List Char → Option (Json × List Char)) (most : Nat) (c : Char)
    (tail middle last : List Char) (first : Json) (more : List Json) (opens : Opens c)
    (one : value? (c :: tail) = some (first, middle))
    (others : readElements? value? most middle = some (more, last)) :
    readElements? value? (most + 1) (',' :: c :: tail) = some (first :: more, last) := by
  have comma : skipSpace (',' :: c :: tail) = ',' :: c :: tail :=
    Opens.skipSpace (by decide) _
  simp [readElements?, comma, opens.skipSpace, one, others]

theorem readMembers_more (value? : List Char → Option (Json × List Char)) (most : Nat) (c : Char)
    (tail middle last : List Char) (first : String × Json) (more : List (String × Json))
    (opens : Opens c) (one : readMember? value? (c :: tail) = some (first, middle))
    (others : readMembers? value? most middle = some (more, last)) :
    readMembers? value? (most + 1) (',' :: c :: tail) = some (first :: more, last) := by
  have comma : skipSpace (',' :: c :: tail) = ',' :: c :: tail :=
    Opens.skipSpace (by decide) _
  simp [readMembers?, comma, opens.skipSpace, one, others]

mutual
/-- A value is read as it was written. -/
theorem readValue_render (value : Json) (levels : Nat) (rest : List Char)
    (deep : value.depth ≤ levels) (back : value.ReadsBack) (stops : Stops rest) :
    readValue? levels (value.render ++ rest) = some (value, rest) := by
  match value, levels, deep, back with
  | .scalar plain, levels, _, back =>
    exact readValue_scalar levels _ plain rest
      (readScalar_render plain rest (back plain (List.mem_singleton.mpr rfl)) stops)
  | .array [], levels + 1, _, _ => simp [render, renderElements, readValue?, skipSpace, isSpace]
  | .array (first :: more), levels + 1, deep, back =>
    simp only [depth, elementsDepth, Nat.add_le_add_iff_right, Nat.max_le] at deep
    simp only [ReadsBack, scalars, elementsScalars, List.mem_append] at back
    obtain ⟨c, tail, front, opens⟩ := render_head first fun scalar inside => back scalar (.inl inside)
    have one := readValue_render first levels (renderMoreElements more ++ rest) deep.1
      (fun scalar inside => back scalar (.inl inside)) (stops_elements more rest)
    have others := readElements_render more levels _ rest deep.2
      (fun scalar inside => back scalar (.inr inside)) (length_elements more rest)
    have written : (Json.array (first :: more)).render ++ rest =
        '[' :: (first.render ++ (renderMoreElements more ++ rest)) := by
      simp [render, renderElements]
    rw [front, List.cons_append] at one written
    rw [written]
    exact readValue_array levels c _ _ rest first more opens one others
  | .object [], levels + 1, _, _ => simp [render, renderMembers, readValue?, skipSpace, isSpace]
  | .object ((key, first) :: more), levels + 1, deep, back =>
    simp only [depth, membersDepth, Nat.add_le_add_iff_right, Nat.max_le] at deep
    simp only [ReadsBack, scalars, membersScalars, List.mem_append] at back
    have one := readMember_render (readValue? levels) key first (renderMoreMembers more ++ rest)
      (fun scalar inside => back scalar (.inl inside))
      (readValue_render first levels (renderMoreMembers more ++ rest) deep.1
        (fun scalar inside => back scalar (.inl inside)) (stops_members more rest))
    have others := readMembers_render more levels _ rest deep.2
      (fun scalar inside => back scalar (.inr inside)) (length_members more rest)
    have written : (Json.object ((key, first) :: more)).render ++ rest =
        '{' :: (quoted key ++ ':' :: (first.render ++ (renderMoreMembers more ++ rest))) := by
      simp [render, renderMembers]
    rw [written]
    exact readValue_object levels '"' _ _ rest (key, first) more (by decide) one others

theorem readElements_render (elements : List Json) (levels most : Nat) (rest : List Char)
    (deep : elementsDepth elements ≤ levels)
    (back : ∀ scalar ∈ elementsScalars elements, scalar.ReadsBack)
    (enough : elements.length < most) :
    readElements? (readValue? levels) most (renderMoreElements elements ++ rest) =
      some (elements, rest) := by
  match most, elements, deep, back, enough with
  | most + 1, [], _, _, _ => simp [renderMoreElements, readElements?, skipSpace, isSpace]
  | most + 1, first :: more, deep, back, enough =>
    simp only [elementsDepth, Nat.max_le] at deep
    simp only [elementsScalars, List.mem_append] at back
    obtain ⟨c, tail, front, opens⟩ := render_head first fun scalar inside => back scalar (.inl inside)
    have one := readValue_render first levels (renderMoreElements more ++ rest) deep.1
      (fun scalar inside => back scalar (.inl inside)) (stops_elements more rest)
    have others := readElements_render more levels most rest deep.2
      (fun scalar inside => back scalar (.inr inside)) (by simpa using enough)
    have written : renderMoreElements (first :: more) ++ rest =
        ',' :: (first.render ++ (renderMoreElements more ++ rest)) := by
      simp [renderMoreElements]
    rw [front, List.cons_append] at one written
    rw [written]
    exact readElements_more _ most c _ _ rest first more opens one others

theorem readMembers_render (members : List (String × Json)) (levels most : Nat) (rest : List Char)
    (deep : membersDepth members ≤ levels)
    (back : ∀ scalar ∈ membersScalars members, scalar.ReadsBack)
    (enough : members.length < most) :
    readMembers? (readValue? levels) most (renderMoreMembers members ++ rest) =
      some (members, rest) := by
  match most, members, deep, back, enough with
  | most + 1, [], _, _, _ => simp [renderMoreMembers, readMembers?, skipSpace, isSpace]
  | most + 1, (key, first) :: more, deep, back, enough =>
    simp only [membersDepth, Nat.max_le] at deep
    simp only [membersScalars, List.mem_append] at back
    have one := readMember_render (readValue? levels) key first (renderMoreMembers more ++ rest)
      (fun scalar inside => back scalar (.inl inside))
      (readValue_render first levels (renderMoreMembers more ++ rest) deep.1
        (fun scalar inside => back scalar (.inl inside)) (stops_members more rest))
    have others := readMembers_render more levels most rest deep.2
      (fun scalar inside => back scalar (.inr inside)) (by simpa using enough)
    have written : renderMoreMembers ((key, first) :: more) ++ rest =
        ',' :: (quoted key ++ ':' :: (first.render ++ (renderMoreMembers more ++ rest))) := by
      simp [renderMoreMembers]
    rw [written]
    exact readMembers_more _ most '"' _ _ rest (key, first) more (by decide) one others
end

/-- A value is read from its text, unless it is nested too deeply. -/
theorem parse_render (value : Json) (deep : value.depth ≤ maxDepth) (back : value.ReadsBack) :
    parse? value.render = some value := by
  obtain ⟨c, tail, front, opens⟩ := render_head value back
  have read := readValue_render value maxDepth [] deep back stops_nil
  rw [List.append_nil] at read
  have solid : skipSpace value.render = value.render := by
    rw [front]
    exact opens.skipSpace tail
  rw [parse?, parseWithin?, solid, read]
  rfl

/-! Objects of which not all is read. -/

/-- A value that is asked for has to be readable. -/
theorem readNamed_none {names : List String} {parts : List (List Char × List Char)}
    {key value : List Char} {name : String} (inside : (key, value) ∈ parts)
    (named : readBytes? 0 key = some (.string name)) (asked : name ∈ names)
    (unread : readBytes? (maxDepth - 1) value = none) : readNamed? names parts = none := by
  induction parts with
  | nil => cases inside
  | cons part rest ih =>
    obtain ⟨first, other⟩ := part
    rcases List.mem_cons.mp inside with here | later
    · cases here
      rw [readNamed?, named]
      cases readNamed? names rest <;> simp [asked, unread]
    · rw [readNamed?, ih later]
      split
      · rename_i impossible
        cases impossible
      · rfl

theorem readObject_none {names : List String} {bytes : List UInt8} {inner last : List Char}
    {parts : List (List Char × List Char)}
    (opened : skipSpace (bytes.map Char.ofUInt8) = '{' :: inner)
    (split : splitObject? inner = some (parts, last)) (unread : readNamed? names parts = none) :
    readObject? names bytes = none := by
  simp only [readObject?, opened, split, unread]
  split <;> rfl

theorem readBytes_encode (levels : Nat) {raw text : List Char}
    (same : raw.map Char.toUInt8 = Utf8.encode text) :
    readBytes? levels raw = parseWithin? levels text := by
  rw [readBytes?, same, Utf8.decode_encode, Option.bind_some]

end Json

end SharedTree
