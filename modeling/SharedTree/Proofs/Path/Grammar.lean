import SharedTree.Proofs.Path.Order
import SharedTree.Proofs.Path.Relocate
/-!
The grammar of paths: labels with dots between them, a label being five groups of hexadecimal
digits with underscores between. Capitals are read too, and what is read is written again in small
letters. Main statements: `labelId_eq_parse`, `ofIds_ids` and `codec_grammar`.
-/
namespace SharedTree

def LabelForm (text : List Char) : Prop :=
  ∃ groups, text = Text.join '_' groups ∧ groups.map List.length = [8, 4, 4, 4, 12] ∧
    ∀ c ∈ groups.flatten, Hex.IsDigit c

def PathForm (text : List Char) : Prop :=
  ∃ labels, labels ≠ [] ∧ text = Text.join '.' labels ∧ ∀ label ∈ labels, LabelForm label

namespace Text

def replace (old new : Char) (text : List Char) : List Char :=
  text.map fun c => if c = old then new else c

theorem split_replace {old new : Char} {text : List Char} (free : new ∉ text) :
    split new (replace old new text) = split old text := by
  have told : ∀ c ∈ text, (if c = old then new else c) = new ↔ c = old := by
    intro c inside
    have other : c ≠ new := fun same => free (same ▸ inside)
    by_cases same : c = old <;> simp [same, other]
  -- A piece has no separator in it, so nothing is replaced there.
  have kept (piece : List Char) (listed : piece ∈ split old text) :
      piece.map (fun c => if c = old then new else c) = piece := by
    conv_rhs => rw [← List.map_id piece]
    refine List.map_congr_left fun c inside => if_neg ?_
    rintro rfl
    exact free_of_mem_split listed inside
  rw [replace, split_map told, List.map_congr_left kept, List.map_id']

end Text

namespace Utf8

theorem length_encode_cons (c : Char) (rest : List Char) :
    (encode (c :: rest)).length = c.utf8Size + (encode rest).length := by
  rw [encode, List.flatMap_cons, List.length_append, String.length_utf8EncodeChar]
  rfl

theorem length_le_encode (text : List Char) : text.length ≤ (encode text).length := by
  induction text with
  | nil => exact Nat.le_refl 0
  | cons c rest ih =>
      have byte := c.utf8Size_pos
      rw [length_encode_cons, List.length_cons]
      omega

theorem length_encode_replace (old new : Char) (alike : new.utf8Size = old.utf8Size)
    (text : List Char) : (encode (Text.replace old new text)).length = (encode text).length := by
  induction text with
  | nil => rfl
  | cons c rest ih =>
      have size : (if c = old then new else c).utf8Size = c.utf8Size := by
        by_cases same : c = old
        · rw [if_pos same, same, alike]
        · rw [if_neg same]
      rw [Text.replace, List.map_cons, length_encode_cons, length_encode_cons, size, ← ih]
      rfl

theorem length_encode_ascii {text : List Char} (short : ∀ c ∈ text, c.val ≤ 127) :
    (encode text).length = text.length := by
  rw [encode_ascii short, List.length_map]

end Utf8

theorem Hex.IsDigit.ascii {c : Char} (digit : Hex.IsDigit c) : c.val ≤ 127 := by
  obtain ⟨value, known⟩ := Option.isSome_iff_exists.mp ((Hex.value_isSome_iff c).mpr digit)
  have high := (Hex.code_of_value known).2
  exact UInt32.le_iff_toNat_le.mpr (Nat.le_trans high (by decide))

/-- Of the forms of an identifier only the one with hyphens has 36 bytes. -/
theorem Id.parse_of_bytes {text : List Char} (bytes : (Utf8.encode text).length = 36) :
    Id.parse? text = Id.ungrouped? '-' text := by
  have most := Utf8.length_le_encode text
  by_cases long : text.length = 36
  · simp [Id.parse?, long]
  · have nothing : Id.ungrouped? '-' text = none :=
      Option.eq_none_iff_forall_ne_some.mpr fun id read => long (Id.length_of_ungrouped read)
    rw [nothing, Id.parse?]
    by_cases digits : text.length = 32
    · -- Digits have a byte each, so 32 of them do not make 36 bytes.
      rw [if_pos digits, ← Option.not_isSome_iff_eq_none, Id.ofDigits_isSome_iff]
      rintro ⟨_, hex⟩
      have short := Utf8.length_encode_ascii fun c inside => (hex c inside).ascii
      omega
    · rw [if_neg digits, if_neg long, if_neg (by omega), if_neg (by omega)]

/-! Labels. -/

theorem isLabel_iff (text : List Char) : isLabel text = true ↔ LabelForm text :=
  Id.ungrouped_isSome_iff (by decide) text

theorem label_of_labelId {text : List Char} {id : Id} (read : labelId? text = some id) :
    label id = Text.lowerAscii text :=
  Id.grouped_of_ungrouped (by decide) read

theorem label_injective : Function.Injective label := by
  intro a b same
  have read := label_read a
  rw [same, label_read] at read
  exact (Option.some.inj read).symm

/-- A label is what an identifier of 36 bytes becomes when underscores are written for its
hyphens. -/
theorem labelId_eq_parse (text : List Char) :
    labelId? text = if (Utf8.encode text).length = 36 ∧ '-' ∉ text
      then Id.parse? (Text.replace '_' '-' text) else none := by
  have label_bytes (good : isLabel text = true) :
      (Utf8.encode text).length = 36 ∧ '-' ∉ text := by
    refine ⟨?_, fun inside => ?_⟩
    · rw [Utf8.length_encode_ascii fun c inside => (isLabel_chars good inside).2,
        isLabel_length good]
    · exact absurd (isLabel_chars good inside).1 (by decide)
  split
  · rename_i shape
    have bytes := Utf8.length_encode_replace '_' '-' rfl text
    rw [Id.parse_of_bytes (bytes.trans shape.1), labelId?, Id.ungrouped?, Id.ungrouped?,
      Text.split_replace shape.2]
  · rename_i shape
    exact Option.not_isSome_iff_eq_none.mp fun good => shape (label_bytes good)

namespace Path

variable {path : Path} {ids : List Id}

theorem parse_isSome_iff (raw : List Char) : (parse? raw).isSome = true ↔ PathForm raw := by
  have accepted : (parse? raw).isSome = true ↔ ∀ piece ∈ Text.split '.' raw, isLabel piece = true := by
    rw [← List.all_eq_true, parse?]
    split
    · rename_i labelled
      simp only [Option.isSome_some, labelled]
    · rename_i other
      simp only [Option.isSome_none, Bool.false_eq_true, other]
  rw [accepted]
  constructor
  · intro good
    exact ⟨_, Text.split_ne_nil '.' raw, (Text.join_split '.' raw).symm,
      fun piece inside => (isLabel_iff piece).mp (good piece inside)⟩
  · rintro ⟨labels, full, rfl, form⟩
    obtain ⟨first, rest, rfl⟩ := List.exists_cons_of_ne_nil full
    have good : ∀ piece ∈ first :: rest, isLabel piece = true :=
      fun piece inside => (isLabel_iff piece).mpr (form piece inside)
    rwa [Text.split_join '.' first rest fun piece inside => isLabel_free piece (good piece inside)]

theorem parse_eq_some_iff (raw : List Char) (path : Path) :
    parse? raw = some path ↔ raw = path.text := by
  constructor
  · intro read
    rw [parse?] at read
    split at read
    · cases read
      rfl
    · cases read
  · rintro rfl
    exact path.parse_text

theorem toList_eq_text_iff (raw : String) (path : Path) :
    raw.toList = path.text ↔ raw = path.shown := by
  rw [shown, ← String.toList_inj, String.toList_ofList]

theorem read_eq_ok_iff_parse (raw : String) (path : Path) :
    Path.read raw = .ok path ↔ parse? raw.toList = some path := by
  rw [Path.read]
  cases parse? raw.toList <;> simp

theorem read_eq_error_iff (raw : String) :
    Path.read raw = .error (.invalidPath raw) ↔ ¬ PathForm raw.toList := by
  rw [← parse_isSome_iff, Path.read]
  cases parse? raw.toList <;> simp

/-- A path is read from its own text and no other. -/
theorem read_eq_ok_iff (raw : String) (path : Path) :
    Path.read raw = .ok path ↔ raw = path.shown := by
  rw [read_eq_ok_iff_parse, parse_eq_some_iff, toList_eq_text_iff]

/-! Small letters. -/

theorem isLabel_lowerAscii {text : List Char} (good : isLabel text = true) :
    isLabel (Text.lowerAscii text) = true := by
  obtain ⟨id, read⟩ := Option.isSome_iff_exists.mp good
  rw [← label_of_labelId read]
  exact label_isLabel id

def lower (path : Path) : Path :=
  ⟨Text.lowerAscii path.text, by
    rw [Text.split_lowerAscii (by decide), List.all_map, List.all_eq_true]
    exact fun piece inside => isLabel_lowerAscii (path.isLabel_of_mem inside)⟩

theorem labels_lower (path : Path) : path.lower.labels = path.labels.map Text.lowerAscii :=
  Text.split_lowerAscii (by decide) path.text

/-! Identifiers. -/

/-- Every label gives an identifier. -/
theorem ids_read (path : Path) : path.ids.map some = path.labels.map labelId? := by
  rw [ids, List.map_filterMap_some_eq_filter_map_isSome, List.filter_eq_self]
  intro read listed
  obtain ⟨text, inside, rfl⟩ := List.mem_map.mp listed
  exact path.isLabel_of_mem inside

theorem length_ids (path : Path) : path.ids.length = path.levels := by
  simpa [levels] using congrArg List.length path.ids_read

theorem ids_ne_nil (path : Path) : path.ids ≠ [] :=
  List.ne_nil_of_length_pos (path.length_ids ▸ path.levels_pos)

theorem getLast_ids (path : Path) : path.ids.getLast? = some path.id := by
  rw [Path.id, List.getLast?_eq_some_getLast path.ids_ne_nil, Option.getD_some]

/-- The identifiers are written as the labels in small letters. -/
theorem labels_ids (path : Path) : path.ids.map label = path.lower.labels := by
  rw [labels_lower, ids, List.map_filterMap, ← List.filterMap_eq_map]
  refine List.filterMap_congr fun text inside => ?_
  obtain ⟨id, read⟩ := labelId_of_mem path text inside
  rw [read, Option.map_some, label_of_labelId read]
  rfl

theorem ids_of_labels (written : path.labels = ids.map label) : path.ids = ids := by
  have back : labelId? ∘ label = some := by
    funext id
    rw [Function.comp_apply, label_read]
  rw [Path.ids, written, List.filterMap_map, back, List.filterMap_some]

theorem labels_foldl (start : Path) (ids : List Id) :
    (ids.foldl child start).labels = start.labels ++ ids.map label := by
  induction ids generalizing start with
  | nil => exact (List.append_nil _).symm
  | cons id rest ih =>
      rw [List.foldl_cons, ih, labels_child, List.map_cons, List.append_assoc, List.singleton_append]

theorem ofIds_eq_some_iff (ids : List Id) (path : Path) :
    ofIds? ids = some path ↔ ids ≠ [] ∧ path.labels = ids.map label := by
  cases ids with
  | nil => simp [ofIds?]
  | cons first rest =>
      have written : (rest.foldl child (root first)).labels = (first :: rest).map label := by
        rw [labels_foldl, labels_root, List.map_cons, List.singleton_append]
      rw [ofIds?, Option.some.injEq, and_iff_right (List.cons_ne_nil first rest), ← written]
      exact ⟨fun same => congrArg labels same.symm, fun same => (labels_injective _ _ same).symm⟩

/-- Written again, a path is in small letters. -/
theorem ofIds_ids (path : Path) : ofIds? path.ids = some path.lower :=
  (ofIds_eq_some_iff _ _).mpr ⟨path.ids_ne_nil, path.labels_ids.symm⟩

theorem ids_ofIds (made : ofIds? ids = some path) : path.ids = ids :=
  ids_of_labels ((ofIds_eq_some_iff ids path).mp made).2

theorem spelled_ofIds (made : ofIds? ids = some path) : path.Spelled := by
  obtain ⟨full, written⟩ := (ofIds_eq_some_iff ids path).mp made
  obtain ⟨front, last, rfl⟩ := (List.eq_nil_or_concat' ids).resolve_left full
  have whole : path.labels = front.map label ++ [label last] := by rw [written, List.map_append]; rfl
  exact ⟨front.map label, by rw [id_eq_of_labels path _ _ last whole (label_read last), whole]⟩

/-- The codec of paths and its grammar. A text is read if it has the form of a path, and kept as it
is, or else named in the error; each of its labels gives an identifier, the last one that of the
item; and the identifiers are written as the text in small letters. What is written for identifiers
is read as those identifiers, and from there a step down and a step up undo each other. A label is
read as an identifier is that has hyphens for the underscores. -/
theorem codec_grammar (raw : String) :
    ((∃ path, Path.read raw = .ok path) ↔ PathForm raw.toList) ∧
    (Path.read raw = .error (.invalidPath raw) ↔ ¬ PathForm raw.toList) ∧
    (∀ path, Path.read raw = .ok path →
      path.shown = raw ∧ path.ids.length = path.levels ∧
      path.ids.map some = path.labels.map labelId? ∧ path.ids.getLast? = some path.id ∧
      (ofIds? path.ids).map shown = some (String.ofList (Text.lowerAscii raw.toList))) ∧
    (∀ first rest, ∃ path, ofIds? (first :: rest) = some path ∧
      path.text = Text.join '.' ((first :: rest).map label) ∧
      Path.read path.shown = .ok path ∧ path.ids = first :: rest ∧
      (∀ id, (path.child id).parent? = some path ∧ (path.child id).id = id) ∧
      ∀ parent, path.parent? = some parent → parent.child path.id = path) ∧
    ∀ text, labelId? text = if (Utf8.encode text).length = 36 ∧ '-' ∉ text
      then Id.parse? (Text.replace '_' '-' text) else none := by
  refine ⟨?_, read_eq_error_iff raw, fun path read => ?_, fun first rest => ?_, labelId_eq_parse⟩
  · rw [← parse_isSome_iff, Option.isSome_iff_exists]
    exact exists_congr (read_eq_ok_iff_parse raw)
  · obtain rfl := (read_eq_ok_iff raw path).mp read
    refine ⟨rfl, path.length_ids, path.ids_read, path.getLast_ids, ?_⟩
    rw [ofIds_ids, shown, String.toList_ofList]
    rfl
  · obtain ⟨path, made⟩ : ∃ path, ofIds? (first :: rest) = some path := ⟨_, rfl⟩
    have written := ((ofIds_eq_some_iff _ path).mp made).2
    refine ⟨path, made, ?_, (read_eq_ok_iff _ path).mpr rfl, ids_ofIds made,
      fun id => ⟨parent_child path id, id_child path id⟩,
      fun parent above => ((spelled_ofIds made).eq_child above).symm⟩
    rw [← written, labels, Text.join_split]

theorem sample_codec_grammar :
    ∃ path, Path.read "0000000A_0000_4000_8000_000000000001" = .ok path ∧
      (ofIds? path.ids).map shown = some "0000000a_0000_4000_8000_000000000001" := by
  have read : Path.read "0000000A_0000_4000_8000_000000000001" =
      .ok ⟨"0000000A_0000_4000_8000_000000000001".toList, by decide⟩ := rfl
  exact ⟨_, read, ((codec_grammar _).2.2.1 _ read).2.2.2.2⟩

end Path

end SharedTree
