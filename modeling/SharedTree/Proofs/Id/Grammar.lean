import Mathlib.Data.List.Induction
import SharedTree.Id
/-!
How identifiers are spelled. Digits are read in either case and written small, so what was read is
written again in small letters. Main statements: `ungrouped_isSome_iff`, which texts are read, and
`grouped_of_ungrouped`, how they are written again.
-/
namespace SharedTree

namespace Text

theorem split_map {sep mapped : Char} {image : Char → Char} {text : List Char}
    (told : ∀ c ∈ text, image c = mapped ↔ c = sep) :
    split mapped (text.map image) = (split sep text).map (List.map image) := by
  induction text with
  | nil => rfl
  | cons c rest ih =>
      rw [List.forall_mem_cons] at told
      have tail := ih told.2
      obtain ⟨piece, pieces, found⟩ := List.exists_cons_of_ne_nil (split_ne_nil sep rest)
      by_cases same : c = sep
      · rw [List.map_cons, told.1.mpr same, same, split_sep, split_sep, tail]
        rfl
      · rw [found] at tail
        rw [List.map_cons, split_other sep c rest piece pieces same found]
        exact split_other mapped _ _ _ _ (fun equal => same (told.1.mp equal)) tail

theorem free_of_mem_split {sep : Char} {text piece : List Char} (inside : piece ∈ split sep text) :
    sep ∉ piece := by
  induction text generalizing piece with
  | nil => simp [List.mem_singleton.mp inside]
  | cons c rest ih =>
      obtain ⟨first, pieces, found⟩ := List.exists_cons_of_ne_nil (split_ne_nil sep rest)
      rw [found] at ih
      by_cases same : c = sep
      · rw [same, split_sep, found] at inside
        rcases List.mem_cons.mp inside with rfl | later
        · exact List.not_mem_nil
        · exact ih later
      · rw [split_other sep c rest first pieces same found] at inside
        rcases List.mem_cons.mp inside with rfl | later
        · rw [List.mem_cons, not_or]
          exact ⟨Ne.symm same, ih List.mem_cons_self⟩
        · exact ih (List.mem_cons_of_mem first later)

theorem length_split (sep : Char) (text : List Char) :
    (split sep text).flatten.length + (split sep text).length = text.length + 1 := by
  induction text with
  | nil => rfl
  | cons c rest ih =>
      obtain ⟨piece, pieces, found⟩ := List.exists_cons_of_ne_nil (split_ne_nil sep rest)
      rw [found] at ih
      by_cases same : c = sep
      · subst same
        rw [split_sep, found]
        simp at ih ⊢
        omega
      · rw [split_other sep c rest piece pieces same found]
        simp at ih ⊢
        omega

/-! Small letters. -/

theorem toLower_of_small {c : Char} (small : c.isUpper = false) : c.toLower = c :=
  dif_neg (of_decide_eq_false small)

theorem toLower_isLower {c : Char} (capital : c.isUpper = true) : c.toLower.isLower = true := by
  have checked : ∀ place : Fin 26, (Char.ofNat (65 + place.val)).toLower.isLower = true := by decide
  obtain ⟨low, high⟩ : 65 ≤ c.toNat ∧ c.toNat ≤ 90 := of_decide_eq_true capital
  have known := checked ⟨c.toNat - 65, by omega⟩
  rwa [Nat.add_sub_cancel' low, Char.ofNat_toNat] at known

theorem toLower_eq_self_iff (c : Char) : c.toLower = c ↔ c.isUpper = false := by
  refine ⟨fun kept => ?_, toLower_of_small⟩
  rw [← Bool.not_eq_true]
  intro capital
  have letter := toLower_isLower capital
  rw [kept] at letter
  have high : c.toNat ≤ 90 := (of_decide_eq_true capital).2
  have low : 97 ≤ c.toNat := of_decide_eq_true (Bool.and_eq_true_iff.mp letter).1
  omega

/-- Letters become letters, so what is no letter stands where it stood. -/
theorem toLower_eq_iff {sep : Char} (apart : sep.isAlpha = false) (c : Char) :
    c.toLower = sep ↔ c = sep := by
  obtain ⟨noCapital, noSmall⟩ := Bool.or_eq_false_iff.mp apart
  cases capital : c.isUpper with
  | false => rw [toLower_of_small capital]
  | true =>
      have lowered := toLower_isLower capital
      constructor
      · rintro rfl
        rw [lowered] at noSmall
        cases noSmall
      · rintro rfl
        rw [capital] at noCapital
        cases noCapital

theorem split_lowerAscii {sep : Char} (apart : sep.isAlpha = false) (text : List Char) :
    split sep (lowerAscii text) = (split sep text).map lowerAscii :=
  split_map fun c _ => toLower_eq_iff apart c

end Text

namespace Hex

def IsDigit (c : Char) : Prop :=
  ('0' ≤ c ∧ c ≤ '9') ∨ ('a' ≤ c ∧ c ≤ 'f') ∨ ('A' ≤ c ∧ c ≤ 'F')

theorem value_isSome_iff (c : Char) : (value? c).isSome = true ↔ IsDigit c := by
  have bounds : '0'.val.toNat = 48 ∧ '9'.val.toNat = 57 ∧ 'a'.val.toNat = 97 ∧
      'f'.val.toNat = 102 ∧ 'A'.val.toNat = 65 ∧ 'F'.val.toNat = 70 := by decide
  have code : c.val.toNat = c.toNat := rfl
  simp only [value?, IsDigit, Char.le_def, UInt32.le_iff_toNat_le]
  split
  · simp only [Option.isSome_some, true_iff]
    omega
  · split
    · simp only [Option.isSome_some, true_iff]
      omega
    · split
      · simp only [Option.isSome_some, true_iff]
        omega
      · simp only [Option.isSome_none, Bool.false_eq_true, false_iff]
        omega

theorem code_of_value {c : Char} {value : Nat} (known : value? c = some value) :
    48 ≤ c.toNat ∧ c.toNat ≤ 102 := by
  simp only [value?] at known
  split at known
  · omega
  · split at known
    · omega
    · split at known
      · omega
      · cases known

/-- What a character stands for is written as its small letter. -/
theorem digit_of_value {c : Char} {value : Nat} (known : value? c = some value) :
    value < 16 ∧ digit value = c.toLower := by
  have checked : ∀ code : Fin 103, ∀ value ∈ value? (Char.ofNat code.val),
      value < 16 ∧ digit value = (Char.ofNat code.val).toLower := by decide
  have there := checked ⟨c.toNat, Nat.lt_succ_of_le (code_of_value known).2⟩ value
  rw [Char.ofNat_toNat] at there
  exact there known

theorem readFrom_concat (sofar : Nat) (front : List Char) (c : Char) :
    readFrom? sofar (front ++ [c]) =
      (readFrom? sofar front).bind fun number => (value? c).map fun value => number * 16 + value := by
  induction front generalizing sofar with
  | nil =>
      simp only [List.nil_append, readFrom?, Option.bind_some]
      cases value? c <;> rfl
  | cons d front ih =>
      simp only [List.cons_append, readFrom?]
      cases value? d with
      | none => rfl
      | some value => exact ih _

/-- A run of digits is written again in small letters, with as many digits as it had. -/
theorem fixed_of_read {text : List Char} {number : Nat} (read : read? text = some number) :
    number < Nat.pow 16 text.length ∧ fixed text.length number = Text.lowerAscii text := by
  induction text using List.reverseRecOn generalizing number with
  | nil =>
      cases read
      exact ⟨Nat.one_pos, rfl⟩
  | append_singleton front c ih =>
      rw [read?, readFrom_concat] at read
      obtain ⟨upper, known, step⟩ := Option.bind_eq_some_iff.mp read
      obtain ⟨value, last, rfl⟩ := Option.map_eq_some_iff.mp step
      obtain ⟨below, front_written⟩ := ih known
      obtain ⟨small, last_written⟩ := digit_of_value last
      have quotient : (upper * 16 + value) / 16 = upper := by omega
      have rest : (upper * 16 + value) % 16 = value := by omega
      rw [List.length_append, List.length_singleton, fixed, quotient, rest, front_written,
        last_written, Text.lowerAscii, Text.lowerAscii, List.map_append]
      refine ⟨?_, rfl⟩
      change _ < Nat.pow 16 front.length * 16
      omega

theorem readFrom_isSome_iff (sofar : Nat) (text : List Char) :
    (readFrom? sofar text).isSome = true ↔ ∀ c ∈ text, IsDigit c := by
  induction text generalizing sofar with
  | nil => simp [readFrom?]
  | cons c rest ih =>
      rw [List.forall_mem_cons, ← value_isSome_iff, readFrom?]
      cases value? c with
      | none => simp
      | some value => simp [ih]

end Hex

namespace Id

variable {sep : Char} {text : List Char} {id : Id}

theorem ofDigits_isSome_iff (text : List Char) :
    (ofDigits? text).isSome = true ↔ text.length = 32 ∧ ∀ c ∈ text, Hex.IsDigit c := by
  rw [ofDigits?]
  split
  · rename_i long
    rw [Option.isSome_map, Hex.read?, Hex.readFrom_isSome_iff, and_iff_right long]
  · rename_i other
    simp [other]

theorem digits_of_ofDigits (read : ofDigits? text = some id) : id.digits = Text.lowerAscii text := by
  rw [ofDigits?] at read
  split at read
  · rename_i long
    obtain ⟨number, known, rfl⟩ := Option.map_eq_some_iff.mp read
    obtain ⟨below, written⟩ := Hex.fixed_of_read known
    rw [long] at below written
    -- 32 digits fill the 128 bits, so the number is kept whole.
    have whole : (ofNat number).number.val = number := Nat.mod_eq_of_lt below
    rw [digits, whole, written]
  · cases read

theorem groups_of_sizes {pieces : List (List Char)} (sizes : pieces.map List.length = groupSizes) :
    groups pieces.flatten = pieces := by
  obtain ⟨a, rest, rfl, first, sizes⟩ := List.map_eq_cons_iff.mp sizes
  obtain ⟨b, rest, rfl, second, sizes⟩ := List.map_eq_cons_iff.mp sizes
  obtain ⟨c, rest, rfl, third, sizes⟩ := List.map_eq_cons_iff.mp sizes
  obtain ⟨d, rest, rfl, fourth, sizes⟩ := List.map_eq_cons_iff.mp sizes
  obtain ⟨e, rest, rfl, fifth, sizes⟩ := List.map_eq_cons_iff.mp sizes
  obtain rfl := List.map_eq_nil_iff.mp sizes
  simp [groups, List.drop_append, List.drop_eq_nil_of_le, first, second, third, fourth]

/-- Groups of digits of the right sizes are read, and nothing else. -/
theorem ungrouped_isSome_iff (apart : Hex.value? sep = none) (text : List Char) :
    (ungrouped? sep text).isSome = true ↔
      ∃ pieces, text = Text.join sep pieces ∧ pieces.map List.length = [8, 4, 4, 4, 12] ∧
        ∀ c ∈ pieces.flatten, Hex.IsDigit c := by
  constructor
  · intro read
    simp only [ungrouped?] at read
    split at read
    · rename_i sizes
      exact ⟨Text.split sep text, (Text.join_split sep text).symm, sizes,
        ((ofDigits_isSome_iff _).mp read).2⟩
    · cases read
  · rintro ⟨pieces, rfl, sizes, hex⟩
    have free : ∀ piece ∈ pieces, sep ∉ piece := by
      intro piece inside found
      have digit := (Hex.value_isSome_iff sep).mpr
        (hex sep (List.mem_flatten.mpr ⟨piece, inside, found⟩))
      simp [apart] at digit
    have whole : Text.split sep (Text.join sep pieces) = pieces := by
      obtain ⟨first, rest, rfl, _⟩ := List.map_eq_cons_iff.mp sizes
      exact Text.split_join sep first rest free
    have long : pieces.flatten.length = 32 := by rw [List.length_flatten, sizes]; rfl
    simp only [ungrouped?, whole, groupSizes, if_pos sizes]
    exact (ofDigits_isSome_iff _).mpr ⟨long, hex⟩

theorem length_of_ungrouped (read : ungrouped? sep text = some id) : text.length = 36 := by
  simp only [ungrouped?] at read
  split at read
  · rename_i sizes
    have pieces := congrArg List.length sizes
    have whole := Text.length_split sep text
    rw [List.length_flatten, sizes] at whole
    simp [groupSizes] at pieces whole
    omega
  · cases read

/-- What was read is written again in small letters. -/
theorem grouped_of_ungrouped (plain : sep.isAlpha = false) (read : ungrouped? sep text = some id) :
    id.grouped sep = Text.lowerAscii text := by
  simp only [ungrouped?] at read
  split at read
  · rename_i sizes
    have lowered : ((Text.split sep text).map Text.lowerAscii).map List.length = groupSizes := by
      rw [← sizes, List.map_map]
      exact List.map_congr_left fun piece _ => List.length_map _
    have digits : id.digits = ((Text.split sep text).map Text.lowerAscii).flatten := by
      rw [digits_of_ofDigits read]
      exact List.map_flatten
    rw [grouped, digits, groups_of_sizes lowered, ← Text.split_lowerAscii plain, Text.join_split]
  · cases read

end Id

end SharedTree
