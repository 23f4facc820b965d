import SharedTree.Text.Blank
import SharedTree.Text.Split
import SharedTree.Text.Hex
/-!
Identifiers of items, memberships and accounts: 128 bits, written as 32 hexadecimal digits in
groups of 8, 4, 4, 4 and 12. Main statements: `ofDigits_digits` and `ungrouped_grouped`, what is
written is read back.
-/
namespace SharedTree

structure Id where
  number : Fin (Nat.pow 2 128)
deriving DecidableEq

namespace Id

def ofNat (number : Nat) : Id := ⟨Fin.ofNat (Nat.pow 2 128) number⟩

def zero : Id := ⟨0⟩

instance : Inhabited Id := ⟨zero⟩

/-- Identifiers are ordered as numbers, which is the order of their written forms. -/
instance : Ord Id := ⟨fun a b => compare a.number b.number⟩

instance : Std.OrientedOrd Id where
  eq_swap := by
    intro a b
    exact Std.OrientedOrd.eq_swap (a := a.number) (b := b.number)

instance : Std.TransOrd Id where
  isLE_trans := by
    intro a b c
    exact Std.TransOrd.isLE_trans (a := a.number) (b := b.number) (c := c.number)

instance : Std.LawfulEqOrd Id where
  eq_of_compare := by
    intro a b equal
    cases a
    cases b
    exact congrArg Id.mk (Std.LawfulEqOrd.eq_of_compare equal)

def digits (id : Id) : List Char := Hex.fixed 32 id.number.val

def ofDigits? (text : List Char) : Option Id :=
  if text.length = 32 then (Hex.read? text).map ofNat else none

def groupSizes : List Nat := [8, 4, 4, 4, 12]

def groups (digits : List Char) : List (List Char) :=
  [digits.take 8, (digits.drop 8).take 4, (digits.drop 12).take 4, (digits.drop 16).take 4,
    digits.drop 20]

def grouped (sep : Char) (id : Id) : List Char := Text.join sep (groups id.digits)

def ungrouped? (sep : Char) (text : List Char) : Option Id :=
  let pieces := Text.split sep text
  if pieces.map List.length = groupSizes then ofDigits? pieces.flatten else none

def text (id : Id) : List Char := id.grouped '-'

/-- Reads the hyphenated form, plain or in braces or behind `urn:uuid:` in small or capital letters,
and the 32 digits without hyphens. -/
def parse? (raw : List Char) : Option Id :=
  if raw.length = 32 then ofDigits? raw
  else if raw.length = 36 then ungrouped? '-' raw
  else if raw.length = 38 ∧ raw.head? = some '{' ∧ raw.getLast? = some '}' then
    ungrouped? '-' (raw.drop 1).dropLast
  else if raw.length = 45 ∧ Text.lowerAscii (raw.take 9) = "urn:uuid:".toList then
    ungrouped? '-' (raw.drop 9)
  else none

theorem digits_length (id : Id) : id.digits.length = 32 := Hex.fixed_length 32 _

theorem ofDigits_digits (id : Id) : ofDigits? id.digits = some id := by
  have whole : Hex.read? id.digits = some id.number.val := by
    rw [digits, Hex.read_fixed]
    exact congrArg some (Nat.mod_eq_of_lt id.number.isLt)
  have back : ofNat id.number.val = id :=
    congrArg Id.mk (Fin.ext (Nat.mod_eq_of_lt id.number.isLt))
  rw [ofDigits?, if_pos (digits_length id), whole, Option.map_some, back]

theorem digit_read (digits : List Char) (sofar number : Nat)
    (read : Hex.readFrom? sofar digits = some number) (c : Char) (inside : c ∈ digits) :
    (Hex.value? c).isSome = true := by
  induction digits generalizing sofar with
  | nil => simp at inside
  | cons d rest ih =>
    simp only [Hex.readFrom?] at read
    cases known : Hex.value? d with
    | none => simp [known] at read
    | some value =>
      rw [known] at read
      rcases List.mem_cons.mp inside with equal | later
      · simp [equal, known]
      · exact ih _ read later

theorem digits_hex (id : Id) (c : Char) (inside : c ∈ id.digits) :
    (Hex.value? c).isSome = true :=
  digit_read id.digits 0 _ (Hex.read_fixed 32 id.number.val) c inside

theorem groups_flatten (digits : List Char) : (groups digits).flatten = digits := by
  have join (n m : Nat) : (digits.drop n).take m ++ digits.drop (n + m) = digits.drop n := by
    rw [← List.drop_drop]
    exact List.take_append_drop m (digits.drop n)
  simp only [groups, List.flatten_cons, List.flatten_nil, List.append_nil]
  rw [join 16 4, join 12 4, join 8 4, List.take_append_drop]

theorem grouped_split (sep : Char) (id : Id) (apart : Hex.value? sep = none) :
    Text.split sep (id.grouped sep) = groups id.digits := by
  apply Text.split_join
  intro piece inside found
  have member : sep ∈ id.digits := by
    rw [← groups_flatten id.digits]
    exact List.mem_flatten.mpr ⟨piece, inside, found⟩
  have hex := digits_hex id sep member
  simp [apart] at hex

theorem ungrouped_grouped (sep : Char) (id : Id) (apart : Hex.value? sep = none) :
    ungrouped? sep (id.grouped sep) = some id := by
  have sizes : (groups id.digits).map List.length = groupSizes := by
    simp [groups, groupSizes, digits_length]
  simp [ungrouped?, grouped_split sep id apart, sizes, groups_flatten, ofDigits_digits]

theorem ungrouped_chars (sep : Char) (text : List Char) (id : Id)
    (read : ungrouped? sep text = some id) (c : Char) (inside : c ∈ text) :
    c = sep ∨ (Hex.value? c).isSome = true := by
  rcases Text.mem_split sep c text inside with equal | covered
  · exact Or.inl equal
  · right
    simp only [ungrouped?] at read
    split at read
    · simp only [ofDigits?] at read
      split at read
      · cases found : Hex.read? (Text.split sep text).flatten with
        | none => simp [found] at read
        | some number => exact digit_read _ 0 number found c covered
      · simp at read
    · simp at read

end Id

end SharedTree
