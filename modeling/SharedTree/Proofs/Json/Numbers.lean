import SharedTree.Json.Parser
import SharedTree.Json.Printer
import SharedTree.Proofs.Text.Digits
/-!
Numbers in front of what can follow a value. Reading one does not depend on what follows it
(`readUnsigned_append`), and integers of 64 bits are read as they were written (`readScalar_integer`).
-/
namespace SharedTree.Json

def Stops (rest : List Char) : Prop := ∀ c, rest.head? = some c → c = ',' ∨ c = ']' ∨ c = '}'

theorem Stops.not_digit {rest : List Char} (stops : Stops rest) (c : Char)
    (head : rest.head? = some c) : Decimal.isDigit c = false := by
  rcases stops c head with rfl | rfl | rfl <;> decide

theorem stops_nil : Stops [] := by
  intro c head
  cases head

theorem stops_cons (c : Char) (rest : List Char) (closing : c = ',' ∨ c = ']' ∨ c = '}') :
    Stops (c :: rest) := by
  intro d head
  cases head
  exact closing

/-- The longest run of digits at the start of a text is cut off in the same place, whatever else
stands behind the text. -/
theorem takeWhile_append (text rest : List Char) (stops : Stops rest) :
    (text ++ rest).takeWhile Decimal.isDigit = text.takeWhile Decimal.isDigit := by
  induction text with
  | nil => simpa using Decimal.takeWhile_run [] rest (by simp) stops.not_digit
  | cons c tail ih => simp only [List.cons_append, List.takeWhile_cons, ih]

theorem drop_append (text rest : List Char) :
    (text ++ rest).drop (text.takeWhile Decimal.isDigit).length =
      text.drop (text.takeWhile Decimal.isDigit).length ++ rest :=
  List.drop_append_of_le_length (List.takeWhile_prefix _).length_le

theorem map_append (found : Option Scalar) (last rest : List Char) (value : Scalar)
    (final : List Char) (read : found.map (fun value => (value, last)) = some (value, final)) :
    found.map (fun value => (value, last ++ rest)) = some (value, final ++ rest) := by
  obtain ⟨number, made, same⟩ := Option.map_eq_some_iff.mp read
  obtain ⟨rfl, rfl⟩ := Prod.mk.inj same
  rw [made, Option.map_some]

variable {rest : List Char} (stops : Stops rest)
include stops

theorem Stops.front {front last : List Char} {c : Char} (equal : front ++ rest = c :: last)
    (other : ¬ (c = ',' ∨ c = ']' ∨ c = '}')) : ∃ tail, front = c :: tail := by
  cases front with
  | nil =>
    rw [List.nil_append] at equal
    exact absurd (stops c (by rw [equal]; rfl)) other
  | cons d tail => exact ⟨tail, by rw [(List.cons.inj equal).1]⟩

theorem readExponent_append (text : List Char) (exponent : Int) (final : List Char)
    (read : readExponent? text = some (exponent, final)) :
    readExponent? (text ++ rest) = some (exponent, final ++ rest) := by
  have digits (tail : List Char) (sign : Int → Int)
      (found : (do
        let number ← Decimal.read? (tail.takeWhile Decimal.isDigit)
        pure (number : Int)).map (fun number =>
          (sign number, tail.drop (tail.takeWhile Decimal.isDigit).length)) =
        some (exponent, final)) :
      (do
        let number ← Decimal.read? ((tail ++ rest).takeWhile Decimal.isDigit)
        pure (number : Int)).map (fun number =>
          (sign number, (tail ++ rest).drop ((tail ++ rest).takeWhile Decimal.isDigit).length)) =
        some (exponent, final ++ rest) := by
    rw [takeWhile_append tail rest stops, drop_append tail rest]
    obtain ⟨number, known, same⟩ := Option.map_eq_some_iff.mp found
    obtain ⟨rfl, rfl⟩ := Prod.mk.inj same
    rw [known, Option.map_some]
  cases text with
  | nil => simp [readExponent?, Decimal.read?] at read
  | cons c tail =>
    -- Only where the digits begin depends on the sign.
    by_cases minus : c = '-'
    · subst minus
      exact digits tail (fun number => -number) read
    · by_cases plus : c = '+'
      · subst plus
        exact digits tail (fun number => number) read
      · have unsigned (more : List Char) : readExponent? (c :: more) = (do
            let number ← Decimal.read? ((c :: more).takeWhile Decimal.isDigit)
            pure (number : Int)).map (fun number =>
              (number, (c :: more).drop ((c :: more).takeWhile Decimal.isDigit).length)) := by
          simp [readExponent?, minus, plus]
        rw [unsigned] at read
        rw [List.cons_append, unsigned]
        exact digits (c :: tail) (fun number => number) read

/-- What is read behind `e` does not depend on what follows it either, whatever number is made of
it. -/
theorem exponent_append (found : Int → Option Scalar) (last : List Char) (value : Scalar)
    (final : List Char)
    (read : (match readExponent? last with
      | some (exponent, behind) => (found exponent).map fun value => (value, behind)
      | none => none) = some (value, final)) :
    (match readExponent? (last ++ rest) with
      | some (exponent, behind) => (found exponent).map fun value => (value, behind)
      | none => none) = some (value, final ++ rest) := by
  cases known : readExponent? last with
  | none => simp [known] at read
  | some parts =>
    obtain ⟨exponent, behind⟩ := parts
    rw [known] at read
    rw [readExponent_append stops last exponent behind known]
    exact map_append _ behind rest value final read

/-- A number is read the same whatever stands behind it. -/
theorem readUnsigned_append (negative : Bool) (text : List Char) (value : Scalar)
    (final : List Char) (read : readUnsigned? negative text = some (value, final)) :
    readUnsigned? negative (text ++ rest) = some (value, final ++ rest) := by
  have open_dot : ¬ ('.' = ',' ∨ '.' = ']' ∨ '.' = '}') := by decide
  have open_small : ¬ ('e' = ',' ∨ 'e' = ']' ∨ 'e' = '}') := by decide
  have open_large : ¬ ('E' = ',' ∨ 'E' = ']' ∨ 'E' = '}') := by decide
  unfold readUnsigned? at read ⊢
  simp only [takeWhile_append text rest stops, drop_append text rest] at read ⊢
  generalize text.takeWhile Decimal.isDigit = digits at read ⊢
  generalize text.drop digits.length = behind at read ⊢
  split at read
  · cases read
  · rename_i kept
    rw [if_neg kept]
    split at read
    · rename_i tail
      simp only [List.cons_append, takeWhile_append _ rest stops, drop_append _ rest]
      generalize tail.takeWhile Decimal.isDigit = fraction at read ⊢
      generalize tail.drop fraction.length = beyond at read ⊢
      split at read
      · cases read
      · rename_i some_digits
        rw [if_neg some_digits]
        split at read
        · exact exponent_append stops _ _ value final read
        · exact exponent_append stops _ _ value final read
        · rename_i small large
          split
          · rename_i equal
            obtain ⟨more, front⟩ := stops.front equal open_small
            exact (small more front).elim
          · rename_i equal
            obtain ⟨more, front⟩ := stops.front equal open_large
            exact (large more front).elim
          · exact map_append _ _ rest value final read
    · exact exponent_append stops _ _ value final read
    · exact exponent_append stops _ _ value final read
    · rename_i dot small large
      split
      · rename_i equal
        obtain ⟨more, front⟩ := stops.front equal open_dot
        exact (dot more front).elim
      · rename_i equal
        obtain ⟨more, front⟩ := stops.front equal open_small
        exact (small more front).elim
      · rename_i equal
        obtain ⟨more, front⟩ := stops.front equal open_large
        exact (large more front).elim
      · exact map_append _ _ rest value final read

omit stops in
theorem significand_read (sofar value : Nat) (text : List Char)
    (read : Decimal.readFrom? sofar text = some value) (small : value < 18446744073709551616) :
    significand sofar text = (value, 0) := by
  induction text generalizing sofar with
  | nil => rw [significand, Option.some.inj read]
  | cons c tail ih =>
    simp only [Decimal.readFrom?] at read
    cases known : Decimal.value? c with
    | none => simp [known] at read
    | some digit =>
      rw [known] at read
      -- The number only grows, so no part of it is too large if the whole is not.
      have within := Decimal.readFrom_ge _ value tail read
      simp only [significand, known, Option.getD_some]
      rw [if_pos (by omega)]
      exact ih _ read

omit stops in
theorem readScalar_digit (c : Char) (tail : List Char) (digit : Decimal.isDigit c = true) :
    readScalar? (c :: tail) = readUnsigned? false (c :: tail) := by
  unfold readScalar?
  split
  all_goals first
    | rfl
    | rename_i equal
      rw [(List.cons.inj equal).1] at digit
      exact absurd digit (by decide)

omit stops in
theorem readUnsigned_head (negative : Bool) (text : List Char) (value : Scalar) (final : List Char)
    (read : readUnsigned? negative text = some (value, final)) :
    ∃ c tail, text = c :: tail ∧ Decimal.isDigit c = true := by
  cases text with
  | nil => simp [readUnsigned?] at read
  | cons c tail =>
    refine ⟨c, tail, rfl, ?_⟩
    cases digit : Decimal.isDigit c with
    | true => rfl
    | false => simp [readUnsigned?, digit] at read

theorem readUnsigned_digits (negative : Bool) (number : Nat) :
    readUnsigned? negative (Decimal.digits number ++ rest) =
      (whole? negative (Decimal.digits number)).map fun value => (value, rest) := by
  have run := Decimal.takeWhile_run (Decimal.digits number) rest (Decimal.digits_isDigit number)
    stops.not_digit
  have kept : ¬ ((Decimal.digits number).isEmpty = true ∨
      ((Decimal.digits number).head? = some '0' ∧ (Decimal.digits number).length ≠ 1)) := by
    rintro (empty | ⟨leading, long⟩)
    · exact Decimal.digits_ne_nil number (List.isEmpty_iff.mp empty)
    · rw [Decimal.digits_head number leading] at long
      exact long rfl
  unfold readUnsigned?
  simp only [run, if_neg kept, List.drop_left]
  split
  · exact absurd (stops '.' rfl) (by decide)
  · exact absurd (stops 'e' rfl) (by decide)
  · exact absurd (stops 'E' rfl) (by decide)
  · rfl

/-- An integer of 64 bits is read as it was written. -/
theorem readScalar_integer (value : Int) (fit : fits (.integer value) = true) :
    readScalar? (Decimal.signed value ++ rest) = some (.integer value, rest) := by
  simp only [fits, Bool.and_eq_true, decide_eq_true_eq] at fit
  have read : significand 0 (Decimal.digits value.natAbs) = (value.natAbs, 0) :=
    significand_read 0 _ _ (Decimal.readFrom_digits _) (by omega)
  unfold Decimal.signed
  split
  · rename_i negative
    have whole : whole? true (Decimal.digits value.natAbs) = some (.integer value) := by
      have positive : 0 < value.natAbs ∧ value.natAbs ≤ 9223372036854775808 := by omega
      have back : -(value.natAbs : Int) = value := by omega
      simp only [whole?, read, Bool.true_eq_false, and_false, if_false, true_and, if_pos positive, back]
    show readUnsigned? true (Decimal.digits value.natAbs ++ rest) = _
    rw [readUnsigned_digits stops, whole, Option.map_some]
  · have whole : whole? false (Decimal.digits value.natAbs) = some (.integer value) := by
      have back : (value.natAbs : Int) = value := by omega
      simp only [whole?, read, and_self, if_true, back]
    obtain ⟨c, tail, front⟩ := List.exists_cons_of_ne_nil (Decimal.digits_ne_nil value.natAbs)
    have digit := Decimal.digits_isDigit value.natAbs c (by rw [front]; exact List.mem_cons_self)
    have scalar : readScalar? (Decimal.digits value.natAbs ++ rest) =
        readUnsigned? false (Decimal.digits value.natAbs ++ rest) := by
      rw [front]
      exact readScalar_digit c _ digit
    rw [scalar, readUnsigned_digits stops, whole, Option.map_some]

end SharedTree.Json

namespace SharedTree

/-- True of the floats whose written form is read as that float. The reader scales in one step and
can be off by a bit where more than 53 bits of digits are scaled. -/
def Binary64.ReadsBack (bits : UInt64) : Prop :=
  Json.readScalar? (Binary64.text bits) = some (.float bits, [])

instance (bits : UInt64) : Decidable (Binary64.ReadsBack bits) :=
  inferInstanceAs (Decidable (_ = _))

theorem Json.readScalar_float {rest : List Char} (stops : Stops rest) (bits : UInt64)
    (back : Binary64.ReadsBack bits) :
    readScalar? (Binary64.text bits ++ rest) = some (.float bits, rest) := by
  unfold Binary64.ReadsBack at back
  generalize Binary64.text bits = text at back ⊢
  unfold readScalar? at back
  split at back
  · simp at back
  · simp at back
  · simp at back
  · simp at back
  · exact readUnsigned_append stops true _ _ [] back
  · obtain ⟨c, tail, rfl, digit⟩ := readUnsigned_head false _ _ _ back
    rw [List.cons_append, readScalar_digit c _ digit]
    exact readUnsigned_append stops false _ _ [] back

end SharedTree
