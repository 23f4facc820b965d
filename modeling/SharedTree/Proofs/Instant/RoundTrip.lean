import SharedTree.Instant
import SharedTree.Proofs.Instant.Calendar
import SharedTree.Proofs.Text.Digits
/-!
Instants are read as they were written (`parse_text`), down to the nanosecond, if they lie in the
years that have instants and a leap second ends a minute.
-/
namespace SharedTree.Instant

/-! The parts of the written form, each in front of what stands behind it. -/

theorem digit_solid (c : Char) (digit : Decimal.isDigit c = true) : Text.isBlank c = false := by
  simp only [Decimal.isDigit, Decimal.value?] at digit
  split at digit
  · rename_i range
    simp only [Text.isBlank, Bool.or_eq_false_iff, Bool.and_eq_false_iff, decide_eq_false_iff_not,
      beq_eq_false_iff_ne]
    omega
  · cases digit

theorem trimStart_cons (c : Char) (rest : List Char) (solid : Text.isBlank c = false) :
    Text.trimStart (c :: rest) = c :: rest := by
  apply Text.trimStart_fixed
  intro d head
  cases head
  exact solid

theorem trimStart_run (run rest : List Char) (digits : ∀ c ∈ run, Decimal.isDigit c = true)
    (some_digit : run ≠ []) : Text.trimStart (run ++ rest) = run ++ rest := by
  obtain ⟨c, tail, rfl⟩ := List.exists_cons_of_ne_nil some_digit
  exact trimStart_cons c _ (digit_solid c (digits c List.mem_cons_self))

theorem skip_cons (c : Char) (rest : List Char) (solid : Text.isBlank c = false) :
    skip? c (c :: rest) = some rest := by
  simp [skip?, trimStart_cons c rest solid]

theorem spanDigits_run (most : Nat) (run : List Char) (c : Char) (rest : List Char)
    (digits : ∀ d ∈ run, Decimal.isDigit d = true) (short : run.length ≤ most)
    (stop : Decimal.isDigit c = false) : spanDigits most (run ++ c :: rest) = (run, c :: rest) := by
  have found : ((run ++ c :: rest).take most).takeWhile Decimal.isDigit = run := by
    rw [List.take_append, List.take_of_length_le short]
    apply Decimal.takeWhile_run run _ digits
    intro d head
    rw [List.head?_take] at head
    split at head
    · cases head
    · cases head
      exact stop
  simp [spanDigits, found]

theorem fixed_ne_nil (width number : Nat) (some_digit : width ≠ 0) :
    Decimal.fixed width number ≠ [] := by
  intro empty
  have length := Decimal.fixed_length width number
  rw [empty] at length
  exact some_digit length.symm

theorem read_fixed (width number : Nat) (some_digit : width ≠ 0)
    (small : number < Nat.pow 10 width) : Decimal.read? (Decimal.fixed width number) = some number := by
  have kept : (Decimal.fixed width number).isEmpty = false := by
    simp [fixed_ne_nil width number some_digit]
  rw [Decimal.read?, kept, Decimal.readFrom_fixed, Nat.mod_eq_of_lt small]
  rfl

theorem readNumber_fixed (width number : Nat) (c : Char) (rest : List Char)
    (some_digit : width ≠ 0) (small : number < Nat.pow 10 width)
    (stop : Decimal.isDigit c = false) :
    readNumber? width (Decimal.fixed width number ++ c :: rest) = some (number, c :: rest) := by
  have digits := Decimal.fixed_isDigit width number
  have run := spanDigits_run width _ c rest digits (Nat.le_of_eq (Decimal.fixed_length _ _)) stop
  rw [readNumber?, trimStart_run _ _ digits (fixed_ne_nil width number some_digit), run]
  simp [read_fixed width number some_digit small]

theorem readYear_sign (digits rest : List Char)
    (run : ∀ c ∈ digits, Decimal.isDigit c = true) (number : Nat)
    (read : Decimal.read? digits = some number) :
    readYear? ('-' :: (digits ++ '-' :: rest)) = some (-(number : Int), '-' :: rest) ∧
      readYear? ('+' :: (digits ++ '-' :: rest)) = some ((number : Int), '-' :: rest) := by
  have found := spanDigits_run (digits ++ '-' :: rest).length digits '-' rest run
    (by rw [List.length_append]; omega) (by decide)
  constructor
  · simp only [readYear?, trimStart_cons '-' _ (by decide), found, read]
    rfl
  · simp only [readYear?, trimStart_cons '+' _ (by decide), found, read]
    rfl

theorem readYear_digits (digits rest : List Char) (run : ∀ c ∈ digits, Decimal.isDigit c = true)
    (some_digit : digits ≠ []) :
    readYear? (digits ++ rest) =
      (readNumber? 4 (digits ++ rest)).map fun (number, tail) => ((number : Int), tail) := by
  obtain ⟨c, tail, rfl⟩ := List.exists_cons_of_ne_nil some_digit
  have digit := run c List.mem_cons_self
  have minus : c ≠ '-' := by
    rintro rfl
    exact absurd digit (by decide)
  have plus : c ≠ '+' := by
    rintro rfl
    exact absurd digit (by decide)
  rw [readYear?, trimStart_run _ rest run some_digit]
  simp [minus, plus]

theorem readYear_yearText (year : Int) (rest : List Char) :
    readYear? (yearText year ++ '-' :: rest) = some (year, '-' :: rest) := by
  unfold yearText
  split
  · rename_i plain
    have whole : (year.natAbs : Int) = year := by omega
    rw [readYear_digits _ _ (Decimal.fixed_isDigit 4 _) (fixed_ne_nil 4 _ (by decide)),
      readNumber_fixed 4 year.natAbs '-' rest (by decide) (by show _ < 10000; omega) (by decide)]
    simp only [Option.map_some, whole]
  · rename_i signed
    -- Beyond four digits the sign tells where the year ends.
    have digits : ∃ digits, (if year.natAbs ≤ 9999 then Decimal.fixed 4 year.natAbs
        else Decimal.digits year.natAbs) = digits ∧ (∀ c ∈ digits, Decimal.isDigit c = true) ∧
          Decimal.read? digits = some year.natAbs := by
      split
      · rename_i short
        exact ⟨_, rfl, Decimal.fixed_isDigit 4 _,
          read_fixed 4 _ (by decide) (by show _ < 10000; omega)⟩
      · exact ⟨_, rfl, Decimal.digits_isDigit _, Decimal.read_digits _⟩
    obtain ⟨digits, written, run, read⟩ := digits
    have both := readYear_sign digits rest run year.natAbs read
    rw [written]
    by_cases negative : year < 0
    · have whole : -(year.natAbs : Int) = year := by omega
      rw [if_pos negative, List.cons_append, both.1, whole]
    · have whole : (year.natAbs : Int) = year := by omega
      rw [if_neg negative, List.cons_append, both.2, whole]

theorem readFraction_fixed (width number : Nat) (rest : List Char) (some_digit : width ≠ 0)
    (short : width ≤ 9) (small : number < Nat.pow 10 width) :
    readFraction? ('.' :: Decimal.fixed width number ++ 'Z' :: rest) =
      some (number * Nat.pow 10 (9 - width), 'Z' :: rest) := by
  have run := spanDigits_run 9 (Decimal.fixed width number) 'Z' rest
    (Decimal.fixed_isDigit width number) (by rw [Decimal.fixed_length]; exact short) (by decide)
  have stop : ('Z' :: rest).dropWhile Decimal.isDigit = 'Z' :: rest := rfl
  simp only [List.cons_append, readFraction?, run, read_fixed width number some_digit small,
    Option.map_some, Decimal.fixed_length, stop]

/-- The digits that are left out of a fraction are zeros. -/
theorem readFraction_fractionText (nanos : Nat) (small : nanos < 1000000000) (rest : List Char) :
    readFraction? (fractionText nanos ++ 'Z' :: rest) = some (nanos, 'Z' :: rest) := by
  unfold fractionText
  split
  · rename_i none
    subst none
    rfl
  split
  · rename_i millis
    have back : nanos / 1000000 * Nat.pow 10 (9 - 3) = nanos := by
      show nanos / 1000000 * 1000000 = nanos
      omega
    rw [readFraction_fixed 3 _ rest (by decide) (by decide) (by show _ < 1000; omega), back]
  split
  · rename_i micros
    have back : nanos / 1000 * Nat.pow 10 (9 - 6) = nanos := by
      show nanos / 1000 * 1000 = nanos
      omega
    rw [readFraction_fixed 6 _ rest (by decide) (by decide) (by show _ < 1000000; omega), back]
  · have back : nanos * Nat.pow 10 (9 - 9) = nanos := Nat.mul_one nanos
    rw [readFraction_fixed 9 _ rest (by decide) (by decide) small, back]

/-- True of the instants that a date and a time of day stand for: in the years that have instants,
with leap seconds at the end of a minute only. -/
def Named (instant : Instant) : Prop :=
  firstSecond ≤ instant.seconds ∧ instant.seconds ≤ lastSecond ∧
    (instant.nanos.val < 1000000000 ∨ instant.seconds % 60 = 59)

instance (instant : Instant) : Decidable instant.Named :=
  inferInstanceAs (Decidable (_ ∧ _))

theorem Named.year {instant : Instant} (named : instant.Named) :
    firstYear ≤ (Date.ofDay (instant.seconds / 86400)).year ∧
      (Date.ofDay (instant.seconds / 86400)).year ≤ lastYear := by
  have first : firstSecond = -8334601228800 := by decide
  have last : lastSecond = 8210266876799 := by decide
  have early : -96465292 ≤ instant.seconds / 86400 := by have := named.1; omega
  have late : instant.seconds / 86400 ≤ 95026236 := by have := named.2.1; omega
  obtain ⟨cycle, year, ofYear, within, small, _, split, made⟩ :=
    Date.ofDay_parts (instant.seconds / 86400)
  rw [made]
  generalize instant.seconds / 86400 = day at early late split
  clear made first last named
  unfold Date.daysBeforeYear at split
  unfold Date.monthOfYear firstYear lastYear
  -- The first year begins in the winter of year 256 of its cycle, the last ends in that of 142.
  have least : -656 ≤ cycle := by omega
  have most : cycle ≤ 655 := by omega
  constructor
  · obtain rfl | later : cycle = -656 ∨ -655 ≤ cycle := by omega
    · have begun : 256 ≤ year := by omega
      have winter : year = 256 → 306 ≤ ofYear := by omega
      dsimp only
      split <;> omega
    · dsimp only
      split <;> omega
  · obtain rfl | earlier : cycle = 655 ∨ cycle ≤ 654 := by omega
    · have begun : year ≤ 142 := by omega
      have winter : year = 142 → ofYear ≤ 305 := by omega
      dsimp only
      split <;> omega
    · dsimp only
      split <;> omega

theorem fractionText_head (nanos : Nat) :
    ∃ c tail, fractionText nanos ++ ['Z'] = c :: tail ∧ Decimal.isDigit c = false := by
  unfold fractionText
  repeat' split
  all_goals exact ⟨_, _, rfl, by decide⟩

/-- The written parts, in their order, are what is read. -/
theorem parse_parts (date : Date) (hour minute second nanos : Nat) (valid : date.isValid = true)
    (hours : hour < 100) (minutes : minute < 100) (seconds : second < 100)
    (fraction : nanos < 1000000000) :
    parse? (yearText date.year ++ '-' :: Decimal.fixed 2 date.month ++
        '-' :: Decimal.fixed 2 date.day ++ 'T' :: Decimal.fixed 2 hour ++
        ':' :: Decimal.fixed 2 minute ++ ':' :: Decimal.fixed 2 second ++
        fractionText nanos ++ ['Z']) =
      ofParts? date hour minute second nanos 0 := by
  have months : date.month < 100 ∧ date.day < 100 := by
    simp only [Date.isValid, Bool.and_eq_true, decide_eq_true_eq] at valid
    have most : Date.daysInMonth date.year date.month ≤ 31 := by
      unfold Date.daysInMonth
      repeat' split
      all_goals omega
    omega
  have pair (number : Nat) (small : number < 100) (c : Char) (rest : List Char)
      (stop : Decimal.isDigit c = false) :
      readNumber? 2 (Decimal.fixed 2 number ++ c :: rest) = some (number, c :: rest) :=
    readNumber_fixed 2 number c rest (by decide) small stop
  have hyphen (rest : List Char) : skip? '-' ('-' :: rest) = some rest :=
    skip_cons '-' rest (by decide)
  have colon (rest : List Char) : skip? ':' (':' :: rest) = some rest :=
    skip_cons ':' rest (by decide)
  obtain ⟨c, tail, front, stop⟩ := fractionText_head nanos
  have point : readFraction? (c :: tail) = some (nanos, ['Z']) := by
    rw [← front]
    exact readFraction_fractionText nanos fraction []
  have zone : readOffset? ['Z'] = some (0, []) := rfl
  simp only [List.append_assoc, List.cons_append, front]
  unfold parse?
  simp only [Option.bind_eq_bind]
  rw [readYear_yearText, Option.bind_some, hyphen, Option.bind_some,
    pair _ months.1 '-' _ (by decide), Option.bind_some, hyphen, Option.bind_some,
    pair _ months.2 'T' _ (by decide), Option.bind_some]
  dsimp only
  rw [if_pos (.inl rfl), Option.bind_some, pair _ hours ':' _ (by decide), Option.bind_some, colon,
    Option.bind_some, pair _ minutes ':' _ (by decide), Option.bind_some, colon, Option.bind_some,
    pair _ seconds c _ stop, Option.bind_some, point, Option.bind_some, zone, Option.bind_some]
  rfl

theorem parse_text (instant : Instant) (named : instant.Named) :
    parse? instant.text = some instant := by
  obtain ⟨firstYear, lastYear⟩ := named.year
  obtain ⟨least, most, leap⟩ := named
  have valid := Date.ofDay_valid (instant.seconds / 86400)
  have sameDay := Date.toDay_ofDay (instant.seconds / 86400)
  have range := instant.nanos.isLt
  unfold text
  rw [parse_parts _ _ _ _ _ valid (by omega) (by omega) (by omega) (by omega)]
  generalize Date.ofDay (instant.seconds / 86400) = date at firstYear lastYear valid sameDay ⊢
  generalize ofDay : (instant.seconds % 86400).toNat = time
  generalize fraction : instant.nanos.val = nanos at range leap
  -- Second 60 is written for a second's worth of nanoseconds on top of second 59.
  have ends : (time % 60 + nanos / 1000000000) / 60 = nanos / 1000000000 := by omega
  have back : date.toDay * 86400 + ((time / 3600 * 3600 + time / 60 % 60 * 60 +
      (time % 60 + nanos / 1000000000 - nanos / 1000000000) : Nat) : Int) - 0 = instant.seconds := by
    rw [sameDay]
    omega
  have whole : nanos % 1000000000 + nanos / 1000000000 * 1000000000 = nanos := by omega
  have fields : date.isValid = true ∧ Instant.firstYear ≤ date.year ∧ date.year ≤ Instant.lastYear ∧
      time / 3600 ≤ 23 ∧ time / 60 % 60 ≤ 59 ∧ time % 60 + nanos / 1000000000 ≤ 60 ∧
      Int.natAbs 0 < 86400 :=
    ⟨valid, firstYear, lastYear, by omega, by omega, by omega, by decide⟩
  rw [ofParts?, if_pos fields]
  simp only [ends, back, whole, if_pos (And.intro least most)]
  have same : Fin.ofNat 2000000000 nanos = instant.nanos := by
    rw [← fraction]
    exact Fin.ext (Nat.mod_eq_of_lt instant.nanos.isLt)
  rw [same]

end SharedTree.Instant
