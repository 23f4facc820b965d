import SharedTree.Instant.Calendar
/-!
Days and dates tell each other: the date of a day exists, and it is the date of that day
(`ofDay_valid`, `toDay_ofDay`). The years are counted off day by day within a cycle, first by
centuries, then by leap days.
-/
namespace SharedTree.Date

def yearOfCycle (ofCycle : Nat) : Nat :=
  (ofCycle - ofCycle / 1460 + ofCycle / 36524 - ofCycle / 146096) / 365

/-- Within a century there is a leap day for every four years that are over. -/
theorem yearOfCycle_century (century ofCycle : Nat) (early : century ≤ 3)
    (after : 36524 * century ≤ ofCycle) (before : ofCycle < 36524 * (century + 1)) :
    yearOfCycle ofCycle < 400 ∧ daysBeforeYear (yearOfCycle ofCycle) ≤ ofCycle ∧
      ofCycle ≤ daysBeforeYear (yearOfCycle ofCycle) + 365 ∧
      (ofCycle = daysBeforeYear (yearOfCycle ofCycle) + 365 →
        isLeapYear ((yearOfCycle ofCycle : Int) + 1) = true) := by
  have whole : ofCycle / 36524 = century := by omega
  have open_cycle : ofCycle / 146096 = 0 := by omega
  unfold daysBeforeYear yearOfCycle
  rw [whole, open_cycle]
  generalize leaps : ofCycle / 1460 = q
  generalize found : (ofCycle - q + century - 0) / 365 = year
  have hundred : year / 100 = century := by omega
  have least : year / 4 ≤ q := by omega
  have most : q ≤ year / 4 + 1 := by omega
  have within : year < 400 := by omega
  have begun : 1460 * q ≤ ofCycle := by omega
  refine ⟨within, by omega, by omega, ?_⟩
  intro last
  have leapt : q = year / 4 + 1 := by omega
  have third : year % 4 = 3 := by
    rcases (by omega : year % 4 = 0 ∨ year % 4 = 1 ∨ year % 4 = 2 ∨ year % 4 = 3) with
      first | second | third | fourth <;> omega
  have inside : (year + 1) % 100 ≠ 0 := by omega
  simp only [isLeapYear, Bool.and_eq_true, Bool.or_eq_true, decide_eq_true_eq]
  omega

/-- A day of a cycle is one of the first 366 of its year, the 366th only before a leap year's
February is over. -/
theorem yearOfCycle_bounds (ofCycle : Nat) (small : ofCycle < 146097) :
    yearOfCycle ofCycle < 400 ∧ daysBeforeYear (yearOfCycle ofCycle) ≤ ofCycle ∧
      ofCycle ≤ daysBeforeYear (yearOfCycle ofCycle) + 365 ∧
      (ofCycle = daysBeforeYear (yearOfCycle ofCycle) + 365 →
        isLeapYear ((yearOfCycle ofCycle : Int) + 1) = true) := by
  by_cases last : ofCycle = 146096
  · subst last
    decide
  · exact yearOfCycle_century (ofCycle / 36524) ofCycle (by omega) (by omega) (by omega)

theorem isLeapYear_cycle (cycle year : Int) :
    isLeapYear (cycle * 400 + year) = isLeapYear year := by
  have four : (cycle * 400 + year) % 4 = year % 4 := by omega
  have hundred : (cycle * 400 + year) % 100 = year % 100 := by omega
  have cycles : (cycle * 400 + year) % 400 = year % 400 := by omega
  simp only [isLeapYear, four, hundred, cycles]

def monthOfYear (ofYear : Nat) : Nat := (5 * ofYear + 2) / 153

theorem monthOfYear_bounds (ofYear : Nat) (small : ofYear ≤ 365) :
    monthOfYear ofYear ≤ 11 ∧ daysBeforeMonth (monthOfYear ofYear) ≤ ofYear := by
  unfold daysBeforeMonth monthOfYear
  omega

/-- What a day is made of: its cycle, the year of the cycle and the day of the year. -/
theorem ofDay_parts (day : Int) :
    ∃ (cycle : Int) (year ofYear : Nat), year < 400 ∧ ofYear ≤ 365 ∧
      (ofYear = 365 → isLeapYear ((year : Int) + 1) = true) ∧
      day + 719468 = cycle * 146097 + (daysBeforeYear year + ofYear : Nat) ∧
      ofDay day =
        { year := if monthOfYear ofYear < 10 then cycle * 400 + year else cycle * 400 + year + 1
          month := if monthOfYear ofYear < 10 then monthOfYear ofYear + 3 else monthOfYear ofYear - 9
          day := ofYear - daysBeforeMonth (monthOfYear ofYear) + 1 } := by
  generalize shifted : day + 719468 = count
  have small : (count % 146097).toNat < 146097 := by omega
  obtain ⟨within, least, most, leap⟩ := yearOfCycle_bounds _ small
  refine ⟨count / 146097, yearOfCycle (count % 146097).toNat,
    (count % 146097).toNat - daysBeforeYear (yearOfCycle (count % 146097).toNat), within,
    by omega, fun last => leap (by omega), by omega, ?_⟩
  have months := monthOfYear_bounds ((count % 146097).toNat -
    daysBeforeYear (yearOfCycle (count % 146097).toNat)) (by omega)
  simp only [ofDay, shifted, ← yearOfCycle.eq_1, ← monthOfYear.eq_1]
  congr 1
  -- The year ends with February.
  split <;> split <;> omega

/-- The months from March to January are as long as the counting by fifths of a day has it. -/
theorem daysInMonth_gap (year : Int) (month : Nat) (early : month ≤ 10) :
    daysInMonth year (if month < 10 then month + 3 else month - 9) =
      daysBeforeMonth (month + 1) - daysBeforeMonth month := by
  have cases : month = 0 ∨ month = 1 ∨ month = 2 ∨ month = 3 ∨ month = 4 ∨ month = 5 ∨ month = 6 ∨
      month = 7 ∨ month = 8 ∨ month = 9 ∨ month = 10 := by omega
  rcases cases with rfl | rfl | rfl | rfl | rfl | rfl | rfl | rfl | rfl | rfl | rfl <;> rfl

theorem ofDay_valid (day : Int) : (ofDay day).isValid = true := by
  obtain ⟨cycle, year, ofYear, within, small, leap, _, made⟩ := ofDay_parts day
  obtain ⟨bound, begun⟩ := monthOfYear_bounds ofYear small
  have before : ofYear < daysBeforeMonth (monthOfYear ofYear + 1) := by
    unfold daysBeforeMonth monthOfYear
    omega
  rw [made]
  generalize monthOfYear ofYear = month at bound begun before ⊢
  simp only [isValid, Bool.and_eq_true, decide_eq_true_eq]
  refine ⟨⟨⟨by split <;> omega, by split <;> omega⟩, by omega⟩, ?_⟩
  by_cases early : month ≤ 10
  · rw [daysInMonth_gap _ month early]
    omega
  · -- February is what is left of the year.
    have february : month = 11 := by omega
    subst february
    have first : daysBeforeMonth 11 = 337 := rfl
    show ofYear - daysBeforeMonth 11 + 1 ≤ if isLeapYear (cycle * 400 + year + 1) then 29 else 28
    rw [Int.add_assoc, isLeapYear_cycle, first]
    by_cases last : ofYear = 365
    · rw [if_pos (leap last)]
      omega
    · split <;> omega

theorem toDay_ofDay (day : Int) : toDay (ofDay day) = day := by
  obtain ⟨cycle, year, ofYear, within, small, _, split, made⟩ := ofDay_parts day
  obtain ⟨bound, begun⟩ := monthOfYear_bounds ofYear small
  rw [made]
  generalize monthOfYear ofYear = month at bound begun ⊢
  have sameYear : (if (if month < 10 then month + 3 else month - 9) ≤ 2 then
      (if month < 10 then cycle * 400 + (year : Int) else cycle * 400 + year + 1) - 1
      else if month < 10 then cycle * 400 + (year : Int) else cycle * 400 + year + 1) =
        cycle * 400 + year := by
    split <;> split <;> omega
  have sameMonth : ((if month < 10 then month + 3 else month - 9) + 9) % 12 = month := by
    split <;> omega
  have ofCycle : ((cycle * 400 + (year : Int)) % 400).toNat = year := by omega
  have cycles : (cycle * 400 + (year : Int)) / 400 = cycle := by omega
  simp only [toDay, sameYear, sameMonth, ofCycle, cycles]
  omega

end SharedTree.Date
