import SharedTree.Text.Decimal
/-!
What the digits of a number look like. They are all digits, only zero starts with a zero, and a
run of them in front of something else is found again as the longest run (`takeWhile_run`).
-/
namespace SharedTree.Decimal

theorem digit_isDigit (value : Nat) (small : value < 10) : isDigit (digit value) = true := by
  simp [isDigit, value_digit value small]

theorem digitsWithin_isDigit (more number : Nat) (c : Char) (inside : c ∈ digitsWithin more number) :
    isDigit c = true := by
  induction more generalizing number with
  | zero =>
    rw [List.mem_singleton.mp inside]
    exact digit_isDigit _ (Nat.mod_lt _ (by decide))
  | succ more ih =>
    simp only [digitsWithin] at inside
    split at inside
    · rename_i small
      rw [List.mem_singleton.mp inside]
      exact digit_isDigit number small
    · rcases List.mem_append.mp inside with earlier | last
      · exact ih _ earlier
      · rw [List.mem_singleton.mp last]
        exact digit_isDigit _ (Nat.mod_lt _ (by decide))

theorem digits_isDigit (number : Nat) (c : Char) (inside : c ∈ digits number) : isDigit c = true :=
  digitsWithin_isDigit number number c inside

theorem fixed_isDigit (width number : Nat) (c : Char) (inside : c ∈ fixed width number) :
    isDigit c = true := by
  induction width generalizing number with
  | zero => simp [fixed] at inside
  | succ width ih =>
    rcases List.mem_append.mp inside with earlier | last
    · exact ih _ earlier
    · rw [List.mem_singleton.mp last]
      exact digit_isDigit _ (Nat.mod_lt _ (by decide))

theorem digit_eq_zero (value : Nat) (small : value < 10) (zero : digit value = '0') : value = 0 := by
  have read := value_digit value small
  rw [zero] at read
  exact (Option.some.inj read).symm

theorem digitsWithin_head (more number : Nat) (enough : number ≤ more)
    (leading : (digitsWithin more number).head? = some '0') : number = 0 := by
  induction more generalizing number with
  | zero => omega
  | succ more ih =>
    simp only [digitsWithin] at leading
    split at leading
    · rename_i small
      exact digit_eq_zero number small (Option.some.inj leading)
    · rename_i large
      have front : (digitsWithin more (number / 10)).head? = some '0' := by
        obtain ⟨c, tail, equal⟩ := List.exists_cons_of_ne_nil (digitsWithin_ne_nil more (number / 10))
        rw [equal] at leading ⊢
        exact leading
      have empty := ih (number / 10) (by omega) front
      omega

theorem digits_head (number : Nat) (leading : (digits number).head? = some '0') :
    digits number = ['0'] := by
  rw [digitsWithin_head number number (Nat.le_refl number) leading]
  rfl

theorem takeWhile_run (run rest : List Char) (digits : ∀ c ∈ run, isDigit c = true)
    (stop : ∀ c, rest.head? = some c → isDigit c = false) :
    (run ++ rest).takeWhile isDigit = run := by
  rw [List.takeWhile_append_of_pos digits]
  cases rest with
  | nil => simp
  | cons c tail => simp [stop c rfl]

theorem readFrom_ge (sofar value : Nat) (text : List Char) (read : readFrom? sofar text = some value) :
    sofar ≤ value := by
  induction text generalizing sofar with
  | nil => exact Nat.le_of_eq (Option.some.inj read)
  | cons c rest ih =>
    simp only [readFrom?] at read
    cases known : value? c with
    | none => simp [known] at read
    | some digit =>
      rw [known] at read
      have later := ih _ read
      omega

end SharedTree.Decimal
