/-!
Decimal digits of natural numbers. Main statement: `read_digits`, the digits of a number read back
as that number.
-/
namespace SharedTree.Decimal

def digit (value : Nat) : Char := Char.ofNat (48 + value)

def value? (c : Char) : Option Nat :=
  if 48 ≤ c.toNat ∧ c.toNat ≤ 57 then some (c.toNat - 48) else none

def isDigit (c : Char) : Bool := (value? c).isSome

def digitsWithin : Nat → Nat → List Char
  | 0, number => [digit (number % 10)]
  | more + 1, number =>
      if number < 10 then [digit number]
      else digitsWithin more (number / 10) ++ [digit (number % 10)]

def digits (number : Nat) : List Char := digitsWithin number number

def fixed : Nat → Nat → List Char
  | 0, _ => []
  | width + 1, number => fixed width (number / 10) ++ [digit (number % 10)]

def readFrom? : Nat → List Char → Option Nat
  | sofar, [] => some sofar
  | sofar, c :: rest =>
      match value? c with
      | some value => readFrom? (sofar * 10 + value) rest
      | none => none

def read? (text : List Char) : Option Nat :=
  if text.isEmpty then none else readFrom? 0 text

def signed (number : Int) : List Char :=
  if number < 0 then '-' :: digits number.natAbs else digits number.natAbs

theorem value_digit (value : Nat) (small : value < 10) : value? (digit value) = some value := by
  have checked : ∀ v : Fin 10, value? (digit v.val) = some v.val := by decide
  exact checked ⟨value, small⟩

theorem readFrom_append (sofar : Nat) (text : List Char) (value : Nat) (small : value < 10)
    (middle : Nat) (first : readFrom? sofar text = some middle) :
    readFrom? sofar (text ++ [digit value]) = some (middle * 10 + value) := by
  induction text generalizing sofar with
  | nil =>
    have same : sofar = middle := by simpa [readFrom?] using first
    simp [readFrom?, value_digit value small, same]
  | cons c rest ih =>
    simp only [readFrom?, List.cons_append] at first ⊢
    cases known : value? c with
    | none => simp [known] at first
    | some v =>
      rw [known] at first
      exact ih _ first

theorem digitsWithin_ne_nil (more number : Nat) : digitsWithin more number ≠ [] := by
  cases more with
  | zero => simp [digitsWithin]
  | succ more =>
    simp only [digitsWithin]
    split <;> simp

theorem readFrom_digitsWithin (more number : Nat) (enough : number ≤ more) :
    readFrom? 0 (digitsWithin more number) = some number := by
  induction more generalizing number with
  | zero =>
    have zero : number = 0 := by omega
    simp [zero, digitsWithin, readFrom?, value_digit]
  | succ more ih =>
    simp only [digitsWithin]
    split
    · rename_i small
      simp [readFrom?, value_digit number small]
    · have small : number % 10 < 10 := Nat.mod_lt _ (by decide)
      rw [readFrom_append 0 _ _ small _ (ih (number / 10) (by omega))]
      congr 1
      omega

theorem readFrom_digits (number : Nat) : readFrom? 0 (digits number) = some number :=
  readFrom_digitsWithin number number (Nat.le_refl number)

theorem digits_ne_nil (number : Nat) : digits number ≠ [] := digitsWithin_ne_nil number number

theorem read_digits (number : Nat) : read? (digits number) = some number := by
  have kept : (digits number).isEmpty = false := by simp [digits_ne_nil]
  simp [read?, kept, readFrom_digits]

theorem fixed_length (width number : Nat) : (fixed width number).length = width := by
  induction width generalizing number with
  | zero => rfl
  | succ width ih => simp [fixed, ih]

theorem readFrom_fixed (width number : Nat) :
    readFrom? 0 (fixed width number) = some (number % Nat.pow 10 width) := by
  induction width generalizing number with
  | zero => simp [fixed, readFrom?, Nat.mod_one]
  | succ width ih =>
    have small : number % 10 < 10 := Nat.mod_lt _ (by decide)
    rw [fixed, readFrom_append 0 _ _ small _ (ih (number / 10))]
    congr 1
    change _ = number % (Nat.pow 10 width * 10)
    rw [Nat.mul_comm (Nat.pow 10 width) 10, Nat.mod_mul]
    omega

end SharedTree.Decimal
