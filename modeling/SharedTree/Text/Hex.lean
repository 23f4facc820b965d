/-!
Hexadecimal digits. Numbers are written with a fixed number of lower-case digits; digits of either
case are read.
-/
namespace SharedTree.Hex

def digit (value : Nat) : Char :=
  if value < 10 then Char.ofNat (48 + value) else Char.ofNat (87 + value)

def value? (c : Char) : Option Nat :=
  let code := c.toNat
  if 48 ≤ code ∧ code ≤ 57 then some (code - 48)
  else if 97 ≤ code ∧ code ≤ 102 then some (code - 87)
  else if 65 ≤ code ∧ code ≤ 70 then some (code - 55)
  else none

def fixed : Nat → Nat → List Char
  | 0, _ => []
  | width + 1, number => fixed width (number / 16) ++ [digit (number % 16)]

def readFrom? : Nat → List Char → Option Nat
  | sofar, [] => some sofar
  | sofar, c :: rest =>
      match value? c with
      | some value => readFrom? (sofar * 16 + value) rest
      | none => none

def read? (digits : List Char) : Option Nat := readFrom? 0 digits

def bytes? : List Char → Option (List UInt8)
  | [] => some []
  | high :: low :: rest =>
      match value? high, value? low, bytes? rest with
      | some h, some l, some tail => some (UInt8.ofNat (h * 16 + l) :: tail)
      | _, _, _ => none
  | _ => none

def ofBytes (bytes : List UInt8) : List Char :=
  bytes.flatMap fun byte => fixed 2 byte.toNat

theorem fixed_length (width number : Nat) : (fixed width number).length = width := by
  induction width generalizing number with
  | zero => rfl
  | succ width ih => simp [fixed, ih]

theorem value_digit (value : Nat) (small : value < 16) : value? (digit value) = some value := by
  have checked : ∀ v : Fin 16, value? (digit v.val) = some v.val := by decide
  exact checked ⟨value, small⟩

theorem readFrom_append (sofar : Nat) (digits : List Char) (value : Nat) (small : value < 16)
    (middle : Nat) (first : readFrom? sofar digits = some middle) :
    readFrom? sofar (digits ++ [digit value]) = some (middle * 16 + value) := by
  induction digits generalizing sofar with
  | nil =>
    have same : sofar = middle := by simpa [readFrom?] using first
    simp [readFrom?, value_digit value small, same]
  | cons c rest ih =>
    simp only [readFrom?, List.cons_append] at first ⊢
    cases known : value? c with
    | none => simp [known] at first
    | some v =>
      rw [known] at first
      exact ih _ first

theorem read_fixed (width number : Nat) :
    read? (fixed width number) = some (number % Nat.pow 16 width) := by
  induction width generalizing number with
  | zero => simp [fixed, read?, readFrom?, Nat.mod_one]
  | succ width ih =>
    have small : number % 16 < 16 := Nat.mod_lt _ (by decide)
    have step := readFrom_append 0 (fixed width (number / 16)) (number % 16) small _ (ih (number / 16))
    rw [fixed, read?, step]
    congr 1
    change _ = number % (Nat.pow 16 width * 16)
    rw [Nat.mul_comm (Nat.pow 16 width) 16, Nat.mod_mul]
    omega

end SharedTree.Hex
