import SharedTree.Text.Decimal
/-!
Floats of 64 bits as decimal text. The digits written are the fewest that read back as the same
float, and of those the nearest to it. Reading takes as many digits as fit in 64 bits and scales
them by one power of ten.
-/
namespace SharedTree.Binary64

structure Ratio where
  numerator : Nat
  denominator : Nat

def Ratio.scale (ratio : Ratio) (exponent : Int) : Ratio :=
  if 0 ≤ exponent then ⟨ratio.numerator * Nat.pow 10 exponent.natAbs, ratio.denominator⟩
  else ⟨ratio.numerator, ratio.denominator * Nat.pow 10 exponent.natAbs⟩

def digitCount (number : Nat) : Nat := if number = 0 then 0 else (Decimal.digits number).length

def Ratio.magnitude (ratio : Ratio) : Int :=
  let whole := ratio.numerator / ratio.denominator
  if 0 < whole then digitCount whole
  else
    let inverse := digitCount (ratio.denominator / ratio.numerator)
    let raised := ratio.numerator * Nat.pow 10 inverse
    if ratio.denominator ≤ raised then 1 - inverse else -inverse

def parts (bits : UInt64) : Nat × Int :=
  let field := (bits >>> 52).toNat % 2048
  let fraction := bits.toNat % Nat.pow 2 52
  if field = 0 then (fraction, -1074) else (fraction + Nat.pow 2 52, (field : Int) - 1075)

def binary (significand : Nat) (power : Int) : Ratio :=
  if 0 ≤ power then ⟨significand * Nat.pow 2 power.natAbs, 1⟩ else ⟨significand, Nat.pow 2 power.natAbs⟩

def Ratio.le (a b : Ratio) : Bool := decide (a.numerator * b.denominator ≤ b.numerator * a.denominator)

/-- The interval of numbers that round to a float, and whether its ends belong to it. -/
def interval (bits : UInt64) : Ratio × Ratio × Bool :=
  let (significand, power) := parts bits
  let lowest := bits.toNat % Nat.pow 2 52 = 0 ∧ Nat.pow 2 53 ≤ bits.toNat % Nat.pow 2 63
  let below := if lowest then 4 * significand - 1 else 4 * significand - 2
  (binary below (power - 2), binary (4 * significand + 2) (power - 2), significand % 2 == 0)

/-- The multiple of a power of ten with a given number of digits that is nearest to a float, if it
reads back as that float. -/
def candidate? (bits : UInt64) (count : Nat) : Option (Nat × Int) :=
  let (significand, power) := parts bits
  let value := binary significand power
  let exponent := value.magnitude - count
  let scaled := value.scale (-exponent)
  let floor := scaled.numerator / scaled.denominator
  let (low, high, closed) := interval bits
  let inside (digits : Nat) : Bool :=
    let number := (Ratio.mk digits 1).scale exponent
    if closed then low.le number && number.le high else !number.le low && !high.le number
  let twice := 2 * (scaled.numerator % scaled.denominator)
  let nearer := if twice < scaled.denominator ∨ (twice = scaled.denominator ∧ floor % 2 = 0)
    then floor else floor + 1
  let farther := if nearer = floor then floor + 1 else floor
  if inside nearer then some (nearer, exponent)
  else if inside farther then some (farther, exponent)
  else none

def stripZeros : Nat → Nat × Int → Nat × Int
  | 0, decimal => decimal
  | more + 1, (digits, exponent) =>
      if digits % 10 = 0 ∧ digits ≠ 0 then stripZeros more (digits / 10, exponent + 1)
      else (digits, exponent)

def shortest (bits : UInt64) : Nat × Int :=
  stripZeros 20 (((List.range 17).findSome? fun count => candidate? bits (count + 1)).getD (0, 0))

structure Layout where
  leastPositional : Int
  mostPositional : Int

/-- Numbers from 0.00001 to below 10^16 are written positionally. -/
def layout : Layout := ⟨-4, 16⟩

def decimalText (digits : Nat) (exponent : Int) : List Char :=
  let run := Decimal.digits digits
  let magnitude := run.length + exponent
  if 0 ≤ exponent ∧ magnitude ≤ layout.mostPositional then
    run ++ List.replicate exponent.natAbs '0' ++ ['.', '0']
  else if 0 < magnitude ∧ magnitude ≤ layout.mostPositional then
    run.take magnitude.natAbs ++ '.' :: run.drop magnitude.natAbs
  else if layout.leastPositional ≤ magnitude ∧ magnitude ≤ 0 then
    '0' :: '.' :: List.replicate magnitude.natAbs '0' ++ run
  else
    let point := if run.length = 1 then run else run.take 1 ++ '.' :: run.drop 1
    let sign := if magnitude - 1 < 0 then '-' else '+'
    point ++ 'e' :: sign :: Decimal.digits (magnitude - 1).natAbs

def text (bits : UInt64) : List Char :=
  let sign := if bits >>> 63 = 1 then ['-'] else []
  if bits.toNat % Nat.pow 2 63 = 0 then sign ++ ['0', '.', '0']
  else
    let (digits, exponent) := shortest bits
    sign ++ decimalText digits exponent

def powerOfTen (exponent : Nat) : Float := Float.ofScientific 1 false exponent

def divideDown : Nat → Float → Nat → Float
  | 0, value, _ => value
  | more + 1, value, exponent =>
      if exponent ≤ 308 then value / powerOfTen exponent
      else divideDown more (value / powerOfTen 308) (exponent - 308)

/-- The float of a significand of 64 bits times a power of ten, scaled in one step where possible;
none if it is too large. Four divisions by 10^308 leave nothing of such a significand. -/
def ofDecimal? (negative : Bool) (significand : Nat) (exponent : Int) : Option UInt64 :=
  let value := Float.ofNat significand
  let signed (magnitude : Float) : Option UInt64 :=
    if magnitude.isInf then none
    else some (if negative then (-magnitude).toBits else magnitude.toBits)
  if 0 ≤ exponent then
    if exponent ≤ 308 then signed (value * powerOfTen exponent.natAbs)
    else if significand = 0 then signed value else none
  else signed (divideDown 4 value exponent.natAbs)

end SharedTree.Binary64
