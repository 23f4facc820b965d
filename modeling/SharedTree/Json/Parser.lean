import SharedTree.Json.Basic
import SharedTree.Json.Binary64
import SharedTree.Text.Hex
/-!
Reading JSON text. Arrays and objects may be nested only so deeply; the number of levels left is
the measure of the recursion. Members are kept in the order of the text, repeated keys included.
-/
namespace SharedTree.Json

def isSpace (c : Char) : Bool := c == ' ' || c == '\t' || c == '\n' || c == '\r'

def skipSpace (text : List Char) : List Char := text.dropWhile isSpace

def after? : List Char → List Char → Option (List Char)
  | [], text => some text
  | c :: rest, d :: text => if c = d then after? rest text else none
  | _ :: _, [] => none

def readUnit? (text : List Char) : Option (Nat × List Char) :=
  match text with
  | a :: b :: c :: d :: rest => (Hex.read? [a, b, c, d]).map fun unit => (unit, rest)
  | _ => none

/-- The character of an escape by number; one beyond 16 bits takes a pair of escapes. -/
def readCodePoint? (text : List Char) : Option (Char × List Char) := do
  let (unit, rest) ← readUnit? text
  if 0xD800 ≤ unit ∧ unit < 0xDC00 then
    let rest ← after? ['\\', 'u'] rest
    let (low, rest) ← readUnit? rest
    if 0xDC00 ≤ low ∧ low < 0xE000 then
      some (Char.ofNat ((unit - 0xD800) * 1024 + (low - 0xDC00) + 0x10000), rest)
    else none
  else if 0xDC00 ≤ unit ∧ unit < 0xE000 then none
  else some (Char.ofNat unit, rest)

def readEscape? (text : List Char) : Option (Char × List Char) :=
  match text with
  | '"' :: rest => some ('"', rest)
  | '\\' :: rest => some ('\\', rest)
  | '/' :: rest => some ('/', rest)
  | 'b' :: rest => some (Char.ofNat 8, rest)
  | 'f' :: rest => some (Char.ofNat 12, rest)
  | 'n' :: rest => some ('\n', rest)
  | 'r' :: rest => some ('\r', rest)
  | 't' :: rest => some ('\t', rest)
  | 'u' :: rest => readCodePoint? rest
  | _ => none

def readChars? : Nat → List Char → Option (List Char × List Char)
  | 0, _ => none
  | most + 1, text =>
      match text with
      | '"' :: rest => some ([], rest)
      | '\\' :: rest =>
          match readEscape? rest with
          | some (c, tail) => (readChars? most tail).map fun (cs, last) => (c :: cs, last)
          | none => none
      | c :: rest =>
          if c.toNat < 32 then none
          else (readChars? most rest).map fun (cs, last) => (c :: cs, last)
      | [] => none

def readString? (text : List Char) : Option (String × List Char) :=
  (readChars? text.length text).map fun (cs, rest) => (String.ofList cs, rest)

/-- The value of a run of digits as far as it stays below 2^64, and how many digits are left. -/
def significand : Nat → List Char → Nat × Nat
  | sofar, [] => (sofar, 0)
  | sofar, c :: rest =>
      let next := sofar * 10 + (Decimal.value? c).getD 0
      if next < 18446744073709551616 then significand next rest else (sofar, rest.length + 1)

def readExponent? (text : List Char) : Option (Int × List Char) :=
  let (negative, unsigned) := match text with
    | '-' :: rest => (true, rest)
    | '+' :: rest => (false, rest)
    | rest => (false, rest)
  let run := unsigned.takeWhile Decimal.isDigit
  (Decimal.read? run).map fun number =>
    (if negative then -(number : Int) else number, unsigned.drop run.length)

def float? (negative : Bool) (whole fraction : List Char) (exponent : Int) : Option Scalar :=
  let (head, dropped) := significand 0 whole
  let (number, left) := significand head fraction
  (Binary64.ofDecimal? negative number (dropped - (fraction.length - left : Nat) + exponent)).map
    Scalar.float

/-- A number without fraction and exponent: an integer if 64 bits hold it, a float if not. Zero
with a minus sign is a float. -/
def whole? (negative : Bool) (digits : List Char) : Option Scalar :=
  let (number, dropped) := significand 0 digits
  if dropped = 0 ∧ negative = false then some (.integer number)
  else if dropped = 0 ∧ 0 < number ∧ number ≤ 9223372036854775808 then some (.integer (-(number : Int)))
  else float? negative digits [] 0

def readUnsigned? (negative : Bool) (text : List Char) : Option (Scalar × List Char) :=
  let digits := text.takeWhile Decimal.isDigit
  let rest := text.drop digits.length
  if digits.isEmpty ∨ (digits.head? = some '0' ∧ digits.length ≠ 1) then none
  else
    match rest with
    | '.' :: tail =>
        let fraction := tail.takeWhile Decimal.isDigit
        let behind := tail.drop fraction.length
        if fraction.isEmpty then none
        else
          match behind with
          | 'e' :: last =>
              match readExponent? last with
              | some (exponent, final) =>
                  (float? negative digits fraction exponent).map fun value => (value, final)
              | none => none
          | 'E' :: last =>
              match readExponent? last with
              | some (exponent, final) =>
                  (float? negative digits fraction exponent).map fun value => (value, final)
              | none => none
          | last => (float? negative digits fraction 0).map fun value => (value, last)
    | 'e' :: last =>
        match readExponent? last with
        | some (exponent, final) => (float? negative digits [] exponent).map fun value => (value, final)
        | none => none
    | 'E' :: last =>
        match readExponent? last with
        | some (exponent, final) => (float? negative digits [] exponent).map fun value => (value, final)
        | none => none
    | last => (whole? negative digits).map fun value => (value, last)

def readScalar? (text : List Char) : Option (Scalar × List Char) :=
  match text with
  | '"' :: rest => (readString? rest).map fun (content, tail) => (.string content, tail)
  | 'n' :: rest => (after? "ull".toList rest).map fun tail => (.null, tail)
  | 't' :: rest => (after? "rue".toList rest).map fun tail => (.bool true, tail)
  | 'f' :: rest => (after? "alse".toList rest).map fun tail => (.bool false, tail)
  | '-' :: rest => readUnsigned? true rest
  | rest => readUnsigned? false rest

def readElements? (value? : List Char → Option (Json × List Char)) :
    Nat → List Char → Option (List Json × List Char)
  | 0, _ => none
  | most + 1, text =>
      match skipSpace text with
      | ']' :: rest => some ([], rest)
      | ',' :: rest =>
          match value? (skipSpace rest) with
          | some (element, tail) =>
              (readElements? value? most tail).map fun (elements, last) => (element :: elements, last)
          | none => none
      | _ => none

def readMember? (value? : List Char → Option (Json × List Char)) (text : List Char) :
    Option ((String × Json) × List Char) := do
  let rest ← after? ['"'] text
  let (key, rest) ← readString? rest
  let rest ← after? [':'] (skipSpace rest)
  let (value, rest) ← value? (skipSpace rest)
  some ((key, value), rest)

def readMembers? (value? : List Char → Option (Json × List Char)) :
    Nat → List Char → Option (List (String × Json) × List Char)
  | 0, _ => none
  | most + 1, text =>
      match skipSpace text with
      | '}' :: rest => some ([], rest)
      | ',' :: rest =>
          match readMember? value? (skipSpace rest) with
          | some (member, tail) =>
              (readMembers? value? most tail).map fun (members, last) => (member :: members, last)
          | none => none
      | _ => none

def readValue? : Nat → List Char → Option (Json × List Char)
  | 0, text => (readScalar? text).map fun (value, rest) => (.scalar value, rest)
  | levels + 1, text =>
      match text with
      | '[' :: rest =>
          match skipSpace rest with
          | ']' :: tail => some (.array [], tail)
          | inner =>
              match readValue? levels inner with
              | some (first, tail) =>
                  (readElements? (readValue? levels) tail.length tail).map fun (more, last) =>
                    (.array (first :: more), last)
              | none => none
      | '{' :: rest =>
          match skipSpace rest with
          | '}' :: tail => some (.object [], tail)
          | inner =>
              match readMember? (readValue? levels) inner with
              | some (first, tail) =>
                  (readMembers? (readValue? levels) tail.length tail).map fun (more, last) =>
                    (.object (first :: more), last)
              | none => none
      | rest => (readScalar? rest).map fun (value, tail) => (.scalar value, tail)

def maxDepth : Nat := 127

def parseWithin? (levels : Nat) (text : List Char) : Option Json :=
  match readValue? levels (skipSpace text) with
  | some (value, rest) => if (skipSpace rest).isEmpty then some value else none
  | none => none

def parse? (text : List Char) : Option Json := parseWithin? maxDepth text

end SharedTree.Json
