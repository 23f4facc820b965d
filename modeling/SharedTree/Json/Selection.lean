import SharedTree.Json.Parser
import SharedTree.Text.Utf8
/-!
Reading an object out of bytes when only some of its members are asked for. The other values are
passed over: they need to have the shape of JSON, but may be nested to any depth, hold numbers of
any size, and have strings that stand for no text.
-/
namespace SharedTree.Json

/-- What follows a string, from behind its opening quote. Its escapes must be well formed; what they
stand for is not looked at. -/
def skipString? : List Char → Option (List Char)
  | '"' :: rest => some rest
  | '\\' :: 'u' :: a :: b :: c :: d :: rest =>
      if (Hex.read? [a, b, c, d]).isSome then skipString? rest else none
  | '\\' :: c :: rest =>
      if ['"', '\\', '/', 'b', 'f', 'n', 'r', 't'].contains c then skipString? rest else none
  | c :: rest => if c.toNat < 32 || c == '\\' then none else skipString? rest
  | [] => none

def skipDigits? (text : List Char) : Option (List Char) :=
  if (text.head?.map Decimal.isDigit).getD false then some (text.dropWhile Decimal.isDigit)
  else none

def skipWhole? : List Char → Option (List Char)
  | '0' :: rest => some rest
  | text => skipDigits? text

def skipFraction? : List Char → Option (List Char)
  | '.' :: rest => skipDigits? rest
  | text => some text

def skipSign : List Char → List Char
  | '+' :: rest => rest
  | '-' :: rest => rest
  | text => text

def skipExponent? : List Char → Option (List Char)
  | 'e' :: rest => skipDigits? (skipSign rest)
  | 'E' :: rest => skipDigits? (skipSign rest)
  | text => some text

def skipNumber? (text : List Char) : Option (List Char) :=
  (skipWhole? text).bind fun rest => (skipFraction? rest).bind skipExponent?

def skipScalar? : List Char → Option (List Char)
  | '"' :: rest => skipString? rest
  | 'n' :: rest => after? "ull".toList rest
  | 't' :: rest => after? "rue".toList rest
  | 'f' :: rest => after? "alse".toList rest
  | '-' :: rest => skipNumber? rest
  | text => skipNumber? text

inductive Bracket where
  | square
  | curly
deriving DecidableEq

def Bracket.closing : Bracket → Char
  | square => ']'
  | curly => '}'

def skipKey? : Bracket → List Char → Option (List Char)
  | .square, text => some text
  | .curly, text =>
      (after? ['"'] text).bind fun rest =>
        (skipString? rest).bind fun tail => after? [':'] (skipSpace tail)

/-- Where in a value a text goes on: before a part, behind an opening bracket, or behind a part. -/
inductive Point where
  | before
  | opened
  | behind
deriving DecidableEq

def skipOpen? : Nat → Point → List Bracket → List Char → Option (List Char)
  | 0, _, _, _ => none
  | _ + 1, .behind, [], text => some text
  | _ + 1, .opened, [], _ => none
  | most + 1, .before, outer, text =>
      match skipSpace text with
      | '[' :: rest => skipOpen? most .opened (.square :: outer) rest
      | '{' :: rest => skipOpen? most .opened (.curly :: outer) rest
      | inner =>
          match skipScalar? inner with
          | some rest => skipOpen? most .behind outer rest
          | none => none
  | most + 1, .opened, bracket :: outer, text =>
      match after? [bracket.closing] (skipSpace text) with
      | some rest => skipOpen? most .behind outer rest
      | none =>
          match skipKey? bracket (skipSpace text) with
          | some rest => skipOpen? most .before (bracket :: outer) rest
          | none => none
  | most + 1, .behind, bracket :: outer, text =>
      match after? [bracket.closing] (skipSpace text) with
      | some rest => skipOpen? most .behind outer rest
      | none =>
          match (after? [','] (skipSpace text)).bind fun next =>
            skipKey? bracket (skipSpace next) with
          | some rest => skipOpen? most .before (bracket :: outer) rest
          | none => none

/-- What follows the value at the start of a text. Every bracket and every scalar takes two steps at
most. -/
def skipValue? (text : List Char) : Option (List Char) :=
  skipOpen? (2 * text.length + 2) .before [] text

def upTo (rest text : List Char) : List Char := text.take (text.length - rest.length)

def splitMember? (text : List Char) : Option ((List Char × List Char) × List Char) := do
  let afterKey ← (after? ['"'] text).bind skipString?
  let beforeValue := skipSpace (← after? [':'] (skipSpace afterKey))
  let rest ← skipValue? beforeValue
  some ((upTo afterKey text, upTo rest beforeValue), rest)

def splitMembers? : Nat → List Char → Option (List (List Char × List Char) × List Char)
  | 0, _ => none
  | most + 1, text =>
      match skipSpace text with
      | '}' :: rest => some ([], rest)
      | ',' :: rest =>
          match splitMember? (skipSpace rest) with
          | some (member, tail) =>
              (splitMembers? most tail).map fun (members, last) => (member :: members, last)
          | none => none
      | _ => none

def splitObject? (text : List Char) : Option (List (List Char × List Char) × List Char) :=
  match skipSpace text with
  | '}' :: rest => some ([], rest)
  | inner =>
      match splitMember? inner with
      | some (member, tail) =>
          (splitMembers? (tail.length + 1) tail).map fun (more, last) => (member :: more, last)
      | none => none

def readBytes? (levels : Nat) (text : List Char) : Option Json :=
  (Utf8.decode? (text.map Char.toUInt8)).bind (parseWithin? levels)

def readNamed? (names : List String) : List (List Char × List Char) → Option (List (String × Json))
  | [] => some []
  | (key, value) :: rest =>
      match readBytes? 0 key, readNamed? names rest with
      | some (.string name), some others =>
          if names.contains name then
            (readBytes? (maxDepth - 1) value).map fun read => (name, read) :: others
          else some others
      | _, _ => none

def readObject? (names : List String) (bytes : List UInt8) : Option Json :=
  match skipSpace (bytes.map Char.ofUInt8) with
  | '{' :: inner =>
      match splitObject? inner with
      | some (parts, rest) =>
          if (skipSpace rest).isEmpty then (readNamed? names parts).map .object else none
      | none => none
  | _ => none

/-- The value that bytes stand for. Of an object that cannot be read as a whole, the members that do
not have one of the given names are passed over. -/
def select? (names : List String) (bytes : List UInt8) : Option Json :=
  ((Utf8.decode? bytes).bind parse?).or (readObject? names bytes)

end SharedTree.Json
