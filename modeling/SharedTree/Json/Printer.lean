import SharedTree.Json.Basic
import SharedTree.Json.Binary64
import SharedTree.Text.Hex
/-!
JSON values as text without white space. In strings the quote, the backslash and the characters
below the space are escaped, the usual ones by a letter, and all other characters stand for
themselves.
-/
namespace SharedTree.Json

def escape (c : Char) : List Char :=
  if c = '"' then ['\\', '"']
  else if c = '\\' then ['\\', '\\']
  else if c.toNat = 8 then ['\\', 'b']
  else if c.toNat = 9 then ['\\', 't']
  else if c.toNat = 10 then ['\\', 'n']
  else if c.toNat = 12 then ['\\', 'f']
  else if c.toNat = 13 then ['\\', 'r']
  else if c.toNat < 32 then '\\' :: 'u' :: Hex.fixed 4 c.toNat
  else [c]

def quoted (text : String) : List Char := '"' :: text.toList.flatMap escape ++ ['"']

def renderScalar : Scalar → List Char
  | .null => "null".toList
  | .bool true => "true".toList
  | .bool false => "false".toList
  | .integer value => Decimal.signed value
  | .float bits => Binary64.text bits
  | .string text => quoted text

mutual
def render : Json → List Char
  | .scalar value => renderScalar value
  | .array elements => '[' :: renderElements elements
  | .object members => '{' :: renderMembers members

def renderElements : List Json → List Char
  | [] => [']']
  | element :: rest => element.render ++ renderMoreElements rest

def renderMoreElements : List Json → List Char
  | [] => [']']
  | element :: rest => ',' :: element.render ++ renderMoreElements rest

def renderMembers : List (String × Json) → List Char
  | [] => ['}']
  | (key, value) :: rest => quoted key ++ ':' :: value.render ++ renderMoreMembers rest

def renderMoreMembers : List (String × Json) → List Char
  | [] => ['}']
  | (key, value) :: rest => ',' :: quoted key ++ ':' :: value.render ++ renderMoreMembers rest
end

def text (value : Json) : String := String.ofList value.render

end SharedTree.Json
