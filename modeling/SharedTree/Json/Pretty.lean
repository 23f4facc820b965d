import SharedTree.Json.Printer
/-!
JSON values as text over several lines: each element and each member stands on a line of its own,
two spaces further in than the brackets around it.
-/
namespace SharedTree.Json

def newLine (depth : Nat) : List Char := '\n' :: List.replicate (2 * depth) ' '

mutual
def renderLines (depth : Nat) : Json → List Char
  | .scalar value => renderScalar value
  | .array [] => ['[', ']']
  | .array (element :: rest) =>
      '[' :: newLine (depth + 1) ++ element.renderLines (depth + 1) ++ elementLines depth rest
  | .object [] => ['{', '}']
  | .object ((key, value) :: rest) =>
      '{' :: newLine (depth + 1) ++ quoted key ++ ':' :: ' ' :: value.renderLines (depth + 1) ++
        memberLines depth rest

def elementLines (depth : Nat) : List Json → List Char
  | [] => newLine depth ++ [']']
  | element :: rest =>
      ',' :: newLine (depth + 1) ++ element.renderLines (depth + 1) ++ elementLines depth rest

def memberLines (depth : Nat) : List (String × Json) → List Char
  | [] => newLine depth ++ ['}']
  | (key, value) :: rest =>
      ',' :: newLine (depth + 1) ++ quoted key ++ ':' :: ' ' :: value.renderLines (depth + 1) ++
        memberLines depth rest
end

def lines (value : Json) : String := String.ofList (value.renderLines 0)

end SharedTree.Json
