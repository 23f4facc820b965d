import SharedTree.Json.Selection
/-!
Reading records out of JSON values. A record is written as an object with a member for each field;
unknown members are passed over and a known one may stand there once only. A record is also read
from an array that holds its fields in order. Main statement: `fields_object`, a record written
with all its fields in order gives them back.
-/
namespace SharedTree.Json

/-- The value of the one member with a given key, if there is a member with it; two are an error. -/
def member? (key : String) (members : List (String × Json)) : Option (Option Json) :=
  match members.filter fun member => member.1 == key with
  | [] => some none
  | [member] => some (some member.2)
  | _ => none

/-- The values of the named fields, each present or not. An array must hold at least the first
`least` fields and nothing beyond the last. -/
def fields? (names : List String) (least : Nat) : Json → Option (List (Option Json))
  | .object members => names.mapM fun name => member? name members
  | .array elements =>
      if least ≤ elements.length ∧ elements.length ≤ names.length then
        some (elements.map some ++ List.replicate (names.length - elements.length) none)
      else none
  | _ => none

def caseName? : Json → Option String
  | .string name => some name
  | .object [(name, .null)] => some name
  | _ => none

/-- The name of a case where an empty object is as good as `null`. -/
def looseCaseName? : Json → Option String
  | .object [(name, .object [])] => some name
  | value => caseName? value

def text? : Json → Option String
  | .string text => some text
  | _ => none

def natural? : Json → Option Nat
  | .integer value => if 0 ≤ value ∧ value < 18446744073709551616 then some value.toNat else none
  | _ => none

def int64? : Json → Option Int64
  | .integer value =>
      if -9223372036854775808 ≤ value ∧ value < 9223372036854775808 then some (Int64.ofInt value)
      else none
  | _ => none

def bool? : Json → Option Bool
  | .bool value => some value
  | _ => none

def nullable? {Value : Type} (read : Json → Option Value) : Json → Option (Option Value)
  | .null => some none
  | value => (read value).map some

def list? {Value : Type} (read : Json → Option Value) : Json → Option (List Value)
  | .array elements => elements.mapM read
  | _ => none

def required? {Value : Type} (read : Json → Option Value) : Option Json → Option Value
  | some value => read value
  | none => none

def orElse? {Value : Type} (read : Json → Option Value) (absent : Value) : Option Json → Option Value
  | some value => read value
  | none => some absent

def record? {Value : Type} (names : List String) (read : Json → Option Value)
    (bytes : List UInt8) : Option Value :=
  (select? names bytes).bind read

theorem member_filter (name : String) (members : List (String × Json)) (value : Json)
    (single : members.filter (fun member => member.1 == name) = [(name, value)]) :
    member? name members = some (some value) := by
  simp [member?, single]

theorem filter_absent (name : String) (members : List (String × Json))
    (absent : name ∉ members.map Prod.fst) :
    members.filter (fun member => member.1 == name) = [] := by
  apply List.filter_eq_nil_iff.mpr
  intro member inside equal
  exact absent (List.mem_map.mpr ⟨member, inside, beq_iff_eq.mp equal⟩)

theorem filter_single (members : List (String × Json)) (name : String) (value : Json)
    (unique : (members.map Prod.fst).Nodup) (inside : (name, value) ∈ members) :
    members.filter (fun member => member.1 == name) = [(name, value)] := by
  induction members with
  | nil => simp at inside
  | cons member rest ih =>
    simp only [List.map_cons, List.nodup_cons] at unique
    rcases List.mem_cons.mp inside with equal | later
    · rw [← equal] at unique ⊢
      simp [filter_absent name rest unique.1]
    · have other : member.1 ≠ name := by
        intro same
        exact unique.1 (same ▸ List.mem_map.mpr ⟨(name, value), later, rfl⟩)
      simp [other, ih unique.2 later]

theorem mapM_member (whole members : List (String × Json))
    (unique : (whole.map Prod.fst).Nodup) (part : ∀ member ∈ members, member ∈ whole) :
    (members.map Prod.fst).mapM (fun name => member? name whole) =
      some (members.map fun member => some member.2) := by
  induction members with
  | nil => rfl
  | cons member rest ih =>
    have head := member_filter member.1 whole member.2
      (filter_single whole member.1 member.2 unique (part member List.mem_cons_self))
    have tail := ih fun m inside => part m (List.mem_cons_of_mem member inside)
    simp [head, tail]

theorem fields_object (members : List (String × Json)) (least : Nat)
    (unique : (members.map Prod.fst).Nodup) :
    (Json.object members).fields? (members.map Prod.fst) least =
      some (members.map fun member => some member.2) :=
  mapM_member members members unique fun _ inside => inside

end SharedTree.Json
