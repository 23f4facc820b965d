/-!
JSON values. Objects keep their members in the order in which they are given, so a value also says
how it is written. `IsCanonical` picks the values whose objects have ascending keys, and
`normalize` brings any value to that form, the last of equal keys winning. Main statement:
`normalize_canonical`, a canonical value is left as it is.
-/
namespace SharedTree

/-- A value without parts. A float is given by its 64 bits. -/
inductive Scalar where
  | null
  | bool (value : Bool)
  | integer (value : Int)
  | float (bits : UInt64)
  | string (text : String)
deriving DecidableEq

inductive Json where
  | scalar (value : Scalar)
  | array (elements : List Json)
  | object (members : List (String × Json))

namespace Json

@[match_pattern]
def null : Json := scalar .null

@[match_pattern]
def bool (value : Bool) : Json := scalar (.bool value)

@[match_pattern]
def integer (value : Int) : Json := scalar (.integer value)

@[match_pattern]
def string (text : String) : Json := scalar (.string text)

instance : Inhabited Json := ⟨null⟩

def chars (text : List Char) : Json := string (String.ofList text)

def natural (value : Nat) : Json := integer value

def ofOption {Value : Type} (written : Value → Json) : Option Value → Json
  | some value => written value
  | none => null

/-- True of the scalars that a number's text can give: integers of 64 bits with or without a sign,
and floats that are finite. -/
def fits : Scalar → Bool
  | .integer value => decide (-9223372036854775808 ≤ value) && decide (value < 18446744073709551616)
  | .float bits => (bits >>> 52) &&& 0x7FF != 0x7FF
  | _ => true

def ascending : List (String × Json) → Bool
  | [] => true
  | [_] => true
  | (key, _) :: (next, value) :: rest =>
      (compare key next).isLT && ascending ((next, value) :: rest)

/-- The members with one more, in its place by key; a member of the same key gives way. -/
def insertMember (key : String) (value : Json) : List (String × Json) → List (String × Json)
  | [] => [(key, value)]
  | (other, old) :: rest =>
      match compare key other with
      | .lt => (key, value) :: (other, old) :: rest
      | .eq => (key, value) :: rest
      | .gt => (other, old) :: insertMember key value rest

def sortMembers (members : List (String × Json)) : List (String × Json) :=
  members.foldl (fun sorted member => insertMember member.1 member.2 sorted) []

mutual
def isCanonical : Json → Bool
  | .scalar value => fits value
  | .array elements => elementsCanonical elements
  | .object members => membersCanonical members && ascending members

def elementsCanonical : List Json → Bool
  | [] => true
  | element :: rest => element.isCanonical && elementsCanonical rest

def membersCanonical : List (String × Json) → Bool
  | [] => true
  | (_, value) :: rest => value.isCanonical && membersCanonical rest
end

mutual
def normalize : Json → Json
  | .scalar value => .scalar value
  | .array elements => .array (normalizeElements elements)
  | .object members => .object (sortMembers (normalizeMembers members))

def normalizeElements : List Json → List Json
  | [] => []
  | element :: rest => element.normalize :: normalizeElements rest

def normalizeMembers : List (String × Json) → List (String × Json)
  | [] => []
  | (key, value) :: rest => (key, value.normalize) :: normalizeMembers rest
end

mutual
def depth : Json → Nat
  | .scalar _ => 0
  | .array elements => elementsDepth elements + 1
  | .object members => membersDepth members + 1

def elementsDepth : List Json → Nat
  | [] => 0
  | element :: rest => max element.depth (elementsDepth rest)

def membersDepth : List (String × Json) → Nat
  | [] => 0
  | (_, value) :: rest => max value.depth (membersDepth rest)
end

mutual
def decEq : (a b : Json) → Decidable (a = b)
  | .scalar a, .scalar b =>
      if same : a = b then isTrue (by rw [same]) else isFalse (by simpa using same)
  | .array a, .array b =>
      match decEqElements a b with
      | isTrue same => isTrue (by rw [same])
      | isFalse other => isFalse (by simpa using other)
  | .object a, .object b =>
      match decEqMembers a b with
      | isTrue same => isTrue (by rw [same])
      | isFalse other => isFalse (by simpa using other)
  | .scalar _, .array _ => isFalse (by simp)
  | .scalar _, .object _ => isFalse (by simp)
  | .array _, .scalar _ => isFalse (by simp)
  | .array _, .object _ => isFalse (by simp)
  | .object _, .scalar _ => isFalse (by simp)
  | .object _, .array _ => isFalse (by simp)

def decEqElements : (a b : List Json) → Decidable (a = b)
  | [], [] => isTrue rfl
  | [], _ :: _ => isFalse (by simp)
  | _ :: _, [] => isFalse (by simp)
  | a :: as, b :: bs =>
      match decEq a b, decEqElements as bs with
      | isTrue same, isTrue rest => isTrue (by rw [same, rest])
      | isFalse other, _ => isFalse (by simp [other])
      | _, isFalse other => isFalse (by simp [other])

def decEqMembers : (a b : List (String × Json)) → Decidable (a = b)
  | [], [] => isTrue rfl
  | [], _ :: _ => isFalse (by simp)
  | _ :: _, [] => isFalse (by simp)
  | (k, a) :: as, (l, b) :: bs =>
      if key : k = l then
        match decEq a b, decEqMembers as bs with
        | isTrue same, isTrue rest => isTrue (by rw [key, same, rest])
        | isFalse other, _ => isFalse (by simp [other])
        | _, isFalse other => isFalse (by simp [other])
      else isFalse (by simp [key])
end

instance : DecidableEq Json := decEq

theorem insertMember_last (members : List (String × Json)) (key : String) (value : Json)
    (above : ∀ member ∈ members, (compare member.1 key).isLT = true) :
    insertMember key value members = members ++ [(key, value)] := by
  induction members with
  | nil => rfl
  | cons member rest ih =>
    have below := above member List.mem_cons_self
    have greater : compare key member.1 = .gt := by
      rw [Std.OrientedOrd.eq_swap (a := key) (b := member.1)]
      cases order : compare member.1 key <;> simp [order] at below ⊢
    simp only [insertMember, greater, List.cons_append, List.cons.injEq, true_and]
    exact ih fun m inside => above m (List.mem_cons_of_mem member inside)

theorem ascending_tail (member : String × Json) (rest : List (String × Json))
    (sorted : ascending (member :: rest) = true) : ascending rest = true := by
  cases rest with
  | nil => rfl
  | cons next more =>
    simp only [ascending, Bool.and_eq_true] at sorted
    exact sorted.2

theorem ascending_above (member : String × Json) (rest : List (String × Json))
    (sorted : ascending (member :: rest) = true) :
    ∀ later ∈ rest, (compare member.1 later.1).isLT = true := by
  induction rest generalizing member with
  | nil => simp
  | cons next more ih =>
    simp only [ascending, Bool.and_eq_true] at sorted
    intro later inside
    rcases List.mem_cons.mp inside with equal | deeper
    · rw [equal]
      exact sorted.1
    · have middle := ih next sorted.2 later deeper
      simp only [Ordering.isLT_iff_eq_lt] at sorted middle ⊢
      exact Std.TransCmp.lt_trans sorted.1 middle

theorem foldl_insertMember (sorted members : List (String × Json))
    (tail : ascending members = true)
    (above : ∀ a ∈ sorted, ∀ b ∈ members, (compare a.1 b.1).isLT = true) :
    members.foldl (fun kept member => insertMember member.1 member.2 kept) sorted =
      sorted ++ members := by
  induction members generalizing sorted with
  | nil => simp
  | cons member rest ih =>
    have placed := insertMember_last sorted member.1 member.2
      fun a inside => above a inside member List.mem_cons_self
    rw [List.foldl_cons, placed, ih _ (ascending_tail member rest tail)]
    · simp
    · intro a inside b later
      rcases List.mem_append.mp inside with earlier | equal
      · exact above a earlier b (List.mem_cons_of_mem member later)
      · have same : a = member := by simpa using equal
        rw [same]
        exact ascending_above member rest tail b later

theorem sortMembers_ascending (members : List (String × Json)) (sorted : ascending members = true) :
    sortMembers members = members := by
  simpa [sortMembers] using foldl_insertMember [] members sorted (by simp)

mutual
theorem normalize_canonical (value : Json) (canonical : value.isCanonical = true) :
    value.normalize = value := by
  match value, canonical with
  | .scalar _, _ => rfl
  | .array elements, canonical =>
    rw [isCanonical] at canonical
    rw [normalize, normalizeElements_canonical elements canonical]
  | .object members, canonical =>
    rw [isCanonical, Bool.and_eq_true] at canonical
    rw [normalize, normalizeMembers_canonical members canonical.1,
      sortMembers_ascending members canonical.2]

theorem normalizeElements_canonical (elements : List Json)
    (canonical : elementsCanonical elements = true) : normalizeElements elements = elements := by
  match elements, canonical with
  | [], _ => rfl
  | element :: rest, canonical =>
    rw [elementsCanonical, Bool.and_eq_true] at canonical
    rw [normalizeElements, normalize_canonical element canonical.1,
      normalizeElements_canonical rest canonical.2]

theorem normalizeMembers_canonical (members : List (String × Json))
    (canonical : membersCanonical members = true) : normalizeMembers members = members := by
  match members, canonical with
  | [], _ => rfl
  | (key, value) :: rest, canonical =>
    rw [membersCanonical, Bool.and_eq_true] at canonical
    rw [normalizeMembers, normalize_canonical value canonical.1,
      normalizeMembers_canonical rest canonical.2]
end

end Json

end SharedTree
