/-!
What a membership allows an account to do, from reading to administering.
-/
namespace SharedTree

inductive Permission where
  | read
  | write
  | admin
deriving DecidableEq

namespace Permission

def rank : Permission → Nat
  | read => 0
  | write => 1
  | admin => 2

instance : Ord Permission := ⟨fun a b => compare a.rank b.rank⟩

instance : LE Permission := ⟨fun a b => a.rank ≤ b.rank⟩

instance : LT Permission := ⟨fun a b => a.rank < b.rank⟩

instance (a b : Permission) : Decidable (a ≤ b) := inferInstanceAs (Decidable (a.rank ≤ b.rank))

instance (a b : Permission) : Decidable (a < b) := inferInstanceAs (Decidable (a.rank < b.rank))

def name : Permission → String
  | read => "read"
  | write => "write"
  | admin => "admin"

def all : List Permission := [read, write, admin]

def ofName? (text : String) : Option Permission := all.find? fun level => level.name == text

def allows (held required : Permission) : Bool := decide (required ≤ held)

theorem rank_injective (a b : Permission) (same : a.rank = b.rank) : a = b := by
  cases a <;> cases b <;> simp [rank] at same <;> rfl

end Permission

end SharedTree
