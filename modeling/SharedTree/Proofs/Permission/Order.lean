import Mathlib.Order.WithBot
import SharedTree.Permission
/-!
The levels as a linear order, with no level at all as one more that is least.
-/
namespace SharedTree.Permission

instance : LinearOrder Permission where
  le_refl a := Nat.le_refl a.rank
  le_trans a b c := Nat.le_trans (m := b.rank)
  lt_iff_le_not_ge a b := Nat.lt_iff_le_and_not_ge (m := a.rank) (n := b.rank)
  le_antisymm a b below above := rank_injective a b (Nat.le_antisymm below above)
  le_total a b := Nat.le_total a.rank b.rank
  toDecidableLE := inferInstance
  compare_eq_compareOfLessAndEq a b := by cases a <;> cases b <;> rfl

theorem le_admin (level : Permission) : level ≤ admin := by cases level <;> decide

theorem not_lt_admin_iff (level : Permission) : ¬ level < admin ↔ level = admin := by
  rw [not_lt]
  exact (le_admin level).ge_iff_eq

end SharedTree.Permission
