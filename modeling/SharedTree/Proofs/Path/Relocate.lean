import SharedTree.Proofs.Path.Labels
/-!
Where a path goes when a subtree moves: the paths of the subtree get a new beginning, all others
stay. The way back leads to the path there was (`relocate_back`).
-/
namespace SharedTree.Path

def relocate (path old new : Path) : Path := (path.rebase? old new).getD path

variable {path old new : Path}

theorem relocate_of_rebase {result : Path} (found : path.rebase old new = .ok result) :
    result = path.relocate old new := by
  rw [relocate, (rebase_eq_ok_iff path old new result).mp found, Option.getD_some]

theorem relocate_outside (outside : old.covers path = false) : path.relocate old new = path := by
  rw [relocate, (rebase_eq_none_iff path old new).mpr outside, Option.getD_none]

/-- Below the old place the labels of the old place give way to those of the new one. -/
theorem relocate_labels (new : Path) (inside : old.covers path = true) :
    ∃ rest, path.labels = old.labels ++ rest ∧
      (path.relocate old new).labels = new.labels ++ rest := by
  cases found : path.rebase? old new with
  | some result =>
      rw [relocate, found, Option.getD_some]
      exact (rebase_eq_some_iff path old new result).mp found
  | none =>
      rw [rebase_eq_none_iff, inside] at found
      cases found

theorem relocate_self : old.relocate old new = new := by
  obtain ⟨rest, shape, moved⟩ := relocate_labels new (covers_refl old)
  rw [List.self_eq_append_right] at shape
  subst shape
  exact labels_injective _ _ (by rw [moved, List.append_nil])

theorem relocate_inside (new : Path) (inside : old.covers path = true) :
    new.covers (path.relocate old new) = true := by
  obtain ⟨rest, _, moved⟩ := relocate_labels new inside
  exact (covers_iff _ _).mpr ⟨rest, moved.symm⟩

/-- Back at the old place a path is what it was, unless it was below the new place already. -/
theorem relocate_back (free : new.covers path = false) :
    (path.relocate old new).relocate new old = path := by
  by_cases inside : old.covers path = true
  · obtain ⟨rest, shape, moved⟩ := relocate_labels new inside
    obtain ⟨rest', shape', returned⟩ := relocate_labels old (relocate_inside new inside)
    rw [shape', List.append_cancel_left_eq] at moved
    exact labels_injective _ _ (by rw [returned, moved, shape])
  · have stays : path.relocate old new = path := relocate_outside (Bool.not_eq_true _ ▸ inside)
    rw [stays, relocate_outside free]

theorem relocate_levels (new : Path) (inside : old.covers path = true) :
    (path.relocate old new).levels + old.levels = path.levels + new.levels := by
  obtain ⟨rest, shape, moved⟩ := relocate_labels new inside
  simp only [levels, shape, moved, List.length_append]
  omega

theorem relocate_covers_iff {other : Path} (inside : old.covers path = true)
    (inside' : old.covers other = true) :
    (path.relocate old new).covers (other.relocate old new) = true ↔ path.covers other = true := by
  obtain ⟨rest, shape, moved⟩ := relocate_labels new inside
  obtain ⟨rest', shape', moved'⟩ := relocate_labels new inside'
  rw [covers_iff, covers_iff, shape, shape', moved, moved', List.prefix_append_right_inj,
    List.prefix_append_right_inj]

theorem relocate_parent {parent : Path} (below : old.isAncestorOf path = true)
    (above : path.parent? = some parent) :
    (path.relocate old new).parent? = some (parent.relocate old new) := by
  obtain ⟨parent', above', spans⟩ := (isAncestorOf_iff_parent old path).mp below
  cases above.symm.trans above'
  obtain ⟨rest, shape, moved⟩ := relocate_labels new spans
  obtain ⟨last, whole⟩ := parent_labels above
  have inside := (isAncestorOf_iff_covers old path).mp below
  obtain ⟨rest', shape', moved'⟩ := relocate_labels new inside.1
  have more : rest' = rest ++ [last] := by
    rw [shape', shape, List.append_assoc] at whole
    exact List.append_cancel_left whole
  exact (parent_eq_some_iff _ _).mpr ⟨last, by rw [moved', moved, more, List.append_assoc]⟩

theorem relocate_id (same : new.id = old.id) : (path.relocate old new).id = path.id := by
  by_cases inside : old.covers path = true
  · obtain ⟨rest, shape, moved⟩ := relocate_labels new inside
    rcases List.eq_nil_or_concat rest with rfl | ⟨front, last, rfl⟩
    · have here := labels_injective path old (by rw [shape, List.append_nil])
      have there := labels_injective (path.relocate old new) new (by rw [moved, List.append_nil])
      rw [here] at there ⊢
      rw [there, same]
    · rw [List.concat_eq_append, ← List.append_assoc] at shape moved
      exact id_eq_of_last _ _ _ _ last moved shape
  · rw [relocate_outside (Bool.not_eq_true _ ▸ inside)]

theorem rebase_inside (new : Path) (inside : old.covers path = true) :
    path.rebase old new = .ok (path.relocate old new) := by
  cases found : path.rebase? old new with
  | none =>
      rw [rebase_eq_none_iff, inside] at found
      cases found
  | some result => rw [(rebase_eq_ok_iff path old new result).mpr found, relocate, found,
      Option.getD_some]

theorem relocate_injective (inside : old.covers path = true) (inside' : old.covers other = true)
    (same : path.relocate old new = other.relocate old new) : path = other := by
  have down : (path.relocate old new).covers (other.relocate old new) = true :=
    same ▸ covers_refl (path.relocate old new)
  have up : (other.relocate old new).covers (path.relocate old new) = true :=
    same ▸ covers_refl (path.relocate old new)
  exact covers_antisymm ((relocate_covers_iff inside inside').mp down)
    ((relocate_covers_iff inside' inside).mp up)

/-- Two rows that go to one place were in one place, if nothing was below the new path. -/
theorem relocate_origin (inside : old.covers path = true) (free : new.covers other = false)
    (same : other.relocate old new = path.relocate old new) : other = path := by
  by_cases inside' : old.covers other = true
  · exact relocate_injective inside' inside same
  · rw [relocate_outside (Bool.not_eq_true _ ▸ inside')] at same
    rw [same, relocate_inside new inside] at free
    cases free

/-! A label can be read in capitals too, but the tree has paths in one spelling only. -/

/-- The last label is the one that is written for the identifier. -/
def Spelled (path : Path) : Prop := ∃ front, path.labels = front ++ [label path.id]

theorem spelled_root (id : Id) : (root id).Spelled := by
  refine ⟨[], ?_⟩
  rw [id_root, labels_root]
  rfl

theorem spelled_child (path : Path) (id : Id) : (path.child id).Spelled := by
  refine ⟨path.labels, ?_⟩
  rw [id_child, labels_child]

namespace Spelled

variable (spelled : path.Spelled)
include spelled

theorem eq_root (missing : path.parent? = none) : path = root path.id := by
  obtain ⟨front, shape⟩ := spelled
  obtain ⟨last, single⟩ := (parent_eq_none_iff path).mp missing
  have whole : front ++ [label path.id] = [] ++ [last] := shape.symm.trans single
  obtain ⟨rfl, _⟩ := List.append_singleton_inj.mp whole
  exact labels_injective _ _ (by rw [shape, labels_root, List.nil_append])

theorem eq_child {parent : Path} (above : path.parent? = some parent) :
    path = parent.child path.id := by
  obtain ⟨front, shape⟩ := spelled
  obtain ⟨last, whole⟩ := parent_labels above
  obtain ⟨rfl, _⟩ := List.append_singleton_inj.mp (shape.symm.trans whole)
  exact labels_injective _ _ (by rw [labels_child, shape])

theorem relocate (arrives : new.Spelled) : (path.relocate old new).Spelled := by
  by_cases inside : old.covers path = true
  · obtain ⟨rest, shape, moved⟩ := relocate_labels new inside
    rcases List.eq_nil_or_concat rest with rfl | ⟨front, last, rfl⟩
    · rw [labels_injective (path.relocate old new) new (by rw [moved, List.append_nil])]
      exact arrives
    · -- The last label goes along, and with it the identifier.
      rw [List.concat_eq_append, ← List.append_assoc] at shape moved
      obtain ⟨before, here⟩ := spelled
      obtain ⟨_, same⟩ := List.append_singleton_inj.mp (shape.symm.trans here)
      rw [same] at shape moved
      exact ⟨_, by rw [moved, id_eq_of_last _ _ _ _ _ moved shape]⟩
  · rw [relocate_outside (Bool.not_eq_true _ ▸ inside)]
    exact spelled

end Spelled

end SharedTree.Path
