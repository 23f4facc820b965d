import SharedTree.Proofs.Path.Relocate
/-!
The root that a path lies under. Everything that the operations on paths lead to, up or down, lies
under the same root; only a move leads from one to another.
-/
namespace SharedTree.Path

def top (path : Path) : Path := path.ancestors.head?.getD path

variable {path parent old : Path}

theorem top_of_root (missing : path.parent? = none) : path.top = path := by
  rw [top, ancestors_of_root missing]
  rfl

theorem top_of_parent (found : path.parent? = some parent) : path.top = parent.top := by
  rw [top, top, ancestors_of_parent found, lineage, List.head?_append]
  cases parent.ancestors.head? <;> rfl

theorem top_of_covers {above : Path} (spans : above.covers path = true) : path.top = above.top := by
  induction path using parent_induction with
  | top path missing =>
      have nothing : ¬ above.isAncestorOf path = true := by
        simp [isAncestorOf_iff_parent, missing]
      have same : above = path := by simpa [covers, nothing] using spans
      rw [same]
  | below path parent found ih =>
      by_cases same : above = path
      · rw [same]
      · have strict := (isAncestorOf_iff_covers above path).mpr ⟨spans, same⟩
        obtain ⟨parent', found', spans'⟩ := (isAncestorOf_iff_parent above path).mp strict
        cases found.symm.trans found'
        exact (top_of_parent found).trans (ih spans')

/-- The root is above. -/
theorem top_covers (path : Path) : path.top.covers path = true := by
  induction path using parent_induction with
  | top path missing =>
      rw [top_of_root missing]
      exact covers_refl path
  | below path parent found ih =>
      rw [top_of_parent found]
      exact covers_trans ih (covers_of_isAncestorOf (parent_isAncestorOf found))

theorem top_root (id : Id) : (root id).top = root id := top_of_root (parent_root id)

theorem top_child (path : Path) (id : Id) : (path.child id).top = path.top :=
  top_of_parent (parent_child path id)

theorem top_relocate (new : Path) (inside : old.covers path = true) :
    (path.relocate old new).top = new.top := top_of_covers (relocate_inside new inside)

end SharedTree.Path
