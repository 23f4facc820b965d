import SharedTree.Proofs.Path.Grammar
/-!
Rebasing is an isomorphism from what lies below one path to what lies below another: it puts new
labels in place of old ones, keeps what is above what and what comes first, and is undone by
rebasing back. Main statement: `rebase_isomorphism`.
-/
namespace SharedTree.Path

variable {path old new result first second first' second' : Path}

/-- The old and the new path stand for each other, whatever follows them. -/
theorem rebase_iff (path old new result : Path) :
    path.rebase old new = .ok result ↔
      ∃ rest, path.labels = old.labels ++ rest ∧ result.labels = new.labels ++ rest :=
  (rebase_eq_ok_iff path old new result).trans (rebase_eq_some_iff path old new result)

theorem rebase_eq_error_iff (path old new : Path) :
    path.rebase old new = .error (.invalidPath path.shown) ↔ old.covers path = false := by
  rw [← rebase_eq_none_iff path old new, rebase]
  cases path.rebase? old new <;> simp

theorem rebase_ok_iff_covers (path old new : Path) :
    (∃ result, path.rebase old new = .ok result) ↔ old.covers path = true := by
  constructor
  · rintro ⟨result, moved⟩
    obtain ⟨rest, shape, _⟩ := (rebase_iff path old new result).mp moved
    exact (covers_iff old path).mpr ⟨rest, shape.symm⟩
  · exact fun inside => ⟨_, rebase_inside new inside⟩

theorem rebase_labels (moved : path.rebase old new = .ok result) :
    result.labels = new.labels ++ path.labels.drop old.labels.length := by
  obtain ⟨rest, shape, whole⟩ := (rebase_iff path old new result).mp moved
  rw [whole, shape, List.drop_left]

theorem rebase_back (moved : path.rebase old new = .ok result) :
    result.rebase new old = .ok path := by
  obtain ⟨rest, shape, whole⟩ := (rebase_iff path old new result).mp moved
  exact (rebase_iff result new old path).mpr ⟨rest, whole, shape⟩

theorem rebase_text (moved : path.rebase old new = .ok result) :
    ∃ rest, path.text = old.text ++ rest ∧ result.text = new.text ++ rest := by
  have found := (rebase_eq_ok_iff path old new result).mp moved
  rw [rebase?] at found
  split at found
  · rename_i same
    cases found
    exact ⟨[], by rw [same, List.append_nil], (List.append_nil _).symm⟩
  · split at found
    · rename_i above
      cases found
      obtain ⟨last, equal⟩ := (isAncestorOf_iff old path).mp above
      refine ⟨'.' :: last, equal, ?_⟩
      show new.text ++ path.text.drop old.text.length = _
      rw [equal, List.drop_left]
    · cases found

/-- The text is cut at the length of the old path in bytes. -/
theorem rebase_bytes (moved : path.rebase old new = .ok result) :
    Utf8.encode result.text =
      Utf8.encode new.text ++ (Utf8.encode path.text).drop (Utf8.encode old.text).length := by
  obtain ⟨rest, shape, whole⟩ := rebase_text moved
  simp only [Utf8.encode, whole, shape, List.flatMap_append, List.drop_left]

section Pairs

variable (moved : first.rebase old new = .ok first') (moved' : second.rebase old new = .ok second')
include moved moved'

theorem rebase_covers_iff : first.covers second = true ↔ first'.covers second' = true := by
  have inside := (rebase_ok_iff_covers first old new).mp ⟨first', moved⟩
  have inside' := (rebase_ok_iff_covers second old new).mp ⟨second', moved'⟩
  rw [relocate_of_rebase moved, relocate_of_rebase moved', relocate_covers_iff inside inside']

theorem rebase_compare : compare first second = compare first' second' := by
  obtain ⟨rest, shape, whole⟩ := (rebase_iff first old new first').mp moved
  obtain ⟨rest', shape', whole'⟩ := (rebase_iff second old new second').mp moved'
  rw [compare_labels, compare_labels, shape, shape', whole, whole', compare_append, compare_append]

end Pairs

/-- Rebasing from one path to another. It succeeds on what the old path covers and refuses the rest
by name; the result is a path again, with the new labels for the old ones and the bytes behind them
as they were, and rebasing back undoes it; and of two paths that are rebased, one lies on or above
the other, or comes first, as before. -/
theorem rebase_isomorphism (old new : Path) :
    (∀ path, ((∃ result, path.rebase old new = .ok result) ↔ old.covers path = true) ∧
      (path.rebase old new = .error (.invalidPath path.shown) ↔ old.covers path = false)) ∧
    (∀ path result, path.rebase old new = .ok result →
      Path.read result.shown = .ok result ∧
      result.labels = new.labels ++ path.labels.drop old.labels.length ∧
      Utf8.encode result.text =
        Utf8.encode new.text ++ (Utf8.encode path.text).drop (Utf8.encode old.text).length ∧
      result.rebase new old = .ok path) ∧
    ∀ first second first' second' : Path,
      first.rebase old new = .ok first' → second.rebase old new = .ok second' →
      (first.covers second = true ↔ first'.covers second' = true) ∧
      compare first second = compare first' second' :=
  ⟨fun path => ⟨rebase_ok_iff_covers path old new, rebase_eq_error_iff path old new⟩,
    fun _ result moved => ⟨(read_eq_ok_iff _ result).mpr rfl, rebase_labels moved,
      rebase_bytes moved, rebase_back moved⟩,
    fun _ _ _ _ moved moved' => ⟨rebase_covers_iff moved moved', rebase_compare moved moved'⟩⟩

theorem sample_rebase_isomorphism :
    let old := root (Id.ofNat 1)
    let new := (root (Id.ofNat 2)).child (Id.ofNat 1)
    let path := old.child (Id.ofNat 3)
    let result := new.child (Id.ofNat 3)
    path.rebase old new = .ok result ∧ old.rebase old new = .ok new ∧
      result.rebase new old = .ok path ∧
      (old.covers path = true ↔ new.covers result = true) ∧
      compare old path = compare new result := by
  intro old new path result
  have moved : path.rebase old new = .ok result :=
    (rebase_iff path old new result).mpr ⟨_, labels_child old _, labels_child new _⟩
  have moved' : old.rebase old new = .ok new :=
    (rebase_iff old old new new).mpr ⟨[], (List.append_nil _).symm, (List.append_nil _).symm⟩
  have told := rebase_isomorphism old new
  exact ⟨moved, moved', (told.2.1 path result moved).2.2.2, told.2.2 old path new result moved' moved⟩

end SharedTree.Path
