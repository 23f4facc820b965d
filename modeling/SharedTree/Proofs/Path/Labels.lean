import Mathlib.Data.List.Basic
import SharedTree.Error
/-!
Paths as lists of labels. A path is told by its labels, and every operation on its text is one on
the list: parent and child drop and add the last label, the paths above are the prefixes, and
rebasing replaces a prefix. Main statements: `covers_iff`, `parent_eq_some_iff`,
`rebase_eq_some_iff`, `mem_lineage`.
-/
namespace SharedTree.Text

theorem beforeEach_free (sep : Char) (text : List Char) (free : sep ∉ text) :
    beforeEach sep text = [] := by
  induction text with
  | nil => rfl
  | cons c rest ih =>
      have other : c ≠ sep := fun same => free (same ▸ List.mem_cons_self)
      simp [beforeEach, other, ih fun inside => free (List.mem_cons_of_mem c inside)]

theorem beforeEach_append (sep : Char) (before last : List Char) (free : sep ∉ last) :
    beforeEach sep (before ++ sep :: last) = beforeEach sep before ++ [before] := by
  induction before with
  | nil => simp [beforeEach, beforeEach_free sep last free]
  | cons c before ih =>
      by_cases same : c = sep <;> simp [beforeEach, ih, same]

end SharedTree.Text

namespace SharedTree.Path

theorem labels_injective (a b : Path) (same : a.labels = b.labels) : a = b := by
  apply text_injective
  rw [← Text.join_split '.' a.text, ← Text.join_split '.' b.text]
  exact congrArg (Text.join '.') same

theorem labels_ne_nil (path : Path) : path.labels ≠ [] := Text.split_ne_nil '.' path.text

theorem labels_root (id : Id) : (root id).labels = [label id] := label_split id

theorem labels_child (path : Path) (id : Id) :
    (path.child id).labels = path.labels ++ [label id] := by
  simp [labels, child, Text.split_append, label_split]

theorem levels_child (path : Path) (id : Id) : (path.child id).levels = path.levels + 1 := by
  simp [levels, labels_child]

theorem levels_pos (path : Path) : 0 < path.levels :=
  List.length_pos_iff.mpr path.labels_ne_nil

/-! The identifier of the last label. -/

theorem labelId_of_mem (path : Path) (text : List Char) (inside : text ∈ path.labels) :
    ∃ id, labelId? text = some id := by
  have good := List.all_eq_true.mp path.labelled text inside
  exact Option.isSome_iff_exists.mp good

theorem id_eq_of_labels (path : Path) (before : List (List Char)) (last : List Char) (id : Id)
    (shape : path.labels = before ++ [last]) (read : labelId? last = some id) : path.id = id := by
  simp [Path.id, ids, shape, List.filterMap_append, read]

theorem id_eq_of_last (a b : Path) (before before' : List (List Char)) (last : List Char)
    (left : a.labels = before ++ [last]) (right : b.labels = before' ++ [last]) : a.id = b.id := by
  obtain ⟨id, read⟩ := labelId_of_mem a last (by simp [left])
  rw [id_eq_of_labels a before last id left read, id_eq_of_labels b before' last id right read]

theorem id_root (id : Id) : (root id).id = id :=
  id_eq_of_labels _ [] (label id) id (labels_root id) (label_read id)

theorem id_child (path : Path) (id : Id) : (path.child id).id = id :=
  id_eq_of_labels _ path.labels (label id) id (labels_child path id) (label_read id)

/-! Above and below. -/

theorem isAncestorOf_iff_labels (path other : Path) :
    path.isAncestorOf other = true ↔
      ∃ next rest, other.labels = path.labels ++ next :: rest := by
  rw [isAncestorOf_iff]
  constructor
  · rintro ⟨last, equal⟩
    obtain ⟨next, rest, shape⟩ := List.exists_cons_of_ne_nil (Text.split_ne_nil '.' last)
    exact ⟨next, rest, by simp [labels, equal, Text.split_append, shape]⟩
  · rintro ⟨next, rest, shape⟩
    -- The remaining labels are the pieces of their own join, since none of them has a dot.
    have free : ∀ piece ∈ next :: rest, '.' ∉ piece := by
      intro piece inside
      have good := List.all_eq_true.mp other.labelled piece
      have member : piece ∈ other.labels := shape ▸ List.mem_append_right path.labels inside
      exact isLabel_free piece (good member)
    refine ⟨Text.join '.' (next :: rest), ?_⟩
    have back := Text.split_append '.' path.text (Text.join '.' (next :: rest))
    rw [Text.split_join '.' next rest free] at back
    rw [← Text.join_split '.' other.text, ← Text.join_split '.' (path.text ++ _ :: _), back]
    exact congrArg (Text.join '.') shape

theorem covers_iff (path other : Path) :
    path.covers other = true ↔ path.labels <+: other.labels := by
  simp only [covers, Bool.or_eq_true, beq_iff_eq, isAncestorOf_iff_labels]
  constructor
  · rintro (same | ⟨next, rest, shape⟩)
    · exact same ▸ List.prefix_rfl
    · exact ⟨next :: rest, shape.symm⟩
  · rintro ⟨rest, shape⟩
    cases rest with
    | nil => exact Or.inl (labels_injective _ _ (by simpa using shape))
    | cons next rest => exact Or.inr ⟨next, rest, shape.symm⟩

theorem covers_refl (path : Path) : path.covers path = true := by simp [covers]

theorem covers_trans {a b c : Path} (upper : a.covers b = true) (lower : b.covers c = true) :
    a.covers c = true := by
  rw [covers_iff] at *
  exact upper.trans lower

theorem covers_antisymm {a b : Path} (down : a.covers b = true) (up : b.covers a = true) :
    a = b := by
  rw [covers_iff] at *
  exact labels_injective a b (down.eq_of_length_le up.length_le)

/-- Two paths above the same one lie on one line. -/
theorem covers_total {a b c : Path} (left : a.covers c = true) (right : b.covers c = true) :
    a.covers b = true ∨ b.covers a = true := by
  simp only [covers_iff] at *
  exact List.prefix_or_prefix_of_prefix left right

theorem isAncestorOf_iff_covers (a b : Path) :
    a.isAncestorOf b = true ↔ a.covers b = true ∧ a ≠ b := by
  constructor
  · intro above
    refine ⟨by simp [covers, above], ?_⟩
    rintro rfl
    obtain ⟨next, rest, shape⟩ := (isAncestorOf_iff_labels a a).mp above
    simp at shape
  · rintro ⟨spans, different⟩
    simpa [covers, different] using spans

theorem covers_of_isAncestorOf {a b : Path} (above : a.isAncestorOf b = true) : a.covers b = true :=
  ((isAncestorOf_iff_covers a b).mp above).1

/-- What is not below a path has nothing above it that is. -/
theorem apart_of_covers {a b c : Path} (apart : a.covers c = false) (spans : b.covers c = true) :
    a.covers b = false := by
  rw [← Bool.not_eq_true]
  intro inside
  rw [covers_trans inside spans] at apart
  cases apart

/-- Of two paths above the same one, the one that is not below the other is above it. -/
theorem isAncestorOf_of_apart {a b c : Path} (left : a.covers c = true) (right : b.covers c = true)
    (apart : b.covers a = false) : a.isAncestorOf b = true := by
  rcases covers_total left right with higher | lower
  · refine (isAncestorOf_iff_covers a b).mpr ⟨higher, ?_⟩
    rintro rfl
    rw [covers_refl] at apart
    cases apart
  · rw [lower] at apart
    cases apart

theorem isAncestorOf_trans {a b c : Path} (upper : a.isAncestorOf b = true)
    (lower : b.covers c = true) : a.isAncestorOf c = true := by
  rw [isAncestorOf_iff_covers] at upper ⊢
  refine ⟨covers_trans upper.1 lower, ?_⟩
  rintro rfl
  exact upper.2 (covers_antisymm upper.1 lower)

theorem covers_isAncestorOf {a b c : Path} (upper : a.covers b = true)
    (lower : b.isAncestorOf c = true) : a.isAncestorOf c = true := by
  rw [isAncestorOf_iff_covers] at lower ⊢
  refine ⟨covers_trans upper lower.1, ?_⟩
  rintro rfl
  exact lower.2 (covers_antisymm lower.1 upper)

theorem levels_lt_of_isAncestorOf {a b : Path} (above : a.isAncestorOf b = true) :
    a.levels < b.levels := by
  obtain ⟨next, rest, shape⟩ := (isAncestorOf_iff_labels a b).mp above
  simp [levels, shape]

/-! Parents. -/

theorem parent_text (path : Path) :
    path.parent?.map Path.text = Text.beforeLast '.' path.text := by
  unfold parent?
  split
  · rename_i missing
    simp [missing]
  · rename_i before known
    simp [known]

/-- The text of a path that has a parent: the parent's, a dot and a text without dots. -/
theorem parent_split {path parent : Path} (found : path.parent? = some parent) :
    ∃ last, path.text = parent.text ++ '.' :: last ∧ '.' ∉ last := by
  have known := parent_text path
  rw [found, Option.map_some] at known
  exact Text.beforeLast_eq_some '.' path.text parent.text known.symm

theorem parent_free {path : Path} (missing : path.parent? = none) : '.' ∉ path.text := by
  have known := parent_text path
  rw [missing, Option.map_none] at known
  exact (Text.beforeLast_eq_none '.' path.text).mp known.symm

theorem parent_labels {path parent : Path} (found : path.parent? = some parent) :
    ∃ last, path.labels = parent.labels ++ [last] := by
  obtain ⟨last, equal, free⟩ := parent_split found
  exact ⟨last, by rw [labels, equal, Text.split_append, Text.split_free '.' last free]; rfl⟩

theorem levels_of_parent {path parent : Path} (found : path.parent? = some parent) :
    path.levels = parent.levels + 1 := by
  obtain ⟨last, shape⟩ := parent_labels found
  simp [levels, shape]

theorem root_labels {path : Path} (missing : path.parent? = none) :
    path.labels = [path.text] :=
  Text.split_free '.' path.text (parent_free missing)

theorem parent_eq_some_iff (path parent : Path) :
    path.parent? = some parent ↔ ∃ last, path.labels = parent.labels ++ [last] := by
  constructor
  · exact parent_labels
  · rintro ⟨last, shape⟩
    cases found : path.parent? with
    | none =>
        -- A path at the top level has one label, and there are at least two.
        have count := congrArg List.length ((root_labels found).symm.trans shape)
        have nonempty := parent.levels_pos
        simp only [levels, List.length_append, List.length_singleton] at count nonempty
        omega
    | some other =>
        obtain ⟨last', shape'⟩ := parent_labels found
        have same := List.append_inj_left' (shape'.symm.trans shape) rfl
        exact congrArg some (labels_injective _ _ same)

theorem parent_eq_none_iff (path : Path) :
    path.parent? = none ↔ ∃ last, path.labels = [last] := by
  constructor
  · exact fun missing => ⟨path.text, root_labels missing⟩
  · rintro ⟨last, shape⟩
    cases found : path.parent? with
    | none => rfl
    | some parent =>
        obtain ⟨last', shape'⟩ := parent_labels found
        have nonempty := parent.labels_ne_nil
        rw [shape] at shape'
        cases labels : parent.labels <;> simp_all

theorem parent_root (id : Id) : (root id).parent? = none :=
  (parent_eq_none_iff _).mpr ⟨label id, labels_root id⟩

theorem parent_child (path : Path) (id : Id) : (path.child id).parent? = some path :=
  (parent_eq_some_iff _ _).mpr ⟨label id, labels_child path id⟩

theorem parent_isAncestorOf {path parent : Path} (found : path.parent? = some parent) :
    parent.isAncestorOf path = true := by
  obtain ⟨last, shape⟩ := parent_labels found
  exact (isAncestorOf_iff_labels parent path).mpr ⟨last, [], shape⟩

/-- What lies strictly above a path lies on or above its parent. -/
theorem isAncestorOf_iff_parent (above path : Path) :
    above.isAncestorOf path = true ↔
      ∃ parent, path.parent? = some parent ∧ above.covers parent = true := by
  constructor
  · intro strict
    obtain ⟨next, rest, shape⟩ := (isAncestorOf_iff_labels above path).mp strict
    cases found : path.parent? with
    | none =>
        have nonempty := above.labels_ne_nil
        rw [root_labels found] at shape
        cases labels : above.labels <;> simp_all
    | some parent =>
        refine ⟨parent, rfl, ?_⟩
        obtain ⟨last, shape'⟩ := parent_labels found
        rw [covers_iff]
        rw [shape'] at shape
        refine List.prefix_of_prefix_length_le ⟨next :: rest, shape.symm⟩
          (List.prefix_append _ _) ?_
        have count := congrArg List.length shape
        simp at count
        omega
  · rintro ⟨parent, found, spans⟩
    exact covers_isAncestorOf spans (parent_isAncestorOf found)

/-- A parent is what is one level above. -/
theorem parent_iff_levels (path parent : Path) :
    path.parent? = some parent ↔
      parent.isAncestorOf path = true ∧ path.levels = parent.levels + 1 := by
  constructor
  · exact fun found => ⟨parent_isAncestorOf found, levels_of_parent found⟩
  · rintro ⟨above, next⟩
    obtain ⟨last, rest, shape⟩ := (isAncestorOf_iff_labels parent path).mp above
    have single : rest = [] := by
      simp only [levels, shape, List.length_append, List.length_cons] at next
      exact List.length_eq_zero_iff.mp (by omega)
    exact (parent_eq_some_iff path parent).mpr ⟨last, by rw [shape, single]⟩

/-! The paths above, the root first. -/

theorem ancestors_text (path : Path) :
    path.ancestors.map Path.text = Text.beforeEach '.' path.text := by
  simp [ancestors, List.map_map, Function.comp_def]

theorem ancestors_of_parent {path parent : Path} (found : path.parent? = some parent) :
    path.ancestors = parent.lineage := by
  have injective : Function.Injective Path.text := fun a b => text_injective a b
  apply List.map_injective_iff.mpr injective
  obtain ⟨last, equal, free⟩ := parent_split found
  rw [lineage, List.map_append, ancestors_text, ancestors_text, equal,
    Text.beforeEach_append '.' parent.text last free]
  rfl

theorem ancestors_of_root {path : Path} (missing : path.parent? = none) : path.ancestors = [] := by
  have none_above := Text.beforeEach_free '.' path.text (parent_free missing)
  exact List.map_eq_nil_iff.mp ((ancestors_text path).trans none_above)

/-- Going from a path to its parent ends: every path is at the top level or below one for which
the statement is already known. -/
theorem parent_induction {motive : Path → Prop}
    (top : ∀ path, path.parent? = none → motive path)
    (below : ∀ path parent, path.parent? = some parent → motive parent → motive path)
    (path : Path) : motive path := by
  induction count : path.levels using Nat.strongRecOn generalizing path with
  | _ levels ih =>
      cases found : path.parent? with
      | none => exact top path found
      | some parent =>
          have fewer := levels_lt_of_isAncestorOf (parent_isAncestorOf found)
          exact below path parent found (ih parent.levels (count ▸ fewer) parent rfl)

theorem mem_lineage (above path : Path) : above ∈ path.lineage ↔ above.covers path = true := by
  induction path using parent_induction with
  | top path missing =>
      have nothing : ¬ above.isAncestorOf path = true := by
        simp [isAncestorOf_iff_parent, missing]
      simp [lineage, ancestors_of_root missing, covers, nothing]
  | below path parent found ih =>
      have strict : above.isAncestorOf path = true ↔ above.covers parent = true := by
        simp [isAncestorOf_iff_parent, found]
      rw [lineage, ancestors_of_parent found, List.mem_append, ih, ← strict]
      simp [covers, or_comm]

/-! Rebasing. -/

theorem rebase_eq_none_iff (path old new : Path) :
    path.rebase? old new = none ↔ old.covers path = false := by
  unfold rebase?
  split
  · rename_i same
    simp [same, covers_refl]
  · rename_i different
    split
    · rename_i above
      simp [covers, above]
    · rename_i apart
      simp [covers, Ne.symm different, apart]

theorem rebase_eq_some_iff (path old new result : Path) :
    path.rebase? old new = some result ↔
      ∃ rest, path.labels = old.labels ++ rest ∧ result.labels = new.labels ++ rest := by
  have forward (result : Path) (found : path.rebase? old new = some result) :
      ∃ rest, path.labels = old.labels ++ rest ∧ result.labels = new.labels ++ rest := by
    unfold rebase? at found
    split at found
    · rename_i same
      cases found
      exact ⟨[], by simp [same], by simp⟩
    · split at found
      · rename_i above
        obtain ⟨last, equal⟩ := (isAncestorOf_iff old path).mp above
        cases found
        refine ⟨Text.split '.' last, by rw [labels, equal, Text.split_append]; rfl, ?_⟩
        have beyond : path.text.drop old.text.length = '.' :: last := by simp [equal]
        simp [labels, beyond, Text.split_append]
      · cases found
  constructor
  · exact forward result
  · rintro ⟨rest, shape, moved⟩
    cases found : path.rebase? old new with
    | none =>
        rw [rebase_eq_none_iff, (covers_iff old path).mpr ⟨rest, shape.symm⟩] at found
        cases found
    | some other =>
        obtain ⟨rest', shape', moved'⟩ := forward other found
        have same := List.append_cancel_left (shape.symm.trans shape')
        subst same
        exact congrArg some (labels_injective _ _ (moved'.trans moved.symm))

theorem rebase_eq_ok_iff (path old new result : Path) :
    path.rebase old new = .ok result ↔ path.rebase? old new = some result := by
  unfold rebase
  cases path.rebase? old new <;> simp

/-! Lengths. -/

theorem length_le_of_covers {a b : Path} (spans : a.covers b = true) :
    a.text.length ≤ b.text.length := by
  simp only [covers, Bool.or_eq_true, beq_iff_eq, isAncestorOf_iff] at spans
  rcases spans with rfl | ⟨last, equal⟩
  · exact Nat.le_refl _
  · rw [equal, List.length_append]
    exact Nat.le_add_right _ _

/-- Of the paths below a path none is as short as the path itself. -/
theorem eq_of_covers {a b : Path} (spans : a.covers b = true)
    (short : b.text.length ≤ a.text.length) : a = b := by
  simp only [covers, Bool.or_eq_true, beq_iff_eq, isAncestorOf_iff] at spans
  rcases spans with same | ⟨last, equal⟩
  · exact same
  · rw [equal, List.length_append, List.length_cons] at short
    omega

end SharedTree.Path
