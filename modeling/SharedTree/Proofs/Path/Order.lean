import SharedTree.Proofs.Id.Grammar
import SharedTree.Proofs.Path.Labels
import SharedTree.Text.Utf8
/-!
The order of paths. All labels have the same width, so texts compare as the lists of their labels
do, and whatever stands in a label comes after the slash, so the range of a path holds the path and
those below it and no other. Main statements: `compare_labels`, `inRange_iff` and `as_label_lists`,
which tells every comparison of paths by their labels.
-/
namespace SharedTree

section Lists

variable {Entry : Type} [Ord Entry]

theorem compare_append_of_length {left right : List Entry} (same : left.length = right.length)
    (rest others : List Entry) :
    compare (left ++ rest) (right ++ others) = (compare left right).then (compare rest others) := by
  induction left generalizing right with
  | nil =>
      obtain rfl := List.length_eq_zero_iff.mp same.symm
      rfl
  | cons first left ih =>
      obtain ⟨second, right, rfl⟩ := List.exists_cons_of_length_eq_add_one same.symm
      rw [List.cons_append, List.cons_append, List.compare_cons_cons, List.compare_cons_cons,
        ih (Nat.succ.inj same), Ordering.then_assoc]

theorem compare_append [Std.ReflOrd Entry] (front left right : List Entry) :
    compare (front ++ left) (front ++ right) = compare left right := by
  rw [compare_append_of_length rfl, Std.ReflOrd.compare_self, Ordering.eq_then]

/-- What lies from a list up to the list with one more entry begins with the list. -/
theorem between_iff [Std.OrientedOrd Entry] [Std.LawfulEqOrd Entry] (front other : List Entry)
    (last : Entry) :
    (compare front other).isLE = true ∧ (compare other (front ++ [last])).isLT = true ↔
      ∃ rest, other = front ++ rest ∧ (compare rest [last]).isLT = true := by
  constructor
  · rintro ⟨low, high⟩
    induction front generalizing other with
    | nil => exact ⟨other, rfl, high⟩
    | cons first front ih =>
        cases other with
        | nil => cases low
        | cons second other =>
            rw [List.cons_append, List.compare_cons_cons,
              Std.OrientedOrd.eq_swap (a := second)] at high
            rw [List.compare_cons_cons] at low
            cases order : compare first second with
            | lt => simp [order] at high
            | gt => simp [order] at low
            | eq =>
                obtain rfl := Std.LawfulEqOrd.eq_of_compare order
                simp only [order, Ordering.swap_eq] at low high
                obtain ⟨rest, rfl, less⟩ := ih other low high
                exact ⟨rest, rfl, less⟩
  · rintro ⟨rest, rfl, less⟩
    rw [compare_append]
    refine ⟨?_, less⟩
    have start := compare_append front [] rest
    rw [List.append_nil] at start
    rw [start]
    cases rest <;> rfl

theorem compare_map {Other : Type} [Ord Other] {image : Entry → Other} {left right : List Entry}
    (told : ∀ a ∈ left, ∀ b ∈ right, compare (image a) (image b) = compare a b) :
    compare (left.map image) (right.map image) = compare left right := by
  induction left generalizing right with
  | nil => cases right <;> rfl
  | cons first left ih =>
      cases right with
      | nil => rfl
      | cons second right =>
          rw [List.map_cons, List.map_cons, List.compare_cons_cons, List.compare_cons_cons,
            told first List.mem_cons_self second List.mem_cons_self,
            ih fun a inside b inside' =>
              told a (List.mem_cons_of_mem _ inside) b (List.mem_cons_of_mem _ inside')]

/-- Where entries compare as they are ordered, lists compare in the lexicographic order. -/
theorem compare_eq_lt_iff [Std.LawfulEqOrd Entry] [LT Entry]
    (told : ∀ a b : Entry, compare a b = .lt ↔ a < b) (left right : List Entry) :
    compare left right = .lt ↔ left < right := by
  induction left generalizing right with
  | nil => cases right <;> simp
  | cons first left ih =>
      cases right with
      | nil => simp
      | cons second right =>
          rw [List.compare_cons_cons, Ordering.then_eq_lt, List.cons_lt_cons_iff, told, ih,
            Std.LawfulEqOrd.compare_eq_iff_eq]

end Lists

namespace Text

theorem join_cons (sep : Char) (piece : List Char) (pieces : List (List Char)) :
    join sep (piece :: pieces) = piece ++ pieces.flatMap (sep :: ·) := by
  induction pieces generalizing piece with
  | nil => simp [join]
  | cons next more ih =>
      rw [join, ih, List.flatMap_cons, List.cons_append]
      exact List.cons_ne_nil next more

section Width

variable {sep : Char} {width : Nat} {left right : List (List Char)}
  (wide : ∀ piece ∈ left, piece.length = width) (wide' : ∀ piece ∈ right, piece.length = width)
include wide wide'

/-- Pieces of one width stand below each other, so that a separator never meets what is in one. -/
theorem compare_flatMap : compare (left.flatMap (sep :: ·)) (right.flatMap (sep :: ·)) =
    compare left right := by
  induction left generalizing right with
  | nil => cases right <;> rfl
  | cons piece rest ih =>
      cases right with
      | nil => rfl
      | cons other others =>
          rw [List.forall_mem_cons] at wide wide'
          rw [List.flatMap_cons, List.flatMap_cons,
            compare_append_of_length (by simp [wide.1, wide'.1]), List.compare_cons_cons,
            List.compare_cons_cons, Std.ReflOrd.compare_self, ih wide.2 wide'.2]
          rfl

theorem compare_join (full : left ≠ []) (full' : right ≠ []) :
    compare (join sep left) (join sep right) = compare left right := by
  obtain ⟨piece, rest, rfl⟩ := List.exists_cons_of_ne_nil full
  obtain ⟨other, others, rfl⟩ := List.exists_cons_of_ne_nil full'
  rw [List.forall_mem_cons] at wide wide'
  rw [join_cons, join_cons, compare_append_of_length (wide.1.trans wide'.1.symm),
    compare_flatMap wide.2 wide'.2, List.compare_cons_cons]

end Width

end Text

theorem isLabel_length {text : List Char} (good : isLabel text = true) : text.length = 36 := by
  obtain ⟨id, read⟩ := Option.isSome_iff_exists.mp good
  exact Id.length_of_ungrouped read

/-- What stands in a label comes after the slash, and has one byte. -/
theorem isLabel_chars {text : List Char} (good : isLabel text = true) {c : Char}
    (inside : c ∈ text) : '/' < c ∧ c.val ≤ 127 := by
  obtain ⟨id, read⟩ := Option.isSome_iff_exists.mp good
  rcases Id.ungrouped_chars '_' text id read c inside with rfl | hex
  · decide
  · obtain ⟨value, known⟩ := Option.isSome_iff_exists.mp hex
    obtain ⟨low, high⟩ := Hex.code_of_value known
    rw [Char.lt_def, UInt32.lt_iff_toNat_lt, UInt32.le_iff_toNat_le]
    have slash : '/'.val.toNat = 47 := rfl
    have last : (127 : UInt32).toNat = 127 := rfl
    have code : c.val.toNat = c.toNat := rfl
    omega

namespace Utf8

theorem encode_ascii {text : List Char} (short : ∀ c ∈ text, c.val ≤ 127) :
    encode text = text.map fun c => c.val.toUInt8 := by
  induction text with
  | nil => rfl
  | cons c rest ih =>
      rw [List.forall_mem_cons] at short
      have single := String.utf8EncodeChar_eq_singleton (Char.utf8Size_eq_one_iff.mpr short.1)
      rw [encode, List.flatMap_cons, single, List.map_cons, ← ih short.2]
      rfl

/-- Texts of single bytes compare as their bytes do. -/
theorem compare_encode {left right : List Char} (short : ∀ c ∈ left, c.val ≤ 127)
    (short' : ∀ c ∈ right, c.val ≤ 127) :
    compare (encode left) (encode right) = compare left right := by
  rw [encode_ascii short, encode_ascii short']
  refine compare_map fun a inside b inside' => ?_
  have value {c : Char} (small : c.val ≤ 127) : c.val.toUInt8.toNat = c.val.toNat := by
    rw [UInt32.le_iff_toNat_le] at small
    have last : (127 : UInt32).toNat = 127 := rfl
    rw [UInt32.toNat_toUInt8]
    omega
  have less : a.val.toUInt8 < b.val.toUInt8 ↔ a < b := by
    rw [UInt8.lt_iff_toNat_lt, value (short a inside), value (short' b inside'), Char.lt_def,
      UInt32.lt_iff_toNat_lt]
  have same : a.val.toUInt8 = b.val.toUInt8 ↔ a = b := by
    rw [← UInt8.toNat_inj, value (short a inside), value (short' b inside'), UInt32.toNat_inj,
      Char.ext_iff]
  show compareOfLessAndEq _ _ = compareOfLessAndEq _ _
  simp only [compareOfLessAndEq, less, same]

end Utf8

namespace Path

variable {a b c : Path}

theorem parse_text (path : Path) : parse? path.text = some path := by
  rw [parse?, dif_pos path.labelled]

theorem isLabel_of_mem (path : Path) {text : List Char} (inside : text ∈ path.labels) :
    isLabel text = true := List.all_eq_true.mp path.labelled text inside

/-- Paths compare as the lists of their labels do. -/
theorem compare_labels (a b : Path) : compare a b = compare a.labels b.labels := by
  rw [compare_text, ← Text.join_split '.' a.text, ← Text.join_split '.' b.text]
  exact Text.compare_join (fun _ inside => isLabel_length (a.isLabel_of_mem inside))
    (fun _ inside => isLabel_length (b.isLabel_of_mem inside)) a.labels_ne_nil b.labels_ne_nil

theorem compare_lt_iff_bytes (a b : Path) :
    compare a b = .lt ↔ a.labels.map Utf8.encode < b.labels.map Utf8.encode := by
  have bytes : compare (a.labels.map Utf8.encode) (b.labels.map Utf8.encode) =
      compare a.labels b.labels := by
    refine compare_map fun first inside second inside' => ?_
    exact Utf8.compare_encode (fun _ => And.right ∘ isLabel_chars (a.isLabel_of_mem inside))
      (fun _ => And.right ∘ isLabel_chars (b.isLabel_of_mem inside'))
  rw [compare_labels, ← bytes]
  exact compare_eq_lt_iff (compare_eq_lt_iff fun _ _ => Std.compare_eq_lt) _ _

/-- A character of a path is the dot or comes after the slash. -/
theorem eq_dot_or_lt (path : Path) {c : Char} (inside : c ∈ path.text) : c = '.' ∨ '/' < c := by
  rcases Text.mem_split '.' c path.text inside with same | within
  · exact Or.inl same
  · obtain ⟨piece, listed, inside'⟩ := List.mem_flatten.mp within
    exact Or.inr (isLabel_chars (path.isLabel_of_mem listed) inside').1

theorem compare_of_isAncestorOf (above : a.isAncestorOf b = true) : compare a b = .lt := by
  obtain ⟨last, equal⟩ := (isAncestorOf_iff a b).mp above
  have whole := compare_append a.text [] ('.' :: last)
  rw [List.append_nil] at whole
  rw [compare_text, equal, whole]
  rfl

/-- What is not less than a path is not above it. -/
theorem apart_of_compare (less : compare a b = .lt) : b.isAncestorOf a = false := by
  rw [← Bool.not_eq_true]
  intro above
  cases (Std.OrientedCmp.gt_of_lt (compare_of_isAncestorOf above)).symm.trans less

theorem lineage_increasing (path : Path) : path.lineage.Pairwise fun a b => compare a b = .lt := by
  induction path using parent_induction with
  | top path missing => simp [lineage, ancestors_of_root missing]
  | below path parent found ih =>
      rw [lineage, ancestors_of_parent found, List.pairwise_append]
      refine ⟨ih, List.pairwise_singleton _ _, fun above inside last same => ?_⟩
      rw [List.mem_singleton.mp same]
      exact compare_of_isAncestorOf
        (covers_isAncestorOf ((mem_lineage above parent).mp inside) (parent_isAncestorOf found))

/-- The range of a path holds the path and the paths below it, and no other. -/
theorem inRange_iff (a b : Path) : a.inRange b = true ↔ a.covers b = true := by
  simp only [inRange, rangeEnd, Bool.and_eq_true, between_iff, covers, Bool.or_eq_true, beq_iff_eq,
    isAncestorOf_iff]
  constructor
  · rintro ⟨rest, equal, less⟩
    cases rest with
    | nil => exact Or.inl (text_injective _ _ (by rw [equal, List.append_nil]))
    | cons c rest =>
        -- What follows is less than the slash, so it is a dot.
        rcases b.eq_dot_or_lt (c := c) (by simp [equal]) with rfl | beyond
        · exact Or.inr ⟨rest, equal⟩
        · have more : compare c '/' = .gt :=
            Std.OrientedCmp.gt_of_lt (compareOfLessAndEq_eq_lt.mpr beyond)
          rw [List.compare_cons_cons, more] at less
          cases less
  · -- Behind the path's own text stands nothing or a dot, and a dot is less than a slash.
    rintro (rfl | ⟨last, equal⟩)
    · exact ⟨[], (List.append_nil _).symm, rfl⟩
    · exact ⟨'.' :: last, equal, rfl⟩

/-- What lies between two paths of a subtree is of the subtree. -/
theorem covers_of_between {low high : Path} (first : a.covers low = true)
    (last : a.covers high = true) (after : (compare low b).isLE = true)
    (before : (compare b high).isLE = true) : a.covers b = true := by
  rw [← inRange_iff, inRange, Bool.and_eq_true] at *
  rw [compare_text] at after before
  rw [Ordering.isLT_iff_eq_lt] at last ⊢
  exact ⟨Std.TransOrd.isLE_trans first.1 after, Std.TransCmp.lt_of_isLE_of_lt before last.2⟩

/-- The paths above are those of the proper prefixes of the labels, the shortest first. -/
theorem ancestors_labels (path : Path) : path.ancestors.map labels =
    (List.range' 1 (path.labels.length - 1)).map path.labels.take := by
  induction path using parent_induction with
  | top path missing =>
      rw [ancestors_of_root missing, root_labels missing]
      rfl
  | below path parent found ih =>
      obtain ⟨last, shape⟩ := parent_labels found
      have least := List.length_pos_iff.mpr parent.labels_ne_nil
      have levels : path.labels.length - 1 = parent.labels.length - 1 + 1 := by
        rw [shape, List.length_append, List.length_singleton]
        omega
      have whole : 1 + 1 * (parent.labels.length - 1) = parent.labels.length := by omega
      rw [ancestors_of_parent found, lineage, List.map_append, ih, levels, List.range'_concat,
        List.map_append, shape, List.map_singleton, List.map_singleton, whole, List.take_left]
      congr 1
      refine List.map_congr_left fun count inside => ?_
      rw [List.take_append_of_le_length]
      have := List.mem_range'.mp inside
      omega

/-- Paths are lists of labels in all that compares them. One lies above another if its list is the
shorter beginning of the other; the paths above it are the beginnings of its own; they are ordered
as the lists are, label by label and a label by its bytes, so that a subtree begins with its root
and nothing else comes in between; and the range of a path holds its subtree. -/
theorem as_label_lists (a b : Path) :
    parse? a.text = some a ∧
    (a.isAncestorOf b = true ↔ a.labels <+: b.labels ∧ a.labels ≠ b.labels) ∧
    (a.covers b = true ↔ a.labels <+: b.labels) ∧
    a.ancestors.map labels = (List.range' 1 (a.labels.length - 1)).map a.labels.take ∧
    (compare a b = .lt ↔ a.labels.map Utf8.encode < b.labels.map Utf8.encode) ∧
    (a.isAncestorOf b = true → compare a b = .lt) ∧
    (∀ low high : Path, a.covers low = true → a.covers high = true →
      (compare low b).isLE = true → (compare b high).isLE = true → a.covers b = true) ∧
    (a.inRange b = true ↔ a.covers b = true) := by
  refine ⟨a.parse_text, ?_, covers_iff a b, a.ancestors_labels, compare_lt_iff_bytes a b,
    compare_of_isAncestorOf, fun _ _ => covers_of_between, inRange_iff a b⟩
  rw [isAncestorOf_iff_covers, covers_iff]
  exact and_congr_right fun _ => not_congr ⟨congrArg labels, labels_injective a b⟩

end Path

end SharedTree
