import SharedTree.Item
import SharedTree.Proofs.Path.Grammar
/-!
Places in the tree and their paths. The identifiers from the root down are the place, and a path is
a spelling of it: one path in small letters is written for the place, and more are read for it if a
label has letters, since a capital counts as its small letter. Main statement:
`one_small_path_per_place`.
-/
namespace SharedTree

theorem Json.text_eq_some_iff (value : Json) (text : String) :
    value.text? = some text ↔ value = .string text := by
  unfold Json.text?
  split
  · simp [Json.string]
  · rename_i other
    exact ⟨fun found => (nomatch found), fun same => absurd same (other text)⟩

namespace Path

variable {a b : Path}

theorem ofJson_eq_some_iff (value : Json) (path : Path) :
    ofJson? value = some path ↔ value = .string path.shown := by
  simp only [ofJson?, Option.bind_eq_some_iff, Json.text_eq_some_iff, parse_eq_some_iff,
    toList_eq_text_iff, exists_eq_right]

theorem lower_eq_self_iff (path : Path) :
    path.lower = path ↔ ∀ c ∈ path.text, c.isUpper = false := by
  have letters : path.lower = path ↔ path.text.map Char.toLower = path.text.map fun c => c := by
    rw [List.map_id']
    exact ⟨congrArg Path.text, text_injective path.lower path⟩
  rw [letters, List.map_inj_left]
  exact forall₂_congr fun c _ => Text.toLower_eq_self_iff c

theorem ids_lower (path : Path) : path.lower.ids = path.ids := ids_of_labels path.labels_ids.symm

theorem ids_eq_iff (a b : Path) : a.ids = b.ids ↔ a.lower = b.lower := by
  constructor
  · intro same
    have made := a.ofIds_ids
    rw [same, b.ofIds_ids] at made
    exact (Option.some.inj made).symm
  · intro same
    rw [← a.ids_lower, same, ids_lower]

theorem ids_prefix_iff (a b : Path) : a.ids <+: b.ids ↔ a.lower.covers b.lower = true := by
  rw [covers_iff, ← labels_ids, ← labels_ids, List.prefix_map_iff_of_injective label_injective]

theorem lower_isAncestorOf_iff_ids (a b : Path) :
    a.lower.isAncestorOf b.lower = true ↔ a.ids <+: b.ids ∧ a.ids ≠ b.ids := by
  rw [isAncestorOf_iff_covers, ids_prefix_iff, Ne, Ne, ids_eq_iff]

/-- One path lies above another if its place does and they are spelled alike that far. -/
theorem isAncestorOf_iff_lower (a b : Path) :
    a.isAncestorOf b = true ↔ a.lower.isAncestorOf b.lower = true ∧ a.text <+: b.text := by
  rw [isAncestorOf_iff, isAncestorOf_iff]
  constructor
  · rintro ⟨last, equal⟩
    have lowered : b.lower.text = a.lower.text ++ '.' :: Text.lowerAscii last := by
      simp only [lower, equal, Text.lowerAscii, List.map_append, List.map_cons]
      rfl
    exact ⟨⟨_, lowered⟩, ⟨_, equal.symm⟩⟩
  · rintro ⟨⟨last, lowered⟩, rest, equal⟩
    -- What follows begins with a dot in small letters, so it begins with a dot.
    have beyond : Text.lowerAscii rest = '.' :: last := by
      simp only [lower, ← equal, Text.lowerAscii, List.map_append] at lowered
      exact List.append_cancel_left lowered
    obtain ⟨c, tail, rfl, dot, _⟩ := List.map_eq_cons_iff.mp beyond
    rw [Text.toLower_eq_iff (by decide)] at dot
    exact ⟨tail, by rw [← equal, dot]⟩

/-- A place has one path in small letters, which is what is written for its identifiers. A path is
read from its own text only, so one with a capital is another path for a place: paths are the same
place if they agree in small letters, and one lies above another if its place does and both are
spelled alike that far. Paths without capitals are their own small paths, so among them equality
and ancestry are those of the identifiers. -/
theorem one_small_path_per_place (a b : Path) :
    (∀ raw, Path.read raw = .ok a ↔ raw = a.shown) ∧
    (∀ value, ofJson? value = some a ↔ value = .string a.shown) ∧
    (a.ids = b.ids ↔ a.lower = b.lower) ∧
    (a.ids <+: b.ids ∧ a.ids ≠ b.ids ↔ a.lower.isAncestorOf b.lower = true) ∧
    (a.isAncestorOf b = true ↔ (a.ids <+: b.ids ∧ a.ids ≠ b.ids) ∧ a.text <+: b.text) ∧
    ofIds? a.ids = some a.lower ∧
    (a.lower = a ↔ ∀ c ∈ a.text, c.isUpper = false) := by
  have above := lower_isAncestorOf_iff_ids a b
  refine ⟨fun raw => read_eq_ok_iff raw a, fun value => ofJson_eq_some_iff value a,
    ids_eq_iff a b, above.symm, ?_, a.ofIds_ids, a.lower_eq_self_iff⟩
  rw [isAncestorOf_iff_lower, above]

/-- A capital makes a second path for a place, which is not above what is below the place. -/
theorem place_with_two_paths :
    ∃ a b below : Path,
      Path.read "0000000a_0000_4000_8000_000000000001" = .ok a ∧
      Path.read "0000000A_0000_4000_8000_000000000001" = .ok b ∧
      Path.read ("0000000A_0000_4000_8000_000000000001." ++
        "00000002_0000_4000_8000_000000000002") = .ok below ∧
      (a.ids = b.ids ∧ a ≠ b) ∧
      ((a.ids <+: below.ids ∧ a.ids ≠ below.ids) ∧ a.isAncestorOf below = false) ∧
      ofIds? b.ids = some a := by
  refine ⟨⟨"0000000a_0000_4000_8000_000000000001".toList, by decide⟩,
    ⟨"0000000A_0000_4000_8000_000000000001".toList, by decide⟩,
    ⟨("0000000A_0000_4000_8000_000000000001." ++ "00000002_0000_4000_8000_000000000002").toList,
      by decide⟩, rfl, rfl, rfl, by decide, by decide, by decide⟩

end Path

end SharedTree
