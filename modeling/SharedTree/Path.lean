import SharedTree.Id
/-!
The place of an item in the tree, written as one text: a label for each identifier from the root
down, with a dot between labels. A label is the grouped form of an identifier with underscores for
hyphens. The subtree of a path is found by comparing texts, so every operation here works on the
text; `labels` and `ids` are its views.
-/
namespace SharedTree

def label (id : Id) : List Char := id.grouped '_'

/-- The identifier that a label stands for. Capitals are read as small letters. -/
def labelId? (text : List Char) : Option Id := Id.ungrouped? '_' text

def isLabel (text : List Char) : Bool := (labelId? text).isSome

/-- A nonempty list of labels with dots between them, the root's label first. Two spellings of a
label are two labels, so paths are equal only letter by letter. -/
structure Path where
  text : List Char
  labelled : (Text.split '.' text).all isLabel = true
deriving DecidableEq

namespace Path

instance : Ord Path := ⟨fun a b => compare a.text b.text⟩

theorem compare_text (a b : Path) : compare a b = compare a.text b.text := rfl

theorem text_injective (a b : Path) (same : a.text = b.text) : a = b := by
  cases a
  cases b
  simpa using same

instance : Std.OrientedOrd Path where
  eq_swap := by
    intro a b
    exact Std.OrientedOrd.eq_swap (a := a.text) (b := b.text)

instance : Std.TransOrd Path where
  isLE_trans := by
    intro a b c
    exact Std.TransOrd.isLE_trans (a := a.text) (b := b.text) (c := c.text)

instance : Std.LawfulEqOrd Path where
  eq_of_compare := by
    intro a b equal
    exact text_injective a b (Std.LawfulEqOrd.eq_of_compare equal)

end Path

theorem label_read (id : Id) : labelId? (label id) = some id :=
  Id.ungrouped_grouped '_' id (by decide)

theorem label_isLabel (id : Id) : isLabel (label id) = true := by
  simp [isLabel, label_read]

theorem isLabel_free (text : List Char) (good : isLabel text = true) : '.' ∉ text := by
  intro inside
  obtain ⟨id, read⟩ := Option.isSome_iff_exists.mp good
  rcases Id.ungrouped_chars '_' text id read '.' inside with equal | hex
  · exact absurd equal (by decide)
  · exact absurd hex (by decide)

theorem label_split (id : Id) : Text.split '.' (label id) = [label id] :=
  Text.split_free '.' (label id) (isLabel_free _ (label_isLabel id))

namespace Path

def parse? (raw : List Char) : Option Path :=
  if labelled : (Text.split '.' raw).all isLabel = true then some ⟨raw, labelled⟩ else none

def root (id : Id) : Path := ⟨label id, by simp [label_split, label_isLabel]⟩

def child (path : Path) (id : Id) : Path :=
  ⟨path.text ++ '.' :: label id, by
    simp [Text.split_append, label_split, label_isLabel, path.labelled]⟩

def ofIds? : List Id → Option Path
  | [] => none
  | id :: rest => some (rest.foldl child (root id))

def labels (path : Path) : List (List Char) := Text.split '.' path.text

def ids (path : Path) : List Id := path.labels.filterMap labelId?

def id (path : Path) : Id := path.ids.getLast?.getD Id.zero

def levels (path : Path) : Nat := path.labels.length

def depth (path : Path) : Nat := path.levels - 1

def isRoot (path : Path) : Bool := !path.text.contains '.'

theorem labelled_before (path : Path) (before last : List Char)
    (equal : path.text = before ++ '.' :: last) :
    (Text.split '.' before).all isLabel = true := by
  have whole := path.labelled
  rw [equal, Text.split_append, List.all_append, Bool.and_eq_true] at whole
  exact whole.1

theorem labelled_after (path : Path) (before last : List Char)
    (equal : path.text = before ++ '.' :: last) :
    (Text.split '.' last).all isLabel = true := by
  have whole := path.labelled
  rw [equal, Text.split_append, List.all_append, Bool.and_eq_true] at whole
  exact whole.2

def parent? (path : Path) : Option Path :=
  match found : Text.beforeLast '.' path.text with
  | none => none
  | some before =>
      some ⟨before, by
        obtain ⟨last, equal, _⟩ := Text.beforeLast_eq_some '.' path.text before found
        exact labelled_before path before last equal⟩

def parentId? (path : Path) : Option Id := path.parent?.map id

def ancestors (path : Path) : List Path :=
  (Text.beforeEach '.' path.text).attach.map fun before =>
    ⟨before.val, by
      obtain ⟨last, equal⟩ := Text.mem_beforeEach '.' path.text before.val before.property
      exact labelled_before path before.val last equal⟩

def lineage (path : Path) : List Path := path.ancestors ++ [path]

/-- True of a path and the paths strictly below it. -/
def isAncestorOf (path other : Path) : Bool := (path.text ++ ['.']).isPrefixOf other.text

def isDescendantOf (path other : Path) : Bool := other.isAncestorOf path

def covers (path other : Path) : Bool := path == other || path.isAncestorOf other

theorem isAncestorOf_iff (path other : Path) :
    path.isAncestorOf other = true ↔ ∃ last, other.text = path.text ++ '.' :: last := by
  rw [isAncestorOf, List.isPrefixOf_iff_prefix]
  constructor
  · rintro ⟨last, equal⟩
    exact ⟨last, by simp [← equal]⟩
  · rintro ⟨last, equal⟩
    exact ⟨last, by simp [equal]⟩

def rebase? (path old new : Path) : Option Path :=
  if path = old then some new
  else if above : old.isAncestorOf path = true then
    some ⟨new.text ++ path.text.drop old.text.length, by
      obtain ⟨last, equal⟩ := (isAncestorOf_iff old path).mp above
      have beyond : path.text.drop old.text.length = '.' :: last := by simp [equal]
      rw [beyond, Text.split_append, List.all_append, new.labelled,
        labelled_after path old.text last equal]
      rfl⟩
  else none

/-- The end, itself left out, of the range of texts that holds a path and the paths below it: the
slash comes right after the dot. -/
def rangeEnd (path : Path) : List Char := path.text ++ ['/']

def inRange (path other : Path) : Bool :=
  (compare path.text other.text).isLE && (compare other.text path.rangeEnd).isLT

end Path

end SharedTree
