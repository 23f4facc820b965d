import SharedTree.Journal.Frame
import SharedTree.Proofs.Instant.RoundTrip
import SharedTree.Proofs.Json.RoundTrip
/-!
Rows, changes and entries are read from JSON as they were written there. What is asked of a row is
that its times have names and that the floats among its attributes read back (`Change.Exact`), of
an entry that its text is neither too long nor nested too deeply (`Entry.Replayable`); then the
entry comes back from its text (`ofText_payload`).
-/
namespace SharedTree

/-! Identifiers, paths and names. -/

theorem Id.parse_text (id : Id) : Id.parse? id.text = some id := by
  have length : id.text.length = 36 := by simp [text, grouped, groups, Text.join, digits_length]
  have read : ungrouped? '-' id.text = some id := ungrouped_grouped '-' id (by decide)
  simp [parse?, length, read]

theorem Id.ofJson_toJson (id : Id) : Id.ofJson? id.toJson = some id := by
  simpa [ofJson?, toJson, Json.chars, Json.text?] using parse_text id

theorem Path.ofJson_toJson (path : Path) : Path.ofJson? path.toJson = some path := by
  have read : parse? path.text = some path := dif_pos path.labelled
  simpa [ofJson?, toJson, Json.chars, Json.text?] using read

theorem Instant.ofJson_toJson (instant : Instant) (named : instant.Named) :
    Instant.ofJson? instant.toJson = some instant := by
  simpa [ofJson?, toJson, Json.chars, Json.text?] using parse_text instant named

theorem ItemType.ofCase_toJson (kind : ItemType) :
    ItemType.ofCase? Json.looseCaseName? kind.toJson = some kind := by
  cases kind <;> decide

theorem Permission.ofCase_toJson (level : Permission) :
    Permission.ofCase? Json.looseCaseName? level.toJson = some level := by
  cases level <;> decide

/-! Rows. -/

theorem Json.required_some {Value : Type} (read : Json → Option Value) (value : Json) :
    required? read (some value) = read value := rfl

def Scalar.Exact : Scalar → Prop
  | .float bits => Binary64.ReadsBack bits
  | _ => True

instance : DecidablePred Scalar.Exact
  | .float bits => inferInstanceAs (Decidable (Binary64.ReadsBack bits))
  | .null | .bool _ | .integer _ | .string _ => isTrue trivial

namespace Json

mutual
theorem scalars_fit (value : Json) (canonical : value.isCanonical = true) :
    ∀ scalar ∈ value.scalars, fits scalar = true := by
  match value, canonical with
  | .scalar plain, canonical =>
    intro scalar inside
    rw [List.mem_singleton.mp inside]
    exact canonical
  | .array elements, canonical => exact elementsScalars_fit elements canonical
  | .object members, canonical =>
    rw [isCanonical, Bool.and_eq_true] at canonical
    exact membersScalars_fit members canonical.1

theorem elementsScalars_fit (elements : List Json) (canonical : elementsCanonical elements = true) :
    ∀ scalar ∈ elementsScalars elements, fits scalar = true := by
  match elements, canonical with
  | [], _ => simp [elementsScalars]
  | element :: rest, canonical =>
    rw [elementsCanonical, Bool.and_eq_true] at canonical
    intro scalar inside
    rcases List.mem_append.mp inside with here | later
    · exact scalars_fit element canonical.1 scalar here
    · exact elementsScalars_fit rest canonical.2 scalar later

theorem membersScalars_fit (members : List (String × Json))
    (canonical : membersCanonical members = true) :
    ∀ scalar ∈ membersScalars members, fits scalar = true := by
  match members, canonical with
  | [], _ => simp [membersScalars]
  | (key, value) :: rest, canonical =>
    rw [membersCanonical, Bool.and_eq_true] at canonical
    intro scalar inside
    rcases List.mem_append.mp inside with here | later
    · exact scalars_fit value canonical.1 scalar here
    · exact membersScalars_fit rest canonical.2 scalar later
end

theorem readsBack_scalar (value : Scalar) : (scalar value).ReadsBack ↔ value.ReadsBack := by
  simp [ReadsBack, scalars]

@[simp] theorem readsBack_string (text : String) : (string text).ReadsBack :=
  (readsBack_scalar _).mpr trivial

@[simp] theorem readsBack_chars (text : List Char) : (chars text).ReadsBack := readsBack_string _

theorem readsBack_array (elements : List Json) :
    (array elements).ReadsBack ↔ ∀ element ∈ elements, element.ReadsBack := by
  show (∀ scalar ∈ elementsScalars elements, scalar.ReadsBack) ↔ _
  induction elements with
  | nil => simp [elementsScalars]
  | cons element rest ih => simp [elementsScalars, or_imp, forall_and, ih, ReadsBack]

theorem readsBack_object (members : List (String × Json)) :
    (object members).ReadsBack ↔ ∀ member ∈ members, member.2.ReadsBack := by
  show (∀ scalar ∈ membersScalars members, scalar.ReadsBack) ↔ _
  induction members with
  | nil => simp [membersScalars]
  | cons member rest ih =>
    rw [List.forall_mem_cons, ← ih]
    simp [membersScalars, or_imp, forall_and, ReadsBack]

end Json

def Extra.Exact (extra : Extra) : Prop := ∀ scalar ∈ extra.value.scalars, scalar.Exact

instance : DecidablePred Extra.Exact := fun _ => inferInstanceAs (Decidable (∀ _ ∈ _, _))

theorem Extra.Exact.readsBack {extra : Extra} (exact : extra.Exact) : extra.value.ReadsBack := by
  intro scalar inside
  have floats := exact scalar inside
  have integers := Json.scalars_fit extra.value extra.canonical scalar inside
  cases scalar with
  | float bits => exact floats
  | integer value => exact integers
  | _ => exact trivial

def Change.Exact : Change → Prop
  | .putItem item => item.extra.Exact ∧ item.createdAt.Named ∧ item.updatedAt.Named
  | .putMembership row => row.createdAt.Named ∧ row.updatedAt.Named
  | _ => True

instance : DecidablePred Change.Exact
  | .putItem item =>
      inferInstanceAs (Decidable (item.extra.Exact ∧ item.createdAt.Named ∧ item.updatedAt.Named))
  | .putMembership row => inferInstanceAs (Decidable (row.createdAt.Named ∧ row.updatedAt.Named))
  | .deleteItem _ | .deleteMembership _ => isTrue trivial

theorem Item.ofFields_toJson (item : Item) (created : item.createdAt.Named)
    (updated : item.updatedAt.Named) :
    Item.ofFields? Json.looseCaseName? item.toJson = some item := by
  have fields : item.toJson.fields? fieldNames fieldNames.length =
      some (item.members.map fun member => some member.2) :=
    Json.fields_object item.members _ (by simp [members])
  have text : Json.text? (.string item.name) = some item.name := rfl
  simp only [ofFields?, fields, members, List.map_cons, List.map_nil, Json.required?, Json.orElse?,
    Id.ofJson_toJson, Path.ofJson_toJson, text, ItemType.ofCase_toJson, Extra.ofJson_value,
    Instant.ofJson_toJson _ created, Instant.ofJson_toJson _ updated, Option.bind_eq_bind,
    Option.bind_some]

theorem Membership.ofFields_toJson (row : Membership) (created : row.createdAt.Named)
    (updated : row.updatedAt.Named) :
    Membership.ofFields? Json.looseCaseName? row.toJson = some row := by
  have fields : row.toJson.fields? fieldNames fieldNames.length =
      some (row.members.map fun member => some member.2) :=
    Json.fields_object row.members _ (by simp [members])
  simp only [ofFields?, fields, members, List.map_cons, List.map_nil, Json.required?,
    Id.ofJson_toJson, Path.ofJson_toJson, Permission.ofCase_toJson,
    Instant.ofJson_toJson _ created, Instant.ofJson_toJson _ updated, Option.bind_eq_bind,
    Option.bind_some]

/-! Changes and entries. -/

namespace Change

theorem ofJson_tagged (op name : String) (value : Json) (other : name ≠ "op") :
    ofJson? (.object [("op", .string op), (name, value)]) = ofField? op (.object [(name, value)]) := by
  simp [ofJson?, Json.member?, other]

theorem fields_single (name : String) (value : Json) :
    (Json.object [(name, value)]).fields? [name] 1 = some [some value] :=
  Json.fields_object [(name, value)] 1 (by simp)

theorem ofJson_toJson (change : Change) (exact : change.Exact) :
    ofJson? change.toJson = some change := by
  cases change with
  | putItem item =>
    have read := item.ofFields_toJson exact.2.1 exact.2.2
    rw [toJson, ofJson_tagged _ _ _ (by decide)]
    simp [ofField?, fields_single, Json.required?, read]
  | deleteItem id =>
    rw [toJson, ofJson_tagged _ _ _ (by decide)]
    simp [ofField?, fields_single, Json.required?, Id.ofJson_toJson]
  | putMembership row =>
    have read := row.ofFields_toJson exact.1 exact.2
    rw [toJson, ofJson_tagged _ _ _ (by decide)]
    simp [ofField?, fields_single, Json.required?, read]
  | deleteMembership id =>
    rw [toJson, ofJson_tagged _ _ _ (by decide)]
    simp [ofField?, fields_single, Json.required?, Id.ofJson_toJson]

theorem mapM_toJson (changes : List Change) (exact : ∀ change ∈ changes, change.Exact) :
    (changes.map toJson).mapM ofJson? = some changes := by
  induction changes with
  | nil => rfl
  | cons change rest ih =>
    have first := ofJson_toJson change (exact change List.mem_cons_self)
    have others := ih fun c inside => exact c (List.mem_cons_of_mem change inside)
    simp [first, others]

theorem toJson_readsBack (change : Change) (exact : change.Exact) : change.toJson.ReadsBack := by
  cases change with
  | putItem item =>
    have attributes := exact.1.readsBack
    have row : item.toJson.ReadsBack := by
      simp [Item.toJson, Item.members, Json.readsBack_object, attributes, Id.toJson, Path.toJson,
        Instant.toJson, ItemType.toJson]
    simp [toJson, Json.readsBack_object, row]
  | deleteItem id => simp [toJson, Json.readsBack_object, Id.toJson]
  | putMembership row =>
    have fields : row.toJson.ReadsBack := by
      simp [Membership.toJson, Membership.members, Json.readsBack_object, Id.toJson, Path.toJson,
        Instant.toJson, Permission.toJson]
    simp [toJson, Json.readsBack_object, fields]
  | deleteMembership id => simp [toJson, Json.readsBack_object, Id.toJson]

end Change

namespace Journal

/-- True of the entries that are read from their frames: the text is not too long and not nested too
deeply, and each change is told exactly. -/
structure Entry.Replayable (entry : Entry) : Prop where
  shallow : entry.toJson.depth ≤ Json.maxDepth
  short : (Frame.payload entry).length + 4 ≤ Frame.maxBody
  exact : ∀ change ∈ entry.changes, change.Exact

instance : DecidablePred Entry.Replayable := fun entry =>
  decidable_of_iff (entry.toJson.depth ≤ Json.maxDepth ∧
      (Frame.payload entry).length + 4 ≤ Frame.maxBody ∧ ∀ change ∈ entry.changes, change.Exact)
    ⟨fun ⟨shallow, short, exact⟩ => ⟨shallow, short, exact⟩,
      fun ⟨shallow, short, exact⟩ => ⟨shallow, short, exact⟩⟩

namespace Entry

theorem natural_sequence (number : UInt64) :
    Json.natural? (.natural number.toNat) = some number.toNat := by
  have small := number.toNat_lt
  have range : 0 ≤ (number.toNat : Int) ∧ (number.toNat : Int) < 18446744073709551616 := by omega
  simp only [Json.natural, Json.natural?, if_pos range, Int.toNat_natCast]

theorem int64_timestamp (time : Int64) : Json.int64? (.integer time.toInt) = some time := by
  have least := time.le_toInt
  have most := time.toInt_lt
  have range : -9223372036854775808 ≤ time.toInt ∧ time.toInt < 9223372036854775808 := by omega
  simp only [Json.int64?, if_pos range, Int64.ofInt_toInt]

theorem ofJson_fields (value : Json) (number : Nat) (entry : Entry) {first second third : Json}
    (fields : value.fields? fieldNames fieldNames.length = some [some first, some second, some third])
    (sequence : Json.natural? first = some number) (same : UInt64.ofNat number = entry.sequence)
    (timestamp : Json.int64? second = some entry.timestamp)
    (changes : Json.list? Change.ofJson? third = some entry.changes) :
    ofJson? value = some entry := by
  simp only [ofJson?, fields, Json.required_some, sequence, same, timestamp, changes,
    Option.bind_eq_bind, Option.bind_some]

theorem ofJson_toJson (entry : Entry) (exact : ∀ change ∈ entry.changes, change.Exact) :
    ofJson? entry.toJson = some entry :=
  ofJson_fields entry.toJson entry.sequence.toNat entry
    (Json.fields_object [("sequence", .natural entry.sequence.toNat),
      ("timestamp", .integer entry.timestamp.toInt),
      ("ops", .array (entry.changes.map Change.toJson))] _ (by simp))
    (natural_sequence entry.sequence) UInt64.ofNat_toNat (int64_timestamp entry.timestamp)
    (Change.mapM_toJson entry.changes exact)

theorem toJson_readsBack (entry : Entry) (exact : ∀ change ∈ entry.changes, change.Exact) :
    entry.toJson.ReadsBack := by
  have number : (Json.natural entry.sequence.toNat).ReadsBack := by
    have small := entry.sequence.toNat_lt
    apply (Json.readsBack_scalar _).mpr
    simp only [Scalar.ReadsBack, Json.fits, Bool.and_eq_true, decide_eq_true_eq]
    omega
  have time : (Json.integer entry.timestamp.toInt).ReadsBack := by
    have least := entry.timestamp.le_toInt
    have most := entry.timestamp.toInt_lt
    apply (Json.readsBack_scalar _).mpr
    simp only [Scalar.ReadsBack, Json.fits, Bool.and_eq_true, decide_eq_true_eq]
    omega
  have changes : (Json.array (entry.changes.map Change.toJson)).ReadsBack := by
    rw [Json.readsBack_array]
    intro value inside
    obtain ⟨change, written, rfl⟩ := List.mem_map.mp inside
    exact change.toJson_readsBack (exact change written)
  simp [toJson, Json.readsBack_object, number, time, changes]

/-- What is read from the text of an entry is what its JSON value stands for. -/
theorem ofText_parsed (entry : Entry) (value : Json)
    (parsed : Json.parse? entry.toJson.render = some value) :
    ofText? (Frame.payload entry) = ofJson? value := by
  have selected : Json.select? fieldNames (Frame.payload entry) = some value := by
    simp [Json.select?, Frame.payload, Utf8.decode_encode, parsed]
  rw [ofText?, Json.record?, selected, Option.bind_some]

theorem ofText_payload (entry : Entry) (replayable : entry.Replayable) :
    ofText? (Frame.payload entry) = some entry := by
  rw [entry.ofText_parsed entry.toJson
    (Json.parse_render _ replayable.shallow (entry.toJson_readsBack replayable.exact))]
  exact entry.ofJson_toJson replayable.exact

end Entry

end Journal

end SharedTree
