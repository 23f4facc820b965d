import SharedTree.Proofs.Journal.Frames
/-!
Which entries come back from their frames, told by what their rows hold. Attributes without floats
and the instants of four-digit years without leap seconds are written exactly, so that only the
length of the text and its depth are left to ask for (`frame_round_trip`).
-/
namespace SharedTree

def Scalar.FloatFree : Scalar → Prop
  | .float _ => False
  | _ => True

instance : DecidablePred Scalar.FloatFree
  | .float _ => isFalse id
  | .null | .bool _ | .integer _ | .string _ => isTrue trivial

theorem Scalar.FloatFree.exact {scalar : Scalar} (free : scalar.FloatFree) : scalar.Exact := by
  cases scalar with
  | float bits => exact free.elim
  | _ => trivial

def Extra.FloatFree (extra : Extra) : Prop := ∀ scalar ∈ extra.value.scalars, scalar.FloatFree

instance : DecidablePred Extra.FloatFree := fun _ => inferInstanceAs (Decidable (∀ _ ∈ _, _))

namespace Instant

def year (instant : Instant) : Int := (Date.ofDay (instant.seconds / 86400)).year

/-- True of the instants of the years 0 to 9999 that are in no leap second. -/
structure FourDigit (instant : Instant) : Prop where
  least : 0 ≤ instant.year
  most : instant.year ≤ 9999
  fraction : instant.nanos.val < 1000000000

instance (instant : Instant) : Decidable instant.FourDigit :=
  decidable_of_iff
    (0 ≤ instant.year ∧ instant.year ≤ 9999 ∧ instant.nanos.val < 1000000000)
    ⟨fun ⟨least, most, fraction⟩ => ⟨least, most, fraction⟩,
      fun ⟨least, most, fraction⟩ => ⟨least, most, fraction⟩⟩

theorem FourDigit.named {instant : Instant} (digits : instant.FourDigit) : instant.Named := by
  obtain ⟨least, most, fraction⟩ := digits
  obtain ⟨cycle, year, ofYear, within, small, _, split, made⟩ :=
    Date.ofDay_parts (instant.seconds / 86400)
  rw [Instant.year, made] at least most
  -- January and February are counted to the year before, so the bounds are off by at most one.
  have early : 0 ≤ cycle * 400 + (year : Int) + 1 := by
    dsimp only at least
    split at least <;> omega
  have late : cycle * 400 + (year : Int) ≤ 9999 := by
    dsimp only at most
    split at most <;> omega
  have before : Date.daysBeforeYear year ≤ 146097 := by unfold Date.daysBeforeYear; omega
  have first : firstSecond = -8334601228800 := by decide
  have last : lastSecond = 8210266876799 := by decide
  exact ⟨by omega, by omega, .inl fraction⟩

end Instant

namespace Change

/-- True of the changes whose times are of four-digit years and whose attributes hold no floats. -/
def Plain : Change → Prop
  | .putItem item => item.extra.FloatFree ∧ item.createdAt.FourDigit ∧ item.updatedAt.FourDigit
  | .putMembership row => row.createdAt.FourDigit ∧ row.updatedAt.FourDigit
  | .deleteItem _ | .deleteMembership _ => True

instance : DecidablePred Plain
  | .putItem item => inferInstanceAs (Decidable
      (item.extra.FloatFree ∧ item.createdAt.FourDigit ∧ item.updatedAt.FourDigit))
  | .putMembership row =>
      inferInstanceAs (Decidable (row.createdAt.FourDigit ∧ row.updatedAt.FourDigit))
  | .deleteItem _ | .deleteMembership _ => isTrue trivial

theorem Plain.exact {change : Change} (plain : change.Plain) : change.Exact := by
  cases change with
  | putItem item =>
    obtain ⟨free, created, updated⟩ := plain
    exact ⟨fun scalar inside => (free scalar inside).exact, created.named, updated.named⟩
  | putMembership row => exact ⟨plain.1.named, plain.2.named⟩
  | deleteItem id => trivial
  | deleteMembership id => trivial

end Change

namespace Journal

/-- The frame of an entry, with anything behind it, is read as the entry and up to its own end. -/
theorem frame_round_trip (entry : Entry) (plain : ∀ change ∈ entry.changes, change.Plain)
    (nested : entry.toJson.depth ≤ 127)
    (short : (Frame.payload entry).length ≤ 64 * 1024 * 1024 - 4) (rest : List UInt8) :
    Frame.read? (Frame.ofEntry entry ++ rest) = some (entry, rest) := by
  have body : (Frame.payload entry).length + 4 ≤ Frame.maxBody := by unfold Frame.maxBody; omega
  have exact : ∀ change ∈ entry.changes, change.Exact :=
    fun change inside => (plain change inside).exact
  exact Frame.read_ofEntry entry ⟨nested, body, exact⟩ rest

namespace Sample

def extremes : Extra :=
  ⟨.object [("", .array [.integer (-9223372036854775808), .integer 18446744073709551615]),
    ("bool", .array [.null, .bool true, .object []]),
    ("text", .string "\"\\/\u0000\u001f\n\u007fé𝄞")], by decide +kernel⟩

def varied : Entry :=
  let path := Path.root (.ofNat 0xfedcba9876543210)
  let first := Instant.ofNanos (-62167219199999999000)
  let last := Instant.ofNanos 253402300799999999999
  ⟨18446744073709551615, -9223372036854775808,
    [.putItem ⟨.ofNat 1, path, "name\t", .h5p, extremes, .ofNat 2, first, last⟩,
      .deleteItem (.ofNat 3),
      .putMembership ⟨.ofNat 4, path, .ofNat 5, .write, .ofNat 6, default, .ofNanos 1500000000⟩,
      .deleteMembership (.ofNat 7)]⟩

end Sample

theorem sample_frame_round_trip :
    (∀ change ∈ Sample.varied.changes, change.Plain) ∧ Sample.varied.toJson.depth ≤ 127 ∧
      (Frame.payload Sample.varied).length ≤ 64 * 1024 * 1024 - 4 ∧
      Frame.read? (Frame.ofEntry Sample.varied ++ [0, 255]) = some (Sample.varied, [0, 255]) := by
  have plain : ∀ change ∈ Sample.varied.changes, change.Plain := by decide +kernel
  have nested : Sample.varied.toJson.depth ≤ 127 := by decide +kernel
  have short : (Frame.payload Sample.varied).length ≤ 64 * 1024 * 1024 - 4 := by decide +kernel
  exact ⟨plain, nested, short, frame_round_trip Sample.varied plain nested short [0, 255]⟩

end Journal

end SharedTree
