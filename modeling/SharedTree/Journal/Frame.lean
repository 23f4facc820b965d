import SharedTree.Journal.Entry
import SharedTree.Json.Parser
import SharedTree.Json.Printer
import SharedTree.Text.Utf8
import SharedTree.Checksum
/-!
Frames of the journal file. A frame is the length of its body in four bytes, then the body: the
entry as JSON text and the checksum of that text in four bytes. Numbers stand with their most
significant byte first. Main statement: `read_shorter`, every frame takes bytes away, so that
reading them one after the other comes to an end.
-/
namespace SharedTree.Journal.Frame

def word (number : Nat) : List UInt8 :=
  [UInt8.ofNat (number / 16777216), UInt8.ofNat (number / 65536), UInt8.ofNat (number / 256),
    UInt8.ofNat number]

def readWord? : List UInt8 → Option (Nat × List UInt8)
  | a :: b :: c :: d :: rest =>
      some (a.toNat * 16777216 + b.toNat * 65536 + c.toNat * 256 + d.toNat, rest)
  | _ => none

def readBytes? (count : Nat) (bytes : List UInt8) : Option (List UInt8 × List UInt8) :=
  let taken := bytes.take count
  if taken.length = count then some (taken, bytes.drop count) else none

def maxBody : Nat := 64 * 1024 * 1024

def payload (entry : Entry) : List UInt8 := Utf8.encode entry.toJson.render

def body (text : List UInt8) : List UInt8 := text ++ word (Checksum.crc32 text).toNat

def ofEntry (entry : Entry) : List UInt8 :=
  word ((payload entry).length + 4) ++ body (payload entry)

def readBody? (bytes : List UInt8) : Option Entry := do
  let (text, rest) ← readBytes? (bytes.length - 4) bytes
  let (sum, _) ← readWord? rest
  if (Checksum.crc32 text).toNat = sum then Entry.ofText? text else none

def read? (bytes : List UInt8) : Option (Entry × List UInt8) := do
  let (length, rest) ← readWord? bytes
  if 4 ≤ length ∧ length ≤ maxBody then
    let (inside, tail) ← readBytes? length rest
    let entry ← readBody? inside
    some (entry, tail)
  else none

theorem readWord_length (bytes : List UInt8) (number : Nat) (rest : List UInt8)
    (read : readWord? bytes = some (number, rest)) : bytes.length = rest.length + 4 := by
  match bytes, read with
  | _ :: _ :: _ :: _ :: _, read =>
    simp only [readWord?, Option.some.injEq, Prod.mk.injEq] at read
    simp [← read.2]

theorem readBytes_append (count : Nat) (bytes taken rest : List UInt8)
    (read : readBytes? count bytes = some (taken, rest)) :
    taken ++ rest = bytes ∧ taken.length = count := by
  simp only [readBytes?] at read
  split at read
  · rename_i enough
    simp only [Option.some.injEq, Prod.mk.injEq] at read
    rw [← read.1, ← read.2]
    exact ⟨List.take_append_drop count bytes, enough⟩
  · simp at read

/-- What a frame that can be read is made of. -/
theorem read_parts (bytes : List UInt8) (entry : Entry) (tail : List UInt8)
    (read : read? bytes = some (entry, tail)) :
    ∃ length rest inside, readWord? bytes = some (length, rest) ∧ 4 ≤ length ∧ length ≤ maxBody ∧
      readBytes? length rest = some (inside, tail) ∧ readBody? inside = some entry := by
  unfold read? at read
  cases first : readWord? bytes with
  | none => simp [first] at read
  | some header =>
    obtain ⟨length, rest⟩ := header
    simp only [first, Option.bind_eq_bind, Option.bind_some] at read
    split at read
    · rename_i bounds
      cases second : readBytes? length rest with
      | none => simp [second] at read
      | some parts =>
        obtain ⟨inside, after⟩ := parts
        simp only [second, Option.bind_some] at read
        cases third : readBody? inside with
        | none => simp [third] at read
        | some found =>
          simp only [third, Option.bind_some, Option.some.injEq, Prod.mk.injEq] at read
          refine ⟨length, rest, inside, rfl, bounds.1, bounds.2, ?_, ?_⟩
          · rw [second, read.2]
          · rw [third, read.1]
    · simp at read

theorem read_shorter (bytes : List UInt8) (entry : Entry) (tail : List UInt8)
    (read : read? bytes = some (entry, tail)) : tail.length < bytes.length := by
  obtain ⟨length, rest, inside, header, least, _, split, _⟩ := read_parts bytes entry tail read
  have before := readWord_length bytes length rest header
  have after := (readBytes_append length rest inside tail split).1
  have total := congrArg List.length after
  simp only [List.length_append] at total
  omega

/-- The entries of the frames that stand one behind the other from the start, as many as can be
read, and the bytes behind the last. -/
def readAll (bytes : List UInt8) : List Entry × List UInt8 :=
  match found : read? bytes with
  | none => ([], bytes)
  | some (entry, tail) =>
      have _ := read_shorter bytes entry tail found
      let (entries, rest) := readAll tail
      (entry :: entries, rest)
termination_by bytes.length

end SharedTree.Journal.Frame
