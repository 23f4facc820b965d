import SharedTree.Json.Parser
import SharedTree.Json.Printer
/-!
Strings are read as they were written (`readString_quoted`): every escape stands for the character
that it was written for.
-/
namespace SharedTree.Json

theorem readUnit_fixed (number : Nat) (small : number < 65536) (rest : List Char) :
    readUnit? (Hex.fixed 4 number ++ rest) = some (number, rest) := by
  have read : Hex.read? (Hex.fixed 4 number) = some number := by
    rw [Hex.read_fixed]
    exact congrArg some (Nat.mod_eq_of_lt small)
  obtain ⟨a, b, c, d, four⟩ : ∃ a b c d, Hex.fixed 4 number = [a, b, c, d] := ⟨_, _, _, _, rfl⟩
  rw [four] at read ⊢
  simp [readUnit?, read]

/-- The escape of a character without a letter of its own. -/
theorem readEscape_unit (c : Char) (control : c.toNat < 32) (rest : List Char) :
    readEscape? ('u' :: Hex.fixed 4 c.toNat ++ rest) = some (c, rest) := by
  have plain : ¬ (0xD800 ≤ c.toNat ∧ c.toNat < 0xDC00) := by omega
  have alone : ¬ (0xDC00 ≤ c.toNat ∧ c.toNat < 0xE000) := by omega
  simp only [List.cons_append, readEscape?, readCodePoint?,
    readUnit_fixed c.toNat (by omega) rest, Option.bind_eq_bind, Option.bind_some, if_neg plain,
    if_neg alone, Char.ofNat_toNat]

theorem readChars_escaped (most : Nat) (c d : Char) (text rest : List Char)
    (read : readEscape? (d :: text) = some (c, rest)) :
    readChars? (most + 1) ('\\' :: d :: text) =
      (readChars? most rest).map fun (cs, last) => (c :: cs, last) := by
  simp [readChars?, read]

theorem readChars_escape (most : Nat) (c : Char) (rest : List Char) :
    readChars? (most + 1) (escape c ++ rest) =
      (readChars? most rest).map fun (cs, last) => (c :: cs, last) := by
  have numbered (number : Nat) (same : c.toNat = number) : Char.ofNat number = c := by
    rw [← same, Char.ofNat_toNat]
  -- One case for each line of the writer, in its order.
  by_cases quote : c = '"'
  · subst quote
    rfl
  by_cases slash : c = '\\'
  · subst slash
    rfl
  rw [escape, if_neg quote, if_neg slash]
  by_cases backspace : c.toNat = 8
  · rw [if_pos backspace]
    exact readChars_escaped most c 'b' rest rest (by rw [← numbered 8 backspace]; rfl)
  by_cases tab : c.toNat = 9
  · rw [if_neg backspace, if_pos tab]
    exact readChars_escaped most c 't' rest rest (by rw [← numbered 9 tab]; rfl)
  by_cases line : c.toNat = 10
  · rw [if_neg backspace, if_neg tab, if_pos line]
    exact readChars_escaped most c 'n' rest rest (by rw [← numbered 10 line]; rfl)
  by_cases form : c.toNat = 12
  · rw [if_neg backspace, if_neg tab, if_neg line, if_pos form]
    exact readChars_escaped most c 'f' rest rest (by rw [← numbered 12 form]; rfl)
  by_cases carriage : c.toNat = 13
  · rw [if_neg backspace, if_neg tab, if_neg line, if_neg form, if_pos carriage]
    exact readChars_escaped most c 'r' rest rest (by rw [← numbered 13 carriage]; rfl)
  rw [if_neg backspace, if_neg tab, if_neg line, if_neg form, if_neg carriage]
  by_cases control : c.toNat < 32
  · rw [if_pos control]
    exact readChars_escaped most c 'u' _ rest (readEscape_unit c control rest)
  · rw [if_neg control]
    simp [readChars?, control]

theorem readChars_escapes (most : Nat) (text rest : List Char) (enough : text.length < most) :
    readChars? most (text.flatMap escape ++ '"' :: rest) = some (text, rest) := by
  induction text generalizing most with
  | nil =>
    obtain ⟨more, rfl⟩ := Nat.exists_eq_add_of_lt enough
    rfl
  | cons c tail ih =>
    cases most with
    | zero => simp at enough
    | succ most =>
      rw [List.flatMap_cons, List.append_assoc, readChars_escape,
        ih most (by simpa using enough), Option.map_some]

theorem escape_ne_nil (c : Char) : escape c ≠ [] := by
  unfold escape
  repeat' split
  all_goals simp

/-- No character is written in less than one. -/
theorem length_escapes (text : List Char) : text.length ≤ (text.flatMap escape).length := by
  induction text with
  | nil => simp
  | cons c tail ih =>
    have one : 0 < (escape c).length := List.length_pos_iff.mpr (escape_ne_nil c)
    simp only [List.flatMap_cons, List.length_append, List.length_cons]
    omega

theorem readString_quoted (text : String) (rest : List Char) :
    readString? (text.toList.flatMap escape ++ '"' :: rest) = some (text, rest) := by
  have fuel := length_escapes text.toList
  have enough : text.toList.length < (text.toList.flatMap escape ++ '"' :: rest).length := by
    rw [List.length_append, List.length_cons]
    omega
  rw [readString?, readChars_escapes _ text.toList rest enough, Option.map_some]
  simp

end SharedTree.Json
