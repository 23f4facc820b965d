/-!
The 32-bit cyclic checksum with the reflected polynomial `0xEDB88320`: the register starts with all
bits set and its complement is the result. Main statements: `afterBit_injective` and
`afterByte_injective`, no step loses what was in the register, and neither does a whole run; so
`crc32_injective`, a change of one byte changes the checksum.
-/
namespace SharedTree.Checksum

def polynomial : BitVec 32 := 0xEDB88320#32

def afterBit (register : BitVec 32) : BitVec 32 :=
  if register.getLsbD 0 then (register >>> 1) ^^^ polynomial else register >>> 1

def afterBits : Nat → BitVec 32 → BitVec 32
  | 0, register => register
  | count + 1, register => afterBits count (afterBit register)

def afterByte (register : BitVec 32) (byte : UInt8) : BitVec 32 :=
  afterBits 8 (register ^^^ byte.toBitVec.setWidth 32)

def crc32 (bytes : List UInt8) : BitVec 32 := ~~~(bytes.foldl afterByte (BitVec.allOnes 32))

theorem afterBit_top (register : BitVec 32) :
    (afterBit register).getLsbD 31 = register.getLsbD 0 := by
  unfold afterBit
  cases low : register.getLsbD 0 <;> simp [polynomial]

theorem afterBit_injective (a b : BitVec 32) (same : afterBit a = afterBit b) : a = b := by
  have low : a.getLsbD 0 = b.getLsbD 0 := by
    rw [← afterBit_top a, ← afterBit_top b, same]
  have shifted : a >>> 1 = b >>> 1 := by
    unfold afterBit at same
    rw [low] at same
    cases bit : b.getLsbD 0 with
    | false => simpa only [bit, if_neg, Bool.false_eq_true, not_false_eq_true] using same
    | true =>
      rw [bit, if_pos rfl, if_pos rfl] at same
      exact (BitVec.xor_left_inj polynomial).mp same
  apply BitVec.eq_of_getLsbD_eq
  intro i inside
  cases i with
  | zero => exact low
  | succ i =>
    have bit := congrArg (fun register => register.getLsbD i) shifted
    simp only [BitVec.getLsbD_ushiftRight] at bit
    simpa [Nat.add_comm] using bit

theorem afterBits_injective (count : Nat) (a b : BitVec 32)
    (same : afterBits count a = afterBits count b) : a = b := by
  induction count generalizing a b with
  | zero => exact same
  | succ count ih => exact afterBit_injective a b (ih _ _ same)

theorem afterByte_injective (a b : BitVec 32) (byte : UInt8)
    (same : afterByte a byte = afterByte b byte) : a = b := by
  have mixed := afterBits_injective 8 _ _ same
  simpa using mixed

theorem foldl_afterByte_injective (bytes : List UInt8) (a b : BitVec 32)
    (same : bytes.foldl afterByte a = bytes.foldl afterByte b) : a = b := by
  induction bytes generalizing a b with
  | nil => exact same
  | cons byte rest ih => exact afterByte_injective a b byte (ih _ _ same)

theorem afterByte_byte_injective (register : BitVec 32) (a b : UInt8)
    (same : afterByte register a = afterByte register b) : a = b := by
  have mixed := afterBits_injective 8 _ _ same
  have wide := (BitVec.xor_right_inj register).mp mixed
  have narrow := congrArg (BitVec.setWidth 8) wide
  simp only [BitVec.setWidth_setWidth_of_le _ (show 8 ≤ 32 by decide), BitVec.setWidth_eq] at narrow
  exact UInt8.toBitVec_inj.mp narrow

/-- Of bytes that differ in one place only, no two have the same checksum. -/
theorem crc32_injective (front back : List UInt8) (a b : UInt8)
    (same : crc32 (front ++ a :: back) = crc32 (front ++ b :: back)) : a = b := by
  have registers := BitVec.not_inj.mp same
  rw [List.foldl_append, List.foldl_append] at registers
  exact afterByte_byte_injective _ a b (foldl_afterByte_injective back _ _ registers)

end SharedTree.Checksum
