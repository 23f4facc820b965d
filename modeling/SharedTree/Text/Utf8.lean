/-!
UTF-8. Main statement: `decode_encode`, bytes that were encoded are decoded again; bytes that no
text encodes to are refused.
-/
namespace SharedTree.Utf8

def encode (text : List Char) : List UInt8 := text.flatMap String.utf8EncodeChar

def decode? (bytes : List UInt8) : Option (List Char) :=
  bytes.toByteArray.utf8Decode?.map Array.toList

theorem decode_encode (text : List Char) : decode? (encode text) = some text := by
  have bytes : (encode text).toByteArray = text.utf8Encode := rfl
  rw [decode?, bytes, List.utf8Decode?_utf8Encode]
  rfl

end SharedTree.Utf8
