import CoinCommit.Bytes.Basic

/-!
# Text as Bytes

A text is stored as its UTF-8 form, and bytes are a text only if they are the
UTF-8 form of one: overlong forms, halves of surrogate pairs and numbers
beyond the last character are refused.

## Main definitions

* `Utf8.encode`: The bytes of a text.
* `Utf8.decode?`: The text with these bytes, if there is one.

## Theorems

* `Utf8.decode?_eq_some_iff`: Bytes are read as a text if they are its UTF-8
  form, and only then.
* `Utf8.encode_ofList`: A text is encoded character by character.
-/

namespace CoinCommit

namespace Utf8

/-- The bytes of a text. -/
def encode (s : String) : Bytes := s.toByteArray.data.toList

/-- The text with these bytes; absent if they are not the UTF-8 form of one. -/
def decode? (bs : Bytes) : Option String := String.fromUTF8? ⟨bs.toArray⟩

theorem decode?_encode (s : String) : decode? (encode s) = some s := by
  have hv : (⟨(encode s).toArray⟩ : ByteArray).IsValidUTF8 := s.isValidUTF8
  rw [decode?, String.fromUTF8?, dif_pos hv]
  rfl

theorem encode_of_decode? {bs : Bytes} {s : String} (h : decode? bs = some s) :
    encode s = bs := by
  unfold decode? String.fromUTF8? at h
  split at h
  · cases h
    rfl
  · cases h

/-- The bytes of a text are read as that text, and no others are. -/
theorem decode?_eq_some_iff {bs : Bytes} {s : String} : decode? bs = some s ↔ bs = encode s :=
  ⟨fun h => (encode_of_decode? h).symm, fun h => h ▸ decode?_encode s⟩

/-- A text is encoded character by character. -/
theorem encode_ofList (cs : List Char) :
    encode (String.ofList cs) = cs.flatMap String.utf8EncodeChar := by
  rw [encode, String.toByteArray_ofList, List.utf8Encode, List.data_toByteArray]

end Utf8

end CoinCommit
