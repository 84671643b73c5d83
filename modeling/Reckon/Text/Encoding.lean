/-!
# Encoding

Texts outside the program are bytes in UTF-8. `decode?` reads them and fails on bytes that encode no
text; what `encode` writes is read back.
-/

namespace Reckon.Text

/-- The bytes of a text in UTF-8. -/
def encode (s : String) : List UInt8 := s.toByteArray.data.toList

/-- The text that bytes encode in UTF-8, if they do. -/
def decode? (bytes : List UInt8) : Option String := String.fromUTF8? ⟨bytes.toArray⟩

/-- The bytes of a text are decoded to this text. -/
@[simp] theorem decode?_encode (s : String) : decode? (encode s) = some s := by
  simp [decode?, encode, String.fromUTF8?, String.fromUTF8, s.isValidUTF8]

end Reckon.Text
