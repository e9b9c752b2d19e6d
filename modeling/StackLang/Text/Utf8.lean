/-!
Texts as bytes in UTF-8.
-/
namespace StackLang.Text

def encodeUtf8 (s : String) : List UInt8 := s.toUTF8.data.toList

def decodeUtf8? (bytes : List UInt8) : Option String := String.fromUTF8? ⟨bytes.toArray⟩

def decodableChars (bytes : ByteArray) : (fuel position : Nat) → List Char
  | 0, _ => []
  | fuel + 1, i =>
    match bytes.utf8DecodeChar? i with
    | some c => c :: decodableChars bytes fuel (i + c.utf8Size)
    | none => []

def firstBadLine (bytes : List UInt8) : Nat :=
  (decodableChars ⟨bytes.toArray⟩ bytes.length 0).count '\n' + 1

/-- A text is found again in its bytes. -/
theorem decodeUtf8?_encodeUtf8 (s : String) : decodeUtf8? (encodeUtf8 s) = some s := by
  have hbytes : (⟨(encodeUtf8 s).toArray⟩ : ByteArray) = s.toUTF8 := by simp [encodeUtf8]
  have hvalid : s.toUTF8.IsValidUTF8 := s.isValidUTF8
  rw [decodeUtf8?, hbytes, String.fromUTF8?, dif_pos hvalid]
  rfl

end StackLang.Text
