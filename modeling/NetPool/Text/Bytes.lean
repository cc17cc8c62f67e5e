/-! Byte strings and their UTF-8 text. -/

namespace NetPool

abbrev Bytes := List UInt8

namespace Text

def utf8 (s : String) : Bytes := s.toUTF8.data.toList

/-- The text these bytes spell, if they are UTF-8. -/
def ofUtf8? (b : Bytes) : Option String := String.fromUTF8? ⟨b.toArray⟩

theorem ofUtf8?_utf8 (s : String) : ofUtf8? (utf8 s) = some s := by
  have h : (⟨s.toUTF8.data.toList.toArray⟩ : ByteArray) = s.toUTF8 := by simp
  rw [ofUtf8?, utf8, h, String.fromUTF8?]
  simp [String.fromUTF8, String.toUTF8, s.isValidUTF8]

end Text

end NetPool
