set_option autoImplicit false

namespace EventHub.Text

def toUtf8 (s : String) : List UInt8 := s.toUTF8.data.toList

def ofUtf8? (bytes : List UInt8) : Option String := String.fromUTF8? ⟨bytes.toArray⟩

theorem ofUtf8?_toUtf8 (s : String) : ofUtf8? (toUtf8 s) = some s := by
  have h : (⟨s.toByteArray.data.toList.toArray⟩ : ByteArray) = s.toByteArray := by simp
  simp only [ofUtf8?, toUtf8, String.toUTF8, h, String.fromUTF8?]
  rw [dif_pos s.isValidUTF8]
  rfl

end EventHub.Text
