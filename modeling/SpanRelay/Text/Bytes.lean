/-! Byte sequences and their reading as UTF-8 text. -/
namespace SpanRelay

abbrev Bytes := List UInt8

namespace Bytes

def ofString (s : String) : Bytes := s.toByteArray.data.toList

def toString? (bytes : Bytes) : Option String := String.fromUTF8? ⟨bytes.toArray⟩

/-- Bytes of ASCII text. -/
def ofAscii (text : List Char) : Bytes := text.map fun c => UInt8.ofNat c.toNat

@[simp] theorem toString?_ofString (s : String) : toString? (ofString s) = some s := by
  have h : (⟨(ofString s).toArray⟩ : ByteArray) = s.toByteArray := by simp [ofString]
  unfold toString? String.fromUTF8?
  rw [h, dif_pos s.isValidUTF8]
  rfl

end Bytes
end SpanRelay
