import PlatformMarkers.Text.Basic

/-! Text as UTF-8 bytes. Decoding is strict: no overlong form, no surrogate and nothing
above U+10FFFF is accepted, and a byte order mark is a character like any other. -/

set_option autoImplicit false

namespace PlatformMarkers.Text

def toUtf8 (text : Text) : ByteArray := (String.ofList text).toUTF8

def ofUtf8? (bytes : ByteArray) : Option Text := (String.fromUTF8? bytes).map String.toList

def utf8Length (text : Text) : Nat := text.toUtf8.size

@[simp] theorem ofUtf8?_toUtf8 (text : Text) : ofUtf8? text.toUtf8 = some text := by
  have valid : (String.ofList text).toUTF8.IsValidUTF8 := (String.ofList text).isValidUTF8
  unfold ofUtf8? toUtf8 String.fromUTF8?
  rw [dif_pos valid]
  exact congrArg some String.toList_ofList

theorem toUtf8_of_ofUtf8? {bytes : ByteArray} {text : Text} (decoded : ofUtf8? bytes = some text) :
    text.toUtf8 = bytes := by
  simp only [ofUtf8?, String.fromUTF8?, Option.map_eq_some_iff] at decoded
  obtain ⟨string, found, rfl⟩ := decoded
  split at found
  · cases found
    simp [toUtf8, String.toUTF8, String.fromUTF8]
  · cases found

end PlatformMarkers.Text
