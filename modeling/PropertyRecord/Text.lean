import PropertyRecord.Bytes

/-!
# Text as bytes

Keys and text values are strings; on the wire and in the arena they are their UTF-8 bytes. Main
statements: `ofUtf8?_utf8` and `eq_utf8_of_ofUtf8?`, a byte string reads as a text exactly if it is
that text's bytes.
-/

namespace PropertyRecord

/-- The UTF-8 bytes of a text. -/
def utf8 (text : String) : Bytes := text.toUTF8.data.toList

/-- The text that bytes spell, if they are well-formed UTF-8. -/
def ofUtf8? (bytes : Bytes) : Option String := String.fromUTF8? bytes.toByteArray

theorem ofUtf8?_utf8 (text : String) : ofUtf8? (utf8 text) = some text := by
  have packed : (utf8 text).toByteArray = text.toByteArray := by
    apply ByteArray.ext
    rw [List.data_toByteArray, utf8, Array.toArray_toList, String.toUTF8_eq_toByteArray]
  unfold ofUtf8? String.fromUTF8?
  rw [packed, dif_pos text.isValidUTF8]
  rfl

theorem eq_utf8_of_ofUtf8? {bytes : Bytes} {text : String} (read : ofUtf8? bytes = some text) :
    bytes = utf8 text := by
  unfold ofUtf8? String.fromUTF8? at read
  split at read
  next valid =>
    cases read
    change bytes = (String.fromUTF8 bytes.toByteArray valid).toUTF8.data.toList
    rw [String.toUTF8_eq_toByteArray]
    simp [String.fromUTF8, List.data_toByteArray]
  next => contradiction

theorem utf8_inj {a b : String} : utf8 a = utf8 b ↔ a = b := by
  constructor
  · intro equal
    have read := ofUtf8?_utf8 a
    rw [equal, ofUtf8?_utf8] at read
    exact (Option.some.inj read).symm
  · intro equal
    rw [equal]

end PropertyRecord
