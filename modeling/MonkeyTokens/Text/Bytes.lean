/-! Text and bytes: the UTF-8 bytes of a text, and the text of ASCII bytes. On ASCII the two are
inverse to each other. -/

namespace MonkeyTokens.Text

def utf8 (text : String) : List UInt8 := text.toList.flatMap String.utf8EncodeChar

/-- The text in which each byte is the character of the same number. -/
def ofBytes (bytes : List UInt8) : String := String.ofList (bytes.map Char.ofUInt8)

@[simp] theorem utf8_empty : utf8 "" = [] := rfl

@[simp] theorem utf8_append (first second : String) : utf8 (first ++ second) = utf8 first ++ utf8 second := by
  simp [utf8]

@[simp] theorem val_ofUInt8 (byte : UInt8) : (Char.ofUInt8 byte).val = byte.toUInt32 := rfl

theorem utf8_join (texts : List String) : utf8 (String.join texts) = texts.flatMap utf8 := by
  induction texts with
  | nil => rfl
  | cons text texts ih => rw [String.join_cons, utf8_append, ih, List.flatMap_cons]

private theorem utf8EncodeChar_ofUInt8 (byte : UInt8) (ascii : byte < 0x80) :
    String.utf8EncodeChar (Char.ofUInt8 byte) = [byte] := by
  have small : byte.toNat ≤ 127 := by
    have := UInt8.lt_iff_toNat_lt.mp ascii
    simpa using Nat.le_of_lt_succ this
  simp [String.utf8EncodeChar, small]

theorem utf8_ofBytes {bytes : List UInt8} (ascii : ∀ byte ∈ bytes, byte < 0x80) :
    utf8 (ofBytes bytes) = bytes := by
  simp only [utf8, ofBytes, String.toList_ofList]
  induction bytes with
  | nil => rfl
  | cons byte rest ih =>
    simp only [List.mem_cons, forall_eq_or_imp] at ascii
    simp [utf8EncodeChar_ofUInt8 byte ascii.1, ih ascii.2]

end MonkeyTokens.Text
