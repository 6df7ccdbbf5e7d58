import MonkeyTokens.Proofs.Concatenation

/-! Sources that are not ASCII. The first byte outside ASCII ends a scan, and neither that byte nor
anything behind it bears on the tokens before. In the encoding of a text that byte is the first of a
character, and it stands behind as many bytes as characters. -/

namespace MonkeyTokens

namespace Text

theorem utf8_of_ascii {text : String} (ascii : ∀ c ∈ text.toList, c.toNat < 0x80) :
    (∀ byte ∈ utf8 text, byte < 0x80) ∧ (utf8 text).length = text.toList.length := by
  obtain ⟨bytes, low, rfl⟩ := exists_bytes ascii
  rw [utf8_ofBytes low, ofBytes, String.toList_ofList, List.length_map]
  exact ⟨low, rfl⟩

/-- The bytes that go on with a character lie below 0xC0, those that start one from there on. -/
theorem utf8EncodeChar_of_high {c : Char} (high : 0x80 ≤ c.toNat) :
    ∃ lead tail, String.utf8EncodeChar c = lead :: tail ∧ 0xC0 ≤ lead := by
  have large : ¬ c.val.toNat ≤ 127 := Nat.not_le_of_gt high
  simp only [String.utf8EncodeChar, if_neg large]
  split
  · exact ⟨_, _, rfl, by simp [UInt8.le_iff_toNat_le]; omega⟩
  split
  · exact ⟨_, _, rfl, by simp [UInt8.le_iff_toNat_le]; omega⟩
  · exact ⟨_, _, rfl, by simp [UInt8.le_iff_toNat_le]; omega⟩

theorem ascii_or_split (text : String) :
    (∀ c ∈ text.toList, c.toNat < 0x80) ∨ ∃ before c after, text.toList = before ++ c :: after ∧
      (∀ low ∈ before, low.toNat < 0x80) ∧ 0x80 ≤ c.toNat := by
  cases found : text.toList.find? (0x80 ≤ ·.toNat) with
  | none => exact .inl (by simpa using found)
  | some c =>
    obtain ⟨high, before, after, whole, low⟩ := List.find?_eq_some_iff_append.mp found
    exact .inr ⟨before, c, after, whole, by simpa using low, by simpa using high⟩

end Text

namespace Item

theorem tokens_map (found : List Token) : tokens (found.map token) = .ok found := by
  induction found with
  | nil => rfl
  | cons first found ih => simp [tokens, ih, Except.map]

theorem tokens_map_invalid (found : List Token) (bad : InvalidByte) (rest : List Item) :
    tokens (found.map token ++ invalid bad :: rest) = .error bad := by
  induction found with
  | nil => rfl
  | cons first found ih => simp [tokens, ih, Except.map]

end Item

theorem invalid_mem_scan_iff (source : List UInt8) :
    (∃ bad, Item.invalid bad ∈ scan source) ↔ ∃ byte ∈ source, 0x80 ≤ byte := by
  rcases ascii_or_high source with ascii | ⟨before, byte, rest, rfl, ascii, high⟩
  · obtain ⟨tokens, shown⟩ := scan_ascii ascii
    have none : ¬ ∃ byte ∈ source, 0x80 ≤ byte := by
      rintro ⟨byte, member, high⟩
      exact UInt8.not_lt.mpr high (ascii byte member)
    simp [shown, none]
  · rw [scan_append_high ascii high]
    refine iff_of_true ⟨_, List.mem_append_right _ (List.mem_singleton_self _)⟩ ⟨byte, by simp, ?_⟩
    exact Byte.isAscii_eq_false_iff.mp high

theorem tokenize_ascii {text : String} (ascii : ∀ c ∈ text.toList, c.toNat < 0x80) :
    ∃ tokens, tokenize text = .ok tokens ∧ scan (Text.utf8 text) = tokens.map Item.token ∧
      tokens.getLast? = some .eof := by
  obtain ⟨tokens, shown⟩ := scan_ascii (Text.utf8_of_ascii ascii).1
  have whole : scan (Text.utf8 text) = (tokens ++ [Token.eof]).map Item.token := by simp [shown]
  exact ⟨tokens ++ [.eof], by rw [tokenize, whole, Item.tokens_map], whole, List.getLast?_concat⟩

private theorem tokenize_split {before : List Char} {c : Char} (low : ∀ c ∈ before, c.toNat < 0x80)
    (after : List Char) {lead : UInt8} {tail : List UInt8} (encoded : String.utf8EncodeChar c = lead :: tail)
    (high : 0xC0 ≤ lead) :
    (Text.utf8 (String.ofList before)).length = before.length ∧
      tokenize (String.ofList (before ++ c :: after)) = .error ⟨lead, before.length⟩ := by
  have small : ∀ c ∈ (String.ofList before).toList, c.toNat < 0x80 := by simpa using low
  obtain ⟨ascii, length⟩ := Text.utf8_of_ascii small
  rw [String.toList_ofList] at length
  obtain ⟨tokens, shown⟩ := scan_ascii ascii
  have outside : Byte.isAscii lead = false := by
    rw [Byte.isAscii_eq_false_iff]
    exact UInt8.le_trans (by decide) high
  have bytes : Text.utf8 (String.ofList (before ++ c :: after)) =
      Text.utf8 (String.ofList before) ++ lead :: (tail ++ Text.utf8 (String.ofList after)) := by
    simp [Text.utf8, encoded]
  refine ⟨length, ?_⟩
  rw [tokenize, bytes, scan_append_high ascii outside, shown, List.dropLast_concat, Item.tokens_map_invalid, length]

/-- A text is refused for its first character outside ASCII, at the byte that starts the character. -/
theorem tokenize_high {text : String} (high : ∃ c ∈ text.toList, 0x80 ≤ c.toNat) :
    ∃ before c after lead tail, text.toList = before ++ c :: after ∧ (∀ c ∈ before, c.toNat < 0x80) ∧
      0x80 ≤ c.toNat ∧ String.utf8EncodeChar c = lead :: tail ∧ 0xC0 ≤ lead ∧
      (Text.utf8 (String.ofList before)).length = before.length ∧
      tokenize text = .error ⟨lead, before.length⟩ := by
  rcases Text.ascii_or_split text with ascii | ⟨before, c, after, whole, low, large⟩
  · obtain ⟨c, member, high⟩ := high
    exact absurd (ascii c member) (Nat.not_lt.mpr high)
  · obtain ⟨lead, tail, encoded, leading⟩ := Text.utf8EncodeChar_of_high large
    obtain ⟨length, refused⟩ := tokenize_split low after encoded leading
    rw [← whole, String.ofList_toList] at refused
    exact ⟨before, c, after, lead, tail, whole, low, large, encoded, leading, length, refused⟩

theorem tokenize_eq_ok_iff (text : String) :
    (∃ tokens, tokenize text = .ok tokens) ↔ ∀ c ∈ text.toList, c.toNat < 0x80 := by
  constructor
  · rintro ⟨tokens, accepted⟩ c member
    apply Nat.lt_of_not_le
    intro high
    obtain ⟨_, _, _, _, _, _, _, _, _, _, _, refused⟩ := tokenize_high ⟨c, member, high⟩
    cases accepted.symm.trans refused
  · intro ascii
    obtain ⟨tokens, accepted, _⟩ := tokenize_ascii ascii
    exact ⟨tokens, accepted⟩

/-- The first byte outside ASCII ends a scan with an error, and a text with a character outside ASCII is
refused at the byte that starts the first of them. -/
theorem scan_ends_at_first_invalid :
    (∀ (source rest : List UInt8) (byte : UInt8), (∀ low ∈ source, low < 0x80) → 0x80 ≤ byte →
      (scan source).getLast? = some (.token .eof) ∧
        scan (source ++ [byte] ++ rest) = (scan source).dropLast ++ [.invalid ⟨byte, source.length⟩]) ∧
    (∀ source, (∃ bad, Item.invalid bad ∈ scan source) ↔ ∃ byte ∈ source, 0x80 ≤ byte) ∧
    (∀ text, (∃ tokens, tokenize text = .ok tokens) ↔ ∀ c ∈ text.toList, c.toNat < 0x80) ∧
    (∀ text tokens, tokenize text = .ok tokens →
      scan (Text.utf8 text) = tokens.map Item.token ∧ tokens.getLast? = some .eof) ∧
    ∀ text : String, (∃ c ∈ text.toList, 0x80 ≤ c.toNat) →
      ∃ before c after lead tail, text.toList = before ++ c :: after ∧ (∀ c ∈ before, c.toNat < 0x80) ∧
        0x80 ≤ c.toNat ∧ String.utf8EncodeChar c = lead :: tail ∧ 0xC0 ≤ lead ∧
        (Text.utf8 (String.ofList before)).length = before.length ∧
        tokenize text = .error ⟨lead, before.length⟩ := by
  refine ⟨?_, invalid_mem_scan_iff, tokenize_eq_ok_iff, ?_, fun _ high => tokenize_high high⟩
  · intro source rest byte ascii high
    obtain ⟨tokens, shown⟩ := scan_ascii ascii
    refine ⟨by rw [shown, List.getLast?_concat], ?_⟩
    rw [List.append_assoc, List.singleton_append, scan_append_high ascii (Byte.isAscii_eq_false_iff.mpr high)]
  · intro text tokens accepted
    obtain ⟨others, same, shown⟩ := tokenize_ascii ((tokenize_eq_ok_iff text).mp ⟨tokens, accepted⟩)
    cases same.symm.trans accepted
    exact shown

/-- The two bytes of an accented letter: the first is the error of the text, and the second by itself ends
a scan behind an operator that it does not join. -/
theorem scan_ends_at_first_invalid_accent :
    (∀ low ∈ Text.utf8 "x=", low < 0x80) ∧ (0x80 : UInt8) ≤ 0xA9 ∧
      scan (Text.utf8 "x=" ++ [0xA9] ++ Text.utf8 "=") =
        [.token ⟨.ident, "x"⟩, .token ⟨.assign, "="⟩, .invalid ⟨0xA9, 2⟩] ∧
      (∃ c ∈ "é".toList, 0x80 ≤ c.toNat) ∧ tokenize "é" = .error ⟨0xC3, 0⟩ := by
  obtain ⟨bytes, _, _, _, texts⟩ := scan_ends_at_first_invalid
  have low : ∀ low ∈ Text.utf8 "x=", low < 0x80 := by decide +kernel
  have accented : ∃ c ∈ "é".toList, 0x80 ≤ c.toNat := ⟨'é', by simp, by decide⟩
  refine ⟨low, by decide, ?_, accented, ?_⟩
  · rw [(bytes _ (Text.utf8 "=") 0xA9 low (by decide)).2]
    decide +kernel
  · obtain ⟨before, c, after, lead, tail, whole, _, _, encoded, _, _, refused⟩ := texts _ accented
    cases before with
    | nil =>
      obtain ⟨rfl, _⟩ : 'é' = c ∧ after = [] := by simpa using whole
      have bytes : String.utf8EncodeChar 'é' = [0xC3, 0xA9] := by decide
      cases bytes.symm.trans encoded
      exact refused
    | cons first before => simp at whole

end MonkeyTokens
