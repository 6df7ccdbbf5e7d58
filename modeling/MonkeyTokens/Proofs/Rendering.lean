import MonkeyTokens.Lexing.Item
import MonkeyTokens.Source.Line
import Mathlib.Data.List.Nodup
import Mathlib.Data.List.TakeWhile

/-! Reading back what is shown. A number, a quoted text, a token and an invalid byte are each shown in
a way that can be read back, and on one line. A quoted text ends at its closing quote whatever stands
behind it, since no escape starts with one. -/

namespace MonkeyTokens

/-- What stands before the first mark is told by the whole. -/
theorem cut_unique {α : Type} {mark : α} {left right rest others : List α} (leftFree : mark ∉ left)
    (rightFree : mark ∉ right) (same : left ++ mark :: rest = right ++ mark :: others) :
    left = right ∧ rest = others := by
  induction left generalizing right with
  | nil =>
    cases right with
    | nil => simpa using same
    | cons first right =>
      obtain ⟨rfl, _⟩ := List.cons.inj same
      simp at rightFree
  | cons first left ih =>
    rw [List.mem_cons, not_or] at leftFree
    cases right with
    | nil =>
      obtain ⟨rfl, _⟩ := List.cons.inj same
      exact absurd rfl leftFree.1
    | cons other right =>
      rw [List.mem_cons, not_or] at rightFree
      obtain ⟨rfl, behind⟩ := List.cons.inj same
      obtain ⟨rfl, rest⟩ := ih leftFree.2 rightFree.2 behind
      exact ⟨rfl, rest⟩

namespace Text

def hexDigitValue (digit : Char) : Nat := if digit.isDigit then digit.toNat - 48 else digit.toNat - 87

/-- The number that lower-case hexadecimal digits stand for. -/
def hexValue (digits : List Char) : Nat := digits.foldl (fun value digit => 16 * value + hexDigitValue digit) 0

/-- The first character of an escaped text, and the text behind it. -/
def unescape : List Char → Option (Char × List Char)
  | [] => none
  | '\\' :: 'u' :: '\x7b' :: rest =>
    some (Char.ofNat (hexValue (rest.takeWhile (· != '\x7d'))), (rest.dropWhile (· != '\x7d')).tail)
  | '\\' :: letter :: rest =>
    match letter with
    | '0' => some ('\x00', rest)
    | 't' => some ('\t', rest)
    | 'n' => some ('\n', rest)
    | 'r' => some ('\r', rest)
    | _ => some (letter, rest)
  | c :: rest => some (c, rest)

theorem decimal_injective : Function.Injective decimal := by
  intro left right same
  have read := congrArg (Nat.ofDigitChars 10 · 0) same
  simpa only [decimal, Nat.ofDigitChars_ten_toDigits] using read

theorem hexValue_hex (n : Nat) : hexValue (hex n) = n := by
  have digit : ∀ k < 16, hexDigitValue k.digitChar = k := by decide
  induction n using Nat.strongRecOn with
  | ind n ih =>
    rw [hex, Nat.toDigits_eq_if (by decide)]
    split
    next small => simp [hexValue, digit n small]
    next large =>
      have before : hexValue (hex (n / 16)) = n / 16 := ih _ (by omega)
      simp only [hexValue, hex] at before
      simp only [hexValue, List.foldl_append, before, List.foldl_cons, List.foldl_nil, digit (n % 16) (by omega)]
      omega

theorem hexByte_injective : Function.Injective hexByte := by
  have digit : ∀ m < 16, ∀ n < 16, m.digitChar.toUpper = n.digitChar.toUpper → m = n := by decide
  intro left right same
  simp only [hexByte, List.cons.injEq, and_true] at same
  have high := digit _ (by have := left.toNat_lt; omega) _ (by have := right.toNat_lt; omega) same.1
  have low := digit _ (by omega) _ (by omega) same.2
  rw [← UInt8.toNat_inj]
  omega

theorem exists_of_mem_toDigits {base n : Nat} (large : 1 < base) {c : Char} (member : c ∈ Nat.toDigits base n) :
    ∃ digit, c = Nat.digitChar digit := by
  induction n using Nat.strongRecOn with
  | ind n ih =>
    rw [Nat.toDigits_eq_if large] at member
    split at member
    · exact ⟨n, by simpa using member⟩
    · rcases List.mem_append.mp member with member | member
      · exact ih (n / base) (Nat.div_lt_self (by omega) large) member
      · exact ⟨n % base, by simpa using member⟩

variable {unprinted : Char → Bool}

theorem unescape_escape (c : Char) (rest : List Char) : unescape (escape unprinted c ++ rest) = some (c, rest) := by
  unfold escape
  split
  iterate 6 rfl
  next quote backslash _ _ _ _ =>
    split
    next =>
      have inside : ∀ digit ∈ hex c.toNat, (digit != '\x7d') = true := by
        intro digit member
        obtain ⟨k, rfl⟩ := exists_of_mem_toDigits (by decide) member
        simp
      simp [unescape, List.takeWhile_append_of_pos inside, List.dropWhile_append_of_pos inside, hexValue_hex]
    next =>
      rw [List.singleton_append, unescape]
      · exact fun _ same _ => backslash same
      · exact fun _ _ same _ => backslash same

private theorem escaped_append_inj {left right rest others : List Char}
    (same : left.flatMap (escape unprinted) ++ '\x22' :: rest = right.flatMap (escape unprinted) ++ '\x22' :: others) :
    left = right ∧ rest = others := by
  -- The closing quote is not the start of an escape: read back, it would be an escaped quote.
  have closing {c : Char} {shown behind : List Char} : '\x22' :: behind ≠ escape unprinted c ++ shown := by
    intro same
    have read := congrArg unescape same
    rw [unescape_escape] at read
    cases read
    cases same
  induction left generalizing right with
  | nil =>
    cases right with
    | nil => simpa using same
    | cons c right =>
      rw [List.flatMap_nil, List.nil_append, List.flatMap_cons, List.append_assoc] at same
      exact absurd same closing
  | cons c left ih =>
    rw [List.flatMap_cons, List.append_assoc] at same
    cases right with
    | nil => exact absurd same.symm closing
    | cons d right =>
      rw [List.flatMap_cons, List.append_assoc] at same
      have read := congrArg unescape same
      rw [unescape_escape, unescape_escape, Option.some.injEq, Prod.mk.injEq] at read
      obtain ⟨rfl, behind⟩ := read
      obtain ⟨rfl, rest⟩ := ih behind
      exact ⟨rfl, rest⟩

theorem quoteBy_append_inj {left right : String} {rest others : List Char}
    (same : (quoteBy unprinted left).toList ++ rest = (quoteBy unprinted right).toList ++ others) :
    left = right ∧ rest = others := by
  simp only [quoteBy, String.toList_ofList, List.cons_append, List.append_assoc, List.cons.injEq, true_and,
    List.nil_append] at same
  obtain ⟨texts, behind⟩ := escaped_append_inj same
  exact ⟨String.toList_inj.mp texts, behind⟩

/-- No line feed and no carriage return. -/
def OneLine (text : List Char) : Prop := ∀ c ∈ text, c ≠ '\n' ∧ c ≠ '\r'

namespace OneLine

theorem append_iff {first last : List Char} : OneLine (first ++ last) ↔ OneLine first ∧ OneLine last :=
  List.forall_mem_append

theorem toDigits {base : Nat} (large : 1 < base) (n : Nat) : OneLine (Nat.toDigits base n) := by
  intro c member
  obtain ⟨digit, rfl⟩ := exists_of_mem_toDigits large member
  exact ⟨Nat.digitChar_ne '\n' (by decide), Nat.digitChar_ne '\r' (by decide)⟩

theorem hexByte (byte : UInt8) : OneLine (hexByte byte) := by
  have digit : ∀ k < 16, k.digitChar.toUpper ≠ '\n' ∧ k.digitChar.toUpper ≠ '\r' := by decide
  simp only [OneLine, Text.hexByte, List.forall_mem_cons, List.not_mem_nil, false_imp_iff, implies_true, and_true]
  have := byte.toNat_lt
  exact ⟨digit _ (by omega), digit _ (by omega)⟩

theorem escape (c : Char) : OneLine (escape unprinted c) := by
  unfold Text.escape
  split
  iterate 6 simp [OneLine]
  next feed back =>
    split
    next =>
      have digits : OneLine (hex c.toNat) := toDigits (by decide) c.toNat
      have around : OneLine ['\\', 'u', '\x7b'] ∧ OneLine ['\x7d'] := by simp [OneLine]
      rw [append_iff, append_iff]
      exact ⟨⟨around.1, digits⟩, around.2⟩
    next => simpa [OneLine] using ⟨feed, back⟩

theorem quoteBy (text : String) : OneLine (quoteBy unprinted text).toList := by
  have inside : OneLine (text.toList.flatMap (Text.escape unprinted)) := by
    intro c member
    obtain ⟨d, _, member⟩ := List.mem_flatMap.mp member
    exact escape d c member
  have mark : OneLine ['\x22'] := by simp [OneLine]
  rw [Text.quoteBy, String.toList_ofList, ← List.singleton_append, append_iff, append_iff]
  exact ⟨⟨mark, inside⟩, mark⟩

end OneLine

theorem utf8_injective : Function.Injective utf8 := by
  intro left right same
  have encoded : left.toList.utf8Encode = right.toList.utf8Encode := congrArg List.toByteArray same
  rw [← String.toByteArray_ofList, ← String.toByteArray_ofList, String.toByteArray_inj] at encoded
  exact String.toList_inj.mp (String.ofList_inj.mp encoded)

theorem high_of_mem_utf8EncodeChar {c : Char} (large : ¬ c.val.toNat ≤ 127) :
    ∀ byte ∈ String.utf8EncodeChar c, 0x80 ≤ byte := by
  simp only [String.utf8EncodeChar, if_neg large]
  split
  · simp [UInt8.le_iff_toNat_le]
    omega
  split
  · simp [UInt8.le_iff_toNat_le]
    omega
  · simp [UInt8.le_iff_toNat_le]
    omega

theorem lineFeed_not_mem_utf8 {text : String} (line : OneLine text.toList) : Byte.lineFeed ∉ utf8 text := by
  intro member
  obtain ⟨c, inside, member⟩ := List.mem_flatMap.mp member
  by_cases small : c.val.toNat ≤ 127
  · simp only [String.utf8EncodeChar, if_pos small, List.mem_singleton] at member
    have same := congrArg UInt8.toNat member
    rw [UInt8.toNat_ofNat', Nat.mod_eq_of_lt (by omega)] at same
    exact (line c inside).1 (Char.toNat_inj.mp same.symm)
  · exact absurd (high_of_mem_utf8EncodeChar small _ member) (by decide)

theorem utf8_line (text : String) : utf8 (text ++ "\n") = utf8 text ++ [Byte.lineFeed] := by
  have feed : utf8 "\n" = [Byte.lineFeed] := by decide
  rw [utf8_append, feed]

theorem line_append_inj {left right : String} {rest others : List UInt8} (first : OneLine left.toList)
    (second : OneLine right.toList) (same : utf8 (left ++ "\n") ++ rest = utf8 (right ++ "\n") ++ others) :
    left = right ∧ rest = others := by
  simp only [utf8_line, List.append_assoc, List.singleton_append] at same
  obtain ⟨shown, behind⟩ := cut_unique (lineFeed_not_mem_utf8 first) (lineFeed_not_mem_utf8 second) same
  exact ⟨utf8_injective shown, behind⟩

end Text

namespace Kind

theorem name_injective : Function.Injective name := by
  have apart : (all.map name).Nodup := by decide +kernel
  intro left right same
  exact List.inj_on_of_nodup_map apart (mem_all left) (mem_all right) same

theorem name_plain (kind : Kind) : ' ' ∉ kind.name.toList ∧ Text.OneLine kind.name.toList := by
  cases kind <;> simp [name, Text.OneLine]

end Kind

namespace Token

variable (unprinted : Char → Bool)

theorem toList_renderBy (token : Token) :
    (token.renderBy unprinted).toList = "\x7bkind: ".toList ++ (token.kind.name.toList ++ (", literal: ".toList ++
      ((Text.quoteBy unprinted token.literal).toList ++ "\x7d".toList))) := by
  simp only [renderBy, String.toList_append, List.append_assoc]

/-- A token is told by its rendering, whatever characters are shown by number. -/
theorem renderBy_injective : Function.Injective (renderBy unprinted) := by
  intro left right same
  have whole := congrArg String.toList same
  rw [toList_renderBy, toList_renderBy, List.append_cancel_left_eq] at whole
  -- No name holds a blank, so the one behind the comma ends it.
  have split (token : Token) (rest : List Char) : token.kind.name.toList ++ (", literal: ".toList ++ rest) =
      (token.kind.name.toList ++ [',']) ++ ' ' :: ("literal: ".toList ++ rest) := by
    simp
  have free (token : Token) : ' ' ∉ token.kind.name.toList ++ [','] := by
    simpa using token.kind.name_plain.1
  rw [split, split] at whole
  obtain ⟨names, behind⟩ := cut_unique (free left) (free right) whole
  obtain ⟨literals, _⟩ := Text.quoteBy_append_inj (List.append_cancel_left behind)
  have kinds := Kind.name_injective (String.toList_inj.mp (List.append_cancel_right names))
  exact congrArg₂ mk kinds literals

theorem render_injective : Function.Injective render := renderBy_injective Text.isUnprinted

theorem renderBy_oneLine (token : Token) : Text.OneLine (token.renderBy unprinted).toList := by
  have fixed : Text.OneLine "\x7bkind: ".toList ∧ Text.OneLine ", literal: ".toList ∧
      Text.OneLine "\x7d".toList := by
    simp [Text.OneLine]
  rw [toList_renderBy]
  simp only [Text.OneLine.append_iff, fixed, token.kind.name_plain.2, Text.OneLine.quoteBy, true_and]

end Token

theorem InvalidByte.toList_message (bad : InvalidByte) :
    bad.message.toList = "lexer: invalid ASCII byte 0x".toList ++ (Text.hexByte bad.byte ++
      (" at byte ".toList ++ Text.decimal bad.pos)) := by
  unfold message
  simp only [String.toList_append, String.toList_ofList, List.append_assoc]

/-- The byte in two digits, and its offset. -/
theorem InvalidByte.message_eq (bad : InvalidByte) :
    bad.message = "lexer: invalid ASCII byte 0x" ++
      String.ofList ((Nat.toDigits 16 (bad.byte.toNat / 16) ++ Nat.toDigits 16 (bad.byte.toNat % 16)).map Char.toUpper) ++
      " at byte " ++ toString bad.pos := by
  have high : bad.byte.toNat / 16 < 16 := by
    have := bad.byte.toNat_lt
    omega
  have low : bad.byte.toNat % 16 < 16 := Nat.mod_lt _ (by decide)
  unfold message Text.hexByte
  rw [Nat.toDigits_of_lt_base high, Nat.toDigits_of_lt_base low, Text.decimal, ← Nat.toString_eq_ofList_toDigits]
  rfl

theorem InvalidByte.message_injective : Function.Injective InvalidByte.message := by
  intro left right same
  have whole := congrArg String.toList same
  rw [toList_message, toList_message, List.append_cancel_left_eq] at whole
  have length (byte : UInt8) : (Text.hexByte byte).length = 2 := rfl
  obtain ⟨bytes, behind⟩ := List.append_inj whole ((length _).trans (length _).symm)
  have places := Text.decimal_injective (List.append_cancel_left behind)
  exact congrArg₂ mk (Text.hexByte_injective bytes) places

namespace Item

@[simp] theorem render_token (found : Token) : (token found).render = found.render := rfl

@[simp] theorem render_invalid (bad : InvalidByte) : (invalid bad).render = bad.message := rfl

theorem render_injective : Function.Injective render := by
  have apart (token : Token) (bad : InvalidByte) : token.render ≠ bad.message := by
    intro same
    have whole := congrArg String.toList same
    rw [Token.render, Token.toList_renderBy, InvalidByte.toList_message] at whole
    have first := congrArg List.head? whole
    simp at first
  intro left right same
  cases left with
  | token left =>
    rw [render_token] at same
    cases right with
    | token right => rw [Token.render_injective same]
    | invalid bad => exact absurd same (apart left bad)
  | invalid left =>
    rw [render_invalid] at same
    cases right with
    | token right => exact absurd same.symm (apart right left)
    | invalid right => rw [InvalidByte.message_injective same]

theorem render_oneLine (item : Item) : Text.OneLine item.render.toList := by
  cases item with
  | token token => exact token.renderBy_oneLine Text.isUnprinted
  | invalid bad =>
    have fixed : Text.OneLine "lexer: invalid ASCII byte 0x".toList ∧ Text.OneLine " at byte ".toList := by
      simp [Text.OneLine]
    have place : Text.OneLine (Text.decimal bad.pos) := Text.OneLine.toDigits (by decide) bad.pos
    rw [render, InvalidByte.toList_message]
    simp only [Text.OneLine.append_iff, fixed, Text.OneLine.hexByte, place, true_and]

end Item

end MonkeyTokens
