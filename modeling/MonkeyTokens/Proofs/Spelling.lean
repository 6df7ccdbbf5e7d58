import MonkeyTokens.Proofs.Joining

/-! The languages of tokens, given without a scan: the table of fixed texts, numbers, and words that the
table does not reserve. A text spells a token exactly when a lexer takes all of it as one lexeme, apart
from the bytes for which the language has no use; so no text spells two kinds. -/

namespace MonkeyTokens

/-- `[0-9]+`. -/
def IsNumber (text : String) : Prop :=
  text.toList ≠ [] ∧ ∀ c ∈ text.toList, c.isDigit = true

/-- `[A-Za-z_][A-Za-z0-9_]*`. -/
def IsWord (text : String) : Prop :=
  (∃ first ∈ text.toList.head?, first.isAlpha = true ∨ first = '_') ∧
    ∀ c ∈ text.toList, c.isAlphanum = true ∨ c = '_'

/-- The text is one of those that the kind stands for. -/
inductive Spells : Kind → String → Prop where
  | fixed {kind : Kind} {text : String} (table : kind.lexeme? = some text) : Spells kind text
  | number {text : String} (digits : IsNumber text) : Spells .int text
  | word {text : String} (shape : IsWord text)
      (free : ∀ kind : Kind, kind.isReserved = true → kind.lexeme? ≠ some text) : Spells .ident text

namespace Byte

theorem char_isDigit (byte : UInt8) : (Char.ofUInt8 byte).isDigit = isDigit byte := by
  rw [Bool.eq_iff_iff]
  simp only [Char.isDigit, isDigit, Text.val_ofUInt8, ge_iff_le, Bool.and_eq_true, decide_eq_true_eq,
    UInt32.le_iff_toNat_le, UInt8.le_iff_toNat_le]
  simp

theorem char_isWordStart (byte : UInt8) :
    (Char.ofUInt8 byte).isAlpha = true ∨ Char.ofUInt8 byte = '_' ↔ isWordStart byte = true := by
  delta Char.isAlpha Char.isUpper Char.isLower
  simp only [isWordStart, Text.val_ofUInt8, Char.ext_iff, ge_iff_le, Bool.and_eq_true, Bool.or_eq_true,
    decide_eq_true_eq, beq_iff_eq, UInt32.le_iff_toNat_le, UInt8.le_iff_toNat_le, ← UInt32.toNat_inj,
    ← UInt8.toNat_inj]
  simp

theorem char_isWordByte (byte : UInt8) :
    (Char.ofUInt8 byte).isAlphanum = true ∨ Char.ofUInt8 byte = '_' ↔ isWordByte byte = true := by
  rw [isWordByte, Bool.or_eq_true, ← char_isWordStart, ← char_isDigit, Char.isAlphanum, Bool.or_eq_true,
    or_right_comm]

end Byte

namespace Text

theorem mem_toList_ofBytes {bytes : List UInt8} {c : Char} :
    c ∈ (ofBytes bytes).toList ↔ ∃ byte ∈ bytes, Char.ofUInt8 byte = c := by
  simp [ofBytes]

theorem exists_bytes {text : String} (ascii : ∀ c ∈ text.toList, c.toNat < 0x80) :
    ∃ bytes : List UInt8, (∀ byte ∈ bytes, byte < 0x80) ∧ ofBytes bytes = text := by
  refine ⟨text.toList.map Char.toUInt8, ?_, ?_⟩
  · intro byte member
    obtain ⟨c, inside, rfl⟩ := List.mem_map.mp member
    have small : c.val.toNat < 0x80 := ascii c inside
    simp only [Char.toUInt8, UInt8.lt_iff_toNat_lt, UInt32.toNat_toUInt8, UInt8.reduceToNat]
    omega
  · have same : ∀ c ∈ text.toList, (Char.ofUInt8 ∘ Char.toUInt8) c = id c := by
      intro c inside
      have small : c.val.toNat < 0x80 := ascii c inside
      simp only [Function.comp_apply, id_eq, Char.toUInt8, val_ofUInt8, Char.ext_iff, ← UInt32.toNat_inj,
        UInt8.toNat_toUInt32, UInt32.toNat_toUInt8]
      omega
    rw [ofBytes, List.map_map, List.map_congr_left same, List.map_id, String.ofList_toList]

theorem ascii_of_ofBytes {bytes : List UInt8} (ascii : ∀ c ∈ (ofBytes bytes).toList, c.toNat < 0x80) :
    ∀ byte ∈ bytes, byte < 0x80 := by
  intro byte member
  have small : byte.toUInt32.toNat < 0x80 := ascii _ (mem_toList_ofBytes.mpr ⟨byte, member, rfl⟩)
  simpa [UInt8.lt_iff_toNat_lt] using small

theorem ofBytes_injective : Function.Injective ofBytes := by
  have single : ∀ left right, Char.ofUInt8 left = Char.ofUInt8 right → left = right := by
    intro left right same
    simpa [Char.ext_iff, ← UInt32.toNat_inj, ← UInt8.toNat_inj] using same
  intro left right same
  exact (List.map_inj_right single).mp (String.ofList_injective same)

end Text

theorem isNumber_ofBytes {bytes : List UInt8} :
    IsNumber (Text.ofBytes bytes) ↔ bytes ≠ [] ∧ ∀ byte ∈ bytes, Byte.isDigit byte = true := by
  simp [IsNumber, Text.ofBytes, Byte.char_isDigit]

theorem isWord_ofBytes {first : UInt8} {tail : List UInt8} :
    IsWord (Text.ofBytes (first :: tail)) ↔
      Byte.isWordStart first = true ∧ ∀ byte ∈ tail, Byte.isWordByte byte = true := by
  simp only [IsWord, Text.ofBytes, String.toList_ofList, List.map_cons, List.head?_cons, Option.mem_some_iff,
    exists_eq_left', Byte.char_isWordStart, List.forall_mem_cons, Byte.char_isWordByte, List.forall_mem_map]
  constructor
  · rintro ⟨start, _, run⟩
    exact ⟨start, run⟩
  · rintro ⟨start, run⟩
    exact ⟨start, by simp [Byte.isWordByte, start], run⟩

namespace Kind

theorem lexeme?_ofWord {word : String} (reserved : (ofWord word).isReserved = true) :
    (ofWord word).lexeme? = some word := by
  unfold ofWord at reserved ⊢
  repeat' split
  all_goals simp_all [isReserved, lexeme?]

theorem ofWord_of_lexeme {kind : Kind} {word : String} (reserved : kind.isReserved = true)
    (table : kind.lexeme? = some word) : ofWord word = kind := by
  cases kind <;> cases table <;> first | rfl | cases reserved

theorem ofWord_eq_ident {word : String} :
    ofWord word = ident ↔ ∀ kind : Kind, kind.isReserved = true → kind.lexeme? ≠ some word := by
  constructor
  · intro free kind reserved table
    rw [ofWord_of_lexeme reserved table] at free
    subst free
    cases reserved
  · intro free
    rcases ofWord_free_or_reserved word with found | reserved
    · exact found
    · exact absurd (lexeme?_ofWord reserved) (free _ reserved)

end Kind

namespace Spells

private theorem small_of_isAlphanum {c : Char} (shape : c.isAlphanum = true ∨ c = '_') :
    c.toNat < 0x80 := by
  rcases shape with shape | rfl
  · delta Char.isAlphanum Char.isAlpha Char.isUpper Char.isLower at shape
    simp only [Char.isDigit, Bool.or_eq_true,
      Bool.and_eq_true, decide_eq_true_eq, ge_iff_le, UInt32.le_iff_toNat_le] at shape
    simp only [UInt32.reduceToNat, Char.reduceVal] at shape
    change c.val.toNat < 0x80
    omega
  · decide

theorem ascii {kind : Kind} {text : String} (spells : Spells kind text) :
    ∀ c ∈ text.toList, c.toNat < 0x80 := by
  cases spells with
  | fixed table => cases kind <;> cases table <;> simp [Kind.name]
  | number digits =>
    intro c inside
    have digit : c.isAlphanum = true := by simp [Char.isAlphanum, digits.2 c inside]
    exact small_of_isAlphanum (.inl digit)
  | word shape _ =>
    intro c inside
    exact small_of_isAlphanum (shape.2 c inside)

theorem leads {kind : Kind} {text : String} (spells : Spells kind text) :
    Lexeme.Leads ⟨kind, Text.utf8 text⟩ [] := by
  obtain ⟨bytes, ascii, rfl⟩ := Text.exists_bytes spells.ascii
  cases spells with
  | fixed table =>
    generalize Text.ofBytes bytes = text at table
    cases kind <;> cases table <;> rfl
  | number digits =>
    obtain ⟨filled, digits⟩ := isNumber_ofBytes.mp digits
    rw [Text.utf8_ofBytes ascii]
    cases bytes with
    | nil => exact absurd rfl filled
    | cons first tail =>
      rw [List.forall_mem_cons] at digits
      obtain ⟨small, dark⟩ := Byte.usable_of_isDigit digits.1
      rw [Lexeme.Leads, List.append_nil, Lexeme.next?_of_usable tail small dark, Lexeme.leading, if_pos digits.1,
        List.takeWhile_eq_self_iff.mpr digits.2]
  | word shape free =>
    rw [Text.utf8_ofBytes ascii]
    cases bytes with
    | nil => simp [IsWord, Text.ofBytes] at shape
    | cons first tail =>
      obtain ⟨start, run⟩ := isWord_ofBytes.mp shape
      obtain ⟨small, dark, letter⟩ := Byte.usable_of_isWordStart start
      have word := Kind.ofWord_eq_ident.mpr free
      rw [Lexeme.Leads, List.append_nil, Lexeme.next?_of_usable tail small dark]
      simp only [Lexeme.leading, letter, Bool.false_eq_true, if_false, start, if_true,
        List.takeWhile_eq_self_iff.mpr run, word]

end Spells

namespace Lexeme

private theorem symbol_spells (first : UInt8) :
    symbol first = .illegal ∨ Spells (symbol first) (Text.ofBytes [first]) := by
  unfold symbol
  split
  all_goals first
    | exact .inl rfl
    | next same => exact .inr (.fixed (by simp [Text.ofBytes, same]; rfl))

private theorem extended_spells {first : UInt8} {kind : Kind} (found : extended (symbol first) = some kind) :
    Spells kind (Text.ofBytes [first, Byte.equalsSign]) := by
  unfold symbol at found
  split at found
  all_goals cases found
  all_goals next same => exact .fixed (by simp [Text.ofBytes, same, Byte.equalsSign]; rfl)

/-- A lexeme that a lexer takes is a spelling of its kind, or a single byte of no use. -/
theorem Leads.spells {lexeme : Lexeme} {rest : List UInt8} (leads : lexeme.Leads rest) :
    (∃ byte, lexeme = ⟨.illegal, [byte]⟩) ∨ Spells lexeme.kind lexeme.token.literal := by
  obtain ⟨first, tail, whole, small, dark, taken⟩ := next?_cases (leads_iff.mp leads).1
  obtain ⟨kind, bytes⟩ := lexeme
  obtain rfl : bytes = first :: tail := by simpa using whole
  unfold leading at taken
  split at taken
  next digit =>
    simp only [mk.injEq, List.cons.injEq, true_and, List.takeWhile_eq_self_iff] at taken
    obtain ⟨rfl, run⟩ := taken
    exact .inr (.number (isNumber_ofBytes.mpr ⟨by simp, List.forall_mem_cons.mpr ⟨digit, run⟩⟩))
  split at taken
  next start =>
    simp only [mk.injEq, List.cons.injEq, true_and] at taken
    obtain ⟨rfl, run⟩ := taken
    rw [run]
    refine .inr ?_
    rcases Kind.ofWord_free_or_reserved (Text.ofBytes (first :: tail)) with free | reserved
    · rw [free]
      have shape := isWord_ofBytes.mpr ⟨start, List.takeWhile_eq_self_iff.mp run⟩
      exact .word shape (Kind.ofWord_eq_ident.mp free)
    · exact .fixed (Kind.lexeme?_ofWord reserved)
  next =>
    cases tail with
    | nil =>
      rw [ofSymbol_nil, mk.injEq] at taken
      obtain ⟨rfl, _⟩ := taken
      rcases symbol_spells first with idle | spells
      · exact .inl ⟨first, by rw [idle]⟩
      · exact .inr spells
    | cons second tail =>
      rw [ofSymbol_cons] at taken
      cases longer : extended (symbol first) with
      | none => simp [longer] at taken
      | some found =>
        simp only [longer] at taken
        split at taken
        next equals =>
          cases taken
          rw [equals]
          exact .inr (extended_spells longer)
        next => cases taken

theorem Leads.ascii {lexeme : Lexeme} {rest : List UInt8} (leads : lexeme.Leads rest) :
    ∀ byte ∈ lexeme.bytes, byte < 0x80 := by
  rcases leads.spells with ⟨byte, rfl⟩ | spells
  · obtain ⟨_, _, whole, small, _⟩ := next?_cases leads
    cases whole
    simpa [Byte.isAscii] using small
  · exact Text.ascii_of_ofBytes spells.ascii

theorem Leads.utf8_literal {lexeme : Lexeme} {rest : List UInt8} (leads : lexeme.Leads rest) :
    Text.utf8 lexeme.token.literal = lexeme.bytes :=
  Text.utf8_ofBytes leads.ascii

theorem Leads.kind_unique {first last : Kind} {bytes : List UInt8} (left : Leads ⟨first, bytes⟩ [])
    (right : Leads ⟨last, bytes⟩ []) : first = last :=
  congrArg Lexeme.kind (Option.some.inj (left.symm.trans right))

/-- Nothing that a lexer takes by itself starts the same bytes and is longer. -/
theorem Leads.longest {lexeme other : Lexeme} {rest : List UInt8} (leads : lexeme.Leads rest)
    (alone : other.Leads []) (starts : other.bytes <+: lexeme.bytes ++ rest) :
    other.bytes.length ≤ lexeme.bytes.length := by
  apply Nat.le_of_not_lt
  intro longer
  obtain ⟨extra, whole⟩ := List.prefix_of_prefix_length_le (List.prefix_append _ rest) starts (Nat.le_of_lt longer)
  have follows : extra <+: rest := by
    rw [← whole] at starts
    exact (List.prefix_append_right_inj _).mp starts
  -- The lexeme would be taken before `extra` too, although there the longer one is taken.
  have taken : lexeme.Leads extra := by
    obtain ⟨alone, stops⟩ := leads_iff.mp leads
    refine leads_iff.mpr ⟨alone, ?_⟩
    intro next member
    apply stops next
    rw [Option.mem_def, ← List.singleton_prefix_iff_head?_eq_some] at member ⊢
    exact member.trans follows
  rw [Leads, whole] at taken
  rw [Leads, List.append_nil, taken] at alone
  cases alone
  omega

end Lexeme

theorem Spells.nonempty {kind : Kind} {text : String} (spells : Spells kind text) : Text.utf8 text ≠ [] :=
  spells.leads.nonempty

theorem not_spells_illegal (text : String) : ¬ Spells .illegal text := by
  rintro ⟨table⟩
  cases table

theorem Spells.ofBytes_utf8 {kind : Kind} {text : String} (spells : Spells kind text) :
    Text.ofBytes (Text.utf8 text) = text := by
  obtain ⟨bytes, ascii, rfl⟩ := Text.exists_bytes spells.ascii
  rw [Text.utf8_ofBytes ascii]

end MonkeyTokens
