import MonkeyTokens.Proofs.Coverage
import MonkeyTokens.Proofs.Spacing

/-! Which tokens a scan can yield. The tables of texts, the classes of words and the dispatch on bytes are
written apart from each other, and they list the same tokens. A token that the tables list is yielded by its
own literal, and no source yields any other, so a literal has one kind. -/

namespace MonkeyTokens

/-- A byte for which the language has no use: it separates nothing, stands in no word or number and starts
no operator or delimiter. -/
structure Stray (byte : UInt8) : Prop where
  ascii : byte < 0x80
  dark : byte ∉ whitespace
  outside : ¬ ((Char.ofUInt8 byte).isAlphanum = true ∨ Char.ofUInt8 byte = '_')
  idle : ∀ (kind : Kind) (text : String), kind.isReserved = false → kind.lexeme? = some text →
    (Text.utf8 text).head? ≠ some byte

/-- The tables list the text under the kind. -/
inductive Tabled : Kind → String → Prop where
  | fixed {kind : Kind} {text : String} (table : kind.lexeme? = some text) : Tabled kind text
  | word {text : String} (shape : IsWord text) (free : Kind.ofWord text = .ident) : Tabled .ident text
  | number {text : String} (digits : IsNumber text) : Tabled .int text
  | eof : Tabled .eof ""
  | stray {byte : UInt8} (stray : Stray byte) : Tabled .illegal (Text.ofBytes [byte])

/-- The token and the end token behind it; the end token stands by itself. -/
def Token.alone (token : Token) : List Item :=
  if token.kind = .eof then [.token token] else [.token token, .token .eof]

theorem Kind.exists_spells_word {byte : UInt8} (word : Byte.isWordByte byte = true) :
    ∃ kind, Spells kind (Text.ofBytes [byte]) := by
  rw [Byte.isWordByte, Bool.or_eq_true] at word
  rcases word with start | digit
  · have shape : IsWord (Text.ofBytes [byte]) := isWord_ofBytes.mpr ⟨start, by simp⟩
    rcases ofWord_free_or_reserved (Text.ofBytes [byte]) with free | reserved
    · exact ⟨_, .word shape (ofWord_eq_ident.mp free)⟩
    · exact ⟨_, .fixed (lexeme?_ofWord reserved)⟩
  · exact ⟨_, .number (isNumber_ofBytes.mpr ⟨by simp, by simpa using digit⟩)⟩

/-- A spelling starts with a word byte, or it is an operator or a delimiter. -/
theorem exists_spells_head_iff {byte : UInt8} :
    (∃ kind text, Spells kind text ∧ (Text.utf8 text).head? = some byte) ↔
      Byte.isWordByte byte = true ∨ ∃ (kind : Kind) (text : String),
        kind.isReserved = false ∧ kind.lexeme? = some text ∧ (Text.utf8 text).head? = some byte := by
  constructor
  · rintro ⟨kind, text, spells, head⟩
    obtain ⟨bytes, ascii, rfl⟩ := Text.exists_bytes spells.ascii
    cases spells with
    | fixed table =>
      cases reserved : kind.isReserved with
      | false => exact .inr ⟨kind, _, reserved, table, head⟩
      | true =>
        generalize Text.ofBytes bytes = text at table head
        cases kind <;> cases reserved <;> cases table <;> cases head <;> exact .inl (by decide)
    | number digits =>
      rw [Text.utf8_ofBytes ascii] at head
      have digit := (isNumber_ofBytes.mp digits).2 byte (List.mem_of_mem_head? head)
      exact .inl (by simp [Byte.isWordByte, digit])
    | word shape free =>
      rw [Text.utf8_ofBytes ascii] at head
      cases bytes with
      | nil => cases head
      | cons first tail =>
        cases head
        exact .inl (by simp [Byte.isWordByte, (isWord_ofBytes.mp shape).1])
  · rintro (word | ⟨kind, text, _, table, head⟩)
    · obtain ⟨kind, spells⟩ := Kind.exists_spells_word word
      have small : byte < 0x80 := by simpa [Byte.isAscii] using (Byte.usable_of_isWordByte word).1
      refine ⟨kind, _, spells, ?_⟩
      rw [Text.utf8_ofBytes (by simpa using small)]
      rfl
    · exact ⟨kind, text, .fixed table, head⟩

theorem Stray.not_spells {byte : UInt8} (stray : Stray byte) (kind : Kind) (text : String)
    (spells : Spells kind text) : (Text.utf8 text).head? ≠ some byte := by
  intro head
  rcases exists_spells_head_iff.mp ⟨kind, text, spells, head⟩ with word | ⟨other, fixed, proper, table, first⟩
  · exact stray.outside (Byte.char_isWordByte byte |>.mpr word)
  · exact stray.idle other fixed proper table first

theorem stray_of_not_spells {byte : UInt8} (ascii : byte < 0x80) (dark : byte ∉ whitespace)
    (idle : ∀ kind text, Spells kind text → (Text.utf8 text).head? ≠ some byte) : Stray byte := by
  have none : ¬ ∃ kind text, Spells kind text ∧ (Text.utf8 text).head? = some byte := by
    rintro ⟨kind, text, spells, head⟩
    exact idle kind text spells head
  rw [exists_spells_head_iff, not_or] at none
  refine ⟨ascii, dark, ?_, ?_⟩
  · rw [Byte.char_isWordByte]
    exact none.1
  · intro kind text proper table head
    exact none.2 ⟨kind, text, proper, table, head⟩

/-- The tables list the tokens that can be written down, and the end token. -/
theorem tabled_iff {kind : Kind} {text : String} :
    Tabled kind text ↔ WellFormed ⟨kind, text⟩ ∨ Token.mk kind text = .eof := by
  constructor
  · intro tabled
    cases tabled with
    | fixed table => exact .inl (.spelling (.fixed table))
    | word shape free => exact .inl (.spelling (.word shape (Kind.ofWord_eq_ident.mp free)))
    | number digits => exact .inl (.spelling (.number digits))
    | eof => exact .inr rfl
    | stray stray => exact .inl (.stray stray.ascii stray.dark stray.not_spells)
  · rintro (wellFormed | same)
    · cases wellFormed with
      | spelling spells =>
        cases spells with
        | fixed table => exact .fixed table
        | number digits => exact .number digits
        | word shape free => exact .word shape (Kind.ofWord_eq_ident.mpr free)
      | stray ascii dark idle => exact .stray (stray_of_not_spells ascii dark idle)
    · cases same
      exact .eof

/-- A byte of no use starts nothing longer that would be of use. -/
theorem Lexeme.Leads.not_spells {byte : UInt8} {rest : List UInt8} (leads : Leads ⟨.illegal, [byte]⟩ rest)
    (kind : Kind) (text : String) (spells : Spells kind text) : (Text.utf8 text).head? ≠ some byte := by
  intro head
  obtain ⟨tail, bytes⟩ := List.head?_eq_some_iff.mp head
  have single : Leads ⟨.illegal, [byte]⟩ tail :=
    leads_iff.mpr ⟨(leads_iff.mp leads).1, by simp [Kind.Joins, Kind.isReserved]⟩
  have whole := spells.leads
  rw [Leads, List.append_nil, bytes] at whole
  have same := Option.some.inj (single.symm.trans whole)
  obtain rfl : Kind.illegal = kind := congrArg Lexeme.kind same
  exact not_spells_illegal text spells

theorem WellFormed.of_leads {lexeme : Lexeme} {rest : List UInt8} (leads : lexeme.Leads rest) :
    WellFormed lexeme.token := by
  rcases leads.spells with ⟨byte, rfl⟩ | spells
  · exact .stray (leads.ascii byte (by simp)) (leads.dark byte (by simp)) leads.not_spells
  · exact .spelling spells

theorem tabled_of_mem_scan {source : List UInt8} {token : Token} (member : .token token ∈ scan source) :
    Tabled token.kind token.literal := by
  rw [tabled_iff]
  induction source using source_induction with
  | blank gap blank =>
    rw [scan_of_blank blank, List.mem_singleton] at member
    cases member
    exact .inr rfl
  | invalid gap byte rest blank high =>
    rw [scan_of_invalid blank high, List.mem_singleton] at member
    cases member
  | lexeme gap lexeme rest blank leads ih =>
    rw [scan_of_lexeme blank leads, List.mem_cons] at member
    rcases member with same | member
    · cases same
      exact .inl (.of_leads leads)
    · obtain ⟨item, inside, same⟩ := List.mem_map.mp member
      cases item with
      | invalid bad => cases same
      | token found =>
        cases same
        exact ih inside

theorem scan_of_tabled {kind : Kind} {text : String} (tabled : Tabled kind text) :
    scan (Text.utf8 text) = Token.alone ⟨kind, text⟩ := by
  rcases tabled_iff.mp tabled with wellFormed | same
  · have read : scan ([] ++ (Text.utf8 text ++ [])) = .token ⟨kind, text⟩ :: (scan []).map (.shift _) :=
      (wellFormed.scan_eq_cons_iff .nil).mpr ⟨by simp, rfl⟩
    rw [List.nil_append, List.append_nil, scan_of_blank .nil] at read
    rw [read, Token.alone, if_neg wellFormed.leads.kind_ne_eof]
    rfl
  · cases same
    exact scan_of_blank .nil

theorem Token.mem_alone (token : Token) : .token token ∈ token.alone := by
  unfold alone
  split <;> simp

theorem Token.head?_alone (token : Token) : token.alone.head? = some (.token token) := by
  unfold alone
  split <;> rfl

/-- A source yields a token exactly where the tables list it, and its literal alone yields it then. -/
theorem scan_image (kind : Kind) (text : String) :
    ((∃ source, .token ⟨kind, text⟩ ∈ scan source) ↔ Tabled kind text) ∧
      (scan (Text.utf8 text) = Token.alone ⟨kind, text⟩ ↔ Tabled kind text) ∧
      ∀ other first second, .token ⟨kind, text⟩ ∈ scan first → .token ⟨other, text⟩ ∈ scan second →
        kind = other := by
  have yielded : (∃ source, .token ⟨kind, text⟩ ∈ scan source) → Tabled kind text := by
    rintro ⟨source, member⟩
    exact tabled_of_mem_scan member
  refine ⟨⟨yielded, ?_⟩, ⟨?_, scan_of_tabled⟩, ?_⟩
  · intro tabled
    refine ⟨Text.utf8 text, ?_⟩
    rw [scan_of_tabled tabled]
    exact Token.mem_alone _
  · intro alone
    refine yielded ⟨Text.utf8 text, ?_⟩
    rw [alone]
    exact Token.mem_alone _
  · intro other first second left right
    have shown : scan (Text.utf8 text) = Token.alone ⟨kind, text⟩ := scan_of_tabled (tabled_of_mem_scan left)
    have again : scan (Text.utf8 text) = Token.alone ⟨other, text⟩ := scan_of_tabled (tabled_of_mem_scan right)
    -- Both tokens are the first item of the same scan.
    have heads := congrArg List.head? (shown.symm.trans again)
    rw [Token.head?_alone, Token.head?_alone] at heads
    cases heads
    rfl

/-- The sign `!` is a token of its own kind and of no other, `@` is one that no table names, and `fn` is no
name. -/
theorem scan_image_signs :
    (.token ⟨.bang, "!"⟩ ∈ scan (Text.utf8 "!a") ∧ Tabled .bang "!") ∧
      (scan (Text.utf8 "@") = [.token ⟨.illegal, "@"⟩, .token .eof] ∧ Tabled .illegal "@") ∧
      ¬ Tabled .ident "fn" ∧ ∀ other, .token ⟨other, "!"⟩ ∈ scan (Text.utf8 "!!=") → .bang = other := by
  have sign : .token ⟨.bang, "!"⟩ ∈ scan (Text.utf8 "!a") := by decide +kernel
  have stray : scan (Text.utf8 "@") = [.token ⟨.illegal, "@"⟩, .token .eof] := by decide +kernel
  have word : scan (Text.utf8 "fn") ≠ Token.alone ⟨.ident, "fn"⟩ := by decide +kernel
  obtain ⟨yields, _, unique⟩ := scan_image .bang "!"
  refine ⟨⟨sign, yields.mp ⟨_, sign⟩⟩, ⟨stray, (scan_image .illegal "@").2.1.mp stray⟩, ?_, ?_⟩
  · intro tabled
    exact word ((scan_image .ident "fn").2.1.mpr tabled)
  · intro other member
    exact unique other _ _ sign member

end MonkeyTokens
