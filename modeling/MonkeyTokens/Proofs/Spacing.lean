import MonkeyTokens.Proofs.Concatenation
import Mathlib.Data.List.Chain

/-! Tokens written down and scanned again. White space may stand before and behind any token, and must
stand between two tokens only where the first runs on into the second. -/

namespace MonkeyTokens

/-- A token that can be written down: a spelling, or an ASCII byte that separates nothing and starts
no spelling. -/
inductive WellFormed : Token → Prop where
  | spelling {kind : Kind} {text : String} (spells : Spells kind text) : WellFormed ⟨kind, text⟩
  | stray {byte : UInt8} (ascii : byte < 0x80) (dark : byte ∉ whitespace)
      (idle : ∀ kind text, Spells kind text → (Text.utf8 text).head? ≠ some byte) :
      WellFormed ⟨.illegal, Text.ofBytes [byte]⟩

/-- A token with the white space that is written behind it. -/
structure Piece where
  token : Token
  gap : List UInt8
  wellFormed : WellFormed token
  blank : Blank gap

def Piece.bytes (piece : Piece) : List UInt8 := Text.utf8 piece.token.literal ++ piece.gap

def Glues (left right : Token) : Prop :=
  ∃ next ∈ (Text.utf8 right.literal).head?, left.kind.Joins next

namespace WellFormed

variable {token : Token}

theorem lexeme_token (wellFormed : WellFormed token) :
    Lexeme.token ⟨token.kind, Text.utf8 token.literal⟩ = token := by
  cases wellFormed with
  | spelling spells => rw [Lexeme.token, spells.ofBytes_utf8]
  | stray ascii _ _ => rw [Lexeme.token, Text.utf8_ofBytes (by simpa using ascii)]

theorem leads (wellFormed : WellFormed token) : Lexeme.Leads ⟨token.kind, Text.utf8 token.literal⟩ [] := by
  cases wellFormed with
  | spelling spells => exact spells.leads
  | @stray byte ascii dark idle =>
    rw [Text.utf8_ofBytes (by simpa using ascii)]
    have small : Byte.isAscii byte = true := by simpa [Byte.isAscii] using ascii
    have usable := Lexeme.next?_of_usable [] small (by simpa [Byte.mem_whitespace] using dark)
    generalize Lexeme.leading byte [] = lexeme at usable
    obtain ⟨rest, whole, leads⟩ := Lexeme.leads_of_next? usable
    rcases leads.spells with ⟨single, rfl⟩ | spells
    · cases whole
      exact leads
    · have other := idle _ _ spells
      rw [leads.utf8_literal] at other
      cases bytes : lexeme.bytes with
      | nil => exact absurd bytes leads.nonempty
      | cons first tail => simp_all

theorem scan_eq_cons_iff {gap rest : List UInt8} {items : List Item} (wellFormed : WellFormed token)
    (blank : Blank gap) :
    scan (gap ++ (Text.utf8 token.literal ++ rest)) = .token token :: items ↔
      (∀ next ∈ rest.head?, ¬ token.kind.Joins next) ∧
        items = (scan rest).map (.shift (gap.length + (Text.utf8 token.literal).length)) := by
  have leads := wellFormed.leads
  have taken : Lexeme.Leads ⟨token.kind, Text.utf8 token.literal⟩ rest ↔
      ∀ next ∈ rest.head?, ¬ token.kind.Joins next := by
    rw [Lexeme.leads_iff, and_iff_right leads]
  rw [← taken, ← Lexeme.scan_eq_cons_iff blank leads, wellFormed.lexeme_token]

end WellFormed

private theorem stops_iff {kind : Kind} {gap : List UInt8} {pieces : List Piece} (blank : Blank gap) :
    (∀ next ∈ (gap ++ pieces.flatMap Piece.bytes).head?, ¬ kind.Joins next) ↔
      ∀ piece ∈ pieces.head?, gap = [] → ¬ ∃ next ∈ (Text.utf8 piece.token.literal).head?, kind.Joins next := by
  cases gap with
  | cons byte gap =>
    have dark : ¬ kind.Joins byte := by
      intro joins
      have blank := Byte.mem_whitespace.mp (blank byte (by simp))
      rw [joins.usable.2] at blank
      cases blank
    simpa using dark
  | nil =>
    cases pieces with
    | nil => simp
    | cons piece pieces =>
      have filled : Text.utf8 piece.token.literal ≠ [] := piece.wellFormed.leads.nonempty
      obtain ⟨first, tail, bytes⟩ := List.exists_cons_of_ne_nil filled
      simp [Piece.bytes, bytes]

private theorem map_token_eq_shift {tokens : List Token} {items : List Item} {distance : Nat} :
    tokens.map Item.token = items.map (.shift distance) ↔ items = tokens.map Item.token := by
  have still : (tokens.map Item.token).map (Item.shift distance) = tokens.map Item.token := by
    simp [Function.comp_def]
  calc tokens.map Item.token = items.map (.shift distance)
    _ ↔ (tokens.map Item.token).map (Item.shift distance) = items.map (.shift distance) := by rw [still]
    _ ↔ tokens.map Item.token = items := Item.map_shift_inj
    _ ↔ items = tokens.map Item.token := eq_comm

private theorem scan_margin_eq_iff {gap source : List UInt8} {tokens : List Token} (blank : Blank gap) :
    scan (gap ++ source) = tokens.map Item.token ↔ scan source = tokens.map Item.token := by
  rw [scan_margin blank, eq_comm, map_token_eq_shift]

/-- Written tokens are read back exactly where every empty gap between two of them stands at a pair that
does not glue. -/
theorem scan_spaced_iff {margin : List UInt8} (blank : Blank margin) (pieces : List Piece) :
    scan (margin ++ pieces.flatMap Piece.bytes) = (pieces.map Piece.token ++ [Token.eof]).map Item.token ↔
      pieces.IsChain fun left right => left.gap = [] → ¬ Glues left.token right.token := by
  rw [scan_margin_eq_iff blank]
  induction pieces with
  | nil => simp [scan_of_blank .nil]
  | cons piece pieces ih =>
    have whole : (piece :: pieces).flatMap Piece.bytes =
        [] ++ (Text.utf8 piece.token.literal ++ (piece.gap ++ pieces.flatMap Piece.bytes)) := by
      simp [Piece.bytes]
    rw [whole, List.map_cons, List.cons_append, List.map_cons, piece.wellFormed.scan_eq_cons_iff .nil,
      stops_iff piece.blank, map_token_eq_shift, scan_margin_eq_iff piece.blank, ih, List.isChain_cons]
    rfl

/-- With nothing between them, a number and a word are read back in this order and not in the other. -/
theorem scan_spaced_number_word :
    Blank [0x20] ∧ ∃ number word : Piece,
      number.token = ⟨.int, "12"⟩ ∧ number.gap = [] ∧ word.token = ⟨.ident, "b"⟩ ∧ word.gap = [] ∧
      scan ([0x20] ++ [number, word].flatMap Piece.bytes) =
        ([number, word].map Piece.token ++ [Token.eof]).map Item.token ∧
      scan ([0x20] ++ [word, number].flatMap Piece.bytes) ≠
        ([word, number].map Piece.token ++ [Token.eof]).map Item.token := by
  have blank : Blank [0x20] := by simp [Blank, whitespace]
  have digits : IsNumber "12" := by simp [IsNumber]
  have shape : IsWord "b" := by simp [IsWord]
  have free := Kind.ofWord_eq_ident.mp (show Kind.ofWord "b" = .ident by decide)
  have apart : ¬ Glues ⟨.int, "12"⟩ ⟨.ident, "b"⟩ := by
    rintro ⟨next, first, joins⟩
    cases first
    revert joins
    decide
  have glued : Glues ⟨.ident, "b"⟩ ⟨.int, "12"⟩ := ⟨0x31, by decide, by decide⟩
  refine ⟨blank, ⟨_, [], .spelling (.number digits), .nil⟩, ⟨_, [], .spelling (.word shape free), .nil⟩,
    rfl, rfl, rfl, rfl, ?_, ?_⟩
  · rw [scan_spaced_iff blank, List.isChain_pair]
    intro _
    exact apart
  · rw [ne_eq, scan_spaced_iff blank, List.isChain_pair]
    intro separate
    exact separate rfl glued

end MonkeyTokens
