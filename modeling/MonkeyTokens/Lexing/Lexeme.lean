import MonkeyTokens.Source.Byte
import MonkeyTokens.Text.Bytes
import MonkeyTokens.Token.Basic

/-! Lexemes: the bytes of one token, with its kind. The first byte decides the class of the lexeme, and
the lexeme reaches as far as its class allows: digits run on, words run on, and `=` joins a preceding
`=` or `!`. -/

namespace MonkeyTokens

structure Lexeme where
  kind : Kind
  bytes : List UInt8
  deriving DecidableEq

namespace Lexeme

/-- The kind of a byte that stands for itself. -/
def symbol (byte : UInt8) : Kind :=
  match Char.ofUInt8 byte with
  | '(' => .lParen
  | ')' => .rParen
  | '\x7b' => .lBrace
  | '\x7d' => .rBrace
  | ',' => .comma
  | ';' => .semicolon
  | '+' => .plus
  | '-' => .minus
  | '*' => .asterisk
  | '/' => .slash
  | '<' => .less
  | '>' => .greater
  | '=' => .assign
  | '!' => .bang
  | _ => .illegal

/-- What a symbol becomes when an equals sign follows it. -/
def extended : Kind → Option Kind
  | .assign => some .equal
  | .bang => some .notEqual
  | _ => none

/-- A byte that starts neither a number nor a word, taken together with an equals sign if the two make
an operator. -/
def ofSymbol (first : UInt8) (rest : List UInt8) : Lexeme :=
  match extended (symbol first), rest with
  | some kind, second :: _ =>
    if second = Byte.equalsSign then ⟨kind, [first, second]⟩ else ⟨symbol first, [first]⟩
  | _, _ => ⟨symbol first, [first]⟩

/-- The lexeme that starts with an ASCII byte other than a blank, before the bytes of `rest`. -/
def leading (first : UInt8) (rest : List UInt8) : Lexeme :=
  if Byte.isDigit first then ⟨.int, first :: rest.takeWhile Byte.isDigit⟩
  else if Byte.isWordStart first then
    let word := first :: rest.takeWhile Byte.isWordByte
    ⟨Kind.ofWord (Text.ofBytes word), word⟩
  else ofSymbol first rest

def token (lexeme : Lexeme) : Token := ⟨lexeme.kind, Text.ofBytes lexeme.bytes⟩

private theorem ofSymbol_bytes (first : UInt8) (rest : List UInt8) :
    ∃ tail, (ofSymbol first rest).bytes = first :: tail ∧ tail <+: rest := by
  unfold ofSymbol
  split
  next second more _ =>
    split
    · exact ⟨[second], rfl, more, rfl⟩
    · exact ⟨[], rfl, List.nil_prefix⟩
  next => exact ⟨[], rfl, List.nil_prefix⟩

theorem leading_bytes (first : UInt8) (rest : List UInt8) :
    ∃ tail, (leading first rest).bytes = first :: tail ∧ tail <+: rest := by
  unfold leading
  split
  · exact ⟨_, rfl, List.takeWhile_prefix _⟩
  split
  · exact ⟨_, rfl, List.takeWhile_prefix _⟩
  · exact ofSymbol_bytes first rest

private theorem symbol_ne_eof (byte : UInt8) : symbol byte ≠ .eof := by
  unfold symbol
  split <;> decide

private theorem ofWord_ne_eof (word : String) : Kind.ofWord word ≠ .eof := by
  unfold Kind.ofWord
  repeat' split
  all_goals decide

theorem leading_kind_ne_eof (first : UInt8) (rest : List UInt8) : (leading first rest).kind ≠ .eof := by
  unfold leading
  split
  · simp
  split
  · exact ofWord_ne_eof _
  unfold ofSymbol
  split
  next kind _ _ longer =>
    split
    · unfold extended at longer
      split at longer <;> simp_all
      all_goals subst longer; decide
    · exact symbol_ne_eof first
  next => exact symbol_ne_eof first

end Lexeme

end MonkeyTokens
