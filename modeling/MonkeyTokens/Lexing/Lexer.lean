import MonkeyTokens.Event
import MonkeyTokens.Lexing.Item
import MonkeyTokens.Lexing.Lexeme
import MonkeyTokens.Source.Reader

/-! Lexers: a place in a source, and whether the end token has been handed out. Each reading passes the
blanks ahead and yields one item. A token is passed; an invalid byte is not, so reading again meets it
again. After the end token a lexer refuses to read. Every token takes at least one byte, hence the
readings of a lexer come to an end. -/

namespace MonkeyTokens

structure Lexer where
  reader : Reader
  /-- Whether the end token has been handed out. -/
  ended : Bool
  deriving DecidableEq

/-- One step of a lexer: what it found, what it logged, and where it stands afterwards. -/
structure Reading where
  item : Item
  event : Event
  after : Lexer
  deriving DecidableEq

namespace Lexer

def start (source : List UInt8) : Lexer := ⟨.start source, false⟩

def pos (lexer : Lexer) : Nat := lexer.reader.pos

/-- Why a lexer that has ended does not read. -/
def refusal : String := "lexer: next_token called after EOF returned"

/-- What stands at a place with no blank ahead. -/
def readingAt (reader : Reader) : Reading :=
  match reader.ahead with
  | [] => ⟨.token .eof, .endOfInput reader.pos, ⟨reader, true⟩⟩
  | byte :: rest =>
    if Byte.isAscii byte then
      let lexeme := Lexeme.leading byte rest
      ⟨.token lexeme.token, .token lexeme.kind reader.pos,
        ⟨reader.advanceBy lexeme.bytes.length, false⟩⟩
    else ⟨.invalid ⟨byte, reader.pos⟩, .invalidByte byte reader.pos, ⟨reader, false⟩⟩

def next? (lexer : Lexer) : Option Reading :=
  if lexer.ended then none else some (readingAt lexer.reader.skipBlanks)

private theorem readingAt_shrinks (reader : Reader) (more : (readingAt reader).item.isFinal = false) :
    (readingAt reader).after.reader.ahead.length < reader.ahead.length := by
  unfold readingAt at more ⊢
  split at more
  next => simp [Item.isFinal, Token.isEof, Token.eof] at more
  next byte rest bytes =>
    split at more
    next ascii =>
      obtain ⟨tail, whole, _⟩ := Lexeme.leading_bytes byte rest
      simp only [bytes, ascii, if_true, Reader.ahead_advanceBy, List.length_drop, whole, List.length_cons]
      omega
    next => simp [Item.isFinal] at more

theorem next?_shrinks {lexer : Lexer} {reading : Reading} (read : lexer.next? = some reading)
    (more : reading.item.isFinal = false) :
    reading.after.reader.ahead.length < lexer.reader.ahead.length := by
  unfold next? at read
  split at read
  next => contradiction
  next =>
    obtain rfl := Option.some.inj read
    have fewer := readingAt_shrinks _ more
    have blanks : (lexer.reader.ahead.dropWhile Byte.isBlank).length ≤ lexer.reader.ahead.length :=
      (List.dropWhile_suffix _).length_le
    simp only [Reader.skipBlanks, Reader.ahead_skipWhile] at fewer ⊢
    omega

theorem next?_eq_none_iff {lexer : Lexer} : lexer.next? = none ↔ lexer.ended = true := by
  unfold next?
  cases lexer.ended <;> simp

private theorem readingAt_fresh (reader : Reader) (more : (readingAt reader).item.isFinal = false) :
    (readingAt reader).after.ended = false := by
  unfold readingAt at more ⊢
  split at more
  next => cases more
  next => split <;> rfl

/-- Only a final item ends a lexer. -/
theorem fresh_after {lexer : Lexer} {reading : Reading} (read : lexer.next? = some reading)
    (more : reading.item.isFinal = false) : reading.after.ended = false := by
  unfold next? at read
  split at read
  next => cases read
  next =>
    obtain rfl := Option.some.inj read
    exact readingAt_fresh _ more

/-- All readings up to the first final one. A lexer that has ended has none. -/
def readings (lexer : Lexer) : List Reading :=
  match read : lexer.next? with
  | none => []
  | some reading =>
    if more : reading.item.isFinal then [reading]
    else
      have : reading.after.reader.ahead.length < lexer.reader.ahead.length :=
        next?_shrinks read (by simpa using more)
      reading :: readings reading.after
termination_by lexer.reader.ahead.length

theorem readings_eq (lexer : Lexer) :
    lexer.readings =
      match lexer.next? with
      | none => []
      | some reading => if reading.item.isFinal then [reading] else reading :: reading.after.readings := by
  rw [readings]
  split
  next read => simp [read]
  next reading read => simp [read]

theorem readings_of_final {lexer : Lexer} {reading : Reading} (read : lexer.next? = some reading)
    (final : reading.item.isFinal = true) : lexer.readings = [reading] := by
  rw [readings_eq, read]
  exact if_pos final

theorem readings_of_more {lexer : Lexer} {reading : Reading} (read : lexer.next? = some reading)
    (more : reading.item.isFinal = false) : lexer.readings = reading :: reading.after.readings := by
  rw [readings_eq, read]
  exact if_neg (by simp [more])

/-- A lexer that has not ended comes to a final item. -/
@[elab_as_elim]
theorem readings_induction {motive : (lexer : Lexer) → lexer.ended = false → Prop}
    (last : ∀ (lexer : Lexer) (reading : Reading) (fresh : lexer.ended = false),
      lexer.next? = some reading → reading.item.isFinal = true → motive lexer fresh)
    (more : ∀ (lexer : Lexer) (reading : Reading) (fresh : lexer.ended = false)
      (behind : reading.after.ended = false), lexer.next? = some reading → reading.item.isFinal = false →
      motive reading.after behind → motive lexer fresh)
    (lexer : Lexer) (fresh : lexer.ended = false) : motive lexer fresh := by
  cases read : lexer.next? with
  | none => exact absurd (next?_eq_none_iff.mp read) (by simp [fresh])
  | some reading =>
    cases final : reading.item.isFinal with
    | true => exact last lexer reading fresh read final
    | false =>
      have behind := fresh_after read final
      have := next?_shrinks read final
      exact more lexer reading fresh behind read final (readings_induction last more reading.after behind)
termination_by lexer.reader.ahead.length

def items (lexer : Lexer) : List Item := lexer.readings.map Reading.item

def events (lexer : Lexer) : List Event := lexer.readings.map Reading.event

section

variable {lexer : Lexer} {reading : Reading}

theorem items_of_final (read : lexer.next? = some reading) (final : reading.item.isFinal = true) :
    lexer.items = [reading.item] := by
  rw [items, readings_of_final read final, List.map_singleton]

theorem events_of_final (read : lexer.next? = some reading) (final : reading.item.isFinal = true) :
    lexer.events = [reading.event] := by
  rw [events, readings_of_final read final, List.map_singleton]

theorem items_of_more (read : lexer.next? = some reading) (more : reading.item.isFinal = false) :
    lexer.items = reading.item :: reading.after.items := by
  rw [items, readings_of_more read more, List.map_cons, items]

theorem events_of_more (read : lexer.next? = some reading) (more : reading.item.isFinal = false) :
    lexer.events = reading.event :: reading.after.events := by
  rw [events, readings_of_more read more, List.map_cons, events]

end

end Lexer

def scan (source : List UInt8) : List Item := (Lexer.start source).items

/-- The tokens of a text through the end token, or its first byte outside ASCII. -/
def tokenize (text : String) : Except InvalidByte (List Token) := Item.tokens (scan (Text.utf8 text))

end MonkeyTokens
