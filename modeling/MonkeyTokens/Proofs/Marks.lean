import MonkeyTokens.Lexing.Lexer
import Mathlib.Data.List.TakeWhile

/-! What a scan shows of itself, apart from the bytes that its lexer keeps. A source is blank, or leads
through blanks to a byte outside ASCII, or through blanks to a lexeme with a source behind it; every
proof about a whole scan is an induction over that shape. Marks behind an offset are the marks of a
fresh scan, moved by the offset, so no such proof needs to follow a lexer. -/

namespace MonkeyTokens

/-- The six bytes that only separate: space, tab, line feed, vertical tab, form feed and return. -/
def whitespace : List UInt8 := [0x20, 0x09, 0x0A, 0x0B, 0x0C, 0x0D]

def Blank (bytes : List UInt8) : Prop := ∀ byte ∈ bytes, byte ∈ whitespace

/-- Positions count from a start that lies `distance` bytes further on. -/
def Item.shift (distance : Nat) : Item → Item
  | token found => token found
  | invalid bad => invalid ⟨bad.byte, bad.pos + distance⟩

def Event.shift (distance : Nat) : Event → Event
  | token kind pos => token kind (pos + distance)
  | endOfInput pos => endOfInput (pos + distance)
  | invalidByte byte pos => invalidByte byte (pos + distance)
  | inputClosed => inputClosed
  | lexingFile path size => lexingFile path size

/-- A reading without the lexer that it leaves behind, of which only the offset remains. -/
structure Mark where
  item : Item
  event : Event
  stop : Nat
  deriving DecidableEq

def Mark.shift (distance : Nat) (mark : Mark) : Mark :=
  ⟨mark.item.shift distance, mark.event.shift distance, mark.stop + distance⟩

def Reading.mark (reading : Reading) : Mark := ⟨reading.item, reading.event, reading.after.pos⟩

def Lexer.marks (lexer : Lexer) : List Mark := lexer.readings.map Reading.mark

def marks (source : List UInt8) : List Mark := (Lexer.start source).marks

namespace Lexeme

/-- The lexeme that comes first; none at the end, at a blank and at a byte outside ASCII. -/
def next? : List UInt8 → Option Lexeme
  | [] => none
  | first :: rest =>
    if Byte.isAscii first && !Byte.isBlank first then some (leading first rest) else none

/-- The lexeme is what a lexer takes when `rest` comes after its bytes. -/
def Leads (lexeme : Lexeme) (rest : List UInt8) : Prop := next? (lexeme.bytes ++ rest) = some lexeme

theorem next?_cases {bytes : List UInt8} {lexeme : Lexeme} (found : next? bytes = some lexeme) :
    ∃ first rest, bytes = first :: rest ∧ Byte.isAscii first = true ∧ Byte.isBlank first = false ∧
      leading first rest = lexeme := by
  cases bytes with
  | nil => cases found
  | cons first rest =>
    simp only [next?] at found
    split at found
    next usable =>
      simp only [Bool.and_eq_true, Bool.not_eq_true'] at usable
      exact ⟨first, rest, rfl, usable.1, usable.2, Option.some.inj found⟩
    next => cases found

theorem next?_of_usable {first : UInt8} (rest : List UInt8) (ascii : Byte.isAscii first = true)
    (dark : Byte.isBlank first = false) : next? (first :: rest) = some (leading first rest) := by
  simp [next?, ascii, dark]

theorem leads_of_next? {bytes : List UInt8} {lexeme : Lexeme} (found : next? bytes = some lexeme) :
    ∃ rest, bytes = lexeme.bytes ++ rest ∧ lexeme.Leads rest := by
  obtain ⟨first, rest, rfl, _, _, same⟩ := next?_cases found
  obtain ⟨tail, whole, behind, rfl⟩ := leading_bytes first rest
  rw [same] at whole
  have cut : first :: (tail ++ behind) = lexeme.bytes ++ behind := by rw [whole, List.cons_append]
  refine ⟨behind, cut, ?_⟩
  rw [Leads, ← cut]
  exact found

theorem Leads.nonempty {lexeme : Lexeme} {rest : List UInt8} (leads : lexeme.Leads rest) :
    lexeme.bytes ≠ [] := by
  obtain ⟨first, behind, _, _, _, same⟩ := next?_cases leads
  obtain ⟨tail, whole, _⟩ := leading_bytes first behind
  rw [same] at whole
  simp [whole]

theorem Leads.kind_ne_eof {lexeme : Lexeme} {rest : List UInt8} (leads : lexeme.Leads rest) :
    lexeme.kind ≠ .eof := by
  obtain ⟨first, behind, _, _, _, rfl⟩ := next?_cases leads
  exact leading_kind_ne_eof first behind

end Lexeme

theorem Byte.mem_whitespace {byte : UInt8} : byte ∈ whitespace ↔ Byte.isBlank byte = true := by
  simp only [whitespace, List.mem_cons, List.not_mem_nil, or_false, Byte.isBlank, Bool.or_eq_true,
    beq_iff_eq, Bool.and_eq_true, decide_eq_true_eq, UInt8.le_iff_toNat_le, ← UInt8.toNat_inj]
  simp only [UInt8.reduceToNat]
  omega

theorem Byte.isBlank_of_high {byte : UInt8} (high : Byte.isAscii byte = false) :
    Byte.isBlank byte = false := by
  simp only [Byte.isAscii, decide_eq_false_iff_not, UInt8.lt_iff_toNat_lt] at high
  simp only [Byte.isBlank, Bool.or_eq_false_iff, beq_eq_false_iff_ne, ne_eq, Bool.and_eq_false_iff,
    decide_eq_false_iff_not, UInt8.le_iff_toNat_le, ← UInt8.toNat_inj]
  simp only [UInt8.reduceToNat] at high ⊢
  omega

namespace Blank

theorem nil : Blank [] := by simp [Blank]

theorem append_iff {first last : List UInt8} : Blank (first ++ last) ↔ Blank first ∧ Blank last :=
  List.forall_mem_append

theorem ascii {gap : List UInt8} (blank : Blank gap) : ∀ byte ∈ gap, byte < 0x80 := by
  have small : ∀ byte ∈ whitespace, byte < 0x80 := by decide +kernel
  intro byte member
  exact small byte (blank byte member)

theorem dropWhile {gap : List UInt8} (blank : Blank gap) (rest : List UInt8) :
    (gap ++ rest).dropWhile Byte.isBlank = rest.dropWhile Byte.isBlank := by
  apply List.dropWhile_append_of_pos
  intro byte member
  exact Byte.mem_whitespace.mp (blank byte member)

theorem takeWhile {gap : List UInt8} (blank : Blank gap) (rest : List UInt8) :
    (gap ++ rest).takeWhile Byte.isBlank = gap ++ rest.takeWhile Byte.isBlank := by
  apply List.takeWhile_append_of_pos
  intro byte member
  exact Byte.mem_whitespace.mp (blank byte member)

end Blank

theorem blank_takeWhile (source : List UInt8) : Blank (source.takeWhile Byte.isBlank) := by
  intro byte member
  exact Byte.mem_whitespace.mpr (List.mem_takeWhile_imp member)

@[simp] theorem Item.shift_zero : Item.shift 0 = id := by
  funext item
  cases item <;> rfl

@[simp] theorem Item.shift_token (distance : Nat) (token : Token) :
    (Item.token token).shift distance = .token token := rfl

theorem Item.shift_shift (first second : Nat) (item : Item) :
    (item.shift first).shift second = item.shift (first + second) := by
  cases item <;> simp [shift, Nat.add_assoc]

theorem Item.shift_injective (distance : Nat) : Function.Injective (Item.shift distance) := by
  intro left right same
  cases left <;> cases right <;> simp_all [shift]
  next left right => cases left; cases right; simp_all

theorem Item.map_shift_inj {distance : Nat} {left right : List Item} :
    left.map (shift distance) = right.map (shift distance) ↔ left = right := by
  apply List.map_inj_right
  intro _ _ same
  exact shift_injective distance same

theorem Event.shift_shift (first second : Nat) (event : Event) :
    (event.shift first).shift second = event.shift (first + second) := by
  cases event <;> simp [shift, Nat.add_assoc]

theorem Mark.shift_mk (distance stop : Nat) (item : Item) (event : Event) :
    Mark.shift distance ⟨item, event, stop⟩ =
      ⟨item.shift distance, event.shift distance, stop + distance⟩ := rfl

theorem Mark.shift_shift (first second : Nat) (mark : Mark) :
    (mark.shift first).shift second = mark.shift (first + second) := by
  simp [shift, Item.shift_shift, Event.shift_shift, Nat.add_assoc]

/-- Every source has one of three shapes; behind a lexeme a shorter one follows. -/
@[elab_as_elim]
theorem source_induction {motive : List UInt8 → Prop}
    (blank : ∀ gap, Blank gap → motive gap)
    (invalid : ∀ gap byte rest, Blank gap → Byte.isAscii byte = false → motive (gap ++ byte :: rest))
    (lexeme : ∀ gap (lexeme : Lexeme) rest, Blank gap → lexeme.Leads rest → motive rest →
      motive (gap ++ (lexeme.bytes ++ rest)))
    (source : List UInt8) : motive source := by
  have parts : source.takeWhile Byte.isBlank ++ source.dropWhile Byte.isBlank = source :=
    List.takeWhile_append_dropWhile
  have stops := List.head?_dropWhile_not Byte.isBlank source
  have gap := blank_takeWhile source
  rw [← parts]
  cases behind : source.dropWhile Byte.isBlank with
  | nil => simpa using blank _ gap
  | cons byte rest =>
    simp only [behind, List.head?_cons] at stops
    cases ascii : Byte.isAscii byte with
    | false => exact invalid _ byte rest gap ascii
    | true =>
      obtain ⟨after, whole, leads⟩ := Lexeme.leads_of_next? (Lexeme.next?_of_usable rest ascii stops)
      rw [whole]
      have : after.length < source.length := by
        have filled := List.length_pos_iff.mpr leads.nonempty
        have := congrArg List.length parts
        rw [behind, whole] at this
        simp only [List.length_append] at this
        omega
      exact lexeme _ _ after gap leads (source_induction blank invalid lexeme after)
termination_by source.length

namespace Lexer

private theorem skipBlanks_eq (reader : Reader) {gap rest : List UInt8} (blank : Blank gap)
    (stops : ∀ byte ∈ rest.head?, Byte.isBlank byte = false) (ahead : reader.ahead = gap ++ rest) :
    reader.skipBlanks = reader.advanceBy gap.length := by
  have run : (gap ++ rest).takeWhile Byte.isBlank = gap := by
    rw [blank.takeWhile]
    cases rest with
    | nil => simp
    | cons byte rest => simp [stops byte rfl]
  rw [Reader.skipBlanks, Reader.skipWhile_eq_advanceBy, ahead, run]

theorem next?_of_blank (reader : Reader) {gap : List UInt8} (blank : Blank gap) (ahead : reader.ahead = gap) :
    (Lexer.mk reader false).next? =
      some ⟨.token .eof, .endOfInput (gap.length + reader.pos), ⟨reader.advanceBy gap.length, true⟩⟩ := by
  have whole : reader.ahead = gap ++ [] := by rw [ahead, List.append_nil]
  have passed := skipBlanks_eq reader blank (by simp) whole
  simp [next?, passed, readingAt, ahead, Nat.add_comm]

theorem next?_of_invalid (reader : Reader) {gap rest : List UInt8} {byte : UInt8} (blank : Blank gap)
    (high : Byte.isAscii byte = false) (ahead : reader.ahead = gap ++ byte :: rest) :
    (Lexer.mk reader false).next? =
      some ⟨.invalid ⟨byte, gap.length + reader.pos⟩, .invalidByte byte (gap.length + reader.pos),
        ⟨reader.advanceBy gap.length, false⟩⟩ := by
  have passed := skipBlanks_eq reader blank (by simpa using Byte.isBlank_of_high high) ahead
  simp [next?, passed, readingAt, ahead, high, Nat.add_comm]

theorem next?_of_lexeme (reader : Reader) {gap rest : List UInt8} {lexeme : Lexeme} (blank : Blank gap)
    (leads : lexeme.Leads rest) (ahead : reader.ahead = gap ++ (lexeme.bytes ++ rest)) :
    (Lexer.mk reader false).next? =
      some ⟨.token lexeme.token, .token lexeme.kind (gap.length + reader.pos),
        ⟨reader.advanceBy (gap.length + lexeme.bytes.length), false⟩⟩ := by
  obtain ⟨first, behind, whole, ascii, dark, same⟩ := Lexeme.next?_cases leads
  have passed := skipBlanks_eq reader blank (by simpa [whole] using dark) ahead
  simp [next?, passed, readingAt, ahead, whole, ascii, same, Reader.advanceBy_advanceBy, Nat.add_comm]

private theorem marks_blank (reader : Reader) {gap : List UInt8} (blank : Blank gap)
    (ahead : reader.ahead = gap) :
    (Lexer.mk reader false).marks =
      [⟨.token .eof, .endOfInput (gap.length + reader.pos), gap.length + reader.pos⟩] := by
  rw [marks, readings_eq, next?_of_blank reader blank ahead]
  simp [Item.isFinal, Token.isEof, Token.eof, Reading.mark, Lexer.pos, ahead, Nat.add_comm]

private theorem marks_invalid (reader : Reader) {gap rest : List UInt8} {byte : UInt8} (blank : Blank gap)
    (high : Byte.isAscii byte = false) (ahead : reader.ahead = gap ++ byte :: rest) :
    (Lexer.mk reader false).marks =
      [⟨.invalid ⟨byte, gap.length + reader.pos⟩, .invalidByte byte (gap.length + reader.pos),
        gap.length + reader.pos⟩] := by
  rw [marks, readings_eq, next?_of_invalid reader blank high ahead]
  simp [Item.isFinal, Reading.mark, Lexer.pos, ahead, Nat.add_comm]

private theorem marks_lexeme (reader : Reader) {gap rest : List UInt8} {lexeme : Lexeme} (blank : Blank gap)
    (leads : lexeme.Leads rest) (ahead : reader.ahead = gap ++ (lexeme.bytes ++ rest)) :
    ∃ after : Reader, after.ahead = rest ∧ after.pos = gap.length + lexeme.bytes.length + reader.pos ∧
      (Lexer.mk reader false).marks =
        ⟨.token lexeme.token, .token lexeme.kind (gap.length + reader.pos), after.pos⟩
          :: (Lexer.mk after false).marks := by
  have more : (Item.token lexeme.token).isFinal = false := decide_eq_false leads.kind_ne_eof
  refine ⟨reader.advanceBy (gap.length + lexeme.bytes.length), ?_, ?_, ?_⟩
  · simp [ahead]
  · simp only [Reader.pos_advanceBy, ahead, List.length_append]
    omega
  · rw [marks, readings_eq, next?_of_lexeme reader blank leads ahead]
    simp [more, Reading.mark, Lexer.pos, marks]

private theorem start_marks (source : List UInt8) :
    MonkeyTokens.marks source = (Lexer.mk (.start source) false).marks := rfl

/-- Only the bytes ahead tell on what a lexer shows; the offset moves all of it. -/
theorem marks_eq_shift (reader : Reader) :
    (Lexer.mk reader false).marks = (MonkeyTokens.marks reader.ahead).map (.shift reader.pos) := by
  generalize same : reader.ahead = source
  induction source using source_induction generalizing reader with
  | blank gap blank =>
    rw [start_marks, marks_blank reader blank same, marks_blank _ blank rfl]
    rfl
  | invalid gap byte rest blank high =>
    rw [start_marks, marks_invalid reader blank high same, marks_invalid _ blank high rfl]
    rfl
  | lexeme gap lexeme rest blank leads ih =>
    obtain ⟨here, ahead, pos, shown⟩ := marks_lexeme reader blank leads same
    obtain ⟨fresh, ahead', pos', shown'⟩ := marks_lexeme (.start _) blank leads rfl
    rw [start_marks, shown, shown', ih here ahead, ih fresh ahead']
    simp [Mark.shift_mk, Event.shift, Reader.start, pos, pos', Mark.shift_shift, Function.comp_def]

end Lexer

theorem marks_of_blank {gap : List UInt8} (blank : Blank gap) :
    marks gap = [⟨.token .eof, .endOfInput gap.length, gap.length⟩] :=
  Lexer.marks_blank (.start gap) blank rfl

theorem marks_of_invalid {gap rest : List UInt8} {byte : UInt8} (blank : Blank gap)
    (high : Byte.isAscii byte = false) :
    marks (gap ++ byte :: rest) =
      [⟨.invalid ⟨byte, gap.length⟩, .invalidByte byte gap.length, gap.length⟩] :=
  Lexer.marks_invalid (.start _) blank high rfl

theorem marks_of_lexeme {gap rest : List UInt8} {lexeme : Lexeme} (blank : Blank gap)
    (leads : lexeme.Leads rest) :
    marks (gap ++ (lexeme.bytes ++ rest)) =
      ⟨.token lexeme.token, .token lexeme.kind gap.length, gap.length + lexeme.bytes.length⟩
        :: (marks rest).map (.shift (gap.length + lexeme.bytes.length)) := by
  obtain ⟨after, ahead, pos, shown⟩ := Lexer.marks_lexeme (.start _) blank leads rfl
  rw [marks, Lexer.start, shown, Lexer.marks_eq_shift, ahead, pos]
  rfl

theorem marks_margin {gap : List UInt8} (blank : Blank gap) (source : List UInt8) :
    marks (gap ++ source) = (marks source).map (.shift gap.length) := by
  induction source using source_induction with
  | blank tail last =>
    rw [marks_of_blank (Blank.append_iff.mpr ⟨blank, last⟩), marks_of_blank last]
    simp [Mark.shift_mk, Event.shift, Nat.add_comm]
  | invalid tail byte rest last high =>
    have whole : Blank (gap ++ tail) := Blank.append_iff.mpr ⟨blank, last⟩
    rw [← List.append_assoc, marks_of_invalid whole high, marks_of_invalid last high]
    simp [Mark.shift_mk, Item.shift, Event.shift, Nat.add_comm]
  | lexeme tail lexeme rest last leads _ =>
    have whole : Blank (gap ++ tail) := Blank.append_iff.mpr ⟨blank, last⟩
    rw [← List.append_assoc, marks_of_lexeme whole leads, marks_of_lexeme last leads]
    have start : tail.length + gap.length = gap.length + tail.length := Nat.add_comm _ _
    have stop : tail.length + lexeme.bytes.length + gap.length = gap.length + tail.length + lexeme.bytes.length := by
      omega
    simp [Mark.shift_mk, Event.shift, Mark.shift_shift, Function.comp_def, start, stop]

theorem scan_eq_marks (source : List UInt8) : scan source = (marks source).map Mark.item := by
  simp [scan, Lexer.items, marks, Lexer.marks, Reading.mark, Function.comp_def]

theorem scan_of_blank {gap : List UInt8} (blank : Blank gap) : scan gap = [.token .eof] := by
  rw [scan_eq_marks, marks_of_blank blank]
  rfl

theorem scan_of_invalid {gap rest : List UInt8} {byte : UInt8} (blank : Blank gap)
    (high : Byte.isAscii byte = false) : scan (gap ++ byte :: rest) = [.invalid ⟨byte, gap.length⟩] := by
  rw [scan_eq_marks, marks_of_invalid blank high]
  rfl

theorem scan_of_lexeme {gap rest : List UInt8} {lexeme : Lexeme} (blank : Blank gap)
    (leads : lexeme.Leads rest) :
    scan (gap ++ (lexeme.bytes ++ rest)) =
      .token lexeme.token :: (scan rest).map (.shift (gap.length + lexeme.bytes.length)) := by
  rw [scan_eq_marks, scan_eq_marks, marks_of_lexeme blank leads]
  simp [Mark.shift, Function.comp_def]

theorem scan_margin {gap : List UInt8} (blank : Blank gap) (source : List UInt8) :
    scan (gap ++ source) = (scan source).map (.shift gap.length) := by
  rw [scan_eq_marks, scan_eq_marks, marks_margin blank]
  simp [Mark.shift, Function.comp_def]

end MonkeyTokens
