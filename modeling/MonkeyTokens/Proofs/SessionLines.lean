import MonkeyTokens.Proofs.Concatenation
import MonkeyTokens.Proofs.LiveSession
import MonkeyTokens.Proofs.Rendering

/-! Sessions against whole scans. A session scans each line by itself and without its ending, and still
shows the tokens of its whole input: no token runs over a line feed, and the rest of a line ending is
white space. Only the end token is shown once for each line, and positions count from the line. -/

namespace MonkeyTokens

/-- The tokens before the first invalid byte, ends left out. -/
def properTokens : List Item → List Token
  | [] => []
  | .token found :: rest => if found.isEof then properTokens rest else found :: properTokens rest
  | .invalid _ :: _ => []

def firstInvalid? (items : List Item) : Option InvalidByte :=
  items.findSome? fun item =>
    match item with
    | .token _ => none
    | .invalid bad => some bad

def Session.Input.items (input : Session.Input) : List (List Item) :=
  input.lines.map fun line => scan (Line.body line)

def Session.page (settings : Session.Settings) (shown : List (List Item)) : List UInt8 :=
  (Session.opening settings).flatMap Step.bytes ++
    shown.flatMap (fun items => Text.utf8 settings.prompt ++
      items.flatMap fun item => Text.utf8 (item.render ++ "\n")) ++
    Text.utf8 settings.prompt

theorem Session.bytes_answer (line : List UInt8) : (Session.answer line).flatMap Step.bytes =
    (scan (Line.body line)).flatMap fun item => Text.utf8 (item.render ++ "\n") := by
  simp [Session.answer, Session.display, Step.bytes, scan, Lexer.items, List.flatMap_assoc, List.flatMap_map]

theorem Session.written_script (settings : Session.Settings) (input : Session.Input) :
    (Session.script settings input).written = Session.page settings input.items := by
  have closing : (Session.closing settings input).flatMap Step.bytes = Text.utf8 settings.prompt := by
    rw [Session.closing]
    split <;> simp [Step.bytes]
  simp only [Script.written, Session.script, Session.page, List.flatMap_append, closing, Session.Input.items,
    List.flatMap_map, List.flatMap_assoc, Session.round, List.flatMap_cons, Step.bytes, Session.bytes_answer]

section Items

variable {items left right : List Item}

@[simp] theorem properTokens_shift (items : List Item) (distance : Nat) :
    properTokens (items.map (.shift distance)) = properTokens items := by
  induction items with
  | nil => rfl
  | cons item items ih => cases item <;> simp [properTokens, Item.shift, ih]

@[simp] theorem properTokens_tokens_append (tokens : List Token) (items : List Item) :
    properTokens (tokens.map Item.token ++ items) = tokens.filter (!·.isEof) ++ properTokens items := by
  induction tokens with
  | nil => rfl
  | cons token tokens ih => cases isEof : token.isEof <;> simp [properTokens, isEof, ih]

theorem properTokens_append_congr (items : List Item) (same : properTokens left = properTokens right) :
    properTokens (items ++ left) = properTokens (items ++ right) := by
  induction items with
  | nil => exact same
  | cons item items ih => cases item <;> simp [properTokens, ih]

theorem firstInvalid?_append :
    firstInvalid? (left ++ right) = (firstInvalid? left).or (firstInvalid? right) :=
  List.findSome?_append

@[simp] theorem firstInvalid?_tokens (tokens : List Token) :
    firstInvalid? (tokens.map Item.token) = none := by
  simp [firstInvalid?]

end Items

theorem scan_body (line : List UInt8) : scan (Line.body line) = scan line := by
  obtain ⟨ending, whole, bytes⟩ := Line.body_append line
  have blank : Blank ending := by
    intro byte member
    rcases bytes byte member with rfl | rfl <;> decide
  rw [← scan_append_blank (Line.body line) blank, ← whole]

/-- No token runs over a blank, and the scan goes on behind it unless it has ended before. -/
theorem properTokens_cut (text : List UInt8) {following : List UInt8}
    (blank : ∀ next ∈ following.head?, Byte.isBlank next = true) :
    properTokens (scan (text ++ following)) = properTokens (scan text ++ scan following) := by
  rcases ascii_or_high text with ascii | ⟨before, byte, rest, rfl, ascii, high⟩
  · obtain ⟨tokens, shown⟩ := scan_ascii ascii
    have apart : ¬ RunsInto text following := by
      apply not_runsInto
      intro next head
      exact .inr (blank next head)
    rw [scan_append ascii apart, shown, List.dropLast_concat, List.append_assoc, properTokens_tokens_append,
      properTokens_tokens_append, properTokens_shift]
    rfl
  · obtain ⟨tokens, shown⟩ := scan_ascii ascii
    rw [List.append_assoc, List.cons_append, scan_append_high ascii high, scan_append_high ascii high, shown,
      List.dropLast_concat, List.append_assoc, properTokens_tokens_append, properTokens_tokens_append]
    rfl

theorem properTokens_lines (source : List UInt8) :
    properTokens ((Line.split source).flatMap scan) = properTokens (scan source) := by
  induction source using Line.split_induction with
  | empty => rw [scan_of_blank .nil]; rfl
  | unended text free filled => simp [Line.split_unended free filled]
  | ended text rest free ih =>
    have feed : Blank [Byte.lineFeed] := by simp [Blank, whitespace, Byte.lineFeed]
    have behind : properTokens (scan (Byte.lineFeed :: rest)) = properTokens (scan rest) := by
      rw [← List.singleton_append, scan_margin feed, properTokens_shift]
    rw [Line.split_ended free, List.flatMap_cons, scan_append_blank text feed, properTokens_cut text (by simp; rfl)]
    exact properTokens_append_congr _ (ih.trans behind.symm)

private theorem items_eq (source : List UInt8) :
    Session.Input.items ⟨source, false⟩ = (Line.split source).map scan := by
  simp [Session.Input.items, Session.Input.lines, scan_body]

private theorem scan_line {source line : List UInt8} (ascii : ∀ byte ∈ source, byte < 0x80)
    (member : line ∈ Line.split source) :
    ∃ tokens : List Token, scan line = tokens.map Item.token ++ [.token .eof] := by
  apply scan_ascii
  intro byte inside
  apply ascii
  rw [← Line.flatten_split source]
  exact List.mem_flatten_of_mem member inside

private theorem firstInvalid?_lines {source : List UInt8} (ascii : ∀ byte ∈ source, byte < 0x80) :
    firstInvalid? ((Line.split source).flatMap scan) = none := by
  rw [firstInvalid?, List.findSome?_eq_none_iff]
  intro item member
  obtain ⟨line, inside, member⟩ := List.mem_flatMap.mp member
  obtain ⟨tokens, shown⟩ := scan_line ascii inside
  rw [shown, List.mem_append, List.mem_map, List.mem_singleton] at member
  rcases member with ⟨token, _, rfl⟩ | rfl
  · rfl
  · rfl

private theorem firstInvalid?_high {source rest : List UInt8} {byte : UInt8}
    (ascii : ∀ byte ∈ source, byte < 0x80) (high : Byte.isAscii byte = false) :
    firstInvalid? (scan (source ++ byte :: rest)) = some ⟨byte, source.length⟩ := by
  obtain ⟨tokens, shown⟩ := scan_ascii ascii
  rw [scan_append_high ascii high, shown, List.dropLast_concat, firstInvalid?_append, firstInvalid?_tokens]
  rfl

/-- The line of a byte starts with all that stands before the byte since the last line feed. -/
private theorem split_line {text rest : List UInt8} {byte : UInt8} (free : Byte.lineFeed ∉ text)
    (other : byte ≠ Byte.lineFeed) :
    ∃ tail lines, Line.split (text ++ byte :: rest) = (text ++ byte :: tail) :: lines := by
  by_cases feed : Byte.lineFeed ∈ rest
  · obtain ⟨tail, more, rfl, clear⟩ := List.eq_append_cons_of_mem feed
    have whole : Byte.lineFeed ∉ text ++ byte :: tail := by simp [free, clear, Ne.symm other]
    refine ⟨tail ++ [Byte.lineFeed], Line.split more, ?_⟩
    have shown := Line.split_ended whole more
    simpa using shown
  · have whole : Byte.lineFeed ∉ text ++ byte :: rest := by simp [free, feed, Ne.symm other]
    exact ⟨rest, [], Line.split_unended whole (by simp)⟩

private theorem firstInvalid?_lines_high {before text rest : List UInt8} {byte : UInt8}
    (cut : before = [] ∨ Line.isEnded before = true) (free : Byte.lineFeed ∉ text)
    (ascii : ∀ low ∈ before ++ text, low < 0x80) (high : Byte.isAscii byte = false) :
    firstInvalid? ((Line.split (before ++ (text ++ byte :: rest))).flatMap scan) = some ⟨byte, text.length⟩ := by
  obtain ⟨asciiBefore, asciiText⟩ := List.forall_mem_append.mp ascii
  have other : byte ≠ Byte.lineFeed := by
    intro same
    rw [same] at high
    cases high
  obtain ⟨tail, more, line⟩ := split_line free other
  rw [Line.split_append cut, List.flatMap_append, firstInvalid?_append, firstInvalid?_lines asciiBefore, line,
    List.flatMap_cons, firstInvalid?_append, firstInvalid?_high asciiText high]
  rfl

private theorem page_text (settings : Session.Settings) (shown : List (List Item)) {told : Item → String}
    (tells : ∀ item, told item = item.render ++ "\n") :
    Session.page settings shown = Text.utf8 (settings.greeting.elim "" (· ++ "\n") ++
      String.join (shown.map fun items => settings.prompt ++ String.join (items.map told)) ++ settings.prompt) := by
  obtain rfl : told = fun item => item.render ++ "\n" := funext tells
  obtain ⟨prompt, greeting⟩ := settings
  simp only [Session.page, Text.utf8_append, Text.utf8_join, List.flatMap_map]
  cases greeting with
  | none => rfl
  | some text => simp [Session.opening, Step.bytes]

/-- A session on an input that does not break shows, line by line, the scan of the whole input, and an invalid
byte with its place in its line. -/
theorem session_shows_scan (settings : Session.Settings) (source : List UInt8) :
    let answers := (Line.split source).map fun line => scan (Line.body line)
    let told : Item → String := fun
      | .token found => "\x7bkind: " ++ found.kind.name ++ ", literal: " ++ Text.quote found.literal ++ "\x7d\n"
      | .invalid bad =>
        let byte := Nat.toDigits 16 (bad.byte.toNat / 16) ++ Nat.toDigits 16 (bad.byte.toNat % 16)
        "lexer: invalid ASCII byte 0x" ++ String.ofList (byte.map Char.toUpper) ++ " at byte " ++ toString bad.pos ++ "\n"
    let outcome := Session.live settings ⟨source, false⟩ none
    outcome.result = .ok () ∧
      outcome.output = Text.utf8 (settings.greeting.elim "" (· ++ "\n") ++
        String.join (answers.map fun items => settings.prompt ++ String.join (items.map told)) ++ settings.prompt) ∧
      properTokens answers.flatten = properTokens (scan source) ∧
      ((∀ byte ∈ source, byte < 0x80) →
        (∀ items ∈ answers, items.getLast? = some (.token .eof)) ∧
          firstInvalid? answers.flatten = none ∧ firstInvalid? (scan source) = none) ∧
      ∀ before text byte rest, source = before ++ (text ++ byte :: rest) →
        before = [] ∨ Line.isEnded before = true → Byte.lineFeed ∉ text →
        (∀ low ∈ before ++ text, low < 0x80) → 0x80 ≤ byte →
        firstInvalid? answers.flatten = some ⟨byte, text.length⟩ ∧
          firstInvalid? (scan source) = some ⟨byte, (before ++ text).length⟩ := by
  intro answers told outcome
  have tells (item : Item) : told item = item.render ++ "\n" := by
    cases item with
    | token found =>
      have brace : "\x7d\n" = "\x7d" ++ "\n" := by decide +kernel
      simp only [told, brace, Item.render_token, Token.render, Token.renderBy, Text.quote, String.append_assoc]
    | invalid bad => rw [Item.render_invalid, InvalidByte.message_eq]
  have run : outcome = (Session.script settings ⟨source, false⟩).run none := Session.live_eq_run settings _ none
  have shown : Session.Input.items ⟨source, false⟩ = answers := rfl
  have lines : answers = (Line.split source).map scan := items_eq source
  have flat : answers.flatten = (Line.split source).flatMap scan := by rw [lines, List.flatMap_def]
  rw [flat]
  refine ⟨?_, ?_, properTokens_lines source, ?_, ?_⟩
  · rw [run, Script.run_none]
    rfl
  · rw [run, Script.run_none, ← page_text settings answers tells, ← shown]
    exact Session.written_script settings _
  · intro ascii
    refine ⟨?_, firstInvalid?_lines ascii, ?_⟩
    · intro items member
      rw [lines] at member
      obtain ⟨line, inside, rfl⟩ := List.mem_map.mp member
      obtain ⟨tokens, whole⟩ := scan_line ascii inside
      rw [whole, List.getLast?_concat]
    · obtain ⟨tokens, whole⟩ := scan_ascii ascii
      rw [whole, firstInvalid?_append, firstInvalid?_tokens]
      rfl
  · intro before text byte rest whole cut free ascii high
    have high : Byte.isAscii byte = false := by simpa [Byte.isAscii] using high
    rw [whole]
    constructor
    · exact firstInvalid?_lines_high cut free ascii high
    · rw [← List.append_assoc]
      exact firstInvalid?_high ascii high

/-- An invalid byte on the second line is told with its place there, and stands at offset 4 of the whole. -/
theorem session_shows_scan_second_line :
    let source := Text.utf8 "a\nb " ++ [0xFF]
    let answers := (Line.split source).map fun line => scan (Line.body line)
    let outcome := Session.live ⟨"> ", some "Hi"⟩ ⟨source, false⟩ none
    outcome.result = .ok () ∧
      outcome.output = Text.utf8 ("Hi\n> \x7bkind: IDENT, literal: \x22a\x22\x7d\n" ++
        "\x7bkind: EOF, literal: \x22\x22\x7d\n> \x7bkind: IDENT, literal: \x22b\x22\x7d\n" ++
        "lexer: invalid ASCII byte 0xFF at byte 2\n> ") ∧
      properTokens answers.flatten = [⟨.ident, "a"⟩, ⟨.ident, "b"⟩] ∧
      firstInvalid? answers.flatten = some ⟨0xFF, 2⟩ ∧ firstInvalid? (scan source) = some ⟨0xFF, 4⟩ ∧
      ∀ items ∈ (Line.split (Text.utf8 "a\r\nb")).map (fun line => scan (Line.body line)),
        items.getLast? = some (.token .eof) := by
  intro source answers outcome
  obtain ⟨result, output, same, _, high⟩ := session_shows_scan ⟨"> ", some "Hi"⟩ source
  obtain ⟨line, whole⟩ := high (Text.utf8 "a\n") (Text.utf8 "b ") 0xFF [] (by decide) (by decide) (by decide)
    (by decide +kernel) (by decide)
  obtain ⟨_, _, _, ascii, _⟩ := session_shows_scan ⟨"> ", some "Hi"⟩ (Text.utf8 "a\r\nb")
  refine ⟨result, ?_, ?_, line, whole, (ascii (by decide +kernel)).1⟩
  · rw [output]
    -- The texts are compared, as computing their bytes takes much longer.
    refine congrArg Text.utf8 ?_
    decide +kernel
  · rw [same]
    decide +kernel

end MonkeyTokens
