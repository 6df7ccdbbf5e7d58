import MonkeyTokens.Proofs.Runs
import MonkeyTokens.Proofs.Spelling

/-! Where the tokens of a scan stand. Each literal is a stretch of the source, the stretches follow one
another, and between them stands white space only. So a scan loses nothing but white space, repeats
nothing and keeps the order, up to the end of the source or its first byte outside ASCII. -/

namespace MonkeyTokens

/-- A token with the offsets between which it stands. -/
structure Span where
  token : Token
  start : Nat
  stop : Nat

def Span.bytes (span : Span) : List UInt8 := Text.utf8 span.token.literal

/-- The token of a reading other than the end token. It reaches back from where the lexer then stands. -/
def Reading.span? (reading : Reading) : Option Span :=
  match reading.item with
  | .token token =>
    if token.isEof then none
    else some ⟨token, reading.after.pos - (Text.utf8 token.literal).length, reading.after.pos⟩
  | .invalid _ => none

def Lexer.spans (lexer : Lexer) : List Span := lexer.readings.filterMap Reading.span?

/-- The literal is what the source holds between the offsets, and nothing in it separates. -/
structure Span.Fills (source : List UInt8) (span : Span) : Prop where
  forward : span.start < span.stop
  slice : source.extract span.start span.stop = span.bytes
  length : span.start + span.bytes.length = span.stop
  plain : ∀ byte ∈ span.bytes, byte < 0x80 ∧ byte ∉ whitespace

theorem Reading.span?_of_fills {source : List UInt8} {reading : Reading} {token : Token} {start : Nat}
    (item : reading.item = .token token) (proper : token.isEof = false)
    (fills : Span.Fills source ⟨token, start, reading.after.pos⟩) :
    reading.span? = some ⟨token, start, reading.after.pos⟩ := by
  have back : reading.after.pos - (Text.utf8 token.literal).length = start :=
    Nat.sub_eq_of_eq_add fills.length.symm
  simp [Reading.span?, item, proper, back]

/-- From one offset to another, the spans stand one behind the other with white space around them. -/
inductive Covers (source : List UInt8) : Nat → List Span → Nat → Prop where
  | margin {start stop : Nat} (forward : start ≤ stop) (inside : stop ≤ source.length)
      (blank : Blank (source.extract start stop)) : Covers source start [] stop
  | span {start stop : Nat} {span : Span} {spans : List Span} (forward : start ≤ span.start)
      (blank : Blank (source.extract start span.start)) (fills : span.Fills source)
      (rest : Covers source span.stop spans stop) : Covers source start (span :: spans) stop

/-- The end of the source, or a byte outside ASCII that stands where the lexer does. -/
def Reading.Closes (source : List UInt8) (reading : Reading) : Prop :=
  reading.item = .token .eof ∧ reading.after.pos = source.length ∨
    ∃ byte, reading.item = .invalid ⟨byte, reading.after.pos⟩ ∧ source[reading.after.pos]? = some byte ∧
      0x80 ≤ byte

theorem Reading.Closes.stops {source : List UInt8} {reading : Reading} (closes : reading.Closes source) :
    ∀ byte ∈ source[reading.after.pos]?, ¬ byte < 0x80 := by
  intro byte here
  rcases closes with ⟨_, place⟩ | ⟨bad, _, found, high⟩
  · simp [place] at here
  · obtain rfl := Option.some.inj (found.symm.trans here)
    simpa using high

private theorem takeWhile_eq_extract {source : List UInt8} {stop : Nat}
    (low : ∀ byte ∈ source.extract 0 stop, byte < 0x80) (stops : ∀ byte ∈ source[stop]?, ¬ byte < 0x80) :
    source.takeWhile (· < 0x80) = source.extract 0 stop := by
  have start : source.extract 0 stop = source.take stop := rfl
  rw [start] at low ⊢
  have ended : (source.drop stop).takeWhile (· < 0x80) = [] := by
    cases behind : source.drop stop with
    | nil => rfl
    | cons byte rest =>
      have here : source[stop]? = some byte := by rw [← List.head?_drop, behind, List.head?_cons]
      simp [stops byte here]
  calc source.takeWhile (· < 0x80)
    _ = (source.take stop ++ source.drop stop).takeWhile (· < 0x80) := by rw [List.take_append_drop]
    _ = source.take stop ++ (source.drop stop).takeWhile (· < 0x80) :=
      List.takeWhile_append_of_pos (by simpa using low)
    _ = source.take stop := by rw [ended, List.append_nil]

private theorem extract_append_extract (source : List UInt8) {start middle stop : Nat} (first : start ≤ middle)
    (last : middle ≤ stop) :
    source.extract start middle ++ source.extract middle stop = source.extract start stop := by
  have parts : stop - start = (middle - start) + (stop - middle) := by omega
  have behind : start + (middle - start) = middle := by omega
  rw [List.extract_eq_take_drop, List.extract_eq_take_drop, List.extract_eq_take_drop, parts, List.take_add,
    List.drop_drop, behind]

namespace Covers

variable {source : List UInt8} {start stop : Nat} {spans : List Span}

theorem bounds (covers : Covers source start spans stop) : start ≤ stop ∧ stop ≤ source.length := by
  induction covers with
  | margin forward inside _ => exact ⟨forward, inside⟩
  | span forward _ fills _ ih =>
    have := fills.forward
    exact ⟨by omega, ih.2⟩

theorem start_le (covers : Covers source start spans stop) : ∀ span ∈ spans, start ≤ span.start := by
  induction covers with
  | margin => simp
  | span forward _ fills _ ih =>
    refine List.forall_mem_cons.mpr ⟨forward, ?_⟩
    intro other member
    have := fills.forward
    have := ih other member
    omega

theorem ordered (covers : Covers source start spans stop) :
    spans.Pairwise fun left right => left.stop ≤ right.start := by
  induction covers with
  | margin => exact .nil
  | span _ _ _ rest ih => exact .cons rest.start_le ih

private theorem extract_span {span : Span} (forward : start ≤ span.start) (fills : span.Fills source)
    (rest : Covers source span.stop spans stop) :
    source.extract start stop = source.extract start span.start ++ (span.bytes ++ source.extract span.stop stop) := by
  have between := fills.forward
  have behind := rest.bounds.1
  rw [← fills.slice, extract_append_extract source (by omega) behind,
    extract_append_extract source forward (by omega)]

theorem low (covers : Covers source start spans stop) : ∀ byte ∈ source.extract start stop, byte < 0x80 := by
  induction covers with
  | margin _ _ blank => exact blank.ascii
  | span forward blank fills rest ih =>
    rw [extract_span forward fills rest]
    refine List.forall_mem_append.mpr ⟨?_, List.forall_mem_append.mpr ⟨?_, ih⟩⟩
    · exact blank.ascii
    · exact fun byte member => (fills.plain byte member).1

/-- The spans hold the source without its white space. -/
theorem flatMap_bytes (covers : Covers source start spans stop) :
    spans.flatMap Span.bytes = (source.extract start stop).filter (· ∉ whitespace) := by
  have without {gap : List UInt8} (blank : Blank gap) : gap.filter (· ∉ whitespace) = [] := by
    simp only [List.filter_eq_nil_iff, decide_eq_true_eq, Decidable.not_not]
    exact blank
  induction covers with
  | margin _ _ blank => rw [without blank, List.flatMap_nil]
  | @span _ _ span _ forward blank fills rest ih =>
    have whole : span.bytes.filter (· ∉ whitespace) = span.bytes := by
      simp only [List.filter_eq_self, decide_eq_true_eq]
      exact fun byte member => (fills.plain byte member).2
    rw [extract_span forward fills rest, List.filter_append, List.filter_append, without blank, whole, ← ih,
      List.flatMap_cons, List.nil_append]

end Covers

theorem Spells.dark {kind : Kind} {text : String} (spells : Spells kind text) :
    ∀ byte ∈ Text.utf8 text, byte ∉ whitespace := by
  obtain ⟨bytes, ascii, rfl⟩ := Text.exists_bytes spells.ascii
  cases spells with
  | fixed table =>
    generalize Text.ofBytes bytes = text at table
    cases kind <;> cases table <;> decide +kernel
  | number digits =>
    rw [Text.utf8_ofBytes ascii]
    intro byte member
    have digit := (isNumber_ofBytes.mp digits).2 byte member
    simp [Byte.mem_whitespace, (Byte.usable_of_isDigit digit).2]
  | word shape free =>
    rw [Text.utf8_ofBytes ascii]
    cases bytes with
    | nil => simp
    | cons first tail =>
      obtain ⟨start, run⟩ := isWord_ofBytes.mp shape
      refine List.forall_mem_cons.mpr ⟨?_, ?_⟩
      · simp [Byte.mem_whitespace, (Byte.usable_of_isWordStart start).2.1]
      · intro byte member
        simp [Byte.mem_whitespace, (Byte.usable_of_isWordByte (run byte member)).2]

theorem Lexeme.Leads.dark {lexeme : Lexeme} {rest : List UInt8} (leads : lexeme.Leads rest) :
    ∀ byte ∈ lexeme.bytes, byte ∉ whitespace := by
  rcases leads.spells with ⟨byte, rfl⟩ | spells
  · obtain ⟨_, _, whole, _, dark, _⟩ := next?_cases leads
    cases whole
    simpa [Byte.mem_whitespace] using dark
  · rw [← leads.utf8_literal]
    exact spells.dark

namespace Reader.Within

variable {source : List UInt8} {reader : Reader}

theorem extract_pos (within : Within source reader) {next rest : List UInt8} (ahead : reader.ahead = next ++ rest) :
    source.extract reader.pos (next.length + reader.pos) = next := by
  rw [List.extract_eq_take_drop, Nat.add_sub_cancel, within.drop_pos, ahead, List.take_left]

/-- Forward over bytes that are ahead, the place moves by their number and stays in the source. -/
theorem pos_advance (within : Within source reader) {next rest : List UInt8} (ahead : reader.ahead = next ++ rest) :
    (reader.advanceBy next.length).pos = next.length + reader.pos ∧ next.length + reader.pos ≤ source.length := by
  rw [within.length, pos_advanceBy, ahead, List.length_append]
  omega

theorem covers_gap (within : Within source reader) {gap rest : List UInt8} (blank : Blank gap)
    (ahead : reader.ahead = gap ++ rest) : Covers source reader.pos [] (reader.advanceBy gap.length).pos := by
  obtain ⟨place, inside⟩ := within.pos_advance ahead
  rw [place]
  refine .margin (Nat.le_add_left _ _) inside ?_
  rw [within.extract_pos ahead]
  exact blank

theorem fills_lexeme (within : Within source reader) {lexeme : Lexeme} {rest : List UInt8} (leads : lexeme.Leads rest)
    (ahead : reader.ahead = lexeme.bytes ++ rest) :
    Span.Fills source ⟨lexeme.token, reader.pos, (reader.advanceBy lexeme.bytes.length).pos⟩ := by
  have filled := List.length_pos_iff.mpr leads.nonempty
  have bytes : Span.bytes ⟨lexeme.token, reader.pos, (reader.advanceBy lexeme.bytes.length).pos⟩ = lexeme.bytes :=
    leads.utf8_literal
  rw [(within.pos_advance ahead).1] at bytes ⊢
  refine ⟨?_, ?_, ?_, ?_⟩
  · show reader.pos < lexeme.bytes.length + reader.pos
    omega
  · rw [bytes]
    exact within.extract_pos ahead
  · rw [bytes]
    exact Nat.add_comm _ _
  · rw [bytes]
    exact fun byte member => ⟨leads.ascii byte member, leads.dark byte member⟩

end Reader.Within

/-- The readings of a lexer cover the source from its place to the place where the last of them leaves it. -/
def Lexer.Covered (source : List UInt8) (lexer : Lexer) : Prop :=
  ∃ last, lexer.readings.getLast? = some last ∧ Covers source lexer.pos lexer.spans last.after.pos ∧
    last.Closes source

namespace Lexer

variable {source : List UInt8} {lexer : Lexer} {reading : Reading}

private theorem covered_of_final (read : lexer.next? = some reading) (closes : reading.Closes source)
    (margin : Covers source lexer.pos [] reading.after.pos) : lexer.Covered source := by
  have final : reading.item.isFinal = true ∧ reading.span? = none := by
    rw [Reading.span?]
    rcases closes with ⟨item, _⟩ | ⟨byte, item, _⟩ <;> rw [item]
    · exact ⟨rfl, rfl⟩
    · exact ⟨rfl, rfl⟩
  have shown := readings_of_final read final.1
  refine ⟨reading, by rw [shown]; rfl, ?_, closes⟩
  rwa [spans, shown, List.filterMap_cons_none final.2, List.filterMap_nil]

private theorem covered_of_token {token : Token} {start : Nat} (read : lexer.next? = some reading)
    (item : reading.item = .token token) (proper : token.isEof = false)
    (margin : Covers source lexer.pos [] start) (fills : Span.Fills source ⟨token, start, reading.after.pos⟩)
    (rest : reading.after.Covered source) : lexer.Covered source := by
  have found := Reading.span?_of_fills item proper fills
  have shown := readings_of_more read (by simp [item, Item.isFinal, proper])
  obtain ⟨last, ended, covers, closes⟩ := rest
  refine ⟨last, by rw [shown, List.getLast?_cons, ended]; rfl, ?_, closes⟩
  rw [spans, shown, List.filterMap_cons_some found]
  cases margin with
  | margin forward _ blank => exact .span forward blank fills covers

theorem covered {reader : Reader} (within : reader.Within source) : (Lexer.mk reader false).Covered source := by
  generalize same : reader.ahead = behind
  induction behind using source_induction generalizing reader with
  | blank gap blank =>
    have whole : reader.ahead = gap ++ [] := by rw [same, List.append_nil]
    refine covered_of_final (next?_of_blank reader blank same) (.inl ⟨rfl, ?_⟩) (within.covers_gap blank whole)
    rw [Lexer.pos, (within.pos_advance whole).1, within.length, same, Nat.add_comm]
  | invalid gap byte rest blank high =>
    have here : (reader.advanceBy gap.length).ahead = byte :: rest := by simp [same]
    have place := (within.pos_advance same).1
    refine covered_of_final (next?_of_invalid reader blank high same) (.inr ⟨byte, ?_, ?_, ?_⟩)
      (within.covers_gap blank same)
    · rw [Lexer.pos, place]
    · rw [← List.head?_drop, Lexer.pos, (within.advanceBy _).drop_pos, here]
      rfl
    · exact Byte.isAscii_eq_false_iff.mp high
  | lexeme gap lexeme rest blank leads ih =>
    have read := next?_of_lexeme reader blank leads same
    have margin := within.covers_gap blank same
    have here : (reader.advanceBy gap.length).ahead = lexeme.bytes ++ rest := by simp [same]
    -- From here on the place is the one where the token starts.
    replace within := within.advanceBy gap.length
    rw [← Reader.advanceBy_advanceBy] at read
    generalize reader.advanceBy gap.length = token at *
    refine covered_of_token read rfl (decide_eq_false leads.kind_ne_eof) margin (within.fills_lexeme leads here)
      (ih (within.advanceBy _) ?_)
    rw [Reader.ahead_advanceBy, here, List.drop_left]

end Lexer

/-- The tokens of a scan cover the source up to its end or its first byte outside ASCII. -/
theorem scan_covers (source : List UInt8) :
    let spans := (Lexer.start source).spans
    ∃ last, (Lexer.start source).readings.getLast? = some last ∧ last.Closes source ∧
      Covers source 0 spans last.after.pos ∧
      spans.Pairwise (fun left right => left.stop ≤ right.start) ∧
      source.take last.after.pos = source.takeWhile (· < 0x80) ∧
      spans.flatMap Span.bytes = (source.takeWhile (· < 0x80)).filter (· ∉ whitespace) := by
  intro spans
  obtain ⟨last, ended, covers, closes⟩ := Lexer.covered (Reader.Within.start source)
  have reached : source.extract 0 last.after.pos = source.takeWhile (· < 0x80) :=
    (takeWhile_eq_extract covers.low closes.stops).symm
  refine ⟨last, ended, closes, covers, covers.ordered, ?_, ?_⟩
  · rw [← reached]
    rfl
  · rw [← reached]
    exact covers.flatMap_bytes

end MonkeyTokens
