import MonkeyTokens.Proofs.Spelling

/-! Scanning one source in front of another. The items of both stand one after the other, with offsets
moved, unless the last token of the first reaches its end and runs on into the second: then that token
comes out longer. Which byte a source ends in does not decide it, for a digit that ends a word runs on
into letters and one that ends a number does not. -/

namespace MonkeyTokens

/-- The last token of the source reaches the end of the source and joins the first byte behind it. -/
def RunsInto (source following : List UInt8) : Prop :=
  ∃ reading token next, (Lexer.start source).readings.dropLast.getLast? = some reading ∧
    reading.item = .token token ∧ reading.after.pos = source.length ∧
    following.head? = some next ∧ token.kind.Joins next

theorem not_runsInto {source following : List UInt8}
    (idle : ∀ next ∈ following.head?, Byte.isAscii next = false ∨ Byte.isBlank next = true) :
    ¬ RunsInto source following := by
  intro ⟨_, _, next, _, _, _, head, joins⟩
  obtain ⟨ascii, dark⟩ := joins.usable
  rcases idle next head with high | blank
  · rw [ascii] at high
    cases high
  · rw [dark] at blank
    cases blank

namespace Lexeme

theorem token_injective : Function.Injective token := by
  intro left right same
  obtain ⟨kinds, literals⟩ := Token.mk.inj same
  exact congrArg₂ mk kinds (Text.ofBytes_injective literals)

theorem scan_eq_cons_iff {lexeme : Lexeme} {gap rest : List UInt8} {items : List Item} (blank : Blank gap)
    (alone : lexeme.Leads []) :
    scan (gap ++ (lexeme.bytes ++ rest)) = .token lexeme.token :: items ↔
      lexeme.Leads rest ∧ items = (scan rest).map (.shift (gap.length + lexeme.bytes.length)) := by
  constructor
  · intro shown
    obtain ⟨first, tail, whole, ascii, dark, _⟩ := next?_cases alone
    rw [List.append_nil] at whole
    have usable := next?_of_usable (tail ++ rest) ascii dark
    rw [← List.cons_append, ← whole] at usable
    obtain ⟨behind, cut, leads⟩ := leads_of_next? usable
    rw [cut, scan_of_lexeme blank leads, List.cons.injEq, Item.token.injEq, token_injective.eq_iff] at shown
    obtain ⟨same, rfl⟩ := shown
    rw [same] at cut leads ⊢
    rw [List.append_cancel_left cut]
    exact ⟨leads, rfl⟩
  · rintro ⟨leads, rfl⟩
    exact scan_of_lexeme blank leads

theorem Leads.append_iff {lexeme : Lexeme} {rest following : List UInt8} (leads : lexeme.Leads rest) :
    lexeme.Leads (rest ++ following) ↔
      ¬ (rest = [] ∧ ∃ next ∈ following.head?, lexeme.kind.Joins next) := by
  obtain ⟨alone, stops⟩ := leads_iff.mp leads
  rw [leads_iff]
  cases rest with
  | nil => simp [alone]
  | cons next rest => simpa [alone] using stops

end Lexeme

theorem marks_ne_nil (source : List UInt8) : marks source ≠ [] := by
  induction source using source_induction with
  | blank gap blank => simp [marks_of_blank blank]
  | invalid gap byte rest blank high => simp [marks_of_invalid blank high]
  | lexeme gap lexeme rest blank leads ih => simp [marks_of_lexeme blank leads]

private theorem dropLast_marks {gap rest : List UInt8} {lexeme : Lexeme} (blank : Blank gap)
    (leads : lexeme.Leads rest) :
    (marks (gap ++ (lexeme.bytes ++ rest))).dropLast =
      ⟨.token lexeme.token, .token lexeme.kind gap.length, gap.length + lexeme.bytes.length⟩
        :: (marks rest).dropLast.map (.shift (gap.length + lexeme.bytes.length)) := by
  have behind : (marks rest).map (Mark.shift (gap.length + lexeme.bytes.length)) ≠ [] := by
    simpa using marks_ne_nil rest
  rw [marks_of_lexeme blank leads, List.dropLast_cons_of_ne_nil behind, List.map_dropLast]

private theorem dropLast_scan {gap rest : List UInt8} {lexeme : Lexeme} (blank : Blank gap)
    (leads : lexeme.Leads rest) :
    (scan (gap ++ (lexeme.bytes ++ rest))).dropLast =
      .token lexeme.token :: (scan rest).dropLast.map (.shift (gap.length + lexeme.bytes.length)) := by
  rw [scan_eq_marks, scan_eq_marks, ← List.map_dropLast, ← List.map_dropLast, dropLast_marks blank leads]
  simp [Mark.shift, Function.comp_def]

private theorem length_behind (gap bytes rest : List UInt8) :
    (gap ++ (bytes ++ rest)).length = rest.length + (gap.length + bytes.length) := by
  simp only [List.length_append]
  omega

private theorem runsInto_iff {source following : List UInt8} :
    RunsInto source following ↔ ∃ mark token next, (marks source).dropLast.getLast? = some mark ∧
      mark.item = .token token ∧ mark.stop = source.length ∧
      following.head? = some next ∧ token.kind.Joins next := by
  simp only [marks, Lexer.marks, ← List.map_dropLast, List.getLast?_map, Option.map_eq_some_iff]
  constructor
  · rintro ⟨reading, token, next, last, rest⟩
    exact ⟨reading.mark, token, next, ⟨reading, last, rfl⟩, rest⟩
  · rintro ⟨_, token, next, ⟨reading, last, rfl⟩, rest⟩
    exact ⟨reading, token, next, last, rest⟩

private theorem not_runsInto_blank {gap : List UInt8} (blank : Blank gap) (following : List UInt8) :
    ¬ RunsInto gap following := by
  simp [runsInto_iff, marks_of_blank blank]

private theorem runsInto_lexeme_iff {gap rest following : List UInt8} {lexeme : Lexeme} (blank : Blank gap)
    (leads : lexeme.Leads rest) :
    RunsInto (gap ++ (lexeme.bytes ++ rest)) following ↔
      (rest = [] ∧ ∃ next ∈ following.head?, lexeme.kind.Joins next) ∨ RunsInto rest following := by
  rw [runsInto_iff, runsInto_iff, dropLast_marks blank leads, length_behind, List.getLast?_cons, List.getLast?_map]
  cases last : (marks rest).dropLast.getLast? with
  | none => simp [Lexeme.token]
  | some mark =>
    have filled : rest ≠ [] := by
      intro empty
      rw [empty, marks_of_blank .nil] at last
      cases last
    have same (token : Token) : mark.item.shift (gap.length + lexeme.bytes.length) = .token token ↔
        mark.item = .token token := by
      cases mark.item <;> simp [Item.shift]
    simp [filled, same, Mark.shift]

/-- An ASCII source is blank, or leads to a lexeme with an ASCII source behind it. -/
@[elab_as_elim]
theorem ascii_induction {motive : (source : List UInt8) → (∀ byte ∈ source, byte < 0x80) → Prop}
    (blank : ∀ gap ascii, Blank gap → motive gap ascii)
    (lexeme : ∀ gap (lexeme : Lexeme) rest ascii behind, Blank gap → lexeme.Leads rest → motive rest behind →
      motive (gap ++ (lexeme.bytes ++ rest)) ascii)
    (source : List UInt8) (ascii : ∀ byte ∈ source, byte < 0x80) : motive source ascii := by
  induction source using source_induction with
  | blank gap free => exact blank gap ascii free
  | invalid gap byte rest _ high =>
    have low : byte < 0x80 := ascii byte (by simp)
    simp [Byte.isAscii, low] at high
  | lexeme gap taken rest free leads ih =>
    have behind : ∀ byte ∈ rest, byte < 0x80 := by
      intro byte member
      apply ascii
      simp [member]
    exact lexeme gap taken rest ascii behind free leads (ih behind)

theorem marks_append {source following : List UInt8} (ascii : ∀ byte ∈ source, byte < 0x80)
    (apart : ¬ RunsInto source following) :
    marks (source ++ following) =
      (marks source).dropLast ++ (marks following).map (.shift source.length) := by
  induction source, ascii using ascii_induction with
  | blank gap _ blank => simp [marks_margin blank, marks_of_blank blank]
  | lexeme gap lexeme rest _ _ blank leads ih =>
    rw [runsInto_lexeme_iff blank leads, not_or] at apart
    have taken := leads.append_iff.mpr apart.1
    rw [dropLast_marks blank leads, length_behind, List.append_assoc, List.append_assoc, marks_of_lexeme blank taken,
      ih apart.2]
    simp [Mark.shift_shift, Function.comp_def]

/-- A token that runs over the cut comes out longer than it stands in the first source. -/
private theorem scan_append_ne {source following : List UInt8} (runs : RunsInto source following) :
    scan (source ++ following) ≠ (scan source).dropLast ++ (scan following).map (.shift source.length) := by
  induction source using source_induction with
  | blank gap blank => exact absurd runs (not_runsInto_blank blank following)
  | invalid gap byte rest blank high => simp [runsInto_iff, marks_of_invalid blank high] at runs
  | lexeme gap lexeme rest blank leads ih =>
    intro shown
    rw [dropLast_scan blank leads, length_behind, List.append_assoc, List.append_assoc, List.cons_append,
      Lexeme.scan_eq_cons_iff blank (Lexeme.leads_iff.mp leads).1] at shown
    obtain ⟨taken, shown⟩ := shown
    rcases (runsInto_lexeme_iff blank leads).mp runs with joins | runs
    · exact leads.append_iff.mp taken joins
    · apply ih runs
      rw [← Item.map_shift_inj, ← shown]
      simp [Item.shift_shift, Function.comp_def]

theorem scan_append {source following : List UInt8} (ascii : ∀ byte ∈ source, byte < 0x80)
    (apart : ¬ RunsInto source following) :
    scan (source ++ following) = (scan source).dropLast ++ (scan following).map (.shift source.length) := by
  rw [scan_eq_marks, scan_eq_marks, scan_eq_marks, marks_append ascii apart, List.map_append, List.map_dropLast]
  simp [Mark.shift, Function.comp_def]

theorem scan_ascii {source : List UInt8} (ascii : ∀ byte ∈ source, byte < 0x80) :
    ∃ tokens : List Token, scan source = tokens.map Item.token ++ [.token .eof] := by
  induction source, ascii using ascii_induction with
  | blank gap _ blank => exact ⟨[], scan_of_blank blank⟩
  | lexeme gap lexeme rest _ _ blank leads ih =>
    obtain ⟨tokens, shown⟩ := ih
    refine ⟨lexeme.token :: tokens, ?_⟩
    rw [scan_of_lexeme blank leads, shown]
    simp

namespace Item

@[simp] theorem isFinal_shift (distance : Nat) (item : Item) : (item.shift distance).isFinal = item.isFinal := by
  cases item <;> rfl

/-- Items that end with the first final one. -/
inductive Closed : List Item → Prop where
  | last {item : Item} (final : item.isFinal = true) : Closed [item]
  | more {item : Item} {items : List Item} (passing : item.isFinal = false) (rest : Closed items) :
      Closed (item :: items)

namespace Closed

theorem shift {items : List Item} (closed : Closed items) (distance : Nat) :
    Closed (items.map (.shift distance)) := by
  induction closed with
  | last final =>
    apply last
    rwa [isFinal_shift]
  | more passing _ ih =>
    refine more ?_ ih
    rwa [isFinal_shift]

theorem ne_nil {items : List Item} (closed : Closed items) : items ≠ [] := by
  cases closed <;> simp

/-- Of closed items only the last is final. -/
theorem passing {items : List Item} (closed : Closed items) : ∀ item ∈ items.dropLast, item.isFinal = false := by
  induction closed with
  | last => simp
  | more passing rest ih =>
    rw [List.dropLast_cons_of_ne_nil rest.ne_nil]
    exact List.forall_mem_cons.mpr ⟨passing, ih⟩

end Closed

end Item

theorem scan_closed (source : List UInt8) : Item.Closed (scan source) := by
  induction source using source_induction with
  | blank gap blank =>
    rw [scan_of_blank blank]
    exact .last rfl
  | invalid gap byte rest blank high =>
    rw [scan_of_invalid blank high]
    exact .last rfl
  | lexeme gap lexeme rest blank leads ih =>
    rw [scan_of_lexeme blank leads]
    exact .more (decide_eq_false leads.kind_ne_eof) (ih.shift _)

/-- The first byte outside ASCII ends a scan, whatever comes after it. -/
theorem scan_append_high {source rest : List UInt8} {byte : UInt8} (ascii : ∀ byte ∈ source, byte < 0x80)
    (high : Byte.isAscii byte = false) :
    scan (source ++ byte :: rest) = (scan source).dropLast ++ [.invalid ⟨byte, source.length⟩] := by
  have invalid : scan (byte :: rest) = [.invalid ⟨byte, 0⟩] := scan_of_invalid .nil high
  rw [scan_append ascii (not_runsInto (by simp [high])), invalid]
  simp [Item.shift]

theorem ascii_or_high (source : List UInt8) :
    (∀ byte ∈ source, byte < 0x80) ∨ ∃ before byte rest, source = before ++ byte :: rest ∧
      (∀ byte ∈ before, byte < 0x80) ∧ Byte.isAscii byte = false := by
  induction source with
  | nil => exact .inl (by simp)
  | cons byte source ih =>
    cases ascii : Byte.isAscii byte with
    | false => exact .inr ⟨[], byte, source, rfl, by simp, ascii⟩
    | true =>
      have low : byte < 0x80 := by simpa [Byte.isAscii] using ascii
      rcases ih with all | ⟨before, bad, rest, rfl, all, high⟩
      · exact .inl (List.forall_mem_cons.mpr ⟨low, all⟩)
      · exact .inr ⟨byte :: before, bad, rest, rfl, List.forall_mem_cons.mpr ⟨low, all⟩, high⟩

theorem scan_append_blank (source : List UInt8) {gap : List UInt8} (blank : Blank gap) :
    scan (source ++ gap) = scan source := by
  rcases ascii_or_high source with ascii | ⟨before, byte, rest, rfl, ascii, high⟩
  · have apart : ¬ RunsInto source gap := by
      apply not_runsInto
      intro next head
      exact .inr (Byte.mem_whitespace.mp (blank next (List.mem_of_mem_head? head)))
    obtain ⟨tokens, shown⟩ := scan_ascii ascii
    rw [scan_append ascii apart, scan_of_blank blank, shown, List.dropLast_concat]
    rfl
  · rw [List.append_assoc, List.cons_append, scan_append_high ascii high, scan_append_high ascii high]

/-- An ASCII source is scanned to its end, and it may be scanned in front of another one, end left out,
exactly where no token runs over the cut. -/
theorem scan_append_iff {source : List UInt8} (ascii : ∀ byte ∈ source, byte < 0x80) (following : List UInt8) :
    (scan source).getLast? = some (.token .eof) ∧
      (scan (source ++ following) = (scan source).dropLast ++ (scan following).map (.shift source.length) ↔
        ¬ RunsInto source following) := by
  refine ⟨?_, ?_⟩
  · obtain ⟨tokens, shown⟩ := scan_ascii ascii
    rw [shown, List.getLast?_concat]
  · constructor
    · intro shown runs
      exact scan_append_ne runs shown
    · exact scan_append ascii

/-- A digit at the cut joins `b` where it ends a word, and leaves it alone where it ends a number. -/
theorem scan_append_digit_word :
    (∀ byte ∈ Text.utf8 "a12", byte < 0x80) ∧ (∀ byte ∈ Text.utf8 "12", byte < 0x80) ∧
      RunsInto (Text.utf8 "a12") (Text.utf8 "b") ∧ ¬ RunsInto (Text.utf8 "12") (Text.utf8 "b" ++ [0xFF]) := by
  have word : ∀ byte ∈ Text.utf8 "a12", byte < 0x80 := by decide +kernel
  have number : ∀ byte ∈ Text.utf8 "12", byte < 0x80 := by decide +kernel
  refine ⟨word, number, ?_, ?_⟩
  · apply Classical.not_not.mp
    rw [← (scan_append_iff word (Text.utf8 "b")).2]
    decide +kernel
  · rw [← (scan_append_iff number (Text.utf8 "b" ++ [0xFF])).2]
    decide +kernel

end MonkeyTokens
