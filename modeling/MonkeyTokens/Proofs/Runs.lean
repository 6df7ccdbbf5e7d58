import MonkeyTokens.Proofs.Marks

/-! Runs of a lexer: it is read any number of times, whatever the readings give. After the end token it
refuses for good, and at an invalid byte it stays for good, so it never comes to the end behind one. -/

namespace MonkeyTokens

/-- All that a reading can come to, with the bytes ahead that decide it. -/
inductive Reader.Yields (reader : Reader) : Reading → Prop where
  | finish (blank : Blank reader.ahead) :
      Yields reader ⟨.token .eof, .endOfInput (reader.ahead.length + reader.pos),
        ⟨reader.advanceBy reader.ahead.length, true⟩⟩
  | invalid {gap rest : List UInt8} {byte : UInt8} (blank : Blank gap) (high : Byte.isAscii byte = false)
      (ahead : reader.ahead = gap ++ byte :: rest) :
      Yields reader ⟨.invalid ⟨byte, gap.length + reader.pos⟩, .invalidByte byte (gap.length + reader.pos),
        ⟨reader.advanceBy gap.length, false⟩⟩
  | lexeme {gap rest : List UInt8} {lexeme : Lexeme} (blank : Blank gap) (leads : lexeme.Leads rest)
      (ahead : reader.ahead = gap ++ (lexeme.bytes ++ rest)) :
      Yields reader ⟨.token lexeme.token, .token lexeme.kind (gap.length + reader.pos),
        ⟨reader.advanceBy (gap.length + lexeme.bytes.length), false⟩⟩

/-- The place is one in the source. -/
structure Reader.Within (source : List UInt8) (reader : Reader) : Prop where
  whole : reader.source = source

namespace Reader.Within

variable {source : List UInt8} {reader : Reader}

theorem start (source : List UInt8) : Within source (.start source) := ⟨rfl⟩

theorem advanceBy (within : Within source reader) (count : Nat) : Within source (reader.advanceBy count) :=
  ⟨(source_advanceBy reader count).trans within.whole⟩

theorem length (within : Within source reader) : source.length = reader.pos + reader.ahead.length := by
  rw [← within.whole, Reader.source, List.length_append, List.length_reverse, reader.counted]

theorem pos_le (within : Within source reader) : reader.pos ≤ source.length := by
  rw [within.length]
  exact Nat.le_add_right _ _

theorem drop_pos (within : Within source reader) : source.drop reader.pos = reader.ahead := by
  rw [← within.whole, Reader.source, reader.counted, ← List.length_reverse, List.drop_left]

theorem head?_ahead (within : Within source reader) : reader.ahead.head? = source[reader.pos]? := by
  rw [← within.drop_pos, List.head?_drop]

end Reader.Within

namespace Lexer

theorem next?_yields (reader : Reader) :
    ∃ reading, (Lexer.mk reader false).next? = some reading ∧ reader.Yields reading := by
  generalize same : reader.ahead = source
  cases source using source_induction with
  | blank gap blank =>
    subst same
    exact ⟨_, next?_of_blank reader blank rfl, .finish blank⟩
  | invalid gap byte rest blank high =>
    exact ⟨_, next?_of_invalid reader blank high same, .invalid blank high same⟩
  | lexeme gap lexeme rest blank leads =>
    exact ⟨_, next?_of_lexeme reader blank leads same, .lexeme blank leads same⟩

theorem yields_of_next? {lexer : Lexer} {reading : Reading} (read : lexer.next? = some reading) :
    lexer.ended = false ∧ lexer.reader.Yields reading := by
  obtain ⟨reader, ended⟩ := lexer
  cases ended with
  | true => cases read
  | false =>
    obtain ⟨other, found, yields⟩ := next?_yields reader
    obtain rfl := Option.some.inj (found.symm.trans read)
    exact ⟨rfl, yields⟩

/-- What a reading gives, or nothing where the lexer refuses. -/
def item? (lexer : Lexer) : Option Item := lexer.next?.map Reading.item

/-- The lexer as a reading leaves it. One that refuses does nothing else. -/
def proceed (lexer : Lexer) : Lexer := (lexer.next?.map Reading.after).getD lexer

/-- The lexer as a number of readings leave it, refusals included. -/
def after (lexer : Lexer) : Nat → Lexer
  | 0 => lexer
  | count + 1 => (lexer.after count).proceed

def GivesEnd (lexer : Lexer) : Prop := ∃ token, lexer.item? = some (.token token) ∧ token.isEof = true

end Lexer

/-- The laws of runs on a source. Reading number `n`, counted from zero, takes `state n` to
`state (n + 1)`. -/
structure RunLaws (source : List UInt8) (state : Nat → Lexer) : Prop where
  inside : ∀ n, (state n).pos ≤ source.length
  forward : ∀ m n, m ≤ n → (state m).pos ≤ (state n).pos
  tokens_advance : ∀ n token, (state n).item? = some (.token token) → token.isEof = false →
    (state n).pos < (state (n + 1)).pos
  ended_iff : ∀ n, (state n).ended = true ↔ ∃ m < n, (state m).GivesEnd
  ended_pos : ∀ n, (state n).ended = true → (state n).pos = source.length
  refuses_iff : ∀ n, (state n).item? = none ↔ (state n).ended = true
  refusal_idle : ∀ n, (state n).item? = none → state (n + 1) = state n
  end_once : ∀ m n, (state m).GivesEnd → (state n).GivesEnd → m = n
  invalid_stays : ∀ n bad, (state n).item? = some (.invalid bad) →
    (state (n + 1)).pos = bad.pos ∧ (state (n + 1)).ended = false ∧ source[bad.pos]? = some bad.byte ∧
      ∀ later, n < later → (state later).item? = some (.invalid bad) ∧ state later = state (n + 1)

namespace Lexer

variable {source : List UInt8} {lexer : Lexer}

theorem item?_eq_none_iff : lexer.item? = none ↔ lexer.ended = true := by
  rw [item?, Option.map_eq_none_iff, next?_eq_none_iff]

/-- A lexer refuses and stays, or it reads. -/
theorem reading_cases (lexer : Lexer) :
    (lexer.item? = none ∧ lexer.ended = true ∧ lexer.proceed = lexer) ∨
      ∃ reading, lexer.reader.Yields reading ∧ lexer.item? = some reading.item ∧ lexer.ended = false ∧
        lexer.proceed = reading.after := by
  cases read : lexer.next? with
  | none => exact .inl ⟨by simp [item?, read], next?_eq_none_iff.mp read, by simp [proceed, read]⟩
  | some reading =>
    obtain ⟨fresh, yields⟩ := yields_of_next? read
    exact .inr ⟨reading, yields, by simp [item?, read], fresh, by simp [proceed, read]⟩

theorem pos_le_proceed (lexer : Lexer) : lexer.pos ≤ lexer.proceed.pos := by
  rcases lexer.reading_cases with ⟨_, _, stays⟩ | ⟨reading, yields, _, _, moves⟩
  · rw [stays]
  · rw [moves]
    cases yields <;> simp [Lexer.pos]

theorem pos_lt_proceed {token : Token} (given : lexer.item? = some (.token token))
    (more : token.isEof = false) : lexer.pos < lexer.proceed.pos := by
  rcases lexer.reading_cases with ⟨refused, _, _⟩ | ⟨reading, yields, found, _, moves⟩
  · cases given.symm.trans refused
  · rw [moves]
    obtain same := Option.some.inj (found.symm.trans given)
    cases yields with
    | finish blank =>
      cases same
      cases more
    | invalid blank high ahead => cases same
    | @lexeme gap rest lexeme blank leads ahead =>
      have filled := List.length_pos_iff.mpr leads.nonempty
      simp only [Lexer.pos, Reader.pos_advanceBy, ahead, List.length_append]
      omega

theorem ended_proceed (lexer : Lexer) :
    lexer.proceed.ended = true ↔ lexer.ended = true ∨ lexer.GivesEnd := by
  rcases lexer.reading_cases with ⟨refused, ended, stays⟩ | ⟨reading, yields, found, fresh, moves⟩
  · simp [stays, ended]
  · rw [moves, fresh, GivesEnd, found]
    cases yields with
    | finish blank => simp [Token.isEof, Token.eof]
    | invalid blank high ahead => simp
    | lexeme blank leads ahead => simpa [Token.isEof, Lexeme.token] using leads.kind_ne_eof

/-- An invalid byte is not passed, so the next reading meets it again. -/
theorem proceed_of_invalid {bad : InvalidByte} (given : lexer.item? = some (.invalid bad)) :
    lexer.proceed.pos = bad.pos ∧ lexer.proceed.ended = false ∧
      lexer.proceed.reader.ahead.head? = some bad.byte ∧
      lexer.proceed.item? = some (.invalid bad) ∧ lexer.proceed.proceed = lexer.proceed := by
  rcases lexer.reading_cases with ⟨refused, _, _⟩ | ⟨reading, yields, found, _, moves⟩
  · cases given.symm.trans refused
  · rw [moves]
    obtain same := Option.some.inj (found.symm.trans given)
    cases yields with
    | finish blank => cases same
    | lexeme blank leads ahead => cases same
    | @invalid gap rest byte blank high ahead =>
      cases same
      have behind : (lexer.reader.advanceBy gap.length).ahead = byte :: rest := by simp [ahead]
      have place : gap.length + lexer.reader.pos = (lexer.reader.advanceBy gap.length).pos := by
        simp [ahead, Nat.add_comm]
      rw [place]
      generalize lexer.reader.advanceBy gap.length = here at behind
      have again := next?_of_invalid here .nil high behind
      refine ⟨rfl, rfl, by simp [behind], ?_, ?_⟩
      · simp [item?, again]
      · simp [proceed, again, Reader.advanceBy]

/-- A lexer on its way through a source. -/
structure Reads (source : List UInt8) (lexer : Lexer) : Prop where
  within : Reader.Within source lexer.reader
  finished : lexer.ended = true → lexer.reader.ahead = []

namespace Reads

theorem start (source : List UInt8) : Reads source (.start source) := ⟨.start source, nofun⟩

theorem proceed (reads : Reads source lexer) : Reads source lexer.proceed := by
  rcases lexer.reading_cases with ⟨_, _, stays⟩ | ⟨reading, yields, _, _, moves⟩
  · rwa [stays]
  · rw [moves]
    cases yields with
    | finish blank => exact ⟨reads.within.advanceBy _, by simp⟩
    | invalid blank high ahead => exact ⟨reads.within.advanceBy _, nofun⟩
    | lexeme blank leads ahead => exact ⟨reads.within.advanceBy _, nofun⟩

theorem after (reads : Reads source lexer) (count : Nat) : Reads source (lexer.after count) := by
  induction count with
  | zero => exact reads
  | succ count ih => exact ih.proceed

theorem pos_le (reads : Reads source lexer) : lexer.pos ≤ source.length := reads.within.pos_le

theorem pos_eq (reads : Reads source lexer) (ended : lexer.ended = true) : lexer.pos = source.length := by
  rw [reads.within.length, reads.finished ended]
  rfl

end Reads

theorem pos_after_mono (lexer : Lexer) {m n : Nat} (earlier : m ≤ n) :
    (lexer.after m).pos ≤ (lexer.after n).pos := by
  induction n, earlier using Nat.le_induction with
  | base => exact Nat.le_refl _
  | succ n _ ih => exact Nat.le_trans ih (pos_le_proceed _)

theorem ended_after_iff (fresh : lexer.ended = false) (count : Nat) :
    (lexer.after count).ended = true ↔ ∃ m < count, (lexer.after m).GivesEnd := by
  induction count with
  | zero => simp [after, fresh]
  | succ count ih =>
    rw [after, ended_proceed, ih, Nat.exists_lt_succ_right]

theorem GivesEnd.after_lt (fresh : lexer.ended = false) {m n : Nat} (earlier : m < n)
    (first : (lexer.after m).GivesEnd) : ¬ (lexer.after n).GivesEnd := by
  rintro ⟨token, given, _⟩
  have ended := (ended_after_iff fresh n).mpr ⟨m, earlier, first⟩
  rw [item?_eq_none_iff.mpr ended] at given
  cases given

theorem after_invalid {bad : InvalidByte} {n later : Nat} (given : (lexer.after n).item? = some (.invalid bad))
    (behind : n < later) :
    (lexer.after later).item? = some (.invalid bad) ∧ lexer.after later = lexer.after (n + 1) := by
  obtain ⟨_, _, _, again, stays⟩ := proceed_of_invalid given
  induction later, behind using Nat.le_induction with
  | base => exact ⟨again, rfl⟩
  | succ later _ ih =>
    have still : lexer.after (later + 1) = lexer.after (n + 1) := by
      rw [after, ih.2]
      exact stays
    exact ⟨by rw [still]; exact again, still⟩

end Lexer

/-- Every run from the start of a source obeys the laws. -/
theorem runLaws_start (source : List UInt8) : RunLaws source (Lexer.start source).after where
  inside n := ((Lexer.Reads.start source).after n).pos_le
  forward _ _ earlier := Lexer.pos_after_mono _ earlier
  tokens_advance _ _ given more := Lexer.pos_lt_proceed given more
  ended_iff n := Lexer.ended_after_iff rfl n
  ended_pos n ended := ((Lexer.Reads.start source).after n).pos_eq ended
  refuses_iff _ := Lexer.item?_eq_none_iff
  refusal_idle n refused := by
    rcases ((Lexer.start source).after n).reading_cases with ⟨_, _, stays⟩ | ⟨_, _, found, _⟩
    · exact stays
    · cases found.symm.trans refused
  end_once m n first last := by
    rcases Nat.lt_trichotomy m n with earlier | same | later
    · exact absurd last (first.after_lt rfl earlier)
    · exact same
    · exact absurd first (last.after_lt rfl later)
  invalid_stays n bad given := by
    obtain ⟨place, fresh, here, _, _⟩ := Lexer.proceed_of_invalid given
    have within := ((Lexer.Reads.start source).after n).proceed.within
    refine ⟨place, fresh, ?_, fun _ behind => Lexer.after_invalid given behind⟩
    rw [← place, ← List.head?_drop, Lexer.pos, within.drop_pos]
    exact here

end MonkeyTokens
