import MonkeyTokens.Lexing.TokenStream
import MonkeyTokens.Proofs.Coverage

/-! Streams that are asked for any number of items. A stream on a lexer that has not ended hands out what
the lexer itself would give, up to the first final item, and is finished from then on. A stream on a lexer
that has ended refuses every time and never gets any further. -/

namespace MonkeyTokens

/-- The bytes that tokens are made of: those before the first one outside ASCII, white space left out. -/
def visible (source : List UInt8) : List UInt8 := (source.takeWhile (· < 0x80)).filter (· ∉ whitespace)

namespace TokenStream

/-- The stream as one more request leaves it. It does not change where it is finished or refuses. -/
def proceed (stream : TokenStream) : TokenStream :=
  match stream.pull with
  | .item _ rest => rest
  | .finished | .refused => stream

/-- The stream as a number of requests leave it. -/
def after (stream : TokenStream) : Nat → TokenStream
  | 0 => stream
  | count + 1 => (stream.after count).proceed

/-- Asked again and again, a stream on the lexer hands out `total` items, which are those of the lexer, and
of them only the last is final. -/
structure Delivers (lexer : Lexer) (total : Nat) : Prop where
  some_item : 0 < total
  items : ∀ n < total, ∃ reading rest, (lexer.after n).next? = some reading ∧
    ((ofLexer lexer).after n).pull = .item reading rest ∧ (reading.item.isFinal = true ↔ n + 1 = total)
  finished : ∀ n, total ≤ n → ((ofLexer lexer).after n).pull = .finished
  counts : ∀ n, ((ofLexer lexer).after n).count? = some (total - n)

/-- Asked again and again, the stream refuses. -/
structure Refuses (stream : TokenStream) : Prop where
  refused : ∀ n, (stream.after n).pull = .refused
  unfinished : ∀ n, (stream.after n).finished = false
  uncounted : ∀ n, (stream.after n).count? = none

end TokenStream

namespace Lexer

theorem after_succ (lexer : Lexer) (count : Nat) : lexer.after (count + 1) = lexer.proceed.after count := by
  induction count with
  | zero => rfl
  | succ count ih => rw [after, ih, after]

theorem proceed_of_next? {lexer : Lexer} {reading : Reading} (read : lexer.next? = some reading) :
    lexer.proceed = reading.after := by
  rw [proceed, read]
  rfl

end Lexer

namespace TokenStream

theorem after_succ (stream : TokenStream) (count : Nat) :
    stream.after (count + 1) = stream.proceed.after count := by
  induction count with
  | zero => rfl
  | succ count ih => rw [after, ih, after]

theorem after_of_still {stream : TokenStream} (still : stream.proceed = stream) (count : Nat) :
    stream.after count = stream := by
  induction count with
  | zero => rfl
  | succ count ih => rw [after, ih, still]

section

variable {lexer : Lexer} {reading : Reading}

theorem proceed_ofLexer (read : lexer.next? = some reading) :
    (ofLexer lexer).proceed = ⟨reading.after, reading.item.isFinal⟩ := by
  rw [proceed, pull_ofLexer read]

theorem after_finished (lexer : Lexer) (count : Nat) : (TokenStream.mk lexer true).after count = ⟨lexer, true⟩ :=
  after_of_still rfl count

private theorem delivers_last (fresh : lexer.ended = false) (read : lexer.next? = some reading)
    (final : reading.item.isFinal = true) : Delivers lexer 1 := by
  have behind (n : Nat) : (ofLexer lexer).after (n + 1) = ⟨reading.after, true⟩ := by
    rw [after_succ, proceed_ofLexer read, final, after_finished]
  refine ⟨Nat.one_pos, ?_, ?_, ?_⟩
  · intro n first
    obtain rfl := Nat.lt_one_iff.mp first
    exact ⟨reading, _, read, pull_ofLexer read, by simp [final]⟩
  · intro n later
    obtain ⟨n, rfl⟩ := Nat.exists_eq_add_of_le' later
    rw [behind]
    rfl
  · intro n
    cases n with
    | zero =>
      rw [after, count?_ofLexer fresh, Lexer.readings_of_final read final]
      rfl
    | succ n =>
      rw [behind, count?_finished, Nat.sub_eq_zero_of_le (Nat.le_add_left 1 n)]

private theorem delivers_more {total : Nat} (fresh : lexer.ended = false) (behind : reading.after.ended = false)
    (read : lexer.next? = some reading) (more : reading.item.isFinal = false)
    (rest : Delivers reading.after total) : Delivers lexer (total + 1) := by
  -- From the second request on, the stream is the one on the lexer that the first reading leaves.
  have next (n : Nat) : (ofLexer lexer).after (n + 1) = (ofLexer reading.after).after n := by
    rw [after_succ, proceed_ofLexer read, more]
    rfl
  have length : reading.after.readings.length = total := by
    have counted := rest.counts 0
    rwa [after, count?_ofLexer behind, Option.some.injEq] at counted
  refine ⟨Nat.succ_pos _, ?_, ?_, ?_⟩
  · intro n inside
    cases n with
    | zero =>
      have some_item := rest.some_item
      exact ⟨reading, _, read, pull_ofLexer read, by simp [more]; omega⟩
    | succ n =>
      obtain ⟨found, others, given, pulled, last⟩ := rest.items n (by omega)
      rw [next, Lexer.after_succ, Lexer.proceed_of_next? read]
      exact ⟨found, others, given, pulled, by rw [last]; omega⟩
  · intro n later
    obtain ⟨n, rfl⟩ := Nat.exists_eq_add_of_le' (Nat.le_of_add_left_le later)
    rw [next]
    exact rest.finished n (by omega)
  · intro n
    cases n with
    | zero =>
      rw [after, count?_ofLexer fresh, Lexer.readings_of_more read more, List.length_cons, length, Nat.sub_zero]
    | succ n => rw [next, rest.counts, Nat.add_sub_add_right]

theorem delivers (fresh : lexer.ended = false) : Delivers lexer lexer.readings.length := by
  induction lexer, fresh using Lexer.readings_induction with
  | last lexer reading fresh read final =>
    rw [Lexer.readings_of_final read final]
    exact delivers_last fresh read final
  | more lexer reading fresh behind read more ih =>
    rw [Lexer.readings_of_more read more]
    exact delivers_more fresh behind read more ih

theorem refuses (ended : lexer.ended = true) : Refuses (ofLexer lexer) := by
  have pulled : (ofLexer lexer).pull = .refused := by simp [ofLexer, pull, Lexer.next?_eq_none_iff.mpr ended]
  have still (n : Nat) : (ofLexer lexer).after n = ofLexer lexer := after_of_still (by rw [proceed, pulled]) n
  refine ⟨?_, ?_, ?_⟩ <;> intro n <;> rw [still]
  · exact pulled
  · rfl
  · exact (count?_eq_none_iff _).mpr pulled

end

end TokenStream

theorem visible_append {front : List UInt8} (low : ∀ byte ∈ front, byte < 0x80) (rest : List UInt8) :
    visible (front ++ rest) = front.filter (· ∉ whitespace) ++ visible rest := by
  rw [visible, List.takeWhile_append_of_pos (by simpa using low), List.filter_append]
  rfl

/-- Every token takes a byte that does not separate. -/
theorem length_marks_le (source : List UInt8) : (marks source).length ≤ 1 + (visible source).length := by
  induction source using source_induction with
  | blank gap blank => simp [marks_of_blank blank]
  | invalid gap byte rest blank high => simp [marks_of_invalid blank high]
  | lexeme gap lexeme rest blank leads ih =>
    have whole : lexeme.bytes.filter (· ∉ whitespace) = lexeme.bytes := by simpa using leads.dark
    have filled := List.length_pos_iff.mpr leads.nonempty
    rw [marks_of_lexeme blank leads, visible_append blank.ascii, visible_append leads.ascii, whole]
    simp only [List.length_cons, List.length_map, List.length_append]
    omega

theorem Lexer.length_readings_le {source : List UInt8} {lexer : Lexer} (reads : Reads source lexer)
    (fresh : lexer.ended = false) : lexer.readings.length ≤ 1 + (visible (source.drop lexer.pos)).length := by
  obtain ⟨reader, ended⟩ := lexer
  subst fresh
  have length := congrArg List.length (marks_eq_shift reader)
  rw [Lexer.marks, List.length_map, List.length_map] at length
  rw [length, Lexer.pos, reads.within.drop_pos]
  exact length_marks_le reader.ahead

/-- Whatever run led to its lexer, a stream hands out the items that the lexer would give, or it refuses
for good where the lexer had ended. -/
theorem stream_delivers_or_refuses (source : List UInt8) (steps : Nat) :
    let lexer := (Lexer.start source).after steps
    let stream := TokenStream.ofLexer lexer
    (lexer.ended = false → ∃ total, TokenStream.Delivers lexer total ∧
      total ≤ 1 + (visible (source.drop lexer.pos)).length) ∧
    (lexer.ended = true → stream.Refuses) ∧
    ∀ n, (stream.after n).count? = none ↔ (stream.after n).pull = .refused := by
  intro lexer stream
  refine ⟨?_, ?_, ?_⟩
  · intro fresh
    have reads := (Lexer.Reads.start source).after steps
    exact ⟨_, TokenStream.delivers fresh, Lexer.length_readings_le reads fresh⟩
  · exact TokenStream.refuses
  · intro n
    exact TokenStream.count?_eq_none_iff _

/-- A stream on a lexer that has read a name still hands out the sign behind it and the invalid byte behind
that; a stream on a lexer that has read the end token hands out nothing. -/
theorem stream_delivers_or_refuses_middle :
    let source := [0x78, 0x20, 0x3D, 0x20, 0xC3, 0x31]
    let middle := (Lexer.start source).after 1
    let ended := (Lexer.start (Text.utf8 "1 ")).after 3
    middle.ended = false ∧ (visible (source.drop middle.pos)).length = 1 ∧
      (∃ total ≤ 2, TokenStream.Delivers middle total) ∧ (TokenStream.ofLexer middle).count? = some 2 ∧
      ended.ended = true ∧ (TokenStream.ofLexer ended).Refuses := by
  intro source middle ended
  have fresh : middle.ended = false := by decide +kernel
  have closed : ended.ended = true := by decide +kernel
  have seen : (visible (source.drop middle.pos)).length = 1 := by decide +kernel
  obtain ⟨delivers, _⟩ := stream_delivers_or_refuses source 1
  obtain ⟨total, delivered, bound⟩ := delivers fresh
  rw [seen] at bound
  exact ⟨fresh, seen, ⟨total, bound, delivered⟩, by decide +kernel, closed,
    (stream_delivers_or_refuses (Text.utf8 "1 ") 3).2.1 closed⟩

end MonkeyTokens
