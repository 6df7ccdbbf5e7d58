import MonkeyTokens.Proofs.EventTiming
import MonkeyTokens.Proofs.LiveLexer
import MonkeyTokens.Proofs.Streams

/-! The log of a lexer as an index of its source. Every call that does not fail adds one event, which says
what was found and where. The offsets of a log grow from event to event, but for an invalid byte, which is
logged at the same place as often as the lexer is called there. -/

namespace MonkeyTokens

/-- Where in its source an event is. -/
def Event.pos? : Event → Option Nat
  | token _ pos | endOfInput pos | invalidByte _ pos => some pos
  | inputClosed | lexingFile _ _ => none

/-- The later event is further on, or it tells of the same invalid byte once more. -/
inductive Event.Precedes : Event → Event → Prop where
  | further {former latter : Event} {here there : Nat} (first : former.pos? = some here)
      (second : latter.pos? = some there) (forward : here < there) : Precedes former latter
  | again (byte : UInt8) (pos : Nat) : Precedes (.invalidByte byte pos) (.invalidByte byte pos)

/-- How the calls of a run on a source are logged. Call number `n`, counted from zero, takes `state n` to
`state (n + 1)`. -/
structure IndexLaws (source : List UInt8) (state : Nat → Logged) : Prop where
  /-- The calls are those that a lexer on the source answers. -/
  readings : ∀ n, let lexer := (Lexer.start source).after
    (state n).given? = (lexer n).item? ∧ (state n).lexer = lexer n ∧
      (state n).log = (List.range n).filterMap fun m => (lexer m).next?.map Reading.event
  refused : ∀ n, (state n).given? = none → state (n + 1) = state n
  token : ∀ n token, (state n).given? = some (.token token) → token.isEof = false → ∃ pos,
    let event := Event.token token.kind pos
    let bytes := Text.utf8 token.literal
    (state (n + 1)).log = (state n).log ++ [event] ∧ event.level = .trace ∧ event.message = "token" ∧
      source.extract pos (pos + bytes.length) = bytes ∧ (state (n + 1)).lexer.pos = pos + bytes.length
  finish : ∀ n token, (state n).given? = some (.token token) → token.isEof = true →
    let event := Event.endOfInput source.length
    (state (n + 1)).log = (state n).log ++ [event] ∧ event.level = .debug ∧ event.message = "end of input"
  invalid : ∀ n bad, (state n).given? = some (.invalid bad) →
    let event := Event.invalidByte bad.byte bad.pos
    (state (n + 1)).log = (state n).log ++ [event] ∧ event.level = .debug ∧ event.message = "invalid ASCII byte"
  counted : ∀ n, (state n).log.length = (List.range n).countP fun m => (state m).given?.isSome
  ordered : ∀ n, (state n).log.Pairwise Event.Precedes

namespace Reading.Told

variable {source : List UInt8} {reading : Reading}

theorem of_token (told : reading.Told source) {token : Token} (item : reading.item = .token token)
    (proper : token.isEof = false) : ∃ pos,
      reading.event = .token token.kind pos ∧
        source.extract pos (pos + (Text.utf8 token.literal).length) = Text.utf8 token.literal ∧
        reading.after.pos = pos + (Text.utf8 token.literal).length := by
  cases told with
  | @token span found fills event =>
    simp only [Reading.span?, item, proper, Bool.false_eq_true, if_false, Option.some.injEq] at found
    subst found
    refine ⟨_, event, ?_, fills.length.symm⟩
    have slice := fills.slice
    rwa [← fills.length] at slice
  | finish last _ =>
    cases item.symm.trans last
    cases proper
  | invalid bad _ _ _ => cases item.symm.trans bad

theorem of_eof (told : reading.Told source) {token : Token} (item : reading.item = .token token)
    (ended : token.isEof = true) : reading.event = .endOfInput source.length := by
  cases told with
  | token found _ _ => simp [Reading.span?, item, ended] at found
  | finish _ event => exact event
  | invalid bad _ _ _ => cases item.symm.trans bad

theorem of_invalid (told : reading.Told source) {bad : InvalidByte} (item : reading.item = .invalid bad) :
    reading.event = .invalidByte bad.byte bad.pos := by
  cases told with
  | token found _ _ => simp [Reading.span?, item] at found
  | finish last _ => cases item.symm.trans last
  | invalid other _ _ event =>
    cases item.symm.trans other
    exact event

end Reading.Told

namespace Lexer

variable {source : List UInt8} {lexer : Lexer} {reading : Reading}

theorem mem_readings (read : lexer.next? = some reading) : reading ∈ lexer.readings := by
  cases final : reading.item.isFinal with
  | true => simp [readings_of_final read final]
  | false => simp [readings_of_more read final]

/-- A reading is logged where the lexer stands or further on. -/
theorem pos_le_event (read : lexer.next? = some reading) :
    ∃ pos, reading.event.pos? = some pos ∧ lexer.pos ≤ pos := by
  obtain ⟨_, yields⟩ := yields_of_next? read
  cases yields with
  | finish blank => exact ⟨_, rfl, Nat.le_add_left _ _⟩
  | invalid blank high ahead => exact ⟨_, rfl, Nat.le_add_left _ _⟩
  | lexeme blank leads ahead => exact ⟨_, rfl, Nat.le_add_left _ _⟩

/-- Behind the event of a token the lexer has moved on, behind that of the end it refuses, and behind that of
an invalid byte it meets the byte again. -/
theorem Reads.precedes (reads : Reads source lexer) (fresh : lexer.ended = false) {former latter : Reading}
    {m n : Nat} (earlier : m < n) (first : (lexer.after m).next? = some former)
    (second : (lexer.after n).next? = some latter) : former.event.Precedes latter.event := by
  have told := (reads.after n).told latter (mem_readings second)
  obtain ⟨there, place, reached⟩ := pos_le_event second
  have forward : (lexer.after (m + 1)).pos ≤ (lexer.after n).pos := pos_after_mono lexer earlier
  have given : (lexer.after m).item? = some former.item := by rw [item?, first, Option.map_some]
  rw [Lexer.after, proceed_of_next? first] at forward
  obtain ⟨_, yields⟩ := yields_of_next? first
  cases yields with
  | finish blank =>
    -- The end has been given, so the later call is refused.
    have ended := (ended_after_iff fresh n).mpr ⟨m, earlier, .eof, given, rfl⟩
    cases (next?_eq_none_iff.mpr ended).symm.trans second
  | @invalid gap rest byte blank high ahead =>
    -- The lexer stays on the byte, so the later call meets it too.
    have again := (after_invalid given earlier).1
    rw [item?, second, Option.map_some, Option.some.injEq] at again
    rw [told.of_invalid again]
    exact .again _ _
  | @lexeme gap rest lexeme blank leads ahead =>
    -- No token is empty, so the lexer has left the offset at which it logged this one.
    have filled := List.length_pos_iff.mpr leads.nonempty
    refine .further rfl place ?_
    simp only [Lexer.pos, Reader.pos_advanceBy, ahead, List.length_append] at forward reached
    omega

end Lexer

namespace Logged

variable {source : List UInt8}

/-- A call that gives an item logs one event, which tells of the item. -/
theorem told_of_given {n : Nat} {item : Item} (given : ((start source).after n).given? = some item) :
    ∃ reading : Reading, reading.item = item ∧ reading.Told source ∧
      ((start source).after (n + 1)).log = ((start source).after n).log ++ [reading.event] ∧
      ((start source).after (n + 1)).lexer = reading.after := by
  rw [given?_eq, after_start] at given
  obtain ⟨reading, read, item⟩ := Option.map_eq_some_iff.mp given
  have told := ((Lexer.Reads.start source).after n).told reading (Lexer.mem_readings read)
  have event : ((Lexer.start source).after n).event? = some reading.event := by rw [Lexer.event?, read, Option.map_some]
  refine ⟨reading, item, told, ?_, ?_⟩
  · rw [after_succ, after_start, event]
    rfl
  · rw [after_succ, after_start, Lexer.proceed_of_next? read]

end Logged

/-- The calls of a fresh lexer log where its source holds what. -/
theorem indexLaws_start (source : List UInt8) : IndexLaws source (Logged.start source).after where
  readings n := by
    refine ⟨?_, ?_, ?_⟩
    · rw [Logged.given?_eq, Logged.after_start]
    · rw [Logged.after_start]
    · rw [Logged.after_start]
      rfl
  refused n refused := by
    rw [Logged.given?_eq, Lexer.item?, Option.map_eq_none_iff] at refused
    rw [Logged.after_succ, Lexer.proceed, Lexer.event?, refused]
    simp
  token n token given proper := by
    obtain ⟨reading, item, told, logged, moves⟩ := Logged.told_of_given given
    obtain ⟨pos, event, slice, stop⟩ := told.of_token item proper
    rw [event] at logged
    exact ⟨pos, logged, rfl, rfl, slice, by rw [moves, stop]⟩
  finish n token given ended := by
    obtain ⟨reading, item, told, logged, _⟩ := Logged.told_of_given given
    rw [told.of_eof item ended] at logged
    exact ⟨logged, rfl, rfl⟩
  invalid n bad given := by
    obtain ⟨reading, item, told, logged, _⟩ := Logged.told_of_given given
    rw [told.of_invalid item] at logged
    exact ⟨logged, rfl, rfl⟩
  counted n := by
    have each (m : Nat) : ((Logged.start source).after m).given?.isSome = ((Lexer.start source).after m).event?.isSome := by
      rw [Logged.given?_eq, Logged.after_start, Lexer.item?, Lexer.event?, Option.isSome_map, Option.isSome_map]
    rw [Logged.after_start, List.length_filterMap_eq_countP]
    simp only [each]
  ordered n := by
    rw [Logged.after_start]
    apply List.pairwise_filterMap.mpr
    apply List.pairwise_lt_range.imp
    intro m n earlier former first latter second
    obtain ⟨reading, read, rfl⟩ := Option.map_eq_some_iff.mp first
    obtain ⟨other, met, rfl⟩ := Option.map_eq_some_iff.mp second
    exact (Lexer.Reads.start source).precedes rfl earlier read met

end MonkeyTokens
