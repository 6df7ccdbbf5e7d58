import MonkeyTokens.Proofs.Runs

/-! Lexers at work. A call takes one step after the other here: blanks are passed, the offset is noted down,
the bytes of the token are passed, and only then its literal is cut out of the source and an event logged. A
call fails where the lexer has ended, or where a literal is to be cut out that starts ahead of the place. What
comes of a call is one reading, and nothing at all where it fails. -/

namespace MonkeyTokens

/-- A lexer with all that it has logged. -/
structure Logged where
  lexer : Lexer
  log : List Event
  deriving DecidableEq

abbrev Work := OptionT (StateM Logged)

namespace Work

/-- What comes of an action, and the state in which it leaves or fails. -/
def outcome {α : Type} (action : Work α) (state : Logged) : Option α × Logged := action.run.run state

def reader : Work Reader := return (← get).lexer.reader

def move (step : Reader → Reader) : Work Unit :=
  modify fun state => { state with lexer.reader := step state.lexer.reader }

def note (event : Event) : Work Unit := modify fun state => { state with log := state.log ++ [event] }

/-- The bytes from an offset up to the place. -/
def cut (offset : Nat) : Work (List UInt8) := do
  match (← reader).since? offset with
  | some bytes => return bytes
  | none => failure

def single (kind : Kind) : Work Kind := do
  move Reader.advance
  return kind

def oneOrTwo (one : Kind) (second : UInt8) (two : Kind) : Work Kind := do
  if (← reader).peek = second then
    move (·.advanceBy 2)
    return two
  else
    move Reader.advance
    return one

def number : Work Kind := do
  move (·.skipWhile Byte.isDigit)
  return .int

/-- The kind of a word is decided by its text. -/
def word (offset : Nat) : Work Kind := do
  move Reader.advance
  move (·.skipWhile Byte.isWordByte)
  return Kind.ofWord (Text.ofBytes (← cut offset))

/-- Past the token that starts with a byte at an offset. -/
def pass (byte : UInt8) (offset : Nat) : Work Kind :=
  if Byte.isDigit byte then number
  else if Byte.isWordStart byte then word offset
  else
    match Lexeme.extended (Lexeme.symbol byte) with
    | some longer => oneOrTwo (Lexeme.symbol byte) Byte.equalsSign longer
    | none => single (Lexeme.symbol byte)

/-- What stands at a place with no blank ahead. -/
def read : Work Item := do
  let start := (← reader).pos
  if (← reader).atEnd then
    modify fun state => { state with lexer.ended := true }
    note (.endOfInput start)
    return .token .eof
  else
    let byte := (← reader).current
    if Byte.isAscii byte then
      let kind ← pass byte start
      let literal := Text.ofBytes (← cut start)
      note (.token kind start)
      return .token ⟨kind, literal⟩
    else
      note (.invalidByte byte start)
      return .invalid ⟨byte, start⟩

def call : Work Item := do
  if (← get).lexer.ended then
    failure
  else
    move Reader.skipBlanks
    read

end Work

theorem Reader.since?_advanceBy (reader : Reader) (count : Nat) :
    (reader.advanceBy count).since? reader.pos = some (reader.ahead.take count) := by
  have length : min count reader.ahead.length = (reader.ahead.take count).reverse.length := by simp
  rw [since?, pos_advanceBy, passed_advanceBy, if_pos (Nat.le_add_right _ _), Nat.add_sub_cancel_left, length,
    List.take_left, List.reverse_reverse]

namespace Work

section Outcome

variable {α β : Type} (lexer : Lexer) (log : List Event)

private theorem outcome_bind (action : Work α) (next : α → Work β) (state : Logged) :
    outcome (action >>= next) state =
      match outcome action state with
      | (some result, state) => outcome (next result) state
      | (none, state) => (none, state) := by
  simp only [outcome, OptionT.run_bind, Option.elimM, StateT.run_bind]
  rcases action.run.run state with ⟨_ | result, state⟩ <;> rfl

private theorem outcome_pure (result : α) (state : Logged) :
    outcome (pure result) state = (some result, state) := rfl

private theorem outcome_reader : outcome reader ⟨lexer, log⟩ = (some lexer.reader, ⟨lexer, log⟩) := rfl

private theorem outcome_move (step : Reader → Reader) :
    outcome (move step) ⟨lexer, log⟩ = (some (), ⟨⟨step lexer.reader, lexer.ended⟩, log⟩) := rfl

private theorem outcome_note (event : Event) :
    outcome (note event) ⟨lexer, log⟩ = (some (), ⟨lexer, log ++ [event]⟩) := rfl

private theorem outcome_cut {reader : Reader} {offset : Nat} {bytes : List UInt8}
    (found : reader.since? offset = some bytes) (ended : Bool) :
    outcome (cut offset) ⟨⟨reader, ended⟩, log⟩ = (some bytes, ⟨⟨reader, ended⟩, log⟩) := by
  simp only [cut, outcome_bind, outcome_reader, found, outcome_pure]

private theorem outcome_single (kind : Kind) : outcome (single kind) ⟨lexer, log⟩ =
    (some kind, ⟨⟨lexer.reader.advanceBy 1, lexer.ended⟩, log⟩) := by
  simp only [single, outcome_bind, outcome_move, outcome_pure, Reader.advance_eq]

private theorem outcome_oneOrTwo (one two : Kind) (second : UInt8) :
    outcome (oneOrTwo one second two) ⟨lexer, log⟩ =
      if lexer.reader.peek = second then (some two, ⟨⟨lexer.reader.advanceBy 2, lexer.ended⟩, log⟩)
      else (some one, ⟨⟨lexer.reader.advanceBy 1, lexer.ended⟩, log⟩) := by
  simp only [oneOrTwo, outcome_bind, outcome_reader]
  split
  · simp only [outcome_bind, outcome_move, outcome_pure]
  · simp only [outcome_bind, outcome_move, outcome_pure, Reader.advance_eq]

variable (reader : Reader) {first : UInt8} {rest : List UInt8}

private theorem outcome_number (ahead : reader.ahead = first :: rest) (digit : Byte.isDigit first = true) :
    outcome number ⟨⟨reader, false⟩, log⟩ =
      (some .int, ⟨⟨reader.advanceBy (first :: rest.takeWhile Byte.isDigit).length, false⟩, log⟩) := by
  have run : reader.ahead.takeWhile Byte.isDigit = first :: rest.takeWhile Byte.isDigit := by
    rw [ahead, List.takeWhile_cons_of_pos digit]
  simp only [number, outcome_bind, outcome_move, outcome_pure, Reader.skipWhile_eq_advanceBy, run]

private theorem outcome_word (ahead : reader.ahead = first :: rest) :
    let bytes := first :: rest.takeWhile Byte.isWordByte
    outcome (word reader.pos) ⟨⟨reader, false⟩, log⟩ =
      (some (Kind.ofWord (Text.ofBytes bytes)), ⟨⟨reader.advanceBy bytes.length, false⟩, log⟩) := by
  intro bytes
  have passed : (reader.advanceBy 1).skipWhile Byte.isWordByte = reader.advanceBy bytes.length := by
    rw [Reader.skipWhile_eq_advanceBy, Reader.advanceBy_advanceBy, Reader.ahead_advanceBy, ahead, Nat.add_comm]
    rfl
  have found : (reader.advanceBy bytes.length).since? reader.pos = some bytes := by
    rw [Reader.since?_advanceBy, ahead]
    exact congrArg some (List.prefix_iff_eq_take.mp ((List.prefix_cons_inj first).mpr (List.takeWhile_prefix _))).symm
  simp only [word, outcome_bind, outcome_move, outcome_pure, Reader.advance_eq, passed,
    outcome_cut log found]

/-- What is cut out behind a token is what its lexeme holds. -/
private theorem since?_leading (ahead : reader.ahead = first :: rest) :
    (reader.advanceBy (Lexeme.leading first rest).bytes.length).since? reader.pos =
      some (Lexeme.leading first rest).bytes := by
  obtain ⟨tail, whole, front⟩ := Lexeme.leading_bytes first rest
  rw [Reader.since?_advanceBy, ahead, whole]
  exact congrArg some (List.prefix_iff_eq_take.mp ((List.prefix_cons_inj first).mpr front)).symm

/-- A token is passed over as many bytes as its lexeme has. -/
private theorem outcome_pass (ahead : reader.ahead = first :: rest) :
    outcome (pass first reader.pos) ⟨⟨reader, false⟩, log⟩ =
      (some (Lexeme.leading first rest).kind,
        ⟨⟨reader.advanceBy (Lexeme.leading first rest).bytes.length, false⟩, log⟩) := by
  unfold pass Lexeme.leading
  split
  next digit => exact outcome_number log reader ahead digit
  split
  next => exact outcome_word log reader ahead
  unfold Lexeme.ofSymbol
  cases longer : Lexeme.extended (Lexeme.symbol first) with
  | none => exact outcome_single ⟨reader, false⟩ log _
  | some kind =>
    simp only [outcome_oneOrTwo, Reader.peek, ahead, List.tail_cons]
    cases rest with
    | nil => rfl
    | cons second rest =>
      by_cases joins : second = Byte.equalsSign
      · simp only [List.headD_cons, joins, if_true]
        rfl
      · simp only [List.headD_cons, joins, if_false]
        rfl

private theorem outcome_get (state : Logged) : outcome (get : Work Logged) state = (some state, state) := rfl

private theorem outcome_end : outcome (modify fun state => { state with lexer.ended := true }) ⟨lexer, log⟩ =
    (some (), ⟨⟨lexer.reader, true⟩, log⟩) := rfl

private theorem outcome_read : outcome read ⟨⟨reader, false⟩, log⟩ =
    (some (Lexer.readingAt reader).item,
      ⟨(Lexer.readingAt reader).after, log ++ [(Lexer.readingAt reader).event]⟩) := by
  cases ahead : reader.ahead with
  | nil =>
    have done : reader.atEnd = true := by rw [Reader.atEnd, ahead, List.isEmpty_nil]
    simp only [read, outcome_bind, outcome_reader, done, if_true, outcome_end, outcome_note, outcome_pure,
      Lexer.readingAt, ahead]
  | cons first rest =>
    have more : reader.atEnd = false := by rw [Reader.atEnd, ahead, List.isEmpty_cons]
    have here : reader.current = first := by rw [Reader.current, ahead, List.headD_cons]
    simp only [read, outcome_bind, outcome_reader, more, Bool.false_eq_true, if_false, here, Lexer.readingAt, ahead]
    split
    next =>
      have found := since?_leading reader ahead
      simp only [outcome_bind, outcome_pass log reader ahead, outcome_cut log found, outcome_note, outcome_pure]
      rfl
    next => simp only [outcome_bind, outcome_note, outcome_pure]

/-- A call makes one reading and logs its event, or it fails and leaves everything as it is. -/
theorem outcome_call : outcome call ⟨lexer, log⟩ =
    match lexer.next? with
    | some reading => (some reading.item, ⟨reading.after, log ++ [reading.event]⟩)
    | none => (none, ⟨lexer, log⟩) := by
  obtain ⟨reader, ended⟩ := lexer
  simp only [call, outcome_bind, outcome_get]
  cases ended with
  | true => rfl
  | false =>
    simp only [Bool.false_eq_true, if_false, outcome_bind, outcome_move, outcome_read]
    rfl

end Outcome

end Work

/-- What a reading logs, or nothing where the lexer refuses. -/
def Lexer.event? (lexer : Lexer) : Option Event := lexer.next?.map Reading.event

namespace Logged

def start (source : List UInt8) : Logged := ⟨.start source, []⟩

/-- What a call gives, or nothing where it fails. -/
def given? (state : Logged) : Option Item := (Work.outcome Work.call state).1

/-- A number of calls, failed ones included. -/
def after (state : Logged) : Nat → Logged
  | 0 => state
  | count + 1 => (Work.outcome Work.call (state.after count)).2

theorem given?_eq (state : Logged) : state.given? = state.lexer.item? := by
  rw [given?, Work.outcome_call, Lexer.item?]
  cases state.lexer.next? <;> rfl

theorem after_succ (state : Logged) (count : Nat) :
    state.after (count + 1) =
      ⟨(state.after count).lexer.proceed, (state.after count).log ++ (state.after count).lexer.event?.toList⟩ := by
  rw [after, Work.outcome_call, Lexer.proceed, Lexer.event?]
  cases (state.after count).lexer.next? with
  | none => simp
  | some reading => rfl

/-- The log of a run has the events of its readings, in their order. -/
theorem after_start (source : List UInt8) (count : Nat) :
    (start source).after count =
      ⟨(Lexer.start source).after count, (List.range count).filterMap fun n => ((Lexer.start source).after n).event?⟩ := by
  induction count with
  | zero => rfl
  | succ count ih =>
    rw [after_succ, ih, List.range_succ, List.filterMap_append, Lexer.after]
    cases event : ((Lexer.start source).after count).event? <;> simp [event]

end Logged

end MonkeyTokens
