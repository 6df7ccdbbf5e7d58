import MonkeyTokens.Console.Session
import MonkeyTokens.Lexing.TokenStream
import Mathlib.Data.List.TakeWhile

/-! Sessions as they happen. A session is a loop here, over an output that takes one byte after the other
as long as it has room, and an input that is read up to the next line feed. The tokens of a line are asked of
a stream, and each is shown before the next is asked for. A line ends in one of three ways: all of it is shown,
an invalid byte is told, or a device fails and the loop is left. What comes of the loop is what comes of the
script. -/

namespace MonkeyTokens.Session

/-- The room that an output has left, where that is limited, with what has been written and logged. -/
structure Device where
  room : Option Nat
  output : List UInt8
  events : List Event

abbrev Talk := ExceptT Failure (StateM Device)

/-- The bytes through the next line feed, or all that are left at the end of the input. An input that
breaks loses what is left. -/
def Input.readLine (input : Input) : Except DeviceFault (List UInt8 × Input) :=
  let line := input.bytes.takeWhile (· != Byte.lineFeed)
  match input.bytes.dropWhile (· != Byte.lineFeed) with
  | feed :: rest => .ok (line ++ [feed], ⟨rest, input.breaks⟩)
  | [] => if input.breaks then .error .inputBroken else .ok (line, ⟨[], false⟩)

namespace Input

theorem readLine_ended {text : List UInt8} (free : Byte.lineFeed ∉ text) (rest : List UInt8) (breaks : Bool) :
    readLine ⟨text ++ Byte.lineFeed :: rest, breaks⟩ = .ok (text ++ [Byte.lineFeed], ⟨rest, breaks⟩) := by
  have other := Line.bne_of_free free
  simp [readLine, List.takeWhile_append_of_pos other, List.dropWhile_append_of_pos other]

theorem readLine_unended {text : List UInt8} (free : Byte.lineFeed ∉ text) (breaks : Bool) :
    readLine ⟨text, breaks⟩ = if breaks then .error .inputBroken else .ok (text, ⟨[], false⟩) := by
  have line := List.takeWhile_eq_self_iff.mpr (Line.bne_of_free free)
  have behind := List.dropWhile_eq_nil_iff.mpr (Line.bne_of_free free)
  simp only [readLine, line, behind]

theorem lines_ended {text : List UInt8} (free : Byte.lineFeed ∉ text) (rest : List UInt8) (breaks : Bool) :
    lines ⟨text ++ Byte.lineFeed :: rest, breaks⟩ = (text ++ [Byte.lineFeed]) :: lines ⟨rest, breaks⟩ := by
  cases breaks <;> simp [lines, Line.split_ended free, Line.isEnded_concat]

theorem lines_unended {text : List UInt8} (free : Byte.lineFeed ∉ text) (filled : text ≠ []) (breaks : Bool) :
    lines ⟨text, breaks⟩ = if breaks then [] else [text] := by
  cases breaks <;> simp [lines, Line.split_unended free filled, Line.isEnded_of_free free]

theorem readLine_shorter {input rest : Input} {line : List UInt8} (read : input.readLine = .ok (line, rest))
    (filled : line ≠ []) : rest.bytes.length < input.bytes.length := by
  obtain ⟨bytes, breaks⟩ := input
  by_cases feed : Byte.lineFeed ∈ bytes
  · obtain ⟨text, more, rfl, free⟩ := List.eq_append_cons_of_mem feed
    cases (readLine_ended free more breaks).symm.trans read
    simp
    omega
  · rw [readLine_unended feed] at read
    split at read
    · cases read
    · cases read
      exact List.length_pos_iff.mpr filled

end Input

namespace Talk

def note (event : Event) : Talk Unit :=
  modify fun device => { device with events := device.events ++ [event] }

def putByte (byte : UInt8) : Talk Unit := do
  let device ← get
  match device.room with
  | none => set { device with output := device.output ++ [byte] }
  | some 0 => throw (.device .outputFull)
  | some (room + 1) => set { device with room := some room, output := device.output ++ [byte] }

def put (text : String) : Talk Unit := forM (Text.utf8 text) putByte

/-- Show one token after the other, up to an invalid byte. -/
def recite (stream : TokenStream) : Talk Unit := do
  match pulled : stream.pull with
  | .finished => return
  | .refused => throw .refused
  | .item reading rest =>
    note reading.event
    match reading.item with
    | .invalid bad => throw (.invalid bad)
    | .token token =>
      put (token.render ++ "\n")
      have := TokenStream.weight_pull pulled
      recite rest
termination_by stream.weight

/-- An invalid byte is told, and any other failure passed on. -/
def tell : Failure → Talk Unit
  | .invalid bad => put (bad.message ++ "\n")
  | failure => throw failure

def reply (line : List UInt8) : Talk Unit :=
  tryCatch (recite (.ofLexer (.start (Line.body line)))) tell

/-- The rounds of a session that still has `input` to read. What they leave of it is given back. -/
def rounds (settings : Settings) (input : Input) : Talk Input := do
  put settings.prompt
  match read : input.readLine with
  | .error fault => throw (.device fault)
  | .ok (line, rest) =>
    if empty : line = [] then do
      note .inputClosed
      return rest
    else do
      reply line
      have : rest.bytes.length < input.bytes.length := Input.readLine_shorter read empty
      rounds settings rest
termination_by input.bytes.length

def session (settings : Settings) (input : Input) : Talk Input := do
  if let some text := settings.greeting then put (text ++ "\n")
  rounds settings input

/-- What comes of an action on a fresh device. -/
def outcome {α : Type} (action : Talk α) (room : Option Nat) : Outcome α :=
  let (result, device) := action.run.run ⟨room, [], []⟩
  ⟨device.output, device.events, result⟩

end Talk

/-- A session on an output with room for a number of bytes, or for any. -/
def live (settings : Settings) (input : Input) (room : Option Nat) : Outcome Unit :=
  Talk.outcome (do let _ ← Talk.session settings input) room

namespace Talk

/-- One step of a script on the device. -/
def perform : Step → Talk Unit
  | .log event => note event
  | .write text => put text

def follow (steps : List Step) : Talk Unit := forM steps perform

theorem follow_append (first last : List Step) :
    follow (first ++ last) = follow first >>= fun _ => follow last := by
  simp [follow]

theorem follow_display (reading : Reading) :
    follow (display reading) = note reading.event >>= fun _ => put (reading.item.render ++ "\n") := by
  simp [follow, display, perform]

/-- An action that raises no invalid byte, so that nothing of it is told. -/
def Plain (action : Talk Unit) : Prop :=
  ∀ next : Talk Unit, tryCatch (action >>= fun _ => next) tell = action >>= fun _ => tryCatch next tell

namespace Plain

theorem note (event : Event) : Plain (note event) := fun _ => rfl

theorem putByte (byte : UInt8) : Plain (putByte byte) := by
  intro next
  funext device
  obtain ⟨room, output, events⟩ := device
  rcases room with _ | _ | room
  · rfl
  · rfl
  · rfl

theorem put (text : String) : Plain (put text) := by
  unfold Talk.put
  intro next
  induction Text.utf8 text with
  | nil => rfl
  | cons byte bytes ih => simp only [List.forM_cons, bind_assoc, putByte byte _, ih]

end Plain

private theorem catch_throw (failure : Failure) : tryCatch (throw failure : Talk Unit) tell = tell failure := rfl

section Recite

variable {lexer : Lexer} {reading : Reading}

private theorem recite_eq (stream : TokenStream) :
    recite stream =
      match stream.pull with
      | .finished => pure ()
      | .refused => throw .refused
      | .item reading rest =>
        note reading.event >>= fun _ =>
          match reading.item with
          | .invalid bad => throw (.invalid bad)
          | .token token => put (token.render ++ "\n") >>= fun _ => recite rest := by
  rw [recite]
  split
  next pulled => simp only [pulled]
  next pulled => simp only [pulled]
  next pulled => simp only [pulled]

private theorem recite_finished (lexer : Lexer) : recite ⟨lexer, true⟩ = pure () := by
  rw [recite_eq]
  rfl

private theorem catch_recite_token {token : Token} (read : lexer.next? = some reading)
    (item : reading.item = .token token) :
    tryCatch (recite (.ofLexer lexer)) tell =
      follow (display reading) >>= fun _ => tryCatch (recite ⟨reading.after, reading.item.isFinal⟩) tell := by
  have whole : recite (.ofLexer lexer) = note reading.event >>= fun _ => put (token.render ++ "\n") >>= fun _ =>
      recite ⟨reading.after, reading.item.isFinal⟩ := by
    rw [recite_eq, TokenStream.pull_ofLexer read]
    simp only [item]
  rw [whole, Plain.note, Plain.put, follow_display, item, bind_assoc]
  rfl

private theorem catch_recite_invalid {bad : InvalidByte} (read : lexer.next? = some reading)
    (item : reading.item = .invalid bad) : tryCatch (recite (.ofLexer lexer)) tell = follow (display reading) := by
  have whole : recite (.ofLexer lexer) = note reading.event >>= fun _ => throw (.invalid bad) := by
    rw [recite_eq, TokenStream.pull_ofLexer read]
    simp only [item]
  rw [whole, Plain.note, catch_throw, follow_display, item]
  rfl

private theorem catch_recite (fresh : lexer.ended = false) :
    tryCatch (recite (.ofLexer lexer)) tell = follow (lexer.readings.flatMap display) := by
  induction lexer, fresh using Lexer.readings_induction with
  | last lexer reading fresh read final =>
    rw [Lexer.readings_of_final read final, List.flatMap_singleton]
    cases item : reading.item with
    | token token =>
      rw [catch_recite_token read item, final, recite_finished]
      exact bind_pure _
    | invalid bad => exact catch_recite_invalid read item
  | more lexer reading fresh behind read more ih =>
    -- An invalid byte is final, so what is read before the last reading is a token.
    rw [Lexer.readings_of_more read more, List.flatMap_cons, follow_append]
    cases item : reading.item with
    | token token => rw [catch_recite_token read item, more, ← ih]; rfl
    | invalid bad => simp [item, Item.isFinal] at more

end Recite

theorem reply_eq (line : List UInt8) : reply line = follow (answer line) := catch_recite rfl

theorem rounds_eq (settings : Settings) (input : Input) :
    rounds settings input = (do
      put settings.prompt
      match input.readLine with
      | .error fault => throw (.device fault)
      | .ok (line, rest) =>
        if line = [] then do
          note .inputClosed
          return rest
        else do
          follow (answer line)
          rounds settings rest) := by
  rw [rounds]
  congr 1
  funext _
  split
  next read => rw [read]
  next line rest read => simp only [read, reply_eq, dite_eq_ite]

theorem follow_round (settings : Settings) (line : List UInt8) :
    follow (round settings line) = put settings.prompt >>= fun _ => follow (answer line) := by
  simp [follow, round, perform]

/-- A session that does not fail has read all of its input. -/
def ending (settings : Settings) (input : Input) : Except Failure Input :=
  (script settings input).result.map fun _ => ⟨[], false⟩

private theorem follow_closing (settings : Settings) (input : Input) :
    (follow (closing settings input) >>= fun _ => ofExcept (ending settings input)) =
      put settings.prompt >>= fun _ =>
        if input.breaks then throw (.device .inputBroken) else note .inputClosed >>= fun _ => pure ⟨[], false⟩ := by
  obtain ⟨bytes, breaks⟩ := input
  cases breaks with
  | true => simp [follow, closing, perform, ending, script, ofExcept, Except.map]
  | false => simp [follow, closing, perform, ending, script, ofExcept, Except.map]

/-- The loop does what the rest of the script says. -/
private theorem rounds_eq_follow (settings : Settings) (bytes : List UInt8) (breaks : Bool) :
    rounds settings ⟨bytes, breaks⟩ =
      follow ((Input.lines ⟨bytes, breaks⟩).flatMap (round settings) ++ closing settings ⟨bytes, breaks⟩)
        >>= fun _ => ofExcept (ending settings ⟨bytes, breaks⟩) := by
  -- The last round, which the induction meets at the end of the input and behind an unended line.
  have last (breaks : Bool) : rounds settings ⟨[], breaks⟩ =
      put settings.prompt >>= fun _ =>
        if breaks then throw (.device .inputBroken) else note .inputClosed >>= fun _ => pure ⟨[], false⟩ := by
    rw [rounds_eq, Input.readLine_unended List.not_mem_nil]
    cases breaks <;> rfl
  induction bytes using Line.split_induction with
  | empty =>
    rw [last, follow_append, bind_assoc, follow_closing]
    cases breaks <;> rfl
  | unended text free filled =>
    rw [rounds_eq, Input.readLine_unended free, Input.lines_unended free filled, follow_append, bind_assoc,
      follow_closing]
    cases breaks with
    | true => rfl
    | false => simp [filled, last, follow_round]
  | ended text rest free ih =>
    have filled : text ++ [Byte.lineFeed] ≠ [] := by simp
    rw [rounds_eq, Input.readLine_ended free, Input.lines_ended free, List.flatMap_cons, List.append_assoc,
      follow_append, bind_assoc, follow_round, bind_assoc]
    simp only [filled, if_false, ih]
    rfl

theorem session_eq_follow (settings : Settings) (input : Input) :
    session settings input = follow (script settings input).steps >>= fun _ => ofExcept (ending settings input) := by
  obtain ⟨bytes, breaks⟩ := input
  have steps : (script settings ⟨bytes, breaks⟩).steps = opening settings ++
      ((Input.lines ⟨bytes, breaks⟩).flatMap (round settings) ++ closing settings ⟨bytes, breaks⟩) := by
    simp [script]
  rw [steps, follow_append (opening settings), bind_assoc, ← rounds_eq_follow]
  obtain ⟨prompt, greeting⟩ := settings
  cases greeting with
  | none => rfl
  | some text => simp [session, opening, follow, perform]

section Run

variable {α : Type} (output : List UInt8) (events : List Event)

private theorem run_bind (action : Talk Unit) (next : Talk α) (device : Device) :
    (action >>= fun _ => next).run.run device =
      match action.run.run device with
      | (.ok _, device) => next.run.run device
      | (.error failure, device) => (.error failure, device) := by
  simp only [ExceptT.run_bind, StateT.run_bind]
  rcases action.run.run device with ⟨failure | done, device⟩ <;> rfl

private theorem run_unlimited (bytes : List UInt8) :
    (forM bytes putByte : Talk Unit).run.run ⟨none, output, events⟩ =
      (.ok (), ⟨none, output ++ bytes, events⟩) := by
  induction bytes generalizing output with
  | nil => rw [List.append_nil]; rfl
  | cons byte bytes ih =>
    have one : (putByte byte).run.run ⟨none, output, events⟩ = (.ok (), ⟨none, output ++ [byte], events⟩) := rfl
    rw [List.forM_cons, run_bind, one]
    simp only [ih, List.append_assoc, List.singleton_append]

/-- A write that does not fit fills the output and fails. -/
private theorem run_limited (bytes : List UInt8) (size : Nat) :
    (forM bytes putByte : Talk Unit).run.run ⟨some size, output, events⟩ =
      (if bytes.length ≤ size then .ok () else .error (.device .outputFull),
        ⟨some (size - bytes.length), output ++ bytes.take size, events⟩) := by
  induction bytes generalizing output size with
  | nil => simp; rfl
  | cons byte bytes ih =>
    cases size with
    | zero =>
      have full : (putByte byte).run.run ⟨some 0, output, events⟩ =
          (.error (.device .outputFull), ⟨some 0, output, events⟩) := rfl
      rw [List.forM_cons, run_bind, full]
      simp
    | succ size =>
      have one : (putByte byte).run.run ⟨some (size + 1), output, events⟩ =
          (.ok (), ⟨some size, output ++ [byte], events⟩) := rfl
      rw [List.forM_cons, run_bind, one]
      simp [ih]

/-- Steps on a device do to it what they do on an output with as much room. -/
private theorem run_follow (result : Except Failure α) (steps : List Step) (device : Device) :
    let outcome := Script.perform result device.room steps
    ∃ left, (follow steps >>= fun _ => ofExcept result).run.run device =
      (outcome.result, ⟨left, device.output ++ outcome.output, device.events ++ outcome.events⟩) := by
  induction steps generalizing device with
  | nil =>
    refine ⟨device.room, ?_⟩
    cases result <;> simp [follow, Script.perform, ofExcept] <;> rfl
  | cons step steps ih =>
    obtain ⟨room, output, events⟩ := device
    have first : (follow (step :: steps) >>= fun _ => ofExcept result) =
        perform step >>= fun _ => follow steps >>= fun _ => ofExcept result := by
      simp [follow]
    rw [first, run_bind]
    cases step with
    | log event =>
      obtain ⟨left, rest⟩ := ih ⟨room, output, events ++ [event]⟩
      have noted : (perform (.log event)).run.run ⟨room, output, events⟩ =
          (.ok (), ⟨room, output, events ++ [event]⟩) := rfl
      refine ⟨left, ?_⟩
      simp only [noted, rest, Script.perform, List.append_assoc, List.singleton_append]
    | write text =>
      cases room with
      | none =>
        obtain ⟨left, rest⟩ := ih ⟨none, output ++ Text.utf8 text, events⟩
        refine ⟨left, ?_⟩
        simp only [perform, put, run_unlimited, rest, Script.perform, List.append_assoc]
      | some size =>
        by_cases fits : (Text.utf8 text).length ≤ size
        · obtain ⟨left, rest⟩ := ih ⟨some (size - (Text.utf8 text).length), output ++ Text.utf8 text, events⟩
          refine ⟨left, ?_⟩
          simp only [perform, put, run_limited, Script.perform, fits, if_true, List.take_of_length_le fits, rest,
            List.append_assoc]
        · refine ⟨some (size - (Text.utf8 text).length), ?_⟩
          simp only [perform, put, run_limited, Script.perform, fits, if_false, List.append_nil]

end Run

theorem outcome_follow {α : Type} (script : Script α) (room : Option Nat) :
    outcome (follow script.steps >>= fun _ => ofExcept script.result) room = script.run room := by
  obtain ⟨left, run⟩ := run_follow script.result script.steps ⟨room, [], []⟩
  rw [outcome, run]
  rfl

/-- The outcome of a session, with what it leaves of its input. -/
theorem outcome_session (settings : Settings) (input : Input) (room : Option Nat) :
    outcome (session settings input) room =
      Script.run ⟨(script settings input).steps, ending settings input⟩ room := by
  rw [session_eq_follow]
  exact outcome_follow ⟨_, ending settings input⟩ room

end Talk

/-- What comes of a session as it happens is what comes of its script. -/
theorem live_eq_run (settings : Settings) (input : Input) (room : Option Nat) :
    live settings input room = (script settings input).run room := by
  have whole : (do let _ ← Talk.session settings input) =
      Talk.follow (script settings input).steps >>= fun _ => ofExcept (script settings input).result := by
    rw [Talk.session_eq_follow, bind_assoc]
    congr 1
    funext _
    rw [Talk.ending]
    cases (script settings input).result <;> simp [ofExcept, Except.map]
  rw [live, whole]
  exact Talk.outcome_follow (script settings input) room

end MonkeyTokens.Session
