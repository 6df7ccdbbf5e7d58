import MonkeyTokens.Console.Listing
import MonkeyTokens.Proofs.Encoding
import MonkeyTokens.Proofs.LiveSession
import MonkeyTokens.Proofs.Rendering

/-! Listings as they happen: a file is read, then scanned to its end, and only then shown. So a file that
cannot be read and one that holds an invalid byte show nothing, however much room there is, and of the page
of any other file as much is shown as there is room for. What comes of it is what comes of the script. -/

namespace MonkeyTokens

open Session (Talk)

namespace Session.Talk

variable {α : Type}

theorem put_append (first last : String) : put (first ++ last) = put first >>= fun _ => put last := by
  simp [put]

theorem follow_logs (event : Event) (events : List Event) :
    follow ((event :: events).map .log) = note event >>= fun _ => follow (events.map .log) := by
  simp [follow, perform]

end Session.Talk

namespace Listing

/-- All tokens of a stream, logged one after the other, up to an invalid byte. -/
def gather (stream : TokenStream) : Talk (List Token) := do
  match pulled : stream.pull with
  | .finished => return []
  | .refused => throw .refused
  | .item reading rest =>
    Talk.note reading.event
    match reading.item with
    | .invalid bad => throw (.invalid bad)
    | .token token =>
      have := TokenStream.weight_pull pulled
      return token :: (← gather rest)
termination_by stream.weight

/-- A file is read and scanned before anything is shown. -/
def talk (path : String) : Except FileFault (List UInt8) → Talk Nat
  | .error fault => throw (.unreadable path fault)
  | .ok contents => do
    Talk.note (.lexingFile path contents.length)
    let tokens ← gather (.ofLexer (.start contents))
    Talk.put (heading path tokens.length)
    forM tokens fun token => do
      Talk.put "  "
      Talk.put (token.render ++ "\n")
    return tokens.length

def live (path : String) (contents : Except FileFault (List UInt8)) (room : Option Nat) : Outcome Nat :=
  Talk.outcome (talk path contents) room

private theorem gather_eq (stream : TokenStream) :
    gather stream =
      match stream.pull with
      | .finished => pure []
      | .refused => throw .refused
      | .item reading rest =>
        Talk.note reading.event >>= fun _ =>
          match reading.item with
          | .invalid bad => throw (.invalid bad)
          | .token token => gather rest >>= fun tokens => pure (token :: tokens) := by
  rw [gather]
  split
  next pulled => simp only [pulled]
  next pulled => simp only [pulled]
  next pulled => simp only [pulled]

section Gather

variable {lexer : Lexer} {reading : Reading}

private theorem gather_finished (lexer : Lexer) : gather ⟨lexer, true⟩ = pure [] := by
  rw [gather_eq]
  rfl

private theorem gather_token {token : Token} (read : lexer.next? = some reading)
    (item : reading.item = .token token) :
    gather (.ofLexer lexer) = Talk.note reading.event >>= fun _ =>
      gather ⟨reading.after, reading.item.isFinal⟩ >>= fun tokens => pure (token :: tokens) := by
  rw [gather_eq, TokenStream.pull_ofLexer read]
  simp only [item]

private theorem gather_invalid {bad : InvalidByte} (read : lexer.next? = some reading)
    (item : reading.item = .invalid bad) :
    gather (.ofLexer lexer) = Talk.note reading.event >>= fun _ => throw (.invalid bad) := by
  rw [gather_eq, TokenStream.pull_ofLexer read]
  simp only [item]

/-- A file is scanned to its end or its first invalid byte, and no stream refuses. -/
private theorem gather_eq_follow (fresh : lexer.ended = false) :
    gather (.ofLexer lexer) = Talk.follow (lexer.events.map .log) >>= fun _ =>
      ofExcept ((Item.tokens lexer.items).mapError .invalid) := by
  induction lexer, fresh using Lexer.readings_induction with
  | last lexer reading fresh read final =>
    rw [Lexer.events_of_final read final, Lexer.items_of_final read final, Talk.follow_logs, bind_assoc]
    cases item : reading.item with
    | token token =>
      rw [gather_token read item, final, gather_finished, pure_bind]
      rfl
    | invalid bad =>
      rw [gather_invalid read item]
      rfl
  | more lexer reading fresh behind read more ih =>
    rw [Lexer.events_of_more read more, Lexer.items_of_more read more, Talk.follow_logs, bind_assoc]
    cases item : reading.item with
    | token token =>
      have rest : TokenStream.mk reading.after false = .ofLexer reading.after := rfl
      rw [gather_token read item, more, rest, ih, Item.tokens]
      simp only [bind_assoc]
      cases Item.tokens reading.after.items <;> simp [Except.map, Except.mapError, ofExcept]
    | invalid bad => simp [item, Item.isFinal] at more

end Gather

private theorem follow_page (path : String) (tokens : List Token) :
    Talk.follow (page path tokens) = Talk.put (heading path tokens.length) >>= fun _ =>
      forM tokens fun token => Talk.put "  " >>= fun _ => Talk.put (token.render ++ "\n") := by
  have entries (tokens : List Token) : Talk.follow (tokens.map (.write ∘ entry)) =
      forM tokens fun token => Talk.put "  " >>= fun _ => Talk.put (token.render ++ "\n") := by
    induction tokens with
    | nil => rfl
    | cons token tokens ih =>
      rw [List.forM_cons, ← ih, ← Talk.put_append, ← String.append_assoc]
      simp [Talk.follow, Talk.perform, entry]
  rw [← entries]
  simp [page, Talk.follow, Talk.perform]

theorem talk_eq_follow (path : String) (contents : Except FileFault (List UInt8)) :
    talk path contents =
      Talk.follow (script path contents).steps >>= fun _ => ofExcept (script path contents).result := by
  cases contents with
  | error fault => simp [talk, script, Talk.follow, ofExcept]
  | ok contents =>
    have fresh : (Lexer.start contents).ended = false := rfl
    simp only [talk, script, ofContents, gather_eq_follow fresh]
    cases Item.tokens (Lexer.start contents).items with
    | error bad =>
      simp only
      rw [← List.map_cons, Talk.follow_logs, bind_assoc]
      simp [Except.mapError, ofExcept]
    | ok tokens =>
      simp only
      rw [← List.map_cons, Talk.follow_append, Talk.follow_logs, follow_page]
      simp [Except.mapError, ofExcept]

/-- What comes of a listing as it happens is what comes of its script. -/
theorem live_eq_run (path : String) (contents : Except FileFault (List UInt8)) (room : Option Nat) :
    live path contents room = (script path contents).run room := by
  rw [live, talk_eq_follow]
  exact Talk.outcome_follow (script path contents) room

theorem heading_eq (path : String) (count : Nat) :
    heading path count = "Tokens for '" ++ path ++ "' (" ++ toString count ++ " tokens):\n" := by
  unfold heading
  rw [Text.decimal, ← Nat.toString_eq_ofList_toDigits]

theorem entry_injective : Function.Injective entry := by
  intro left right same
  apply Token.render_injective
  have whole := congrArg String.toList same
  simp only [entry, String.toList_append, List.append_assoc, List.append_cancel_left_eq,
    List.append_cancel_right_eq] at whole
  exact String.toList_inj.mp whole

theorem exists_line (token : Token) :
    ∃ text, Byte.lineFeed ∉ text ∧ Text.utf8 (entry token) = text ++ [Byte.lineFeed] := by
  refine ⟨Text.utf8 ("  " ++ token.render), ?_, ?_⟩
  · apply Text.lineFeed_not_mem_utf8
    have margin : Text.OneLine "  ".toList := by simp [Text.OneLine]
    rw [String.toList_append, Text.OneLine.append_iff]
    exact ⟨margin, Item.render_oneLine (.token token)⟩
  · rw [entry, Text.utf8_line]

private theorem written_logs (events : List Event) : (events.map Step.log).flatMap Step.bytes = [] := by
  rw [List.flatMap_map]
  exact List.flatMap_eq_nil_iff.mpr fun _ _ => rfl

private theorem written_page (path : String) (tokens : List Token) : (page path tokens).flatMap Step.bytes =
    Text.utf8 (heading path tokens.length) ++ (tokens.map (Text.utf8 ∘ entry)).flatten := by
  rw [page, List.flatMap_cons, List.flatMap_map, List.flatMap_def]
  rfl

theorem script_of_invalid (path : String) {contents : List UInt8} {bad : InvalidByte}
    (found : Item.tokens (scan contents) = .error bad) :
    (script path (.ok contents)).written = [] ∧ (script path (.ok contents)).result = .error (.invalid bad) := by
  rw [scan] at found
  simp only [script, ofContents, found, Script.written, ← List.map_cons, written_logs, true_and]

theorem script_of_tokens (path : String) {contents : List UInt8} {tokens : List Token}
    (found : Item.tokens (scan contents) = .ok tokens) :
    (script path (.ok contents)).written =
        Text.utf8 (heading path tokens.length) ++ (tokens.map (Text.utf8 ∘ entry)).flatten ∧
      (script path (.ok contents)).result = .ok tokens.length := by
  rw [scan] at found
  simp only [script, ofContents, found, Script.written, ← List.map_cons, List.flatMap_append, written_logs,
    written_page, List.nil_append, and_true]

theorem live_silent {path : String} {contents : Except FileFault (List UInt8)}
    (silent : (script path contents).written = []) (room : Option Nat) :
    (live path contents room).result = (script path contents).result ∧ (live path contents room).output = [] := by
  rw [live_eq_run, Script.output_run, Script.result_run, silent]
  cases room <;> simp

end Listing

theorem tokens_scan_high {before : List UInt8} {byte : UInt8} (ascii : ∀ low ∈ before, low < 0x80)
    (high : 0x80 ≤ byte) (rest : List UInt8) :
    Item.tokens (scan (before ++ byte :: rest)) = .error ⟨byte, before.length⟩ := by
  obtain ⟨tokens, shown⟩ := scan_ascii ascii
  rw [scan_append_high ascii (Byte.isAscii_eq_false_iff.mpr high), shown, List.dropLast_concat,
    Item.tokens_map_invalid]

theorem tokens_scan_ascii {contents : List UInt8} (ascii : ∀ byte ∈ contents, byte < 0x80) :
    ∃ others : List Token, scan contents = (others ++ [Token.eof]).map Item.token ∧
      ∀ token ∈ others, token.isEof = false := by
  obtain ⟨others, shown⟩ := scan_ascii ascii
  refine ⟨others, by simp [shown], ?_⟩
  have passing := (scan_closed contents).passing
  rw [shown, List.dropLast_concat, List.forall_mem_map] at passing
  exact passing

/-- A file that cannot be read or scanned shows nothing. -/
theorem listing_all_or_nothing (path : String) (room : Option Nat) :
    (∀ contents, Listing.live path contents room = (Listing.script path contents).run room) ∧
      (∀ fault, let outcome := Listing.live path (.error fault) room
        outcome.result = .error (.unreadable path fault) ∧ outcome.output = []) ∧
      (∀ before byte rest, (∀ low ∈ before, low < 0x80) → 0x80 ≤ byte →
        let outcome := Listing.live path (.ok (before ++ byte :: rest)) room
        outcome.result = .error (.invalid ⟨byte, before.length⟩) ∧ outcome.output = []) ∧
      ∀ contents, (∀ byte ∈ contents, byte < 0x80) → ∃ others : List Token,
        let tokens := others ++ [Token.eof]
        let lines := tokens.map fun token => Text.utf8 ("  " ++ token.render ++ "\n")
        let text :=
          Text.utf8 ("Tokens for '" ++ path ++ "' (" ++ toString tokens.length ++ " tokens):\n") ++ lines.flatten
        let outcome := Listing.live path (.ok contents) room
        scan contents = tokens.map Item.token ∧ (∀ token ∈ others, token.isEof = false) ∧
          outcome.output = room.elim text text.take ∧
          outcome.result =
            (if room.any (· < text.length) then .error (.device .outputFull) else .ok tokens.length) ∧
          Line.split lines.flatten = lines ∧
          lines.getLast? = some (Text.utf8 "  \x7bkind: EOF, literal: \x22\x22\x7d\n") ∧
          Text.utf8 "  \x7bkind: EOF, literal: \x22\x22\x7d\n" ∉ lines.dropLast := by
  refine ⟨?_, ?_, ?_, ?_⟩
  · intro contents
    exact Listing.live_eq_run path contents room
  · intro fault
    exact Listing.live_silent rfl room
  · intro before byte rest ascii high
    obtain ⟨silent, result⟩ := Listing.script_of_invalid path (tokens_scan_high ascii high rest)
    rw [← result]
    exact Listing.live_silent silent room
  · intro contents ascii
    obtain ⟨others, shown, proper⟩ := tokens_scan_ascii ascii
    refine ⟨others, ?_⟩
    intro tokens lines text outcome
    have found : Item.tokens (scan contents) = .ok tokens := by rw [shown, Item.tokens_map]
    obtain ⟨written, result⟩ := Listing.script_of_tokens path found
    have written : (Listing.script path (.ok contents)).written = text := by
      rw [written, Listing.heading_eq]
      rfl
    have run : outcome = (Listing.script path (.ok contents)).run room := Listing.live_eq_run path _ room
    have last : lines = (others.map fun token => Text.utf8 ("  " ++ token.render ++ "\n")) ++
      [Text.utf8 "  \x7bkind: EOF, literal: \x22\x22\x7d\n"] := List.map_append
    refine ⟨shown, proper, ?_, ?_, ?_, ?_, ?_⟩
    · rw [run, Script.output_run, written]
    · rw [run, Script.result_run, written, result]
    · apply Line.split_flatten
      intro line member
      obtain ⟨token, _, rfl⟩ := List.mem_map.mp member
      exact Listing.exists_line token
    · rw [last, List.getLast?_concat]
    · rw [last, List.dropLast_concat]
      intro member
      obtain ⟨token, inside, same⟩ := List.mem_map.mp member
      have last : token = .eof := Listing.entry_injective (Text.utf8_injective same)
      have unended := proper token inside
      rw [last] at unended
      cases unended

/-- Room for a part of the heading, and no room at all for a file that holds an accented letter. -/
theorem listing_all_or_nothing_cut :
    let contents := Text.utf8 "x"
    let outcome := Listing.live "f" (.ok contents) (some 24)
    (∀ byte ∈ contents, byte < 0x80) ∧ outcome.output = Text.utf8 "Tokens for 'f' (2 tokens" ∧
      outcome.result = .error (.device .outputFull) ∧ (0x80 : UInt8) ≤ 0xC3 ∧
      (Listing.live "f" (.ok (contents ++ Text.utf8 "é")) (some 0)).result = .error (.invalid ⟨0xC3, 1⟩) := by
  intro contents outcome
  have ascii : ∀ byte ∈ contents, byte < 0x80 := by decide +kernel
  have high : (0x80 : UInt8) ≤ 0xC3 := by decide
  obtain ⟨_, _, _, tokens⟩ := listing_all_or_nothing "f" (some 24)
  obtain ⟨_, _, invalid, _⟩ := listing_all_or_nothing "f" (some 0)
  obtain ⟨others, shown, _, output, result, _⟩ := tokens contents ascii
  have scanned : Item.tokens (scan contents) = .ok [⟨.ident, "x"⟩, .eof] := by decide +kernel
  rw [shown, Item.tokens_map, Except.ok.injEq] at scanned
  rw [scanned] at output result
  refine ⟨ascii, ?_, ?_, high, (invalid contents 0xC3 [0xA9] ascii high).1⟩
  · rw [output]
    decide +kernel
  · rw [result]
    decide +kernel

end MonkeyTokens
