import MonkeyTokens.Console.Command
import MonkeyTokens.Proofs.Listings

/-! The program as it happens. Arguments are looked at one after the other, and a session or a listing runs
once they are accepted. A process ends early where it exits with a code or where a stream refuses, in which
case it panics. It never does, and what comes of it is what the command line reports. -/

namespace MonkeyTokens

open Session (Talk)

/-- What is left of the input, and all that has been written. -/
structure Streams where
  input : Session.Input
  output : List UInt8
  errors : String

/-- Why a process ends before its last step. -/
inductive Stop where
  | exit (code : Nat)
  | panic
  deriving DecidableEq

abbrev Process := ExceptT Stop (StateM Streams)

namespace Process

variable {α : Type}

def emit (bytes : List UInt8) : Process Unit :=
  modify fun streams => { streams with output := streams.output ++ bytes }

def print (text : String) : Process Unit := emit (Text.utf8 text)

def complain (text : String) : Process Unit := modify fun streams => { streams with errors := streams.errors ++ text }

/-- All but `rest` has been read. -/
def leave (rest : Session.Input) : Process Unit := modify fun streams => { streams with input := rest }

def exit (code : Nat) : Process α := throw (.exit code)

/-- A failure is told and ends the process, unless it is a panic. -/
def fail : Failure → Process α
  | .refused => throw .panic
  | failure => do
    complain ("error: " ++ failure.message ++ "\n")
    exit 1

/-- An action on the output of the process, which takes everything. -/
def carry (action : Talk α) : Process α := do
  let outcome := action.outcome none
  emit outcome.output
  match outcome.result with
  | .ok result => return result
  | .error failure => fail failure

def session (settings : Session.Settings) : Process Unit := do
  leave (← carry (Talk.session settings (← get).input))

def listing (path : String) (contents : Except FileFault (List UInt8)) : Process Unit := do
  let _ ← carry (Listing.talk path contents)

/-- Each option in turn sets the prompt, or ends the process. -/
def prompt (chosen : String) : List String → Process String
  | [] => return chosen
  | option :: rest =>
    match Command.promptOption? option with
    | some text => prompt text rest
    | none => do
      complain ("error: unknown repl option '" ++ option ++ "'\n")
      complain "Usage: monkey repl [--prompt=<text>]\n"
      exit 1

def help : Process Unit := forM Command.usage.lines fun line => print (line ++ "\n")

def reject (name : String) : Process Unit := do
  complain ("Unknown command: " ++ name ++ "\n")
  complain "\n"
  help
  exit 1

def start (surroundings : Surroundings) (options : List String) : Process Unit := do
  let chosen ← prompt Session.defaultPrompt options
  session (Command.settings chosen surroundings.guest)

def main (surroundings : Surroundings) : List String → Process Unit
  | [] => start surroundings []
  | "repl" :: options => start surroundings options
  | ["lex"] => do
    complain "Usage: monkey lex <file>\n"
    exit 1
  | "lex" :: path :: _ => listing path (surroundings.contents path)
  | name :: _ =>
    if name ∈ ["help", "--help", "-h"] then help
    else if name ∈ ["version", "--version", "-V"] then print Command.versionLine
    else reject name

section Ran

variable {β : Type}

/-- What comes of an action, and the streams as it leaves them. -/
def ran (action : Process α) (streams : Streams) : Except Stop α × Streams := action.run.run streams

private theorem ran_bind (action : Process α) (next : α → Process β) (streams : Streams) :
    ran (action >>= next) streams =
      match ran action streams with
      | (.ok result, streams) => ran (next result) streams
      | (.error stop, streams) => (.error stop, streams) := by
  simp only [ran, ExceptT.run_bind, StateT.run_bind]
  rcases action.run.run streams with ⟨stop | result, streams⟩ <;> rfl

private theorem ran_pure (result : α) (streams : Streams) : ran (pure result) streams = (.ok result, streams) := rfl

variable (input : Session.Input) (output : List UInt8) (errors : String)

private theorem ran_print (text : String) :
    ran (print text) ⟨input, output, errors⟩ = (.ok (), ⟨input, output ++ Text.utf8 text, errors⟩) := rfl

private theorem ran_complain (text : String) :
    ran (complain text) ⟨input, output, errors⟩ = (.ok (), ⟨input, output, errors ++ text⟩) := rfl

private theorem ran_leave (rest : Session.Input) :
    ran (leave rest) ⟨input, output, errors⟩ = (.ok (), ⟨rest, output, errors⟩) := rfl

private theorem ran_get (streams : Streams) : ran get streams = (.ok streams, streams) := rfl

private theorem ran_exit (code : Nat) (streams : Streams) :
    ran (exit code : Process α) streams = (.error (.exit code), streams) := rfl

private theorem ran_emit (bytes : List UInt8) :
    ran (emit bytes) ⟨input, output, errors⟩ = (.ok (), ⟨input, output ++ bytes, errors⟩) := rfl

private theorem ran_carry {action : Talk α} {result : α} (done : (action.outcome none).result = .ok result) :
    ran (carry action) ⟨input, output, errors⟩ =
      (.ok result, ⟨input, output ++ (action.outcome none).output, errors⟩) := by
  simp only [carry, ran_bind, ran_emit, done, ran_pure]

private theorem ran_prints (texts : List String) :
    ran (forM texts print) ⟨input, output, errors⟩ =
      (.ok (), ⟨input, output ++ Text.utf8 (String.join texts), errors⟩) := by
  induction texts generalizing output with
  | nil => simp [ran, Text.utf8]; rfl
  | cons text texts ih => simp [ran_bind, ran_print, ih, String.join_cons]

end Ran

section Commands

variable (input : Session.Input) (output : List UInt8) (errors : String)

/-- A session uses its input up and writes what its script does. -/
private theorem ran_session (settings : Session.Settings) (bytes : List UInt8) :
    ran (session settings) ⟨⟨bytes, false⟩, [], ""⟩ =
      (.ok (), ⟨⟨[], false⟩, (Session.script settings ⟨bytes, false⟩).written, ""⟩) := by
  have outcome := Talk.outcome_session settings ⟨bytes, false⟩ none
  rw [Script.run_none] at outcome
  have done : ((Talk.session settings ⟨bytes, false⟩).outcome none).result = .ok ⟨[], false⟩ := by
    rw [outcome]
    rfl
  simp only [session, ran_bind, ran_get, ran_carry _ _ _ done, ran_leave, outcome, List.nil_append]
  rfl

private theorem ran_help : ran help ⟨input, output, errors⟩ =
    (.ok (), ⟨input, output ++ Text.utf8 Command.usage, errors⟩) := by
  have prints := ran_prints input output errors (Command.usage.lines.map (· ++ "\n"))
  rwa [List.forM_map] at prints

private theorem unknownOption_message (option : String) : Misuse.message (.unknownOption option) =
    "error: unknown repl option '" ++ option ++ "'\n" ++ "Usage: monkey repl [--prompt=<text>]\n" := by
  have ending : "'\nUsage: monkey repl [--prompt=<text>]\n" = "'\n" ++ "Usage: monkey repl [--prompt=<text>]\n" := by
    decide +kernel
  calc Misuse.message (.unknownOption option)
    _ = "error: unknown repl option '" ++ option ++ "'\nUsage: monkey repl [--prompt=<text>]\n" := rfl
    _ = "error: unknown repl option '" ++ option ++ ("'\n" ++ "Usage: monkey repl [--prompt=<text>]\n") := by
      rw [ending]
    _ = _ := String.append_assoc.symm

private theorem unknownCommand_message (name : String) :
    Misuse.message (.unknownCommand name) = "Unknown command: " ++ name ++ "\n" ++ "\n" := by
  have ending : "\n\n" = "\n" ++ "\n" := by decide +kernel
  calc Misuse.message (.unknownCommand name)
    _ = "Unknown command: " ++ name ++ "\n\n" := rfl
    _ = "Unknown command: " ++ name ++ ("\n" ++ "\n") := by rw [ending]
    _ = _ := String.append_assoc.symm

private theorem ran_reject (name : String) : ran (reject name) ⟨input, output, ""⟩ =
    (.error (.exit 1), ⟨input, output ++ Text.utf8 Command.usage, Misuse.message (.unknownCommand name)⟩) := by
  simp only [reject, ran_bind, ran_complain, ran_help, ran_exit, unknownCommand_message, String.empty_append]

/-- The prompt that options choose, or the first option that is none. -/
private theorem ran_prompt (chosen : String) (options : List String) (streams : Streams) :
    ran (prompt chosen options) streams =
      match Command.prompt chosen options with
      | .ok text => (.ok text, streams)
      | .error misuse => (.error (.exit 1), { streams with errors := streams.errors ++ misuse.message }) := by
  obtain ⟨input, output, errors⟩ := streams
  induction options generalizing chosen with
  | nil => rfl
  | cons option options ih =>
    rw [prompt, Command.prompt]
    cases Command.promptOption? option with
    | some text => exact ih text
    | none =>
      simp only [ran_bind, ran_complain, ran_exit, unknownOption_message]
      rw [String.append_assoc]

end Commands

end Process

namespace Command

theorem prompt_refuses {chosen : String} {options : List String} {misuse : Misuse}
    (refused : prompt chosen options = .error misuse) : ∃ option, misuse = .unknownOption option := by
  induction options generalizing chosen with
  | nil => cases refused
  | cons option options ih =>
    rw [prompt] at refused
    split at refused
    · exact ih refused
    · cases refused
      exact ⟨option, rfl⟩

theorem ofArgs_of_prompt {options : List String} {text : String}
    (chosen : prompt Session.defaultPrompt options = .ok text) : ofArgs ("repl" :: options) = .ok (.session text) :=
  congrArg (Except.map session) chosen

theorem ofArgs_of_prompt_error {options : List String} {misuse : Misuse}
    (refused : prompt Session.defaultPrompt options = .error misuse) : ofArgs ("repl" :: options) = .error misuse :=
  congrArg (Except.map session) refused

theorem ofArgs_name {name : String} (session : name ≠ "repl") (listing : name ≠ "lex") (rest : List String) :
    ofArgs (name :: rest) =
      if name ∈ ["help", "--help", "-h"] then .ok .help
      else if name ∈ ["version", "--version", "-V"] then .ok .version
      else .error (.unknownCommand name) := by
  unfold ofArgs
  split <;> simp_all

end Command

def Stop.code : Stop → Nat
  | exit code => code
  | panic => 101

/-- What a process leaves behind. -/
structure Finish extends Report where
  unread : List UInt8
  deriving DecidableEq

/-- The program as it happens, with these arguments. Like `surroundings`, they are valid Unicode. -/
def Surroundings.live (surroundings : Surroundings) (args : List String) : Finish :=
  let (result, streams) := Process.ran (Process.main surroundings args) ⟨⟨surroundings.input, false⟩, [], ""⟩
  let code :=
    match result with
    | .ok () => 0
    | .error stop => stop.code
  ⟨⟨code, streams.output, streams.errors⟩, streams.input.bytes⟩

namespace Surroundings

variable (surroundings : Surroundings)

private theorem live_start (options : List String) :
    surroundings.live ("repl" :: options) =
      ⟨surroundings.run ("repl" :: options),
        match Command.prompt Session.defaultPrompt options with
        | .ok _ => []
        | .error _ => surroundings.input⟩ := by
  simp only [live, Process.main, Process.start, Process.ran_bind, Process.ran_prompt, run]
  cases chosen : Command.prompt Session.defaultPrompt options with
  | error misuse =>
    obtain ⟨option, rfl⟩ := Command.prompt_refuses chosen
    simp only [Command.ofArgs_of_prompt_error chosen, String.empty_append]
    rfl
  | ok text =>
    simp only [Command.ofArgs_of_prompt chosen, Process.ran_session, report, Script.run_none]
    rfl

private theorem live_listing (path : String) (rest : List String) :
    surroundings.live ("lex" :: path :: rest) = ⟨surroundings.run ("lex" :: path :: rest), surroundings.input⟩ := by
  have args : Command.ofArgs ("lex" :: path :: rest) = .ok (.listing path) := rfl
  have outcome : (Listing.talk path (surroundings.contents path)).outcome none =
      (Listing.script path (surroundings.contents path)).run none := Listing.live_eq_run path _ none
  simp only [live, Process.main, Process.listing, Process.carry, Process.ran_bind, Process.ran_emit, outcome, run, args,
    report, Report.ofOutcome, List.nil_append]
  cases ((Listing.script path (surroundings.contents path)).run none).result with
  | ok count => rfl
  | error failure => cases failure <;> rfl

/-- Any other name asks for the help text or the version, or is not known. -/
private theorem live_name {name : String} (session : name ≠ "repl") (listing : name ≠ "lex") (rest : List String) :
    surroundings.live (name :: rest) = ⟨surroundings.run (name :: rest), surroundings.input⟩ := by
  have args := Command.ofArgs_name session listing rest
  have main : Process.main surroundings (name :: rest) =
      if name ∈ ["help", "--help", "-h"] then Process.help
      else if name ∈ ["version", "--version", "-V"] then Process.print Command.versionLine
      else Process.reject name := by
    unfold Process.main
    split <;> simp_all
  by_cases helps : name ∈ ["help", "--help", "-h"]
  · simp only [live, main, run, args, helps, if_true, Process.ran_help, report, Report.ofText]
    -- Not among the `simp` lemmas, where the help text would be computed to check the step.
    rw [List.nil_append]
  by_cases version : name ∈ ["version", "--version", "-V"]
  · simp only [live, main, run, args, helps, version, if_true, if_false, Process.ran_print, List.nil_append,
      report, Report.ofText]
  · simp only [live, main, run, args, helps, version, if_false, Process.ran_reject, Stop.code, Report.ofMisuse]
    rw [List.nil_append]

/-- What comes of the program is what the command line reports. Only a session reads its input. -/
theorem live_eq (args : List String) :
    surroundings.live args =
      ⟨surroundings.run args,
        match Command.ofArgs args with
        | .ok (.session _) => []
        | _ => surroundings.input⟩ := by
  cases args with
  | nil =>
    have main : Process.main surroundings [] = Process.main surroundings ["repl"] := rfl
    have start := surroundings.live_start []
    rwa [live, ← main] at start
  | cons name rest =>
    by_cases session : name = "repl"
    · rw [session, live_start]
      cases chosen : Command.prompt Session.defaultPrompt rest with
      | ok text => rw [Command.ofArgs_of_prompt chosen]
      | error misuse => rw [Command.ofArgs_of_prompt_error chosen]
    by_cases listing : name = "lex"
    · subst listing
      cases rest with
      | nil => rfl
      | cons path rest => exact surroundings.live_listing path rest
    · rw [surroundings.live_name session listing, Command.ofArgs_name session listing]
      split_ifs <;> rfl

theorem live_of_misuse {args : List String} {misuse : Misuse} (refused : Command.ofArgs args = .error misuse) :
    surroundings.live args = ⟨.ofMisuse misuse, surroundings.input⟩ := by
  rw [live_eq, run, refused]

theorem live_of_listing {args : List String} {path : String} (asked : Command.ofArgs args = .ok (.listing path)) :
    surroundings.live args =
      ⟨.ofOutcome (Listing.live path (surroundings.contents path) none), surroundings.input⟩ := by
  rw [live_eq, run, asked, Listing.live_eq_run]
  rfl

/-- A session that is asked for runs to the end of its input. -/
theorem live_of_session {args : List String} {prompt : String}
    (asked : Command.ofArgs args = .ok (.session prompt)) :
    let outcome := Session.live (Command.settings prompt surroundings.guest) ⟨surroundings.input, false⟩ none
    outcome.result = .ok () ∧ surroundings.live args = ⟨⟨0, outcome.output, ""⟩, []⟩ := by
  intro outcome
  have run : outcome = (Session.script (Command.settings prompt surroundings.guest) ⟨surroundings.input, false⟩).run
    none := Session.live_eq_run _ _ none
  have result : outcome.result = .ok () := by
    rw [run, Script.run_none]
    rfl
  refine ⟨result, ?_⟩
  rw [live_eq, Surroundings.run, asked]
  simp only [report, ← run, Report.ofOutcome, result]

end Surroundings

end MonkeyTokens
