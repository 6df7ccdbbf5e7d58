import MonkeyTokens.Console.Listing
import MonkeyTokens.Console.Session

/-! The command line: arguments choose a session, a listing, the help text or the version, or are
refused. Nothing is read or shown before all arguments are accepted. The exit code is 1 exactly when
something goes to the error output. -/

namespace MonkeyTokens

inductive Command where
  | session (prompt : String)
  | listing (path : String)
  | help
  | version
  deriving DecidableEq

inductive Misuse where
  | noPath
  | unknownOption (option : String)
  | unknownCommand (name : String)
  deriving DecidableEq

/-- What a command gets from its surroundings. Texts in it are valid Unicode, and so are the arguments that
name the command: the program ends before it has a list of arguments where one of them is not. -/
structure Surroundings where
  input : List UInt8
  /-- What the system gives for a path. -/
  contents : String → Except FileFault (List UInt8)
  /-- The variable of that name. One that is not set and one that is not valid Unicode are both absent. -/
  user : Option String
  /-- As `user`, and counts when there is no `user`. -/
  username : Option String

structure Report where
  code : Nat
  output : List UInt8
  errors : String
  deriving DecidableEq

namespace Misuse

def message : Misuse → String
  | noPath => "Usage: monkey lex <file>\n"
  | unknownOption option =>
    "error: unknown repl option '" ++ option ++ "'\nUsage: monkey repl [--prompt=<text>]\n"
  | unknownCommand name => "Unknown command: " ++ name ++ "\n\n"

end Misuse

namespace Command

/-- The text of an option that sets the prompt. -/
def promptOption? (option : String) : Option String :=
  ("--prompt=".toList.isPrefixOf? option.toList).map String.ofList

/-- The prompt that options choose; the last one counts. -/
def prompt (chosen : String) : List String → Except Misuse String
  | [] => .ok chosen
  | option :: rest =>
    match promptOption? option with
    | some text => prompt text rest
    | none => .error (.unknownOption option)

def ofArgs : List String → Except Misuse Command
  | [] => .ok (.session Session.defaultPrompt)
  | "repl" :: options => (prompt Session.defaultPrompt options).map .session
  | ["lex"] => .error .noPath
  | "lex" :: path :: _ => .ok (.listing path)
  | name :: _ =>
    if name ∈ ["help", "--help", "-h"] then .ok .help
    else if name ∈ ["version", "--version", "-V"] then .ok .version
    else .error (.unknownCommand name)

def usage : String :=
  String.join (lines.map (· ++ "\n"))
where
  lines := [
    "Monkey language tools",
    "",
    "Usage: monkey [command] [options]",
    "",
    "Commands:",
    "  repl                 Start the token REPL (default)",
    "  lex <file>           Tokenize a file and display tokens",
    "  help                 Show this help message",
    "  version              Show version information",
    "",
    "REPL options:",
    "  --prompt=<text>      Prompt shown before each line (default: \x22>> \x22)",
    "",
    "Logging:",
    "  RUST_LOG=monkey_lexer=trace monkey lex main.monkey"]

def versionLine : String := "Monkey 0.1.0\n"

/-- The settings of a session that a user starts. -/
def settings (prompt : String) (user : Option String) : Session.Settings :=
  ⟨prompt, some (Session.greeting user)⟩

end Command

namespace Report

def ofText (text : String) : Report := ⟨0, Text.utf8 text, ""⟩

/-- A failure is told on the error output. What a panic says there is left out. -/
def ofOutcome {α : Type} (outcome : Outcome α) : Report :=
  match outcome.result with
  | .ok _ => ⟨0, outcome.output, ""⟩
  | .error .refused => ⟨101, outcome.output, ""⟩
  | .error failure => ⟨1, outcome.output, "error: " ++ failure.message ++ "\n"⟩

theorem ofOutcome_of_failure {α : Type} {outcome : Outcome α} {failure : Failure}
    (failed : outcome.result = .error failure) (calm : failure ≠ .refused) :
    ofOutcome outcome = ⟨1, outcome.output, "error: " ++ failure.message ++ "\n"⟩ := by
  rw [ofOutcome, failed]
  cases failure <;> first | rfl | exact absurd rfl calm

/-- An unknown command also gets the help text. -/
def ofMisuse (misuse : Misuse) : Report :=
  match misuse with
  | .unknownCommand _ => ⟨1, Text.utf8 Command.usage, misuse.message⟩
  | _ => ⟨1, [], misuse.message⟩

end Report

namespace Surroundings

/-- The name by which a session greets. -/
def guest (surroundings : Surroundings) : Option String := surroundings.user <|> surroundings.username

def report (surroundings : Surroundings) : Command → Report
  | .session prompt =>
    let settings := Command.settings prompt surroundings.guest
    .ofOutcome ((Session.script settings ⟨surroundings.input, false⟩).run none)
  | .listing path => .ofOutcome ((Listing.script path (surroundings.contents path)).run none)
  | .help => .ofText Command.usage
  | .version => .ofText Command.versionLine

def run (surroundings : Surroundings) (args : List String) : Report :=
  match Command.ofArgs args with
  | .ok command => surroundings.report command
  | .error misuse => .ofMisuse misuse

end Surroundings

end MonkeyTokens
