import MonkeyTokens.Console.Script
import MonkeyTokens.Lexing.Lexer
import MonkeyTokens.Source.Line

/-! Sessions: a prompt, a line of input, and the items of that line, until the input is used up. Each
line is scanned on its own, so offsets count from its first byte and an invalid byte costs only the
rest of its line. -/

namespace MonkeyTokens.Session

structure Settings where
  /-- Shown before each line is read. -/
  prompt : String
  /-- A line shown at the start. -/
  greeting : Option String
  deriving DecidableEq

def defaultPrompt : String := ">> "

/-- The bytes that can be read, after which the input ends or breaks. -/
structure Input where
  bytes : List UInt8
  breaks : Bool
  deriving DecidableEq

def greeting (user : Option String) : String :=
  match user with
  | none | some "" => "Hello! This is the Monkey programming language!"
  | some name => "Hello " ++ name ++ "! This is the Monkey programming language!"

/-- What a session gets to read: the lines of the input, less an unfinished one when the input breaks. -/
def Input.lines (input : Input) : List (List UInt8) :=
  let lines := Line.split input.bytes
  if input.breaks then lines.filter Line.isEnded else lines

/-- A reading is logged, then its item is shown on a line of its own. -/
def display (reading : Reading) : List Step := [.log reading.event, .write (reading.item.render ++ "\n")]

def answer (line : List UInt8) : List Step := (Lexer.start (Line.body line)).readings.flatMap display

def opening (settings : Settings) : List Step :=
  match settings.greeting with
  | none => []
  | some text => [.write (text ++ "\n")]

/-- One round: the prompt, then the answer to the line that was read. -/
def round (settings : Settings) (line : List UInt8) : List Step := .write settings.prompt :: answer line

/-- The last round finds no line. -/
def closing (settings : Settings) (input : Input) : List Step :=
  .write settings.prompt :: if input.breaks then [] else [.log .inputClosed]

def script (settings : Settings) (input : Input) : Script Unit where
  steps := opening settings ++ input.lines.flatMap (round settings) ++ closing settings input
  result := if input.breaks then .error (.device .inputBroken) else .ok ()

end MonkeyTokens.Session
