import MonkeyTokens.Console.Command

/-! The program on real streams and files. A session answers each line before it reads the next. -/

namespace MonkeyTokens.Terminal

/-- Write what the steps write, and pass it on at once. -/
def carryOut (steps : List Step) : IO Unit := do
  let output ← IO.getStdout
  for step in steps do
    match step with
    | .log _ => pure ()
    | .write text => output.putStr text
  output.flush

/-- One line with its ending; what is left at the end of the input, perhaps nothing. -/
partial def readLine (input : IO.FS.Stream) (line : List UInt8) : IO (List UInt8) := do
  match (← input.read 1).toList with
  | [] => return line.reverse
  | byte :: _ => if byte = Byte.lineFeed then return (byte :: line).reverse else readLine input (byte :: line)

partial def converse (settings : Session.Settings) : IO Unit := do
  carryOut [.write settings.prompt]
  match ← readLine (← IO.getStdin) [] with
  | [] => return
  | line => do
    carryOut (Session.answer line)
    converse settings

/-- The system's own text and number for an error, where it has them. -/
def described : IO.Error → Option (String × UInt32)
  | .interrupted _ number text | .noFileOrDirectory _ number text | .invalidArgument _ number text
  | .permissionDenied _ number text | .resourceExhausted _ number text | .inappropriateType _ number text
  | .noSuchThing _ number text | .alreadyExists _ number text | .otherError number text
  | .resourceBusy number text | .resourceVanished number text | .unsupportedOperation number text
  | .hardwareFault number text | .unsatisfiedConstraints number text | .illegalOperation number text
  | .protocolError number text | .timeExpired number text => some (text, number)
  | .unexpectedEof | .userError _ => none

/-- Some calls give the number negated. -/
def fault (error : IO.Error) : FileFault :=
  match described error with
  | none => .other (toString error) 0
  | some (text, number) =>
    match min number (0 - number) with
    | 2 => .notFound
    | 20 => .notDirectory
    | 21 => .isDirectory
    | 36 => .nameTooLong
    | positive => .other text positive.toNat

def contents (path : String) : IO (Except FileFault (List UInt8)) := do
  match ← (IO.FS.readBinFile ⟨path⟩).toBaseIO with
  | .ok bytes => return .ok bytes.toList
  | .error error => return .error (fault error)

def publish (report : Report) : IO UInt32 := do
  (← IO.getStdout).write report.output.toByteArray
  (← IO.getStdout).flush
  IO.eprint report.errors
  return report.code.toUInt32

def run (args : List String) : IO UInt32 := do
  match Command.ofArgs args with
  | .error misuse => publish (.ofMisuse misuse)
  | .ok (.session prompt) => do
    let guest := (← IO.getEnv "USER") <|> (← IO.getEnv "USERNAME")
    let settings := Command.settings prompt guest
    carryOut (Session.opening settings)
    converse settings
    return 0
  | .ok (.listing path) => do
    let script := Listing.script path (← contents path)
    publish (.ofOutcome (script.run none))
  | .ok .help => publish (.ofText Command.usage)
  | .ok .version => publish (.ofText Command.versionLine)

end MonkeyTokens.Terminal

def main (args : List String) : IO UInt32 := do
  try
    MonkeyTokens.Terminal.run args
  catch error =>
    let failure : MonkeyTokens.Failure := .device (.other (MonkeyTokens.Terminal.fault error).message)
    let outcome : MonkeyTokens.Outcome Unit := ⟨[], [], .error failure⟩
    IO.eprint (MonkeyTokens.Report.ofOutcome outcome).errors
    return 1
