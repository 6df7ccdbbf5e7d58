import MonkeyTokens.Lexing.Lexer

/-! What ends a command early: a file that cannot be read, a device that stops working, a byte outside
ASCII in a file, or a lexer that refuses to read. The last is no error but a panic, and no command comes
to it. -/

namespace MonkeyTokens

/-- Why the system gives no contents for a path. -/
inductive FileFault where
  | notFound
  /-- A file stands where the path needs a directory. -/
  | notDirectory
  | isDirectory
  | nameTooLong
  /-- The path holds a zero character, so the system is not asked. -/
  | zeroInPath
  | other (text : String) (number : Nat)
  deriving DecidableEq

/-- A device that takes no more bytes, or one that gives no more. -/
inductive DeviceFault where
  | outputFull
  | inputBroken
  | other (text : String)
  deriving DecidableEq

inductive Failure where
  | unreadable (path : String) (fault : FileFault)
  | device (fault : DeviceFault)
  | invalid (bad : InvalidByte)
  | refused
  deriving DecidableEq

private def numbered (text : String) (number : Nat) : String :=
  text ++ " (os error " ++ String.ofList (Text.decimal number) ++ ")"

def FileFault.message : FileFault → String
  | notFound => numbered "No such file or directory" 2
  | notDirectory => numbered "Not a directory" 20
  | isDirectory => numbered "Is a directory" 21
  | nameTooLong => numbered "File name too long" 36
  | zeroInPath => "file name contained an unexpected NUL byte"
  | other text number => numbered text number

def DeviceFault.message : DeviceFault → String
  | outputFull => "write limit reached"
  | inputBroken => "read failed"
  | other text => text

def Failure.message : Failure → String
  | unreadable path fault => "error reading '" ++ path ++ "': " ++ fault.message
  | device fault => fault.message
  | invalid bad => bad.message
  | refused => Lexer.refusal

end MonkeyTokens
