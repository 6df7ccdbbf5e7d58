import MonkeyTokens.Token.Kind

/-! Log events: one for each reading of a lexer, one when a session's input is used up, and one when a
file has been read for a listing. Offsets count the bytes of the source that is being scanned. -/

namespace MonkeyTokens

inductive Event where
  /-- A token other than the end token starts at `pos`. -/
  | token (kind : Kind) (pos : Nat)
  | endOfInput (pos : Nat)
  | invalidByte (byte : UInt8) (pos : Nat)
  | inputClosed
  | lexingFile (path : String) (size : Nat)
  deriving DecidableEq

namespace Event

inductive Level where
  | trace
  | debug
  deriving DecidableEq

def level : Event → Level
  | token _ _ => .trace
  | _ => .debug

/-- The activities that log. -/
inductive Origin where
  | lexing
  | session
  | listing
  deriving DecidableEq

def origin : Event → Origin
  | token _ _ | endOfInput _ | invalidByte _ _ => .lexing
  | inputClosed => .session
  | lexingFile _ _ => .listing

def message : Event → String
  | token _ _ => "token"
  | endOfInput _ => "end of input"
  | invalidByte _ _ => "invalid ASCII byte"
  | inputClosed => "input closed"
  | lexingFile _ _ => "lexing file"

end Event

end MonkeyTokens
