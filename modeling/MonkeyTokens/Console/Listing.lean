import MonkeyTokens.Console.Script
import MonkeyTokens.Lexing.Lexer

/-! Listings of files: a heading with the number of tokens, then one indented line for each. A file is
scanned to its end before anything is shown, so one that holds an invalid byte shows nothing. -/

namespace MonkeyTokens.Listing

def heading (path : String) (count : Nat) : String :=
  "Tokens for '" ++ path ++ "' (" ++ String.ofList (Text.decimal count) ++ " tokens):\n"

def entry (token : Token) : String := "  " ++ token.render ++ "\n"

def page (path : String) (tokens : List Token) : List Step :=
  .write (heading path tokens.length) :: tokens.map (.write ∘ entry)

/-- The listing of a file of known contents; the result is the number of tokens. -/
def ofContents (path : String) (contents : List UInt8) : Script Nat :=
  let lexer := Lexer.start contents
  let logs := .log (.lexingFile path contents.length) :: lexer.events.map .log
  match Item.tokens lexer.items with
  | .ok tokens => ⟨logs ++ page path tokens, .ok tokens.length⟩
  | .error bad => ⟨logs, .error (.invalid bad)⟩

/-- The listing of a file, from what the system gave for its path. -/
def script (path : String) (contents : Except FileFault (List UInt8)) : Script Nat :=
  match contents with
  | .ok bytes => ofContents path bytes
  | .error fault => ⟨[], .error (.unreadable path fault)⟩

end MonkeyTokens.Listing
