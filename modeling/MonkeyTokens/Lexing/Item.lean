import MonkeyTokens.Text.Bytes
import MonkeyTokens.Token.Basic

/-! What a scan yields: tokens, and at most one byte outside ASCII. The end token and an invalid byte
are final items: nothing is scanned after them. -/

namespace MonkeyTokens

/-- A byte outside ASCII, with its offset in the source. -/
structure InvalidByte where
  byte : UInt8
  pos : Nat
  deriving DecidableEq

namespace InvalidByte

def message (bad : InvalidByte) : String :=
  "lexer: invalid ASCII byte 0x" ++ String.ofList (Text.hexByte bad.byte) ++ " at byte "
    ++ String.ofList (Text.decimal bad.pos)

def outline (bad : InvalidByte) : String :=
  "InvalidAscii \x7b byte: " ++ String.ofList (Text.decimal bad.byte.toNat) ++ ", pos: "
    ++ String.ofList (Text.decimal bad.pos) ++ " \x7d"

end InvalidByte

inductive Item where
  | token (token : Token)
  | invalid (bad : InvalidByte)
  deriving DecidableEq

namespace Item

def isFinal : Item → Bool
  | token found => found.isEof
  | invalid _ => true

def render : Item → String
  | token found => found.render
  | invalid bad => bad.message

/-- The tokens of a scan, or the invalid byte that cuts it short. -/
def tokens : List Item → Except InvalidByte (List Token)
  | [] => .ok []
  | token found :: rest => (tokens rest).map (found :: ·)
  | invalid bad :: _ => .error bad

end Item

end MonkeyTokens
