import MonkeyTokens.Text.Digits
import MonkeyTokens.Text.Unprinted

/-! Quoted text: a text between double quotes, on one line and with nothing unseen in it. Each character
is written on its own, whatever stands beside it. Which characters are shown by number is left open here. -/

namespace MonkeyTokens.Text

/-- One character between the quotes. Quote and backslash follow a backslash, four controls have a
letter, and any other unprinted character is shown by its number. -/
def escape (unprinted : Char → Bool) (c : Char) : List Char :=
  match c with
  | '\x22' => ['\\', '\x22']
  | '\\' => ['\\', '\\']
  | '\x00' => ['\\', '0']
  | '\t' => ['\\', 't']
  | '\n' => ['\\', 'n']
  | '\r' => ['\\', 'r']
  | _ => if unprinted c then ['\\', 'u', '\x7b'] ++ hex c.toNat ++ ['\x7d'] else [c]

def quoteBy (unprinted : Char → Bool) (text : String) : String :=
  String.ofList ('\x22' :: text.toList.flatMap (escape unprinted) ++ ['\x22'])

def quote : String → String := quoteBy isUnprinted

end MonkeyTokens.Text
