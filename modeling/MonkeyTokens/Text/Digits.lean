/-! Numbers as text: decimal, hexadecimal without padding, and the two digits of a byte. -/

namespace MonkeyTokens.Text

/-- Decimal digits, with no leading zero. -/
def decimal (n : Nat) : List Char := Nat.toDigits 10 n

/-- Lower-case hexadecimal digits, with no leading zero. -/
def hex (n : Nat) : List Char := Nat.toDigits 16 n

/-- The two upper-case hexadecimal digits of a byte. -/
def hexByte (byte : UInt8) : List Char :=
  [(Nat.digitChar (byte.toNat / 16)).toUpper, (Nat.digitChar (byte.toNat % 16)).toUpper]

end MonkeyTokens.Text
