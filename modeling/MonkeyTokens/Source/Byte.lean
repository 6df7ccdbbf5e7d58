/-! Classes of source bytes. All of them are ASCII; a byte from 0x80 on belongs to none. -/

namespace MonkeyTokens.Byte

def isAscii (byte : UInt8) : Bool := byte < 0x80

theorem isAscii_eq_false_iff {byte : UInt8} : isAscii byte = false ↔ 0x80 ≤ byte := by
  rw [isAscii, decide_eq_false_iff_not, UInt8.not_lt]

/-- The space and the five controls from tab to carriage return, vertical tab and form feed included. -/
def isBlank (byte : UInt8) : Bool := byte == 0x20 || (0x09 ≤ byte && byte ≤ 0x0D)

def isDigit (byte : UInt8) : Bool := 0x30 ≤ byte && byte ≤ 0x39

/-- A letter or the underscore. -/
def isWordStart (byte : UInt8) : Bool :=
  (0x41 ≤ byte && byte ≤ 0x5A) || (0x61 ≤ byte && byte ≤ 0x7A) || byte == 0x5F

def isWordByte (byte : UInt8) : Bool := isWordStart byte || isDigit byte

def lineFeed : UInt8 := 0x0A

/-- May stand before the line feed at the end of a line. -/
def carriageReturn : UInt8 := 0x0D

/-- The second byte of the two-byte operators. -/
def equalsSign : UInt8 := 0x3D

end MonkeyTokens.Byte
