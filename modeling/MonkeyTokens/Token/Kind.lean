/-! Kinds of token. A kind has two texts: its tag, a word that no other kind has, and its name, which
is the source text for operators and delimiters and an upper-case word for the rest. `lexeme?` spells
the kinds whose source text never varies and `ofWord` finds the kind of a word. The two tables are
written independently of each other; they agree on the seven reserved words. -/

namespace MonkeyTokens

inductive Kind where
  /-- One byte for which the language has no use. -/
  | illegal
  /-- The end of the source. -/
  | eof
  | ident
  /-- Decimal digits, kept as text. -/
  | int
  | assign
  | plus
  | minus
  | slash
  | asterisk
  | bang
  | less
  | greater
  | equal
  | notEqual
  | comma
  | semicolon
  | lParen
  | rParen
  | lBrace
  | rBrace
  | functionWord
  | letWord
  | returnWord
  | ifWord
  | elseWord
  | trueWord
  | falseWord
  deriving DecidableEq

namespace Kind

def all : List Kind :=
  [illegal, eof, ident, int, assign, plus, minus, slash, asterisk, bang, less, greater, equal, notEqual,
    comma, semicolon, lParen, rParen, lBrace, rBrace, functionWord, letWord, returnWord, ifWord, elseWord,
    trueWord, falseWord]

theorem mem_all (kind : Kind) : kind ∈ all := by cases kind <;> decide

/-- The word that tells the kind from every other. -/
def tag : Kind → String
  | illegal => "Illegal"
  | eof => "Eof"
  | ident => "Ident"
  | int => "Int"
  | assign => "Assign"
  | plus => "Plus"
  | minus => "Minus"
  | slash => "Slash"
  | asterisk => "Asterisk"
  | bang => "Bang"
  | less => "Less"
  | greater => "Greater"
  | equal => "Equal"
  | notEqual => "NotEqual"
  | comma => "Comma"
  | semicolon => "Semicolon"
  | lParen => "LParen"
  | rParen => "RParen"
  | lBrace => "LBrace"
  | rBrace => "RBrace"
  | functionWord => "Function"
  | letWord => "Let"
  | returnWord => "Return"
  | ifWord => "If"
  | elseWord => "Else"
  | trueWord => "True"
  | falseWord => "False"

/-- The name under which token listings show the kind. -/
def name : Kind → String
  | illegal => "ILLEGAL"
  | eof => "EOF"
  | ident => "IDENT"
  | int => "INT"
  | assign => "="
  | plus => "+"
  | minus => "-"
  | slash => "/"
  | asterisk => "*"
  | bang => "!"
  | less => "<"
  | greater => ">"
  | equal => "=="
  | notEqual => "!="
  | comma => ","
  | semicolon => ";"
  | lParen => "("
  | rParen => ")"
  | lBrace => "\x7b"
  | rBrace => "\x7d"
  | functionWord => "FUNCTION"
  | letWord => "LET"
  | returnWord => "RETURN"
  | ifWord => "IF"
  | elseWord => "ELSE"
  | trueWord => "TRUE"
  | falseWord => "FALSE"

def isReserved : Kind → Bool
  | functionWord | letWord | returnWord | ifWord | elseWord | trueWord | falseWord => true
  | _ => false

/-- The source text of a kind that has only one. -/
def lexeme? : Kind → Option String
  | illegal | eof | ident | int => none
  | functionWord => some "fn"
  | letWord => some "let"
  | returnWord => some "return"
  | ifWord => some "if"
  | elseWord => some "else"
  | trueWord => some "true"
  | falseWord => some "false"
  | kind => some kind.name

/-- The kind of a word: that of a reserved word if it is one, otherwise an identifier. The number of
bytes decides which reserved words come into question, so most words are compared with none. -/
def ofWord (word : String) : Kind :=
  match word.utf8ByteSize with
  | 2 =>
    if word = "fn" then functionWord
    else if word = "if" then ifWord
    else ident
  | 3 => if word = "let" then letWord else ident
  | 4 =>
    if word = "else" then elseWord
    else if word = "true" then trueWord
    else ident
  | 5 => if word = "false" then falseWord else ident
  | 6 => if word = "return" then returnWord else ident
  | _ => ident

end Kind

end MonkeyTokens
