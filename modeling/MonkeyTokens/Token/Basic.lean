import MonkeyTokens.Text.Quoted
import MonkeyTokens.Token.Kind

/-! Tokens: a kind with the source text that gave rise to it. Any kind may stand with any text; which
pairs a scan produces is a matter of the lexer. Listings show a token by the name of its kind, outlines
by the tag, both with the text quoted, and in it some characters by number. -/

namespace MonkeyTokens

structure Token where
  kind : Kind
  literal : String
  deriving DecidableEq

namespace Token

def eof : Token := ⟨.eof, ""⟩

/-- Decided by the kind alone. -/
def isEof (token : Token) : Bool := token.kind = .eof

def renderBy (unprinted : Char → Bool) (token : Token) : String :=
  "\x7bkind: " ++ token.kind.name ++ ", literal: " ++ Text.quoteBy unprinted token.literal ++ "\x7d"

def outlineBy (unprinted : Char → Bool) (token : Token) : String :=
  token.kind.tag ++ "(" ++ Text.quoteBy unprinted token.literal ++ ")"

/-- The token as listings show it. -/
def render : Token → String := renderBy Text.isUnprinted

/-- The token as outlines show it. -/
def outline : Token → String := outlineBy Text.isUnprinted

end Token

end MonkeyTokens
