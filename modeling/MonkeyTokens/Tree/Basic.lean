import MonkeyTokens.Token.Basic

/-! Trees built from tokens. Every node keeps the token that it was built from, and its literal is that
token's. The value of a name is a text of its own, equal to the literal unless it was set otherwise. -/

namespace MonkeyTokens

structure Name where
  token : Token
  value : String
  deriving DecidableEq

inductive Expression where
  | name (name : Name)
  deriving DecidableEq

/-- A name bound to a value, where one is given. -/
structure Binding where
  token : Token
  name : Name
  value : Option Expression
  deriving DecidableEq

inductive Statement where
  | binding (binding : Binding)
  deriving DecidableEq

structure Program where
  statements : List Statement
  deriving DecidableEq

def Name.ofToken (token : Token) : Name := ⟨token, token.literal⟩

def Name.literal (name : Name) : String := name.token.literal

def Expression.literal : Expression → String
  | name found => found.literal

def Binding.literal (binding : Binding) : String := binding.token.literal

def Statement.literal : Statement → String
  | binding found => found.literal

/-- The literal of the first statement, or nothing for an empty program. -/
def Program.literal (program : Program) : String :=
  match program.statements with
  | [] => ""
  | first :: _ => first.literal

end MonkeyTokens
