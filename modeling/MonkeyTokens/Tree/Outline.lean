import MonkeyTokens.Tree.Basic

/-! Outlines of trees: one line that shows every part of a tree, with the parts of a node in braces
under their labels, the statements in brackets, and an absent value as such. -/

namespace MonkeyTokens

section

variable (unprinted : Char → Bool)

def Name.outlineBy (name : Name) : String :=
  "Identifier \x7b token: " ++ name.token.outlineBy unprinted ++ ", value: "
    ++ Text.quoteBy unprinted name.value ++ " \x7d"

def Expression.outlineBy : Expression → String
  | name found => "Ident(" ++ found.outlineBy unprinted ++ ")"

def Binding.outlineBy (binding : Binding) : String :=
  let value :=
    match binding.value with
    | none => "None"
    | some found => "Some(" ++ found.outlineBy unprinted ++ ")"
  "LetStatement \x7b token: " ++ binding.token.outlineBy unprinted ++ ", name: "
    ++ binding.name.outlineBy unprinted ++ ", value: " ++ value ++ " \x7d"

def Statement.outlineBy : Statement → String
  | binding found => "Let(" ++ found.outlineBy unprinted ++ ")"

def Program.outlineBy (program : Program) : String :=
  "Program \x7b statements: [" ++ ", ".intercalate (program.statements.map (Statement.outlineBy unprinted))
    ++ "] \x7d"

end

def Program.outline : Program → String := outlineBy Text.isUnprinted

end MonkeyTokens
