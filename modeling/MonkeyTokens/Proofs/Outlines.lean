import MonkeyTokens.Proofs.Rendering
import MonkeyTokens.Tree.Outline

/-! Outlines tell trees apart. Tokens, names, expressions and statements look alike in places: `Let(` opens
a token and a statement, and a literal may hold the text of a whole tree. But each part is shown in a way
that tells where it ends, and what stands in front of a part tells which part it is, so an outline can be
taken apart from its front. -/

namespace MonkeyTokens

/-- The text that shows a value tells the value and where it ends, whatever stands behind it. -/
def Delimits {α : Type} (shown : α → String) : Prop :=
  ∀ left right rest others, (shown left).toList ++ rest = (shown right).toList ++ others →
    left = right ∧ rest = others

namespace Delimits

variable {α : Type} {shown : α → String}

theorem injective (delimits : Delimits shown) : Function.Injective shown := by
  intro left right same
  have whole : (shown left).toList ++ [] = (shown right).toList ++ [] := by rw [same]
  exact (delimits left right [] [] whole).1

/-- What stands around a part keeps its end in view, and the part makes the whole. -/
theorem framed {β : Type} {framed : β → String} {front back : String} (delimits : Delimits shown) {whole : α → β}
    (made : Function.Surjective whole) (frame : ∀ part, framed (whole part) = front ++ shown part ++ back) :
    Delimits framed := by
  intro left right rest others same
  obtain ⟨left, rfl⟩ := made left
  obtain ⟨right, rfl⟩ := made right
  simp only [frame, String.toList_append, List.append_assoc, List.append_cancel_left_eq] at same
  obtain ⟨rfl, behind⟩ := delimits left right _ _ same
  exact ⟨rfl, List.append_cancel_left behind⟩

/-- An absent value is told from a present one where no text starts as both of them do. -/
theorem orElse (delimits : Delimits shown) {absent : String}
    (apart : ∀ value rest others, absent.toList ++ rest ≠ (shown value).toList ++ others) :
    Delimits fun value : Option α => value.elim absent shown := by
  intro left right rest others same
  cases left with
  | none =>
    cases right with
    | none => exact ⟨rfl, List.append_cancel_left same⟩
    | some right => exact absurd same (apart right rest others)
  | some left =>
    cases right with
    | none => exact absurd same.symm (apart left others rest)
    | some right =>
      obtain ⟨rfl, behind⟩ := delimits left right rest others same
      exact ⟨rfl, behind⟩

/-- Each value behind a comma, and a bracket behind the last. -/
private theorem commas_append_inj (delimits : Delimits shown) {left right : List α} {rest others : List Char}
    (same : left.flatMap (fun value => ", ".toList ++ (shown value).toList) ++ ']' :: rest =
      right.flatMap (fun value => ", ".toList ++ (shown value).toList) ++ ']' :: others) :
    left = right ∧ rest = others := by
  induction left generalizing right with
  | nil =>
    cases right with
    | nil => simpa using same
    | cons value right => simp at same
  | cons value left ih =>
    cases right with
    | nil => simp at same
    | cons other right =>
      simp only [List.flatMap_cons, List.append_assoc, List.append_cancel_left_eq] at same
      obtain ⟨rfl, behind⟩ := delimits value other _ _ same
      obtain ⟨rfl, closed⟩ := ih behind
      exact ⟨rfl, closed⟩

private theorem toList_intercalate_cons (shown : α → String) (first : α) (more : List α) :
    (", ".intercalate ((first :: more).map shown)).toList =
      (shown first).toList ++ more.flatMap fun value => ", ".toList ++ (shown value).toList := by
  induction more generalizing first with
  | nil => simp
  | cons next more ih =>
    have behind := ih next
    rw [List.map_cons] at behind
    rw [List.map_cons, List.map_cons, String.intercalate_cons_cons]
    simp only [String.toList_append, behind, List.flatMap_cons, List.append_assoc]

/-- Values up to a closing bracket, where none is shown by a text that starts with one. -/
theorem listed (delimits : Delimits shown)
    (apart : ∀ value rest others, ']' :: rest ≠ (shown value).toList ++ others) :
    Delimits fun values : List α => ", ".intercalate (values.map shown) ++ "]" := by
  intro left right rest others same
  simp only [String.toList_append, List.append_assoc] at same
  cases left with
  | nil =>
    cases right with
    | nil => exact ⟨rfl, List.append_cancel_left same⟩
    | cons value right =>
      rw [toList_intercalate_cons, List.append_assoc] at same
      exact absurd same (apart value _ _)
  | cons value left =>
    rw [toList_intercalate_cons, List.append_assoc] at same
    cases right with
    | nil => exact absurd same.symm (apart value _ _)
    | cons other right =>
      rw [toList_intercalate_cons, List.append_assoc] at same
      obtain ⟨rfl, behind⟩ := delimits value other _ _ same
      obtain ⟨rfl, closed⟩ := commas_append_inj delimits behind
      exact ⟨rfl, closed⟩

end Delimits

section

variable (unprinted : Char → Bool)

theorem Text.delimits_quoteBy : Delimits (Text.quoteBy unprinted) := fun _ _ _ _ => Text.quoteBy_append_inj

theorem Kind.tag_injective : Function.Injective Kind.tag := by
  have apart : (all.map tag).Nodup := by decide +kernel
  intro left right same
  exact List.inj_on_of_nodup_map apart (mem_all left) (mem_all right) same

theorem Kind.tag_plain (kind : Kind) : '(' ∉ kind.tag.toList := by cases kind <;> simp [tag]

/-- A tag holds no parenthesis, so the first one ends it. -/
theorem Token.delimits_outlineBy : Delimits (Token.outlineBy unprinted) := by
  have parts (token : Token) (behind : List Char) :
      (token.outlineBy unprinted).toList ++ behind =
        token.kind.tag.toList ++ '(' :: ((Text.quoteBy unprinted token.literal).toList ++ ')' :: behind) := by
    simp [outlineBy]
  rintro ⟨kind, literal⟩ ⟨otherKind, otherLiteral⟩ rest others same
  rw [parts, parts] at same
  obtain ⟨tags, literals⟩ := cut_unique kind.tag_plain otherKind.tag_plain same
  obtain rfl := Kind.tag_injective (String.toList_inj.mp tags)
  obtain ⟨rfl, closed⟩ := Text.delimits_quoteBy unprinted _ _ _ _ literals
  exact ⟨rfl, (List.cons.inj closed).2⟩

theorem Name.delimits_outlineBy : Delimits (Name.outlineBy unprinted) := by
  rintro ⟨token, value⟩ ⟨otherToken, otherValue⟩ rest others same
  unfold outlineBy at same
  simp only [String.toList_append, List.append_assoc] at same
  rw [List.append_cancel_left_eq] at same
  obtain ⟨rfl, values⟩ := Token.delimits_outlineBy unprinted _ _ _ _ same
  obtain ⟨rfl, closed⟩ := Text.delimits_quoteBy unprinted _ _ _ _ (List.append_cancel_left values)
  exact ⟨rfl, List.append_cancel_left closed⟩

theorem Expression.delimits_outlineBy : Delimits (Expression.outlineBy unprinted) := by
  have made : Function.Surjective Expression.name := by
    rintro ⟨found⟩
    exact ⟨found, rfl⟩
  exact (Name.delimits_outlineBy unprinted).framed made fun _ => rfl

private theorem Binding.delimits_value : Delimits fun value : Option Expression =>
    value.elim "None" fun found => "Some(" ++ found.outlineBy unprinted ++ ")" := by
  apply Delimits.orElse
  · exact (Expression.delimits_outlineBy unprinted).framed Function.surjective_id fun _ => rfl
  · intro value rest others
    simp

theorem Binding.delimits_outlineBy : Delimits (Binding.outlineBy unprinted) := by
  have parts (binding : Binding) (behind : List Char) :
      (binding.outlineBy unprinted).toList ++ behind =
        "LetStatement \x7b token: ".toList ++ ((binding.token.outlineBy unprinted).toList ++ (", name: ".toList ++
          ((binding.name.outlineBy unprinted).toList ++ (", value: ".toList ++
            ((binding.value.elim "None" fun found => "Some(" ++ found.outlineBy unprinted ++ ")").toList ++
              (" \x7d".toList ++ behind)))))) := by
    unfold outlineBy
    simp only [String.toList_append, List.append_assoc]
    cases binding.value <;> rfl
  rintro ⟨token, name, value⟩ ⟨otherToken, otherName, otherValue⟩ rest others same
  rw [parts, parts, List.append_cancel_left_eq] at same
  obtain ⟨rfl, names⟩ := Token.delimits_outlineBy unprinted _ _ _ _ same
  obtain ⟨rfl, values⟩ := Name.delimits_outlineBy unprinted _ _ _ _ (List.append_cancel_left names)
  obtain ⟨rfl, closed⟩ := delimits_value unprinted _ _ _ _ (List.append_cancel_left values)
  exact ⟨rfl, List.append_cancel_left closed⟩

theorem Statement.delimits_outlineBy : Delimits (Statement.outlineBy unprinted) := by
  have made : Function.Surjective Statement.binding := by
    rintro ⟨found⟩
    exact ⟨found, rfl⟩
  exact (Binding.delimits_outlineBy unprinted).framed made fun _ => rfl

theorem Program.delimits_outlineBy : Delimits (Program.outlineBy unprinted) := by
  have apart (statement : Statement) (rest others : List Char) :
      ']' :: rest ≠ (statement.outlineBy unprinted).toList ++ others := by
    cases statement
    simp [Statement.outlineBy]
  have made : Function.Surjective Program.mk := by
    rintro ⟨statements⟩
    exact ⟨statements, rfl⟩
  have frame (statements : List Statement) :
      (Program.mk statements).outlineBy unprinted = "Program \x7b statements: [" ++
        (", ".intercalate (statements.map (Statement.outlineBy unprinted)) ++ "]") ++ " \x7d" := by
    -- The closing bracket is taken to the list, as its end.
    have regroup (front list bracket back : String) :
        front ++ list ++ (bracket ++ back) = front ++ (list ++ bracket) ++ back := by
      simp only [String.append_assoc]
    exact regroup _ _ "]" " \x7d"
  exact ((Statement.delimits_outlineBy unprinted).listed apart).framed made frame

end

/-- Outlines are equal exactly where the trees are, whatever characters are shown by number in them. -/
theorem outline_eq_iff (first second : Program) :
    (first.outline = second.outline ↔ first = second) ∧
      ∀ unprinted : Char → Bool, first.outlineBy unprinted = second.outlineBy unprinted ↔ first = second := by
  have tells (unprinted : Char → Bool) :
      first.outlineBy unprinted = second.outlineBy unprinted ↔ first = second :=
    (Program.delimits_outlineBy unprinted).injective.eq_iff
  exact ⟨tells Text.isUnprinted, tells⟩

end MonkeyTokens
