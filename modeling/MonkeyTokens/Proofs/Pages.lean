import MonkeyTokens.Proofs.Listings

/-! What a page tells. Tokens are shown alike only where they are the same, and each on one line, so the
page of a file tells its tokens: the count ends with its last digit, whatever the path is, and behind the
heading every line is one token. -/

namespace MonkeyTokens

namespace Listing

/-- The file is listed to its end. -/
def Accepts (path : String) (contents : List UInt8) : Prop :=
  ∃ count, (live path (.ok contents) none).result = .ok count

/-- All that the listing of a file shows where there is room. -/
def dump (path : String) (contents : List UInt8) : List UInt8 := (live path (.ok contents) none).output

theorem accepts_iff {path : String} {contents : List UInt8} :
    Accepts path contents ↔ ∃ tokens, Item.tokens (scan contents) = .ok tokens := by
  simp only [Accepts, live_eq_run, Script.run_none]
  cases found : Item.tokens (scan contents) with
  | ok tokens => simp [(script_of_tokens path found).2]
  | error bad => simp [(script_of_invalid path found).2]

theorem dump_of_tokens {path : String} {contents : List UInt8} {tokens : List Token}
    (found : Item.tokens (scan contents) = .ok tokens) : dump path contents =
      Text.utf8 (heading path tokens.length) ++ (tokens.map (Text.utf8 ∘ entry)).flatten := by
  rw [dump, live_eq_run, Script.run_none]
  exact (script_of_tokens path found).1

/-- How the heading says how many tokens there are. -/
private def tally (count : Nat) : String := String.ofList (Text.decimal count) ++ " tokens):"

private theorem tally_injective : Function.Injective tally := by
  intro left right same
  have whole := congrArg String.toList same
  simp only [tally, String.toList_append, String.toList_ofList, List.append_cancel_right_eq] at whole
  exact Text.decimal_injective whole

private theorem tally_oneLine (count : Nat) : Text.OneLine (tally count).toList := by
  have digits : Text.OneLine (Text.decimal count) := Text.OneLine.toDigits (by decide) count
  have fixed : Text.OneLine " tokens):".toList := by simp [Text.OneLine]
  rw [tally, String.toList_append, String.toList_ofList, Text.OneLine.append_iff]
  exact ⟨digits, fixed⟩

private theorem heading_eq_tally (path : String) (count : Nat) :
    heading path count = "Tokens for '" ++ path ++ "' (" ++ (tally count ++ "\n") := by
  unfold heading tally
  have last : " tokens):\n" = " tokens):" ++ "\n" := by decide
  simp only [last, String.append_assoc]

theorem heading_append_inj {path : String} {left right : Nat} {rest others : List UInt8}
    (same : Text.utf8 (heading path left) ++ rest = Text.utf8 (heading path right) ++ others) :
    left = right ∧ rest = others := by
  rw [heading_eq_tally, heading_eq_tally, Text.utf8_append _ (tally left ++ "\n"),
    Text.utf8_append _ (tally right ++ "\n"), List.append_assoc, List.append_assoc,
    List.append_cancel_left_eq] at same
  obtain ⟨tallies, behind⟩ := Text.line_append_inj (tally_oneLine left) (tally_oneLine right) same
  exact ⟨tally_injective tallies, behind⟩

/-- The lines of a page tell its tokens. -/
theorem entries_injective {left right : List Token}
    (same : (left.map (Text.utf8 ∘ entry)).flatten = (right.map (Text.utf8 ∘ entry)).flatten) : left = right := by
  have split (tokens : List Token) :
      Line.split (tokens.map (Text.utf8 ∘ entry)).flatten = tokens.map (Text.utf8 ∘ entry) := by
    apply Line.split_flatten
    intro line member
    obtain ⟨token, _, rfl⟩ := List.mem_map.mp member
    rw [Function.comp_apply]
    exact exists_line token
  have lines := congrArg Line.split same
  rw [split, split] at lines
  exact List.map_injective_iff.mpr (Text.utf8_injective.comp entry_injective) lines

theorem dump_eq_iff {path : String} {first second : List UInt8} (left : Accepts path first)
    (right : Accepts path second) :
    dump path first = dump path second ↔ Item.tokens (scan first) = Item.tokens (scan second) := by
  obtain ⟨tokens, found⟩ := accepts_iff.mp left
  obtain ⟨others, known⟩ := accepts_iff.mp right
  rw [dump_of_tokens found, dump_of_tokens known, found, known, Except.ok.injEq]
  constructor
  · intro same
    exact entries_injective (heading_append_inj same).2
  · rintro rfl
    rfl

end Listing

/-- Renderings tell tokens apart and stay on one line, whatever kind stands with whatever text; hence the
dumps of two accepted files under one path are equal exactly where their tokens are. Which characters of a
text are shown by number does not matter. -/
theorem render_tells_tokens :
    (∀ left right : Token, left.render = right.render ↔ left = right) ∧
      (∀ token : Token, '\n' ∉ token.render.toList ∧ '\r' ∉ token.render.toList) ∧
      (∀ path first second, Listing.Accepts path first → Listing.Accepts path second →
        (Listing.dump path first = Listing.dump path second ↔
          Item.tokens (scan first) = Item.tokens (scan second))) ∧
      ∀ unprinted : Char → Bool,
        (∀ left right : Token, left.renderBy unprinted = right.renderBy unprinted ↔ left = right) ∧
          ∀ token : Token, '\n' ∉ (token.renderBy unprinted).toList ∧ '\r' ∉ (token.renderBy unprinted).toList := by
  have tells (unprinted : Char → Bool) (left right : Token) :
      left.renderBy unprinted = right.renderBy unprinted ↔ left = right := (Token.renderBy_injective unprinted).eq_iff
  have oneLine (unprinted : Char → Bool) (token : Token) :
      '\n' ∉ (token.renderBy unprinted).toList ∧ '\r' ∉ (token.renderBy unprinted).toList := by
    have line := token.renderBy_oneLine unprinted
    exact ⟨fun feed => (line _ feed).1 rfl, fun back => (line _ back).2 rfl⟩
  refine ⟨tells _, oneLine _, ?_, fun unprinted => ⟨tells unprinted, oneLine unprinted⟩⟩
  intro path first second left right
  exact Listing.dump_eq_iff left right

/-- White space does not show in a dump and a token does, under a path that looks like a heading. -/
theorem render_tells_tokens_blank :
    let path := "f' (2 tokens):\n"
    Listing.Accepts path (Text.utf8 "x;") ∧ Listing.Accepts path (Text.utf8 " x ; ") ∧
      Listing.Accepts path (Text.utf8 "x,") ∧
      Listing.dump path (Text.utf8 "x;") = Listing.dump path (Text.utf8 " x ; ") ∧
      Listing.dump path (Text.utf8 "x;") ≠ Listing.dump path (Text.utf8 "x,") := by
  intro path
  obtain ⟨_, _, tells, _⟩ := render_tells_tokens
  have first : Item.tokens (scan (Text.utf8 "x;")) = .ok [⟨.ident, "x"⟩, ⟨.semicolon, ";"⟩, .eof] := by
    decide +kernel
  have second : Item.tokens (scan (Text.utf8 " x ; ")) = .ok [⟨.ident, "x"⟩, ⟨.semicolon, ";"⟩, .eof] := by
    decide +kernel
  have third : Item.tokens (scan (Text.utf8 "x,")) = .ok [⟨.ident, "x"⟩, ⟨.comma, ","⟩, .eof] := by
    decide +kernel
  have left : Listing.Accepts path (Text.utf8 "x;") := Listing.accepts_iff.mpr ⟨_, first⟩
  have spaced : Listing.Accepts path (Text.utf8 " x ; ") := Listing.accepts_iff.mpr ⟨_, second⟩
  have right : Listing.Accepts path (Text.utf8 "x,") := Listing.accepts_iff.mpr ⟨_, third⟩
  refine ⟨left, spaced, right, ?_, ?_⟩
  · rw [tells path _ _ left spaced, first, second]
  · rw [ne_eq, tells path _ _ left right, first, third]
    simp

end MonkeyTokens
