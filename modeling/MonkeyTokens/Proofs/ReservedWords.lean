import MonkeyTokens.Proofs.Spelling

/-! Reserved words. A word is compared only with those that have its number of bytes, and yet it is found
among them exactly where a table of all of them has it. Kind and text of a reserved word tell each other, and
what comes close to one without being one is an identifier. -/

namespace MonkeyTokens.Kind

/-- The kind is one of the reserved words, and the word is its text. -/
def Reserves (kind : Kind) (word : String) : Prop := kind.isReserved = true ∧ kind.lexeme? = some word

/-- The reserved words, each with its kind. -/
def reservedWords : List (String × Kind) :=
  (all.filter isReserved).filterMap fun kind => kind.lexeme?.map (·, kind)

/-- The kind of a word, looked up in the table whatever the number of its bytes. -/
def lookUp (word : String) : Kind := (reservedWords.lookup word).getD ident

/-- The laws of finding the reserved words among all texts. -/
structure FindsReserved (find : String → Kind) : Prop where
  table : ∀ word, find word = lookUp word
  found_iff : ∀ word kind, find word = kind ∧ kind ≠ ident ↔ Reserves kind word
  free_iff : ∀ word, find word = ident ↔ ∀ kind, ¬ Reserves kind word
  find_text : ∀ kind : Kind, kind.isReserved = true → ∃ word, kind.lexeme? = some word ∧ find word = kind
  text_find : ∀ word, (find word).isReserved = true → (find word).lexeme? = some word
  apart : ∀ first second word, Reserves first word → Reserves second word → first = second
  /-- A part of a reserved word, such as a prefix, and what has a reserved word as a part. -/
  nested : ∀ kind word other, Reserves kind word → other ≠ word →
    other.toList <:+: word.toList ∨ word.toList <:+: other.toList → find other = ident
  /-- What changing letters takes to a reserved word, if the change leaves the reserved words as they are. -/
  recased : ∀ fold : String → String, (∀ kind word, Reserves kind word → fold word = word) →
    ∀ kind word other, Reserves kind word → other ≠ word → fold other = word → find other = ident
  lowered : ∀ kind word other, Reserves kind word → other ≠ word → other.toLower = word → find other = ident

theorem mem_reservedWords {word : String} {kind : Kind} : (word, kind) ∈ reservedWords ↔ Reserves kind word := by
  simp only [reservedWords, List.mem_filterMap, List.mem_filter, mem_all, true_and, Option.map_eq_some_iff,
    Prod.mk.injEq]
  constructor
  · rintro ⟨found, reserved, text, table, rfl, rfl⟩
    exact ⟨reserved, table⟩
  · rintro ⟨reserved, table⟩
    exact ⟨kind, reserved, word, table, rfl, rfl⟩

theorem Reserves.ofWord {kind : Kind} {word : String} (reserves : Reserves kind word) : ofWord word = kind :=
  ofWord_of_lexeme reserves.1 reserves.2

theorem ofWord_eq_ident_or_reserves (word : String) : ofWord word = ident ∨ Reserves (ofWord word) word := by
  rcases ofWord_free_or_reserved word with free | reserved
  · exact .inl free
  · exact .inr ⟨reserved, lexeme?_ofWord reserved⟩

theorem ofWord_eq_ident_iff {word : String} : ofWord word = ident ↔ ∀ kind, ¬ Reserves kind word := by
  simp only [Reserves, not_and]
  exact ofWord_eq_ident

theorem Reserves.lookUp {kind : Kind} {word : String} (reserves : Reserves kind word) : lookUp word = kind := by
  obtain ⟨reserved, table⟩ := reserves
  cases kind <;> cases table <;> first | rfl | cases reserved

theorem ofWord_eq_lookUp (word : String) : ofWord word = lookUp word := by
  rcases ofWord_eq_ident_or_reserves word with free | reserves
  · have absent : reservedWords.lookup word = none := by
      rw [List.lookup_eq_none_iff]
      rintro ⟨other, kind⟩ member
      rw [bne_iff_ne]
      rintro rfl
      exact ofWord_eq_ident_iff.mp free kind (mem_reservedWords.mp member)
    rw [free, Kind.lookUp, absent, Option.getD_none]
  · exact reserves.lookUp.symm

theorem ofWord_found_iff {word : String} {kind : Kind} : ofWord word = kind ∧ kind ≠ ident ↔ Reserves kind word := by
  constructor
  · rintro ⟨rfl, other⟩
    exact (ofWord_eq_ident_or_reserves word).resolve_left other
  · intro reserves
    refine ⟨reserves.ofWord, ?_⟩
    rintro rfl
    cases reserves.1

/-- No reserved word is a proper part of another. -/
theorem Reserves.eq_of_infix {first second : Kind} {word other : String} (reserves : Reserves first word)
    (last : Reserves second other) (inside : word.toList <:+: other.toList) : word = other := by
  have apart : ∀ left ∈ reservedWords, ∀ right ∈ reservedWords,
      left.1.toList <:+: right.1.toList → left.1 = right.1 := by decide +kernel
  exact apart _ (mem_reservedWords.mpr reserves) _ (mem_reservedWords.mpr last) inside

theorem Reserves.toLower {kind : Kind} {word : String} (reserves : Reserves kind word) : word.toLower = word := by
  have lower : ∀ entry ∈ reservedWords, entry.1.toLower = entry.1 := by decide +kernel
  exact lower _ (mem_reservedWords.mpr reserves)

/-- A text that could be reserved only as `word`, and is another text, is an identifier. -/
theorem ofWord_eq_ident_of_ne {word other : String} (different : other ≠ word)
    (same : ∀ kind, Reserves kind other → other = word) : ofWord other = ident :=
  (ofWord_eq_ident_or_reserves other).resolve_right fun reserves => different (same _ reserves)

/-- Reserved words are found by their number of bytes as they are by a table. -/
theorem findsReserved_ofWord : FindsReserved ofWord where
  table := ofWord_eq_lookUp
  found_iff _ _ := ofWord_found_iff
  free_iff _ := ofWord_eq_ident_iff
  find_text kind reserved := by
    obtain ⟨word, table⟩ : ∃ word, kind.lexeme? = some word := by
      cases kind <;> first | exact ⟨_, rfl⟩ | cases reserved
    exact ⟨word, table, ofWord_of_lexeme reserved table⟩
  text_find _ reserved := lexeme?_ofWord reserved
  apart _ _ _ reserves last := reserves.ofWord.symm.trans last.ofWord
  nested kind word other reserves different inside := by
    apply ofWord_eq_ident_of_ne different
    intro found last
    rcases inside with inside | around
    · exact last.eq_of_infix reserves inside
    · exact (reserves.eq_of_infix last around).symm
  recased fold keeps kind word other reserves different changed := by
    apply ofWord_eq_ident_of_ne different
    intro found last
    rw [← changed, keeps found other last]
  lowered kind word other reserves different changed := by
    apply ofWord_eq_ident_of_ne different
    intro found last
    rw [← changed, last.toLower]

end MonkeyTokens.Kind
