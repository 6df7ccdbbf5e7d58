import MonkeyTokens.Proofs.Marks

/-! Where a lexeme ends. A lexer takes a lexeme before whatever does not join it, and the byte that
comes next decides that by itself: which lexeme a lexer takes never depends on anything further on. -/

namespace MonkeyTokens

/-- A token of the kind runs on into the byte. -/
def Kind.Joins (kind : Kind) (next : UInt8) : Prop :=
  (kind = .ident ∨ kind.isReserved = true) ∧ Byte.isWordByte next = true ∨
  kind = .int ∧ Byte.isDigit next = true ∨
  (kind = .assign ∨ kind = .bang) ∧ next = Byte.equalsSign

instance (kind : Kind) (next : UInt8) : Decidable (kind.Joins next) :=
  inferInstanceAs (Decidable (_ ∨ _ ∨ _))

namespace Byte

theorem usable_of_isDigit {byte : UInt8} (digit : isDigit byte = true) :
    isAscii byte = true ∧ isBlank byte = false := by
  simp only [isDigit, Bool.and_eq_true, decide_eq_true_eq, UInt8.le_iff_toNat_le] at digit
  simp only [isAscii, decide_eq_true_eq, UInt8.lt_iff_toNat_lt, isBlank, Bool.or_eq_false_iff,
    beq_eq_false_iff_ne, ne_eq, Bool.and_eq_false_iff, decide_eq_false_iff_not, UInt8.le_iff_toNat_le,
    ← UInt8.toNat_inj]
  simp only [UInt8.reduceToNat] at digit ⊢
  omega

theorem usable_of_isWordStart {byte : UInt8} (start : isWordStart byte = true) :
    isAscii byte = true ∧ isBlank byte = false ∧ isDigit byte = false := by
  simp only [isWordStart, Bool.or_eq_true, Bool.and_eq_true, decide_eq_true_eq, beq_iff_eq,
    UInt8.le_iff_toNat_le, ← UInt8.toNat_inj] at start
  simp only [isAscii, decide_eq_true_eq, UInt8.lt_iff_toNat_lt, isBlank, isDigit, Bool.or_eq_false_iff,
    beq_eq_false_iff_ne, ne_eq, Bool.and_eq_false_iff, decide_eq_false_iff_not, UInt8.le_iff_toNat_le,
    ← UInt8.toNat_inj]
  simp only [UInt8.reduceToNat] at start ⊢
  omega

theorem usable_of_isWordByte {byte : UInt8} (word : isWordByte byte = true) :
    isAscii byte = true ∧ isBlank byte = false := by
  rw [isWordByte, Bool.or_eq_true] at word
  rcases word with start | digit
  · obtain ⟨ascii, dark, _⟩ := usable_of_isWordStart start
    exact ⟨ascii, dark⟩
  · exact usable_of_isDigit digit

end Byte

namespace Kind

theorem Joins.usable {kind : Kind} {next : UInt8} (joins : kind.Joins next) :
    Byte.isAscii next = true ∧ Byte.isBlank next = false := by
  rcases joins with ⟨_, word⟩ | ⟨_, digit⟩ | ⟨_, rfl⟩
  · exact Byte.usable_of_isWordByte word
  · exact Byte.usable_of_isDigit digit
  · decide

theorem int_joins {next : UInt8} : int.Joins next ↔ Byte.isDigit next = true := by
  simp [Joins, isReserved]

theorem ofWord_free_or_reserved (word : String) :
    ofWord word = ident ∨ (ofWord word).isReserved = true := by
  unfold ofWord
  repeat' split
  all_goals decide

theorem ofWord_joins {word : String} {next : UInt8} :
    (ofWord word).Joins next ↔ Byte.isWordByte next = true := by
  rcases ofWord_free_or_reserved word with free | reserved
  · simp [free, Joins, isReserved]
  · cases kind : ofWord word <;> simp_all [Joins, isReserved]

end Kind

namespace Lexeme

private theorem run_stops_iff {accepts : UInt8 → Bool} {run rest : List UInt8} :
    (run ++ rest).takeWhile accepts = run ↔
      run.takeWhile accepts = run ∧ ∀ next ∈ rest.head?, ¬ accepts next = true := by
  induction run with
  | nil => cases rest <;> simp [List.takeWhile_cons]
  | cons byte run ih =>
    cases accepted : accepts byte with
    | false => simp [accepted]
    | true => simpa [accepted] using ih

private theorem symbol_joins {first next : UInt8} :
    (symbol first).Joins next ↔ (extended (symbol first)).isSome = true ∧ next = Byte.equalsSign := by
  unfold symbol
  split <;> simp [Kind.Joins, Kind.isReserved, extended]

private theorem not_joins_of_extended {kind longer : Kind} {next : UInt8}
    (found : extended kind = some longer) : ¬ longer.Joins next := by
  unfold extended at found
  split at found <;> cases found <;> simp [Kind.Joins, Kind.isReserved]

theorem ofSymbol_nil (first : UInt8) : ofSymbol first [] = ⟨symbol first, [first]⟩ := by
  unfold ofSymbol
  cases extended (symbol first) <;> rfl

theorem ofSymbol_cons (first second : UInt8) (rest : List UInt8) :
    ofSymbol first (second :: rest) =
      match extended (symbol first) with
      | some longer =>
        if second = Byte.equalsSign then ⟨longer, [first, second]⟩ else ⟨symbol first, [first]⟩
      | none => ⟨symbol first, [first]⟩ := by
  unfold ofSymbol
  cases extended (symbol first) <;> rfl

private theorem ofSymbol_stops_iff {kind : Kind} {first : UInt8} {tail rest : List UInt8} :
    ofSymbol first (tail ++ rest) = ⟨kind, first :: tail⟩ ↔
      ofSymbol first tail = ⟨kind, first :: tail⟩ ∧ ∀ next ∈ rest.head?, ¬ kind.Joins next := by
  cases tail with
  | nil =>
    cases rest with
    | nil => simp
    | cons next rest =>
      rw [List.nil_append, ofSymbol_nil, ofSymbol_cons]
      simp only [mk.injEq, and_true, List.head?_cons, Option.mem_some_iff, forall_eq']
      have same : symbol first = kind ∧ ¬ kind.Joins next ↔
          symbol first = kind ∧ ¬ (symbol first).Joins next :=
        and_congr_right fun same => by rw [same]
      rw [same, symbol_joins]
      cases extended (symbol first) with
      | none => simp
      | some _ => by_cases equals : next = Byte.equalsSign <;> simp [equals]
  | cons second tail =>
    -- The second byte settles what the lexeme is, and a two-byte operator joins nothing.
    have settled : ofSymbol first (second :: tail ++ rest) = ofSymbol first (second :: tail) := by
      rw [List.cons_append, ofSymbol_cons, ofSymbol_cons]
    rw [settled, iff_self_and]
    intro taken next _
    rw [ofSymbol_cons] at taken
    cases longer : extended (symbol first) with
    | none => simp [longer] at taken
    | some found =>
      simp only [longer] at taken
      split at taken
      · cases taken
        exact not_joins_of_extended longer
      · cases taken

private theorem leading_stops_iff {kind : Kind} {first : UInt8} {tail rest : List UInt8} :
    leading first (tail ++ rest) = ⟨kind, first :: tail⟩ ↔
      leading first tail = ⟨kind, first :: tail⟩ ∧ ∀ next ∈ rest.head?, ¬ kind.Joins next := by
  unfold leading
  split
  next digit =>
    simp only [mk.injEq, List.cons.injEq, true_and, run_stops_iff, and_assoc, and_congr_right_iff]
    rintro rfl
    simp only [Kind.int_joins, implies_true]
  split
  next =>
    simp only [mk.injEq, List.cons.injEq, true_and]
    constructor
    · rintro ⟨rfl, run⟩
      obtain ⟨whole, stops⟩ := run_stops_iff.mp run
      rw [run]
      refine ⟨⟨by rw [whole], whole⟩, ?_⟩
      intro next member joins
      exact stops next member (Kind.ofWord_joins.mp joins)
    · rintro ⟨⟨rfl, whole⟩, stops⟩
      have separate : ∀ next ∈ rest.head?, ¬ Byte.isWordByte next = true := by
        intro next member run
        exact stops next member (Kind.ofWord_joins.mpr run)
      have run := run_stops_iff.mpr ⟨whole, separate⟩
      exact ⟨by rw [run, whole], run⟩
  next => exact ofSymbol_stops_iff

/-- A lexeme is taken before `rest` when it is taken by itself and `rest` does not join it. -/
theorem leads_iff {lexeme : Lexeme} {rest : List UInt8} :
    lexeme.Leads rest ↔ lexeme.Leads [] ∧ ∀ next ∈ rest.head?, ¬ lexeme.kind.Joins next := by
  obtain ⟨kind, bytes⟩ := lexeme
  cases bytes with
  | nil =>
    have empty {rest : List UInt8} : ¬ Leads ⟨kind, []⟩ rest := fun leads => leads.nonempty rfl
    simp [empty]
  | cons first tail =>
    simp only [Leads, List.cons_append, List.append_nil, next?]
    split
    · simpa only [Option.some.injEq] using leading_stops_iff
    · simp

end Lexeme

end MonkeyTokens
