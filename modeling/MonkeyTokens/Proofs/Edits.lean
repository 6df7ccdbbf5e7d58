import MonkeyTokens.Proofs.Concatenation
import MonkeyTokens.Proofs.Coverage

/-! Edits reach forward only. A token is decided by its own bytes and the one behind it, so a token that
ends before the place of an edit stays what and where it was, whatever the sources hold from there on and
however long they are. A byte outside ASCII before that place stays the end of the scan. -/

namespace MonkeyTokens

/-- The tokens that end before the offset, with the places where they stand. -/
def settled (offset : Nat) (source : List UInt8) : List Span :=
  (Lexer.start source).spans.filter (·.stop < offset)

/-- The mark of a token that ends before the offset. -/
def Mark.settles (offset : Nat) (mark : Mark) : Bool := !mark.item.isFinal && decide (mark.stop < offset)

/-- The token of a mark other than the end token. It reaches back from where the mark stops. -/
def Mark.span? (mark : Mark) : Option Span :=
  match mark.item with
  | .token token =>
    if token.isEof then none
    else some ⟨token, mark.stop - (Text.utf8 token.literal).length, mark.stop⟩
  | .invalid _ => none

theorem spans_eq_marks (source : List UInt8) :
    (Lexer.start source).spans = (marks source).filterMap Mark.span? := by
  rw [marks, Lexer.marks, List.filterMap_map]
  rfl

private theorem agree_behind {front rest other : List UInt8} {offset : Nat}
    (agree : (front ++ rest).take offset = other.take offset) (inside : front.length ≤ offset) :
    ∃ behind, other = front ++ behind ∧
      rest.take (offset - front.length) = behind.take (offset - front.length) := by
  have kept : front = other.take front.length := by
    have same := congrArg (List.take front.length) agree
    rwa [List.take_take, List.take_take, Nat.min_eq_left inside, List.take_left] at same
  refine ⟨other.drop front.length, ?_, ?_⟩
  · calc other
      _ = other.take front.length ++ other.drop front.length := (List.take_append_drop _ _).symm
      _ = front ++ other.drop front.length := by rw [← kept]
  · have same := congrArg (List.drop front.length) agree
    rwa [List.drop_take, List.drop_take, List.drop_left] at same

theorem Lexeme.Leads.of_head? {lexeme : Lexeme} {rest other : List UInt8} (leads : lexeme.Leads rest)
    (same : rest.head? = other.head?) : lexeme.Leads other := by
  rw [leads_iff] at leads ⊢
  rwa [← same]

namespace Mark

private theorem settles_shift (offset distance : Nat) (mark : Mark) :
    (mark.shift distance).settles offset = mark.settles (offset - distance) := by
  simp only [settles, shift, Item.isFinal_shift]
  congr 2
  simp only [eq_iff_iff]
  omega

private theorem filter_settles_zero (found : List Mark) : found.filter (settles 0) = [] :=
  List.filter_eq_nil_iff.mpr (by simp [settles])

end Mark

private theorem filter_settles_lexeme {gap rest : List UInt8} {lexeme : Lexeme} (blank : Blank gap)
    (leads : lexeme.Leads rest) (offset : Nat) :
    let stop := gap.length + lexeme.bytes.length
    (marks (gap ++ (lexeme.bytes ++ rest))).filter (Mark.settles offset) =
      (if stop < offset then [⟨.token lexeme.token, .token lexeme.kind gap.length, stop⟩] else []) ++
        ((marks rest).filter (Mark.settles (offset - stop))).map (.shift stop) := by
  intro stop
  have proper : (Item.token lexeme.token).isFinal = false := decide_eq_false leads.kind_ne_eof
  have shifted : Mark.settles offset ∘ Mark.shift stop = Mark.settles (offset - stop) :=
    funext (Mark.settles_shift offset stop)
  rw [marks_of_lexeme blank leads, List.filter_cons, List.filter_map, shifted]
  by_cases early : stop < offset <;> simp [Mark.settles, proper, early, stop]

/-- What has settled in one source is found at the front of the other. -/
private theorem settles_in_front {source other : List UInt8} {offset : Nat}
    (agree : source.take offset = other.take offset) :
    (marks source).filter (Mark.settles offset) <+: marks other := by
  induction source using source_induction generalizing other offset with
  | blank gap blank => simp [marks_of_blank blank, Mark.settles, Item.isFinal, Token.isEof, Token.eof]
  | invalid gap byte rest blank high => simp [marks_of_invalid blank high, Mark.settles, Item.isFinal]
  | lexeme gap lexeme rest blank leads ih =>
    rw [filter_settles_lexeme blank leads]
    split
    next early =>
      rw [← List.append_assoc] at agree
      obtain ⟨behind, rfl, same⟩ := agree_behind agree (by rw [List.length_append]; omega)
      rw [List.length_append] at same
      -- The byte behind the lexeme lies before the edit too.
      have next : rest.head? = behind.head? := by
        have heads := congrArg List.head? same
        rwa [List.head?_take, List.head?_take, if_neg (by omega), if_neg (by omega)] at heads
      rw [List.append_assoc, marks_of_lexeme blank (leads.of_head? next), List.singleton_append,
        List.cons_prefix_cons]
      exact ⟨rfl, (ih same).map _⟩
    next late =>
      have none : offset - (gap.length + lexeme.bytes.length) = 0 := by omega
      rw [none, Mark.filter_settles_zero]
      exact List.nil_prefix

/-- Each front is as long as the other, so what has settled is the same. -/
private theorem filter_settles_eq {source other : List UInt8} {offset : Nat}
    (agree : source.take offset = other.take offset) :
    (marks source).filter (Mark.settles offset) = (marks other).filter (Mark.settles offset) := by
  have forward := (settles_in_front agree).filter (Mark.settles offset)
  have backward := (settles_in_front agree.symm).filter (Mark.settles offset)
  simp only [List.filter_filter, Bool.and_self] at forward backward
  exact forward.eq_of_length_le backward.length_le

private theorem settled_eq (offset : Nat) (source : List UInt8) :
    settled offset source = ((marks source).filter (Mark.settles offset)).filterMap Mark.span? := by
  rw [settled, spans_eq_marks, List.filter_filterMap, List.filterMap_filter]
  congr 1
  funext mark
  unfold Mark.span? Mark.settles
  cases mark.item with
  | invalid bad => simp
  | token token =>
    cases proper : token.isEof <;> simp [Item.isFinal, proper, Option.filter]

private theorem scan_eq_of_invalid {source other : List UInt8} {offset : Nat}
    (agree : source.take offset = other.take offset) {bad : InvalidByte}
    (last : (scan source).getLast? = some (.invalid bad)) (early : bad.pos < offset) :
    scan source = scan other := by
  rcases ascii_or_high source with ascii | ⟨before, byte, rest, rfl, ascii, high⟩
  · obtain ⟨tokens, shown⟩ := scan_ascii ascii
    rw [shown, List.getLast?_concat] at last
    cases last
  · rw [scan_append_high ascii high, List.getLast?_concat] at last
    cases last
    -- The bytes up to and with the invalid one are common to both.
    rw [← List.singleton_append, ← List.append_assoc] at agree ⊢
    obtain ⟨behind, rfl, _⟩ := agree_behind agree (by simpa using Nat.succ_le_of_lt early)
    rw [List.append_assoc, List.append_assoc, List.singleton_append, List.singleton_append,
      scan_append_high ascii high, scan_append_high ascii high]

/-- Sources that agree before an offset have the same tokens that end before it, at the same places, and
the same items where the scan of one ends at an invalid byte before it. -/
theorem edit_keeps_settled {source other : List UInt8} {offset : Nat}
    (agree : source.take offset = other.take offset) :
    settled offset source = settled offset other ∧
      ∀ bad, (scan source).getLast? = some (.invalid bad) → bad.pos < offset → scan source = scan other := by
  refine ⟨?_, ?_⟩
  · rw [settled_eq, settled_eq, filter_settles_eq agree]
  · intro bad last early
    exact scan_eq_of_invalid agree last early

/-- The operator that ends where the sources part is not settled: with one more equals sign it is another.
A letter outside ASCII settles a source as soon as its first byte is there. -/
theorem edit_keeps_settled_operator :
    let source := Text.utf8 "let x=1"
    let other := Text.utf8 "let x=="
    source.take 6 = other.take 6 ∧ settled 6 source = settled 6 other ∧
      (settled 6 source).map Span.start = [0, 4] ∧ settled 7 source ≠ settled 7 other ∧
      (Text.utf8 "x=é").take 3 = [0x78, 0x3D, 0xC3].take 3 ∧
      (scan (Text.utf8 "x=é")).getLast? = some (.invalid ⟨0xC3, 2⟩) ∧
      scan (Text.utf8 "x=é") = scan [0x78, 0x3D, 0xC3] := by
  intro source other
  have agree : source.take 6 = other.take 6 := by decide +kernel
  have accented : (Text.utf8 "x=é").take 3 = [0x78, 0x3D, 0xC3].take 3 := by decide +kernel
  have last : (scan (Text.utf8 "x=é")).getLast? = some (.invalid ⟨0xC3, 2⟩) := by decide +kernel
  have apart : (settled 7 source).map Span.start ≠ (settled 7 other).map Span.start := by decide +kernel
  refine ⟨agree, (edit_keeps_settled agree).1, by decide +kernel, ?_, accented, last, ?_⟩
  · intro same
    exact apart (congrArg (List.map Span.start) same)
  · exact (edit_keeps_settled accented).2 _ last (by decide)

end MonkeyTokens
