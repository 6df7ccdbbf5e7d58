import MonkeyTokens.Proofs.LiveSession
import MonkeyTokens.Proofs.Rendering
import MonkeyTokens.Proofs.SessionLines

/-! Transcripts: what a session without faults writes. The prompt stands before the answer to each line
and once more behind the last, and an answer depends on its line alone, so sessions on sources that are
cut between two lines stand one behind the other. An answer ends with its first final item, hence the
answers can be read off a transcript whatever the prompt is. -/

namespace MonkeyTokens

/-- What a line may have behind its body. -/
def Line.endings : List (List UInt8) :=
  [[], [Byte.carriageReturn], [Byte.lineFeed], [Byte.carriageReturn, Byte.lineFeed]]

namespace Item

/-- The item as it is shown, on a line of its own. -/
def line (item : Item) : List UInt8 := Text.utf8 (item.render ++ "\n")

theorem line_eq (item : Item) : item.line = Text.utf8 item.render ++ [Byte.lineFeed] :=
  Text.utf8_line item.render

theorem line_append_inj {left right : Item} {rest others : List UInt8}
    (same : left.line ++ rest = right.line ++ others) : left = right ∧ rest = others := by
  obtain ⟨shown, behind⟩ := Text.line_append_inj left.render_oneLine right.render_oneLine same
  exact ⟨render_injective shown, behind⟩

namespace Closed

theorem lines_ne_nil {items : List Item} (closed : Closed items) : items.flatMap line ≠ [] := by
  cases closed <;> simp [line_eq]

/-- Where closed items are shown, their lines tell where they end. -/
theorem lines_append_inj {left right : List Item} {rest others : List UInt8} (closed : Closed left)
    (ended : Closed right) (same : left.flatMap line ++ rest = right.flatMap line ++ others) :
    left = right ∧ rest = others := by
  induction closed generalizing right with
  | @last item final =>
    cases ended with
    | last =>
      obtain ⟨rfl, behind⟩ := line_append_inj (by simpa using same)
      exact ⟨rfl, behind⟩
    | more passing =>
      obtain ⟨rfl, _⟩ := line_append_inj (by simpa using same)
      rw [final] at passing
      cases passing
  | @more item items passing _ ih =>
    cases ended with
    | last final =>
      obtain ⟨rfl, _⟩ := line_append_inj (by simpa using same)
      rw [final] at passing
      cases passing
    | more _ ended =>
      obtain ⟨rfl, behind⟩ := line_append_inj (by simpa using same)
      obtain ⟨rfl, rest⟩ := ih ended behind
      exact ⟨rfl, rest⟩

end Closed

end Item

namespace Session

def transcript (settings : Settings) (source : List UInt8) : List UInt8 :=
  (live settings ⟨source, false⟩ none).output

/-- The greeting, where there is one. -/
def salute (settings : Settings) : List UInt8 := settings.greeting.elim [] fun text => Text.utf8 (text ++ "\n")

/-- The items of each line of a source. -/
def answers (source : List UInt8) : List (List Item) := (Line.split source).map fun line => scan (Line.body line)

section Margin

variable {α : Type} (margin : List UInt8) (shown : α → List UInt8) (parts : List α)

private theorem flatMap_around :
    parts.flatMap (fun part => margin ++ shown part) ++ margin =
      margin ++ parts.flatMap (fun part => shown part ++ margin) := by
  induction parts with
  | nil => simp
  | cons part parts ih => simp only [List.flatMap_cons, List.append_assoc, ih]

private theorem length_flatMap_margin :
    (parts.flatMap fun part => shown part ++ margin).length =
      (parts.flatMap shown).length + parts.length * margin.length := by
  induction parts with
  | nil => simp
  | cons part parts ih =>
    simp only [List.flatMap_cons, List.length_append, List.length_cons, ih, Nat.add_mul, Nat.one_mul]
    omega

end Margin

theorem page_eq (settings : Settings) (shown : List (List Item)) :
    page settings shown = salute settings ++ (Text.utf8 settings.prompt ++
      shown.flatMap fun items => items.flatMap Item.line ++ Text.utf8 settings.prompt) := by
  have greeting : (opening settings).flatMap Step.bytes = salute settings := by
    rw [opening, salute]
    cases settings.greeting <;> simp [Step.bytes]
  rw [page, greeting, List.append_assoc, ← flatMap_around]
  rfl

private theorem page_append (settings : Settings) (first second : List (List Item)) :
    ∃ kept, page settings first = kept ++ Text.utf8 settings.prompt ∧
      page settings (first ++ second) = kept ++ page { settings with greeting := none } second := by
  refine ⟨_, rfl, ?_⟩
  simp only [page, opening, List.flatMap_append, List.flatMap_nil, List.nil_append, List.append_assoc]

theorem transcript_eq_page (settings : Settings) (source : List UInt8) :
    transcript settings source = page settings (answers source) := by
  rw [transcript, live_eq_run, Script.run_none, written_script]
  rfl

section Answers

variable {text ending : List UInt8}

theorem answers_append (cut : text = [] ∨ Line.isEnded text = true) (rest : List UInt8) :
    answers (text ++ rest) = answers text ++ answers rest := by
  rw [answers, Line.split_append cut, List.map_append]
  rfl

private theorem answers_unended (free : Byte.lineFeed ∉ text) (filled : text ≠ []) :
    answers text = [scan (Line.body text)] := by
  rw [answers, Line.split_unended free filled]
  rfl

private theorem answers_ended (free : Byte.lineFeed ∉ text) :
    answers (text ++ [Byte.lineFeed]) = [scan (Line.body text)] := by
  rw [answers, Line.split_ended free, List.map_cons, Line.body_concat_feed free]
  rfl

private theorem answers_of_line (free : Byte.lineFeed ∉ text) (ends : ending ∈ Line.endings)
    (plain : Byte.carriageReturn ∈ ending ∨ text.getLast? ≠ some Byte.carriageReturn)
    (filled : text ++ ending ≠ []) : answers (text ++ ending) = [scan text] := by
  have other : Byte.lineFeed ≠ Byte.carriageReturn := by decide
  have returned : Byte.lineFeed ∉ text ++ [Byte.carriageReturn] := by simp [free, other]
  simp only [Line.endings, List.mem_cons, List.not_mem_nil, or_false] at ends
  rcases ends with rfl | rfl | rfl | rfl
  · have plain := plain.resolve_left (by simp)
    rw [List.append_nil] at filled ⊢
    rw [answers_unended free filled, Line.body_of_plain free plain]
  · rw [answers_unended returned filled, Line.body_concat_return]
  · have plain := plain.resolve_left (by simp [other.symm])
    rw [answers_ended free, Line.body_of_plain free plain]
  · have whole : text ++ [Byte.carriageReturn, Byte.lineFeed] =
        text ++ [Byte.carriageReturn] ++ [Byte.lineFeed] := by simp
    rw [whole, answers_ended returned, Line.body_concat_return]

theorem answers_closed (source : List UInt8) : ∀ items ∈ answers source, Item.Closed items := by
  intro items member
  obtain ⟨line, _, rfl⟩ := List.mem_map.mp member
  exact scan_closed _

private theorem answers_inj {margin : List UInt8} {left right : List (List Item)}
    (closed : ∀ items ∈ left, Item.Closed items) (ended : ∀ items ∈ right, Item.Closed items)
    (same : left.flatMap (fun items => items.flatMap Item.line ++ margin) =
      right.flatMap fun items => items.flatMap Item.line ++ margin) : left = right := by
  -- An answer is never empty, so nothing is shown only where there is no line.
  have shows {items : List Item} {rest : List UInt8} (closed : Item.Closed items) :
      [] ≠ items.flatMap Item.line ++ margin ++ rest := by
    intro nothing
    apply closed.lines_ne_nil
    exact (List.append_eq_nil_iff.mp (List.append_eq_nil_iff.mp nothing.symm).1).1
  induction left generalizing right with
  | nil =>
    cases right with
    | nil => rfl
    | cons items right => exact absurd same (shows (ended items (by simp)))
  | cons items left ih =>
    cases right with
    | nil => exact absurd same.symm (shows (closed items (by simp)))
    | cons others right =>
      rw [List.forall_mem_cons] at closed ended
      simp only [List.flatMap_cons, List.append_assoc] at same
      obtain ⟨rfl, behind⟩ := closed.1.lines_append_inj ended.1 same
      rw [ih closed.2 ended.2 (List.append_cancel_left behind)]

end Answers

end Session

/-- A session without faults ends well, and what it writes is put together line by line. -/
theorem session_composes (settings : Session.Settings) :
    let prompt := Text.utf8 settings.prompt
    let answer := fun line => (scan (Line.body line)).flatMap Item.line
    (∀ source,
        Session.live settings ⟨source, false⟩ none = (Session.script settings ⟨source, false⟩).run none ∧
          (Session.live settings ⟨source, false⟩ none).result = .ok ()) ∧
      (∀ first second, first = [] ∨ Line.isEnded first = true →
        ∃ kept, Session.transcript settings first = kept ++ prompt ∧
          Session.transcript settings (first ++ second) =
            kept ++ Session.transcript { settings with greeting := none } second) ∧
      (∀ text ending, Byte.lineFeed ∉ text → ending ∈ Line.endings →
        Byte.carriageReturn ∈ ending ∨ text.getLast? ≠ some Byte.carriageReturn → text ++ ending ≠ [] →
        Session.transcript settings (text ++ ending) =
          Session.salute settings ++ (prompt ++ ((scan text).flatMap Item.line ++ prompt))) ∧
      ∀ source,
        let lines := Line.split source
        lines.length = source.count Byte.lineFeed + (if source = [] ∨ Line.isEnded source = true then 0 else 1) ∧
          Session.transcript settings source =
            Session.salute settings ++ (prompt ++ lines.flatMap fun line => answer line ++ prompt) ∧
          (Session.transcript settings source).length =
            (Session.salute settings).length + (lines.flatMap answer).length + (lines.length + 1) * prompt.length := by
  intro prompt answer
  refine ⟨?_, ?_, ?_, ?_⟩
  · intro source
    have run := Session.live_eq_run settings ⟨source, false⟩ none
    refine ⟨run, ?_⟩
    rw [run, Script.run_none]
    rfl
  · intro first second cut
    obtain ⟨kept, before, whole⟩ := Session.page_append settings (Session.answers first) (Session.answers second)
    refine ⟨kept, ?_, ?_⟩
    · rw [Session.transcript_eq_page, before]
    · rw [Session.transcript_eq_page, Session.transcript_eq_page, Session.answers_append cut, whole]
  · intro text ending free ends plain filled
    rw [Session.transcript_eq_page, Session.page_eq, Session.answers_of_line free ends plain filled]
    simp [prompt]
  · intro source lines
    have whole : Session.transcript settings source =
        Session.salute settings ++ (prompt ++ lines.flatMap fun line => answer line ++ prompt) := by
      rw [Session.transcript_eq_page, Session.page_eq, Session.answers, List.flatMap_map]
    refine ⟨Line.length_split source, whole, ?_⟩
    rw [whole, List.length_append, List.length_append, Session.length_flatMap_margin, Nat.add_mul, Nat.one_mul]
    omega

/-- A letter outside ASCII on the first line, and a return before the feed that ends the second. -/
theorem session_composes_two_lines :
    let settings : Session.Settings := ⟨"> ", some "Hi"⟩
    let first := Text.utf8 "é\n"
    let second := Text.utf8 "x" ++ [Byte.carriageReturn, Byte.lineFeed]
    Line.isEnded first = true ∧ Byte.lineFeed ∉ Text.utf8 "x" ∧
      Session.transcript settings second =
        Text.utf8 "Hi\n> \x7bkind: IDENT, literal: \x22x\x22\x7d\n\x7bkind: EOF, literal: \x22\x22\x7d\n> " ∧
      ∃ kept, Session.transcript settings first = kept ++ Text.utf8 "> " ∧
        Session.transcript settings (first ++ second) =
          kept ++ Session.transcript { settings with greeting := none } second := by
  intro settings first second
  have ended : Line.isEnded first = true := by decide +kernel
  have free : Byte.lineFeed ∉ Text.utf8 "x" := by decide +kernel
  obtain ⟨_, composes, line, _⟩ := session_composes settings
  refine ⟨ended, free, ?_, composes first second (.inr ended)⟩
  rw [line (Text.utf8 "x") _ free (by simp [Line.endings]) (.inl (by simp)) (by simp)]
  decide +kernel

/-- Transcripts under the same settings are equal exactly where the sources have the same items line by
line, and so the same number of lines. -/
theorem transcript_eq_iff (settings : Session.Settings) (first second : List UInt8) :
    Session.transcript settings first = Session.transcript settings second ↔
      (Line.split first).map (fun line => scan (Line.body line)) =
        (Line.split second).map (fun line => scan (Line.body line)) := by
  rw [Session.transcript_eq_page, Session.transcript_eq_page, Session.page_eq, Session.page_eq,
    List.append_cancel_left_eq, List.append_cancel_left_eq]
  constructor
  · exact Session.answers_inj (Session.answers_closed first) (Session.answers_closed second)
  · intro same
    have same : Session.answers first = Session.answers second := same
    rw [same]

end MonkeyTokens
