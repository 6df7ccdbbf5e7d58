import MonkeyTokens.Proofs.Coverage
import MonkeyTokens.Proofs.Listings
import MonkeyTokens.Proofs.Transcripts

/-! When events are logged. A session makes a reading only after it has shown all that stands before, so
what it has logged when its output fills up are the readings whose lines start no later than that. A listing
makes all readings before it writes anything, so its log is the same on every output. -/

namespace MonkeyTokens

namespace Script

/-- The events of steps, each with the number of bytes written before it, of which `count` before the
first step. -/
def stamps (count : Nat) : List Step → List (Nat × Event)
  | [] => []
  | .log event :: rest => (count, event) :: stamps count rest
  | .write text :: rest => stamps (count + (Text.utf8 text).length) rest

theorem stamps_append (count : Nat) (first second : List Step) :
    stamps count (first ++ second) =
      stamps count first ++ stamps (count + (first.flatMap Step.bytes).length) second := by
  induction first generalizing count with
  | nil => rfl
  | cons step first ih =>
    cases step with
    | log event => simp [stamps, ih, Step.bytes]
    | write text => simp [stamps, ih, Step.bytes, Nat.add_assoc]

theorem stamps_logs (count : Nat) (events : List Event) :
    stamps count (events.map .log) = events.map (count, ·) := by
  induction events with
  | nil => rfl
  | cons event events ih => rw [List.map_cons, stamps, ih, List.map_cons]

theorem stamps_silent (count : Nat) {steps : List Step} (silent : ∀ step ∈ steps, step.event? = none) :
    stamps count steps = [] := by
  induction steps generalizing count with
  | nil => rfl
  | cons step steps ih =>
    obtain ⟨first, rest⟩ := List.forall_mem_cons.mp silent
    cases step with
    | log event => cases first
    | write text => exact ih _ rest

theorem map_stamps (count : Nat) (steps : List Step) :
    (stamps count steps).map Prod.snd = steps.filterMap Step.event? := by
  induction steps generalizing count with
  | nil => rfl
  | cons step steps ih => cases step <;> simp [stamps, ih, Step.event?, List.filterMap_cons]

theorem le_of_mem_stamps {count : Nat} {steps : List Step} {stamp : Nat × Event}
    (member : stamp ∈ stamps count steps) : count ≤ stamp.1 := by
  induction steps generalizing count with
  | nil => cases member
  | cons step steps ih =>
    cases step with
    | log event =>
      rcases List.mem_cons.mp member with rfl | member
      · exact Nat.le_refl _
      · exact ih member
    | write text => exact Nat.le_trans (Nat.le_add_right _ _) (ih member)

variable {α : Type}

private theorem perform_events_some (result : Except Failure α) (count room : Nat) (steps : List Step) :
    (perform result (some room) steps).events =
      ((stamps count steps).filter (·.1 ≤ count + room)).map Prod.snd := by
  induction steps generalizing count room with
  | nil => rfl
  | cons step steps ih =>
    cases step with
    | log event => simp [perform, stamps, ih count]
    | write text =>
      rw [perform, stamps]
      by_cases fits : (Text.utf8 text).length ≤ room
      · have left : count + (Text.utf8 text).length + (room - (Text.utf8 text).length) = count + room := by omega
        rw [if_pos fits, ← left]
        exact ih _ _
      · -- All later events come behind this write.
        have late : (stamps (count + (Text.utf8 text).length) steps).filter (·.1 ≤ count + room) = [] := by
          apply List.filter_eq_nil_iff.mpr
          intro stamp member
          have behind := le_of_mem_stamps member
          simp only [decide_eq_true_eq]
          omega
        rw [if_neg fits, late]
        rfl

/-- An event is logged if all that is written before it fits. -/
theorem events_run (script : Script α) (room : Option Nat) :
    (script.run room).events =
      ((stamps 0 script.steps).filter fun stamp => room.all (stamp.1 ≤ ·)).map Prod.snd := by
  cases room with
  | none => simp [run_none, logged, map_stamps]
  | some room =>
    rw [run, perform_events_some script.result 0 room, Nat.zero_add]
    rfl

end Script

/-- What is logged of a reading of a text: the kind of a token and where it starts, where the text ends, or
a byte that cannot be read and where it stands. -/
inductive Reading.Told (text : List UInt8) (reading : Reading) : Prop where
  | token {span : Span} (found : reading.span? = some span) (fills : span.Fills text)
      (event : reading.event = .token span.token.kind span.start)
  | finish (item : reading.item = .token .eof) (event : reading.event = .endOfInput text.length)
  | invalid {bad : InvalidByte} (item : reading.item = .invalid bad) (here : text[bad.pos]? = some bad.byte)
      (high : 0x80 ≤ bad.byte) (event : reading.event = .invalidByte bad.byte bad.pos)

namespace Lexer

variable {text : List UInt8} {reader : Reader} {lexer : Lexer} {reading : Reading}

private theorem told_of_yields (within : reader.Within text) (yields : reader.Yields reading) :
    reading.Told text := by
  cases yields with
  | finish blank =>
    refine .finish rfl ?_
    rw [within.length, Nat.add_comm]
  | @invalid gap rest byte blank high ahead =>
    refine .invalid rfl ?_ (Byte.isAscii_eq_false_iff.mp high) rfl
    have here : (reader.advanceBy gap.length).ahead = byte :: rest := by simp [ahead]
    rw [← (within.pos_advance ahead).1, ← List.head?_drop, (within.advanceBy _).drop_pos, here]
    rfl
  | @lexeme gap rest lexeme blank leads ahead =>
    have here : (reader.advanceBy gap.length).ahead = lexeme.bytes ++ rest := by simp [ahead]
    have fills := (within.advanceBy gap.length).fills_lexeme leads here
    rw [Reader.advanceBy_advanceBy, (within.pos_advance ahead).1] at fills
    exact .token (Reading.span?_of_fills rfl (decide_eq_false leads.kind_ne_eof) fills) fills rfl

theorem Reads.told (reads : Reads text lexer) : ∀ reading ∈ lexer.readings, reading.Told text := by
  induction lexer using Lexer.readings.induct with
  | case1 lexer refused => simp [readings_eq, refused]
  | case2 lexer reading read final =>
    rw [readings_of_final read final, List.forall_mem_singleton]
    exact told_of_yields reads.within (yields_of_next? read).2
  | case3 lexer reading read more _ ih =>
    have moves : lexer.proceed = reading.after := by simp [Lexer.proceed, read]
    rw [readings_of_more read (by simpa using more), List.forall_mem_cons]
    refine ⟨told_of_yields reads.within (yields_of_next? read).2, ih ?_⟩
    rw [← moves]
    exact reads.proceed

end Lexer

/-- Tokens are told at the lowest level, and only final items above it. -/
theorem Reading.Told.level {text : List UInt8} {reading : Reading} (told : reading.Told text) :
    reading.event.level = (if reading.item.isFinal then .debug else .trace) ∧ reading.event.origin = .lexing := by
  cases told with
  | token found _ event =>
    rw [Reading.span?] at found
    split at found
    next item =>
      split at found
      next => cases found
      next proper => simp [event, item, Item.isFinal, proper, Event.level, Event.origin]
    next => cases found
  | finish item event => simp [item, event, Item.isFinal, Token.isEof, Token.eof, Event.level, Event.origin]
  | invalid item _ _ event => simp [item, event, Item.isFinal, Event.level, Event.origin]

namespace Session

/-- A reading of a session, with the number of bytes that are written before its line. -/
structure Showing where
  offset : Nat
  reading : Reading
  deriving DecidableEq

namespace Showing

def stamp (showing : Showing) : Nat × Event := (showing.offset, showing.reading.event)

def stop (showing : Showing) : Nat := showing.offset + showing.reading.item.line.length

/-- Readings whose lines stand one behind the other. -/
def place (offset : Nat) : List Reading → List Showing
  | [] => []
  | reading :: rest => ⟨offset, reading⟩ :: place (offset + reading.item.line.length) rest

variable {offset : Nat} {readings : List Reading} {showing : Showing}

theorem map_reading_place (offset : Nat) (readings : List Reading) :
    (place offset readings).map reading = readings := by
  induction readings generalizing offset with
  | nil => rfl
  | cons reading readings ih => rw [place, List.map_cons, ih]

theorem stamps_place (offset : Nat) (readings : List Reading) :
    Script.stamps offset (readings.flatMap display) = (place offset readings).map stamp := by
  induction readings generalizing offset with
  | nil => rfl
  | cons reading readings ih =>
    rw [place, List.map_cons, ← ih]
    rfl

theorem bounds_of_mem_place (member : showing ∈ place offset readings) :
    offset ≤ showing.offset ∧ showing.stop ≤ offset + (readings.flatMap (·.item.line)).length := by
  induction readings generalizing offset with
  | nil => cases member
  | cons reading readings ih =>
    rw [List.flatMap_cons, List.length_append]
    rcases List.mem_cons.mp member with rfl | member
    · simp only [stop]
      omega
    · obtain ⟨start, stop⟩ := ih member
      omega

theorem pairwise_place (offset : Nat) (readings : List Reading) :
    (place offset readings).Pairwise fun former latter => former.stop ≤ latter.offset := by
  induction readings generalizing offset with
  | nil => exact .nil
  | cons reading readings ih =>
    refine .cons ?_ (ih _)
    intro latter member
    exact (bounds_of_mem_place member).1

theorem prefix_of_mem_place {before : List UInt8} (start : before.length = offset) (rest : List UInt8)
    (member : showing ∈ place offset readings) :
    showing.reading.item.line <+: (before ++ (readings.flatMap (·.item.line) ++ rest)).drop showing.offset := by
  induction readings generalizing offset before with
  | nil => cases member
  | cons reading readings ih =>
    rw [List.flatMap_cons, List.append_assoc]
    rcases List.mem_cons.mp member with rfl | member
    · subst start
      rw [List.drop_left]
      exact List.prefix_append _ _
    · rw [← List.append_assoc]
      exact ih (by rw [List.length_append, start]) member

end Showing

/-- The readings of lines that come behind those with the items of `earlier`. -/
def showings (settings : Settings) (earlier : List (List Item)) : List (List UInt8) → List Showing
  | [] => []
  | line :: lines =>
    Showing.place (page settings earlier).length (Lexer.start (Line.body line)).readings ++
      showings settings (earlier ++ [scan (Line.body line)]) lines

variable {settings : Settings} {earlier : List (List Item)} {lines : List (List UInt8)} {showing : Showing}

private theorem page_extend (settings : Settings) (earlier later : List (List Item)) :
    page settings (earlier ++ later) = page settings earlier ++
      later.flatMap fun items => items.flatMap Item.line ++ Text.utf8 settings.prompt := by
  simp only [page_eq, List.flatMap_append, List.append_assoc]

private theorem lines_readings (line : List UInt8) :
    (Lexer.start (Line.body line)).readings.flatMap (·.item.line) = (scan (Line.body line)).flatMap Item.line := by
  rw [scan, Lexer.items, List.flatMap_map]

theorem map_reading_showings (settings : Settings) (earlier : List (List Item)) (lines : List (List UInt8)) :
    (showings settings earlier lines).map Showing.reading =
      lines.flatMap fun line => (Lexer.start (Line.body line)).readings := by
  induction lines generalizing earlier with
  | nil => rfl
  | cons line lines ih => rw [showings, List.map_append, Showing.map_reading_place, ih, List.flatMap_cons]

theorem length_page_le (member : showing ∈ showings settings earlier lines) :
    (page settings earlier).length ≤ showing.offset := by
  induction lines generalizing earlier with
  | nil => cases member
  | cons line lines ih =>
    rcases List.mem_append.mp member with member | member
    · exact (Showing.bounds_of_mem_place member).1
    · have longer := ih member
      rw [page_extend, List.length_append] at longer
      omega

theorem pairwise_showings (settings : Settings) (earlier : List (List Item)) (lines : List (List UInt8)) :
    (showings settings earlier lines).Pairwise fun former latter => former.stop ≤ latter.offset := by
  induction lines generalizing earlier with
  | nil => exact .nil
  | cons line lines ih =>
    refine List.pairwise_append.mpr ⟨Showing.pairwise_place _ _, ih _, ?_⟩
    intro former inside latter behind
    have stop := (Showing.bounds_of_mem_place inside).2
    have start := length_page_le behind
    rw [lines_readings] at stop
    rw [page_extend, List.flatMap_singleton, List.length_append, List.length_append] at start
    omega

theorem prefix_of_mem_showings (member : showing ∈ showings settings earlier lines) :
    showing.reading.item.line <+:
      (page settings (earlier ++ lines.map fun line => scan (Line.body line))).drop showing.offset := by
  induction lines generalizing earlier with
  | nil => cases member
  | cons line lines ih =>
    rcases List.mem_append.mp member with member | member
    · rw [page_extend, List.map_cons, List.flatMap_cons, List.append_assoc, ← lines_readings]
      exact Showing.prefix_of_mem_place rfl _ member
    · rw [List.map_cons, List.append_cons]
      exact ih member

/-- From before a prompt on, where `earlier` has the items of the lines before it. -/
private theorem stamps_rounds (source : List UInt8) (lines : List (List UInt8)) {count : Nat}
    (start : count + (Text.utf8 settings.prompt).length = (page settings earlier).length) :
    Script.stamps count (lines.flatMap (round settings) ++ closing settings ⟨source, false⟩) =
      (showings settings earlier lines).map Showing.stamp ++
        [((page settings (earlier ++ lines.map fun line => scan (Line.body line))).length, .inputClosed)] := by
  induction lines generalizing earlier count with
  | nil => simp [closing, showings, Script.stamps, start]
  | cons line lines ih =>
    have shown : (answer line).flatMap Step.bytes = (scan (Line.body line)).flatMap Item.line := bytes_answer line
    have behind : earlier ++ (line :: lines).map (fun line => scan (Line.body line)) =
        earlier ++ [scan (Line.body line)] ++ lines.map fun line => scan (Line.body line) := List.append_cons _ _ _
    have next : count + (Text.utf8 settings.prompt).length + ((answer line).flatMap Step.bytes).length +
        (Text.utf8 settings.prompt).length = (page settings (earlier ++ [scan (Line.body line)])).length := by
      rw [page_extend, List.flatMap_singleton, List.length_append, List.length_append, shown, ← start]
      omega
    rw [List.flatMap_cons, List.append_assoc, round, List.cons_append, Script.stamps, Script.stamps_append, ih next,
      start, behind, showings, List.map_append, ← Showing.stamps_place]
    exact (List.append_assoc _ _ _).symm

theorem stamps_script (settings : Settings) (source : List UInt8) :
    Script.stamps 0 (script settings ⟨source, false⟩).steps =
      (showings settings [] (Line.split source)).map Showing.stamp ++
        [((transcript settings source).length, .inputClosed)] := by
  have silent : ∀ step ∈ opening settings, step.event? = none := by
    rw [opening]
    cases settings.greeting <;> simp [Step.event?]
  have start : 0 + ((opening settings).flatMap Step.bytes).length + (Text.utf8 settings.prompt).length =
      (page settings []).length := by
    simp [page]
  have steps : (script settings ⟨source, false⟩).steps = opening settings ++
      ((Line.split source).flatMap (round settings) ++ closing settings ⟨source, false⟩) := List.append_assoc _ _ _
  rw [steps, Script.stamps_append, Script.stamps_silent 0 silent, List.nil_append, stamps_rounds source _ start,
    transcript_eq_page]
  rfl

end Session

namespace Listing

theorem stamps_script (path : String) (contents : List UInt8) :
    Script.stamps 0 (script path (.ok contents)).steps =
      (.lexingFile path contents.length :: (Lexer.start contents).events).map (0, ·) := by
  rw [script, ofContents]
  cases Item.tokens (Lexer.start contents).items with
  | error bad =>
    simp only
    rw [← List.map_cons, Script.stamps_logs]
  | ok tokens =>
    have silent : ∀ step ∈ page path tokens, step.event? = none := by simp [page, Step.event?]
    simp only
    rw [← List.map_cons, Script.stamps_append, Script.stamps_logs, Script.stamps_silent _ silent, List.append_nil]

theorem live_events (path : String) (contents : List UInt8) (room : Option Nat) :
    (live path (.ok contents) room).events =
      .lexingFile path contents.length :: (Lexer.start contents).events := by
  rw [live_eq_run, Script.events_run, stamps_script]
  cases room <;> simp [List.filter_map, Function.comp_def]

end Listing

/-- A session logs a reading when the output has reached its line, and its end when all is written. A listing
logs all readings before it writes. -/
theorem log_in_lockstep (settings : Session.Settings) (source : List UInt8) (room : Option Nat) :
    let output := Session.transcript settings source
    let lines := Line.split source
    let showings := Session.showings settings [] lines
    (Session.live settings ⟨source, false⟩ room).events =
        (showings.filter fun showing => room.all (showing.offset ≤ ·)).map (·.reading.event) ++
          (if room.all (output.length ≤ ·) then [.inputClosed] else []) ∧
      showings.map Session.Showing.reading = lines.flatMap (fun line => (Lexer.start (Line.body line)).readings) ∧
      (showings.Pairwise fun former latter => former.stop ≤ latter.offset) ∧
      (∀ showing ∈ showings, showing.reading.item.line <+: output.drop showing.offset) ∧
      (∀ text, ∀ reading ∈ (Lexer.start text).readings, reading.Told text ∧ reading.event.origin = .lexing ∧
        reading.event.level = if reading.item.isFinal then .debug else .trace) ∧
      ∀ path contents,
        let events := .lexingFile path contents.length :: (Lexer.start contents).events
        (∀ limit, (Listing.live path (.ok contents) limit).events = events) ∧
          (Listing.live path (.ok contents) (some 0)).output = [] ∧
          Script.stamps 0 (Listing.script path (.ok contents)).steps = events.map (0, ·) := by
  intro output lines showings
  refine ⟨?_, ?_, ?_, ?_, ?_, ?_⟩
  · rw [Session.live_eq_run, Script.events_run, Session.stamps_script, List.filter_append, List.map_append,
      List.filter_map, List.map_map]
    congr 1
    by_cases fits : room.all (output.length ≤ ·) <;> simp [fits, output]
  · exact Session.map_reading_showings settings [] lines
  · exact Session.pairwise_showings settings [] lines
  · intro showing member
    have whole : output = Session.page settings ([] ++ lines.map fun line => scan (Line.body line)) :=
      Session.transcript_eq_page settings source
    rw [whole]
    exact Session.prefix_of_mem_showings member
  · intro text reading member
    have told := (Lexer.Reads.start text).told reading member
    exact ⟨told, told.level.2, told.level.1⟩
  · intro path contents events
    refine ⟨Listing.live_events path contents, ?_, Listing.stamps_script path contents⟩
    rw [Listing.live_eq_run, Script.output_run_some, List.take_zero]

/-- Room for the line of the name and no more: the end is found, but its line does not fit. -/
theorem log_in_lockstep_full :
    let settings : Session.Settings := ⟨"", none⟩
    let source := Text.utf8 "x"
    let last : Session.Showing := ⟨28, .token .eof, .endOfInput 1, ⟨⟨[0x78], [], 1, rfl⟩, true⟩⟩
    last ∈ Session.showings settings [] (Line.split source) ∧ last.reading ∈ (Lexer.start source).readings ∧
      (Session.live settings ⟨source, false⟩ (some 28)).events = [.token .ident 0, .endOfInput 1] ∧
      last.reading.item.line <+: (Session.transcript settings source).drop 28 ∧ last.reading.Told source := by
  intro settings source last
  have shown : last ∈ Session.showings settings [] (Line.split source) := by decide +kernel
  have read : last.reading ∈ (Lexer.start source).readings := by decide +kernel
  obtain ⟨events, _, _, inside, told, _⟩ := log_in_lockstep settings source (some 28)
  refine ⟨shown, read, ?_, inside last shown, (told source last.reading read).1⟩
  rw [events, Session.transcript_eq_page]
  decide +kernel

end MonkeyTokens
