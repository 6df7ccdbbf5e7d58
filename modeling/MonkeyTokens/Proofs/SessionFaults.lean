import MonkeyTokens.Proofs.LiveSession
import MonkeyTokens.Proofs.SessionLines
import Mathlib.Data.List.DropRight

/-! Sessions on an output that fills up and an input that breaks. The input that counts is the one cut
behind its last line feed; of what a session without faults writes on it, as much is written as there is
room for, and a full output comes before a broken input. An invalid byte ends no session. -/

namespace MonkeyTokens

/-- The bytes through the last line feed. -/
def Line.finished (source : List UInt8) : List UInt8 := source.rdropWhile (· != Byte.lineFeed)

private theorem Line.finished_of_free {text : List UInt8} (free : Byte.lineFeed ∉ text) : Line.finished text = [] :=
  List.rdropWhile_eq_nil_iff.mpr (Line.bne_of_free free)

private theorem Line.finished_ended (text rest : List UInt8) :
    Line.finished (text ++ Byte.lineFeed :: rest) = text ++ Byte.lineFeed :: Line.finished rest := by
  induction rest using List.reverseRecOn with
  | nil => exact List.rdropWhile_concat_neg _ _ _ (by simp)
  | append_singleton rest byte ih =>
    rw [← List.cons_append, ← List.append_assoc, Line.finished, Line.finished, List.rdropWhile_concat,
      List.rdropWhile_concat]
    split
    next => exact ih
    next => simp

theorem Line.split_finished (source : List UInt8) :
    Line.split (Line.finished source) = (Line.split source).filter Line.isEnded := by
  induction source using Line.split_induction with
  | empty => rfl
  | unended text free filled =>
    rw [Line.finished_of_free free, Line.split_unended free filled]
    simp [Line.isEnded_of_free free, Line.split]
  | ended text rest free ih =>
    rw [Line.finished_ended, Line.split_ended free, Line.split_ended free,
      List.filter_cons_of_pos (Line.isEnded_concat text), ih]

namespace Session

/-- What can be read of an input, as an input that does not break. -/
def Input.mended (input : Input) : Input :=
  ⟨if input.breaks then Line.finished input.bytes else input.bytes, false⟩

private theorem Input.lines_mended (input : Input) : input.mended.lines = input.lines := by
  obtain ⟨bytes, breaks⟩ := input
  cases breaks with
  | true => exact Line.split_finished bytes
  | false => rfl

private theorem written_mended (settings : Settings) (input : Input) :
    (script settings input.mended).written = (script settings input).written := by
  simp only [written_script, Input.items, Input.lines_mended]

/-- Only the news that the input is closed is missing from the log of a session on a broken input. -/
private theorem logged_mended (settings : Settings) (input : Input) :
    (script settings input).logged <+: (script settings input.mended).logged := by
  have closing : (closing settings input).filterMap Step.event? <+:
      (closing settings input.mended).filterMap Step.event? := by
    cases breaks : input.breaks <;> simp [Session.closing, List.filterMap_cons, Step.event?, breaks, Input.mended]
  simp only [Script.logged, script, Input.lines_mended, List.filterMap_append]
  exact (List.prefix_append_right_inj _).mpr closing

end Session

/-- A session with faults against the one without them on what can be read of the input. -/
theorem session_faults (settings : Session.Settings) (input : Session.Input) (room : Option Nat) :
    let faultless := Session.live settings input.mended none
    let outcome := Session.live settings input room
    outcome = (Session.script settings input).run room ∧
      faultless = (Session.script settings input.mended).run none ∧
      faultless.output = Session.page settings input.items ∧
      outcome.output = room.elim faultless.output faultless.output.take ∧
      outcome.result =
        (if room.any (· < faultless.output.length) then .error (.device .outputFull)
        else if input.breaks then .error (.device .inputBroken)
        else .ok ()) ∧
      outcome.events <+: faultless.events := by
  -- Loops are exchanged for scripts, of which the limited one writes a prefix of what the other does.
  intro faultless outcome
  have run : outcome = (Session.script settings input).run room := Session.live_eq_run settings input room
  have whole : faultless = (Session.script settings input.mended).run none := Session.live_eq_run _ _ _
  have output : faultless.output = (Session.script settings input).written := by
    rw [whole, Script.run_none, Session.written_mended]
  have events : faultless.events = (Session.script settings input.mended).logged := by rw [whole, Script.run_none]
  refine ⟨run, whole, output.trans (Session.written_script settings input), ?_, ?_, ?_⟩
  · rw [run, output]
    cases room with
    | none => rw [Script.run_none]; rfl
    | some room => exact Script.output_run_some _ room
  · rw [run, output]
    cases room with
    | none => rw [Script.run_none]; rfl
    | some room =>
      rw [Script.result_run_some]
      by_cases fits : (Session.script settings input).written.length ≤ room
      · simp only [fits, if_true, Option.any_some, decide_eq_true_eq, Nat.not_lt.mpr fits, if_false]
        rfl
      · simp only [fits, if_false, Option.any_some, decide_eq_true_eq, Nat.lt_of_not_le fits, if_true]
  · rw [run, events]
    exact (Script.events_run_prefix _ room).trans (Session.logged_mended settings input)

end MonkeyTokens
