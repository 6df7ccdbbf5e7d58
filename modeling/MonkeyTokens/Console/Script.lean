import MonkeyTokens.Console.Failure
import MonkeyTokens.Event

/-! Scripts: what a command does as long as its output takes everything, step by step, and how it ends.
No step depends on what an earlier one came to, so a script carried out on an output with little room is
the same script cut off inside the first write that does not fit. -/

namespace MonkeyTokens

inductive Step where
  | log (event : Event)
  | write (text : String)
  deriving DecidableEq

structure Script (α : Type) where
  steps : List Step
  result : Except Failure α

/-- What came of a script: the bytes that the output took, the events logged, and the result. -/
structure Outcome (α : Type) where
  output : List UInt8
  events : List Event
  result : Except Failure α

def Step.bytes : Step → List UInt8
  | log _ => []
  | write text => Text.utf8 text

def Step.event? : Step → Option Event
  | log event => some event
  | write _ => none

namespace Script

variable {α : Type}

def written (script : Script α) : List UInt8 := script.steps.flatMap Step.bytes

def logged (script : Script α) : List Event := script.steps.filterMap Step.event?

/-- Steps on an output that takes everything, or no more than `room` bytes in all. A write that does
not fit fills the output and fails; a write of nothing always fits. -/
def perform (result : Except Failure α) : (room : Option Nat) → List Step → Outcome α
  | _, [] => ⟨[], [], result⟩
  | room, .log event :: rest =>
    let outcome := perform result room rest
    { outcome with events := event :: outcome.events }
  | none, .write text :: rest =>
    let outcome := perform result none rest
    { outcome with output := Text.utf8 text ++ outcome.output }
  | some room, .write text :: rest =>
    let bytes := Text.utf8 text
    if bytes.length ≤ room then
      let outcome := perform result (some (room - bytes.length)) rest
      { outcome with output := bytes ++ outcome.output }
    else ⟨bytes.take room, [], .error (.device .outputFull)⟩

def run (script : Script α) (room : Option Nat) : Outcome α := perform script.result room script.steps

theorem run_none (script : Script α) :
    script.run none = ⟨script.written, script.logged, script.result⟩ := by
  obtain ⟨steps, result⟩ := script
  simp only [run, written, logged]
  induction steps with
  | nil => rfl
  | cons step rest ih => cases step <;> simp [perform, ih, Step.bytes, Step.event?, List.filterMap_cons]

private theorem perform_output (result : Except Failure α) (room : Nat) (steps : List Step) :
    (perform result (some room) steps).output = (steps.flatMap Step.bytes).take room := by
  induction steps generalizing room with
  | nil => simp [perform]
  | cons step rest ih =>
    cases step with
    | log event => simp [perform, ih, Step.bytes]
    | write text =>
      simp only [perform, List.flatMap_cons, Step.bytes, List.take_append]
      split
      next fits => simp [ih, List.take_of_length_le fits]
      next short => simp [Nat.sub_eq_zero_of_le (Nat.le_of_not_le short)]

theorem output_run_some (script : Script α) (room : Nat) :
    (script.run (some room)).output = script.written.take room :=
  perform_output script.result room script.steps

private theorem perform_result (result : Except Failure α) (room : Nat) (steps : List Step) :
    (perform result (some room) steps).result =
      if (steps.flatMap Step.bytes).length ≤ room then result else .error (.device .outputFull) := by
  induction steps generalizing room with
  | nil => simp [perform]
  | cons step rest ih =>
    cases step with
    | log event => simp [perform, ih, Step.bytes]
    | write text =>
      simp only [perform, List.flatMap_cons, Step.bytes, List.length_append]
      split
      next fits =>
        simp only [ih]
        congr 1
        simp only [eq_iff_iff]
        omega
      next short => rw [if_neg (by omega)]

theorem result_run_some (script : Script α) (room : Nat) :
    (script.run (some room)).result =
      if script.written.length ≤ room then script.result else .error (.device .outputFull) :=
  perform_result script.result room script.steps

theorem output_run (script : Script α) (room : Option Nat) :
    (script.run room).output = room.elim script.written script.written.take := by
  cases room with
  | none => rw [run_none, Option.elim_none]
  | some room => exact output_run_some script room

theorem result_run (script : Script α) (room : Option Nat) :
    (script.run room).result =
      if room.any (· < script.written.length) then .error (.device .outputFull) else script.result := by
  cases room with
  | none => simp [run_none]
  | some room =>
    rw [result_run_some]
    by_cases fits : script.written.length ≤ room
    · simp [fits, Nat.not_lt.mpr fits]
    · simp [fits, Nat.lt_of_not_le fits]

private theorem perform_events (result : Except Failure α) (room : Option Nat) (steps : List Step) :
    (perform result room steps).events <+: steps.filterMap Step.event? := by
  induction steps generalizing room with
  | nil => simp [perform]
  | cons step rest ih =>
    cases step with
    | log event => simp [perform, ih, Step.event?]
    | write text =>
      simp only [List.filterMap_cons, Step.event?]
      cases room with
      | none => exact ih none
      | some room =>
        rw [perform]
        split
        next fits => exact ih _
        next short => exact List.nil_prefix

theorem events_run_prefix (script : Script α) (room : Option Nat) : (script.run room).events <+: script.logged :=
  perform_events script.result room script.steps

end Script

end MonkeyTokens
