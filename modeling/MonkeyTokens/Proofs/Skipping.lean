import MonkeyTokens.Proofs.ReaderRuns
import Mathlib.Order.Bounds.Defs

/-! Skipping what is accepted. The loop that does it looks at one byte after the other and ends at the first
that is refused or at the end of the source, never at a zero byte by itself. So it passes the longest run of
accepted bytes, and there is nothing left to skip for a predicate that accepts no more. -/

namespace MonkeyTokens

namespace Reader

/-- A run of the loop from one offset to another, turn by turn. Where the loop does not end it has no run. -/
inductive SkipLoop (source : List UInt8) (accepts : UInt8 → Bool) : Nat → Nat → Prop where
  | rest {place : Nat} (refused : ∀ byte ∈ source[place]?, accepts byte = false) : SkipLoop source accepts place place
  | turn {place stop : Nat} {byte : UInt8} (next : source[place]? = some byte) (accepted : accepts byte = true)
      (behind : SkipLoop source accepts (place + 1) stop) : SkipLoop source accepts place stop

/-- From one offset to another there are accepted bytes only. -/
structure Accepted (source : List UInt8) (accepts : UInt8 → Bool) (start stop : Nat) : Prop where
  forward : start ≤ stop
  bytes : ∀ place, start ≤ place → place < stop → ∃ byte, source[place]? = some byte ∧ accepts byte = true

namespace SkipLoop

variable {source : List UInt8} {accepts : UInt8 → Bool} {start stop : Nat}

/-- A byte is accepted or refused, so no two runs from one offset end apart. -/
theorem unique {other : Nat} (run : SkipLoop source accepts start stop)
    (another : SkipLoop source accepts start other) : other = stop := by
  induction run with
  | rest refused =>
    cases another with
    | rest => rfl
    | turn next accepted =>
      rw [refused _ next] at accepted
      cases accepted
  | turn next accepted _ ih =>
    cases another with
    | rest refused =>
      rw [refused _ next] at accepted
      cases accepted
    | turn _ _ behind => exact ih behind

theorem accepted (run : SkipLoop source accepts start stop) : Accepted source accepts start stop := by
  induction run with
  | rest => exact ⟨Nat.le_refl _, fun place _ _ => by omega⟩
  | turn next accepted _ ih =>
    obtain ⟨forward, bytes⟩ := ih
    refine ⟨by omega, ?_⟩
    intro place behind inside
    rcases Nat.eq_or_lt_of_le behind with rfl | later
    · exact ⟨_, next, accepted⟩
    · exact bytes place later inside

theorem refused (run : SkipLoop source accepts start stop) : ∀ byte ∈ source[stop]?, accepts byte = false := by
  induction run with
  | rest refused => exact refused
  | turn _ _ _ ih => exact ih

theorem isGreatest (run : SkipLoop source accepts start stop) :
    IsGreatest {stop | Accepted source accepts start stop} stop := by
  refine ⟨run.accepted, ?_⟩
  intro other longer
  apply Nat.le_of_not_lt
  intro behind
  -- A longer run would have the byte accepted that ended this one.
  obtain ⟨byte, here, accepted⟩ := longer.bytes stop run.accepted.forward behind
  rw [run.refused byte here] at accepted
  cases accepted

end SkipLoop

section Skip

variable {accepts : UInt8 → Bool} {reader : Reader}

/-- One turn after the other: the next byte is accepted and passed, or nothing is. -/
@[elab_as_elim]
theorem skip_induction {motive : Reader → Prop} (accepts : UInt8 → Bool)
    (rest : ∀ reader, (∀ byte ∈ reader.ahead.head?, accepts byte = false) → motive reader)
    (turn : ∀ reader byte, reader.ahead.head? = some byte → accepts byte = true → motive (reader.advanceBy 1) →
      motive reader) (reader : Reader) : motive reader := by
  generalize same : reader.ahead = ahead
  induction ahead generalizing reader with
  | nil => exact rest reader (by simp [same])
  | cons byte bytes ih =>
    cases accepted : accepts byte with
    | false => exact rest reader (by simp [same, accepted])
    | true => exact turn reader byte (by simp [same]) accepted (ih _ (by simp [same]))

theorem skipWhile_of_rest (refused : ∀ byte ∈ reader.ahead.head?, accepts byte = false) :
    reader.skipWhile accepts = reader := by
  rw [skipWhile_eq_advanceBy]
  cases ahead : reader.ahead with
  | nil => rfl
  | cons byte bytes =>
    have refused : ¬ accepts byte = true := by simpa [ahead] using refused
    rw [List.takeWhile_cons_of_neg refused]
    rfl

theorem skipWhile_of_turn {byte : UInt8} (next : reader.ahead.head? = some byte) (accepted : accepts byte = true) :
    reader.skipWhile accepts = (reader.advanceBy 1).skipWhile accepts := by
  obtain ⟨bytes, ahead⟩ := List.head?_eq_some_iff.mp next
  rw [skipWhile_eq_advanceBy, skipWhile_eq_advanceBy, advanceBy_advanceBy, ahead_advanceBy, ahead,
    List.takeWhile_cons_of_pos accepted, List.length_cons, Nat.add_comm]
  rfl

theorem pos_turn {byte : UInt8} (next : reader.ahead.head? = some byte) :
    (reader.advanceBy 1).pos = reader.pos + 1 := by
  obtain ⟨bytes, ahead⟩ := List.head?_eq_some_iff.mp next
  rw [pos_advanceBy, ahead, List.length_cons]
  omega

/-- What is ahead behind a run is refused. -/
theorem head?_skipWhile (accepts : UInt8 → Bool) (reader : Reader) :
    ∀ byte ∈ (reader.skipWhile accepts).ahead.head?, accepts byte = false := by
  induction reader using skip_induction accepts with
  | rest reader refused => rwa [skipWhile_of_rest refused]
  | turn reader byte next accepted ih => rwa [skipWhile_of_turn next accepted]

theorem skipWhile_skipWhile_of_stronger {stronger : UInt8 → Bool}
    (fewer : ∀ byte, stronger byte = true → accepts byte = true) :
    (reader.skipWhile accepts).skipWhile stronger = reader.skipWhile accepts := by
  apply skipWhile_of_rest
  intro byte next
  have refused := head?_skipWhile accepts reader byte next
  cases kept : stronger byte with
  | false => rfl
  | true => rw [fewer byte kept] at refused; exact refused

theorem skipWhile_skipWhile_of_weaker {weaker : UInt8 → Bool}
    (more : ∀ byte, accepts byte = true → weaker byte = true) :
    (reader.skipWhile accepts).skipWhile weaker = reader.skipWhile weaker := by
  induction reader using skip_induction accepts with
  | rest reader refused => rw [skipWhile_of_rest refused]
  | turn reader byte next accepted ih =>
    rw [skipWhile_of_turn next accepted, ih, skipWhile_of_turn next (more byte accepted)]

end Skip

namespace Within

variable {source : List UInt8} {accepts : UInt8 → Bool} {reader : Reader}

theorem skipWhile (within : Within source reader) (accepts : UInt8 → Bool) :
    Within source (reader.skipWhile accepts) := by
  rw [skipWhile_eq_advanceBy]
  exact within.advanceBy _

/-- The loop comes to an end, and it does so where the reader is left. -/
theorem skipLoop (within : Within source reader) (accepts : UInt8 → Bool) :
    SkipLoop source accepts reader.pos (reader.skipWhile accepts).pos := by
  induction reader using skip_induction accepts with
  | rest reader refused =>
    rw [skipWhile_of_rest refused]
    rw [within.head?_ahead] at refused
    exact .rest refused
  | turn reader byte next accepted ih =>
    have behind := ih (within.advanceBy 1)
    rw [pos_turn next] at behind
    rw [skipWhile_of_turn next accepted]
    rw [within.head?_ahead] at next
    exact .turn next accepted behind

/-- The end of the source, or a byte that is refused. -/
theorem stop_skipWhile (within : Within source reader) (accepts : UInt8 → Bool) :
    (reader.skipWhile accepts).pos = source.length ∨
      ∃ byte, source[(reader.skipWhile accepts).pos]? = some byte ∧ accepts byte = false := by
  have run := within.skipLoop accepts
  cases next : source[(reader.skipWhile accepts).pos]? with
  | none =>
    rw [List.getElem?_eq_none_iff] at next
    exact .inl (Nat.le_antisymm (within.skipWhile accepts).pos_le next)
  | some byte => exact .inr ⟨byte, rfl, run.refused byte next⟩

end Within

end Reader

/-- Skipping from any place of a source ends, and where it ends is told by the longest run of accepted bytes. -/
theorem skipWhile_longest (source : List UInt8) (accepts : UInt8 → Bool) {start : Nat}
    (inside : start ≤ source.length) :
    let reader := (Reader.start source).advanceBy start
    let stopped := reader.skipWhile accepts
    reader.pos = start ∧ stopped = (Reader.start source).advanceBy stopped.pos ∧
      (∀ stop, Reader.SkipLoop source accepts start stop ↔ stop = stopped.pos) ∧
      IsGreatest {stop | Reader.Accepted source accepts start stop} stopped.pos ∧
      (stopped.pos = source.length ∨ ∃ byte, source[stopped.pos]? = some byte ∧ accepts byte = false) ∧
      (∀ stronger : UInt8 → Bool, (∀ byte, stronger byte = true → accepts byte = true) →
        stopped.skipWhile stronger = stopped) ∧
      ∀ weaker : UInt8 → Bool, (∀ byte, accepts byte = true → weaker byte = true) →
        stopped.skipWhile weaker = reader.skipWhile weaker := by
  intro reader stopped
  have within : Reader.Within source reader := (Reader.Within.start source).advanceBy start
  have place : reader.pos = start := by
    rw [(Reader.Within.start source).pos_advanceBy_eq_min, Reader.start, Nat.zero_add, Nat.min_eq_left inside]
  have run : Reader.SkipLoop source accepts start stopped.pos := by
    rw [← place]
    exact within.skipLoop accepts
  refine ⟨place, (within.skipWhile accepts).eq_advanceBy, ?_, run.isGreatest, within.stop_skipWhile accepts, ?_, ?_⟩
  · exact fun stop => ⟨run.unique, fun same => same ▸ run⟩
  · exact fun stronger fewer => Reader.skipWhile_skipWhile_of_stronger fewer
  · exact fun weaker more => Reader.skipWhile_skipWhile_of_weaker more

/-- Zero bytes are accepted and stand at the end of the source, where a read would give another one. -/
theorem skipWhile_longest_zeros :
    let source : List UInt8 := [0x61, 0x00, 0x00]
    let zero : UInt8 → Bool := (· == 0)
    let reader := (Reader.start source).advanceBy 1
    let stopped := reader.skipWhile zero
    1 ≤ source.length ∧ stopped.current = 0 ∧ stopped = (Reader.start source).advanceBy 3 ∧
      Reader.SkipLoop source zero 1 3 ∧ IsGreatest {stop | Reader.Accepted source zero 1 stop} 3 ∧
      stopped.skipWhile (fun _ => false) = stopped ∧
      stopped.skipWhile (fun _ => true) = reader.skipWhile fun _ => true := by
  intro source zero reader stopped
  have inside : 1 ≤ source.length := by decide
  have stop : stopped.pos = 3 := by decide
  obtain ⟨_, place, loop, longest, _, stronger, weaker⟩ := skipWhile_longest source zero inside
  change stopped = (Reader.start source).advanceBy stopped.pos at place
  rw [stop] at place
  refine ⟨inside, by decide, place, ?_, ?_, stronger _ ?_, weaker _ ?_⟩
  · exact (loop 3).mpr stop.symm
  · exact stop ▸ longest
  · intro byte kept
    cases kept
  · exact fun _ _ => rfl

end MonkeyTokens
