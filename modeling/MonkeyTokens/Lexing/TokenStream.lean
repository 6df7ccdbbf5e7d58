import MonkeyTokens.Lexing.Lexer

/-! Token streams: a lexer read item by item through its first final item, after which the stream is
finished for good. A stream made from a lexer that had already ended never finishes: it refuses every
time it is asked. -/

namespace MonkeyTokens

structure TokenStream where
  lexer : Lexer
  /-- Whether a final item has been handed out. -/
  finished : Bool
  deriving DecidableEq

/-- What asking a stream for its next item comes to. -/
inductive Pull where
  | item (reading : Reading) (rest : TokenStream)
  | finished
  | refused
  deriving DecidableEq

namespace TokenStream

def ofLexer (lexer : Lexer) : TokenStream := ⟨lexer, false⟩

def pull (stream : TokenStream) : Pull :=
  if stream.finished then .finished
  else
    match stream.lexer.next? with
    | none => .refused
    | some reading => .item reading ⟨reading.after, reading.item.isFinal⟩

/-- How much a stream can still read. -/
def weight (stream : TokenStream) : Nat := if stream.finished then 0 else stream.lexer.reader.ahead.length + 1

theorem weight_pull {stream rest : TokenStream} {reading : Reading} (pulled : stream.pull = .item reading rest) :
    rest.weight < stream.weight := by
  obtain ⟨lexer, finished⟩ := stream
  unfold pull at pulled
  split at pulled
  next => cases pulled
  next unfinished =>
    split at pulled
    next => cases pulled
    next found read =>
      cases pulled
      simp only [Bool.not_eq_true] at unfinished
      simp only [weight, unfinished, Bool.false_eq_true, if_false]
      split
      next => exact Nat.succ_pos _
      next more => exact Nat.succ_lt_succ (Lexer.next?_shrinks read (by simpa using more))

/-- The readings still to come, and the stream that has handed them all out, as it is asked for one item
after the other; refused when it refuses one. -/
def drain? (stream : TokenStream) : Option (List Reading × TokenStream) :=
  match pulled : stream.pull with
  | .finished => some ([], stream)
  | .refused => none
  | .item reading rest =>
    have : rest.weight < stream.weight := weight_pull pulled
    rest.drain?.map fun (readings, last) => (reading :: readings, last)
termination_by stream.weight

def count? (stream : TokenStream) : Option Nat := stream.drain?.map fun (readings, _) => readings.length

theorem drain?_eq (stream : TokenStream) :
    stream.drain? =
      match stream.pull with
      | .finished => some ([], stream)
      | .refused => none
      | .item reading rest => rest.drain?.map fun (readings, last) => (reading :: readings, last) := by
  rw [drain?]
  split
  next pulled => simp only [pulled]
  next pulled => simp only [pulled]
  next pulled => simp only [pulled]

section

variable {lexer : Lexer} {reading : Reading}

theorem pull_ofLexer (read : lexer.next? = some reading) :
    (ofLexer lexer).pull = .item reading ⟨reading.after, reading.item.isFinal⟩ := by
  simp [ofLexer, pull, read]

theorem drain?_finished (lexer : Lexer) : drain? ⟨lexer, true⟩ = some ([], ⟨lexer, true⟩) := by
  rw [drain?_eq]
  rfl

/-- A stream on a lexer that has not ended hands out its readings, and nothing more. -/
theorem drain?_ofLexer (fresh : lexer.ended = false) :
    ∃ last, (ofLexer lexer).drain? = some (lexer.readings, ⟨last, true⟩) := by
  induction lexer, fresh using Lexer.readings_induction with
  | last lexer reading fresh read final =>
    refine ⟨reading.after, ?_⟩
    rw [drain?_eq, pull_ofLexer read, final, Lexer.readings_of_final read final]
    simp only [drain?_finished, Option.map_some]
  | more lexer reading fresh behind read more ih =>
    obtain ⟨last, rest⟩ := ih
    refine ⟨last, ?_⟩
    rw [drain?_eq, pull_ofLexer read, more, Lexer.readings_of_more read more]
    exact congrArg (Option.map _) rest

theorem count?_finished (lexer : Lexer) : count? ⟨lexer, true⟩ = some 0 := by
  rw [count?, drain?_finished]
  rfl

theorem count?_ofLexer (fresh : lexer.ended = false) : (ofLexer lexer).count? = some lexer.readings.length := by
  obtain ⟨last, drained⟩ := drain?_ofLexer fresh
  rw [count?, drained]
  rfl

end

/-- Counting refuses in the states where asking for an item does. -/
theorem count?_eq_none_iff (stream : TokenStream) : stream.count? = none ↔ stream.pull = .refused := by
  obtain ⟨lexer, finished⟩ := stream
  cases finished with
  | true => simp [count?_finished, pull]
  | false =>
    cases read : lexer.next? with
    | none =>
      have refused : pull ⟨lexer, false⟩ = .refused := by simp [pull, read]
      simp [count?, drain?_eq, refused]
    | some reading =>
      have fresh : lexer.ended = false := by
        rw [← Bool.not_eq_true, ← Lexer.next?_eq_none_iff, read]
        exact Option.some_ne_none reading
      have counted := count?_ofLexer fresh
      have pulled := pull_ofLexer read
      rw [ofLexer] at counted pulled
      simp [counted, pulled]

end TokenStream

end MonkeyTokens
