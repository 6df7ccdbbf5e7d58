import MonkeyTokens.Source.Byte

/-! Lines of a source. A line feed ends a line and belongs to it; what follows the last line feed, if
anything does, is a line without one. The body of a line is what stands before its ending, which is a
line feed, a carriage return, or the two in the order return, feed. -/

namespace MonkeyTokens.Line

/-- The lines of a source, endings included. -/
def split : List UInt8 → List (List UInt8)
  | [] => []
  | byte :: rest =>
    if byte = Byte.lineFeed then [byte] :: split rest
    else
      match split rest with
      | [] => [[byte]]
      | line :: lines => (byte :: line) :: lines

def isEnded (line : List UInt8) : Bool := line.getLast? = some Byte.lineFeed

private def without (ending : UInt8) (line : List UInt8) : List UInt8 :=
  if line.getLast? = some ending then line.dropLast else line

/-- A line without its ending: one line feed, then one carriage return, each if there is one. -/
def body (line : List UInt8) : List UInt8 := without Byte.carriageReturn (without Byte.lineFeed line)

theorem body_concat_feed {text : List UInt8} (free : Byte.lineFeed ∉ text) :
    body (text ++ [Byte.lineFeed]) = body text := by
  have last : text.getLast? ≠ some Byte.lineFeed := fun last => free (List.mem_of_getLast? last)
  simp [body, without, last]

theorem body_concat_return (text : List UInt8) : body (text ++ [Byte.carriageReturn]) = text := by
  have other : Byte.carriageReturn ≠ Byte.lineFeed := by decide
  simp [body, without, other]

theorem body_of_plain {text : List UInt8} (free : Byte.lineFeed ∉ text)
    (plain : text.getLast? ≠ some Byte.carriageReturn) : body text = text := by
  have last : text.getLast? ≠ some Byte.lineFeed := fun last => free (List.mem_of_getLast? last)
  simp [body, without, last, plain]

theorem bne_of_free {text : List UInt8} (free : Byte.lineFeed ∉ text) :
    ∀ byte ∈ text, (byte != Byte.lineFeed) = true := by
  intro byte member
  simpa using ne_of_mem_of_not_mem member free

theorem isEnded_of_free {text : List UInt8} (free : Byte.lineFeed ∉ text) : isEnded text = false := by
  simp only [isEnded, decide_eq_false_iff_not]
  exact fun last => free (List.mem_of_getLast? last)

theorem isEnded_concat (text : List UInt8) : isEnded (text ++ [Byte.lineFeed]) = true := by simp [isEnded]

theorem flatten_split (source : List UInt8) : (split source).flatten = source := by
  induction source with
  | nil => rfl
  | cons byte rest ih =>
    unfold split
    split
    · simp [ih]
    split
    next last => simpa [last] using ih
    next line lines more => simpa [more] using ih

theorem split_ended {text : List UInt8} (free : Byte.lineFeed ∉ text) (rest : List UInt8) :
    split (text ++ Byte.lineFeed :: rest) = (text ++ [Byte.lineFeed]) :: split rest := by
  induction text with
  | nil => simp [split]
  | cons byte text ih =>
    rw [List.mem_cons, not_or] at free
    obtain ⟨other, free⟩ := free
    rw [List.cons_append, split, if_neg (Ne.symm other), ih free]
    rfl

theorem split_unended {text : List UInt8} (free : Byte.lineFeed ∉ text) (filled : text ≠ []) :
    split text = [text] := by
  induction text with
  | nil => exact absurd rfl filled
  | cons byte text ih =>
    rw [List.mem_cons, not_or] at free
    obtain ⟨other, free⟩ := free
    rw [split, if_neg (Ne.symm other)]
    cases text with
    | nil => rfl
    | cons next text => rw [ih free (by simp)]

theorem split_flatten {lines : List (List UInt8)}
    (ended : ∀ line ∈ lines, ∃ text, Byte.lineFeed ∉ text ∧ line = text ++ [Byte.lineFeed]) :
    split lines.flatten = lines := by
  induction lines with
  | nil => rfl
  | cons line lines ih =>
    rw [List.forall_mem_cons] at ended
    obtain ⟨⟨text, free, rfl⟩, ended⟩ := ended
    rw [List.flatten_cons, List.append_assoc, List.singleton_append, split_ended free, ih ended]

/-- Lines are taken off the front of a source, ended ones first. -/
@[elab_as_elim]
theorem split_induction {motive : List UInt8 → Prop} (empty : motive [])
    (unended : ∀ text, Byte.lineFeed ∉ text → text ≠ [] → motive text)
    (ended : ∀ text rest, Byte.lineFeed ∉ text → motive rest → motive (text ++ Byte.lineFeed :: rest))
    (source : List UInt8) : motive source := by
  by_cases feed : Byte.lineFeed ∈ source
  · obtain ⟨text, rest, whole, free⟩ := List.eq_append_cons_of_mem feed
    have : rest.length < source.length := by
      rw [whole, List.length_append, List.length_cons]
      omega
    rw [whole]
    exact ended text rest free (split_induction empty unended ended rest)
  · cases source with
    | nil => exact empty
    | cons byte rest => exact unended _ feed (by simp)
termination_by source.length

/-- Every line feed ends a line, and what follows the last one is a line if there is anything. -/
theorem length_split (source : List UInt8) :
    (split source).length = source.count Byte.lineFeed + if source = [] ∨ isEnded source = true then 0 else 1 := by
  induction source using split_induction with
  | empty => rfl
  | unended text free filled =>
    simp [split_unended free filled, List.count_eq_zero.mpr free, filled, isEnded_of_free free]
  | ended text rest free ih =>
    have behind : isEnded (text ++ Byte.lineFeed :: rest) = true ↔ rest = [] ∨ isEnded rest = true := by
      cases rest with
      | nil => simp [isEnded]
      | cons next rest => simp [isEnded]
    rw [split_ended free, List.length_cons, ih, List.count_append, List.count_eq_zero.mpr free, List.count_cons_self]
    simp only [behind]
    simp
    omega

/-- Lines that end before the cut stay as they are. -/
theorem split_append {before : List UInt8} (cut : before = [] ∨ isEnded before = true) (rest : List UInt8) :
    split (before ++ rest) = split before ++ split rest := by
  induction before using split_induction with
  | empty => rfl
  | unended text free filled =>
    rcases cut with rfl | last
    · exact absurd rfl filled
    · exact absurd last (by simp [isEnded_of_free free])
  | ended text more free ih =>
    have behind : more = [] ∨ isEnded more = true := by
      cases more with
      | nil => exact .inl rfl
      | cons next more => simpa [isEnded] using cut
    rw [List.append_assoc, List.cons_append, split_ended free, split_ended free, ih behind, List.cons_append]

private theorem without_append (ending : UInt8) (line : List UInt8) :
    ∃ rest, line = without ending line ++ rest ∧ ∀ byte ∈ rest, byte = ending := by
  unfold without
  split
  next last =>
    obtain ⟨kept, rfl⟩ := List.getLast?_eq_some_iff.mp last
    exact ⟨[ending], by simp⟩
  next => exact ⟨[], by simp⟩

/-- Between a body and the end of its line stand the bytes of a line ending. -/
theorem body_append (line : List UInt8) :
    ∃ ending, line = body line ++ ending ∧
      ∀ byte ∈ ending, byte = Byte.lineFeed ∨ byte = Byte.carriageReturn := by
  obtain ⟨feed, whole, feeds⟩ := without_append Byte.lineFeed line
  obtain ⟨back, kept, returns⟩ := without_append Byte.carriageReturn (without Byte.lineFeed line)
  refine ⟨back ++ feed, ?_, ?_⟩
  · rw [body, ← List.append_assoc, ← kept, ← whole]
  · intro byte member
    rcases List.mem_append.mp member with member | member
    · exact .inr (returns byte member)
    · exact .inl (feeds byte member)

end MonkeyTokens.Line
