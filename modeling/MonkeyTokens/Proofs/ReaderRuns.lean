import MonkeyTokens.Proofs.LiveLexer

/-! Runs of a reader: it is asked for bytes and moved any number of times, in any order. Whatever a request
is, it comes to passing some number of bytes, so a reader always stands where passing so many bytes from the
start of its source would bring it. What it then answers can be told from the source and the offset. -/

namespace MonkeyTokens

namespace Reader

/-- What can be asked of a reader. -/
inductive Request where
  | current
  | peek
  | atEnd
  | since (offset : Nat)
  | advance
  | advanceBy (count : Nat)
  | skipWhile (accepts : UInt8 → Bool)

inductive Reply where
  | byte (byte : UInt8)
  | flag (flag : Bool)
  | bytes (bytes : List UInt8)
  | refused
  /-- The reader has been moved, and there is nothing to tell. -/
  | moved
  deriving DecidableEq

def reply (reader : Reader) : Request → Reply
  | .current => .byte reader.current
  | .peek => .byte reader.peek
  | .atEnd => .flag reader.atEnd
  | .since offset => (reader.since? offset).elim .refused .bytes
  | .advance | .advanceBy _ | .skipWhile _ => .moved

def obey (reader : Reader) : Request → Reader
  | .current | .peek | .atEnd | .since _ => reader
  | .advance => reader.advance
  | .advanceBy count => reader.advanceBy count
  | .skipWhile accepts => reader.skipWhile accepts

/-- The reader as requests leave it, refused ones included. -/
def after (reader : Reader) (requests : List Request) : Reader := requests.foldl obey reader

/-- The offset behind a number of bytes, in words of 64 bits. A sum that needs more bits loses them. -/
def wordAdvance (size place count : UInt64) : UInt64 := if place + count ≤ size then place + count else size

/-- The laws of runs on a source, where `after past` is the reader behind the requests of `past`. -/
structure Laws (source : List UInt8) (after : List Request → Reader) : Prop where
  whole : ∀ past, (after past).source = source
  inside : ∀ past, (after past).pos ≤ source.length
  forward : ∀ past more, (after past).pos ≤ (after (past ++ more)).pos
  idle : ∀ past request, (after past).reply request ≠ .moved → after (past ++ [request]) = after past
  atEnd : ∀ past, (after past).reply .atEnd = .flag (decide ((after past).pos = source.length))
  current : ∀ past, (after past).reply .current = .byte (source[(after past).pos]?.getD 0)
  peek : ∀ past, (after past).reply .peek = .byte (source[(after past).pos + 1]?.getD 0)
  since : ∀ past offset, offset ≤ (after past).pos →
    (after past).reply (.since offset) = .bytes (source.extract offset (after past).pos)
  refused_iff : ∀ past request,
    (after past).reply request = .refused ↔ ∃ offset, request = .since offset ∧ (after past).pos < offset
  /-- A slice from a mark holds the bytes passed since then, and slices between marks make up a longer one. -/
  slices : ∀ past more, ∃ bytes,
    (after past).ahead = bytes ++ (after (past ++ more)).ahead ∧
      (after (past ++ more)).reply (.since (after past).pos) = .bytes bytes ∧
      ∀ offset earlier, (after past).reply (.since offset) = .bytes earlier →
        (after (past ++ more)).reply (.since offset) = .bytes (earlier ++ bytes)
  advance : ∀ past, (after (past ++ [.advance])).pos = min ((after past).pos + 1) source.length
  advanceBy : ∀ past count, (after (past ++ [.advanceBy count])).pos = min ((after past).pos + count) source.length
  /-- Words do as well as numbers, as long as no sum needs more than 64 bits. -/
  words : ∀ past count, source.length < UInt64.size → (after past).pos + count < UInt64.size →
    (after (past ++ [.advanceBy count])).pos =
      (wordAdvance (.ofNat source.length) (.ofNat (after past).pos) (.ofNat count)).toNat
  advanceBy_add : ∀ past first second,
    after (past ++ [.advanceBy first, .advanceBy second]) = after (past ++ [.advanceBy (first + second)])

/-- Every request comes to passing some number of bytes. -/
theorem exists_obey (reader : Reader) (request : Request) : ∃ count, reader.obey request = reader.advanceBy count := by
  cases request with
  | current => exact ⟨0, rfl⟩
  | peek => exact ⟨0, rfl⟩
  | atEnd => exact ⟨0, rfl⟩
  | since offset => exact ⟨0, rfl⟩
  | advance => exact ⟨1, reader.advance_eq⟩
  | advanceBy count => exact ⟨count, rfl⟩
  | skipWhile accepts => exact ⟨_, reader.skipWhile_eq_advanceBy accepts⟩

theorem after_append (reader : Reader) (past more : List Request) :
    reader.after (past ++ more) = (reader.after past).after more := List.foldl_append

theorem exists_after (reader : Reader) (requests : List Request) :
    ∃ count, reader.after requests = reader.advanceBy count := by
  induction requests generalizing reader with
  | nil => exact ⟨0, rfl⟩
  | cons request requests ih =>
    obtain ⟨first, passed⟩ := reader.exists_obey request
    obtain ⟨more, behind⟩ := ih (reader.advanceBy first)
    refine ⟨first + more, ?_⟩
    rw [← advanceBy_advanceBy, ← behind, ← passed]
    rfl

/-- A slice grows by the bytes that are passed. -/
theorem since?_advanceBy_of_le {reader : Reader} {offset : Nat} (behind : offset ≤ reader.pos) (count : Nat) :
    (reader.advanceBy count).since? offset = (reader.since? offset).map (· ++ reader.ahead.take count) := by
  have length : min count reader.ahead.length = (reader.ahead.take count).reverse.length := by simp
  have place : (reader.advanceBy count).pos - offset =
      (reader.ahead.take count).reverse.length + (reader.pos - offset) := by
    rw [pos_advanceBy, length]
    omega
  have ahead : offset ≤ (reader.advanceBy count).pos := by
    rw [pos_advanceBy]
    omega
  rw [since?, since?, if_pos behind, if_pos ahead, place, passed_advanceBy, List.take_length_add_append]
  simp

namespace Within

variable {source : List UInt8} {reader : Reader}

theorem after (within : Within source reader) (requests : List Request) : Within source (reader.after requests) := by
  obtain ⟨count, passed⟩ := reader.exists_after requests
  rw [passed]
  exact within.advanceBy count

theorem pos_advanceBy_eq_min (within : Within source reader) (count : Nat) :
    (reader.advanceBy count).pos = min (reader.pos + count) source.length := by
  rw [Reader.pos_advanceBy, within.length, Nat.add_min_add_left]

/-- A place in a source is told by its offset. -/
theorem eq_advanceBy (within : Within source reader) : reader = (Reader.start source).advanceBy reader.pos := by
  have behind : source.take reader.pos = reader.passed.reverse := by
    rw [← within.whole, Reader.source, reader.counted]
    exact List.take_left' List.length_reverse
  apply Reader.ext
  · rw [passed_advanceBy, Reader.start, behind, List.reverse_reverse, List.append_nil]
  · rw [ahead_advanceBy, Reader.start, within.drop_pos]

theorem atEnd (within : Within source reader) : reader.atEnd = decide (reader.pos = source.length) := by
  rw [Reader.atEnd, Bool.eq_iff_iff, List.isEmpty_iff_length_eq_zero, decide_eq_true_eq, within.length]
  omega

theorem current (within : Within source reader) : reader.current = source[reader.pos]?.getD 0 := by
  rw [Reader.current, List.headD_eq_head?_getD, within.head?_ahead]

theorem peek (within : Within source reader) : reader.peek = source[reader.pos + 1]?.getD 0 := by
  rw [Reader.peek, List.headD_eq_head?_getD, ← within.drop_pos, List.tail_drop, List.head?_drop]

theorem since? (within : Within source reader) {offset : Nat} (behind : offset ≤ reader.pos) :
    reader.since? offset = some (source.extract offset reader.pos) := by
  have length : reader.passed.reverse.length = reader.pos := by rw [List.length_reverse, reader.counted]
  have cut : source.extract offset reader.pos = reader.passed.reverse.drop offset := by
    rw [List.extract_eq_take_drop, ← within.whole, Reader.source, List.drop_append_of_le_length (by omega)]
    exact List.take_left' (by rw [List.length_drop, length])
  rw [Reader.since?, if_pos behind, cut, List.drop_reverse, ← reader.counted]

end Within

theorem reply_since_eq_bytes {reader : Reader} {offset : Nat} {bytes : List UInt8} :
    reader.reply (.since offset) = .bytes bytes ↔ reader.since? offset = some bytes := by
  rw [reply]
  cases reader.since? offset <;> simp

theorem reply_eq_refused (reader : Reader) (request : Request) :
    reader.reply request = .refused ↔ ∃ offset, request = .since offset ∧ reader.pos < offset := by
  cases request with
  | since offset =>
    rw [reply, since?]
    split
    next behind => simpa using behind
    next ahead => simpa using ahead
  | _ => simp [reply]

/-- Only what moves a reader tells nothing. -/
theorem obey_of_reply {reader : Reader} {request : Request} (told : reader.reply request ≠ .moved) :
    reader.obey request = reader := by
  cases request with
  | advance => exact absurd rfl told
  | advanceBy count => exact absurd rfl told
  | skipWhile accepts => exact absurd rfl told
  | _ => rfl

theorem slices_after (reader : Reader) (more : List Request) : ∃ bytes,
    reader.ahead = bytes ++ (reader.after more).ahead ∧
      (reader.after more).reply (.since reader.pos) = .bytes bytes ∧
      ∀ offset earlier, reader.reply (.since offset) = .bytes earlier →
        (reader.after more).reply (.since offset) = .bytes (earlier ++ bytes) := by
  obtain ⟨count, passed⟩ := reader.exists_after more
  refine ⟨reader.ahead.take count, ?_, ?_, ?_⟩
  · rw [passed, ahead_advanceBy, List.take_append_drop]
  · rw [reply_since_eq_bytes, passed, since?_advanceBy]
  · intro offset earlier cut
    rw [reply_since_eq_bytes] at cut ⊢
    have behind : offset ≤ reader.pos := by
      unfold since? at cut
      split at cut
      next behind => exact behind
      next => cases cut
    rw [passed, since?_advanceBy_of_le behind, cut, Option.map_some]

theorem toNat_wordAdvance {size place count : Nat} (small : size < UInt64.size) (short : place + count < UInt64.size) :
    (wordAdvance (.ofNat size) (.ofNat place) (.ofNat count)).toNat = min (place + count) size := by
  have word {n : Nat} (fits : n < UInt64.size) : (UInt64.ofNat n).toNat = n := UInt64.toNat_ofNat_of_lt' fits
  have sum : (UInt64.ofNat place + UInt64.ofNat count).toNat = place + count := by
    rw [UInt64.toNat_add, word (by omega), word (by omega), Nat.mod_eq_of_lt short]
  unfold wordAdvance
  split
  next below =>
    rw [UInt64.le_iff_toNat_le, sum, word small] at below
    rw [sum, Nat.min_eq_left below]
  next above =>
    rw [UInt64.le_iff_toNat_le, sum, word small] at above
    rw [word small, Nat.min_eq_right (by omega)]

end Reader

/-- Every run from the start of a source obeys the laws. -/
theorem readerLaws_start (source : List UInt8) : Reader.Laws source (Reader.start source).after := by
  have within (past : List Reader.Request) := (Reader.Within.start source).after past
  have moves (past : List Reader.Request) (count : Nat) :
      ((Reader.start source).after (past ++ [.advanceBy count])).pos =
        min (((Reader.start source).after past).pos + count) source.length := by
    rw [Reader.after_append]
    exact (within past).pos_advanceBy_eq_min count
  constructor
  case whole => exact fun past => (within past).whole
  case inside => exact fun past => (within past).pos_le
  case forward =>
    intro past more
    obtain ⟨count, passed⟩ := ((Reader.start source).after past).exists_after more
    rw [Reader.after_append, passed, Reader.pos_advanceBy]
    exact Nat.le_add_right _ _
  case idle =>
    intro past request told
    rw [Reader.after_append]
    exact Reader.obey_of_reply told
  case atEnd => exact fun past => congrArg Reader.Reply.flag (within past).atEnd
  case current => exact fun past => congrArg Reader.Reply.byte (within past).current
  case peek => exact fun past => congrArg Reader.Reply.byte (within past).peek
  case since =>
    intro past offset behind
    exact Reader.reply_since_eq_bytes.mpr ((within past).since? behind)
  case refused_iff => exact fun past request => Reader.reply_eq_refused _ request
  case slices =>
    intro past more
    rw [Reader.after_append]
    exact Reader.slices_after _ more
  case advance =>
    intro past
    rw [Reader.after_append]
    refine Eq.trans ?_ ((within past).pos_advanceBy_eq_min 1)
    exact congrArg Reader.pos (Reader.advance_eq _)
  case advanceBy => exact moves
  case words =>
    intro past count small short
    rw [moves, Reader.toNat_wordAdvance small short]
  case advanceBy_add =>
    intro past first second
    rw [Reader.after_append, Reader.after_append]
    exact Reader.advanceBy_advanceBy _ first second

end MonkeyTokens
