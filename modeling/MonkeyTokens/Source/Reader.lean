import MonkeyTokens.Source.Byte

/-! A place in a source, from which bytes are read forward. The bytes behind the place are kept last one
first, so every step forward moves one byte from one list to the other and counts it. No operation changes
the source, and none goes back or past the end. Reads at or past the end give zero, so `atEnd` is needed to
tell the end from a zero byte. -/

namespace MonkeyTokens

structure Reader where
  /-- The bytes behind the place, last one first. -/
  passed : List UInt8
  ahead : List UInt8
  pos : Nat
  counted : pos = passed.length
  deriving DecidableEq

namespace Reader

def start (source : List UInt8) : Reader := ⟨[], source, 0, rfl⟩

def source (reader : Reader) : List UInt8 := reader.passed.reverse ++ reader.ahead

def current (reader : Reader) : UInt8 := reader.ahead.headD 0

def peek (reader : Reader) : UInt8 := reader.ahead.tail.headD 0

def atEnd (reader : Reader) : Bool := reader.ahead.isEmpty

/-- Behind the first of the bytes ahead. -/
def pass (reader : Reader) (byte : UInt8) (rest : List UInt8) : Reader :=
  ⟨byte :: reader.passed, rest, reader.pos + 1, congrArg Nat.succ reader.counted⟩

/-- One byte forward, or nowhere at the end. -/
def advance (reader : Reader) : Reader :=
  match reader.ahead with
  | [] => reader
  | byte :: rest => reader.pass byte rest

/-- A number of bytes forward, or to the end if fewer are left. -/
def advanceBy (reader : Reader) : Nat → Reader
  | 0 => reader
  | count + 1 =>
    match reader.ahead with
    | [] => reader
    | byte :: rest => (reader.pass byte rest).advanceBy count

/-- Forward as long as bytes are left and the one ahead is accepted. -/
def skipWhile (accepts : UInt8 → Bool) (reader : Reader) : Reader := go reader reader.ahead
where
  /-- The bytes ahead are handed on, for the recursion to be on them. -/
  go (reader : Reader) : List UInt8 → Reader
    | [] => reader
    | byte :: rest => if accepts byte then go (reader.pass byte rest) rest else reader

def skipBlanks : Reader → Reader := skipWhile Byte.isBlank

/-- The bytes from an offset up to the place; refused when the offset is ahead of the place. -/
def since? (reader : Reader) (offset : Nat) : Option (List UInt8) :=
  if offset ≤ reader.pos then some (reader.passed.take (reader.pos - offset)).reverse else none

/-- The bytes on both sides tell the place. -/
theorem ext {left right : Reader} (passed : left.passed = right.passed) (ahead : left.ahead = right.ahead) :
    left = right := by
  obtain ⟨behind, _, _, rfl⟩ := left
  obtain ⟨others, _, _, rfl⟩ := right
  obtain rfl : behind = others := passed
  obtain rfl := ahead
  rfl

@[simp] theorem source_start (source : List UInt8) : (start source).source = source := rfl

section Pass

variable (reader : Reader) (byte : UInt8) (rest : List UInt8)

@[simp] theorem passed_pass : (reader.pass byte rest).passed = byte :: reader.passed := rfl

@[simp] theorem ahead_pass : (reader.pass byte rest).ahead = rest := rfl

@[simp] theorem pos_pass : (reader.pass byte rest).pos = reader.pos + 1 := rfl

end Pass

theorem advance_eq (reader : Reader) : reader.advance = reader.advanceBy 1 := by
  unfold advance advanceBy
  cases reader.ahead <;> rfl

@[simp] theorem ahead_advanceBy (reader : Reader) (count : Nat) :
    (reader.advanceBy count).ahead = reader.ahead.drop count := by
  induction count generalizing reader with
  | zero => rfl
  | succ count ih =>
    unfold advanceBy
    split
    next done => simp [done]
    next more => simp [ih, more]

@[simp] theorem passed_advanceBy (reader : Reader) (count : Nat) :
    (reader.advanceBy count).passed = (reader.ahead.take count).reverse ++ reader.passed := by
  induction count generalizing reader with
  | zero => simp [advanceBy]
  | succ count ih =>
    unfold advanceBy
    split
    next done => simp [done]
    next more => simp [ih, more]

@[simp] theorem pos_advanceBy (reader : Reader) (count : Nat) :
    (reader.advanceBy count).pos = reader.pos + min count reader.ahead.length := by
  rw [counted, passed_advanceBy, List.length_append, List.length_reverse, List.length_take, ← counted, Nat.add_comm]

@[simp] theorem source_advanceBy (reader : Reader) (count : Nat) :
    (reader.advanceBy count).source = reader.source := by
  simp [source]

private theorem skipWhile_go (accepts : UInt8 → Bool) {reader : Reader} {ahead : List UInt8}
    (same : reader.ahead = ahead) :
    skipWhile.go accepts reader ahead = reader.advanceBy (ahead.takeWhile accepts).length := by
  induction ahead generalizing reader with
  | nil => rfl
  | cons byte rest ih =>
    rw [skipWhile.go]
    cases accepted : accepts byte with
    | false => simp [accepted, advanceBy]
    | true =>
      rw [if_pos rfl, ih (reader.ahead_pass byte rest), List.takeWhile_cons_of_pos accepted, List.length_cons,
        advanceBy, same]

theorem skipWhile_eq_advanceBy (accepts : UInt8 → Bool) (reader : Reader) :
    reader.skipWhile accepts = reader.advanceBy (reader.ahead.takeWhile accepts).length :=
  skipWhile_go accepts rfl

@[simp] theorem ahead_skipWhile (accepts : UInt8 → Bool) (reader : Reader) :
    (reader.skipWhile accepts).ahead = reader.ahead.dropWhile accepts := by
  have whole : reader.ahead.takeWhile accepts ++ reader.ahead.dropWhile accepts = reader.ahead :=
    List.takeWhile_append_dropWhile
  rw [skipWhile_eq_advanceBy, ahead_advanceBy]
  calc reader.ahead.drop (reader.ahead.takeWhile accepts).length
    _ = (reader.ahead.takeWhile accepts ++ reader.ahead.dropWhile accepts).drop
          (reader.ahead.takeWhile accepts).length := by rw [whole]
    _ = reader.ahead.dropWhile accepts := List.drop_left

@[simp] theorem passed_skipWhile (accepts : UInt8 → Bool) (reader : Reader) :
    (reader.skipWhile accepts).passed = (reader.ahead.takeWhile accepts).reverse ++ reader.passed := by
  rw [skipWhile_eq_advanceBy, passed_advanceBy, ← List.prefix_iff_eq_take.mp (List.takeWhile_prefix accepts)]

@[simp] theorem pos_skipWhile (accepts : UInt8 → Bool) (reader : Reader) :
    (reader.skipWhile accepts).pos = reader.pos + (reader.ahead.takeWhile accepts).length := by
  rw [skipWhile_eq_advanceBy, pos_advanceBy, Nat.min_eq_left (List.takeWhile_prefix accepts).length_le]

@[simp] theorem source_skipWhile (accepts : UInt8 → Bool) (reader : Reader) :
    (reader.skipWhile accepts).source = reader.source := by
  simp [source]

theorem advanceBy_advanceBy (reader : Reader) (first second : Nat) :
    (reader.advanceBy first).advanceBy second = reader.advanceBy (first + second) := by
  induction first generalizing reader with
  | zero => simp [advanceBy]
  | succ first ih =>
    rw [Nat.add_right_comm, advanceBy, advanceBy]
    split
    next done => cases second <;> simp [advanceBy, done]
    next => exact ih _

end Reader

end MonkeyTokens
