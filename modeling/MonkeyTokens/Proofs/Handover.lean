import MonkeyTokens.Proofs.Streams
import Mathlib.Logic.Function.Iterate

/-! Lexers that change hands. What has been read leaves no trace but the offset, so a lexer goes on as one
that is put at the start of the remaining bytes, and a copy of it goes on in the same way, whatever is asked
of the two and of others in between. -/

namespace MonkeyTokens

namespace Lexer

/-- The same bytes are ahead of both, and the offset of one counts `distance` more. -/
structure Parallel (distance : Nat) (near far : Lexer) : Prop where
  ahead : far.reader.ahead = near.reader.ahead
  place : far.pos = near.pos + distance
  ended : far.ended = near.ended

namespace Parallel

variable {distance : Nat} {near far : Lexer}

/-- One call on each: both refuse, or both read the same up to the distance. -/
theorem next?_cases (parallel : Parallel distance near far) :
    (near.next? = none ∧ far.next? = none) ∨
      ∃ reading other, near.next? = some reading ∧ far.next? = some other ∧
        other.item = reading.item.shift distance ∧ Parallel distance reading.after other.after := by
  obtain ⟨reader, ended⟩ := far
  obtain ⟨ahead, place, rfl⟩ := parallel
  simp only at ahead
  cases read : near.next? with
  | none =>
    refine .inl ⟨rfl, ?_⟩
    rw [next?_eq_none_iff] at read ⊢
    exact read
  | some reading =>
    obtain ⟨fresh, yields⟩ := yields_of_next? read
    simp only [Lexer.pos] at place
    rw [fresh]
    cases yields with
    | finish blank =>
      refine .inr ⟨_, _, rfl, next?_of_blank reader blank ahead, rfl, ?_, ?_, rfl⟩
      · simp [ahead]
      · simp [Lexer.pos, ahead, place]
        omega
    | invalid blank high here =>
      refine .inr ⟨_, _, rfl, next?_of_invalid reader blank high (ahead.trans here), ?_, ?_, ?_, rfl⟩
      · simp [Item.shift, place, Nat.add_assoc]
      · simp [ahead]
      · simp [Lexer.pos, ahead, place]
        omega
    | lexeme blank leads here =>
      refine .inr ⟨_, _, rfl, next?_of_lexeme reader blank leads (ahead.trans here), rfl, ?_, ?_, rfl⟩
      · simp [ahead]
      · simp [Lexer.pos, ahead, place]
        omega

theorem item? (parallel : Parallel distance near far) : far.item? = near.item?.map (.shift distance) := by
  rcases parallel.next?_cases with ⟨idle, refused⟩ | ⟨reading, other, read, met, item, _⟩
  · simp [Lexer.item?, idle, refused]
  · simp [Lexer.item?, read, met, item]

theorem proceed (parallel : Parallel distance near far) : Parallel distance near.proceed far.proceed := by
  rcases parallel.next?_cases with ⟨idle, refused⟩ | ⟨reading, other, read, met, _, behind⟩
  · simpa [Lexer.proceed, idle, refused] using parallel
  · rwa [proceed_of_next? read, proceed_of_next? met]

theorem after (parallel : Parallel distance near far) (count : Nat) :
    Parallel distance (near.after count) (far.after count) := by
  induction count with
  | zero => exact parallel
  | succ count ih => exact ih.proceed

end Parallel

variable {source : List UInt8} {lexer : Lexer}

theorem Reads.parallel (reads : Reads source lexer) (fresh : lexer.ended = false) :
    Parallel lexer.pos (Lexer.start (source.drop lexer.pos)) lexer where
  ahead := reads.within.drop_pos.symm
  place := (Nat.zero_add _).symm
  ended := fresh

theorem Reads.marks (reads : Reads source lexer) (fresh : lexer.ended = false) :
    lexer.marks = (MonkeyTokens.marks (source.drop lexer.pos)).map (.shift lexer.pos) := by
  obtain ⟨reader, ended⟩ := lexer
  subst fresh
  rw [Lexer.pos, reads.within.drop_pos]
  exact marks_eq_shift reader

theorem items_eq_marks (lexer : Lexer) : lexer.items = lexer.marks.map Mark.item := by
  rw [marks, List.map_map]
  rfl

theorem events_eq_marks (lexer : Lexer) : lexer.events = lexer.marks.map Mark.event := by
  rw [marks, List.map_map]
  rfl

theorem next?_after (fresh : lexer.ended = false) {n : Nat} (inside : n < lexer.readings.length) :
    (lexer.after n).next? = lexer.readings[n]? := by
  induction lexer, fresh using readings_induction generalizing n with
  | last lexer reading fresh read final =>
    rw [readings_of_final read final] at inside ⊢
    obtain rfl := Nat.lt_one_iff.mp inside
    exact read
  | more lexer reading fresh behind read more ih =>
    rw [readings_of_more read more] at inside ⊢
    cases n with
    | zero => exact read
    | succ n =>
      rw [after_succ, proceed_of_next? read, List.getElem?_cons_succ]
      exact ih (Nat.lt_of_succ_lt_succ inside)

end Lexer

/-- A lexer, or a stream made from one. -/
inductive Handle where
  | lexer (lexer : Lexer)
  | stream (stream : TokenStream)
  deriving DecidableEq

namespace Handle

/-- What one is given who asks for the next item: nothing where that is refused, and no item where a stream
is finished. -/
def answer : Handle → Option (Option Item)
  | lexer held => held.item?.map some
  | stream held =>
    match held.pull with
    | .item reading _ => some (some reading.item)
    | .finished => some none
    | .refused => none

def proceed : Handle → Handle
  | lexer held => lexer held.proceed
  | stream held => stream held.proceed

/-- A lexer is made into a stream. -/
def wrap : Handle → Handle
  | lexer held => stream (.ofLexer held)
  | stream held => stream held

theorem iterate_lexer (held : Lexer) (count : Nat) : proceed^[count] (lexer held) = lexer (held.after count) := by
  induction count with
  | zero => rfl
  | succ count ih => rw [Function.iterate_succ_apply', ih, Lexer.after, proceed]

theorem iterate_stream (held : TokenStream) (count : Nat) :
    proceed^[count] (stream held) = stream (held.after count) := by
  induction count with
  | zero => rfl
  | succ count ih => rw [Function.iterate_succ_apply', ih, TokenStream.after, proceed]

/-- A stream gives the items of its lexer, then no more. -/
theorem answer_stream {held : Lexer} (fresh : held.ended = false) (count : Nat) :
    (stream ((TokenStream.ofLexer held).after count)).answer = some held.items[count]? := by
  have delivers := TokenStream.delivers fresh
  rw [Lexer.items, List.getElem?_map]
  by_cases inside : count < held.readings.length
  · obtain ⟨reading, rest, read, pulled, _⟩ := delivers.items count inside
    rw [Lexer.next?_after fresh inside] at read
    simp [answer, pulled, read]
  · have finished := delivers.finished count (Nat.le_of_not_lt inside)
    simp [answer, finished, List.getElem?_eq_none (Nat.le_of_not_lt inside)]

end Handle

/-- What can be done to handles in numbered slots. -/
inductive Request where
  | ask (slot : Nat)
  /-- The copy gets the next free slot. -/
  | copy (slot : Nat)
  | wrap (slot : Nat)
  deriving DecidableEq

abbrev Table := List Handle

namespace Table

def obey (table : Table) : Request → Table
  | .ask slot => table.modify slot Handle.proceed
  | .copy slot => table ++ table[slot]?.toList
  | .wrap slot => table.modify slot Handle.wrap

/-- The answers from one slot, while requests are made of any. -/
def heard (slot : Nat) : Table → List Request → List (Option (Option Item))
  | _, [] => []
  | table, request :: rest =>
    (if request = .ask slot then table[slot]?.toList.map Handle.answer else []) ++
      heard slot (table.obey request) rest

variable {table : Table} {slot : Nat} {handle : Handle}

theorem obey_copy (held : table[slot]? = some handle) :
    ∀ holder ∈ [slot, table.length], (table.obey (.copy slot))[holder]? = some handle := by
  have inside : slot < table.length := (List.getElem?_eq_some_iff.mp held).1
  simp [obey, held, List.getElem?_append_left inside]

theorem obey_wrap (held : table[slot]? = some handle) : (table.obey (.wrap slot))[slot]? = some handle.wrap := by
  simp [obey, held]

/-- A request of one slot moves no other. -/
theorem obey_held (held : table[slot]? = some handle) {request : Request} (whole : request ≠ .wrap slot) :
    (table.obey request)[slot]? = some (if request = .ask slot then handle.proceed else handle) := by
  cases request with
  | ask asked =>
    by_cases same : asked = slot
    · simp [obey, held, same]
    · simp [obey, held, same]
  | copy copied =>
    have inside : slot < table.length := (List.getElem?_eq_some_iff.mp held).1
    simp [obey, held, List.getElem?_append_left inside]
  | wrap wrapped =>
    have other : wrapped ≠ slot := fun same => whole (congrArg Request.wrap same)
    simp [obey, held, other]

/-- A handle answers as it would if it were the only one. -/
theorem heard_eq (held : table[slot]? = some handle) {requests : List Request} (whole : .wrap slot ∉ requests) :
    heard slot table requests =
      (List.range (requests.count (.ask slot))).map fun n => (Handle.proceed^[n] handle).answer := by
  -- Induction on the requests, for whatever handle those before have left in the slot.
  induction requests generalizing table handle with
  | nil => rfl
  | cons request requests ih =>
    rw [List.mem_cons, not_or] at whole
    have next := ih (obey_held held (Ne.symm whole.1)) whole.2
    rw [heard, next]
    by_cases asked : request = .ask slot
    · simp [asked, held, List.range_succ_eq_map]
    · simp [asked]

end Table

/-- At any place of its run, a lexer goes on as a fresh one on the bytes from there on, with offsets moved by
the place. So does a copy, and so does a stream made from either, in whatever order they are asked. -/
theorem lexer_hands_over (source : List UInt8) (steps : Nat) :
    let lexer := (Lexer.start source).after steps
    let rest := source.drop lexer.pos
    lexer.ended = false →
      lexer.items = (scan rest).map (.shift lexer.pos) ∧
      lexer.events = (Lexer.start rest).events.map (.shift lexer.pos) ∧
      ∀ (table : Table) (slot : Nat), table[slot]? = some (.lexer lexer) →
        ∀ holder ∈ [slot, table.length], ∀ requests : List Request, .wrap holder ∉ requests →
          let copied := table.obey (.copy slot)
          let asked := List.range (requests.count (.ask holder))
          copied.heard holder requests =
              asked.map (fun n => (((Lexer.start rest).after n).item?.map (.shift lexer.pos)).map some) ∧
            (copied.obey (.wrap holder)).heard holder requests =
              asked.map fun n => some ((scan rest)[n]?.map (.shift lexer.pos)) := by
  intro lexer rest fresh
  have reads : Lexer.Reads source lexer := (Lexer.Reads.start source).after steps
  have items : lexer.items = (scan rest).map (.shift lexer.pos) := by
    rw [lexer.items_eq_marks, reads.marks fresh, scan_eq_marks, List.map_map, List.map_map]
    rfl
  refine ⟨items, ?_, ?_⟩
  · rw [lexer.events_eq_marks, reads.marks fresh, Lexer.events_eq_marks, List.map_map, List.map_map]
    rfl
  · intro table slot held holder among requests whole copied asked
    have both : copied[holder]? = some (.lexer lexer) := Table.obey_copy held holder among
    constructor
    · rw [Table.heard_eq both whole]
      apply List.map_congr_left
      intro n _
      rw [Handle.iterate_lexer, Handle.answer, ((reads.parallel fresh).after n).item?]
    · rw [Table.heard_eq (Table.obey_wrap both) whole]
      apply List.map_congr_left
      intro n _
      rw [Handle.wrap, Handle.iterate_stream, Handle.answer_stream fresh, items, List.getElem?_map]

/-- A lexer that has read a name is copied. The copy meets the invalid byte twice, for the original is asked in
between and made into a stream; a stream made from the copy is finished behind the byte. -/
theorem lexer_hands_over_name :
    let source := [0x78, 0x20, 0x3D, 0x20, 0xC3, 0x31]
    let lexer := (Lexer.start source).after 1
    let table : Table := [.lexer lexer]
    let copied := table.obey (.copy 0)
    let requests : List Request := [.ask 1, .ask 0, .ask 1, .wrap 0, .ask 0, .ask 1]
    lexer.ended = false ∧ lexer.pos = 1 ∧ .wrap 1 ∉ requests ∧
      lexer.items = [.token ⟨.assign, "="⟩, .invalid ⟨0xC3, 4⟩] ∧
      lexer.events = [.token .assign 2, .invalidByte 0xC3 4] ∧
      copied.heard 1 requests =
        [some (some (.token ⟨.assign, "="⟩)), some (some (.invalid ⟨0xC3, 4⟩)), some (some (.invalid ⟨0xC3, 4⟩))] ∧
      (copied.obey (.wrap 1)).heard 1 requests =
        [some (some (.token ⟨.assign, "="⟩)), some (some (.invalid ⟨0xC3, 4⟩)), some none] := by
  intro source lexer table copied requests
  have fresh : lexer.ended = false := by decide +kernel
  have place : lexer.pos = 1 := by decide +kernel
  have whole : Request.wrap 1 ∉ requests := by decide
  obtain ⟨items, events, copies⟩ := lexer_hands_over source 1 fresh
  obtain ⟨lexers, streams⟩ := copies table 0 rfl 1 (by simp [table]) requests whole
  refine ⟨fresh, place, whole, ?_, ?_, ?_, ?_⟩
  · rw [items]
    decide +kernel
  · rw [events]
    decide +kernel
  · rw [lexers]
    decide +kernel
  · rw [streams]
    decide +kernel

end MonkeyTokens
