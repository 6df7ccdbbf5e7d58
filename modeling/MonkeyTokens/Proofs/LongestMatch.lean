import MonkeyTokens.Proofs.Spelling

/-! A scan is repeated longest match. The rules below know nothing of lexers, classes of bytes or
lookahead: they work on offsets of a source and on the languages of tokens. They leave no choice, and
the items that they allow are those of the scan. -/

namespace MonkeyTokens

/-- From `start` on, `stop` is the first offset that does not hold white space. -/
structure Skips (source : List UInt8) (start stop : Nat) : Prop where
  forward : start ≤ stop
  inside : stop ≤ source.length
  blank : ∀ i, start ≤ i → i < stop → ∃ byte ∈ whitespace, source[i]? = some byte
  stops : ∀ byte, source[stop]? = some byte → byte ∉ whitespace

/-- Of the texts that spell a token and stand at the start of the bytes, no one is longer. -/
structure Longest (bytes : List UInt8) (kind : Kind) (text : String) : Prop where
  spells : Spells kind text
  starts : Text.utf8 text <+: bytes
  longest : ∀ other longer, Spells other longer → Text.utf8 longer <+: bytes →
    (Text.utf8 longer).length ≤ (Text.utf8 text).length

inductive Munches (source : List UInt8) : Nat → List Item → Prop where
  | finish {start : Nat} (skips : Skips source start source.length) :
      Munches source start [.token ⟨.eof, ""⟩]
  | invalid {start stop : Nat} {byte : UInt8} (skips : Skips source start stop)
      (here : source[stop]? = some byte) (high : 0x80 ≤ byte) :
      Munches source start [.invalid ⟨byte, stop⟩]
  | token {start stop : Nat} {byte : UInt8} {kind : Kind} {text : String} {items : List Item}
      (skips : Skips source start stop) (here : source[stop]? = some byte) (low : byte < 0x80)
      (longest : Longest (source.drop stop) kind text)
      (rest : Munches source (stop + (Text.utf8 text).length) items) :
      Munches source start (.token ⟨kind, text⟩ :: items)
  | illegal {start stop : Nat} {byte : UInt8} {items : List Item}
      (skips : Skips source start stop) (here : source[stop]? = some byte) (low : byte < 0x80)
      (idle : ∀ kind text, Spells kind text → ¬ Text.utf8 text <+: source.drop stop)
      (rest : Munches source (stop + 1) items) :
      Munches source start (.token ⟨.illegal, Text.ofBytes [byte]⟩ :: items)

private theorem drop_eq_cons {source : List UInt8} {offset : Nat} {byte : UInt8}
    (here : source[offset]? = some byte) : source.drop offset = byte :: source.drop (offset + 1) := by
  obtain ⟨inside, rfl⟩ := List.getElem?_eq_some_iff.mp here
  exact List.drop_eq_getElem_cons inside

private theorem Skips.cut {source : List UInt8} {start stop : Nat} (skips : Skips source start stop) :
    ∃ gap, source.drop start = gap ++ source.drop stop ∧ Blank gap ∧ stop = start + gap.length := by
  have forward := skips.forward
  have inside := skips.inside
  refine ⟨(source.drop start).take (stop - start), ?_, ?_, ?_⟩
  · have rest : (source.drop start).drop (stop - start) = source.drop stop := by
      rw [List.drop_drop, Nat.add_sub_cancel' forward]
    rw [← rest, List.take_append_drop]
  · intro byte member
    obtain ⟨i, bound, rfl⟩ := List.mem_iff_getElem.mp member
    simp only [List.length_take, List.length_drop] at bound
    obtain ⟨byte, blank, here⟩ := skips.blank (start + i) (by omega) (by omega)
    obtain ⟨_, rfl⟩ := List.getElem?_eq_some_iff.mp here
    simpa using blank
  · simp only [List.length_take, List.length_drop]
    omega

private theorem skips_of_cut {source gap rest : List UInt8} {start : Nat} (inside : start ≤ source.length)
    (cut : source.drop start = gap ++ rest) (blank : Blank gap)
    (stops : ∀ byte ∈ rest.head?, byte ∉ whitespace) :
    Skips source start (start + gap.length) ∧ source.drop (start + gap.length) = rest := by
  have size := congrArg List.length cut
  simp only [List.length_drop, List.length_append] at size
  have behind : source.drop (start + gap.length) = rest := by
    rw [← List.drop_drop, cut, List.drop_left]
  refine ⟨⟨by omega, by omega, ?_, ?_⟩, behind⟩
  · intro i after before
    have bound : i - start < gap.length := by omega
    have here : source[i]? = gap[i - start]? := by
      have inGap : (source.drop start)[i - start]? = gap[i - start]? := by
        rw [cut, List.getElem?_append_left bound]
      rwa [List.getElem?_drop, Nat.add_sub_cancel' after] at inGap
    exact ⟨gap[i - start], blank _ (List.getElem_mem bound), by rw [here, List.getElem?_eq_getElem bound]⟩
  · intro byte here
    apply stops
    rw [← behind, drop_eq_cons here]
    rfl

private theorem longest_of_leads {lexeme : Lexeme} {rest : List UInt8} (leads : lexeme.Leads rest)
    (spells : Spells lexeme.kind lexeme.token.literal) :
    Longest (lexeme.bytes ++ rest) lexeme.kind lexeme.token.literal := by
  refine ⟨spells, ?_, ?_⟩
  · rw [leads.utf8_literal]
    exact List.prefix_append _ _
  · intro other longer spelling starts
    rw [leads.utf8_literal]
    exact leads.longest spelling.leads starts

private theorem leads_of_longest {bytes : List UInt8} {kind : Kind} {text : String} {lexeme : Lexeme}
    (longest : Longest bytes kind text) (found : Lexeme.next? bytes = some lexeme) :
    lexeme = ⟨kind, Text.utf8 text⟩ := by
  obtain ⟨rest, rfl, leads⟩ := Lexeme.leads_of_next? found
  have shorter := leads.longest longest.spells.leads longest.starts
  have longer : lexeme.bytes.length ≤ (Text.utf8 text).length := by
    rcases leads.spells with ⟨byte, rfl⟩ | spells
    · exact List.length_pos_iff.mpr longest.spells.nonempty
    · have bound := longest.longest _ _ spells (longest_of_leads leads spells).starts
      rwa [leads.utf8_literal] at bound
  have same : Text.utf8 text = lexeme.bytes :=
    (List.prefix_of_prefix_length_le longest.starts (List.prefix_append _ rest) shorter).eq_of_length_le longer
  obtain ⟨other, bytes⟩ := lexeme
  obtain rfl : Text.utf8 text = bytes := same
  rw [longest.spells.leads.kind_unique (Lexeme.leads_iff.mp leads).1]

private theorem leads_of_idle {bytes : List UInt8} {lexeme : Lexeme}
    (idle : ∀ kind text, Spells kind text → ¬ Text.utf8 text <+: bytes)
    (found : Lexeme.next? bytes = some lexeme) : ∃ byte, lexeme = ⟨.illegal, [byte]⟩ := by
  obtain ⟨rest, rfl, leads⟩ := Lexeme.leads_of_next? found
  rcases leads.spells with single | spells
  · exact single
  · exact absurd (longest_of_leads leads spells).starts (idle _ _ spells)

private theorem token_scan {source : List UInt8} {start stop : Nat} {lexeme : Lexeme} {items : List Item}
    (skips : Skips source start stop) (found : Lexeme.next? (source.drop stop) = some lexeme)
    (rest : items = (scan (source.drop (stop + lexeme.bytes.length))).map (.shift (stop + lexeme.bytes.length))) :
    .token lexeme.token :: items = (scan (source.drop start)).map (.shift start) := by
  obtain ⟨gap, cut, blank, rfl⟩ := skips.cut
  obtain ⟨behind, whole, leads⟩ := Lexeme.leads_of_next? found
  have after : source.drop (start + gap.length + lexeme.bytes.length) = behind := by
    rw [← List.drop_drop, whole, List.drop_left]
  have distance : gap.length + lexeme.bytes.length + start = start + gap.length + lexeme.bytes.length := by
    omega
  rw [rest, after, cut, whole, scan_of_lexeme blank leads]
  simp [Item.shift_shift, Function.comp_def, distance]

private theorem idle_of_leads {byte : UInt8} {rest : List UInt8} (leads : Lexeme.Leads ⟨.illegal, [byte]⟩ rest)
    (kind : Kind) (text : String) (spells : Spells kind text) : ¬ Text.utf8 text <+: [byte] ++ rest := by
  intro starts
  have shorter := leads.longest spells.leads starts
  have single : Text.utf8 text = [byte] :=
    (List.prefix_of_prefix_length_le starts (List.prefix_append _ rest) shorter).eq_of_length_le
      (List.length_pos_iff.mpr spells.nonempty)
  have alone := spells.leads
  rw [single] at alone
  obtain rfl := alone.kind_unique (Lexeme.leads_iff.mp leads).1
  exact not_spells_illegal text spells

private theorem Skips.next? {source : List UInt8} {start stop : Nat} {byte : UInt8}
    (skips : Skips source start stop) (here : source[stop]? = some byte) (low : byte < 0x80) :
    ∃ lexeme, Lexeme.next? (source.drop stop) = some lexeme := by
  have ascii : Byte.isAscii byte = true := by simpa [Byte.isAscii] using low
  have dark : Byte.isBlank byte = false := by simpa [Byte.mem_whitespace] using skips.stops byte here
  rw [drop_eq_cons here]
  exact ⟨_, Lexeme.next?_of_usable _ ascii dark⟩

private theorem Munches.sound {source : List UInt8} {start : Nat} {items : List Item}
    (munches : Munches source start items) : items = (scan (source.drop start)).map (.shift start) := by
  induction munches with
  | finish skips =>
    obtain ⟨gap, cut, blank, _⟩ := skips.cut
    rw [List.drop_length, List.append_nil] at cut
    rw [cut, scan_of_blank blank]
    rfl
  | invalid skips here high =>
    obtain ⟨gap, cut, blank, rfl⟩ := skips.cut
    rw [drop_eq_cons here] at cut
    rw [cut, scan_of_invalid blank (by simpa [Byte.isAscii] using high)]
    simp [Item.shift, Nat.add_comm]
  | token skips here low longest _ ih =>
    obtain ⟨lexeme, found⟩ := skips.next? here low
    obtain rfl := leads_of_longest longest found
    have shown := token_scan skips found ih
    rwa [Lexeme.token, longest.spells.ofBytes_utf8] at shown
  | illegal skips here low idle _ ih =>
    obtain ⟨lexeme, found⟩ := skips.next? here low
    obtain ⟨single, rfl⟩ := leads_of_idle idle found
    obtain ⟨rest, whole, _⟩ := Lexeme.leads_of_next? found
    rw [drop_eq_cons here] at whole
    cases whole
    exact token_scan skips found ih

private theorem munches_scan {source : List UInt8} {start : Nat} (inside : start ≤ source.length) :
    Munches source start ((scan (source.drop start)).map (.shift start)) := by
  generalize same : source.drop start = behind
  induction behind using source_induction generalizing start with
  | blank gap blank =>
    rw [scan_of_blank blank]
    obtain ⟨skips, ended⟩ := skips_of_cut inside (by rw [same, List.append_nil]) blank (by simp)
    have last : start + gap.length = source.length := Nat.le_antisymm skips.inside (List.drop_eq_nil_iff.mp ended)
    rw [last] at skips
    exact .finish skips
  | invalid gap byte rest blank high =>
    rw [scan_of_invalid blank high]
    obtain ⟨skips, behind⟩ := skips_of_cut inside same blank
      (by simpa [Byte.mem_whitespace] using Byte.isBlank_of_high high)
    have here : source[start + gap.length]? = some byte := by rw [← List.head?_drop, behind, List.head?_cons]
    rw [List.map_singleton, Item.shift, Nat.add_comm]
    exact .invalid skips here (by simpa [Byte.isAscii] using high)
  | lexeme gap lexeme rest blank leads ih =>
    obtain ⟨first, tail, whole, ascii, dark, _⟩ := Lexeme.next?_cases leads
    obtain ⟨skips, behind⟩ := skips_of_cut inside same blank (by simpa [whole, Byte.mem_whitespace] using dark)
    have here : source[start + gap.length]? = some first := by
      rw [← List.head?_drop, behind, whole, List.head?_cons]
    have low : first < 0x80 := by simpa [Byte.isAscii] using ascii
    have after : source.drop (start + gap.length + lexeme.bytes.length) = rest := by
      rw [← List.drop_drop, behind, List.drop_left]
    have bound : start + gap.length + lexeme.bytes.length ≤ source.length := by
      have size := congrArg List.length behind
      simp only [List.length_drop, List.length_append] at size
      have := skips.inside
      omega
    have found : Lexeme.next? (source.drop (start + gap.length)) = some lexeme := by
      rw [behind]
      exact leads
    rw [← same, ← token_scan skips found rfl, after]
    have munches := ih bound after
    rcases leads.spells with ⟨byte, rfl⟩ | spells
    · cases whole
      exact .illegal skips here low (by rw [behind]; exact idle_of_leads leads) munches
    · refine .token skips here low (by rw [behind]; exact longest_of_leads leads spells) ?_
      rwa [Text.utf8_ofBytes leads.ascii]

/-- Repeated longest match yields the items of the scan and no others. -/
theorem munches_iff_scan (source : List UInt8) (items : List Item) :
    Munches source 0 items ↔ items = scan source := by
  constructor
  · intro munches
    simpa using munches.sound
  · rintro rfl
    simpa using munches_scan (Nat.zero_le source.length)

end MonkeyTokens
