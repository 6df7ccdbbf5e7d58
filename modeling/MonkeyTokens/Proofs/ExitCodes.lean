import MonkeyTokens.Proofs.Concatenation
import MonkeyTokens.Proofs.Options

/-! Exit codes. The program ends with 0 or with 1, and with 1 exactly when it told why on the error output. What
fails shows nothing, but for an unknown command, which gets the help text. An invalid byte fails a listing and
not a session. -/

namespace MonkeyTokens

/-- No stream of a session refuses, so it does not panic. -/
theorem Session.script_calm (settings : Session.Settings) (input : Session.Input) :
    (Session.script settings input).result ≠ .error .refused := by
  rw [Session.script]
  cases input.breaks <;> simp

theorem Listing.script_calm (path : String) (contents : Except FileFault (List UInt8)) :
    (Listing.script path contents).result ≠ .error .refused := by
  cases contents with
  | error fault => simp [Listing.script]
  | ok contents =>
    cases found : Item.tokens (scan contents) with
    | ok tokens => simp [(Listing.script_of_tokens path found).2]
    | error bad => simp [(Listing.script_of_invalid path found).2]

/-- A run succeeds in silence, or fails and tells why. -/
structure Report.Fair (report : Report) : Prop where
  code : report.code = 0 ∨ report.code = 1
  told : report.code = 1 ↔ report.errors ≠ ""

namespace Report.Fair

variable {output : List UInt8}

private theorem success : Fair ⟨0, output, ""⟩ := ⟨.inl rfl, by simp⟩

private theorem failure {errors : String} (told : errors ≠ "") : Fair ⟨1, output, errors⟩ := ⟨.inr rfl, by simpa⟩

private theorem append_ne_empty {first : String} (filled : first ≠ "") (rest : String) : first ++ rest ≠ "" :=
  fun empty => filled (String.append_eq_empty_iff.mp empty).1

private theorem message_ne_empty (misuse : Misuse) : misuse.message ≠ "" := by
  cases misuse with
  | noPath => decide +kernel
  | unknownOption => exact append_ne_empty (append_ne_empty (by decide) _) _
  | unknownCommand => exact append_ne_empty (append_ne_empty (by decide) _) _

theorem ofOutcome {α : Type} {outcome : Outcome α} (calm : outcome.result ≠ .error .refused) :
    (Report.ofOutcome outcome).Fair := by
  rw [Report.ofOutcome]
  split
  next => exact success
  next panicked => exact absurd panicked calm
  next => exact failure (append_ne_empty (append_ne_empty (by decide) _) _)

theorem ofMisuse (misuse : Misuse) : (Report.ofMisuse misuse).Fair := by
  cases misuse <;> exact failure (message_ne_empty _)

theorem run (surroundings : Surroundings) (args : List String) : (surroundings.run args).Fair := by
  rw [Surroundings.run]
  split
  next command _ =>
    cases command with
    | session prompt =>
      apply ofOutcome
      simp only [Script.run_none]
      exact Session.script_calm _ _
    | listing path =>
      apply ofOutcome
      simp only [Script.run_none]
      exact Listing.script_calm path _
    | help | version => exact success
  next misuse _ => exact ofMisuse misuse

end Report.Fair

namespace Command

def names : List String := ["repl", "lex", "help", "--help", "-h", "version", "--version", "-V"]

theorem ofArgs_of_unknown {name : String} (unknown : name ∉ names) (rest : List String) :
    ofArgs (name :: rest) = .error (.unknownCommand name) := by
  have others : name ≠ "repl" ∧ name ≠ "lex" ∧ name ∉ ["help", "--help", "-h"] ∧
      name ∉ ["version", "--version", "-V"] := by
    simpa [names, and_assoc] using unknown
  obtain ⟨session, listing, help, version⟩ := others
  rw [ofArgs_name session listing, if_neg help, if_neg version]

theorem unknown_of_ofArgs {args : List String} {name : String}
    (refused : ofArgs args = .error (.unknownCommand name)) : name ∈ args.head? ∧ name ∉ names := by
  cases args with
  | nil => cases refused
  | cons first rest =>
    by_cases session : first = "repl"
    · subst session
      cases chosen : prompt Session.defaultPrompt rest with
      | ok text =>
        rw [ofArgs_of_prompt chosen] at refused
        cases refused
      | error misuse =>
        obtain ⟨option, rfl⟩ := prompt_refuses chosen
        rw [ofArgs_of_prompt_error chosen] at refused
        cases refused
    by_cases listing : first = "lex"
    · subst listing
      cases rest <;> cases refused
    rw [ofArgs_name session listing] at refused
    split_ifs at refused with help version
    cases refused
    refine ⟨rfl, ?_⟩
    simp only [List.mem_cons, List.not_mem_nil, or_false, not_or] at help version
    simp [names, session, listing, help, version]

end Command

/-- A file is shown to its end or not at all. -/
private theorem Listing.live_cases (path : String) (contents : Except FileFault (List UInt8)) :
    let outcome := live path contents none
    (∃ bytes count, contents = .ok bytes ∧ (∀ byte ∈ bytes, byte < 0x80) ∧ outcome.result = .ok count) ∨
      ∃ failure, (¬ ∃ bytes, contents = .ok bytes ∧ ∀ byte ∈ bytes, byte < 0x80) ∧
        outcome.result = .error failure ∧ outcome.output = [] := by
  intro outcome
  cases contents with
  | error fault =>
    have unread : (script path (.error fault)).written = [] := rfl
    obtain ⟨result, silent⟩ := live_silent unread none
    exact .inr ⟨.unreadable path fault, by simp, result, silent⟩
  | ok bytes =>
    obtain ascii | ⟨before, high, rest, rfl, ascii, strange⟩ := ascii_or_high bytes
    · obtain ⟨others, shown, _⟩ := tokens_scan_ascii ascii
      have found : Item.tokens (scan bytes) = .ok (others ++ [Token.eof]) := by rw [shown, Item.tokens_map]
      refine .inl ⟨bytes, (others ++ [Token.eof]).length, rfl, ascii, ?_⟩
      rw [← (script_of_tokens path found).2]
      simp only [outcome, live_eq_run, Script.run_none]
    · have strange := Byte.isAscii_eq_false_iff.mp strange
      obtain ⟨silent, failed⟩ := script_of_invalid path (tokens_scan_high ascii strange rest)
      obtain ⟨result, silent⟩ := live_silent silent none
      refine .inr ⟨_, ?_, result.trans failed, silent⟩
      rintro ⟨bytes, same, ascii⟩
      cases same
      have low : high < 0x80 := ascii high (by simp)
      exact absurd low (UInt8.not_lt.mpr strange)

namespace Surroundings

variable (surroundings : Surroundings) {args : List String}

private theorem listing_laws {path : String} (asked : Command.ofArgs args = .ok (.listing path)) :
    let finish := surroundings.live args
    (finish.code = 0 ↔ ∃ contents, surroundings.contents path = .ok contents ∧ ∀ byte ∈ contents, byte < 0x80) ∧
      finish.output =
        if finish.code = 0 then (Listing.live path (surroundings.contents path) none).output else [] := by
  intro finish
  have live : finish = _ := surroundings.live_of_listing asked
  obtain ⟨bytes, count, contents, ascii, result⟩ | ⟨failure, unlisted, result, silent⟩ :=
    Listing.live_cases path (surroundings.contents path)
  · simp only [live, Report.ofOutcome, result, if_true, and_true, true_iff]
    exact ⟨bytes, contents, ascii⟩
  · have calm : failure ≠ .refused := by
      rintro rfl
      rw [Listing.live_eq_run, Script.run_none] at result
      exact Listing.script_calm path _ result
    simp only [live, Report.ofOutcome_of_failure result calm, silent, ite_self, and_true]
    exact iff_of_false Nat.one_ne_zero unlisted

end Surroundings

/-- Codes and streams of a run with these arguments. -/
structure ExitLaws (surroundings : Surroundings) (args : List String) (finish : Finish) : Prop where
  reported : finish.toReport = surroundings.run args
  code : finish.code = 0 ∨ finish.code = 1
  told : finish.code = 1 ↔ finish.errors ≠ ""
  /-- A listing succeeds exactly for a file that can be read and is ASCII. -/
  listing : ∀ path rest, args = "lex" :: path :: rest →
    (finish.code = 0 ↔ ∃ contents, surroundings.contents path = .ok contents ∧ ∀ byte ∈ contents, byte < 0x80) ∧
      finish.output = if finish.code = 0 then (Listing.live path (surroundings.contents path) none).output else []
  /-- A session succeeds whatever it reads. -/
  session : ∀ options, args = [] ∧ options = [] ∨ args = "repl" :: options →
    (∀ option ∈ options, Command.SetsPrompt option) → finish.code = 0
  silent : finish.code = 1 → (∀ name ∈ args.head?, name ∈ Command.names) → finish.output = []
  unknown : ∀ name rest, args = name :: rest → name ∉ Command.names →
    finish.code = 1 ∧ finish.output = (surroundings.live ["help"]).output

/-- Whatever the arguments, the input, the files and the user, a run keeps to its code and its streams. -/
theorem exitLaws_live (surroundings : Surroundings) (args : List String) :
    ExitLaws surroundings args (surroundings.live args) := by
  have reported : (surroundings.live args).toReport = surroundings.run args := by rw [surroundings.live_eq]
  have fair : (surroundings.live args).toReport.Fair := by
    rw [reported]
    exact Report.Fair.run surroundings args
  refine ⟨reported, fair.code, fair.told, ?_, ?_, ?_, ?_⟩
  · rintro path rest rfl
    exact surroundings.listing_laws rfl
  · intro options given accepted
    obtain ⟨prompt, chosen, _⟩ := Command.prompt_of_accepted accepted Session.defaultPrompt
    have asked : Command.ofArgs args = .ok (.session prompt) := by
      obtain ⟨rfl, rfl⟩ | rfl := given <;> exact Command.ofArgs_of_prompt chosen
    obtain ⟨_, live⟩ := surroundings.live_of_session asked
    rw [live]
  · intro failed known
    cases asked : Command.ofArgs args with
    | ok command =>
      cases command with
      | session prompt =>
        obtain ⟨_, live⟩ := surroundings.live_of_session asked
        rw [live] at failed
        cases failed
      | listing path =>
        obtain ⟨_, output⟩ := surroundings.listing_laws asked
        rw [output, failed, if_neg Nat.one_ne_zero]
      | help | version =>
        rw [reported, Surroundings.run, asked] at failed
        cases failed
    | error misuse =>
      rw [surroundings.live_of_misuse asked]
      cases misuse with
      | noPath | unknownOption => rfl
      | unknownCommand name =>
        obtain ⟨first, unknown⟩ := Command.unknown_of_ofArgs asked
        exact absurd (known name first) unknown
  · rintro name rest rfl unknown
    rw [surroundings.live_of_misuse (Command.ofArgs_of_unknown unknown rest)]
    refine ⟨rfl, ?_⟩
    rw [surroundings.live_eq]
    rfl

end MonkeyTokens
