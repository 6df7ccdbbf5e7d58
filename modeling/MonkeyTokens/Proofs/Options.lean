import MonkeyTokens.Proofs.LiveProgram

/-! Options of a session. They are looked at from the first to the last: each one that sets the prompt takes
the place of those before it, and the first that does not ends the program, before anything is read or shown. -/

namespace MonkeyTokens

namespace Command

/-- An option that sets the prompt, be it to an empty text. -/
def SetsPrompt (option : String) : Prop := ∃ text, option = "--prompt=" ++ text

theorem promptOption?_eq_some_iff {option text : String} :
    promptOption? option = some text ↔ option = "--prompt=" ++ text := by
  rw [promptOption?, Option.map_eq_some_iff]
  constructor
  · rintro ⟨rest, found, rfl⟩
    have letters : (String.ofList rest).toList = rest := String.toList_ofList
    apply String.toList_inj.mp
    rw [String.toList_append, letters]
    exact (List.isPrefixOf?_eq_some_iff_append_eq.mp found).symm
  · rintro rfl
    refine ⟨text.toList, ?_, String.ofList_toList⟩
    rw [List.isPrefixOf?_eq_some_iff_append_eq, String.toList_append]

theorem promptOption?_eq_none_iff {option : String} : promptOption? option = none ↔ ¬ SetsPrompt option := by
  rw [Option.eq_none_iff_forall_not_mem, SetsPrompt, not_exists]
  simp only [Option.mem_def, promptOption?_eq_some_iff]

instance : DecidablePred SetsPrompt := fun option =>
  decidable_of_iff (promptOption? option ≠ none) (promptOption?_eq_none_iff.not.trans not_not)

/-- The last option counts. -/
theorem prompt_of_accepted {options : List String} (accepted : ∀ option ∈ options, SetsPrompt option)
    (chosen : String) : ∃ text, prompt chosen options = .ok text ∧
      (options = [] ∧ text = chosen ∨ options.getLast? = some ("--prompt=" ++ text)) := by
  induction options generalizing chosen with
  | nil => exact ⟨chosen, rfl, .inl ⟨rfl, rfl⟩⟩
  | cons option rest ih =>
    rw [List.forall_mem_cons] at accepted
    obtain ⟨⟨text, rfl⟩, accepted⟩ := accepted
    have set : promptOption? ("--prompt=" ++ text) = some text := promptOption?_eq_some_iff.mpr rfl
    obtain ⟨last, found, which⟩ := ih accepted text
    refine ⟨last, by rw [prompt, set]; exact found, .inr ?_⟩
    -- This option is the last one, or it gives way to one behind it.
    obtain ⟨rfl, rfl⟩ | behind := which
    · rfl
    · rw [List.getLast?_cons, behind, Option.getD_some]

/-- The first option that does not set the prompt is refused, whatever stands before and behind it. -/
theorem prompt_of_refused {options : List String} (refused : ¬ ∀ option ∈ options, SetsPrompt option)
    (chosen : String) : ∃ before option behind, options = before ++ option :: behind ∧
      (∀ earlier ∈ before, SetsPrompt earlier) ∧ ¬ SetsPrompt option ∧
      prompt chosen options = .error (.unknownOption option) := by
  induction options generalizing chosen with
  | nil => exact absurd (List.forall_mem_nil _) refused
  | cons option rest ih =>
    by_cases sets : SetsPrompt option
    · have refused : ¬ ∀ later ∈ rest, SetsPrompt later := fun accepted =>
        refused (List.forall_mem_cons.mpr ⟨sets, accepted⟩)
      obtain ⟨text, set⟩ := sets
      obtain ⟨before, first, behind, rfl, earlier, other, found⟩ := ih refused text
      refine ⟨option :: before, first, behind, rfl, List.forall_mem_cons.mpr ⟨⟨text, set⟩, earlier⟩, other, ?_⟩
      rw [prompt, promptOption?_eq_some_iff.mpr set]
      exact found
    · refine ⟨[], option, rest, rfl, List.forall_mem_nil _, sets, ?_⟩
      rw [prompt, promptOption?_eq_none_iff.mpr sets]

end Command

private theorem greeting_eq (user : Option String) : Session.greeting user =
    if user.getD "" = "" then "Hello! This is the Monkey programming language!"
    else "Hello " ++ user.getD "" ++ "! This is the Monkey programming language!" := by
  unfold Session.greeting
  split
  next => rfl
  next => rfl
  next name named =>
    rw [Option.getD_some, if_neg named]

/-- Options that all set the prompt start a session with the last of them, and no option starts it as it is
started without arguments. Of any other options the first that does not set the prompt is told, whatever there
is to read. -/
theorem options_choose_prompt (surroundings : Surroundings) (options : List String) :
    let name := (surroundings.user.or surroundings.username).getD ""
    let greeting :=
      if name = "" then "Hello! This is the Monkey programming language!"
      else "Hello " ++ name ++ "! This is the Monkey programming language!"
    let finish := surroundings.live ("repl" :: options)
    finish.toReport = surroundings.run ("repl" :: options) ∧
      ((∀ option ∈ options, Command.SetsPrompt option) → ∃ prompt,
        (options = [] ∧ prompt = ">> " ∧ finish = surroundings.live [] ∨
            options.getLast? = some ("--prompt=" ++ prompt)) ∧
          let outcome := Session.live ⟨prompt, some greeting⟩ ⟨surroundings.input, false⟩ none
          outcome.result = .ok () ∧ finish = ⟨⟨0, outcome.output, ""⟩, []⟩) ∧
      ((¬ ∀ option ∈ options, Command.SetsPrompt option) → ∃ before option behind,
        options = before ++ option :: behind ∧ (∀ earlier ∈ before, Command.SetsPrompt earlier) ∧
          ¬ Command.SetsPrompt option ∧
          ∀ input, { surroundings with input : Surroundings }.live ("repl" :: options) =
            ⟨⟨1, [], "error: unknown repl option '" ++ option ++ "'\nUsage: monkey repl [--prompt=<text>]\n"⟩,
              input⟩) := by
  intro name greeting finish
  refine ⟨?_, ?_, ?_⟩
  · exact congrArg Finish.toReport (surroundings.live_eq _)
  · intro accepted
    obtain ⟨prompt, found, which⟩ := Command.prompt_of_accepted accepted Session.defaultPrompt
    have settings : Command.settings prompt surroundings.guest = ⟨prompt, some greeting⟩ := by
      rw [Command.settings, greeting_eq, Surroundings.guest, Option.orElse_eq_orElse, Option.orElse_eq_or]
    refine ⟨prompt, ?_, ?_⟩
    · obtain ⟨rfl, rfl⟩ | last := which
      · have same : Command.ofArgs ["repl"] = Command.ofArgs [] := rfl
        refine .inl ⟨rfl, rfl, ?_⟩
        simp only [finish, Surroundings.live_eq, Surroundings.run, same]
      · exact .inr last
    · rw [← settings]
      exact surroundings.live_of_session (Command.ofArgs_of_prompt found)
  · intro refused
    obtain ⟨before, option, behind, split, earlier, other, found⟩ :=
      Command.prompt_of_refused refused Session.defaultPrompt
    refine ⟨before, option, behind, split, earlier, other, ?_⟩
    intro input
    exact Surroundings.live_of_misuse _ (Command.ofArgs_of_prompt_error found)

/-- An empty prompt takes the place of another, for a user with an empty name; and an option is refused between
two that set the prompt. -/
theorem options_choose_prompt_empty :
    let surroundings : Surroundings := ⟨Text.utf8 "1\n", fun _ => .error .notFound, some "", some "Ada"⟩
    surroundings.live ["repl", "--prompt=a", "--prompt="] =
        ⟨⟨0, Text.utf8 ("Hello! This is the Monkey programming language!\n" ++
          "\x7bkind: INT, literal: \x221\x22\x7d\n\x7bkind: EOF, literal: \x22\x22\x7d\n"), ""⟩, []⟩ ∧
      surroundings.live ["repl", "--prompt=a", "-x", "--prompt=b"] =
        ⟨⟨1, [], "error: unknown repl option '-x'\nUsage: monkey repl [--prompt=<text>]\n"⟩, Text.utf8 "1\n"⟩ := by
  intro surroundings
  constructor
  · obtain ⟨_, chosen, _⟩ := options_choose_prompt surroundings ["--prompt=a", "--prompt="]
    obtain ⟨prompt, ⟨empty, _⟩ | last, _, finish⟩ := chosen (by decide +kernel)
    · cases empty
    · have empty : prompt = "" := by
        have set : Command.promptOption? "--prompt=" = some prompt :=
          Command.promptOption?_eq_some_iff.mpr (Option.some.inj last)
        have set_empty : Command.promptOption? "--prompt=" = some "" := by decide +kernel
        exact Option.some.inj (set.symm.trans set_empty)
      rw [finish, empty, Session.live_eq_run]
      decide +kernel
  · obtain ⟨_, _, refused⟩ := options_choose_prompt surroundings ["--prompt=a", "-x", "--prompt=b"]
    obtain ⟨before, option, behind, split, earlier, other, finish⟩ := refused (by decide +kernel)
    have first : option = "-x" := by
      obtain _ | ⟨_, _ | ⟨_, before⟩⟩ := before
      · obtain ⟨rfl, _⟩ := List.cons.inj split
        exact absurd (by decide +kernel) other
      · obtain ⟨_, split⟩ := List.cons.inj split
        exact (List.cons.inj split).1.symm
      · obtain ⟨_, split⟩ := List.cons.inj split
        obtain ⟨rfl, _⟩ := List.cons.inj split
        exact absurd (earlier "-x" (by simp)) (by decide +kernel)
    rw [finish, first]
    decide +kernel

end MonkeyTokens
