import LineGrammar.Command.Program
import LineGrammar.Proofs.Command.Settings
import LineGrammar.Proofs.Validation.Judgements

/-! How a run of the program ends. Everything that can be wrong is found before a command starts; no
command that has started fails. So the exit code tells whether the input could be judged, and if it
was, whether one of the two commands that judge it refused it. -/

namespace LineGrammar

namespace Arguments

theorem Line.finish_ne_ok {line : Line} {arguments : Arguments} :
    line.finish ≠ .ok arguments := by
  intro finished
  obtain ⟨settled, -, error⟩ := bind_eq_ok.mp finished
  simp at error

theorem Line.exists_finishWith {line : Line} {argv : List String} {arguments : Arguments}
    (accepted : line.run argv = .ok arguments) :
    ∃ (last : Line) (command : Command), last.finishWith command = .ok arguments := by
  induction argv generalizing line with
  | nil => exact absurd accepted finish_ne_ok
  | cons argument rest ih =>
    rw [run.eq_def] at accepted
    dsimp only at accepted
    split at accepted
    · simp at accepted
    · split at accepted
      · obtain ⟨command, -, finished⟩ := bind_eq_ok.mp accepted
        exact ⟨line, command, finished⟩
      · split at accepted
        · split at accepted
          · exact absurd accepted finish_ne_ok
          · simp at accepted
        · obtain ⟨next, -, later⟩ := bind_eq_ok.mp accepted
          exact ih later
        · obtain ⟨next, -, later⟩ := bind_eq_ok.mp accepted
          exact ih later
        · split at accepted
          · exact ih accepted
          · simp at accepted

theorem grammar_or_file_of_read {argv : List String} {arguments : Arguments}
    (accepted : read argv = .ok arguments) :
    (∃ expression, arguments.grammar = some expression) ∨
      arguments.grammar = none ∧ ∃ path, arguments.grammarFile = some path := by
  obtain ⟨last, command, finished⟩ := Line.exists_finishWith accepted
  obtain ⟨settled, -, made⟩ := bind_eq_ok.mp finished
  split at made
  · simp at made
  · simp at made
  · next absent =>
    obtain rfl := Except.ok.inj made
    cases given : settled.grammar with
    | some expression => exact .inl ⟨expression, rfl⟩
    | none =>
      obtain ⟨path, file⟩ := Option.ne_none_iff_exists'.mp fun none => absent given none
      exact .inr ⟨rfl, path, file⟩

def Names (arguments : Arguments) (readFile : String → Except String String)
    (expression : String) : Prop :=
  arguments.grammar = some expression ∨ arguments.grammar = none ∧
    ∃ path, arguments.grammarFile = some path ∧ readFile path = .ok expression

theorem Names.eq {arguments : Arguments} {readFile : String → Except String String}
    {expression other : String} (names : arguments.Names readFile expression)
    (names' : arguments.Names readFile other) : expression = other := by
  obtain given | ⟨none, path, file, opened⟩ := names
  · obtain given' | ⟨none', -⟩ := names'
    · exact Option.some.inj (given.symm.trans given')
    · simp [given] at none'
  · obtain given' | ⟨-, path', file', opened'⟩ := names'
    · simp [none] at given'
    · obtain rfl := Option.some.inj (file.symm.trans file')
      exact Except.ok.inj (opened.symm.trans opened')

theorem expressionOf_eq_ok {arguments : Arguments} {readFile : String → Except String String}
    {expression : String} :
    Session.expressionOf arguments readFile = .ok expression ↔
      arguments.Names readFile expression := by
  unfold Session.expressionOf Names
  cases given : arguments.grammar with
  | some grammar => simp
  | none =>
    cases file : arguments.grammarFile with
    | none => simp
    | some path => cases opened : readFile path <;> simp [opened]

end Arguments

/-- The commands that judge their input refuse it where it is no sentence. -/
def Command.Refused (grammar : Grammar) : Command → Prop
  | .whole input | .validate input => grammar.matchWhole? input = none
  | .beginning _ | .complete _ _ | .highlight _ => False

namespace Session

variable {expression : String} {words styles : List String} {defaultStyle : String} {json : Bool}
  {session : Session}

theorem outcomeOf_eq_rejected_iff {accepted : Bool} :
    outcomeOf accepted = .rejected ↔ accepted = false := by
  cases accepted <;> simp [outcomeOf]

theorem exists_complete (escapes : session.grammar.escapes = [])
    (unescapes : session.grammar.unescapes = [])
    (verbatim : ∀ entry ∈ session.completers, entry.2.Verbatim) (document : Document) :
    ∃ output, session.complete document = .ok (.accepted, output) := by
  obtain ⟨completions, yields, -⟩ :=
    (Completer.Verbatim.fields escapes unescapes verbatim).exists_yields document .request
  exact ⟨_, by rw [Session.complete, completer, yields.outcome]⟩

theorem exists_validate (session : Session) (input : String) :
    ∃ outcome output, session.validate input = .ok (outcome, output) ∧
      (outcome = .rejected ↔ session.grammar.matchWhole? input = none) := by
  have judged := Validator.outcome_validate (.atEnd input) session.validator
  have text := Document.text_atEnd input
  cases matched : session.grammar.matchWhole? input with
  | none =>
    rw [validator, Validator.finish_fields_of_none (by rwa [text])] at judged
    exact ⟨.rejected, _, by rw [Session.validate, validator, judged], by simp⟩
  | some found =>
    rw [validator, Validator.finish_fields (by rwa [text])] at judged
    have accepts (occurrence : Occurrence) : Validator.rejects [] occurrence = false := by
      rw [Validator.rejects_eq]
      rfl
    rw [List.find?_eq_none.mpr fun occurrence _ => by simp [accepts occurrence]] at judged
    exact ⟨.accepted, _, by rw [Session.validate, validator, judged]; rfl, by simp⟩

theorem exists_run (made : ofExpression expression words styles defaultStyle json = .ok session)
    (command : Command) :
    ∃ outcome output, session.run command = .ok (outcome, output) ∧
      (outcome = .rejected ↔ command.Refused session.grammar) := by
  obtain ⟨compiled, -, verbatim⟩ := parts_of_ofExpression made
  cases command with
  | whole input =>
    refine ⟨_, _, rfl, outcomeOf_eq_rejected_iff.trans ?_⟩
    simp [Command.Refused]
  | beginning input => exact ⟨_, _, rfl, by simp [Command.Refused]⟩
  | complete input cursor =>
    obtain ⟨root, -, compiled⟩ := bind_eq_ok.mp compiled
    obtain ⟨escapes, unescapes⟩ := Grammar.registries_of_ofTree compiled
    obtain ⟨output, eq⟩ := exists_complete escapes unescapes verbatim
      (.ofText input (cursor.getD input.utf8ByteSize))
    exact ⟨_, output, eq, by simp [Command.Refused]⟩
  | highlight input => exact ⟨_, _, rfl, by simp [Command.Refused]⟩
  | validate input => exact exists_validate session input

/-- Once there is a session no command fails. -/
theorem run_ne_error (made : ofExpression expression words styles defaultStyle json = .ok session)
    (command : Command) (error : CommandError) : session.run command ≠ .error error := by
  obtain ⟨outcome, output, ran, -⟩ := exists_run made command
  simp [ran]

end Session

namespace Program

/-- What keeps a run from judging its input: a level or a style that is none, a file that cannot be
read, an expression that makes no grammar, and arguments of `--words` and `--style` that assign
nothing. -/
inductive Hindered (arguments : Arguments) (environment : String → Option String)
    (readFile : String → Except String String) : Prop
  | logLevel {text : String} (set : environment Settings.logLevelVariable = some text)
      (unknown : LogLevel.ofText? text = none)
  | environmentStyle {style : String} (set : environment Settings.defaultStyleVariable = some style)
      (control : ¬IsStyle style)
  | flagStyle {style : String} (set : arguments.defaultStyle = some style)
      (control : ¬IsStyle style)
  | unreadable {path message : String} (file : arguments.grammar = none)
      (named : arguments.grammarFile = some path) (closed : readFile path = .error message)
  | grammar {expression : String} {error : GrammarError}
      (named : arguments.Names readFile expression)
      (refused : Grammar.ofExpression expression [] [] = .error error)
  | words {argument : String} (mem : argument ∈ arguments.words)
      (unassigned : ¬∃ value, Assigns argument value)
  | style {argument : String} (mem : argument ∈ arguments.styles)
      (unassigned : ¬∃ value, Assigns argument value ∧ IsStyle (String.ofList value))

variable {arguments : Arguments} {environment : String → Option String}
  {readFile : String → Except String String}

theorem exists_readLevel_iff {text : String} :
    (∃ level, LogLevel.read text = .ok level) ↔ LogLevel.ofText? text ≠ none := by
  unfold LogLevel.read
  cases LogLevel.ofText? text <;> simp

theorem exists_ofEnvironment_iff : (∃ settings, Settings.ofEnvironment environment = .ok settings) ↔
    (∀ text, environment Settings.logLevelVariable = some text → LogLevel.ofText? text ≠ none) ∧
      ∀ style, environment Settings.defaultStyleVariable = some style → IsStyle style := by
  simp only [← exists_readLevel_iff, ← exists_readStyle_iff]
  unfold Settings.ofEnvironment
  cases environment Settings.logLevelVariable <;>
    cases environment Settings.defaultStyleVariable <;> simp [bind_eq_ok, pure, Except.pure]

theorem exists_settingsOf_iff : (∃ settings, settingsOf arguments environment = .ok settings) ↔
    (∃ settings, Settings.ofEnvironment environment = .ok settings) ∧
      ∀ style, arguments.defaultStyle = some style → IsStyle style := by
  simp only [← exists_readStyle_iff]
  unfold settingsOf
  cases arguments.defaultStyle <;> simp [bind_eq_ok, map_eq_ok, pure, Except.pure]

theorem Hindered.not_answer (hindered : Hindered arguments environment readFile)
    {result : Outcome × String} : answer arguments environment readFile ≠ .ok result := by
  intro answered
  obtain ⟨settings, set, answered⟩ := bind_eq_ok.mp answered
  obtain ⟨session, made, -⟩ := bind_eq_ok.mp answered
  obtain ⟨expression, named, made⟩ := bind_eq_ok.mp made
  obtain ⟨environment', flag⟩ := exists_settingsOf_iff.mp ⟨settings, Session.setting_eq_ok.mp set⟩
  obtain ⟨levels, styles⟩ := exists_ofEnvironment_iff.mp environment'
  obtain ⟨⟨grammar, compiled⟩, assigned, styled⟩ := Session.exists_ofExpression_iff.mp ⟨_, made⟩
  rw [Arguments.expressionOf_eq_ok] at named
  cases hindered with
  | logLevel set unknown => exact levels _ set unknown
  | environmentStyle set control => exact control (styles _ set)
  | flagStyle set control => exact control (flag _ set)
  | unreadable file named' closed => simp [Arguments.Names, file, named', closed] at named
  | grammar named' refused =>
    rw [named'.eq named, compiled] at refused
    simp at refused
  | words mem unassigned => exact unassigned (assigned _ mem)
  | style mem unassigned => exact unassigned (styled _ mem)

/-- A run that fails has failed before its command, and so before anything is written. -/
theorem answer_eq_error_iff {error : CommandError} :
    answer arguments environment readFile = .error error ↔
      Session.setting (settingsOf arguments environment) = .error error ∨
        ∃ settings, settingsOf arguments environment = .ok settings ∧
          Session.ofArguments arguments settings readFile = .error error := by
  unfold answer
  cases set : settingsOf arguments environment with
  | error fault => simp [Session.setting, bind, Except.bind]
  | ok settings =>
    cases made : Session.ofArguments arguments settings readFile with
    | error fault => simp [Session.setting, made, bind, Except.bind]
    | ok session =>
      obtain ⟨expression, -, made'⟩ := bind_eq_ok.mp made
      have ran := Session.run_ne_error made' arguments.command error
      simpa [Session.setting, made, bind, Except.bind] using ran

theorem exists_answer {argv : List String} (accepted : Arguments.read argv = .ok arguments)
    (free : ¬Hindered arguments environment readFile) :
    ∃ expression grammar outcome output, arguments.Names readFile expression ∧
      Grammar.ofExpression expression [] [] = .ok grammar ∧
      answer arguments environment readFile = .ok (outcome, output) ∧
      (outcome = .rejected ↔ arguments.command.Refused grammar) := by
  have named : ∃ expression, arguments.Names readFile expression := by
    obtain ⟨expression, given⟩ | ⟨none, path, file⟩ := Arguments.grammar_or_file_of_read accepted
    · exact ⟨expression, .inl given⟩
    · cases opened : readFile path with
      | ok expression => exact ⟨expression, .inr ⟨none, path, file, opened⟩⟩
      | error message => exact absurd (.unreadable none file opened) free
  obtain ⟨expression, named⟩ := named
  have compiled : ∃ grammar, Grammar.ofExpression expression [] [] = .ok grammar := by
    cases compiled : Grammar.ofExpression expression [] [] with
    | ok grammar => exact ⟨grammar, rfl⟩
    | error error => exact absurd (.grammar named compiled) free
  obtain ⟨settings, set⟩ := exists_settingsOf_iff.mpr
    ⟨exists_ofEnvironment_iff.mpr ⟨fun text set unknown => free (.logLevel set unknown),
      fun style set => not_not.mp fun control => free (.environmentStyle set control)⟩,
      fun style set => not_not.mp fun control => free (.flagStyle set control)⟩
  obtain ⟨session, made⟩ :
      ∃ session, Session.ofExpression expression arguments.words arguments.styles
        settings.defaultStyle arguments.json = .ok session :=
    Session.exists_ofExpression_iff.mpr ⟨compiled,
      fun argument mem => not_not.mp fun unassigned => free (.words mem unassigned),
      fun argument mem => not_not.mp fun unassigned => free (.style mem unassigned)⟩
  obtain ⟨outcome, output, ran, judged⟩ := Session.exists_run made arguments.command
  refine ⟨expression, session.grammar, outcome, output, named,
    (Session.parts_of_ofExpression made).1, ?_, judged⟩
  exact bind_eq_ok.mpr ⟨settings, Session.setting_eq_ok.mpr set, bind_eq_ok.mpr ⟨session,
    bind_eq_ok.mpr ⟨expression, Arguments.expressionOf_eq_ok.mpr named, made⟩, ran⟩⟩

/-- A run ends with 2, and then without output, exactly where something hinders it. Otherwise it
ends with 1 where a command that judges its input refuses it, and with 0 anywhere else. -/
theorem exitCode_run {argv : List String} (accepted : Arguments.read argv = .ok arguments)
    (environment : String → Option String) (readFile : String → Except String String) :
    ((run argv environment readFile).exitCode = 2 ↔ Hindered arguments environment readFile) ∧
      ((run argv environment readFile).exitCode = 2 →
        (run argv environment readFile).output = "") ∧
      (¬Hindered arguments environment readFile → ∃ expression grammar,
        arguments.Names readFile expression ∧
        Grammar.ofExpression expression [] [] = .ok grammar ∧
        ((run argv environment readFile).exitCode = 1 ↔ arguments.command.Refused grammar) ∧
        ((run argv environment readFile).exitCode = 0 ↔ ¬arguments.command.Refused grammar)) := by
  by_cases hindered : Hindered arguments environment readFile
  · have failed : run argv environment readFile = failed := by
      cases answered : answer arguments environment readFile with
      | ok result => exact absurd answered hindered.not_answer
      | error error => simp only [run, accepted, answered]
    rw [failed]
    exact ⟨by simp [Program.failed, hindered], fun _ => rfl, fun free => absurd hindered free⟩
  · obtain ⟨expression, grammar, outcome, output, named, compiled, answered, judged⟩ :=
      exists_answer accepted hindered
    have ended : run argv environment readFile = ⟨outcome.exitCode, output⟩ := by
      simp only [run, accepted, answered]
    rw [ended]
    cases outcome with
    | accepted =>
      have sentence : ¬arguments.command.Refused grammar := fun refused => by
        simpa using judged.mpr refused
      exact ⟨by simp [Outcome.exitCode, hindered], by simp [Outcome.exitCode],
        fun _ => ⟨expression, grammar, named, compiled, by simp [Outcome.exitCode, sentence]⟩⟩
    | rejected =>
      have refused := judged.mp rfl
      exact ⟨by simp [Outcome.exitCode, hindered], by simp [Outcome.exitCode],
        fun _ => ⟨expression, grammar, named, compiled, by simp [Outcome.exitCode, refused]⟩⟩

theorem exitCode_run_letter : ∃ arguments grammar,
    Arguments.read ["--grammar", "a", "--json", "validate", "b"] = .ok arguments ∧
      ¬Hindered arguments (fun _ => none) .error ∧
      Grammar.ofExpression "a" [] [] = .ok grammar ∧ grammar.matchWhole? "b" = none := by
  have code : (run ["--grammar", "a", "--json", "validate", "b"] (fun _ => none) .error).exitCode =
      1 := by
    simp only [run, answer, Session.ofArguments, Session.ofExpression, Session.compile,
      Grammar.ofExpression, Tree.ofExpression_eq]
    cbv
  have accepted : Arguments.read ["--grammar", "a", "--json", "validate", "b"] =
      .ok ⟨none, true, some "a", none, [], [], none, .validate "b"⟩ := by cbv
  obtain ⟨hindered, -, judged⟩ := exitCode_run accepted (fun _ => none) .error
  have free := mt hindered.mpr (by rw [code]; decide)
  obtain ⟨expression, grammar, named, compiled, refused, -⟩ := judged free
  obtain rfl : "a" = expression := by simpa [Arguments.Names] using named
  exact ⟨_, grammar, accepted, free, compiled, refused.mp code⟩

end Program

end LineGrammar
