import LineGrammar.Command.Session
import LineGrammar.Proofs.Completion.Extension
import LineGrammar.Proofs.Text.Quoting

/-! What can be wrong with the settings: levels and styles that are not known as such, and arguments
that assign nothing. Where none of them is wrong they are all read. -/

namespace LineGrammar

variable {α : Type}

def IsStyle (style : String) : Prop := ∀ c ∈ style.toList, isControl c = false

theorem exists_readStyle_iff {style : String} :
    (∃ read, readStyle style = .ok read) ↔ IsStyle style := by
  unfold readStyle
  split
  · next control =>
    simpa [IsStyle] using List.any_eq_true.mp control
  · next plain => simpa [IsStyle] using plain

/-- The argument has an equals sign, and a name before the first one. -/
def Assigns (argument : String) (value : List Char) : Prop :=
  ∃ name, argument.toList = name ++ '=' :: value ∧ '=' ∉ name ∧ Text.trim (String.ofList name) ≠ ""

theorem exists_split_of_takeWhile {cs : List Char}
    (shorter : (cs.takeWhile (· ≠ '=')).length < cs.length) :
    cs = cs.takeWhile (· ≠ '=') ++ '=' :: cs.drop ((cs.takeWhile (· ≠ '=')).length + 1) := by
  induction cs with
  | nil => simp at shorter
  | cons c cs ih =>
    by_cases sign : c = '='
    · simp [sign]
    · have taken : (c :: cs).takeWhile (· ≠ '=') = c :: cs.takeWhile (· ≠ '=') :=
        List.takeWhile_cons_of_pos (by simpa using sign)
      rw [taken, List.length_cons, List.length_cons] at shorter
      rw [taken, List.cons_append, List.length_cons, List.drop_succ_cons]
      exact congrArg (c :: ·) (ih (by omega))

theorem readAssignment_eq_ok_iff {argument flag name value : String} :
    readAssignment argument flag = .ok (name, value) ↔
      ∃ text, argument.toList = text ++ '=' :: value.toList ∧ '=' ∉ text ∧
        name = Text.trim (String.ofList text) ∧ name ≠ "" := by
  rw [readAssignment]
  constructor
  · intro read
    split at read
    · next assigned =>
      obtain ⟨rfl, rfl⟩ := Prod.mk.inj (Except.ok.inj read)
      have before : '=' ∉ argument.toList.takeWhile (· ≠ '=') := fun mem => by
        simpa using List.mem_takeWhile_imp mem
      exact ⟨_, by simpa using exists_split_of_takeWhile assigned.1, before, rfl, assigned.2⟩
    · simp at read
  · rintro ⟨text, split, free, rfl, named⟩
    have front : argument.toList.takeWhile (· ≠ '=') = text := by
      rw [split, List.takeWhile_append_of_pos]
      · simp
      · intro c mem
        have other : c ≠ '=' := fun same => free (same ▸ mem)
        simpa using other
    simp only [front]
    rw [if_pos ⟨by simp [split], named⟩, split]
    simp

theorem exists_readAssignment_iff (argument flag : String) :
    (∃ entry, readAssignment argument flag = .ok entry) ↔ ∃ value, Assigns argument value := by
  constructor
  · rintro ⟨⟨name, value⟩, read⟩
    obtain ⟨text, split, free, rfl, named⟩ := readAssignment_eq_ok_iff.mp read
    exact ⟨value.toList, text, split, free, named⟩
  · rintro ⟨value, text, split, free, named⟩
    exact ⟨_, readAssignment_eq_ok_iff.mpr
      ⟨text, by rwa [String.toList_ofList], free, rfl, named⟩⟩

theorem Assigns.eq_of_readAssignment {argument flag name value : String} {text : List Char}
    (assigns : Assigns argument text) (read : readAssignment argument flag = .ok (name, value)) :
    value.toList = text := by
  obtain ⟨front, split, free, -⟩ := assigns
  obtain ⟨front', split', free', -⟩ := readAssignment_eq_ok_iff.mp read
  exact (Text.append_cons_inj free' free (split'.symm.trans split)).2

theorem Registry.mem_insert {registry : Registry α} {name : String} {value : α}
    {entry : String × α} (mem : entry ∈ registry.insert name value) :
    entry = (name, value) ∨ entry ∈ registry := by
  induction registry with
  | nil => exact .inl (List.mem_singleton.mp mem)
  | cons first rest ih =>
    rw [Registry.insert] at mem
    split at mem
    · exact (List.mem_cons.mp mem).imp id (List.mem_cons_of_mem _)
    · rcases List.mem_cons.mp mem with rfl | mem
      · exact .inr List.mem_cons_self
      · exact (ih mem).imp id (List.mem_cons_of_mem _)

namespace Session

variable {read : String → Except SettingFault (String × α)} {arguments : List String}
  {registry result : Registry α}

theorem exists_assignAll_iff (registry : Registry α) :
    (∃ result, assignAll read arguments registry = .ok result) ↔
    ∀ argument ∈ arguments, ∃ entry, read argument = .ok entry := by
  induction arguments generalizing registry with
  | nil => simp [assignAll]
  | cons argument rest ih =>
    rw [List.forall_mem_cons]
    constructor
    · rintro ⟨result, assigned⟩
      obtain ⟨entry, first, later⟩ := bind_eq_ok.mp assigned
      exact ⟨⟨entry, first⟩, (ih _).mp ⟨result, later⟩⟩
    · rintro ⟨⟨entry, first⟩, others⟩
      obtain ⟨result, later⟩ := (ih (registry.insert entry.1 entry.2)).mpr others
      exact ⟨result, bind_eq_ok.mpr ⟨entry, first, later⟩⟩

theorem forall_of_assignAll {holds : α → Prop}
    (each : ∀ argument entry, read argument = .ok entry → holds entry.2)
    (before : ∀ entry ∈ registry, holds entry.2)
    (assigned : assignAll read arguments registry = .ok result) :
    ∀ entry ∈ result, holds entry.2 := by
  induction arguments generalizing registry with
  | nil =>
    obtain rfl := Except.ok.inj assigned
    exact before
  | cons argument rest ih =>
    obtain ⟨entry, first, later⟩ := bind_eq_ok.mp assigned
    refine ih (fun other mem => ?_) later
    rcases Registry.mem_insert mem with rfl | mem
    · exact each argument entry first
    · exact before other mem

theorem exists_readCompleter_iff {argument : String} :
    (∃ entry, readCompleter argument = .ok entry) ↔ ∃ value, Assigns argument value := by
  rw [← exists_readAssignment_iff argument "--words"]
  simp [readCompleter, bind_eq_ok, pure, Except.pure]

theorem exists_readHighlighter_iff {argument : String} :
    (∃ entry, readHighlighter argument = .ok entry) ↔
      ∃ value, Assigns argument value ∧ IsStyle (String.ofList value) := by
  constructor
  · rintro ⟨entry, read⟩
    obtain ⟨⟨name, value⟩, assigned, read⟩ := bind_eq_ok.mp read
    obtain ⟨style, styled, -⟩ := bind_eq_ok.mp read
    obtain ⟨text, assigns⟩ := (exists_readAssignment_iff _ _).mp ⟨_, assigned⟩
    obtain rfl := assigns.eq_of_readAssignment assigned
    exact ⟨_, assigns, by simpa using exists_readStyle_iff.mp ⟨style, styled⟩⟩
  · rintro ⟨value, assigns, isStyle⟩
    obtain ⟨⟨name, text⟩, assigned⟩ :=
      (exists_readAssignment_iff argument "--style").mpr ⟨value, assigns⟩
    obtain rfl := assigns.eq_of_readAssignment assigned
    rw [String.ofList_toList] at isStyle
    obtain ⟨style, styled⟩ := exists_readStyle_iff.mpr isStyle
    exact ⟨_, bind_eq_ok.mpr ⟨_, assigned, bind_eq_ok.mpr ⟨style, styled, rfl⟩⟩⟩

theorem verbatim_of_readCompleter {argument : String} {entry : String × Completer}
    (read : readCompleter argument = .ok entry) : entry.2.Verbatim := by
  obtain ⟨assigned, -, made⟩ := bind_eq_ok.mp read
  obtain rfl := Except.ok.inj made
  exact .words rfl

variable {expression : String} {grammar : Grammar}

theorem setting_eq_ok {outcome : Except SettingFault α} {a : α} :
    setting outcome = .ok a ↔ outcome = .ok a := by
  cases outcome <;> simp [setting]

theorem compile_eq_ok : compile expression = .ok grammar ↔
    Grammar.ofExpression expression [] [] = .ok grammar := by
  unfold compile
  cases Grammar.ofExpression expression [] [] <;> simp

variable {words styles : List String} {defaultStyle : String} {json : Bool} {session : Session}

theorem exists_ofExpression_iff :
    (∃ session, ofExpression expression words styles defaultStyle json = .ok session) ↔
      (∃ grammar, Grammar.ofExpression expression [] [] = .ok grammar) ∧
        (∀ argument ∈ words, ∃ value, Assigns argument value) ∧
        ∀ argument ∈ styles, ∃ value, Assigns argument value ∧ IsStyle (String.ofList value) := by
  simp only [← exists_readCompleter_iff, ← exists_readHighlighter_iff, ← compile_eq_ok]
  rw [← exists_assignAll_iff [], ← exists_assignAll_iff []]
  simp only [← setting_eq_ok]
  constructor
  · rintro ⟨session, made⟩
    obtain ⟨grammar, compiled, made⟩ := bind_eq_ok.mp made
    obtain ⟨completers, assigned, made⟩ := bind_eq_ok.mp made
    obtain ⟨highlighters, assigned', -⟩ := bind_eq_ok.mp made
    exact ⟨⟨grammar, compiled⟩, ⟨completers, assigned⟩, highlighters, assigned'⟩
  · rintro ⟨⟨grammar, compiled⟩, ⟨completers, assigned⟩, highlighters, assigned'⟩
    exact ⟨_, bind_eq_ok.mpr ⟨grammar, compiled, bind_eq_ok.mpr ⟨completers, assigned,
      bind_eq_ok.mpr ⟨highlighters, assigned', rfl⟩⟩⟩⟩

/-- How much is logged has no part in what a session does. -/
theorem ofArguments_withLogLevel (arguments : Arguments) (settings : Settings) (level : LogLevel)
    (readFile : String → Except String String) :
    ofArguments arguments (settings.withLogLevel level) readFile =
      ofArguments arguments settings readFile := rfl

theorem parts_of_ofExpression
    (made : ofExpression expression words styles defaultStyle json = .ok session) :
    Grammar.ofExpression expression [] [] = .ok session.grammar ∧ session.json = json ∧
      ∀ entry ∈ session.completers, entry.2.Verbatim := by
  obtain ⟨grammar, compiled, made⟩ := bind_eq_ok.mp made
  obtain ⟨completers, assigned, made⟩ := bind_eq_ok.mp made
  obtain ⟨highlighters, -, made⟩ := bind_eq_ok.mp made
  obtain rfl := Except.ok.inj made
  exact ⟨compile_eq_ok.mp compiled, rfl, forall_of_assignAll
    (fun _ _ read => verbatim_of_readCompleter read) (by simp) (setting_eq_ok.mp assigned)⟩

end Session

end LineGrammar
