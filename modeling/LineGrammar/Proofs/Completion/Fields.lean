import LineGrammar.Proofs.Completion.Extension

/-! Completions of fields. Every variable that ends at the cursor and has a completer is completed
as a document of its own, in the order of the variables. What comes back puts the whole field in
place, escaped; of completions that put the same text in the same place the first one stays. The
first completer that fails decides the error, and those behind it are not asked. -/

namespace LineGrammar

namespace Completion

/-- The text with the completion in place of the bytes before its end. There is none if these begin
outside of the text or inside of a character. -/
def applied? (completion : Completion) (typed : String) : Option String :=
  if completion.replaced ≤ typed.utf8ByteSize then
    (Text.before? typed (typed.utf8ByteSize - completion.replaced)).map (· ++ completion.text)
  else none

theorem applied?_append {completion : Completion} {front replaced : String}
    (size : completion.replaced = replaced.utf8ByteSize) :
    completion.applied? (front ++ replaced) = some (front ++ completion.text) := by
  have cut := Text.cut?_append front.toList replaced.toList
  have total : (front ++ replaced).utf8ByteSize = front.utf8ByteSize + replaced.utf8ByteSize :=
    String.utf8ByteSize_append
  rw [applied?, if_pos (by omega), total, size, Nat.add_sub_cancel, Text.before?,
    String.toList_append, ← Text.byteLength_toList front, cut]
  simp

def sameKey (first second : Completion) : Bool := first.key == second.key

theorem uniqueBeyond_eq (seen : List (String × Nat)) (completions : List Completion) :
    uniqueBeyond seen completions =
      (completions.filter (·.key ∉ seen)).eraseDupsBy sameKey := by
  induction completions generalizing seen with
  | nil => rfl
  | cons completion rest ih =>
    rw [uniqueBeyond]
    by_cases known : completion.key ∈ seen
    · rw [if_pos known, ih, List.filter_cons_of_neg (by simpa using known)]
    · rw [if_neg known, ih, List.filter_cons_of_pos (by simpa using known),
        List.eraseDupsBy_cons, List.filter_filter]
      congr 3
      funext other
      simp [sameKey]

theorem unique_eq (completions : List Completion) :
    unique completions = completions.eraseDupsBy sameKey := by
  simp [unique, uniqueBeyond_eq]

/-- The completion `outer` of the text `typed` puts a field in place: the value of the field with
`inner` in it, or the text of `inner` alone where that cannot be put into the value. -/
structure Rewrites (grammar : Grammar) (typed : String) (node : Occurrence)
    (inner outer : Completion) : Prop where
  field : ∃ front raw, typed = front ++ raw ∧ node.span.start = front.utf8ByteSize ∧
    node.value = grammar.unescape node.name raw ∧ outer.replaced = raw.utf8ByteSize ∧
    outer.applied? typed = some (front ++
      grammar.escape node.name ((inner.applied? node.value).getD inner.text))
  shown : outer.shown = inner.shown
  note : outer.note = inner.note

end Completion

namespace CompletionField

variable {grammar : Grammar} {input : String} {node : Occurrence}

theorem kept_append (inner : Completion) :
    (ofOccurrence input node).kept inner ++ inner.text =
      (inner.applied? node.value).getD inner.text := by
  rw [kept, Completion.applied?, ofOccurrence, Document.text_atEnd]
  split
  · cases Text.before? node.value (node.value.utf8ByteSize - inner.replaced) <;> simp
  · simp

theorem text_rewrap (inner : Completion) :
    (rewrap grammar (ofOccurrence input node) inner).text =
      grammar.escape node.name ((inner.applied? node.value).getD inner.text) := by
  rw [rewrap, kept_append]
  rfl

theorem rewrites_rewrap (mem : node ∈ (grammar.matchBeginning input).endNodes)
    (inner : Completion) :
    Completion.Rewrites grammar input node inner
      (rewrap grammar (ofOccurrence input node) inner) := by
  obtain ⟨position, start, value⟩ := Grammar.exists_drop_unescaped mem
  have split : input = String.ofList (input.toList.take position) ++
      String.ofList (input.toList.drop position) := by
    rw [← String.ofList_append, List.take_append_drop, String.ofList_toList]
  have front : node.span.start = (String.ofList (input.toList.take position)).utf8ByteSize := by
    rw [start, ← Text.byteLength_toList, String.toList_ofList]
  have total := congrArg String.utf8ByteSize split
  rw [String.utf8ByteSize_append] at total
  have replaced : (rewrap grammar (ofOccurrence input node) inner).replaced =
      (String.ofList (input.toList.drop position)).utf8ByteSize := by
    show input.utf8ByteSize - node.span.start = _
    omega
  refine ⟨⟨_, _, split, front, value, replaced, ?_⟩, rfl, rfl⟩
  have applied : (rewrap grammar (ofOccurrence input node) inner).applied? (_ ++ _) =
      some (String.ofList (input.toList.take position) ++ _) := Completion.applied?_append replaced
  rwa [← split, text_rewrap] at applied

end CompletionField

namespace Completer

def withCompleter? (completers : List (String × Completer)) (node : Occurrence) :
    Option (Occurrence × Completer) :=
  (Registry.find? completers node.name).map (node, ·)

/-- The variables that end at the cursor and have a completer, with that completer. -/
def registered (grammar : Grammar) (completers : List (String × Completer)) (document : Document) :
    List (Occurrence × Completer) :=
  (grammar.matchBeginning document.before).endNodes.filterMap (withCompleter? completers)

def answer (event : CompletionEvent) (entry : Occurrence × Completer) :
    Except CompletionError (List Completion) × List Document :=
  (entry.2.complete (.atEnd entry.1.value) event).outcome

def askedFor (completers : List (String × Completer)) (event : CompletionEvent)
    (node : Occurrence) : List Document :=
  ((withCompleter? completers node).map fun entry => (answer event entry).2).getD []

def rewritten (grammar : Grammar) (document : Document) (entry : Occurrence × Completer) :
    Completion → Completion :=
  (CompletionField.ofOccurrence document.before entry.1).rewrap grammar

def completeField (grammar : Grammar) (completers : List (String × Completer))
    (document : Document) (event : CompletionEvent) (node : Occurrence) :
    Consulting CompletionError (List Completion) := do
  let inner ← completeNamed node.name (.atEnd node.value) event completers
  return inner.map ((CompletionField.ofOccurrence document.before node).rewrap grammar)

variable {grammar : Grammar} {completers : List (String × Completer)} {document : Document}
  {event : CompletionEvent} {node : Occurrence}

theorem complete_fields :
    (fields grammar completers).complete document event = (do
      let found ← (grammar.matchBeginning document.before).endNodes.mapM
        (completeField grammar completers document event)
      return Completion.unique found.flatten) := by
  rw [complete, CompletionField.under, List.mapM_map]
  rfl

theorem yields_complete (document : Document) (event : CompletionEvent) (completer : Completer) :
    (completer.complete document event).Yields (completer.complete document event).outcome.1
      (completer.complete document event).outcome.2 := by
  obtain ⟨result, asked, yields, -⟩ := streams_feed document event completer
  rwa [yields.outcome]

theorem yields_completeField (grammar : Grammar) (completers : List (String × Completer))
    (document : Document) (event : CompletionEvent) (node : Occurrence) :
    (completeField grammar completers document event node).Yields
      (match withCompleter? completers node with
        | none => .ok []
        | some entry => (answer event entry).1.map (·.map (rewritten grammar document entry)))
      (askedFor completers event node) := by
  unfold askedFor withCompleter?
  cases found : Registry.find? completers node.name with
  | none =>
    have nothing : (completeNamed node.name (.atEnd node.value) event completers).Yields
        (.ok []) [] := by
      rw [completeNamed_eq, found]
      exact Consulting.yields_pure []
    exact nothing.map _
  | some completer =>
    have yields : (completeNamed node.name (.atEnd node.value) event completers).Yields
        (answer event (node, completer)).1 (answer event (node, completer)).2 := by
      rw [completeNamed_eq, found]
      exact yields_complete _ _ _
    exact yields.map _

theorem yields_completeField_of_answers {inner : Occurrence × Completer → List Completion}
    (each : ∀ entry ∈ withCompleter? completers node, (answer event entry).1 = .ok (inner entry)) :
    (completeField grammar completers document event node).Yields
      (.ok (((withCompleter? completers node).map fun entry =>
        (inner entry).map (rewritten grammar document entry)).getD []))
      (askedFor completers event node) := by
  have yields := yields_completeField grammar completers document event node
  cases known : withCompleter? completers node with
  | none => rwa [known] at yields
  | some entry =>
    rw [known] at yields
    dsimp only at yields
    rwa [each entry known] at yields

theorem yields_completeField_of_error {entry : Occurrence × Completer} {error : CompletionError}
    (known : withCompleter? completers node = some entry)
    (failed : (answer event entry).1 = .error error) :
    (completeField grammar completers document event node).Yields (.error error)
      (askedFor completers event node) := by
  have yields := yields_completeField grammar completers document event node
  rw [known] at yields
  dsimp only at yields
  rwa [failed] at yields

theorem flatMap_filterMap {α β γ : Type} (f : α → Option β) (g : β → List γ) (list : List α) :
    (list.filterMap f).flatMap g = list.flatMap fun a => ((f a).map g).getD [] := by
  induction list with
  | nil => rfl
  | cons a rest ih =>
    cases found : f a with
    | none =>
      rw [List.filterMap_cons_none found, ih, List.flatMap_cons, found]
      rfl
    | some b =>
      rw [List.filterMap_cons_some found, List.flatMap_cons, List.flatMap_cons, ih, found]
      rfl

theorem outcome_of_answers {inner : Occurrence × Completer → List Completion}
    (each : ∀ entry ∈ registered grammar completers document,
      (answer event entry).1 = .ok (inner entry)) :
    ((fields grammar completers).complete document event).outcome =
      (.ok (((registered grammar completers document).flatMap fun entry =>
          (inner entry).map (rewritten grammar document entry)).eraseDupsBy Completion.sameKey),
        (registered grammar completers document).flatMap fun entry => (answer event entry).2) := by
  have yields : ∀ node ∈ (grammar.matchBeginning document.before).endNodes,
      (completeField grammar completers document event node).Yields
        (.ok (((withCompleter? completers node).map fun entry =>
          (inner entry).map (rewritten grammar document entry)).getD []))
        (askedFor completers event node) := fun node mem =>
    yields_completeField_of_answers fun entry known =>
      each entry (List.mem_filterMap.mpr ⟨node, mem, known⟩)
  have whole := (Consulting.yields_mapM yields).map fun found => Completion.unique found.flatten
  rw [complete_fields, whole.outcome, registered, flatMap_filterMap, flatMap_filterMap,
    ← Completion.unique_eq, List.flatMap_def]
  rfl

theorem outcome_of_error {before after : List (Occurrence × Completer)}
    {entry : Occurrence × Completer} {error : CompletionError}
    (split : registered grammar completers document = before ++ entry :: after)
    (each : ∀ earlier ∈ before, ∃ found, (answer event earlier).1 = .ok found)
    (failed : (answer event entry).1 = .error error) :
    ((fields grammar completers).complete document event).outcome =
      (.error error, (before ++ [entry]).flatMap fun entry => (answer event entry).2) := by
  obtain ⟨nodes, later, listed, rfl, more⟩ := List.filterMap_eq_append_iff.mp split
  obtain ⟨silent, node, rest, rfl, unknown, known, -⟩ := List.filterMap_eq_cons_iff.mp more
  choose! inner answered using each
  have fine : ∀ node ∈ nodes ++ silent, ∃ found,
      (completeField grammar completers document event node).Yields (.ok found)
        (askedFor completers event node) := by
    intro node mem
    refine ⟨_, yields_completeField_of_answers fun entry known => answered entry ?_⟩
    rcases List.mem_append.mp mem with mem | mem
    · exact List.mem_filterMap.mpr ⟨node, mem, known⟩
    · simp [unknown node mem] at known
  have stopped := (Consulting.yields_mapM_error fine
    (yields_completeField_of_error known failed) rest).map
      fun found => Completion.unique found.flatten
  have passed : silent.filterMap (withCompleter? completers) = [] :=
    List.filterMap_eq_nil_iff.mpr unknown
  have entries : (nodes ++ silent ++ [node]).filterMap (withCompleter? completers) =
      nodes.filterMap (withCompleter? completers) ++ [entry] := by
    rw [List.filterMap_append, List.filterMap_append, passed, List.append_nil,
      List.filterMap_cons_some known, List.filterMap_nil]
  rw [complete_fields, listed, ← List.append_assoc, stopped.outcome, ← entries,
    flatMap_filterMap]
  rfl

/-- What is offered for the variables at the cursor puts the whole of them in place. Of completions
that put the same text in the same place the first is kept, in the order of the variables and of
what their completers answer. If completers fail, the error is that of the first one, and the
completers behind it are not asked. -/
theorem outcome_complete_fields (grammar : Grammar) (completers : List (String × Completer))
    (document : Document) (event : CompletionEvent) :
    (∀ inner : Occurrence × Completer → List Completion,
      (∀ entry ∈ registered grammar completers document,
        (answer event entry).1 = .ok (inner entry)) →
      ∃ outer : Occurrence × Completer → Completion → Completion,
        (∀ entry ∈ registered grammar completers document, ∀ completion ∈ inner entry,
          Completion.Rewrites grammar document.before entry.1 completion
            (outer entry completion)) ∧
        ((fields grammar completers).complete document event).outcome =
          (.ok (((registered grammar completers document).flatMap fun entry =>
              (inner entry).map (outer entry)).eraseDupsBy Completion.sameKey),
            (registered grammar completers document).flatMap fun entry =>
              (answer event entry).2)) ∧
    ∀ before entry after error,
      registered grammar completers document = before ++ entry :: after →
      (∀ earlier ∈ before, ∃ found, (answer event earlier).1 = .ok found) →
      (answer event entry).1 = .error error →
      ((fields grammar completers).complete document event).outcome =
        (.error error, (before ++ [entry]).flatMap fun entry => (answer event entry).2) := by
  refine ⟨fun inner each => ?_, fun before entry after error => outcome_of_error⟩
  refine ⟨rewritten grammar document, fun entry mem completion _ => ?_, outcome_of_answers each⟩
  obtain ⟨node, reaches, known⟩ := List.mem_filterMap.mp mem
  obtain ⟨completer, -, rfl⟩ := Option.map_eq_some_iff.mp known
  exact CompletionField.rewrites_rewrap reaches completion

def twoNames : Tree :=
  .sequence [.leaf "é", .choice [.variable "x" (.leaf "b"), .variable "y" (.leaf "b")]]

def mark (value : String) : String := "q" ++ value

def unmark (value : String) : String := String.ofList (value.toList.filter (· ≠ 'q'))

def marked : Except GrammarError Grammar :=
  Grammar.ofTree twoNames [("x", mark), ("y", mark)] [("x", unmark), ("y", unmark)]

theorem endNodes_twoNames : ∃ grammar, marked = .ok grammar ∧
    (grammar.matchBeginning "éb").endNodes = [⟨"x", "b", ⟨2, 3⟩⟩, ⟨"y", "b", ⟨2, 3⟩⟩] := by
  have run : (marked >>= fun grammar => .ok (grammar.matchBeginning "éb").endNodes) =
      .ok [⟨"x", "b", ⟨2, 3⟩⟩, ⟨"y", "b", ⟨2, 3⟩⟩] := by cbv
  obtain ⟨grammar, made, nodes⟩ := bind_eq_ok.mp run
  exact ⟨grammar, made, Except.ok.inj nodes⟩

theorem outcome_complete_twoNames :
    let first : Occurrence × Completer := (⟨"x", "b", ⟨2, 3⟩⟩, .words (.ofWords ["bc", "b"]))
    let second : Occurrence × Completer := (⟨"y", "b", ⟨2, 3⟩⟩, .words (.ofWords ["bc", "bd"]))
    let failing : Occurrence × Completer :=
      (⟨"y", "b", ⟨2, 3⟩⟩, .source fun _ _ => ⟨.error (.failed "no list"), false⟩)
    let found (words : List String) : List Completion := words.map (⟨·, 1, none, none⟩)
    ∃ (grammar : Grammar) (outer : Occurrence × Completer → Completion → Completion),
      marked = .ok grammar ∧
      registered grammar [("x", first.2), ("y", second.2)] ⟨"éb", ""⟩ = [first, second] ∧
      (answer .request first = (.ok (found ["bc", "b"]), []) ∧
        answer .request second = (.ok (found ["bc", "bd"]), [])) ∧
      (∀ completion ∈ found ["bc", "b"],
        Completion.Rewrites grammar "éb" first.1 completion (outer first completion)) ∧
      ((fields grammar [("x", first.2), ("y", second.2)]).complete ⟨"éb", ""⟩ .request).outcome =
        (.ok (((found ["bc", "b"]).map (outer first) ++
          (found ["bc", "bd"]).map (outer second)).eraseDupsBy Completion.sameKey), []) ∧
      ((fields grammar [("x", first.2), ("y", failing.2)]).complete ⟨"éb", ""⟩ .request).outcome =
        (.error (.failed "no list"), [.atEnd "b"]) := by
  intro first second failing found
  obtain ⟨grammar, made, nodes⟩ := endNodes_twoNames
  have both : registered grammar [("x", first.2), ("y", second.2)] ⟨"éb", ""⟩ =
      [first, second] := by
    simp [registered, nodes, withCompleter?, Registry.find?, first, second]
  have both' : registered grammar [("x", first.2), ("y", failing.2)] ⟨"éb", ""⟩ =
      [first] ++ failing :: [] := by
    simp [registered, nodes, withCompleter?, Registry.find?, first, failing]
  have answers : answer .request first = (.ok (found ["bc", "b"]), []) := by
    have words : (WordList.ofWords ["bc", "b"]).complete (.atEnd "b") = found ["bc", "b"] := by
      decide +kernel
    rw [← words]
    simp only [answer, first, complete]
    rfl
  have answers' : answer .request second = (.ok (found ["bc", "bd"]), []) := by
    have words : (WordList.ofWords ["bc", "bd"]).complete (.atEnd "b") = found ["bc", "bd"] := by
      decide +kernel
    rw [← words]
    simp only [answer, second, complete]
    rfl
  let inner (entry : Occurrence × Completer) : List Completion :=
    if entry.1.name = "x" then found ["bc", "b"] else found ["bc", "bd"]
  have each : ∀ entry ∈ registered grammar [("x", first.2), ("y", second.2)] ⟨"éb", ""⟩,
      (answer .request entry).1 = .ok (inner entry) := by
    rw [both]
    simp [answers, answers', inner, first, second]
  obtain ⟨outer, rewrites, whole⟩ := (outcome_complete_fields grammar _ _ .request).1 inner each
  have failed := (outcome_complete_fields grammar _ _ .request).2 [first] failing []
    (.failed "no list") both' (by simp [answers]) rfl
  refine ⟨grammar, outer, made, both, ⟨answers, answers'⟩, ?_, ?_, ?_⟩
  · intro completion mem
    exact rewrites first (by simp [both]) completion mem
  · rw [whole, both]
    simp [answers, answers', inner, first, second]
  · rw [failed]
    simp [answers]
    rfl

end Completer

end LineGrammar
