import LineGrammar.Proofs.Consulting
import LineGrammar.Proofs.Registry
import LineGrammar.Validation.Deferred

/-! Judgements made at once and judgements that wait. Both come to the same and hand the same
documents to validators from outside, in the same order. A grammar's validator goes through the
variables of a sentence up to the first one that is rejected. To see which tests are made, they are
exposed: an exposed test judges as before, but as a validator from outside, so that what it is given
is noted. -/

namespace LineGrammar

namespace Deferred

theorem finish_andThen (first second : Deferred) :
    (first.andThen second).finish =
      match first.finish.1 with
      | .ok () => (second.finish.1, first.finish.2 ++ second.finish.2)
      | .error error => (.error error, first.finish.2) := by
  induction first with
  | ready result => rcases result with error | ⟨⟩ <;> rfl
  | waiting document rest ih =>
    rw [andThen, finish, ih, finish]
    rcases rest.finish.1 with error | ⟨⟩ <;> rfl

theorem finish_mapError (f : ValidatorError → ValidatorError) (judgement : Deferred) :
    (judgement.mapError f).finish = (judgement.finish.1.mapError f, judgement.finish.2) := by
  induction judgement with
  | ready result => rfl
  | waiting document rest ih => rw [mapError, finish, ih, finish]

def fails (judgement : Deferred) : Bool := !judgement.finish.1.isOk

@[simp] theorem fails_mapError (f : ValidatorError → ValidatorError) (judgement : Deferred) :
    (judgement.mapError f).fails = judgement.fails := by
  rw [fails, fails, finish_mapError]
  cases judgement.finish.1 <;> rfl

theorem finish_foldr_andThen {α : Type} (judgement : α → Deferred) (list : List α) :
    (list.foldr (fun a rest => (judgement a).andThen rest) (.ready (.ok ()))).finish =
      ((list.find? fun a => (judgement a).fails).elim (.ok ()) fun a => (judgement a).finish.1,
        (list.take (list.findIdx (fun a => (judgement a).fails) + 1)).flatMap fun a =>
          (judgement a).finish.2) := by
  induction list with
  | nil => rfl
  | cons a rest ih =>
    rw [List.foldr_cons, finish_andThen, List.find?_cons, List.findIdx_cons, List.take_succ_cons,
      List.flatMap_cons]
    cases result : (judgement a).finish.1 with
    | ok _ =>
      have passes : (judgement a).fails = false := by
        rw [fails, result]
        rfl
      rw [passes, cond_false, ih]
    | error error =>
      have failed : (judgement a).fails = true := by
        rw [fails, result]
        rfl
      simp [failed, result]

/-- The judgement comes to what the work ends in, after the same documents. -/
def Finishes (judgement : Deferred) (work : Consulting ValidatorError Unit) : Prop :=
  work.Yields judgement.finish.1 judgement.finish.2

variable {first second : Deferred} {work work' : Consulting ValidatorError Unit}

theorem finishes_ready (result : Except ValidatorError Unit) :
    Finishes (.ready result) (Consulting.ofExcept result) := Consulting.yields_ofExcept result

theorem Finishes.mapError (f : ValidatorError → ValidatorError) (finishes : Finishes first work) :
    Finishes (first.mapError f) (Consulting.mapError f work) := by
  rw [Finishes, finish_mapError]
  exact Consulting.Yields.mapError f finishes

theorem Finishes.andThen (finishes : Finishes first work) (finishes' : Finishes second work') :
    Finishes (first.andThen second) (do
      work
      work') := by
  unfold Finishes at finishes ⊢
  rw [finish_andThen]
  rcases result : first.finish.1 with error | ⟨⟩
  · rw [result] at finishes
    exact finishes.bind_error
  · rw [result] at finishes
    exact finishes.bind finishes'

theorem Finishes.forEach {α : Type} {judgement : α → Deferred}
    {works : α → Consulting ValidatorError Unit} {list : List α}
    (each : ∀ a, Finishes (judgement a) (works a)) :
    Finishes (list.foldr (fun a rest => (judgement a).andThen rest) (.ready (.ok ())))
      (Consulting.forEach works list) := by
  induction list with
  | nil => exact Consulting.yields_pure ()
  | cons a rest ih => exact (each a).andThen ih

end Deferred

namespace Validator

@[elab_as_elim, induction_eliminator]
theorem induct {motive : Validator → Prop}
    (test : ∀ passes message atEnd, motive (.test passes message atEnd))
    (fields : ∀ grammar validators, (∀ entry ∈ validators, motive entry.2) →
      motive (.fields grammar validators))
    (source : ∀ judge, motive (.source judge)) (validator : Validator) : motive validator :=
  match validator with
  | .test passes message atEnd => test passes message atEnd
  | .fields grammar validators =>
    fields grammar validators fun (_, inner) _ => induct test fields source inner
  | .source judge => source judge
decreasing_by
  have within := List.sizeOf_lt_of_mem ‹_ ∈ validators›
  simp only [Prod.mk.sizeOf_spec, Validator.fields.sizeOf_spec] at within ⊢
  omega

variable (name : String) (document : Document)

theorem validateNamed_eq (validators : List (String × Validator)) :
    validateNamed name document validators =
      (Registry.find? validators name).elim (pure ()) (·.validate document) :=
  Registry.eq_of_search rfl (fun _ _ _ => by rw [validateNamed]) validators

theorem deferredNamed_eq (validators : List (String × Validator)) :
    deferredNamed name document validators =
      (Registry.find? validators name).elim (.ready (.ok ())) (·.deferred document) :=
  Registry.eq_of_search rfl (fun _ _ _ => by rw [deferredNamed]) validators

theorem finishes_deferredNamed {validators : List (String × Validator)}
    (each : ∀ entry ∈ validators, (entry.2.deferred document).Finishes (entry.2.validate document)) :
    (deferredNamed name document validators).Finishes
      (validateNamed name document validators) := by
  rw [deferredNamed_eq, validateNamed_eq]
  cases found : Registry.find? validators name with
  | none => exact Consulting.yields_pure ()
  | some validator =>
    obtain ⟨entry, mem, rfl⟩ := Registry.mem_of_find? found
    exact each entry mem

theorem finishes_deferred (validator : Validator) :
    (validator.deferred document).Finishes (validator.validate document) := by
  induction validator generalizing document with
  | test passes message atEnd => exact Deferred.finishes_ready _
  | source judge => exact Consulting.yields_consult document _
  | fields grammar validators ih =>
    rw [deferred, validate]
    cases occurrences grammar document.text with
    | error error => exact (Consulting.yields_ofExcept _).bind_error
    | ok found =>
      refine (Consulting.yields_ofExcept _).bind (Deferred.Finishes.forEach fun occurrence => ?_)
      exact (finishes_deferredNamed _ _ fun entry mem => ih entry mem _).mapError _

theorem outcome_validate (validator : Validator) :
    (validator.validate document).outcome = (validator.deferred document).finish :=
  (finishes_deferred document validator).outcome

theorem outcome_validateNamed (validators : List (String × Validator)) :
    (validateNamed name document validators).outcome =
      (deferredNamed name document validators).finish :=
  (finishes_deferredNamed name document fun entry _ => finishes_deferred document entry.2).outcome

/-- The validator of the variable rejects its value. -/
def rejects (validators : List (String × Validator)) (occurrence : Occurrence) : Bool :=
  !(validateNamed occurrence.name (.atEnd occurrence.value) validators).outcome.1.isOk

theorem rejects_eq (validators : List (String × Validator)) (occurrence : Occurrence) :
    rejects validators occurrence =
      (deferredNamed occurrence.name (.atEnd occurrence.value) validators).fails := by
  rw [rejects, outcome_validateNamed, Deferred.fails]

variable {document} {grammar : Grammar} {validators : List (String × Validator)}

theorem finish_fields_of_none (refused : grammar.matchWhole? document.text = none) :
    ((fields grammar validators).deferred document).finish =
      (.error (.invalid ⟨notASentence, document.text.utf8ByteSize⟩), []) := by
  rw [deferred, occurrences, refused]
  rfl

theorem finish_fields {found : Match} (matched : grammar.matchWhole? document.text = some found) :
    ((fields grammar validators).deferred document).finish =
      ((found.occurrences.find? (rejects validators)).elim (.ok ()) fun occurrence =>
          (deferredNamed occurrence.name (.atEnd occurrence.value) validators).finish.1.mapError
            (.shift occurrence.span.start),
        (found.occurrences.take (found.occurrences.findIdx (rejects validators) + 1)).flatMap
          fun occurrence =>
            (deferredNamed occurrence.name (.atEnd occurrence.value) validators).finish.2) := by
  rw [deferred, occurrences, matched]
  dsimp only
  rw [Deferred.finish_foldr_andThen, funext (rejects_eq validators)]
  simp only [Deferred.fails_mapError, Deferred.finish_mapError]

mutual

/-- The tests made in a judgement, in order. Each stands with the names of the variables that lead
to it and with the document that it is made on. -/
def visited (document : Document) : Validator → List (List String × Document)
  | .test _ _ _ => [([], document)]
  | .source _ => []
  | .fields grammar validators =>
    match grammar.matchWhole? document.text with
    | none => []
    | some found =>
      (found.occurrences.take (found.occurrences.findIdx (rejects validators) + 1)).flatMap
        fun occurrence =>
          (visitedNamed occurrence.name (.atEnd occurrence.value) validators).map
            fun (path, document) => (occurrence.name :: path, document)

def visitedNamed (name : String) (document : Document) :
    List (String × Validator) → List (List String × Document)
  | [] => []
  | (key, validator) :: rest =>
    if key = name then validator.visited document else visitedNamed name document rest

end

mutual

/-- The validator with the chosen tests exposed: each judges as it did, from outside. A test is
chosen by the names of the variables that lead to it. -/
def exposing (chosen : List String → Bool) : Validator → Validator
  | .test passes message atEnd =>
    if chosen [] then .source fun document => judge passes message atEnd document.text
    else .test passes message atEnd
  | .source judge => .source judge
  | .fields grammar validators => .fields grammar (exposingEach chosen validators)

def exposingEach (chosen : List String → Bool) :
    List (String × Validator) → List (String × Validator)
  | [] => []
  | (name, validator) :: rest =>
    (name, validator.exposing fun path => chosen (name :: path)) :: exposingEach chosen rest

end

/-- A validator made of tests and of grammars that take the values of their variables as they are
typed. -/
inductive TestsValues : Validator → Prop
  | test (passes : String → Bool) (message : String) (atEnd : Bool) :
    TestsValues (.test passes message atEnd)
  | fields {grammar : Grammar} {validators : List (String × Validator)}
    (verbatim : grammar.unescapes = []) (each : ∀ entry ∈ validators, TestsValues entry.2) :
    TestsValues (.fields grammar validators)

theorem visitedNamed_eq (name : String) (document : Document)
    (validators : List (String × Validator)) :
    visitedNamed name document validators =
      (Registry.find? validators name).elim [] (·.visited document) :=
  Registry.eq_of_search rfl (fun _ _ _ => by rw [visitedNamed]) validators

theorem find?_exposingEach (chosen : List String → Bool) (validators : List (String × Validator))
    (name : String) :
    Registry.find? (exposingEach chosen validators) name =
      (Registry.find? validators name).map (exposing fun path => chosen (name :: path)) := by
  induction validators with
  | nil => rfl
  | cons entry rest ih =>
    obtain ⟨key, validator⟩ := entry
    rw [exposingEach, Registry.find?, Registry.find?]
    split
    · next same => rw [same, Option.map_some]
    · exact ih

def noted (chosen : List String → Bool) (tests : List (List String × Document)) : List Document :=
  (tests.filter fun test => chosen test.1).map (·.2)

theorem noted_flatMap {α : Type} (chosen : List String → Bool) (list : List α)
    (tests : α → List (List String × Document)) :
    noted chosen (list.flatMap tests) = list.flatMap fun a => noted chosen (tests a) := by
  simp only [noted, List.filter_flatMap, List.map_flatMap]

theorem noted_named (chosen : List String → Bool) (name : String)
    (tests : List (List String × Document)) :
    noted chosen (tests.map fun (path, document) => (name :: path, document)) =
      noted (fun path => chosen (name :: path)) tests := by
  simp only [noted, List.filter_map, List.map_map]
  rfl

theorem finish_exposing {validator : Validator} (tests : validator.TestsValues)
    (chosen : List String → Bool) (document : Document) :
    ((validator.exposing chosen).deferred document).finish =
      ((validator.deferred document).finish.1, noted chosen (validator.visited document)) := by
  induction tests generalizing chosen document with
  | test passes message atEnd =>
    rw [exposing, visited, deferred]
    cases picked : chosen [] <;> simp [deferred, Deferred.finish, noted, picked]
  | @fields grammar validators verbatim each ih =>
    have named (name : String) (document : Document) :
        (deferredNamed name document (exposingEach chosen validators)).finish =
          ((deferredNamed name document validators).finish.1,
            noted (fun path => chosen (name :: path)) (visitedNamed name document validators)) := by
      rw [deferredNamed_eq, deferredNamed_eq, visitedNamed_eq, find?_exposingEach]
      cases found : Registry.find? validators name with
      | none => rfl
      | some validator =>
        obtain ⟨entry, mem, rfl⟩ := Registry.mem_of_find? found
        exact ih entry mem _ document
    have same : rejects (exposingEach chosen validators) = rejects validators := by
      funext occurrence
      rw [rejects_eq, rejects_eq, Deferred.fails, Deferred.fails, named]
    rw [exposing, visited]
    cases matched : grammar.matchWhole? document.text with
    | none =>
      rw [finish_fields_of_none matched, finish_fields_of_none matched]
      rfl
    | some found =>
      rw [finish_fields matched, finish_fields matched, same]
      simp only [named, noted_flatMap, noted_named]

end Validator

end LineGrammar
