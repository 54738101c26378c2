import LineGrammar.Validation.Validator

/-! Validation that can wait. A deferred judgement stops before every validator from outside and
goes on when it is resumed, so a caller can do other work in between. -/

namespace LineGrammar

/-- A judgement that is ready, or one that first has a document judged elsewhere. -/
inductive Deferred
  | ready (result : Except ValidatorError Unit)
  | waiting (document : Document) (rest : Deferred)

namespace Deferred

def andThen (first second : Deferred) : Deferred :=
  match first with
  | .ready (.ok ()) => second
  | .ready (.error error) => .ready (.error error)
  | .waiting document rest => .waiting document (rest.andThen second)

def mapError (f : ValidatorError → ValidatorError) : Deferred → Deferred
  | .ready result => .ready (result.mapError f)
  | .waiting document rest => .waiting document (rest.mapError f)

def finish : Deferred → Except ValidatorError Unit × List Document
  | .ready result => (result, [])
  | .waiting document rest => (rest.finish.1, document :: rest.finish.2)

end Deferred

namespace Validator

mutual

def deferred (document : Document) : Validator → Deferred
  | .test passes message atEnd => .ready (judge passes message atEnd document.text)
  | .source judge => .waiting document (.ready (judge document))
  | .fields grammar validators =>
    match occurrences grammar document.text with
    | .error error => .ready (.error error)
    | .ok occurrences =>
      occurrences.foldr
        (fun occurrence rest =>
          ((deferredNamed occurrence.name (.atEnd occurrence.value) validators).mapError
            (.shift occurrence.span.start)).andThen rest)
        (.ready (.ok ()))

def deferredNamed (name : String) (document : Document) : List (String × Validator) → Deferred
  | [] => .ready (.ok ())
  | (key, validator) :: rest =>
    if key = name then validator.deferred document else deferredNamed name document rest

end

end Validator

end LineGrammar
