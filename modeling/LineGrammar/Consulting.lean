import LineGrammar.Document

/-! Work that consults components supplied from outside. Every document that such a component is
given is noted, in order, also when the work ends in an error. -/

namespace LineGrammar

abbrev Consulting (ε : Type) := ExceptT ε (StateM (List Document))

namespace Consulting

variable {ε α : Type}

/-- Hand a document to a component and take its answer. -/
def consult (document : Document) (answer : Except ε α) : Consulting ε α := fun asked =>
  (answer, asked ++ [document])

def ofExcept (result : Except ε α) : Consulting ε α := fun asked => (result, asked)

def mapError {δ : Type} (f : ε → δ) (work : Consulting ε α) : Consulting δ α := fun asked =>
  let (result, asked) := work asked
  (result.mapError f, asked)

def forEach {β : Type} (work : β → Consulting ε Unit) : List β → Consulting ε Unit
  | [] => pure ()
  | item :: rest => do
    work item
    forEach work rest

def outcome (work : Consulting ε α) : Except ε α × List Document := work.run.run []

end Consulting

end LineGrammar
