import LineGrammar.Proofs.Grammar.Body

/-! Text at fault. Where the text in a group is at fault so is the text of the group, wherever it
stands; and behind text that can be read a fault is still met. So bodies put together can be read as
a whole or they are at fault, and which of the two does not depend on what is around them. -/

namespace LineGrammar.Body

open Pattern

variable {follows : List Char → Prop} {body first second : Body} {bodies : List Body}
  {source : List Char}

def Fails (follows : List Char → Prop) (source : List Char) : Prop :=
  ∀ (reading : Reading) (rest : List Char), reading.AtTerm → follows rest →
    ∃ fault, reading.run (source ++ rest) = .error fault

theorem Enclosable.lenient (enclosable : body.Enclosable True) : body.Enclosable False where
  unquantified := enclosable.unquantified
  reads reading rest h follows := by
    obtain ⟨last, agree⟩ := enclosable.reads reading rest h follows
    exact ⟨last, agree.1, fun _ => agree.2 trivial⟩

namespace Fails

theorem read_ne (fails : Fails Fenced source) {text : String} (spelled : text.toList = source)
    {pattern : Pattern} : Pattern.read text ≠ .ok pattern := by
  obtain ⟨fault, stops⟩ := fails .start [] ⟨rfl, rfl⟩ .stop
  rw [List.append_nil, ← spelled] at stops
  rw [Pattern.read, stops]
  simp [Except.bind]

theorem enclosable (fails : Fails Fenced body.source) (unquantified : Unquantified body.source) :
    body.Enclosable False where
  unquantified := unquantified
  reads reading rest h follows := by
    obtain ⟨fault, stops⟩ := fails reading rest h follows
    exact ⟨.nothing, .of_error stops id⟩

theorem behind (readable : first.Readable True) (fails : Fails Fenced second.source)
    (unquantified : Unquantified second.source) : Fails Fenced (first.append second).source := by
  intro reading rest h follows
  obtain ⟨last, agree⟩ := readable.reads reading (second.source ++ rest) h
    (unquantified.append follows.unquantified)
  obtain ⟨fault, stops⟩ := fails _ rest (h.extend _ _ last) follows
  refine ⟨fault, ?_⟩
  rw [Body.append, List.append_assoc, agree.2 trivial, stops]

theorem append (fails : Fails Unquantified first.source)
    (unquantified : Unquantified second.source) : Fails Fenced (first.append second).source := by
  intro reading rest h follows
  rw [Body.append, List.append_assoc]
  exact fails reading _ h (unquantified.append follows.unquantified)

theorem enclosed (fails : Fails Fenced source) {reading : Reading} (h : reading.AtTerm)
    (kind : GroupKind) (rest : List Char) :
    ∃ fault, (reading.enter kind .standard).run (source ++ ')' :: rest) = .error fault :=
  fails _ _ (h.enter kind) (.closing rest)

theorem capture (fails : Fails Fenced body.source) (unquantified : Unquantified body.source)
    (name : String) : Fails follows (body.capture name).source := by
  intro reading rest h _
  have unmarked : (body.source ++ ')' :: rest).head? ≠ some '?' :=
    (unquantified.append (Fenced.closing rest).unquantified).head?_ne
  obtain ⟨fault, stops⟩ := fails.enclosed h (.capture (reading.captures + 1)) rest
  refine ⟨fault, ?_⟩
  rw [← Reading.run_capture h unmarked] at stops
  simpa [Body.capture] using stops

theorem look (fails : Fails Fenced body.source) (side : Direction) (negated : Bool) :
    Fails follows (body.look side negated).source := by
  intro reading rest h _
  obtain ⟨fault, stops⟩ := fails.enclosed h (.look side negated) rest
  refine ⟨fault, ?_⟩
  rw [← Reading.run_look h] at stops
  simpa [Body.look] using stops

theorem repeated (fails : Fails Fenced body.source) (sign : List Char) (repetition : Repetition) :
    Fails follows (body.repeated sign repetition).source := by
  intro reading rest h _
  obtain ⟨fault, stops⟩ := fails.enclosed h .plain (sign ++ rest)
  refine ⟨fault, ?_⟩
  rw [← Reading.run_plain h] at stops
  simpa [Body.repeated] using stops

end Fails

theorem fails_reversed {sign : List Char} {repetition : Repetition}
    (enclosable : body.Enclosable True) (spells : Spells sign repetition)
    (reversed : repetition.isReversed = true) :
    Fails Unquantified (body.repeated sign repetition).source := by
  intro reading rest h unquantified
  have inside := (enclosable.enclosed h .plain (sign ++ rest)).2 trivial
  rw [← Reading.run_plain h] at inside
  refine ⟨.quantifier, ?_⟩
  have spelled : (body.repeated sign repetition).source ++ rest =
      '(' :: '?' :: ':' :: (body.source ++ ')' :: (sign ++ rest)) := by
    simp [Body.repeated]
  rw [spelled, inside]
  exact Reading.run_reversed _ _ h spells reversed unquantified

theorem fails_branches (each : ∀ body ∈ bodies, Fails Fenced body.source ∨ body.Enclosable True)
    (fault : ∃ body ∈ bodies, Fails Fenced body.source) {reading : Reading} (h : reading.AtTerm)
    (rest : List Char) :
    ∃ fault, reading.run (['|'].intercalate (bodies.map Body.source) ++ ')' :: rest) =
      .error fault := by
  induction bodies generalizing reading with
  | nil => simp at fault
  | cons body others ih =>
    obtain ⟨first, later⟩ := List.forall_mem_cons.mp each
    cases others with
    | nil =>
      have fails : Fails Fenced body.source := by simpa using fault
      simpa using fails reading _ h (.closing rest)
    | cons next others =>
      rw [List.map_cons, List.map_cons, List.intercalate_cons_cons, List.append_assoc,
        List.append_assoc, List.singleton_append, ← List.map_cons]
      rcases first with fails | enclosable
      · exact fails reading _ h (.bar _)
      · obtain ⟨last, agree⟩ := enclosable.reads reading _ h (.bar _)
        rcases List.or_exists_of_exists_mem_cons fault with fails | fault
        · exact fails reading _ h (.bar _)
        · rw [agree.2 trivial, Reading.run_bar (h.extend _ _ _)]
          exact ih later fault ⟨h.openClass, h.flags⟩

theorem fails_choice (each : ∀ body ∈ bodies, Fails Fenced body.source ∨ body.Enclosable True)
    (fault : ∃ body ∈ bodies, Fails Fenced body.source) : Fails follows (choice bodies).source := by
  intro reading rest h _
  obtain ⟨fault, stops⟩ := fails_branches each fault (h.enter .plain) rest
  refine ⟨fault, ?_⟩
  rw [← Reading.run_plain h] at stops
  simpa [choice] using stops

end LineGrammar.Body
