import LineGrammar.Expression.Leaf
import LineGrammar.Proofs.Grammar.Body
import LineGrammar.Proofs.Pattern.Characters
import LineGrammar.Proofs.Pattern.ClassText
import LineGrammar.Proofs.Pattern.Groups

/-! Texts that spell one term. A character, an anchor, an escape and a class are each read the same
way wherever a term may stand; a class at fault is at fault everywhere. -/

namespace LineGrammar

namespace Body

open Pattern

variable {strict : Prop}

def single (source : List Char) (term : Pattern) : Body := ⟨source, [], [term]⟩

theorem readable_single {source : List Char} {term : Pattern} (last : LastTerm)
    (ungrouped : ∀ count, term.shift count = term) (unquantified : Unquantified source)
    (reads : ∀ (reading : Reading) rest, reading.AtTerm →
      reading.run (source ++ rest) = (reading.push term last).run rest) :
    (single source term).Readable strict where
  unquantified := unquantified
  reads reading rest h _ := by
    refine ⟨last, .of_eq ?_⟩
    have pushed : reading.push term last = reading.extend [term] 0 last := rfl
    simpa [single, ungrouped, ← pushed] using reads reading rest h

def specialChars : List Char :=
  ['^', '$', '\\', '.', '*', '+', '?', '(', ')', '[', ']', '{', '}', '|']

theorem readable_char {c : Char} (ordinary : c ∉ specialChars) :
    (single [c] (.one (.single c.toNat false))).Readable strict := by
  simp only [specialChars, List.mem_cons, List.not_mem_nil, or_false, not_or] at ordinary
  refine readable_single .atom (fun _ => rfl) ?_ fun reading rest h => ?_
  · simp [Unquantified, isQuantifierStart, ordinary]
  · apply Reading.run_step 0
    simp [Reading.step, h.openClass, h.flags, Flags.standard, isQuantifierStart, ordinary,
      reservedChars, Reading.pushAtom]

theorem readable_dot : (single ['.'] (.one .all)).Readable strict := by
  refine readable_single .atom (fun _ => rfl) ?_ fun reading rest h => ?_
  · simp [Unquantified, isQuantifierStart]
  · apply Reading.run_step 0
    simp [Reading.step, h.openClass, h.flags, Flags.standard, isQuantifierStart]

theorem readable_start : (single ['^'] (.boundary .backward false)).Readable strict := by
  refine readable_single .assertion (fun _ => rfl) ?_ fun reading rest h => ?_
  · simp [Unquantified, isQuantifierStart]
  · apply Reading.run_step 0
    simp [Reading.step, h.openClass, h.flags, Flags.standard, isQuantifierStart]

theorem readable_end : (single ['$'] (.boundary .forward false)).Readable strict := by
  refine readable_single .assertion (fun _ => rfl) ?_ fun reading rest h => ?_
  · simp [Unquantified, isQuantifierStart]
  · apply Reading.run_step 0
    simp [Reading.step, h.openClass, h.flags, Flags.standard, isQuantifierStart]

def atomSet : ClassAtom → CodeSet
  | .point code => .single code false
  | .property kind negated => ⟨[.property kind negated], false, false⟩

theorem run_escape {reading : Reading} (h : reading.AtTerm) {c : Char} {more : List Char}
    {atom : ClassAtom} {count : Nat} (read : escape false c more = .ok (atom, count)) :
    reading.run ('\\' :: c :: more) =
      (reading.push (.one (atomSet atom)) .atom).run (more.drop count) := by
  have stepped : reading.step '\\' (c :: more) =
      .ok (reading.push (.one (atomSet atom)) .atom, count + 1) := by
    cases atom <;>
      simp [Reading.step, h.openClass, h.flags, Flags.standard, isQuantifierStart, read,
        Reading.pushAtom, atomSet, bind, Except.bind, pure, Except.pure]
  exact Reading.run_step _ stepped

theorem readable_escape {c : Char} (more : List Char) (atom : ClassAtom)
    (reads : ∀ rest, escape false c (more ++ rest) = .ok (atom, more.length)) :
    (single ('\\' :: c :: more) (.one (atomSet atom))).Readable strict := by
  refine readable_single .atom (fun _ => rfl) ?_ fun reading rest h => ?_
  · simp [Unquantified, isQuantifierStart]
  · simpa using run_escape h (reads rest)

/-- The reader stops at a fault in the text wherever a term may stand. -/
structure IsFaulty (source : List Char) : Prop where
  unquantified : Unquantified source
  fails : ∀ (reading : Reading) rest, reading.AtTerm →
    ∃ fault, reading.run (source ++ rest) = .error fault

theorem run_opening {reading : Reading} (h : reading.AtTerm) {inside : List Char}
    (unmarked : inside.head? ≠ some '^') (rest : List Char) :
    reading.run ('[' :: (inside ++ ']' :: rest)) =
      (reading.within ⟨false, [], .nothing⟩).run (inside ++ ']' :: rest) := by
  have first : inside.head?.getD ']' ≠ '^' := by
    cases inside with
    | nil => simp
    | cons c more => simpa using unmarked
  apply Reading.run_step 0
  simp [Reading.step, h.openClass, isQuantifierStart, first, Reading.within]

theorem run_opening_negated {reading : Reading} (h : reading.AtTerm) (inside rest : List Char) :
    reading.run ('[' :: '^' :: (inside ++ ']' :: rest)) =
      (reading.within ⟨true, [], .nothing⟩).run (inside ++ ']' :: rest) := by
  apply Reading.run_step 1
  simp [Reading.step, h.openClass, isQuantifierStart, Reading.within]

theorem readable_class {inside : List Char} (closes : isClassText inside = true) :
    IsFaulty ('[' :: (inside ++ [']'])) ∨
      ∃ set, ∀ {strict}, (single ('[' :: (inside ++ [']'])) (.one set)).Readable strict := by
  obtain ⟨negated, members, closes', opens⟩ : ∃ negated members, isClassText members = true ∧
      ∀ (reading : Reading) rest, reading.AtTerm →
        reading.run ('[' :: (inside ++ ']' :: rest)) =
          (reading.within ⟨negated, [], .nothing⟩).run (members ++ ']' :: rest) := by
    by_cases marked : ∃ members, inside = '^' :: members
    · obtain ⟨members, rfl⟩ := marked
      rw [isClassText_cons (by simp [IsPlain])] at closes
      exact ⟨true, members, closes, fun reading rest h => run_opening_negated h members rest⟩
    · have unmarked : inside.head? ≠ some '^' := fun first =>
        marked ⟨inside.tail, by rw [List.head?_eq_some_iff] at first; grind⟩
      exact ⟨false, inside, closes, fun reading rest h => run_opening h unmarked rest⟩
  rcases Reading.run_class closes' ⟨negated, [], .nothing⟩ with ⟨fault, fails⟩ | ⟨set, reads⟩
  · refine .inl ⟨by simp [Unquantified, isQuantifierStart], fun reading rest h => ⟨fault, ?_⟩⟩
    simpa using (opens reading rest h).trans (fails reading rest)
  · refine .inr ⟨⟨set, negated, false⟩, fun {strict} => ?_⟩
    refine readable_single .atom (fun _ => rfl) ?_ fun reading rest h => ?_
    · simp [Unquantified, isQuantifierStart]
    · simpa using (opens reading rest h).trans (reads reading rest h)

def wordSet (negated : Bool) : CodeSet :=
  ⟨[.range 95 95, .property .letter false, .property .number false], negated, false⟩

theorem wordMembers_eq : Leaf.wordMembers =
    ['_', '\\', 'p', '{', 'L', '}', '\\', 'p', '{', 'N', '}'] := by
  decide

theorem escape_letter (more : List Char) :
    escape true 'p' ('{' :: 'L' :: '}' :: more) = .ok (.property .letter false, 3) := by
  simp [escape, propertyName?, List.isPrefixOf]

theorem escape_number (more : List Char) :
    escape true 'p' ('{' :: 'N' :: '}' :: more) = .ok (.property .number false, 3) := by
  simp [escape, propertyName?, List.isPrefixOf]

theorem run_wordMembers {reading : Reading} (h : reading.AtTerm) (negated : Bool)
    (rest : List Char) :
    (reading.within ⟨negated, [], .nothing⟩).run (Leaf.wordMembers ++ ']' :: rest) =
      (reading.push (.one (wordSet negated)) .atom).run rest := by
  simp only [wordMembers_eq, List.cons_append, List.nil_append]
  rw [Reading.run_within_plain (by simp [IsPlain])]
  simp only [Reading.OpenClass.add, Except.bind]
  rw [Reading.run_within_escape (escape_letter _)]
  simp only [Reading.OpenClass.add, Bool.false_eq_true, if_false, Except.bind,
    List.drop_succ_cons, List.drop_zero]
  rw [Reading.run_within_escape (escape_number _)]
  simp only [Reading.OpenClass.add, Bool.false_eq_true, if_false, Except.bind,
    List.drop_succ_cons, List.drop_zero]
  exact Reading.run_within_close h _ rest

theorem readable_wordClass : (single Leaf.wordClass (.one (wordSet false))).Readable strict := by
  refine readable_single .atom (fun _ => rfl) ?_ fun reading rest h => ?_
  · simp [Leaf.wordClass, Unquantified, isQuantifierStart]
  · have unmarked : Leaf.wordMembers.head? ≠ some '^' := by decide
    have opened := run_opening h unmarked rest
    rw [run_wordMembers h] at opened
    simpa [Leaf.wordClass] using opened

theorem readable_nonWordClass :
    (single Leaf.nonWordClass (.one (wordSet true))).Readable strict := by
  refine readable_single .atom (fun _ => rfl) ?_ fun reading rest h => ?_
  · simp [Leaf.nonWordClass, Unquantified, isQuantifierStart]
  · have opened := run_opening_negated h Leaf.wordMembers rest
    rw [run_wordMembers h] at opened
    simpa [Leaf.nonWordClass] using opened

theorem IsFaulty.plain {source : List Char} (faulty : IsFaulty source) (more : List Char) :
    IsFaulty ('(' :: '?' :: ':' :: (source ++ more)) where
  unquantified := by simp [Unquantified, isQuantifierStart]
  fails reading rest h := by
    obtain ⟨fault, fails⟩ := faulty.fails _ (more ++ rest) (h.enter .plain)
    refine ⟨fault, ?_⟩
    have opened := Reading.run_plain h (source ++ (more ++ rest))
    simpa [fails] using opened

theorem IsFaulty.look {source : List Char} (faulty : IsFaulty source) (side : Direction)
    (negated : Bool) (more : List Char) :
    IsFaulty (lookOpener side negated ++ (source ++ more)) where
  unquantified := by
    cases side <;> cases negated <;> simp [lookOpener, Unquantified, isQuantifierStart]
  fails reading rest h := by
    obtain ⟨fault, fails⟩ := faulty.fails _ (more ++ rest) (h.enter (.look side negated))
    refine ⟨fault, ?_⟩
    rw [List.append_assoc, List.append_assoc, Reading.run_look h, fails]

/-- The text is faulty or it is one term with the property, and it opens no group. -/
def Yields (source : List Char) (holds : Pattern → Prop) : Prop :=
  IsFaulty source ∨
    ∃ term, holds term ∧ term.groups = [] ∧ ∀ {strict}, (single source term).Readable strict

def TakesOne (pattern : Pattern) : Prop := ∃ accepts, pattern.Takes accepts

theorem Yields.of_readable {source : List Char} {term : Pattern} {holds : Pattern → Prop}
    (h : holds term) (ungrouped : term.groups = [])
    (readable : ∀ {strict}, (single source term).Readable strict) : Yields source holds :=
  .inr ⟨term, h, ungrouped, readable⟩

theorem yields_one {source : List Char} {set : CodeSet}
    (readable : ∀ {strict}, (single source (.one set)).Readable strict) :
    Yields source TakesOne := .of_readable ⟨_, takes_one set⟩ rfl readable

theorem yields_class {inside : List Char} (closes : isClassText inside = true) :
    Yields ('[' :: (inside ++ [']'])) TakesOne := by
  rcases readable_class closes with faulty | ⟨set, readable⟩
  · exact .inl faulty
  · exact yields_one readable

def besideNonWord (negated : Bool) (set : CodeSet) : Pattern :=
  if negated then .sequence (.look .forward true (.one set)) (.one (wordSet false))
  else .choice (.one set) (.one (wordSet true))

theorem takes_besideNonWord (negated : Bool) (set : CodeSet) :
    (besideNonWord negated set).Takes fun c =>
      ((set.contains c.toNat || (wordSet true).contains c.toNat) != negated) = true := by
  have complement (code : Nat) : (wordSet true).contains code = !(wordSet false).contains code := by
    simp [CodeSet.contains, wordSet, CodeSet.hasMember]
  have others := takes_one set
  cases negated with
  | false => simpa [besideNonWord] using others.choice (takes_one (wordSet true))
  | true => simpa [besideNonWord, complement] using others.outside (takes_one (wordSet false))

section

variable {negated : Bool} {body : List Char}

theorem IsFaulty.closed (some : body ≠ []) (faulty : IsFaulty ('[' :: (body ++ [']']))) :
    IsFaulty (Leaf.OpenClass.closed ⟨negated, body, true⟩) := by
  cases negated with
  | false =>
    have spelled : Leaf.OpenClass.closed ⟨false, body, true⟩ = '(' :: '?' :: ':' ::
        ('[' :: (body ++ [']']) ++ ('|' :: (Leaf.nonWordClass ++ [')']))) := by
      simp [Leaf.OpenClass.closed]
    rw [spelled]
    exact faulty.plain _
  | true =>
    have spelled : Leaf.OpenClass.closed ⟨true, body, true⟩ = '(' :: '?' :: ':' ::
        (lookOpener .forward true ++ ('[' :: (body ++ [']']) ++ (')' :: Leaf.wordClass)) ++
          [')']) := by
      simp [Leaf.OpenClass.closed, lookOpener]
    rw [spelled]
    exact (faulty.look .forward true _).plain _

theorem readable_closed {set : CodeSet} (some : body ≠ [])
    (readable : ∀ {strict}, (single ('[' :: (body ++ [']'])) (.one set)).Readable strict) :
    (single (Leaf.OpenClass.closed ⟨negated, body, true⟩)
      (besideNonWord negated set)).Readable strict := by
  cases negated with
  | false =>
    have both : (choice [single ('[' :: (body ++ [']'])) (.one set),
        single Leaf.nonWordClass (.one (wordSet true))]).Readable strict :=
      readable_choice (by simp [readable.enclosable, readable_nonWordClass.enclosable])
    simpa [choice, single, branches, Body.pattern, ofTerms, ofBranches, shift, besideNonWord,
      Leaf.OpenClass.closed, some] using both
  | true =>
    have both : (choice [((single ('[' :: (body ++ [']'])) (.one set)).look .forward
        true).append (single Leaf.wordClass (.one (wordSet false)))]).Readable strict :=
      readable_choice (by
        simpa using
          ((readable.enclosable.look .forward true).append readable_wordClass).enclosable)
    simpa [choice, single, branches, Body.pattern, Body.append, Body.look, ofTerms, ofBranches,
      shift, lookOpener, besideNonWord, Leaf.OpenClass.closed, some] using both

end

theorem yields_closed {cls : Leaf.OpenClass} (closes : isClassText cls.body = true) :
    Yields cls.closed TakesOne := by
  obtain ⟨negated, body, nonWord⟩ := cls
  simp only at closes
  cases nonWord with
  | false =>
    cases negated with
    | false => exact yields_class closes
    | true =>
      have marked : isClassText ('^' :: body) = true := by
        rwa [isClassText_cons (by simp [IsPlain])]
      exact yields_class marked
  | true =>
    by_cases alone : body = []
    · subst alone
      cases negated with
      | false => exact yields_one readable_nonWordClass
      | true => exact yields_one readable_wordClass
    · rcases readable_class closes with faulty | ⟨set, readable⟩
      · exact .inl (faulty.closed alone)
      · exact .of_readable ⟨_, takes_besideNonWord negated set⟩ (by cases negated <;> rfl)
          (readable_closed alone readable)

theorem yields_wordTests {source : List Char} (behind ahead behind' ahead' : Bool)
    (spelled : source = ['(', '?', ':'] ++ lookOpener .backward behind ++ Leaf.wordClass ++ [')'] ++
      lookOpener .forward ahead ++ Leaf.wordClass ++ [')', '|'] ++ lookOpener .backward behind' ++
      Leaf.wordClass ++ [')'] ++ lookOpener .forward ahead' ++ Leaf.wordClass ++ [')', ')']) :
    Yields source Senses := by
  let word := single Leaf.wordClass (.one (wordSet false))
  let test side negated : Pattern := .look side negated (.one (wordSet false))
  have tests (behind ahead : Bool) {strict : Prop} :
      ((word.look .backward behind).append (word.look .forward ahead)).Enclosable strict :=
    ((readable_wordClass.enclosable.look .backward behind).append
      (readable_wordClass.enclosable.look .forward ahead)).enclosable
  have senses (behind ahead : Bool) :
      ((test .backward behind).sequence (test .forward ahead)).Senses :=
    (senses_look_one .backward behind _).sequence (senses_look_one .forward ahead _)
  refine .of_readable ((senses behind ahead).choice (senses behind' ahead')) rfl fun {strict} => ?_
  have both : (choice [(word.look .backward behind).append (word.look .forward ahead),
      (word.look .backward behind').append (word.look .forward ahead')]).Readable strict :=
    readable_choice (by simp [tests])
  simpa [spelled, test, word, choice, single, branches, Body.pattern, Body.append, Body.look,
    ofTerms, ofBranches, shift] using both

end Body

end LineGrammar
