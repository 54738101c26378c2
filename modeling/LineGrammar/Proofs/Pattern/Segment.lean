import LineGrammar.Proofs.Pattern.Numbering
import LineGrammar.Proofs.Pattern.Quantifier

/-! Reading a pattern piece by piece. A piece that stands where a term is expected adds terms to
the branch being read and leaves everything around it alone, so what a text is read as can be
put together from what its pieces are read as. -/

namespace LineGrammar.Pattern

def Agree (strict : Prop) (first second : Except Fault Reading) : Prop :=
  (∀ result, first = .ok result → second = .ok result) ∧ (strict → first = second)

namespace Agree

variable {strict : Prop} {first second third : Except Fault Reading}

theorem of_eq (eq : first = second) : Agree strict first second :=
  ⟨fun _ h => eq ▸ h, fun _ => eq⟩

theorem trans (h : Agree strict first second) (h' : Agree strict second third) :
    Agree strict first third :=
  ⟨fun result eq => h'.1 result (h.1 result eq), fun holds => (h.2 holds).trans (h'.2 holds)⟩

theorem of_error {fault : Fault} (eq : first = .error fault) (lenient : ¬strict) :
    Agree strict first second :=
  ⟨fun result h => by simp [eq] at h, fun holds => absurd holds lenient⟩

end Agree

namespace Reading

structure AtTerm (reading : Reading) : Prop where
  openClass : reading.openClass = none
  flags : reading.flags = .standard

def extend (reading : Reading) (terms : List Pattern) (count : Nat) (last : LastTerm) : Reading :=
  { reading with
    level := { reading.level with terms := terms.reverse ++ reading.level.terms }
    captures := reading.captures + count
    last := last }

theorem AtTerm.extend {reading : Reading} (h : reading.AtTerm) (terms : List Pattern)
    (count : Nat) (last : LastTerm) : (reading.extend terms count last).AtTerm :=
  ⟨h.openClass, h.flags⟩

theorem extend_extend (reading : Reading) (terms more : List Pattern) (count count' : Nat)
    (last last' : LastTerm) :
    (reading.extend terms count last).extend more count' last' =
      reading.extend (terms ++ more) (count + count') last' := by
  simp [extend, Nat.add_assoc]

theorem run_step {reading next : Reading} {c : Char} {rest : List Char} (count : Nat)
    (step : reading.step c rest = .ok (next, count)) :
    reading.run (c :: rest) = next.run (rest.drop count) := by
  rw [run, step]

theorem run_fault {reading : Reading} {c : Char} {rest : List Char} {fault : Fault}
    (step : reading.step c rest = .error fault) :
    reading.run (c :: rest) = .error fault := by
  rw [run, step]

theorem run_bar {reading : Reading} (h : reading.AtTerm) (rest : List Char) :
    reading.run ('|' :: rest) = reading.nextBranch.run rest := by
  apply run_step 0
  simp [step, h.openClass]

end Reading

namespace GroupKind

def opens : GroupKind → Nat
  | .capture _ => 1
  | _ => 0

def asTerm : GroupKind → LastTerm
  | .look _ _ => .assertion
  | _ => .atom

end GroupKind

def lookOpener : Direction → Bool → List Char
  | .forward, false => ['(', '?', '=']
  | .forward, true => ['(', '?', '!']
  | .backward, false => ['(', '?', '<', '=']
  | .backward, true => ['(', '?', '<', '!']

namespace Reading

variable {reading : Reading}

theorem run_plain (h : reading.AtTerm) (rest : List Char) :
    reading.run ('(' :: '?' :: ':' :: rest) = (reading.enter .plain .standard).run rest := by
  apply run_step 2
  simp [step, h.openClass, h.flags, isQuantifierStart, openGroup]

theorem run_look (h : reading.AtTerm) (side : Direction) (negated : Bool) (rest : List Char) :
    reading.run (lookOpener side negated ++ rest) =
      (reading.enter (.look side negated) .standard).run rest := by
  cases side <;> cases negated
  · apply run_step 2
    simp [step, h.openClass, h.flags, isQuantifierStart, openGroup]
  · apply run_step 2
    simp [step, h.openClass, h.flags, isQuantifierStart, openGroup]
  · apply run_step 3
    simp [step, h.openClass, h.flags, isQuantifierStart, openGroup]
  · apply run_step 3
    simp [step, h.openClass, h.flags, isQuantifierStart, openGroup]

theorem run_capture (h : reading.AtTerm) {rest : List Char} (unmarked : rest.head? ≠ some '?') :
    reading.run ('(' :: rest) =
      (reading.enter (.capture (reading.captures + 1)) .standard).run rest := by
  apply run_step 0
  simp [step, h.openClass, h.flags, isQuantifierStart, openGroup, unmarked]

theorem AtTerm.enter (h : reading.AtTerm) (kind : GroupKind) :
    (reading.enter kind .standard).AtTerm :=
  ⟨h.openClass, rfl⟩

theorem captures_enter (kind : GroupKind) (flags : Flags) :
    (reading.enter kind flags).captures = reading.captures + kind.opens := by
  cases kind <;> rfl

theorem run_close {reached : Reading} (kind : GroupKind) {count : Nat} (h : reading.AtTerm)
    (h' : reached.AtTerm) (groups : reached.groups = (reading.enter kind .standard).groups)
    (captures : reached.captures = reading.captures + count) (rest : List Char) :
    reached.run (')' :: rest) =
      (reading.extend [kind.enclose reached.level.body] count kind.asTerm).run rest := by
  have closed : reached.step ')' rest =
      .ok (reading.extend [kind.enclose reached.level.body] count kind.asTerm, 0) := by
    have entered : (reading.enter kind .standard).groups =
        ⟨kind, reading.level, reading.flags⟩ :: reading.groups := rfl
    simp only [step, h'.openClass, if_true, closeGroup, groups, entered, Except.map]
    congr 2
    cases kind <;> simp [extend, push, GroupKind.asTerm, captures, h.openClass]
  exact run_step 0 closed

theorem exists_step_quantified (term : Pattern) (count : Nat) {sign : List Char}
    {repetition : Repetition} (h : reading.AtTerm) (spells : Spells sign repetition)
    {rest : List Char} (unquantified : Unquantified rest) :
    ∃ c more, sign = c :: more ∧ (reading.extend [term] count .atom).step c (more ++ rest) =
      if repetition.isReversed then .error .quantifier
      else .ok (reading.extend [.repeated term repetition] count .nothing, more.length) := by
  obtain ⟨c, more, rfl, start, read⟩ := spells
  have notClosing : c ≠ ')' := by
    rintro rfl
    simp [isQuantifierStart] at start
  have notBar : c ≠ '|' := by
    rintro rfl
    simp [isQuantifierStart] at start
  refine ⟨c, more, rfl, ?_⟩
  simp [step, extend, h.openClass, notClosing, notBar, start, quantify, read rest unquantified]

theorem run_quantified (term : Pattern) (count : Nat) {sign : List Char} {repetition : Repetition}
    (h : reading.AtTerm) (spells : Spells sign repetition)
    (ordered : repetition.isReversed = false) {rest : List Char}
    (unquantified : Unquantified rest) :
    (reading.extend [term] count .atom).run (sign ++ rest) =
      (reading.extend [.repeated term repetition] count .nothing).run rest := by
  obtain ⟨c, more, rfl, stepped⟩ := exists_step_quantified term count h spells unquantified
  rw [ordered, if_neg Bool.false_ne_true] at stepped
  rw [List.cons_append, run_step _ stepped, List.drop_left]

theorem run_reversed (term : Pattern) (count : Nat) {sign : List Char} {repetition : Repetition}
    (h : reading.AtTerm) (spells : Spells sign repetition)
    (reversed : repetition.isReversed = true) {rest : List Char}
    (unquantified : Unquantified rest) :
    (reading.extend [term] count .atom).run (sign ++ rest) = .error .quantifier := by
  obtain ⟨c, more, rfl, stepped⟩ := exists_step_quantified term count h spells unquantified
  rw [reversed, if_pos rfl] at stepped
  exact run_fault stepped

end Reading

end LineGrammar.Pattern
