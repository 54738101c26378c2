import LineGrammar.Proofs.Pattern.Escapes
import LineGrammar.Proofs.Pattern.Segment

/-! Reading a class. An escape inside a class never reaches beyond the bracket that closes it, so
a class is read the same way wherever it stands: it is the same set each time, or the same text
is at fault each time. -/

namespace LineGrammar.Pattern

def isClassText : List Char → Bool
  | [] => true
  | c :: rest =>
    if c = '\\' then
      match rest with
      | [] => false
      | _ :: more => isClassText more
    else c ≠ ']' && isClassText rest

def IsPlain (c : Char) : Prop := c ≠ '\\' ∧ c ≠ ']'

theorem isClassText_cons {c : Char} (plain : IsPlain c) (rest : List Char) :
    isClassText (c :: rest) = isClassText rest := by
  rw [isClassText.eq_def (c :: rest)]
  simp [plain.1, plain.2]

theorem isClassText_escape (c : Char) (rest : List Char) :
    isClassText ('\\' :: c :: rest) = isClassText rest := by
  rw [isClassText, if_pos rfl]

theorem isClassText_append_of_plain {text : List Char} (plain : ∀ c ∈ text, IsPlain c)
    (rest : List Char) : isClassText (text ++ rest) = isClassText rest := by
  induction text with
  | nil => rfl
  | cons c text ih =>
    rw [List.cons_append, isClassText_cons (plain c List.mem_cons_self)]
    exact ih fun c mem => plain c (List.mem_cons_of_mem _ mem)

theorem isClassText_cases {text : List Char} (h : isClassText text = true) :
    text = [] ∨ (∃ c rest, text = c :: rest ∧ IsPlain c ∧ isClassText rest = true) ∨
      ∃ c rest, text = '\\' :: c :: rest ∧ isClassText rest = true := by
  match text with
  | [] => exact .inl rfl
  | c :: rest =>
    right
    by_cases escapes : c = '\\'
    · subst escapes
      match rest with
      | [] => simp [isClassText] at h
      | e :: more => exact .inr ⟨e, more, rfl, by rwa [isClassText_escape] at h⟩
    · unfold isClassText at h
      rw [if_neg escapes] at h
      simp only [ne_eq, decide_not, Bool.and_eq_true, Bool.not_eq_eq_eq_not, Bool.not_true,
        decide_eq_false_iff_not] at h
      exact .inl ⟨c, rest, rfl, ⟨escapes, h.1⟩, h.2⟩

theorem isClassText_append {first second : List Char} (hfirst : isClassText first = true)
    (hsecond : isClassText second = true) : isClassText (first ++ second) = true := by
  induction h : first.length using Nat.strongRecOn generalizing first with
  | ind size ih =>
    subst h
    rcases isClassText_cases hfirst with rfl | ⟨c, rest, rfl, plain, text⟩ | ⟨c, rest, rfl, text⟩
    · exact hsecond
    · rw [List.cons_append, isClassText_cons plain]
      exact ih rest.length (by simp) text rfl
    · rw [List.cons_append, List.cons_append, isClassText_escape]
      exact ih rest.length (by rw [List.length_cons, List.length_cons]; omega) text rfl

theorem isPlain_of_hexNumber? {digits : List Char} (number : hexNumber? digits ≠ none) :
    ∀ c ∈ digits, IsPlain c := by
  intro c mem
  constructor
  · rintro rfl
    exact number (hexNumber?_eq_none mem (by decide) (by decide))
  · rintro rfl
    exact number (hexNumber?_eq_none mem (by decide) (by decide))

theorem isPlain_of_hexValue? {c : Char} (digit : hexValue? c ≠ none) : IsPlain c := by
  constructor <;> rintro rfl <;> simp [hexValue?] at digit

theorem Operand.isPlain_or_pair {operand : List Char} (belongs : Operand operand) :
    (∀ c ∈ operand, IsPlain c) ∨ ∃ lead trail, operand = lead ++ '\\' :: 'u' :: trail ∧
      (∀ c ∈ lead, IsPlain c) ∧ ∀ c ∈ trail, IsPlain c := by
  cases belongs with
  | nothing => simp
  | two first second => simp [isPlain_of_hexValue? first, isPlain_of_hexValue? second]
  | four number => exact .inl (isPlain_of_hexNumber? number)
  | pair first second =>
    exact .inr ⟨_, _, rfl, isPlain_of_hexNumber? first, isPlain_of_hexNumber? second⟩
  | braced number =>
    left
    simpa [IsPlain, or_imp, forall_and] using isPlain_of_hexNumber? number
  | property known =>
    left
    simp only [List.mem_cons, List.not_mem_nil, or_false] at known
    rcases known with rfl | rfl | rfl <;> simp [IsPlain]

theorem Operand.isClassText_append {operand : List Char} (belongs : Operand operand)
    (rest : List Char) : isClassText (operand ++ rest) = isClassText rest := by
  rcases belongs.isPlain_or_pair with plain | ⟨lead, trail, rfl, first, second⟩
  · exact isClassText_append_of_plain plain rest
  · rw [List.append_assoc, isClassText_append_of_plain first, List.cons_append, List.cons_append,
      isClassText_escape, isClassText_append_of_plain second]

theorem escape_cases (c : Char) {more : List Char} (text : isClassText more = true) :
    (∃ fault, ∀ rest, escape true c (more ++ ']' :: rest) = .error fault) ∨
      ∃ atom count, (∀ rest, escape true c (more ++ ']' :: rest) = .ok (atom, count)) ∧
        count ≤ more.length ∧ isClassText (more.drop count) = true := by
  have same (rest : List Char) : escape true c (more ++ ']' :: rest) = escape true c more :=
    escape_fence (by simp [IsFence]) ..
  cases read : escape true c more with
  | error fault => exact .inl ⟨fault, fun rest => (same rest).trans read⟩
  | ok found =>
    obtain ⟨operand, tail, rfl, length, belongs⟩ := startsWithOperand_of_escape read
    rw [belongs.isClassText_append] at text
    refine .inr ⟨found.1, found.2, fun rest => (same rest).trans read, ?_, ?_⟩
    · rw [← length, List.length_append]
      exact Nat.le_add_right _ _
    · rwa [← length, List.drop_left]

namespace Reading

variable {cls : OpenClass}

def within (reading : Reading) (cls : OpenClass) : Reading :=
  { reading with openClass := some cls }

def finalMembers (cls : OpenClass) : List SetMember :=
  (match cls.pending with
    | .nothing => cls.members
    | .atom first => first.member :: cls.members
    | .dash first => .range 0x2D 0x2D :: first.member :: cls.members).reverse

theorem run_within_close {reading : Reading} (h : reading.AtTerm) (cls : OpenClass)
    (rest : List Char) :
    (reading.within cls).run (']' :: rest) =
      (reading.push (.one ⟨finalMembers cls, cls.negated, false⟩) .atom).run rest := by
  apply run_step 0
  simp only [step, within, stepClass, if_true, closeClass, h.flags, Flags.standard, push,
    Except.ok.injEq, Prod.mk.injEq, and_true]
  rw [← h.openClass]
  rfl

theorem negated_of_add {atom : ClassAtom} {plainDash : Bool} {next : OpenClass}
    (added : OpenClass.add cls atom plainDash = .ok next) : next.negated = cls.negated := by
  unfold OpenClass.add at added
  split at added
  · rw [← Except.ok.inj added]
  · split at added <;> rw [← Except.ok.inj added]
  · split at added
    · split at added
      · simp at added
      · rw [← Except.ok.inj added]
    · simp at added

theorem run_within_plain {c : Char} (plain : IsPlain c) (reading : Reading) (cls : OpenClass)
    (rest : List Char) :
    (reading.within cls).run (c :: rest) =
      (OpenClass.add cls (.point c.toNat) (c = '-')).bind fun cls =>
        (reading.within cls).run rest := by
  cases added : OpenClass.add cls (.point c.toNat) (c = '-') with
  | error fault =>
    apply run_fault
    simp [step, within, stepClass, plain.1, plain.2, added, bind, Except.bind]
  | ok next =>
    have stepped : (reading.within cls).step c rest = .ok (reading.within next, 0) := by
      simp [step, within, stepClass, plain.1, plain.2, added, bind, Except.bind, pure, Except.pure]
    exact run_step 0 stepped

theorem run_within_escape {c : Char} {more : List Char} {atom : ClassAtom} {count : Nat}
    (read : escape true c more = .ok (atom, count)) (reading : Reading) (cls : OpenClass) :
    (reading.within cls).run ('\\' :: c :: more) =
      (OpenClass.add cls atom false).bind fun cls =>
        (reading.within cls).run (more.drop count) := by
  cases added : OpenClass.add cls atom false with
  | error fault =>
    apply run_fault
    simp [step, within, stepClass, read, added, bind, Except.bind]
  | ok next =>
    have stepped : (reading.within cls).step '\\' (c :: more) =
        .ok (reading.within next, count + 1) := by
      simp [step, within, stepClass, read, added, bind, Except.bind, pure, Except.pure]
    exact run_step (count + 1) stepped

theorem run_class {text : List Char} (inside : isClassText text = true) (cls : OpenClass) :
    (∃ fault, ∀ (reading : Reading) rest,
        (reading.within cls).run (text ++ ']' :: rest) = .error fault) ∨
      ∃ members, ∀ (reading : Reading) rest, reading.AtTerm →
        (reading.within cls).run (text ++ ']' :: rest) =
          (reading.push (.one ⟨members, cls.negated, false⟩) .atom).run rest := by
  induction size : text.length using Nat.strongRecOn generalizing text cls with
  | ind size ih =>
    subst size
    rcases isClassText_cases inside with rfl | ⟨c, more, rfl, plain, later⟩ |
      ⟨c, more, rfl, later⟩
    · exact .inr ⟨finalMembers cls, fun reading rest h => run_within_close h cls rest⟩
    · cases added : OpenClass.add cls (.point c.toNat) (c = '-') with
      | error fault =>
        refine .inl ⟨fault, fun reading rest => ?_⟩
        rw [List.cons_append, run_within_plain plain, added]
        rfl
      | ok next =>
        have continues : ∀ (reading : Reading) rest,
            (reading.within cls).run (c :: more ++ ']' :: rest) =
              (reading.within next).run (more ++ ']' :: rest) := by
          intro reading rest
          rw [List.cons_append, run_within_plain plain, added]
          rfl
        simp only [continues, ← negated_of_add added]
        exact ih more.length (by simp) later next rfl
    · rcases escape_cases c later with ⟨fault, fails⟩ | ⟨atom, count, reads, fits, after⟩
      · refine .inl ⟨fault, fun reading rest => ?_⟩
        apply run_fault
        simp [step, within, stepClass, fails, bind, Except.bind]
      · cases added : OpenClass.add cls atom false with
        | error fault =>
          refine .inl ⟨fault, fun reading rest => ?_⟩
          rw [List.cons_append, List.cons_append, run_within_escape (reads rest), added]
          rfl
        | ok next =>
          have continues : ∀ (reading : Reading) rest,
              (reading.within cls).run ('\\' :: c :: more ++ ']' :: rest) =
                (reading.within next).run (more.drop count ++ ']' :: rest) := by
            intro reading rest
            rw [List.cons_append, List.cons_append, run_within_escape (reads rest), added,
              List.drop_append_of_le_length fits]
            rfl
          simp only [continues, ← negated_of_add added]
          exact ih (more.drop count).length (by simp; omega) after next rfl

end Reading

end LineGrammar.Pattern
