import LineGrammar.Proofs.Expression.Parsed
import LineGrammar.Proofs.Grammar.BodyScopes
import LineGrammar.Proofs.Grammar.Enclosures
import LineGrammar.Proofs.Grammar.Faults
import LineGrammar.Proofs.Pattern.Escapes

/-! Escapes that are spread over leaves. The beginning of a numeric escape is a leaf of its own, and
so is every digit behind it; where their texts stand side by side, the reader makes one term of
them. Text that is put together from such pieces is still read in one way wherever it fills a
branch of a group, or it is at fault wherever it does. If it is read, each of its groups encloses
what the text in the group is read as on its own. -/

namespace LineGrammar

namespace Body

open Pattern

def IsApart (source : List Char) : Prop :=
  ∃ c more, source = c :: more ∧ hexValue? c = none ∧ c ∉ ['+', '{'] ∧
    (c = '\\' → ∃ e rest, more = e :: rest ∧ e ≠ 'u')

/-- The body is read wherever a term may stand, and its groups enclose texts of their variables; or
it is at fault wherever it stands. -/
structure Settled (about : String → List Char → Prop) (body : Body) : Prop where
  unquantified : Unquantified body.source
  orderly : body.Orderly
  reads : Fails Unquantified body.source ∨ body.Readable True ∧ body.Encloses about

/-- Text with the variables of its groups and how many lie in each of them, put together from
digits, beginnings of numeric escapes, and bodies that are read on their own. -/
inductive Pieced (about : String → List Char → Prop) :
    List Char → List String → List Nat → Prop
  | nothing : Pieced about [] [] []
  | digit {c : Char} {rest : List Char} {names : List String} {scopes : List Nat}
    (digit : hexValue? c ≠ none) (later : Pieced about rest names scopes) :
    Pieced about (c :: rest) names scopes
  | escape {c : Char} {rest : List Char} {names : List String} {scopes : List Nat}
    (numeric : c = 'x' ∨ c = 'u' ∨ c = '0') (later : Pieced about rest names scopes) :
    Pieced about ('\\' :: c :: rest) names scopes
  | complete {body : Body} {rest : List Char} {names : List String} {scopes : List Nat}
    (settled : body.Settled about) (apart : IsApart body.source)
    (later : Pieced about rest names scopes) :
    Pieced about (body.source ++ rest) (body.names ++ names) (body.scopes ++ scopes)

structure Rereads (about : String → List Char → Prop) (source : List Char) (names : List String)
    (scopes : List Nat) (body : Body) : Prop where
  source : body.source = source
  names : body.names = names
  scopes : body.scopes = scopes
  unquantified : Unquantified body.source
  orderly : body.Orderly
  reads : Fails Fenced body.source ∨ body.Enclosable True ∧ body.Encloses about

variable {about : String → List Char → Prop} {c : Char} {source rest digits : List Char}
  {names : List String} {scopes : List Nat}

theorem isApart_of_head? (first : source.head? = some c) (other : hexValue? c = none)
    (sign : c ∉ ['+', '{', '\\']) : IsApart source := by
  obtain ⟨rest, rfl⟩ := List.head?_eq_some_iff.mp first
  simp only [List.mem_cons, List.not_mem_nil, or_false, not_or] at sign
  exact ⟨c, rest, rfl, other, by simp [sign], fun backslash => absurd backslash sign.2.2⟩

theorem isApart_of_bracket (opens : c ∈ ['(', '[']) (first : source.head? = some c) :
    IsApart source := by
  simp only [List.mem_cons, List.not_mem_nil, or_false] at opens
  rcases opens with rfl | rfl <;> exact isApart_of_head? first (by decide) (by decide)

theorem isApart_group (rest : List Char) : IsApart ('(' :: rest) :=
  isApart_of_bracket (by simp) rfl

theorem isApart_escape (other : c ≠ 'u') (rest : List Char) : IsApart ('\\' :: c :: rest) :=
  ⟨'\\', c :: rest, rfl, by decide, by decide, fun _ => ⟨c, rest, rfl, other⟩⟩

theorem IsApart.append (apart : IsApart source) (rest : List Char) : IsApart (source ++ rest) := by
  obtain ⟨c, more, rfl, other, sign, escapes⟩ := apart
  refine ⟨c, more ++ rest, rfl, other, sign, fun backslash => ?_⟩
  obtain ⟨e, tail, rfl, notUnicode⟩ := escapes backslash
  exact ⟨e, tail ++ rest, rfl, notUnicode⟩

theorem Pieced.append {others : List String} {scopes' : List Nat}
    (pieced : Pieced about source names scopes) (pieced' : Pieced about rest others scopes') :
    Pieced about (source ++ rest) (names ++ others) (scopes ++ scopes') := by
  induction pieced with
  | nothing => exact pieced'
  | digit digit _ ih => exact ih.digit digit
  | escape numeric _ ih => exact ih.escape numeric
  | complete settled apart _ ih =>
    rw [List.append_assoc, List.append_assoc, List.append_assoc]
    exact ih.complete settled apart

theorem Settled.imp {told : String → List Char → Prop} {body : Body} (settled : body.Settled about)
    (weaken : ∀ name inside, about name inside → told name inside) : body.Settled told where
  unquantified := settled.unquantified
  orderly := settled.orderly
  reads := settled.reads.imp_right fun ⟨readable, encloses⟩ => ⟨readable, encloses.imp weaken⟩

theorem Pieced.imp {told : String → List Char → Prop} (pieced : Pieced about source names scopes)
    (weaken : ∀ name inside, about name inside → told name inside) :
    Pieced told source names scopes := by
  induction pieced with
  | nothing => exact .nothing
  | digit digit _ ih => exact ih.digit digit
  | escape numeric _ ih => exact ih.escape numeric
  | complete settled apart _ ih => exact ih.complete (settled.imp weaken) apart

theorem Pieced.cases_cons (pieced : Pieced about (c :: rest) names scopes) :
    (hexValue? c ≠ none ∧ Pieced about rest names scopes) ∨
      (c = '\\' ∧ ∃ e tail, rest = e :: tail ∧ Pieced about tail names scopes) ∨
      IsApart (c :: rest) := by
  generalize spelled : c :: rest = text at pieced
  cases pieced with
  | nothing => simp at spelled
  | digit digit later =>
    obtain ⟨rfl, rfl⟩ := List.cons.inj spelled
    exact .inl ⟨digit, later⟩
  | escape numeric later =>
    obtain ⟨rfl, rfl⟩ := List.cons.inj spelled
    exact .inr (.inl ⟨rfl, _, _, rfl, later⟩)
  | complete settled apart later => exact .inr (.inr (apart.append _))

theorem Pieced.of_digit (pieced : Pieced about (c :: rest) names scopes)
    (digit : hexValue? c ≠ none) : Pieced about rest names scopes := by
  rcases pieced.cases_cons with ⟨-, later⟩ | ⟨rfl, -⟩ | ⟨_, _, spelled, other, -⟩
  · exact later
  · simp [hexValue?] at digit
  · obtain ⟨rfl, -⟩ := List.cons.inj spelled
    exact absurd other digit

theorem Pieced.of_unicode (pieced : Pieced about ('\\' :: 'u' :: rest) names scopes) :
    Pieced about rest names scopes := by
  rcases pieced.cases_cons with ⟨digit, -⟩ | ⟨-, e, tail, spelled, later⟩ |
    ⟨_, _, spelled, -, -, escapes⟩
  · simp [hexValue?] at digit
  · obtain ⟨-, rfl⟩ := List.cons.inj spelled
    exact later
  · obtain ⟨rfl, rfl⟩ := List.cons.inj spelled
    obtain ⟨e, tail, spelled, other⟩ := escapes rfl
    exact absurd (List.cons.inj spelled).1.symm other

theorem not_pieced (sign : c ∈ ['+', '{']) : ¬Pieced about (c :: rest) names scopes := by
  intro pieced
  rcases pieced.cases_cons with ⟨digit, -⟩ | ⟨rfl, -⟩ | ⟨_, _, spelled, -, other, -⟩
  · simp only [List.mem_cons, List.not_mem_nil, or_false] at sign
    rcases sign with rfl | rfl <;> simp [hexValue?] at digit
  · simp at sign
  · obtain ⟨rfl, -⟩ := List.cons.inj spelled
    exact other sign

theorem Pieced.of_hexNumber? (pieced : Pieced about (digits ++ rest) names scopes)
    (number : hexNumber? digits ≠ none) : Pieced about rest names scopes := by
  -- Instead of a digit there may be a sign, but no piece begins with one.
  have each : ∀ c ∈ digits, hexValue? c ≠ none ∨ c ∈ ['+', '{'] := by
    intro c mem
    by_contra other
    simp only [ne_eq, List.mem_cons, List.not_mem_nil, or_false, not_or, not_not] at other
    exact number (hexNumber?_eq_none mem other.1 other.2.1)
  clear number
  induction digits with
  | nil => exact pieced
  | cons c digits ih =>
    obtain ⟨first, others⟩ := List.forall_mem_cons.mp each
    rcases first with digit | sign
    · exact ih (pieced.of_digit digit) others
    · exact absurd pieced (not_pieced sign)

theorem Pieced.of_operand {operand : List Char}
    (pieced : Pieced about (operand ++ rest) names scopes) (belongs : Operand operand) :
    Pieced about rest names scopes := by
  cases belongs with
  | nothing => exact pieced
  | two first second => exact (pieced.of_digit first).of_digit second
  | four number => exact pieced.of_hexNumber? number
  | pair first second =>
    rw [List.append_assoc] at pieced
    exact (pieced.of_hexNumber? first).of_unicode.of_hexNumber? second
  | braced _ | property _ => exact absurd pieced (not_pieced (by simp))

variable {strict : Prop} {body : Body}

theorem Fenced.escape_append (fenced : Fenced rest) (c : Char) (more : List Char) :
    Pattern.escape false c (more ++ rest) = Pattern.escape false c more := by
  cases fenced with
  | stop => rw [List.append_nil]
  | closing after => exact escape_fence (by simp [IsFence]) false c more after
  | bar after => exact escape_fence (by simp [IsFence]) false c more after

theorem run_escaped {operand : List Char} {atom : ClassAtom}
    (read : Pattern.escape false c (operand ++ body.source) = .ok (atom, operand.length))
    {reading : Reading} (h : reading.AtTerm) (fenced : Fenced rest) :
    reading.run (((single ('\\' :: c :: operand) (.one (atomSet atom))).append body).source ++
        rest) =
      (reading.extend [.one (atomSet atom)] 0 .atom).run (body.source ++ rest) := by
  have first := run_escape h ((fenced.escape_append c _).trans read)
  rw [List.append_assoc, List.drop_left] at first
  simpa [Body.append, single, Reading.extend, Reading.push] using first

theorem Enclosable.escape {operand : List Char} {atom : ClassAtom}
    (read : Pattern.escape false c (operand ++ body.source) = .ok (atom, operand.length))
    (enclosable : body.Enclosable strict) :
    ((single ('\\' :: c :: operand) (.one (atomSet atom))).append body).Enclosable strict where
  unquantified := by simp [Body.append, single, Unquantified, isQuantifierStart]
  reads reading rest h fenced := by
    obtain ⟨last, reads⟩ := enclosable.reads (reading.extend [.one (atomSet atom)] 0 .atom) rest
      (h.extend _ _ _) fenced
    refine ⟨last, ?_⟩
    have both := (Agree.of_eq (run_escaped read h fenced)).trans reads
    rw [Reading.extend_extend] at both
    simpa [Body.append, single, shift, Reading.extend] using both

theorem Fails.escape {operand : List Char} {atom : ClassAtom}
    (read : Pattern.escape false c (operand ++ body.source) = .ok (atom, operand.length))
    (fails : Fails Fenced body.source) :
    Fails Fenced ((single ('\\' :: c :: operand) (.one (atomSet atom))).append body).source := by
  intro reading rest h fenced
  rw [run_escaped read h fenced]
  exact fails _ rest (h.extend _ _ _) fenced

theorem fails_of_fault {fault : Fault} {more : List Char}
    (read : Pattern.escape false c more = .error fault) : Fails Fenced ('\\' :: c :: more) := by
  intro reading rest h fenced
  have fails : reading.step '\\' (c :: (more ++ rest)) = .error fault := by
    simp [Reading.step, h.openClass, isQuantifierStart, fenced.escape_append, read, bind,
      Except.bind]
  exact ⟨fault, Reading.run_fault fails⟩

theorem not_mem_specialChars (digit : hexValue? c ≠ none) : c ∉ specialChars := by
  intro mem
  simp only [specialChars, List.mem_cons, List.not_mem_nil, or_false] at mem
  rcases mem with rfl | rfl | rfl | rfl | rfl | rfl | rfl | rfl | rfl | rfl | rfl | rfl | rfl |
    rfl <;> simp [hexValue?] at digit

theorem orderly_single (set : CodeSet) : (single source (.one set)).Orderly :=
  orderly_of_groups_eq_nil rfl rfl

theorem Rereads.toRespells (rereads : Rereads about source names scopes body) :
    Respells source names body where
  source := rereads.source
  names := rereads.names
  enclosable := by
    rcases rereads.reads with fails | ⟨enclosable, -⟩
    · exact fails.enclosable rereads.unquantified
    · exact enclosable.lenient

theorem Rereads.behind {first : Body} (rereads : Rereads about rest names scopes body)
    (settled : first.Settled about) :
    Rereads about (first.source ++ rest) (first.names ++ names) (first.scopes ++ scopes)
      (first.append body) where
  source := congrArg (first.source ++ ·) rereads.source
  names := congrArg (first.names ++ ·) rereads.names
  scopes := by rw [scopes_append, rereads.scopes]
  unquantified := settled.unquantified.append rereads.unquantified
  orderly := hereditary_orderly.append settled.orderly rereads.orderly
  reads := by
    rcases settled.reads with fails | ⟨readable, encloses⟩
    · exact .inl (fails.append rereads.unquantified)
    · rcases rereads.reads with fails | ⟨enclosable, encloses'⟩
      · exact .inl (fails.behind readable rereads.unquantified)
      · exact .inr ⟨readable.append_enclosable enclosable, encloses.append encloses'⟩

theorem settled_single {term : Pattern} (ungrouped : term.groups = [])
    (readable : (single source term).Readable True) : (single source term).Settled about where
  unquantified := readable.unquantified
  orderly := orderly_of_groups_eq_nil ungrouped rfl
  reads := .inr ⟨readable, encloses_of_groups_eq_nil ungrouped rfl⟩

theorem Pieced.exists_rereads (pieced : Pieced about source names scopes) :
    ∃ body, Rereads about source names scopes body := by
  -- An escape may take several pieces at once, so the induction is on the length of the text.
  induction size : source.length using Nat.strongRecOn generalizing source names scopes with
  | ind size ih =>
    subst size
    cases pieced with
    | nothing =>
      exact ⟨.empty, rfl, rfl, rfl, by simp [Body.empty, Unquantified], hereditary_orderly.empty,
        .inr ⟨readable_empty.enclosable, .nil⟩⟩
    | digit digit later =>
      obtain ⟨other, rereads⟩ := ih _ (by simp) later rfl
      exact ⟨_, rereads.behind (settled_single rfl (readable_char (not_mem_specialChars digit)))⟩
    | @escape c more _ _ numeric later =>
      cases read : Pattern.escape false c more with
      | error fault =>
        obtain ⟨other, rereads⟩ := ih _ (by simp) later rfl
        exact ⟨⟨_, other.names, other.terms⟩, rfl, rereads.names, rereads.scopes,
          by simp [Unquantified, isQuantifierStart],
          ⟨rereads.orderly.numbered, rereads.orderly.quiet⟩, .inl (fails_of_fault read)⟩
      | ok found =>
        obtain ⟨operand, tail, rfl, length, belongs⟩ := startsWithOperand_of_escape read
        obtain ⟨other, rereads⟩ := ih _ (by simp; omega) (later.of_operand belongs) rfl
        obtain ⟨atom, count⟩ := found
        obtain rfl : operand.length = count := length
        rw [← rereads.source] at read
        refine ⟨(single ('\\' :: c :: operand) (.one (atomSet atom))).append other,
          by simp [Body.append, single, rereads.source], rereads.names,
          scopes_append.trans rereads.scopes, by simp [Body.append, single, Unquantified,
            isQuantifierStart],
          hereditary_orderly.append (orderly_single _) rereads.orderly, ?_⟩
        rcases rereads.reads with fails | ⟨enclosable, encloses⟩
        · exact .inl (fails.escape read)
        · exact .inr ⟨enclosable.escape read,
            (encloses_of_groups_eq_nil rfl rfl : (single _ _).Encloses about).append encloses⟩
    | complete settled apart later =>
      obtain ⟨c, more, spelled, -⟩ := apart
      obtain ⟨other, rereads⟩ := ih _ (by simp [spelled]) later rfl
      exact ⟨_, rereads.behind settled⟩

def IsPieced (about : String → List Char → Prop) (body : Body) : Prop :=
  Pieced about body.source body.names body.scopes

theorem isPieced_of_settled {other : Body} (settled : other.Settled about)
    (apart : IsApart body.source) (source : other.source = body.source)
    (names : other.names = body.names) (scopes : other.scopes = body.scopes) :
    body.IsPieced about := by
  have alone := Pieced.nothing.complete settled (source ▸ apart)
  rwa [List.append_nil, List.append_nil, List.append_nil, source, names, scopes] at alone

theorem exists_reread {bodies : List Body} (each : ∀ body ∈ bodies, body.IsPieced about) :
    ∃ others, List.Forall₂ (fun body => Rereads about body.source body.names body.scopes) bodies
      others := by
  induction bodies with
  | nil => exact ⟨[], .nil⟩
  | cons body rest ih =>
    obtain ⟨first, later⟩ := List.forall_mem_cons.mp each
    obtain ⟨other, rereads⟩ := first.exists_rereads
    obtain ⟨others, reread⟩ := ih later
    exact ⟨other :: others, .cons rereads reread⟩

theorem eq_of_reread {bodies others : List Body}
    (reread : List.Forall₂ (fun body => Rereads about body.source body.names body.scopes) bodies
      others) :
    others.map Body.source = bodies.map Body.source ∧
      others.flatMap Body.names = bodies.flatMap Body.names ∧
      others.flatMap Body.scopes = bodies.flatMap Body.scopes ∧
      ∀ other ∈ others, other.Orderly ∧
        (Fails Fenced other.source ∨ other.Enclosable True ∧ other.Encloses about) := by
  induction reread with
  | nil => simp
  | cons rereads _ ih =>
    obtain ⟨sources, names, scopes, each⟩ := ih
    refine ⟨?_, ?_, ?_, List.forall_mem_cons.mpr ⟨⟨rereads.orderly, rereads.reads⟩, each⟩⟩
    · rw [List.map_cons, List.map_cons, rereads.source, sources]
    · rw [List.flatMap_cons, List.flatMap_cons, rereads.names, names]
    · rw [List.flatMap_cons, List.flatMap_cons, rereads.scopes, scopes]

theorem settled_choice {bodies : List Body} (each : ∀ body ∈ bodies, body.Orderly ∧
    (Fails Fenced body.source ∨ body.Enclosable True ∧ body.Encloses about)) :
    (choice bodies).Settled about where
  unquantified := by simp [choice, Unquantified, isQuantifierStart]
  orderly := hereditary_orderly.choice fun body mem => (each body mem).1
  reads := by
    by_cases fault : ∃ body ∈ bodies, Fails Fenced body.source
    · exact .inl (fails_choice (fun body mem => (each body mem).2.imp_right And.left) fault)
    · have reads : ∀ body ∈ bodies, body.Enclosable True ∧ body.Encloses about :=
        fun body mem => (each body mem).2.resolve_left fun fails => fault ⟨body, mem, fails⟩
      exact .inr ⟨readable_choice fun body mem => (reads body mem).1,
        .choice fun body mem => (reads body mem).2⟩

theorem joins_pieced : Joins (IsPieced about) where
  empty := .nothing
  append hfirst hsecond := by
    rw [IsPieced, scopes_append]
    exact Pieced.append hfirst hsecond
  choice each := by
    obtain ⟨others, reread⟩ := exists_reread each
    obtain ⟨sources, names, scopes, each⟩ := eq_of_reread reread
    exact isPieced_of_settled (settled_choice each) (isApart_group _)
      (by rw [choice, choice, sources]) names (by rw [scopes_choice, scopes_choice, scopes])

theorem IsPieced.capture {name : String} (pieced : body.IsPieced about)
    (told : about name body.source) : (body.capture name).IsPieced about := by
  obtain ⟨other, rereads⟩ := pieced.exists_rereads
  have settled : (other.capture name).Settled about := {
    unquantified := by simp [Body.capture, Unquantified, isQuantifierStart]
    orderly := hereditary_orderly.capture name rereads.orderly
    reads := by
      rcases rereads.reads with fails | ⟨enclosable, encloses⟩
      · exact .inl (fails.capture rereads.unquantified name)
      · exact .inr ⟨enclosable.capture name, encloses.capture (rereads.source ▸ told)
          (enclosable.read (String.toList_ofList))⟩ }
  exact isPieced_of_settled settled (isApart_group _)
    (by rw [Body.capture, Body.capture, rereads.source])
    (by rw [Body.capture, Body.capture, rereads.names])
    (by rw [scopes_capture, scopes_capture, rereads.scopes])

theorem IsPieced.repeated {sign : List Char} {repetition : Repetition}
    (pieced : body.IsPieced about) (spells : Spells sign repetition) (written : Repetition) :
    (body.repeated sign written).IsPieced about := by
  obtain ⟨other, rereads⟩ := pieced.exists_rereads
  have settled : (other.repeated sign repetition).Settled about := {
    unquantified := by simp [Body.repeated, Unquantified, isQuantifierStart]
    orderly := ⟨rereads.orderly.numbered, rereads.orderly.quiet⟩
    reads := by
      rcases rereads.reads with fails | ⟨enclosable, encloses⟩
      · exact .inl (fails.repeated sign repetition)
      · cases reversed : repetition.isReversed with
        | true => exact .inl (fails_reversed enclosable spells reversed)
        | false => exact .inr ⟨enclosable.repeated spells reversed, encloses⟩ }
  exact isPieced_of_settled settled (isApart_group _)
    (by rw [Body.repeated, Body.repeated, rereads.source]) rereads.names rereads.scopes

theorem IsPieced.look (pieced : body.IsPieced about) :
    (body.look .forward true).IsPieced about := by
  obtain ⟨other, rereads⟩ := pieced.exists_rereads
  have settled : (other.look .forward true).Settled about := {
    unquantified := by simp [Body.look, lookOpener, Unquantified, isQuantifierStart]
    orderly := rereads.orderly.look
    reads := by
      rcases rereads.reads with fails | ⟨enclosable, encloses⟩
      · exact .inl (fails.look .forward true)
      · exact .inr ⟨enclosable.look .forward true, encloses⟩ }
  exact isPieced_of_settled settled (isApart_group _)
    (by rw [Body.look, Body.look, rereads.source]) rereads.names rereads.scopes

theorem hereditary_pieced : Hereditary (IsPieced fun _ _ => True) where
  toJoins := joins_pieced
  capture _ _ pieced := pieced.capture trivial
  repeated spells _ pieced := pieced.repeated spells _

theorem head?_wordBoundary : Leaf.wordBoundary.head? = some '(' := by
  unfold Leaf.wordBoundary
  generalize Leaf.wordClass = word
  simp

theorem head?_notWordBoundary : Leaf.notWordBoundary.head? = some '(' := by
  unfold Leaf.notWordBoundary
  generalize Leaf.wordClass = word
  simp

theorem isApart_closed (cls : Leaf.OpenClass) : IsApart cls.closed := by
  obtain ⟨negated, body, nonWord⟩ := cls
  have opens : ∃ c ∈ ['(', '['],
      (Leaf.OpenClass.closed ⟨negated, body, nonWord⟩).head? = some c := by
    cases nonWord <;> cases negated <;> cases body <;>
      simp [Leaf.OpenClass.closed, Leaf.OpenClass.opening, Leaf.wordClass, Leaf.nonWordClass]
  obtain ⟨c, bracket, first⟩ := opens
  exact isApart_of_bracket bracket first

theorem cases_escaped {count : Nat} (escaped : Leaf.Escaped false [] c source count) :
    ((c = 'x' ∨ c = 'u' ∨ c = '0') ∧ source = ['\\', c]) ∨
      (¬(c = 'x' ∨ c = 'u' ∨ c = '0') ∧ IsApart source) := by
  cases escaped with
  | wordMembers inside | backspace inside => simp at inside
  | word _ | nonWord => exact .inr ⟨by decide, isApart_of_bracket (by simp) rfl⟩
  | digit =>
    refine .inr ⟨by decide, ?_⟩
    simpa using isApart_escape (c := 'p') (by decide) ['{', 'N', 'd', '}']
  | notDigit =>
    refine .inr ⟨by decide, ?_⟩
    simpa using isApart_escape (c := 'P') (by decide) ['{', 'N', 'd', '}']
  | bell =>
    refine .inr ⟨by decide, ?_⟩
    simpa using isApart_escape (c := 'x') (by decide) ['0', '7']
  | boundary _ =>
    exact .inr ⟨by decide, isApart_of_bracket (by simp) head?_wordBoundary⟩
  | notBoundary _ =>
    exact .inr ⟨by decide, isApart_of_bracket (by simp) head?_notWordBoundary⟩
  | start _ | stop _ => exact .inr ⟨by decide, isApart_of_head? rfl (by decide) (by decide)⟩
  | null => exact .inl ⟨by simp, rfl⟩
  | shared mem =>
    by_cases numeric : c = 'x' ∨ c = 'u' ∨ c = '0'
    · exact .inl ⟨numeric, rfl⟩
    · exact .inr ⟨numeric, isApart_escape (fun unicode => numeric (.inr (.inl unicode))) _⟩
  | long enough _ => simp at enough
  | special mem =>
    have sign : c ∈ Leaf.patternChars := by simpa using mem
    have other : ¬(c = 'x' ∨ c = 'u' ∨ c = '0') := by
      rintro (rfl | rfl | rfl) <;> simp [Leaf.patternChars] at sign
    exact .inr ⟨other, isApart_escape (fun unicode => other (.inr (.inl unicode))) _⟩
  | itself sign free _ =>
    refine .inr ⟨?_, isApart_of_head? rfl (hexValue?_of_sign sign) ?_⟩
    · rintro (rfl | rfl | rfl) <;> simp [Char.isAlphanum, Char.isAlpha, Char.isDigit] at sign
    · simp_all [Leaf.patternChars]

theorem Yields.exists_settled {holds : Pattern → Prop} (yields : Yields source holds) :
    ∃ term : Pattern, term.groups = [] ∧ (single source term).Settled about := by
  rcases yields with faulty | ⟨term, -, ungrouped, readable⟩
  · exact ⟨.empty, rfl, faulty.unquantified, orderly_of_groups_eq_nil rfl rfl,
      .inl fun reading rest h _ => faulty.fails reading rest h⟩
  · exact ⟨term, ungrouped, settled_single ungrouped readable⟩

theorem isPieced_ofLeaf {text : String} (isToken : Leaf.IsToken text) :
    (ofLeaf text).IsPieced about := by
  obtain ⟨_, _, _, _, _, _, _, native, lowered⟩ := id isToken
  have shape := Leaf.native_of_isToken isToken lowered
  rw [IsPieced, source_ofLeaf lowered, names_ofLeaf, scopes_eq_nil (groups_ofLeaf isToken)]
  have complete (other : text.toList ∉ [['\\', 'x'], ['\\', 'u'], ['\\', '0']])
      (apart : IsApart native.toList) : Pieced about native.toList [] [] := by
    have notBare : ¬Leaf.IsBareEscape text := by
      rintro (rfl | rfl) <;> simp at other
    have notNull : ¬Leaf.IsNull text := by
      rintro rfl
      simp at other
    obtain ⟨term, ungrouped, settled⟩ :=
      (Leaf.yields_native isToken notBare notNull lowered).exists_settled
    have unscoped : (single native.toList term).scopes = [] := scopes_eq_nil ungrouped
    have alone := Pieced.nothing.complete settled apart
    rwa [List.append_nil, List.append_nil, List.append_nil, unscoped] at alone
  generalize text.toList = cs at shape complete
  generalize native.toList = source at shape complete
  cases shape with
  | bracket mem =>
    simp only [List.mem_cons, List.not_mem_nil, or_false] at mem
    refine complete (by simp) (isApart_escape ?_ _)
    rcases mem with rfl | rfl | rfl <;> decide
  | @plain c free other =>
    by_cases digit : hexValue? c = none
    · refine complete (by simp) (isApart_of_head? rfl digit ?_)
      simp_all [Token.roleChars]
    · exact .digit digit .nothing
  | escape escaped =>
    rcases cases_escaped escaped with ⟨numeric, rfl⟩ | ⟨other, apart⟩
    · exact .escape numeric .nothing
    · exact complete (by simpa using other) apart
  | charClass body => exact complete (by simp) (isApart_closed _)

end Body

end LineGrammar
