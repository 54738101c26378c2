import LineGrammar.Proofs.Outcome
import LineGrammar.Proofs.Pattern.Segment

/-! Bodies: pattern text together with what the reader makes of it. Lowering writes text only; a
body also has the terms that the text is read as and the variable of each capture group, so that
a lowered tree can be reasoned about without reading its text again. -/

namespace LineGrammar

open Pattern

/-- Text that stands where terms are expected. `names` are the variables of its groups in the
order of their parentheses; `terms` are numbered as if nothing stood before the text. -/
structure Body where
  source : List Char
  names : List String
  terms : List Pattern

namespace Body

def pattern (body : Body) : Pattern := ofTerms body.terms

def empty : Body := ⟨[], [], []⟩

def append (first second : Body) : Body where
  source := first.source ++ second.source
  names := first.names ++ second.names
  terms := first.terms ++ second.terms.map (shift first.names.length)

def concat : List Body → Body
  | [] => empty
  | body :: rest => body.append (concat rest)

def branches : List Body → List Pattern
  | [] => []
  | body :: rest => body.pattern :: (branches rest).map (shift body.names.length)

def choice (bodies : List Body) : Body where
  source := ['(', '?', ':'] ++ ['|'].intercalate (bodies.map source) ++ [')']
  names := bodies.flatMap names
  terms := [ofBranches (branches bodies)]

def repeated (sign : List Char) (repetition : Repetition) (body : Body) : Body where
  source := ['(', '?', ':'] ++ body.source ++ [')'] ++ sign
  names := body.names
  terms := [.repeated body.pattern repetition]

def capture (name : String) (body : Body) : Body where
  source := '(' :: (body.source ++ [')'])
  names := name :: body.names
  terms := [.capture 1 (body.pattern.shift 1)]

def look (side : Direction) (negated : Bool) (body : Body) : Body where
  source := lookOpener side negated ++ body.source ++ [')']
  names := body.names
  terms := [.look side negated body.pattern]

/-- The text is read as the terms wherever a term may stand, unless a quantifier follows. -/
structure Readable (strict : Prop) (body : Body) : Prop where
  unquantified : Unquantified body.source
  reads : ∀ (reading : Reading) (rest : List Char), reading.AtTerm → Unquantified rest →
    ∃ last, Agree strict (reading.run (body.source ++ rest))
      ((reading.extend (body.terms.map (shift reading.captures)) body.names.length last).run rest)

/-- What follows the text inside of a group: a parenthesis that closes the group, or a bar. Text
that is read on its own is followed by nothing. -/
inductive Fenced : List Char → Prop
  | stop : Fenced []
  | closing (rest : List Char) : Fenced (')' :: rest)
  | bar (rest : List Char) : Fenced ('|' :: rest)

theorem Fenced.unquantified {rest : List Char} (fenced : Fenced rest) : Unquantified rest := by
  cases fenced <;> simp [Unquantified, isQuantifierStart]

/-- The text is read as the terms on its own, and when it fills a branch of a group to its end. -/
structure Enclosable (strict : Prop) (body : Body) : Prop where
  unquantified : Unquantified body.source
  reads : ∀ (reading : Reading) (rest : List Char), reading.AtTerm → Fenced rest →
    ∃ last, Agree strict (reading.run (body.source ++ rest))
      ((reading.extend (body.terms.map (shift reading.captures)) body.names.length last).run rest)

structure Respells (source : List Char) (names : List String) (body : Body) : Prop where
  source : body.source = source
  names : body.names = names
  enclosable : body.Enclosable False

variable {strict : Prop} {body first second : Body}

theorem Readable.enclosable (hbody : body.Readable strict) : body.Enclosable strict where
  unquantified := hbody.unquantified
  reads reading rest h fenced := hbody.reads reading rest h fenced.unquantified

theorem readable_empty : empty.Readable strict where
  unquantified := by simp [empty, Unquantified]
  reads reading rest _ _ := ⟨reading.last, .of_eq (by simp [empty, Reading.extend])⟩

theorem Readable.reads_append (hfirst : first.Readable strict) {rest : List Char}
    (unquantified : Unquantified (second.source ++ rest))
    (reads : ∀ reading : Reading, reading.AtTerm →
      ∃ last, Agree strict (reading.run (second.source ++ rest))
        ((reading.extend (second.terms.map (shift reading.captures)) second.names.length
          last).run rest))
    {reading : Reading} (h : reading.AtTerm) :
    ∃ last, Agree strict (reading.run ((first.append second).source ++ rest))
      ((reading.extend ((first.append second).terms.map (shift reading.captures))
        (first.append second).names.length last).run rest) := by
  obtain ⟨_, before⟩ := hfirst.reads reading (second.source ++ rest) h unquantified
  obtain ⟨last, after⟩ := reads _ (h.extend _ _ _)
  refine ⟨last, ?_⟩
  have both := before.trans after
  rw [Reading.extend_extend] at both
  simpa only [Body.append, List.append_assoc, List.map_append, List.length_append,
    map_shift_shift, Reading.extend, Nat.add_comm first.names.length] using both

theorem Readable.append (hfirst : first.Readable strict) (hsecond : second.Readable strict) :
    (first.append second).Readable strict where
  unquantified := hfirst.unquantified.append hsecond.unquantified
  reads _ rest h unquantified :=
    hfirst.reads_append (hsecond.unquantified.append unquantified)
      (fun reading h => hsecond.reads reading rest h unquantified) h

theorem Readable.append_enclosable (hfirst : first.Readable strict)
    (hsecond : second.Enclosable strict) : (first.append second).Enclosable strict where
  unquantified := hfirst.unquantified.append hsecond.unquantified
  reads _ rest h fenced :=
    hfirst.reads_append (hsecond.unquantified.append fenced.unquantified)
      (fun reading h => hsecond.reads reading rest h fenced) h

theorem finish_start (body : Body) (last : LastTerm) :
    (Reading.start.extend (body.terms.map (shift Reading.start.captures)) body.names.length
      last).finish = .ok body.pattern := by
  simp [Reading.finish, Reading.extend, Reading.start, Level.blank, Level.body, ofBranches,
    Body.pattern]

theorem Enclosable.read (enclosable : body.Enclosable True) {source : String}
    (spelled : source.toList = body.source) : Pattern.read source = .ok body.pattern := by
  obtain ⟨last, agree⟩ := enclosable.reads .start [] ⟨rfl, rfl⟩ .stop
  have run := agree.2 trivial
  rw [List.append_nil, ← spelled, Reading.run] at run
  rw [Pattern.read, run]
  exact finish_start body last

theorem Enclosable.read_eq (enclosable : body.Enclosable strict) {source : String}
    (spelled : source.toList = body.source) {pattern : Pattern}
    (read : Pattern.read source = .ok pattern) : pattern = body.pattern := by
  obtain ⟨last, agree⟩ := enclosable.reads .start [] ⟨rfl, rfl⟩ .stop
  rw [List.append_nil, ← spelled] at agree
  obtain ⟨reached, run, finished⟩ := bind_eq_ok.mp read
  have same := agree.1 reached run
  rw [Reading.run] at same
  obtain rfl := Except.ok.inj same
  exact Except.ok.inj (finished.symm.trans (finish_start body last))

theorem Enclosable.enclosed (hbody : body.Enclosable strict) {reading : Reading}
    (h : reading.AtTerm) (kind : GroupKind) (rest : List Char) :
    Agree strict ((reading.enter kind .standard).run (body.source ++ ')' :: rest))
      ((reading.extend [kind.enclose (body.pattern.shift (reading.captures + kind.opens))]
        (body.names.length + kind.opens) kind.asTerm).run rest) := by
  obtain ⟨last, inside⟩ := hbody.reads (reading.enter kind .standard) (')' :: rest)
    (h.enter kind) (.closing rest)
  refine inside.trans (.of_eq ?_)
  have captures : ((reading.enter kind .standard).extend
      (body.terms.map (shift (reading.enter kind .standard).captures)) body.names.length
      last).captures = reading.captures + (body.names.length + kind.opens) := by
    simp only [Reading.extend, Reading.captures_enter]
    omega
  rw [Reading.run_close kind h ((h.enter kind).extend _ _ _) rfl captures]
  congr 4
  have level : ((reading.enter kind .standard).extend
      (body.terms.map (shift (reading.enter kind .standard).captures)) body.names.length
      last).level.body = ofTerms (body.terms.map (shift (reading.captures + kind.opens))) := by
    simp [Reading.extend, Reading.enter, Level.blank, Level.body, ofBranches,
      ← Reading.captures_enter kind .standard]
  rw [level, Body.pattern, shift_ofTerms]

theorem Enclosable.capture (name : String) (hbody : body.Enclosable strict) :
    (body.capture name).Readable strict where
  unquantified := by simp [Body.capture, Unquantified, isQuantifierStart]
  reads reading rest h _ := by
    refine ⟨.atom, ?_⟩
    have unmarked : (body.source ++ ')' :: rest).head? ≠ some '?' :=
      (hbody.unquantified.append (Fenced.closing rest).unquantified).head?_ne
    have inside := hbody.enclosed h (.capture (reading.captures + 1)) rest
    rw [← Reading.run_capture h unmarked] at inside
    simpa [Body.capture, GroupKind.enclose, GroupKind.opens, GroupKind.asTerm, shift,
      Nat.add_comm 1] using inside

theorem Enclosable.look (side : Direction) (negated : Bool) (hbody : body.Enclosable strict) :
    (body.look side negated).Readable strict where
  unquantified := by
    cases side <;> cases negated <;>
      simp [Body.look, lookOpener, Unquantified, isQuantifierStart]
  reads reading rest h _ := by
    refine ⟨.assertion, ?_⟩
    have inside := hbody.enclosed h (.look side negated) rest
    rw [← Reading.run_look h] at inside
    simpa [Body.look, GroupKind.enclose, GroupKind.opens, GroupKind.asTerm, shift] using inside

theorem Enclosable.repeated {sign : List Char} {repetition : Repetition}
    (hbody : body.Enclosable strict) (spells : Spells sign repetition)
    (ordered : repetition.isReversed = false) :
    (body.repeated sign repetition).Readable strict where
  unquantified := by simp [Body.repeated, Unquantified, isQuantifierStart]
  reads reading rest h unquantified := by
    refine ⟨.nothing, ?_⟩
    have inside := hbody.enclosed h .plain (sign ++ rest)
    rw [← Reading.run_plain h] at inside
    have quantified := Reading.run_quantified (body.pattern.shift reading.captures)
      body.names.length h spells ordered unquantified
    have all := inside.trans (.of_eq quantified)
    simpa [Body.repeated, GroupKind.enclose, GroupKind.opens, GroupKind.asTerm, shift] using all

theorem reads_branches {bodies : List Body} (each : ∀ body ∈ bodies, body.Enclosable strict)
    (some : bodies ≠ []) {reading : Reading} (h : reading.AtTerm)
    (fresh : reading.level.terms = []) (rest : List Char) :
    ∃ reached : Reading,
      Agree strict (reading.run (['|'].intercalate (bodies.map source) ++ ')' :: rest))
        (reached.run (')' :: rest)) ∧
      reached.AtTerm ∧ reached.groups = reading.groups ∧
      reached.captures = reading.captures + (bodies.flatMap names).length ∧
      (ofTerms reached.level.terms.reverse :: reached.level.branches).reverse =
        reading.level.branches.reverse ++ (branches bodies).map (shift reading.captures) := by
  induction bodies generalizing reading with
  | nil => exact absurd rfl some
  | cons body others ih =>
    have first := each body List.mem_cons_self
    cases others with
    | nil =>
      obtain ⟨last, reads⟩ := first.reads reading (')' :: rest) h (.closing rest)
      refine ⟨_, by simpa using reads, h.extend _ _ _, rfl, ?_, ?_⟩
      · simp [Reading.extend]
      · simp [Reading.extend, fresh, branches, Body.pattern, shift_ofTerms]
    | cons next others =>
      obtain ⟨last, reads⟩ := first.reads reading _ h
        (.bar (['|'].intercalate ((next :: others).map source) ++ ')' :: rest))
      rw [Reading.run_bar (h.extend _ _ _)] at reads
      have atNext : (reading.extend (body.terms.map (shift reading.captures)) body.names.length
          last).nextBranch.AtTerm := ⟨h.openClass, h.flags⟩
      obtain ⟨reached, later, atTerm, groups, captures, patterns⟩ :=
        ih (fun body mem => each body (List.mem_cons_of_mem _ mem)) (List.cons_ne_nil _ _) atNext
          rfl
      refine ⟨reached, ?_, atTerm, groups, ?_, ?_⟩
      · simpa [List.intercalate_cons_cons] using reads.trans later
      · rw [captures]
        simp [Reading.nextBranch, Reading.extend, Nat.add_assoc]
      · have numbered : branches (body :: next :: others) =
            body.pattern :: (branches (next :: others)).map (shift body.names.length) := rfl
        rw [patterns, numbered, List.map_cons, map_shift_shift, Body.pattern, shift_ofTerms]
        simp [Reading.nextBranch, Reading.extend, fresh, Nat.add_comm]

theorem readable_choice {bodies : List Body} (each : ∀ body ∈ bodies, body.Enclosable strict) :
    (choice bodies).Readable strict where
  unquantified := by simp [choice, Unquantified, isQuantifierStart]
  reads reading rest h _ := by
    refine ⟨.atom, ?_⟩
    have opened : reading.run ((choice bodies).source ++ rest) =
        (reading.enter .plain .standard).run
          (['|'].intercalate (bodies.map source) ++ ')' :: rest) := by
      simpa [choice] using
        Reading.run_plain h (['|'].intercalate (bodies.map source) ++ ')' :: rest)
    rw [opened]
    cases bodies with
    | nil =>
      have closed := Reading.run_close .plain h (h.enter .plain) rfl
        (Reading.captures_enter .plain .standard) rest
      exact .of_eq closed
    | cons body others =>
      obtain ⟨reached, reads, atTerm, groups, captures, patterns⟩ :=
        reads_branches each (List.cons_ne_nil _ _) (h.enter .plain) rfl rest
      refine reads.trans (.of_eq ?_)
      rw [Reading.run_close .plain h atTerm groups captures]
      have level : reached.level.body =
          (ofBranches (branches (body :: others))).shift reading.captures := by
        rw [shift_ofBranches]
        exact congrArg ofBranches patterns
      rw [level]
      rfl

end Body

end LineGrammar
