import LineGrammar.Proofs.Pattern.Spans

/-! Putting patterns together. Terms in a row and branches side by side connect the positions one
expects of them, and the numbers of the groups have no influence on that: a part read after
others is the part itself with its groups numbered higher. -/

namespace LineGrammar.Pattern

def shift (count : Nat) : Pattern → Pattern
  | .empty => .empty
  | .one set => .one set
  | .boundary side lines => .boundary side lines
  | .sequence first second => .sequence (first.shift count) (second.shift count)
  | .choice first second => .choice (first.shift count) (second.shift count)
  | .capture group body => .capture (group + count) (body.shift count)
  | .repeated body repetition => .repeated (body.shift count) repetition
  | .look side negated body => .look side negated (body.shift count)

@[simp] theorem shift_zero (pattern : Pattern) : pattern.shift 0 = pattern := by
  induction pattern <;> simp_all [shift]

@[simp] theorem shift_shift (first second : Nat) (pattern : Pattern) :
    (pattern.shift first).shift second = pattern.shift (first + second) := by
  induction pattern <;> simp_all [shift, Nat.add_assoc]

theorem map_shift_shift (first second : Nat) (patterns : List Pattern) :
    (patterns.map (shift first)).map (shift second) = patterns.map (shift (first + second)) := by
  simp [Function.comp_def]

@[simp] theorem map_shift_zero (patterns : List Pattern) : patterns.map (shift 0) = patterns := by
  induction patterns <;> simp_all

theorem shift_ofTerms (count : Nat) (terms : List Pattern) :
    (ofTerms terms).shift count = ofTerms (terms.map (shift count)) := by
  induction terms with
  | nil => rfl
  | cons term rest ih =>
    cases rest with
    | nil => rfl
    | cons next rest => simpa [ofTerms, shift] using ih

theorem shift_ofBranches (count : Nat) (branches : List Pattern) :
    (ofBranches branches).shift count = ofBranches (branches.map (shift count)) := by
  induction branches with
  | nil => rfl
  | cons branch rest ih =>
    cases rest with
    | nil => rfl
    | cons next rest => simpa [ofBranches, shift] using ih

variable {input : Array Char}

@[simp] theorem spans_shift {count : Nat} {pattern : Pattern} {direction : Direction} {i j : Nat} :
    (pattern.shift count).Spans input direction i j ↔ pattern.Spans input direction i j := by
  induction pattern generalizing direction i j with
  | empty | one set | boundary side lines => rfl
  | sequence first second hfirst hsecond =>
    cases direction <;> simp only [shift, Spans, hfirst, hsecond]
  | choice first second hfirst hsecond => simp only [shift, Spans, hfirst, hsecond]
  | capture group body hbody => simp only [shift, Spans, hbody]
  | repeated body repetition hbody =>
    simp only [shift, Spans]
    exact exists_congr fun further => and_congr_right fun _ => Steps.congr fun i j => hbody
  | look side negated body hbody => simp only [shift, Spans, hbody]

theorem ways_ofTerms_cons (term : Pattern) (rest : List Pattern) :
    (ofTerms (term :: rest)).ways input .forward =
      (term.ways input .forward).sequence ((ofTerms rest).ways input .forward) := by
  cases rest with
  | nil =>
    funext point
    exact (List.flatMap_singleton' _).symm
  | cons next rest => rfl

theorem ways_ofTerms_append (terms others : List Pattern) :
    (ofTerms (terms ++ others)).ways input .forward =
      ((ofTerms terms).ways input .forward).sequence ((ofTerms others).ways input .forward) := by
  induction terms with
  | nil =>
    funext point
    exact (List.flatMap_singleton _ _).symm
  | cons term rest ih =>
    rw [List.cons_append, ways_ofTerms_cons, ways_ofTerms_cons, ih]
    funext point
    exact List.flatMap_assoc.symm

theorem ways_ofBranches {branches : List Pattern} (some : branches ≠ []) (direction : Direction)
    (point : Point) :
    (ofBranches branches).ways input direction point =
      branches.flatMap fun branch => branch.ways input direction point := by
  induction branches with
  | nil => exact absurd rfl some
  | cons branch rest ih =>
    cases rest with
    | nil => simp [ofBranches]
    | cons next rest =>
      rw [List.flatMap_cons, ← ih (List.cons_ne_nil next rest)]
      rfl

theorem spans_ofTerms_cons {term : Pattern} {rest : List Pattern} {i j : Nat} :
    (ofTerms (term :: rest)).Spans input .forward i j ↔
      ∃ k, term.Spans input .forward i k ∧ (ofTerms rest).Spans input .forward k j := by
  cases rest with
  | nil => simp [ofTerms, Spans]
  | cons next rest => rfl

theorem spans_ofTerms_append {first second : List Pattern} {i j : Nat} :
    (ofTerms (first ++ second)).Spans input .forward i j ↔
      ∃ k, (ofTerms first).Spans input .forward i k ∧
        (ofTerms second).Spans input .forward k j := by
  induction first generalizing i with
  | nil => simp [ofTerms, Spans]
  | cons term rest ih =>
    simp only [List.cons_append, spans_ofTerms_cons, ih]
    constructor
    · rintro ⟨k, before, l, between, after⟩
      exact ⟨l, ⟨k, before, between⟩, after⟩
    · rintro ⟨l, ⟨k, before, between⟩, after⟩
      exact ⟨k, before, l, between, after⟩

theorem spans_ofBranches {branches : List Pattern} {i j : Nat} (some : branches ≠ []) :
    (ofBranches branches).Spans input .forward i j ↔
      ∃ branch ∈ branches, branch.Spans input .forward i j := by
  induction branches with
  | nil => exact absurd rfl some
  | cons branch rest ih =>
    cases rest with
    | nil => simp [ofBranches]
    | cons next rest =>
      have later := ih (List.cons_ne_nil next rest)
      rw [List.exists_mem_cons_iff, ← later]
      rfl

end LineGrammar.Pattern
