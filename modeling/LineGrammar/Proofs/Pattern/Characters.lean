import LineGrammar.Proofs.Pattern.Spans

/-! Patterns of a single character: those that take one out of some set, and those that only look
at the characters next to them. -/

namespace LineGrammar.Pattern

def Takes (accepts : Char → Prop) (pattern : Pattern) : Prop :=
  ∀ (input : Array Char) (i j : Nat),
    pattern.Spans input .forward i j ↔ ∃ c, input[i]? = some c ∧ accepts c ∧ j = i + 1

def Senses (pattern : Pattern) : Prop :=
  ∀ (input other : Array Char) (i j : Nat),
    (∀ side : Direction, side.next? input i = side.next? other i) →
    pattern.Spans input .forward i j → i = j ∧ pattern.Spans other .forward i j

theorem takes_one (set : CodeSet) : (one set).Takes fun c => set.contains c.toNat = true := by
  intro input i j
  simp only [Spans, Direction.next?, Option.map_eq_some_iff, Prod.mk.injEq]
  constructor
  · rintro ⟨c, ⟨d, here, rfl, rfl⟩, inside⟩
    exact ⟨d, here, inside, rfl⟩
  · rintro ⟨c, here, inside, rfl⟩
    exact ⟨c, ⟨c, here, rfl, rfl⟩, inside⟩

theorem senses_boundary (side : Direction) (lines : Bool) : (boundary side lines).Senses := by
  intro input other i j same spans
  obtain ⟨rfl, ends⟩ := spans
  exact ⟨rfl, rfl, by rwa [← same]⟩

theorem senses_look_one (side : Direction) (negated : Bool) (set : CodeSet) :
    (look side negated (one set)).Senses := by
  intro input other i j same spans
  obtain ⟨rfl, found⟩ := spans
  refine ⟨rfl, rfl, ?_⟩
  simpa only [Spans, ← same] using found

section

variable {first second : Pattern} {accepts other : Char → Prop}

theorem Takes.choice (hfirst : first.Takes accepts) (hsecond : second.Takes other) :
    (first.choice second).Takes fun c => accepts c ∨ other c := by
  intro input i j
  rw [Spans, hfirst, hsecond]
  constructor
  · rintro (⟨c, here, accepted, stop⟩ | ⟨c, here, accepted, stop⟩)
    · exact ⟨c, here, .inl accepted, stop⟩
    · exact ⟨c, here, .inr accepted, stop⟩
  · rintro ⟨c, here, accepted | accepted, stop⟩
    · exact .inl ⟨c, here, accepted, stop⟩
    · exact .inr ⟨c, here, accepted, stop⟩

theorem Takes.outside (hfirst : first.Takes accepts) (hsecond : second.Takes other) :
    ((look .forward true first).sequence second).Takes fun c => ¬accepts c ∧ other c := by
  intro input i j
  simp only [Spans, hfirst _ _ _, hsecond _ _ _]
  constructor
  · rintro ⟨k, ⟨rfl, none⟩, c, here, accepted, rfl⟩
    refine ⟨c, here, ⟨fun excluded => ?_, accepted⟩, rfl⟩
    exact none.mp trivial ⟨i + 1, c, here, excluded, rfl⟩
  · rintro ⟨c, here, ⟨excluded, accepted⟩, rfl⟩
    refine ⟨i, ⟨rfl, ⟨fun _ => ?_, fun _ => trivial⟩⟩, c, here, accepted, rfl⟩
    rintro ⟨k, d, there, taken, -⟩
    obtain rfl : c = d := Option.some.inj (here.symm.trans there)
    exact excluded taken

theorem Senses.choice (hfirst : first.Senses) (hsecond : second.Senses) :
    (first.choice second).Senses := by
  intro input other i j same spans
  rcases spans with spans | spans
  · obtain ⟨stays, spans'⟩ := hfirst input other i j same spans
    exact ⟨stays, .inl spans'⟩
  · obtain ⟨stays, spans'⟩ := hsecond input other i j same spans
    exact ⟨stays, .inr spans'⟩

theorem Senses.sequence (hfirst : first.Senses) (hsecond : second.Senses) :
    (first.sequence second).Senses := by
  intro input other i j same spans
  obtain ⟨k, before, after⟩ := spans
  obtain ⟨rfl, before'⟩ := hfirst input other i k same before
  obtain ⟨rfl, after'⟩ := hsecond input other i j same after
  exact ⟨rfl, i, before', after'⟩

end

end LineGrammar.Pattern
