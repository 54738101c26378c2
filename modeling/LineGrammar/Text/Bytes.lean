/-! Byte offsets in text. A position counts the bytes that the characters before it take in
UTF-8; only positions between two characters, the boundaries, can be cut at. Cutting at any
other number answers `none`. A position inside a character is moved to a boundary byte by byte. -/

namespace LineGrammar.Text

def byteLength : List Char → Nat
  | [] => 0
  | c :: rest => c.utf8Size + byteLength rest

@[simp] theorem byteLength_nil : byteLength [] = 0 := rfl

@[simp] theorem byteLength_cons (c : Char) (rest : List Char) :
    byteLength (c :: rest) = c.utf8Size + byteLength rest := rfl

@[simp] theorem byteLength_append (before after : List Char) :
    byteLength (before ++ after) = byteLength before + byteLength after := by
  induction before with
  | nil => simp
  | cons c rest ih => simp [ih, Nat.add_assoc]

/-- The characters before and after the boundary at `position`, if it is one. -/
def cut? : List Char → Nat → Option (List Char × List Char)
  | cs, 0 => some ([], cs)
  | [], _ + 1 => none
  | c :: rest, n + 1 =>
    if c.utf8Size ≤ n + 1 then
      (cut? rest (n + 1 - c.utf8Size)).map fun (before, after) => (c :: before, after)
    else none

theorem append_of_cut? {cs before after : List Char} {position : Nat}
    (h : cut? cs position = some (before, after)) :
    cs = before ++ after ∧ byteLength before = position := by
  induction cs generalizing position before after with
  | nil => cases position <;> simp_all [cut?]
  | cons c rest ih =>
    cases position with
    | zero => simp_all [cut?]
    | succ n =>
      rw [cut?] at h
      split at h
      · obtain ⟨⟨b, a⟩, cut, eq⟩ := Option.map_eq_some_iff.mp h
        obtain ⟨rfl, rfl⟩ := Prod.mk.inj eq
        obtain ⟨split, size⟩ := ih cut
        exact ⟨by simp [split], by simp [size]; omega⟩
      · simp at h

theorem cut?_append (before after : List Char) :
    cut? (before ++ after) (byteLength before) = some (before, after) := by
  induction before with
  | nil => cases after <;> simp [cut?]
  | cons c rest ih =>
    obtain ⟨n, eq⟩ := Nat.exists_eq_succ_of_ne_zero (n := c.utf8Size + byteLength rest)
      (by have := c.utf8Size_pos; omega)
    have rest_eq : n + 1 - c.utf8Size = byteLength rest := by omega
    rw [List.cons_append, byteLength_cons, eq, cut?, if_pos (by omega), rest_eq, ih]
    rfl

def before? (text : String) (position : Nat) : Option String :=
  (cut? text.toList position).map fun (before, _) => String.ofList before

def from? (text : String) (position : Nat) : Option String :=
  (cut? text.toList position).map fun (_, after) => String.ofList after

theorem lt_of_from? {text rest : String} {position : Nat} (behind : from? text position = some rest)
    (some : rest ≠ "") : position < byteLength text.toList := by
  obtain ⟨⟨before, after⟩, cut, eq⟩ := Option.map_eq_some_iff.mp behind
  obtain ⟨split, rfl⟩ := append_of_cut? cut
  cases after with
  | nil => exact absurd eq.symm some
  | cons c later =>
    have := c.utf8Size_pos
    simp only [split, byteLength_append, byteLength_cons]
    omega

def between? (text : String) (start stop : Nat) : Option String :=
  if start ≤ stop then
    (cut? text.toList start).bind fun (_, after) =>
      (cut? after (stop - start)).map fun (inside, _) => String.ofList inside
  else none

/-- The last boundary up to `position`. Positions are unsigned: if byte 0 were no boundary either,
the search would have nowhere to go on. -/
def boundaryUpTo? (text : String) (position : Nat) : Option Nat :=
  if String.Pos.Raw.isValid text ⟨position⟩ then some position
  else
    match position with
    | 0 => none
    | below + 1 => boundaryUpTo? text below

theorem boundaryUpTo?_of_isValid {text : String} {position : Nat}
    (valid : String.Pos.Raw.IsValid text ⟨position⟩) :
    boundaryUpTo? text position = some position := by
  rw [boundaryUpTo?.eq_def, if_pos (String.Pos.Raw.isValid_eq_true_iff.mpr valid)]

theorem boundaryUpTo?_succ {text : String} {below : Nat}
    (inside : ¬String.Pos.Raw.IsValid text ⟨below + 1⟩) :
    boundaryUpTo? text (below + 1) = boundaryUpTo? text below := by
  rw [boundaryUpTo?, if_neg (mt String.Pos.Raw.isValid_eq_true_iff.mp inside)]

theorem isSome_boundaryUpTo? (text : String) (position : Nat) :
    (boundaryUpTo? text position).isSome = true := by
  induction position with
  | zero =>
    have valid : String.Pos.Raw.IsValid text ⟨0⟩ := String.Pos.Raw.isValid_zero
    rw [boundaryUpTo?_of_isValid valid, Option.isSome_some]
  | succ below ih =>
    by_cases valid : String.Pos.Raw.IsValid text ⟨below + 1⟩
    · rw [boundaryUpTo?_of_isValid valid, Option.isSome_some]
    · rwa [boundaryUpTo?_succ valid]

def placesFrom (start : Nat) : List Char → List (Nat × Char)
  | [] => []
  | c :: rest => (start, c) :: placesFrom (start + c.utf8Size) rest

theorem placesFrom_append (start : Nat) (before after : List Char) :
    placesFrom start (before ++ after) =
      placesFrom start before ++ placesFrom (start + byteLength before) after := by
  induction before generalizing start with
  | nil => simp [placesFrom]
  | cons c rest ih => simp [placesFrom, ih, Nat.add_assoc]

def offset? (text : String) (test : Char → Bool) : Option Nat :=
  ((placesFrom 0 text.toList).find? fun (_, c) => test c).map (·.1)

end LineGrammar.Text
