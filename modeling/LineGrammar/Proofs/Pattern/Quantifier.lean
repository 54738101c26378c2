import LineGrammar.Grammar.Lowering
import LineGrammar.Pattern.Reading
import Mathlib

/-! The quantifiers that lowering writes are read back as the repetitions they were written for.
Counts are decimal numbers; the reader has a largest count, so bounds are read back exactly only up
to that one, and greater ones as that one. -/

namespace LineGrammar

namespace Pattern

def Unquantified (text : List Char) : Prop := ∀ c ∈ text.head?, isQuantifierStart c = false

theorem Unquantified.append {first second : List Char} (hfirst : Unquantified first)
    (hsecond : Unquantified second) : Unquantified (first ++ second) := by
  cases first with
  | nil => exact hsecond
  | cons c rest => exact hfirst

theorem Unquantified.head?_ne {text : List Char} (h : Unquantified text) :
    text.head? ≠ some '?' := by
  intro eq
  simpa [isQuantifierStart] using h '?' eq

/-- The characters are read as the quantifier of the repetition, whatever follows them. -/
def Spells (sign : List Char) (repetition : Repetition) : Prop :=
  ∃ c more, sign = c :: more ∧ isQuantifierStart c = true ∧
    ∀ rest, Unquantified rest → quantifier? c (more ++ rest) = some (repetition, more.length)

def digits (n : Nat) : List Char := Nat.toDigits 10 n

theorem toList_toString (n : Nat) : (toString n).toList = digits n := Nat.toList_repr

theorem digits_isDigit {n : Nat} {c : Char} (mem : c ∈ digits n) : c.isDigit = true :=
  Nat.isDigit_of_mem_toDigits (b := 10) (by decide) (by decide) mem

theorem decimal?_digits (n : Nat) : decimal? (digits n) = some (min largestCount n) := by
  have value : (digits n).foldl (fun value c => value * 10 + (c.toNat - 48)) 0 = n := by
    have read := Nat.ofDigitChars_toDigits (b := 10) (n := n) (by decide) (by decide)
    rw [Nat.ofDigitChars_eq_foldl] at read
    simp only [Nat.mul_comm 10] at read
    exact read
  have nonempty : digits n ≠ [] := Nat.toDigits_ne_nil
  rw [decimal?, if_neg nonempty, value]

theorem takeWhile_digits (n : Nat) {c : Char} (stop : c.isDigit = false) (rest : List Char) :
    (digits n ++ c :: rest).takeWhile Char.isDigit = digits n := by
  rw [List.takeWhile_append_of_pos fun c => digits_isDigit]
  simp [stop]

theorem countedBounds?_exactly (n : Nat) (rest : List Char) :
    countedBounds? (digits n ++ '}' :: rest) =
      some ((min largestCount n, some (min largestCount n)), (digits n).length + 1) := by
  rw [countedBounds?, takeWhile_digits n (by decide), decimal?_digits]
  simp

theorem countedBounds?_atLeast (n : Nat) (rest : List Char) :
    countedBounds? (digits n ++ ',' :: '}' :: rest) =
      some ((min largestCount n, none), (digits n).length + 2) := by
  rw [countedBounds?, takeWhile_digits n (by decide), decimal?_digits]
  simp [decimal?, Char.isDigit]

theorem countedBounds?_between (n m : Nat) (rest : List Char) :
    countedBounds? (digits n ++ ',' :: (digits m ++ '}' :: rest)) =
      some ((min largestCount n, some (min largestCount m)),
        (digits n).length + (digits m).length + 2) := by
  rw [countedBounds?, takeWhile_digits n (by decide), decimal?_digits]
  have high := takeWhile_digits m (c := '}') (by decide) rest
  simp [high, decimal?_digits]

def bounds? (c : Char) (rest : List Char) : Option ((Nat × Option Nat) × Nat) :=
  if c = '*' then some ((0, none), 0)
  else if c = '+' then some ((1, none), 0)
  else if c = '?' then some ((0, some 1), 0)
  else countedBounds? rest

def lazyMark (greedy : Bool) : List Char := if greedy then [] else ['?']

theorem spells_of_bounds? {c : Char} {more : List Char} {least : Nat} {most : Option Nat}
    (start : isQuantifierStart c = true)
    (bounds : ∀ rest, bounds? c (more ++ rest) = some ((least, most), more.length))
    (greedy : Bool) : Spells (c :: more ++ lazyMark greedy) ⟨least, most, greedy⟩ := by
  refine ⟨c, more ++ lazyMark greedy, rfl, start, ?_⟩
  intro rest unquantified
  have read := bounds (lazyMark greedy ++ rest)
  rw [List.append_assoc]
  change (bounds? c (more ++ (lazyMark greedy ++ rest))).map _ = _
  rw [read]
  have ahead : (more ++ (lazyMark greedy ++ rest)).drop more.length = lazyMark greedy ++ rest :=
    List.drop_left
  simp only [Option.map_some, ahead]
  cases greedy with
  | true => simp [lazyMark, unquantified.head?_ne]
  | false => simp [lazyMark]

theorem spells_exactly (n : Nat) (greedy : Bool) :
    Spells ('{' :: (digits n ++ ['}']) ++ lazyMark greedy)
      ⟨min largestCount n, some (min largestCount n), greedy⟩ :=
  spells_of_bounds? rfl (fun rest => by simpa [bounds?] using countedBounds?_exactly n rest) greedy

theorem spells_atLeast (n : Nat) (greedy : Bool) :
    Spells ('{' :: (digits n ++ [',', '}']) ++ lazyMark greedy)
      ⟨min largestCount n, none, greedy⟩ :=
  spells_of_bounds? rfl (fun rest => by simpa [bounds?] using countedBounds?_atLeast n rest) greedy

theorem spells_between (n m : Nat) (greedy : Bool) :
    Spells ('{' :: (digits n ++ ',' :: (digits m ++ ['}'])) ++ lazyMark greedy)
      ⟨min largestCount n, some (min largestCount m), greedy⟩ :=
  spells_of_bounds? rfl (fun rest => by
    have read := countedBounds?_between n m rest
    have length : (digits n ++ ',' :: (digits m ++ ['}'])).length =
        (digits n).length + (digits m).length + 2 := by
      simp only [List.length_append, List.length_cons, List.length_nil]
      omega
    rw [length]
    simpa [bounds?] using read) greedy

end Pattern

namespace Repetition

open Pattern

def clamped (repetition : Repetition) : Repetition :=
  ⟨Min.min largestCount repetition.min, repetition.max.map (Min.min largestCount),
    repetition.greedy⟩

theorem clamped_eq {repetition : Repetition} (least : repetition.min ≤ largestCount)
    (most : ∀ most ∈ repetition.max, most ≤ largestCount) : repetition.clamped = repetition := by
  obtain ⟨min, max, greedy⟩ := repetition
  rw [clamped, Nat.min_eq_right least]
  congr 1
  cases max with
  | none => rfl
  | some m => exact congrArg some (Nat.min_eq_right (most m rfl))

theorem spells_clamped (repetition : Repetition) :
    Spells repetition.quantifier.toList repetition.clamped := by
  obtain ⟨min, max, greedy⟩ := repetition
  have mark : (if greedy = true then "" else "?").toList = lazyMark greedy := by
    cases greedy <;> rfl
  rw [quantifier, String.toList_append, mark]
  cases max with
  | none =>
    match min with
    | 0 =>
      have written : (sign ⟨0, none, greedy⟩).toList = ['*'] := by simp [sign]
      rw [written]
      exact spells_of_bounds? rfl (fun _ => rfl) greedy
    | 1 =>
      have written : (sign ⟨1, none, greedy⟩).toList = ['+'] := by simp [sign]
      rw [written]
      exact spells_of_bounds? rfl (fun _ => rfl) greedy
    | n + 2 =>
      have written : (sign ⟨n + 2, none, greedy⟩).toList =
          '{' :: (digits (n + 2) ++ [',', '}']) := by
        simp [sign, ← toList_toString]
      rw [written]
      exact spells_atLeast _ greedy
  | some m =>
    by_cases optional : min = 0 ∧ m = 1
    · obtain ⟨rfl, rfl⟩ := optional
      have written : (sign ⟨0, some 1, greedy⟩).toList = ['?'] := by simp [sign]
      rw [written]
      exact spells_of_bounds? rfl (fun _ => rfl) greedy
    · by_cases exact : min = m
      · subst exact
        have written : (sign ⟨min, some min, greedy⟩).toList = '{' :: (digits min ++ ['}']) := by
          unfold sign
          split <;> simp_all [← toList_toString]
        rw [written]
        exact spells_exactly _ greedy
      · have written : (sign ⟨min, some m, greedy⟩).toList =
            '{' :: (digits min ++ ',' :: (digits m ++ ['}'])) := by
          unfold sign
          split <;> simp_all [← toList_toString]
        rw [written]
        exact spells_between _ _ greedy

theorem spells_quantifier (repetition : Repetition) (least : repetition.min ≤ largestCount)
    (most : ∀ most ∈ repetition.max, most ≤ largestCount) :
    Spells repetition.quantifier.toList repetition := by
  have spells := repetition.spells_clamped
  rwa [clamped_eq least most] at spells

def complete (repetition : Repetition) : Repetition :=
  ⟨0, repetition.max.map (· - 1), repetition.greedy⟩

theorem spells_beforeLast_clamped (repetition : Repetition) :
    Spells repetition.beforeLast.toList repetition.complete.clamped := by
  obtain ⟨min, max, greedy⟩ := repetition
  have mark : (if greedy = true then "" else "?").toList = lazyMark greedy := by
    cases greedy <;> rfl
  rw [beforeLast, String.toList_append, mark]
  cases max with
  | none =>
    have written : "*".toList = ['*'] := by simp
    simp only [written]
    exact spells_of_bounds? rfl (fun _ => rfl) greedy
  | some m =>
    have written : ("\x7b0," ++ toString (m - 1) ++ "\x7d").toList =
        '{' :: (digits 0 ++ ',' :: (digits (m - 1) ++ ['}'])) := by
      simp [← toList_toString]
    rw [written]
    exact spells_between 0 _ greedy

theorem spells_beforeLast {repetition : Repetition}
    (most : ∀ most ∈ repetition.max, most ≤ largestCount) :
    Spells repetition.beforeLast.toList repetition.complete := by
  have spells := repetition.spells_beforeLast_clamped
  have bounded : ∀ most ∈ repetition.complete.max, most ≤ largestCount := by
    intro count mem
    obtain ⟨m, max, rfl⟩ := Option.map_eq_some_iff.mp mem
    exact Nat.le_trans (Nat.sub_le m 1) (most m max)
  rwa [clamped_eq (Nat.zero_le _) bounded] at spells

end Repetition

end LineGrammar
