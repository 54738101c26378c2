import LineGrammar.Pattern.Reading
import LineGrammar.Proofs.Outcome

/-! Reading an escape. Some escapes go on behind their letter: with digits, with digits in braces,
with a second escape that completes a surrogate pair, or with the name of a property. What stands
behind the end of a class or of a branch makes no difference to any of them. -/

namespace LineGrammar.Pattern

/-- The characters that end a class or a branch. -/
def IsFence (c : Char) : Prop := c ∈ [']', ')', '|']

theorem hexValue?_of_sign {c : Char} (sign : c.isAlphanum = false) : hexValue? c = none := by
  simp only [Char.isAlphanum, Char.isAlpha, Char.isUpper, Char.isLower, Char.isDigit,
    Bool.or_eq_false_iff, Bool.and_eq_false_iff, decide_eq_false_iff_not] at sign
  simp only [hexValue?, Char.le_def]
  rw [if_neg, if_neg, if_neg] <;> grind

theorem foldl_hex_none (digits : List Char) :
    digits.foldl (fun value c => value.bind fun v => (hexValue? c).map (v * 16 + ·)) none =
      none := by
  induction digits with
  | nil => rfl
  | cons c rest ih => exact ih

theorem hexDigits?_eq_none {digits : List Char} {c : Char} (mem : c ∈ digits)
    (other : hexValue? c = none) : hexDigits? digits = none := by
  rw [hexDigits?]
  generalize some 0 = start
  induction digits generalizing start with
  | nil => simp at mem
  | cons d rest ih =>
    rw [List.foldl_cons]
    rcases List.mem_cons.mp mem with rfl | later
    · rw [other]
      cases start <;> exact foldl_hex_none rest
    · exact ih later _

theorem hexNumber?_eq_none {digits : List Char} {c : Char} (mem : c ∈ digits)
    (other : hexValue? c = none) (sign : c ≠ '+') : hexNumber? digits = none := by
  cases digits with
  | nil => rfl
  | cons d rest =>
    rw [hexNumber?]
    split
    · next eq =>
      split
      · rfl
      · have later : c ∈ rest := by
          rcases List.mem_cons.mp mem with rfl | later
          · exact absurd eq sign
          · exact later
        exact hexDigits?_eq_none later other
    · exact hexDigits?_eq_none mem other

def IsStop (c : Char) : Prop := hexValue? c = none ∧ c ∉ ['+', '{', '}']

theorem IsFence.isStop {fence : Char} (ends : IsFence fence) : IsStop fence := by
  simp only [IsFence, List.mem_cons, List.not_mem_nil, or_false] at ends
  rcases ends with rfl | rfl | rfl <;> exact ⟨by decide, by decide⟩

section

variable {stop : Char} {more : List Char}

theorem isDigit_of_isStop (stops : IsStop stop) : stop.isDigit = false := by
  have other := stops.1
  simp only [hexValue?, Char.le_def] at other
  rw [Char.isDigit, Bool.and_eq_false_iff, decide_eq_false_iff_not, decide_eq_false_iff_not]
  by_contra digit
  rw [if_pos (by grind)] at other
  simp at other

theorem hexNumber?_eq_none_of_stop (stops : IsStop stop) (mem : stop ∈ more) :
    hexNumber? more = none :=
  hexNumber?_eq_none mem stops.1 fun plus => stops.2 (by simp [plus])

theorem fourDigits?_stop (stops : IsStop stop) (more rest : List Char) :
    fourDigits? (more ++ stop :: rest) = fourDigits? more := by
  by_cases enough : 4 ≤ more.length
  · rw [fourDigits?, fourDigits?, List.take_append_of_le_length enough]
  · have mem : stop ∈ (more ++ stop :: rest).take 4 := by
      rw [List.take_append, show 4 - more.length = (3 - more.length) + 1 by omega]
      simp
    have short : (more.take 4).length ≠ 4 := by
      rw [List.length_take]
      omega
    rw [fourDigits?, fourDigits?, hexNumber?_eq_none_of_stop stops mem, ite_self, if_neg short]

theorem hexEscape?_stop (stops : IsStop stop) (more rest : List Char) :
    hexEscape? (more ++ stop :: rest) = hexEscape? more := by
  match more with
  | [] => cases rest <;> simp [hexEscape?, stops.1]
  | [c] => simp [hexEscape?, stops.1]
  | c :: d :: tail => rfl

theorem unicodeEscape?_braced {inside : List Char} (free : '}' ∉ inside) (rest : List Char) :
    unicodeEscape? ('{' :: (inside ++ '}' :: rest)) =
      ((hexNumber? inside).filter (· ≤ 0x10FFFF)).map fun code => (code, inside.length + 2) := by
  have cut : (inside ++ '}' :: rest).takeWhile (· ≠ '}') = inside := by
    rw [List.takeWhile_append_of_pos]
    · simp
    · exact fun c mem => decide_eq_true fun eq : c = '}' => free (eq ▸ mem)
  rw [unicodeEscape?, if_pos rfl, cut, if_pos (by simp)]

theorem unicodeEscape?_unclosed (free : '}' ∉ more) : unicodeEscape? ('{' :: more) = none := by
  have whole : more.takeWhile (· ≠ '}') = more := List.takeWhile_eq_self_iff.mpr fun c mem =>
    decide_eq_true fun eq : c = '}' => free (eq ▸ mem)
  rw [unicodeEscape?, if_pos rfl, whole, if_neg (Nat.lt_irrefl _)]

theorem braced_stop (stops : IsStop stop) (more rest : List Char) :
    unicodeEscape? ('{' :: (more ++ stop :: rest)) = unicodeEscape? ('{' :: more) := by
  by_cases closed : '}' ∈ more
  · obtain ⟨inside, tail, rfl, free⟩ := List.eq_append_cons_of_mem closed
    rw [List.append_assoc, List.cons_append, unicodeEscape?_braced free, unicodeEscape?_braced free]
  · have notBrace : '}' ≠ stop := by
      rintro rfl
      simp [IsStop] at stops
    rw [unicodeEscape?_unclosed closed]
    by_cases later : '}' ∈ rest
    · obtain ⟨inside, tail, rfl, free⟩ := List.eq_append_cons_of_mem later
      have beyond : '}' ∉ more ++ stop :: inside := by simp [closed, notBrace, free]
      have braced := unicodeEscape?_braced beyond tail
      rw [hexNumber?_eq_none_of_stop stops (by simp)] at braced
      simpa using braced
    · exact unicodeEscape?_unclosed (by simp [closed, notBrace, later])

end

section

variable {fence : Char} {more : List Char}

theorem trailSurrogate?_fence (ends : IsFence fence) (more rest : List Char) :
    trailSurrogate? (more ++ fence :: rest) = trailSurrogate? more := by
  have other : fence ≠ '\\' ∧ fence ≠ 'u' := by
    constructor <;> rintro rfl <;> simp [IsFence] at ends
  match more with
  | [] => cases rest <;> simp [trailSurrogate?, other]
  | [c] => simp [trailSurrogate?, other]
  | c :: d :: digits => simp [trailSurrogate?, fourDigits?_stop ends.isStop]

theorem unicodeEscape?_unbraced {c : Char} (other : c ≠ '{') (more : List Char) :
    unicodeEscape? (c :: more) = (fourDigits? (c :: more)).map fun lead =>
      if isLeadSurrogate lead then
        match trailSurrogate? ((c :: more).drop 4) with
        | some trail => (0x10000 + (lead - 0xD800) * 0x400 + (trail - 0xDC00), 10)
        | none => (lead, 4)
      else (lead, 4) :=
  if_neg other

theorem unicodeEscape?_stop {stop : Char} (stops : IsStop stop) (rest : List Char) :
    unicodeEscape? (stop :: rest) = none := by
  have unbraced : stop ≠ '{' := by
    rintro rfl
    simp [IsStop] at stops
  have none : fourDigits? (stop :: rest) = fourDigits? [] := fourDigits?_stop stops [] rest
  rw [unicodeEscape?_unbraced unbraced, none]
  rfl

theorem split_of_fourDigits? {value : Nat} (read : fourDigits? more = some value) :
    ∃ digits rest, more = digits ++ rest ∧ digits.length = 4 ∧ hexNumber? digits ≠ none := by
  unfold fourDigits? at read
  split at read
  · next length =>
    exact ⟨more.take 4, more.drop 4, (List.take_append_drop 4 more).symm, length, by simp [read]⟩
  · simp at read

theorem unicodeEscape?_fence (ends : IsFence fence) (more rest : List Char) :
    unicodeEscape? (more ++ fence :: rest) = unicodeEscape? more := by
  have same := fourDigits?_stop ends.isStop more rest
  cases more with
  | nil =>
    have notBrace : fence ≠ '{' := by
      rintro rfl
      simp [IsFence] at ends
    have unread : fourDigits? (fence :: rest) = none := same
    rw [List.nil_append, unicodeEscape?_unbraced notBrace, unread]
    rfl
  | cons c digits =>
    by_cases braced : c = '{'
    · subst braced
      exact braced_stop ends.isStop digits rest
    · rw [List.cons_append, unicodeEscape?_unbraced braced, unicodeEscape?_unbraced braced,
        ← List.cons_append, same]
      cases read : fourDigits? (c :: digits) with
      | none => rfl
      | some lead =>
        obtain ⟨four, tail, spelled, length, -⟩ := split_of_fourDigits? read
        have within : 4 ≤ (c :: digits).length := by
          rw [spelled, List.length_append]
          omega
        rw [List.drop_append_of_le_length within, trailSurrogate?_fence ends]

theorem isPrefixOf_fence {name : List Char} (free : fence ∉ name) (more rest : List Char) :
    name.isPrefixOf (more ++ fence :: rest) = name.isPrefixOf more := by
  induction name generalizing more with
  | nil => rfl
  | cons c name ih =>
    rw [List.mem_cons, not_or] at free
    cases more with
    | nil => simp [List.isPrefixOf, Ne.symm free.1]
    | cons d more => simp [List.isPrefixOf, ih free.2]

theorem propertyName?_fence (ends : IsFence fence) (more rest : List Char) :
    propertyName? (more ++ fence :: rest) = propertyName? more := by
  have free : ∀ name ∈ ["\x7bL\x7d", "\x7bN\x7d", "\x7bNd\x7d"], fence ∉ name.toList := by
    simp only [IsFence, List.mem_cons, List.not_mem_nil, or_false] at ends
    rcases ends with rfl | rfl | rfl <;> decide
  unfold propertyName?
  rw [isPrefixOf_fence (free _ (by simp)), isPrefixOf_fence (free _ (by simp)),
    isPrefixOf_fence (free _ (by simp))]

theorem escape_fence (ends : IsFence fence) (inClass : Bool) (c : Char) (more rest : List Char) :
    escape inClass c (more ++ fence :: rest) = escape inClass c more := by
  have notDigit : fence.isDigit = false := by
    simp only [IsFence, List.mem_cons, List.not_mem_nil, or_false] at ends
    rcases ends with rfl | rfl | rfl <;> decide
  have first : (more ++ fence :: rest).head?.any Char.isDigit = more.head?.any Char.isDigit := by
    cases more <;> simp [notDigit]
  unfold escape
  rw [hexEscape?_stop ends.isStop, unicodeEscape?_fence ends, propertyName?_fence ends, first]

end

/-- The texts that belong to an escape behind its letter. -/
inductive Operand : List Char → Prop
  | nothing : Operand []
  | two {a b : Char} (first : hexValue? a ≠ none) (second : hexValue? b ≠ none) : Operand [a, b]
  | four {digits : List Char} (number : hexNumber? digits ≠ none) : Operand digits
  | pair {lead trail : List Char} (first : hexNumber? lead ≠ none)
    (second : hexNumber? trail ≠ none) : Operand (lead ++ '\\' :: 'u' :: trail)
  | braced {digits : List Char} (number : hexNumber? digits ≠ none) :
    Operand ('{' :: (digits ++ ['}']))
  | property {name : List Char} (known : name ∈ [['L'], ['N'], ['N', 'd']]) :
    Operand ('{' :: (name ++ ['}']))

def StartsWithOperand (more : List Char) (count : Nat) : Prop :=
  ∃ operand rest, more = operand ++ rest ∧ operand.length = count ∧ Operand operand

section

variable {more : List Char} {value count : Nat}

theorem startsWithOperand_zero (more : List Char) : StartsWithOperand more 0 :=
  ⟨[], more, rfl, rfl, .nothing⟩

theorem startsWithOperand_of_hexEscape? (read : hexEscape? more = some value) :
    StartsWithOperand more 2 := by
  match more with
  | [] | [c] => simp [hexEscape?] at read
  | a :: b :: rest =>
    obtain ⟨high, first, second⟩ := Option.bind_eq_some_iff.mp read
    obtain ⟨low, second, -⟩ := Option.map_eq_some_iff.mp second
    exact ⟨[a, b], rest, rfl, rfl, .two (by simp [first]) (by simp [second])⟩

theorem split_of_trailSurrogate? (read : trailSurrogate? more = some value) :
    ∃ digits rest, more = '\\' :: 'u' :: (digits ++ rest) ∧ digits.length = 4 ∧
      hexNumber? digits ≠ none := by
  match more with
  | [] | [c] => simp [trailSurrogate?] at read
  | c :: d :: rest =>
    rw [trailSurrogate?] at read
    split at read
    · next escapes =>
      obtain ⟨rfl, rfl⟩ := escapes
      obtain ⟨digits, rest, rfl, length, number⟩ :=
        split_of_fourDigits? (Option.filter_eq_some_iff.mp read).1
      exact ⟨digits, rest, rfl, length, number⟩
    · simp at read

theorem startsWithOperand_of_unicodeEscape?
    (read : unicodeEscape? more = some (value, count)) : StartsWithOperand more count := by
  cases more with
  | nil => simp [unicodeEscape?] at read
  | cons c rest =>
    by_cases braced : c = '{'
    · subst braced
      by_cases closed : '}' ∈ rest
      · obtain ⟨inside, tail, rfl, free⟩ := List.eq_append_cons_of_mem closed
        rw [unicodeEscape?_braced free] at read
        obtain ⟨code, number, eq⟩ := Option.map_eq_some_iff.mp read
        obtain ⟨rfl, rfl⟩ := Prod.mk.inj eq
        exact ⟨'{' :: (inside ++ ['}']), tail, by simp, by simp,
          .braced (by simp [(Option.filter_eq_some_iff.mp number).1])⟩
      · simp [unicodeEscape?_unclosed closed] at read
    · rw [unicodeEscape?_unbraced braced] at read
      obtain ⟨lead, first, eq⟩ := Option.map_eq_some_iff.mp read
      obtain ⟨digits, tail, spelled, length, number⟩ := split_of_fourDigits? first
      rw [spelled, ← length, List.drop_left] at eq
      have alone : StartsWithOperand (c :: rest) 4 := ⟨digits, tail, spelled, length, .four number⟩
      split at eq
      · split at eq
        · next trail second =>
          obtain ⟨rfl, rfl⟩ := Prod.mk.inj eq
          obtain ⟨more, rest', rfl, length', number'⟩ := split_of_trailSurrogate? second
          exact ⟨digits ++ '\\' :: 'u' :: more, rest', by simp [spelled], by simp [length, length'],
            .pair number number'⟩
        · obtain ⟨rfl, rfl⟩ := Prod.mk.inj eq
          exact length ▸ alone
      · obtain ⟨rfl, rfl⟩ := Prod.mk.inj eq
        exact length ▸ alone

theorem startsWithOperand_of_propertyName? {kind : Property}
    (read : propertyName? more = some (kind, count)) : StartsWithOperand more count := by
  have named (name : List Char) (known : name ∈ [['L'], ['N'], ['N', 'd']])
      (starts : ('{' :: (name ++ ['}'])).isPrefixOf more = true) :
      StartsWithOperand more (name.length + 2) := by
    obtain ⟨rest, rfl⟩ := List.isPrefixOf_iff_prefix.mp starts
    exact ⟨_, rest, rfl, by simp, .property known⟩
  unfold propertyName? at read
  split at read
  · next starts =>
    obtain ⟨rfl, rfl⟩ := Prod.mk.inj (Option.some.inj read)
    exact named ['L'] (by simp) starts
  · split at read
    · next starts =>
      obtain ⟨rfl, rfl⟩ := Prod.mk.inj (Option.some.inj read)
      exact named ['N'] (by simp) starts
    · split at read
      · next starts =>
        obtain ⟨rfl, rfl⟩ := Prod.mk.inj (Option.some.inj read)
        exact named ['N', 'd'] (by simp) starts
      · simp at read

end

def looksOn (c : Char) : Prop := c ∈ ['p', 'P', '0', 'x', 'u']

def TakesNothing (outcome : Except Fault (ClassAtom × Nat)) : Prop :=
  outcome = (outcome.map Prod.fst).map (·, 0)

theorem TakesNothing.ite {p : Prop} [Decidable p] {yes no : Except Fault (ClassAtom × Nat)}
    (hyes : TakesNothing yes) (hno : TakesNothing no) : TakesNothing (if p then yes else no) := by
  by_cases h : p
  · rwa [if_pos h]
  · rwa [if_neg h]

theorem takesNothing_escape {c : Char} (alone : ¬looksOn c) (inClass : Bool) (more : List Char) :
    TakesNothing (escape inClass c more) := by
  simp only [looksOn, List.mem_cons, List.not_mem_nil, or_false, not_or] at alone
  simp only [escape, alone, or_self, if_false]
  repeat' apply TakesNothing.ite
  all_goals rfl

theorem startsWithOperand_of_escape {inClass : Bool} {c : Char} {more : List Char}
    {atom : ClassAtom} {count : Nat} (read : escape inClass c more = .ok (atom, count)) :
    StartsWithOperand more count := by
  by_cases looks : looksOn c
  · simp only [looksOn, List.mem_cons, List.not_mem_nil, or_false] at looks
    rcases looks with rfl | rfl | rfl | rfl | rfl
    iterate 2
      cases named : propertyName? more with
      | none => simp [escape, named] at read
      | some found =>
        obtain ⟨-, rfl⟩ : _ ∧ found.2 = count := by simpa [escape, named] using read
        exact startsWithOperand_of_propertyName? named
    · by_cases digit : more.head?.any Char.isDigit = true
      · simp [escape, digit] at read
      · obtain ⟨-, rfl⟩ : _ ∧ 0 = count := by simpa [escape, digit] using read
        exact startsWithOperand_zero more
    · cases digits : hexEscape? more with
      | none => simp [escape, digits] at read
      | some code =>
        obtain ⟨-, rfl⟩ : _ ∧ 2 = count := by simpa [escape, digits] using read
        exact startsWithOperand_of_hexEscape? digits
    · cases digits : unicodeEscape? more with
      | none => simp [escape, digits] at read
      | some found =>
        obtain ⟨-, rfl⟩ : _ ∧ found.2 = count := by simpa [escape, digits] using read
        exact startsWithOperand_of_unicodeEscape? digits
  · have nothing := takesNothing_escape looks inClass more
    rw [read] at nothing
    obtain ⟨-, rfl⟩ := Prod.mk.inj (Except.ok.inj nothing)
    exact startsWithOperand_zero more

end LineGrammar.Pattern
