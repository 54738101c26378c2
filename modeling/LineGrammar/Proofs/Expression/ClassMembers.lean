import LineGrammar.Expression.Leaf
import LineGrammar.Proofs.Pattern.ClassText

/-! What a character class denotes: the union of its members, or, after a leading circumflex, the
characters outside of it. A plain dash between two characters makes a range of them. -/

namespace LineGrammar.CharClass

open Pattern

/-- One piece of the text of a class. A plain dash is told from an escaped one, which is a point;
`broken` is an escape that stands for nothing. -/
inductive Item
  | point (code : Nat)
  | dash
  | word (negated : Bool)
  | property (kind : Property) (negated : Bool)
  | broken
  deriving DecidableEq, Repr

def isWord (code : Nat) : Bool := code = 95 || Text.isLetter code || Text.isNumber code

namespace Item

def code? : Item → Option Nat
  | point code => some code
  | dash => some 0x2D
  | _ => none

def contains : Item → Nat → Bool
  | point member, code => code = member
  | dash, code => code = 0x2D
  | word negated, code => isWord code != negated
  | property kind negated, code => kind.holds code != negated
  | broken, _ => false

end Item

def shorthands : List (Char × Item) :=
  [('w', .word false), ('W', .word true), ('d', .property .decimalDigit false),
    ('D', .property .decimalDigit true), ('s', .property .space false),
    ('S', .property .space true), ('a', .point 0x7), ('b', .point 0x8), ('t', .point 0x9),
    ('n', .point 0xA), ('v', .point 0xB), ('f', .point 0xC), ('r', .point 0xD)]

def longEscape? (rest : List Char) : Option (Nat × Nat) :=
  if (rest.take 8).length = 8 ∧ (rest.take 8).all Leaf.isHexDigit then
    ((hexNumber? (rest.take 8)).filter (· ≤ 0x10FFFF)).map (·, 8)
  else none

def numbered : Option (Nat × Nat) → Item × Nat
  | some (code, count) => (.point code, count)
  | none => (.broken, 0)

def escaped (c : Char) (rest : List Char) : Item × Nat :=
  match shorthands.lookup c with
  | some item => (item, 0)
  | none =>
    if c = '0' then (if rest.head?.any Char.isDigit then .broken else .point 0, 0)
    else if c = 'x' then numbered ((hexEscape? rest).map (·, 2))
    else if c = 'u' then numbered (unicodeEscape? rest)
    else if c = 'U' then numbered (longEscape? rest)
    else (if c.isAlphanum then .broken else .point c.toNat, 0)

def items : List Char → List Item
  | [] => []
  | c :: rest =>
    if c = '\\' then
      match rest with
      | [] => [.broken]
      | e :: more => (escaped e more).1 :: items (more.drop (escaped e more).2)
    else (if c = '-' then .dash else .point c.toNat) :: items rest
termination_by cs => cs.length
decreasing_by all_goals simp only [List.length_drop, List.length_cons]; omega

theorem items_plain {c : Char} (plain : c ≠ '\\') (rest : List Char) :
    items (c :: rest) = (if c = '-' then .dash else .point c.toNat) :: items rest := by
  rw [items.eq_def]
  simp [plain]

theorem items_escape (e : Char) (more : List Char) :
    items ('\\' :: e :: more) = (escaped e more).1 :: items (more.drop (escaped e more).2) := by
  rw [items.eq_def]
  simp

theorem escaped_of_shorthand {c : Char} {item : Item} (known : shorthands.lookup c = some item)
    (rest : List Char) : escaped c rest = (item, 0) := by
  rw [escaped, known]

theorem escaped_of_sign {c : Char} (sign : c.isAlphanum = false) (rest : List Char) :
    escaped c rest = (.point c.toNat, 0) := by
  have letters : ∀ entry ∈ shorthands, entry.1.isAlphanum = true := by decide
  have unknown : shorthands.lookup c = none := by
    rw [List.lookup_eq_none_iff]
    rintro entry mem
    rw [bne_iff_ne]
    rintro rfl
    simp [letters entry mem] at sign
  have other : c ≠ '0' ∧ c ≠ 'x' ∧ c ≠ 'u' ∧ c ≠ 'U' := by
    refine ⟨?_, ?_, ?_, ?_⟩ <;> rintro rfl <;> revert sign <;> decide
  rw [escaped, unknown]
  simp [other, sign]

def others : List Char → List Char
  | [] => []
  | c :: rest =>
    if c = '\\' then
      match rest with
      | [] => ['\\']
      | e :: more => if e = 'W' then others more else '\\' :: e :: others more
    else c :: others rest

theorem others_plain {c : Char} (plain : c ≠ '\\') (rest : List Char) :
    others (c :: rest) = c :: others rest := by
  rw [others.eq_def]
  simp [plain]

theorem others_nonWord (more : List Char) : others ('\\' :: 'W' :: more) = others more := by
  rw [others.eq_def]
  simp

theorem others_escape {e : Char} (other : e ≠ 'W') (more : List Char) :
    others ('\\' :: e :: more) = '\\' :: e :: others more := by
  rw [others.eq_def]
  simp [other]

theorem others_append_of_plain {text : List Char} (plain : ∀ c ∈ text, IsPlain c)
    (rest : List Char) : others (text ++ rest) = text ++ others rest := by
  induction text with
  | nil => rfl
  | cons c text ih =>
    rw [List.cons_append, others_plain (plain c List.mem_cons_self).1,
      ih fun d mem => plain d (List.mem_cons_of_mem _ mem), List.cons_append]

def hasNonWord : List Char → Bool
  | [] => false
  | c :: rest =>
    if c = '\\' then
      match rest with
      | [] => false
      | e :: more => e = 'W' || hasNonWord more
    else hasNonWord rest

theorem hasNonWord_plain {c : Char} (plain : c ≠ '\\') (rest : List Char) :
    hasNonWord (c :: rest) = hasNonWord rest := by
  rw [hasNonWord.eq_def]
  simp [plain]

theorem hasNonWord_escape (e : Char) (more : List Char) :
    hasNonWord ('\\' :: e :: more) = (e = 'W' || hasNonWord more) := by
  rw [hasNonWord.eq_def]
  simp

theorem hasNonWord_append_of_plain {text : List Char} (plain : ∀ c ∈ text, IsPlain c)
    (rest : List Char) : hasNonWord (text ++ rest) = hasNonWord rest := by
  induction text with
  | nil => rfl
  | cons c text ih =>
    rw [List.cons_append, hasNonWord_plain (plain c List.mem_cons_self).1,
      ih fun d mem => plain d (List.mem_cons_of_mem _ mem)]

theorem numbered_ne (found : Option (Nat × Nat)) : (numbered found).1 ≠ .word true := by
  cases found <;> simp [numbered]

theorem escaped_eq_nonWord_iff {e : Char} {more : List Char} :
    (escaped e more).1 = .word true ↔ e = 'W' := by
  have letter : ∀ entry ∈ shorthands, entry.2 = .word true ↔ entry.1 = 'W' := by decide
  unfold escaped
  split
  · next item known =>
    obtain ⟨before, after, spelled, -⟩ := List.lookup_eq_some_iff.mp known
    exact letter (e, item) (by simp [spelled])
  · next unknown =>
    have other : e ≠ 'W' := by
      rintro rfl
      simp [shorthands] at unknown
    simp only [other, iff_false]
    split
    · split <;> simp
    split
    · exact numbered_ne _
    split
    · exact numbered_ne _
    split
    · exact numbered_ne _
    · split <;> simp

theorem startsWithOperand_numbered {more : List Char} {found : Option (Nat × Nat)}
    (belongs : ∀ code count, found = some (code, count) → StartsWithOperand more count) :
    StartsWithOperand more (numbered found).2 := by
  cases found with
  | none => exact startsWithOperand_zero more
  | some ends => exact belongs ends.1 ends.2 rfl

theorem startsWithOperand_escaped (e : Char) (more : List Char) :
    StartsWithOperand more (escaped e more).2 := by
  have nothing := startsWithOperand_zero more
  unfold escaped
  split
  · exact nothing
  split
  · exact nothing
  split
  · refine startsWithOperand_numbered fun code count found => ?_
    obtain ⟨_, read, eq⟩ := Option.map_eq_some_iff.mp found
    obtain ⟨-, rfl⟩ := Prod.mk.inj eq
    exact startsWithOperand_of_hexEscape? read
  split
  · exact startsWithOperand_numbered fun code count read =>
      startsWithOperand_of_unicodeEscape? read
  split
  · refine startsWithOperand_numbered fun code count found => ?_
    rw [longEscape?] at found
    split at found
    · next long =>
      obtain ⟨_, number, eq⟩ := Option.map_eq_some_iff.mp found
      obtain ⟨-, rfl⟩ := Prod.mk.inj eq
      exact ⟨more.take 8, more.drop 8, (List.take_append_drop 8 more).symm, long.1,
        .four (by simp [(Option.filter_eq_some_iff.mp number).1])⟩
    · simp at found
  · exact nothing

theorem hasNonWord_operand {operand : List Char} (belongs : Operand operand) (rest : List Char) :
    hasNonWord (operand ++ rest) = hasNonWord rest := by
  rcases belongs.isPlain_or_pair with plain | ⟨lead, trail, rfl, first, second⟩
  · exact hasNonWord_append_of_plain plain rest
  · rw [List.append_assoc, hasNonWord_append_of_plain first, List.cons_append, List.cons_append,
      hasNonWord_escape, hasNonWord_append_of_plain second]
    simp

theorem nonWord_mem_items_iff {text : List Char} (closes : isClassText text = true) :
    .word true ∈ items text ↔ hasNonWord text = true := by
  induction size : text.length using Nat.strongRecOn generalizing text with
  | ind size ih =>
    subst size
    rcases isClassText_cases closes with rfl | ⟨c, more, rfl, plain, later⟩ | ⟨e, more, rfl, later⟩
    · simp [items, hasNonWord]
    · have other : Item.word true ≠ (if c = '-' then .dash else .point c.toNat) := by
        split <;> simp
      rw [items_plain plain.1, hasNonWord_plain plain.1, List.mem_cons, or_iff_right other]
      exact ih more.length (by simp) later rfl
    · obtain ⟨operand, rest, spelled, length, belongs⟩ := startsWithOperand_escaped e more
      have after : isClassText rest = true := by
        rwa [spelled, belongs.isClassText_append] at later
      have shorter : rest.length < ('\\' :: e :: more).length := by
        rw [spelled]
        simp only [List.length_cons, List.length_append]
        omega
      have letter : Item.word true = (escaped e more).1 ↔ e = 'W' :=
        eq_comm.trans escaped_eq_nonWord_iff
      have dropped : more.drop (escaped e more).2 = rest := by
        rw [← length, spelled, List.drop_left]
      rw [items_escape, hasNonWord_escape, List.mem_cons, letter, dropped, ih _ shorter after rfl,
        spelled, hasNonWord_operand belongs]
      simp

theorem others_eq_self {text : List Char} (closes : isClassText text = true)
    (none : hasNonWord text = false) : others text = text := by
  induction size : text.length using Nat.strongRecOn generalizing text with
  | ind size ih =>
    subst size
    rcases isClassText_cases closes with rfl | ⟨c, more, rfl, plain, later⟩ | ⟨e, more, rfl, later⟩
    · rfl
    · rw [hasNonWord_plain plain.1] at none
      rw [others_plain plain.1, ih more.length (by simp) later none rfl]
    · rw [hasNonWord_escape, Bool.or_eq_false_iff, decide_eq_false_iff_not] at none
      have shorter : more.length < ('\\' :: e :: more).length := by
        rw [List.length_cons, List.length_cons]
        omega
      rw [others_escape none.1, ih more.length shorter later none.2 rfl]

def range? : List Item → Option (Nat × Nat)
  | low :: .dash :: high :: _ => low.code?.bind fun least => high.code?.map (least, ·)
  | _ => none

/-- The code belongs to a member; ranges are made from left to right. -/
def union (code : Nat) : List Item → Bool
  | [] => false
  | item :: rest =>
    match range? (item :: rest) with
    | some (low, high) => (low ≤ code && code ≤ high) || union code (rest.drop 2)
    | none => item.contains code || union code rest
termination_by items => items.length
decreasing_by all_goals simp only [List.length_drop, List.length_cons]; omega

section

variable {code : Nat} {item : Item} {rest : List Item}

theorem union_nil (code : Nat) : union code [] = false := by
  rw [union]

theorem union_range {low high : Nat} (range : range? (item :: rest) = some (low, high)) :
    union code (item :: rest) = ((low ≤ code && code ≤ high) || union code (rest.drop 2)) := by
  rw [union, range]

theorem union_cons (alone : range? (item :: rest) = none) :
    union code (item :: rest) = (item.contains code || union code rest) := by
  rw [union, alone]

theorem range?_eq_some_iff {items : List Item} {low high : Nat} :
    range? items = some (low, high) ↔ ∃ first last later, items = first :: .dash :: last :: later ∧
      first.code? = some low ∧ last.code? = some high := by
  unfold range?
  split
  · next low' high' later =>
    simp only [Option.bind_eq_some_iff, Option.map_eq_some_iff, Prod.mk.injEq]
    constructor
    · rintro ⟨_, left, _, right, rfl, rfl⟩
      exact ⟨low', high', later, rfl, left, right⟩
    · rintro ⟨first, last, later', eq, left, right⟩
      obtain ⟨rfl, rfl, rfl⟩ : low' = first ∧ high' = last ∧ later = later' := by simpa using eq
      exact ⟨low, left, high, right, rfl, rfl⟩
  · next _ other =>
    simp only [reduceCtorEq, false_iff]
    rintro ⟨first, last, later, rfl, -⟩
    exact other first last later rfl

theorem range?_eq_none (set : item.code? = none) (rest : List Item) :
    range? (item :: rest) = none := by
  refine Option.eq_none_iff_forall_ne_some.mpr fun ⟨low, high⟩ range => ?_
  obtain ⟨first, last, later, eq, code, -⟩ := range?_eq_some_iff.mp range
  obtain ⟨rfl, -⟩ := List.cons.inj eq
  simp [set] at code

end

/-- Every plain dash is the first or the last item or stands between two characters. -/
def DashesStand (items : List Item) : Prop :=
  ∀ before after, items = before ++ .dash :: after →
    before = [] ∨ after = [] ∨
      (before.getLast?.bind Item.code?).isSome ∧ (after.head?.bind Item.code?).isSome

def isNegated (inside : List Char) : Bool := inside.head? = some '^'

def written (inside : List Char) : List Char := if isNegated inside then inside.tail else inside

/-- The code belongs to the class with the text between its brackets. -/
def denotes (inside : List Char) (code : Nat) : Bool :=
  union code (items (written inside)) != isNegated inside

theorem isNegated_cases (inside : List Char) :
    (∃ members, inside = '^' :: members ∧ isNegated inside = true ∧ written inside = members) ∨
      inside.head? ≠ some '^' ∧ isNegated inside = false ∧ written inside = inside := by
  by_cases marked : inside.head? = some '^'
  · obtain ⟨members, rfl⟩ := List.head?_eq_some_iff.mp marked
    exact .inl ⟨members, rfl, rfl, rfl⟩
  · exact .inr ⟨marked, by simp [isNegated, marked], by simp [written, isNegated, marked]⟩

theorem DashesStand.of_append {before items : List Item}
    (stand : DashesStand (before ++ items)) : DashesStand items := by
  intro first after spelled
  rcases stand (before ++ first) after (by simp [spelled]) with none | none | ⟨left, right⟩
  · exact .inl (List.append_eq_nil_iff.mp none).2
  · exact .inr (.inl none)
  · cases first with
    | nil => exact .inl rfl
    | cons item first =>
      refine .inr (.inr ⟨?_, right⟩)
      simpa [List.getLast?_append, List.getLast?_cons] using left

theorem DashesStand.tail {item : Item} {items : List Item} (stand : DashesStand (item :: items)) :
    DashesStand items :=
  @of_append [item] items stand

theorem not_word_of_code? {item : Item} {code : Nat} (char : item.code? = some code)
    (negated : Bool) : item ≠ .word negated := by
  rintro rfl
  simp [Item.code?] at char

section

variable {before skipped after : List Item}

theorem eq_nil_of_getLast? (complements : ∀ item ∈ skipped, item = .word true)
    (char : ((before ++ skipped).getLast?.bind Item.code?).isSome = true) : skipped = [] := by
  rcases List.eq_nil_or_concat skipped with rfl | ⟨_, item, rfl⟩
  · rfl
  · obtain rfl := complements item (by simp)
    simp [List.getLast?_append, Item.code?] at char

theorem eq_nil_of_head? (complements : ∀ item ∈ skipped, item = .word true)
    (char : ((skipped ++ after).head?.bind Item.code?).isSome = true) : skipped = [] := by
  cases skipped with
  | nil => rfl
  | cons item _ =>
    obtain rfl := complements item (by simp)
    simp [Item.code?] at char

end

theorem DashesStand.filter {items : List Item} (stand : DashesStand items) :
    DashesStand (items.filter (· ≠ .word true)) := by
  intro before after spelled
  obtain ⟨first, second, rfl, rfl, spelled'⟩ := List.filter_eq_append_iff.mp spelled
  obtain ⟨skipped, later, rfl, complements, -, rfl⟩ := List.filter_eq_cons_iff.mp spelled'
  rcases stand (first ++ skipped) later (by simp) with none | rfl | ⟨left, right⟩
  · obtain ⟨rfl, -⟩ := List.append_eq_nil_iff.mp none
    exact .inl rfl
  · exact .inr (.inl rfl)
  · obtain rfl := eq_nil_of_getLast? (by simpa using complements) left
    rw [List.append_nil] at left
    refine .inr (.inr ⟨?_, ?_⟩)
    · obtain ⟨code, char⟩ := Option.isSome_iff_exists.mp left
      obtain ⟨last, mem, char'⟩ := Option.bind_eq_some_iff.mp char
      obtain ⟨init, rfl⟩ := List.getLast?_eq_some_iff.mp mem
      simp [not_word_of_code? char' true, char']
    · obtain ⟨code, char⟩ := Option.isSome_iff_exists.mp right
      obtain ⟨head, mem, char'⟩ := Option.bind_eq_some_iff.mp char
      obtain ⟨tail, rfl⟩ := List.head?_eq_some_iff.mp mem
      simp [not_word_of_code? char' true, char']

def Item.expand : Item → List Item
  | .word false => [.point 95, .property .letter false, .property .number false]
  | .word true => []
  | item => [item]

theorem Item.expand_of_code? {item : Item} {code : Nat} (char : item.code? = some code) :
    item.expand = [item] := by
  cases item <;> simp_all [code?, expand]

theorem flatMap_expand_filter (items : List Item) :
    (items.filter (· ≠ .word true)).flatMap Item.expand = items.flatMap Item.expand := by
  induction items with
  | nil => rfl
  | cons item rest ih =>
    by_cases complement : item = .word true
    · subst complement
      simpa [Item.expand] using ih
    · simpa [complement] using ih

theorem exists_of_expand_eq_cons {items : List Item} {first : Item} {tail : List Item}
    (spelled : items.flatMap Item.expand = first :: tail) :
    ∃ skipped item after more, items = skipped ++ item :: after ∧ (∀ x ∈ skipped, x = .word true) ∧
      item.expand = first :: more ∧ tail = more ++ after.flatMap Item.expand := by
  induction items with
  | nil => simp at spelled
  | cons item rest ih =>
    rw [List.flatMap_cons] at spelled
    cases expanded : item.expand with
    | nil =>
      obtain rfl : item = .word true := by
        cases item with
        | word negated => cases negated <;> simp_all [Item.expand]
        | _ => simp [Item.expand] at expanded
      rw [expanded, List.nil_append] at spelled
      obtain ⟨skipped, item, after, more, rfl, all, expanded', rfl⟩ := ih spelled
      exact ⟨.word true :: skipped, item, after, more, rfl, by simpa using all, expanded', rfl⟩
    | cons head more =>
      rw [expanded, List.cons_append] at spelled
      obtain ⟨rfl, rfl⟩ := List.cons.inj spelled
      exact ⟨[], item, rest, more, rfl, by simp, expanded, rfl⟩

theorem Item.expand_eq_cons_of_code? {item first : Item} {more : List Item} {code : Nat}
    (char : item.code? = some code) (expanded : item.expand = first :: more) :
    item = first ∧ more = [] := by
  rw [expand_of_code? char] at expanded
  simpa using expanded

theorem range?_expand {item : Item} {rest : List Item} (stand : DashesStand (item :: rest))
    (alone : range? (item :: rest) = none) :
    range? (item :: rest.flatMap Item.expand) = none := by
  refine Option.eq_none_iff_forall_ne_some.mpr fun ⟨low, high⟩ range => ?_
  obtain ⟨_, last, later, eq, left, right⟩ := range?_eq_some_iff.mp range
  obtain ⟨rfl, spelled⟩ := List.cons.inj eq
  obtain ⟨skipped, second, after, more, rfl, complements, expanded, tail⟩ :=
    exists_of_expand_eq_cons spelled
  obtain ⟨rfl, rfl⟩ : second = .dash ∧ more = [] := by
    cases second with
    | word negated => cases negated <;> simp [Item.expand] at expanded
    | _ => simp_all [Item.expand]
  obtain ⟨skipped', item', after', more', rfl, complements', expanded', -⟩ :=
    exists_of_expand_eq_cons tail.symm
  have beside := stand (item :: skipped) (skipped' ++ item' :: after') (by simp)
  obtain ⟨before, behind⟩ := (beside.resolve_left (by simp)).resolve_left (by simp)
  -- Next to the dash there is a character on either side, so no complement stands in between.
  obtain rfl := @eq_nil_of_getLast? [item] skipped complements before
  obtain rfl := eq_nil_of_head? complements' behind
  obtain ⟨code, char⟩ := Option.isSome_iff_exists.mp behind
  obtain ⟨rfl, -⟩ := Item.expand_eq_cons_of_code? (by simpa using char) expanded'
  have joined : range? (item :: .dash :: item' :: after') = some (low, high) :=
    range?_eq_some_iff.mpr ⟨item, item', after', rfl, left, right⟩
  simp_all

theorem union_expand {items : List Item} (stand : DashesStand items) (code : Nat) :
    union code items = ((decide (.word true ∈ items) && !isWord code) ||
      union code (items.flatMap Item.expand)) := by
  induction items using union.induct with
  | case1 => simp [union_nil]
  | case2 item rest low high range ih =>
    obtain ⟨_, last, later, eq, left, right⟩ := range?_eq_some_iff.mp range
    obtain ⟨rfl, rfl⟩ := List.cons.inj eq
    have range' : range? (item :: .dash :: last :: later.flatMap Item.expand) = some (low, high) :=
      range?_eq_some_iff.mpr ⟨item, last, _, rfl, left, right⟩
    have spelled : (item :: .dash :: last :: later).flatMap Item.expand =
        item :: .dash :: last :: later.flatMap Item.expand := by
      have dash : Item.dash.expand = [.dash] := rfl
      simp only [List.flatMap_cons, Item.expand_of_code? left, Item.expand_of_code? right,
        dash, List.cons_append, List.nil_append]
    simp only [List.drop_succ_cons, List.drop_zero] at ih
    rw [spelled, union_range range, union_range range', List.drop_succ_cons, List.drop_succ_cons,
      List.drop_succ_cons, List.drop_succ_cons, List.drop_zero, List.drop_zero,
      ih stand.tail.tail.tail]
    simp [(not_word_of_code? left true).symm, (not_word_of_code? right true).symm,
      Bool.or_left_comm]
  | case3 item rest alone ih =>
    rw [union_cons alone, ih stand.tail, List.flatMap_cons]
    cases item with
    | word negated =>
      cases negated with
      | true => cases word : isWord code <;> simp [Item.expand, Item.contains, word]
      | false =>
        have set (rest : List Item) : range? (.property .number false :: rest) = none :=
          range?_eq_none rfl rest
        simp only [Item.expand, List.cons_append, List.nil_append]
        rw [union_cons rfl, union_cons rfl, union_cons (set _)]
        simp [Item.contains, isWord, Property.holds, Bool.or_assoc, Bool.or_left_comm]
    | _ =>
      simp only [Item.expand, List.singleton_append]
      rw [union_cons (range?_expand stand alone)]
      simp [Bool.or_left_comm]

end LineGrammar.CharClass
