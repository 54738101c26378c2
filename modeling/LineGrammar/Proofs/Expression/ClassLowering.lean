import LineGrammar.Proofs.Expression.ClassMembers
import LineGrammar.Proofs.Expression.LeafBody

/-! Lowering the text of a class. Its members are put down one after another, each in the spelling
of patterns, and only `\W` is left out. Where the number of an escape ends is the same in both
texts, so an escape is lowered to one with the same meaning. -/

namespace LineGrammar

open Pattern CharClass

namespace Leaf

/-- What is put in place of an escape that is not refused, and how many of the characters that
follow it belong to it. -/
inductive Escaped (inClass : Bool) (rest : List Char) : Char → List Char → Nat → Prop
  | wordMembers (inside : inClass = true) : Escaped inClass rest 'w' wordMembers 0
  | word (outside : inClass = false) : Escaped inClass rest 'w' wordClass 0
  | nonWord : Escaped inClass rest 'W' nonWordClass 0
  | digit : Escaped inClass rest 'd' "\\p\x7bNd\x7d".toList 0
  | notDigit : Escaped inClass rest 'D' "\\P\x7bNd\x7d".toList 0
  | backspace (inside : inClass = true) : Escaped inClass rest 'b' ['\\', 'b'] 0
  | boundary (outside : inClass = false) : Escaped inClass rest 'b' wordBoundary 0
  | notBoundary (outside : inClass = false) : Escaped inClass rest 'B' notWordBoundary 0
  | start (outside : inClass = false) : Escaped inClass rest 'A' ['^'] 0
  | stop (outside : inClass = false) : Escaped inClass rest 'Z' ['$'] 0
  | bell : Escaped inClass rest 'a' "\\x07".toList 0
  | null : Escaped inClass rest '0' ['\\', '0'] 0
  | shared {c : Char} (mem : c ∈ ['s', 'S', 'n', 't', 'r', 'f', 'v', 'x', 'u']) :
    Escaped inClass rest c ['\\', c] 0
  | long (enough : (rest.take 8).length = 8)
    (hexadecimal : (rest.take 8).all isHexDigit = true) :
    Escaped inClass rest 'U' ("\\u\x7b".toList ++ rest.take 8 ++ ['}']) 8
  | special {c : Char} (mem : c ∈ patternChars ∨ inClass = true ∧ c = '-') :
    Escaped inClass rest c ['\\', c] 0
  | itself {c : Char} (sign : c.isAlphanum = false) (free : c ∉ patternChars)
    (undashed : inClass = true → c ≠ '-') : Escaped inClass rest c [c] 0

def Settles (inClass : Bool) (c : Char) (rest : List Char)
    (outcome : Except GrammarError (List Char × Nat)) : Prop :=
  ∀ native count, outcome = .ok (native, count) → Escaped inClass rest c native count

namespace Settles

variable {inClass : Bool} {c : Char} {rest native : List Char} {count : Nat}

theorem ok (escaped : Escaped inClass rest c native count) :
    Settles inClass c rest (.ok (native, count)) := by
  rintro text more eq
  obtain ⟨rfl, rfl⟩ : native = text ∧ count = more := by simpa using eq
  exact escaped

theorem error (error : GrammarError) : Settles inClass c rest (.error error) := nofun

theorem ite {p : Prop} [Decidable p] {yes no : Except GrammarError (List Char × Nat)}
    (hyes : p → Settles inClass c rest yes) (hno : ¬p → Settles inClass c rest no) :
    Settles inClass c rest (if p then yes else no) := by
  by_cases h : p
  · rw [if_pos h]
    exact hyes h
  · rw [if_neg h]
    exact hno h

end Settles

theorem settles_escape (inClass : Bool) (position : Nat) (c : Char) (rest : List Char) :
    Settles inClass c rest (escape inClass position c rest) := by
  unfold escape
  dsimp only
  refine .ite (fun same => ?_) fun _ => ?_
  · subst same
    cases inClass with
    | true => exact .ok (.wordMembers rfl)
    | false => exact .ok (.word rfl)
  refine .ite (fun same => .ok (same ▸ .nonWord)) fun _ => ?_
  refine .ite (fun same => .ok (same ▸ .digit)) fun _ => ?_
  refine .ite (fun same => .ok (same ▸ .notDigit)) fun _ => ?_
  refine .ite (fun same => ?_) fun _ => ?_
  · subst same
    cases inClass with
    | true => exact .ok (.backspace rfl)
    | false => exact .ok (.boundary rfl)
  refine .ite (fun test => .ok (test.1 ▸ .notBoundary (by simpa using test.2))) fun _ => ?_
  refine .ite (fun test => .ok (test.1 ▸ .start (by simpa using test.2))) fun _ => ?_
  refine .ite (fun test => .ok (test.1 ▸ .stop (by simpa using test.2))) fun _ => ?_
  refine .ite (fun same => .ok (same ▸ .bell)) fun _ => ?_
  refine .ite (fun alone => ?_) fun _ => ?_
  · obtain rfl := alone.1
    exact .ok .null
  refine .ite (fun both => .ok (.shared (by simpa using both))) fun _ => ?_
  refine .ite (fun same => ?_) fun _ => ?_
  · subst same
    exact .ite (fun digits => .ok (.long digits.1 digits.2)) fun _ => .error _
  refine .ite (fun _ => .error _) fun sign => ?_
  refine .ite (fun special => .ok (.special (by simpa using special))) fun free => ?_
  simp only [Bool.or_eq_true, Bool.and_eq_true, decide_eq_true_eq, not_or, not_and] at free
  exact .ok (.itself (by simpa using sign) (by simpa using free.1) free.2)

theorem escaped_of_eq_ok {inClass : Bool} {position count : Nat} {c : Char}
    {rest text : List Char} (lowered : escape inClass position c rest = .ok (text, count)) :
    Escaped inClass rest c text count :=
  settles_escape inClass position c rest text count lowered

theorem isPlain_of_isHexDigit {c : Char} (digit : isHexDigit c = true) : IsPlain c := by
  constructor <;> rintro rfl <;> simp [isHexDigit] at digit

namespace Escaped

variable {inClass : Bool} {c : Char} {more native : List Char} {count : Nat}

theorem isPlain_of_mem_take (escaped : Escaped inClass more c native count) :
    ∀ d ∈ more.take count, IsPlain d := by
  cases escaped with
  | long enough hexadecimal =>
    exact fun d mem => isPlain_of_isHexDigit (List.all_eq_true.mp hexadecimal d mem)
  | _ => simp

theorem count_le_length (escaped : Escaped inClass (more ++ [']']) c native count) :
    count ≤ more.length := by
  by_contra beyond
  have bracket : ']' ∈ (more ++ [']']).take count := by
    rw [List.take_of_length_le (by rw [List.length_append, List.length_singleton]; omega)]
    simp
  exact (escaped.isPlain_of_mem_take _ bracket).2 rfl

theorem isClassText (other : c ≠ 'W') (escaped : Escaped true more c native count) :
    isClassText native = true := by
  have plain := escaped.isPlain_of_mem_take
  cases escaped with
  | wordMembers inside => simp [Body.wordMembers_eq, Pattern.isClassText]
  | word outside | boundary outside | notBoundary outside | start outside | stop outside =>
    simp at outside
  | nonWord => contradiction
  | digit | notDigit | bell => simp [Pattern.isClassText]
  | backspace inside => exact isClassText_escape 'b' []
  | null => exact isClassText_escape '0' []
  | shared mem | special mem => exact isClassText_escape c []
  | long enough hexadecimal =>
    have braced : ∀ d ∈ '{' :: (more.take 8 ++ ['}']), IsPlain d := by
      simpa [IsPlain, or_imp, forall_and] using plain
    have body := isClassText_append_of_plain braced []
    simpa [isClassText_escape, Pattern.isClassText] using body
  | itself sign free _ =>
    have plain : IsPlain c := by
      constructor <;> rintro rfl <;> simp [patternChars] at free
    exact isClassText_cons plain []

end Escaped

theorem nativeFrom_nil (position : Nat) : nativeFrom position none [] = .ok [] := by
  rw [nativeFrom]

theorem nativeFrom_closing (position : Nat) (cls : OpenClass) :
    nativeFrom position (some cls) [']'] = .ok cls.closed := by
  rw [nativeFrom.eq_def]
  simp [nativeFrom_nil, Except.map]

theorem nativeFrom_plain {c : Char} (plain : IsPlain c) (position : Nat) (cls : OpenClass)
    (rest : List Char) :
    nativeFrom position (some cls) (c :: rest) =
      nativeFrom (position + c.utf8Size) (some (cls.add [c])) rest := by
  rw [nativeFrom.eq_def]
  simp [plain.1, plain.2]

theorem nativeFrom_nonWord (position : Nat) (cls : OpenClass) (more : List Char) :
    ∃ next, nativeFrom position (some cls) ('\\' :: 'W' :: more) =
      nativeFrom next (some { cls with nonWord := true }) more := by
  rw [nativeFrom.eq_def]
  exact ⟨_, rfl⟩

theorem nativeFrom_escape {e : Char} (other : e ≠ 'W') (position : Nat) (cls : OpenClass)
    (more : List Char) :
    nativeFrom position (some cls) ('\\' :: e :: more) =
      match escape true position e more with
      | .error error => .error error
      | .ok (text, count) =>
        nativeFrom (position + ('\\').utf8Size + Text.byteLength (e :: more.take count))
          (some (cls.add text)) (more.drop count) := by
  rw [nativeFrom.eq_def]
  exact if_neg other

/-- The text of a class without `\W` and the members that are put down for it. -/
inductive Lowers : List Char → List Char → Prop
  | nil : Lowers [] []
  | plain {c : Char} {text body : List Char} (plain : IsPlain c) (rest : Lowers text body) :
    Lowers (c :: text) (c :: body)
  | escape {e : Char} {more native : List Char} {count : Nat} {text body : List Char}
    (other : e ≠ 'W') (escaped : Escaped true more e native count) (rest : Lowers text body) :
    Lowers ('\\' :: e :: (more.take count ++ text)) (native ++ body)

variable {text body inside source : List Char}

theorem Lowers.isClassText (lowers : Lowers text body) : isClassText body = true := by
  induction lowers with
  | nil => rfl
  | plain plain rest ih => rwa [isClassText_cons plain]
  | escape other escaped rest ih => exact isClassText_append (escaped.isClassText other) ih

theorem nativeFrom_class {position : Nat} {cls : OpenClass} (closes : isClassText inside = true)
    (lowered : nativeFrom position (some cls) (inside ++ [']']) = .ok source) :
    ∃ body, Lowers (others inside) body ∧
      source = OpenClass.closed
        ⟨cls.negated, cls.body ++ body, cls.nonWord || hasNonWord inside⟩ := by
  induction size : inside.length using Nat.strongRecOn generalizing inside position cls with
  | ind size ih =>
    subst size
    rcases isClassText_cases closes with rfl | ⟨c, more, rfl, plain, later⟩ | ⟨c, more, rfl, later⟩
    · rw [List.nil_append, nativeFrom_closing] at lowered
      obtain rfl := Except.ok.inj lowered
      exact ⟨[], .nil, by simp [hasNonWord]⟩
    · rw [List.cons_append, nativeFrom_plain plain] at lowered
      obtain ⟨body, lowers, rfl⟩ := ih more.length (by simp) later lowered rfl
      rw [others_plain plain.1, hasNonWord_plain plain.1]
      exact ⟨c :: body, .plain plain lowers, by simp [OpenClass.add]⟩
    · rw [List.cons_append, List.cons_append] at lowered
      by_cases word : c = 'W'
      · subst word
        obtain ⟨next, skips⟩ := nativeFrom_nonWord position cls (more ++ [']'])
        rw [skips] at lowered
        have shorter : more.length < ('\\' :: 'W' :: more).length := by
          rw [List.length_cons, List.length_cons]
          omega
        obtain ⟨body, lowers, rfl⟩ := ih more.length shorter later lowered rfl
        rw [others_nonWord, hasNonWord_escape]
        exact ⟨body, lowers, by simp⟩
      · rw [nativeFrom_escape word] at lowered
        split at lowered
        · simp at lowered
        · next native count read =>
          have escaped := escaped_of_eq_ok read
          have fits := escaped.count_le_length
          have digits := escaped.isPlain_of_mem_take
          rw [List.take_append_of_le_length fits] at digits
          rw [List.drop_append_of_le_length fits] at lowered
          have after : isClassText (more.drop count) = true := by
            rwa [← List.take_append_drop count more, isClassText_append_of_plain digits] at later
          have shorter : (more.drop count).length < ('\\' :: c :: more).length := by simp; omega
          obtain ⟨body, lowers, rfl⟩ := ih _ shorter after lowered rfl
          have lowers' := Lowers.escape word escaped lowers
          rw [List.take_append_of_le_length fits, ← others_append_of_plain digits,
            List.take_append_drop, ← others_escape word] at lowers'
          refine ⟨native ++ body, lowers', ?_⟩
          have same := hasNonWord_append_of_plain digits (more.drop count)
          rw [List.take_append_drop] at same
          simp [hasNonWord_escape, word, same, OpenClass.add]

theorem nativeFrom_bracket (closes : isClassText inside = true)
    (lowered : nativeFrom 0 none ('[' :: (inside ++ [']'])) = .ok source) :
    ∃ body, Lowers (others (written inside)) body ∧
      source = OpenClass.closed ⟨isNegated inside, body, hasNonWord (written inside)⟩ := by
  rw [nativeFrom.eq_def] at lowered
  rcases isNegated_cases inside with ⟨members, rfl, marked, rest⟩ | ⟨first, unmarked, rest⟩
  · rw [isClassText_cons (by simp [IsPlain])] at closes
    simp only [List.cons_append, List.head?_cons] at lowered
    rw [marked, rest]
    exact nativeFrom_class closes lowered
  · have first' : (inside ++ [']']).head? ≠ some '^' := by
      cases inside with
      | nil => simp
      | cons c members => simpa using first
    simp only [first', if_false] at lowered
    rw [unmarked, rest]
    exact nativeFrom_class closes lowered

theorem Escaped.exists_stop {e : Char} {more native : List Char} {count : Nat} (other : e ≠ 'W')
    (escaped : Escaped true more e native count) :
    ∃ stop tail, native = stop :: tail ∧ IsStop stop := by
  have backslash : IsStop '\\' := ⟨by decide, by decide⟩
  cases escaped with
  | wordMembers inside => exact ⟨'_', _, Body.wordMembers_eq, by decide, by decide⟩
  | word outside | boundary outside | notBoundary outside | start outside | stop outside =>
    simp at outside
  | nonWord => contradiction
  | digit | notDigit | bell | long | backspace | null | shared | special =>
    exact ⟨'\\', _, rfl, backslash⟩
  | itself sign free _ =>
    refine ⟨e, [], rfl, hexValue?_of_sign sign, ?_⟩
    simp_all [patternChars]

theorem Escaped.of_unicode {more native : List Char} {count : Nat}
    (escaped : Escaped true more 'u' native count) : native = ['\\', 'u'] ∧ count = 0 := by
  generalize letter : 'u' = e at escaped
  cases escaped with
  | itself sign free _ =>
    subst letter
    simp [Char.isAlphanum, Char.isAlpha, Char.isLower] at sign
  | _ => simp_all

theorem trailSurrogate?_of_ne {c : Char} (other : c ≠ '\\') (rest : List Char) :
    trailSurrogate? (c :: rest) = none := by
  cases rest <;> simp [trailSurrogate?, other]

theorem Escaped.trailSurrogate?_eq_none {e : Char} {more native : List Char} {count : Nat}
    (other : e ≠ 'W') (notHalf : e ≠ 'u') (escaped : Escaped true more e native count)
    (body : List Char) : trailSurrogate? (native ++ body) = none := by
  cases escaped with
  | wordMembers inside =>
    rw [Body.wordMembers_eq]
    exact trailSurrogate?_of_ne (by decide) _
  | word outside | boundary outside | notBoundary outside | start outside | stop outside =>
    simp at outside
  | nonWord => contradiction
  | digit | notDigit | bell | backspace | null | shared | special =>
    simp [trailSurrogate?, notHalf]
  | long enough hexadecimal =>
    have braced (rest : List Char) : fourDigits? ('{' :: rest) = none := by
      rw [fourDigits?, List.take_succ_cons,
        hexNumber?_eq_none List.mem_cons_self (by decide) (by decide), ite_self]
    simp [trailSurrogate?, braced]
  | itself sign free _ =>
    refine trailSurrogate?_of_ne ?_ _
    rintro rfl
    simp [patternChars] at free

theorem Escaped.head?_ne {e : Char} {more native : List Char} {count : Nat} (other : e ≠ 'W')
    (escaped : Escaped true more e native count) (body : List Char) :
    (native ++ body).head? ≠ some '^' := by
  cases escaped with
  | wordMembers inside => simp [Body.wordMembers_eq]
  | word outside | boundary outside | notBoundary outside | start outside | stop outside =>
    simp at outside
  | nonWord => contradiction
  | digit | notDigit | bell | backspace | null | shared | special | long => simp
  | itself sign free _ =>
    rw [List.cons_append, List.head?_cons]
    rintro ⟨⟩
    simp [patternChars] at free

namespace Lowers

theorem same {α : Type} (lowers : Lowers text body) (look : List Char → α)
    (stops : ∀ start stop rest, IsStop stop → look (start ++ stop :: rest) = look start) :
    look text = look body := by
  induction lowers generalizing look with
  | nil => rfl
  | @plain c _ _ plain rest ih =>
    exact ih (fun seen => look (c :: seen)) fun start stop rest =>
      stops (c :: start) stop rest
  | escape other escaped rest ih =>
    obtain ⟨stop, tail, rfl, ends⟩ := escaped.exists_stop other
    have backslash : IsStop '\\' := ⟨by decide, by decide⟩
    exact (stops [] _ _ backslash).trans (stops [] _ _ ends).symm

theorem eq_nil (lowers : Lowers text []) : text = [] := by
  generalize spelled : [] = whole at lowers
  cases lowers with
  | nil => rfl
  | plain => simp at spelled
  | escape other escaped rest =>
    obtain ⟨stop, tail, rfl, -⟩ := escaped.exists_stop other
    simp at spelled

theorem of_plain {c : Char} (plain : IsPlain c) (lowers : Lowers (c :: text) body) :
    ∃ body', body = c :: body' ∧ Lowers text body' := by
  generalize spelled : c :: text = whole at lowers
  cases lowers with
  | nil => simp at spelled
  | plain plain' rest =>
    obtain ⟨rfl, rfl⟩ := List.cons.inj spelled
    exact ⟨_, rfl, rest⟩
  | escape => exact absurd (List.cons.inj spelled).1 plain.1

theorem of_escape {e : Char} (lowers : Lowers ('\\' :: e :: text) body) :
    ∃ more native count text' body', e ≠ 'W' ∧ Escaped true more e native count ∧
      text = more.take count ++ text' ∧ body = native ++ body' ∧ Lowers text' body' := by
  generalize spelled : '\\' :: e :: text = whole at lowers
  cases lowers with
  | nil => simp at spelled
  | plain plain => exact absurd (List.cons.inj spelled).1.symm plain.1
  | escape other escaped rest =>
    obtain ⟨rfl, rfl⟩ := List.cons.inj (List.cons.inj spelled).2
    exact ⟨_, _, _, _, _, other, escaped, rfl, rfl, rest⟩

theorem append {start : List Char} (plain : ∀ c ∈ start, IsPlain c) (lowers : Lowers text body) :
    Lowers (start ++ text) (start ++ body) := by
  induction start with
  | nil => exact lowers
  | cons c start ih =>
    exact .plain (plain c List.mem_cons_self) (ih fun d mem => plain d (List.mem_cons_of_mem _ mem))

theorem of_append {start : List Char} (plain : ∀ c ∈ start, IsPlain c)
    (lowers : Lowers (start ++ text) body) :
    ∃ body', body = start ++ body' ∧ Lowers text body' := by
  induction start generalizing body with
  | nil => exact ⟨body, rfl, lowers⟩
  | cons c start ih =>
    obtain ⟨body', rfl, rest⟩ := of_plain (plain c List.mem_cons_self) lowers
    obtain ⟨body', rfl, rest'⟩ := ih (fun d mem => plain d (List.mem_cons_of_mem _ mem)) rest
    exact ⟨body', rfl, rest'⟩

theorem of_unicode (lowers : Lowers ('\\' :: 'u' :: text) body) :
    ∃ body', body = '\\' :: 'u' :: body' ∧ Lowers text body' := by
  obtain ⟨more, native, count, text', body', -, escaped, rfl, rfl, rest⟩ := of_escape lowers
  obtain ⟨rfl, rfl⟩ := escaped.of_unicode
  exact ⟨body', rfl, rest⟩

theorem trailSurrogate?_eq (lowers : Lowers text body) :
    trailSurrogate? text = trailSurrogate? body := by
  cases lowers with
  | nil => rfl
  | @plain c text body plain rest =>
    rw [trailSurrogate?_of_ne plain.1, trailSurrogate?_of_ne plain.1]
  | @escape e more native count text body other escaped rest =>
    by_cases half : e = 'u'
    · subst half
      obtain ⟨rfl, rfl⟩ := escaped.of_unicode
      have digits := rest.same fourDigits? fun start stop rest stops =>
        fourDigits?_stop stops start rest
      simp [trailSurrogate?, digits]
    · rw [escaped.trailSurrogate?_eq_none other half]
      simp [trailSurrogate?, half]

theorem unicodeEscape?_eq (lowers : Lowers text body) :
    unicodeEscape? text = unicodeEscape? body := by
  cases lowers with
  | nil => rfl
  | @plain c text body plain rest =>
    by_cases braced : c = '{'
    · subst braced
      exact rest.same (fun seen => unicodeEscape? ('{' :: seen))
        fun start stop rest stops => braced_stop stops start rest
    · have whole := Lowers.plain plain rest
      have first := whole.same fourDigits? fun start stop rest stops =>
        fourDigits?_stop stops start rest
      rw [unicodeEscape?_unbraced braced, unicodeEscape?_unbraced braced, ← first]
      cases read : fourDigits? (c :: text) with
      | none => rfl
      | some lead =>
        obtain ⟨digits, tail, spelled, length, number⟩ := split_of_fourDigits? read
        rw [spelled] at whole
        obtain ⟨body', spelled', rest'⟩ := whole.of_append (isPlain_of_hexNumber? number)
        rw [spelled, spelled', ← length, List.drop_left, List.drop_left, rest'.trailSurrogate?_eq]
  | escape other escaped rest =>
    obtain ⟨stop, tail, rfl, ends⟩ := escaped.exists_stop other
    rw [List.cons_append, unicodeEscape?_stop ends]
    exact unicodeEscape?_stop ⟨by decide, by decide⟩ _

theorem of_operand {operand : List Char} (belongs : Operand operand)
    (lowers : Lowers (operand ++ text) body) :
    ∃ body', body = operand ++ body' ∧ Lowers text body' := by
  rcases belongs.isPlain_or_pair with plain | ⟨lead, trail, rfl, first, second⟩
  · exact lowers.of_append plain
  · rw [List.append_assoc] at lowers
    obtain ⟨_, rfl, half⟩ := lowers.of_append first
    obtain ⟨_, rfl, digits⟩ := of_unicode half
    obtain ⟨body', rfl, rest⟩ := digits.of_append second
    exact ⟨body', by simp, rest⟩

end Lowers

end Leaf

end LineGrammar
