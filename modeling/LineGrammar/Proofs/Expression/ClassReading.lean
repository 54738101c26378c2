import LineGrammar.Proofs.Expression.ClassLowering

/-! Reading the lowered text of a class. The reader adds the members one after another, so the set
that it ends with has the codes of their union. -/

namespace LineGrammar.CharClass

open Pattern

section

def Item.ofAtom : ClassAtom → Item
  | .point code => .point code
  | .property kind negated => .property kind negated

def add (cls : OpenClass) : Item → Except Fault OpenClass
  | .point code => Reading.OpenClass.add cls (.point code) false
  | .dash => Reading.OpenClass.add cls (.point 0x2D) true
  | .property kind negated => Reading.OpenClass.add cls (.property kind negated) false
  | .word _ | .broken => .error .characterEscape

def pendingItems : RangeStart → List Item
  | .nothing => []
  | .atom first => [.ofAtom first]
  | .dash first => [.ofAtom first, .dash]

variable {cls next last : OpenClass} {item : Item} {items rest : List Item} {code : Nat}

theorem contains_member (atom : ClassAtom) (code : Nat) :
    atom.member.contains code = (Item.ofAtom atom).contains code := by
  cases atom with
  | property => rfl
  | point =>
    rw [Bool.eq_iff_iff]
    simp only [ClassAtom.member, SetMember.contains, Item.ofAtom, Item.contains, Bool.and_eq_true,
      decide_eq_true_eq]
    omega

theorem union_cons_of_undashed {second : Item} (undashed : second ≠ .dash) :
    union code (item :: second :: rest) = (item.contains code || union code (second :: rest)) := by
  refine union_cons (Option.eq_none_iff_forall_ne_some.mpr fun ⟨low, high⟩ range => ?_)
  obtain ⟨_, _, _, eq, -⟩ := range?_eq_some_iff.mp range
  exact undashed (List.cons.inj (List.cons.inj eq).2).1

theorem union_dash : union code (.dash :: rest) = union code (.point 0x2D :: rest) := by
  have same : range? (.dash :: rest) = range? (.point 0x2D :: rest) := by
    cases rest with
    | nil => rfl
    | cons second rest => cases second <;> cases rest <;> rfl
  cases range : range? (.point 0x2D :: rest) with
  | none =>
    rw [union_cons range, union_cons (same.trans range)]
    rfl
  | some ends => rw [union_range range, union_range (same.trans range)]

theorem ofAtom_ne_dash (atom : ClassAtom) : Item.ofAtom atom ≠ .dash := by
  cases atom <;> simp [Item.ofAtom]

def covered (cls : OpenClass) (rest : List Item) (code : Nat) : Bool :=
  cls.members.any (·.contains code) || union code (pendingItems cls.pending ++ rest)

theorem covered_of_add_atom {atom : ClassAtom}
    (added : Reading.OpenClass.add cls atom false = .ok next) :
    covered next rest code = covered cls (.ofAtom atom :: rest) code := by
  unfold Reading.OpenClass.add at added
  cases pending : cls.pending with
  | nothing =>
    rw [pending] at added
    obtain rfl := Except.ok.inj added
    simp [covered, pending, pendingItems]
  | atom first =>
    rw [pending] at added
    obtain rfl := Except.ok.inj added
    simp [covered, pending, pendingItems, union_cons_of_undashed (ofAtom_ne_dash atom),
      contains_member, Bool.or_left_comm, Bool.or_assoc]
  | dash first =>
    rw [pending] at added
    cases first with
    | property => simp at added
    | point low =>
      cases atom with
      | property => simp at added
      | point high =>
        by_cases reversed : high < low
        · simp [reversed] at added
        · simp only [reversed, if_false] at added
          obtain rfl := Except.ok.inj added
          have range : range? (.point low :: .dash :: .point high :: rest) = some (low, high) := rfl
          simp [covered, pending, pendingItems, Item.ofAtom, union_range range,
            SetMember.contains, Bool.or_left_comm, Bool.or_assoc]

theorem covered_of_add (added : add cls item = .ok next) :
    covered next rest code = covered cls (item :: rest) code := by
  cases item with
  | point code => exact covered_of_add_atom added
  | property kind negated => exact covered_of_add_atom added
  | word | broken => simp [add] at added
  | dash =>
    cases pending : cls.pending with
    | atom first =>
      simp only [add, Reading.OpenClass.add, pending, if_true] at added
      obtain rfl := Except.ok.inj added
      simp [covered, pending, pendingItems]
    | nothing =>
      have added' : Reading.OpenClass.add cls (.point 0x2D) false = .ok next := by
        simpa [add, Reading.OpenClass.add, pending] using added
      rw [covered_of_add_atom added']
      simp [covered, pending, pendingItems, union_dash, Item.ofAtom]
    | dash first =>
      have added' : Reading.OpenClass.add cls (.point 0x2D) false = .ok next := by
        simpa [add, Reading.OpenClass.add, pending] using added
      rw [covered_of_add_atom added']
      cases first with
      | property => simp [Reading.OpenClass.add, pending] at added'
      | point low =>
        have point : range? (.point low :: .dash :: .point 0x2D :: rest) = some (low, 0x2D) := rfl
        have dash : range? (.point low :: .dash :: .dash :: rest) = some (low, 0x2D) := rfl
        simp [covered, pending, pendingItems, Item.ofAtom, union_range point, union_range dash]

theorem any_finalMembers (added : items.foldlM add cls = .ok last) (code : Nat) :
    (Reading.finalMembers last).any (·.contains code) = covered cls items code := by
  induction items generalizing cls with
  | nil =>
    obtain rfl := Except.ok.inj added
    cases pending : cls.pending with
    | nothing => simp [Reading.finalMembers, covered, pending, pendingItems, union_nil]
    | atom first =>
      have alone : range? [.ofAtom first] = none := rfl
      simp [Reading.finalMembers, covered, pending, pendingItems, union_cons alone, union_nil,
        contains_member]
    | dash first =>
      have alone : range? [.ofAtom first, .dash] = none := rfl
      have dash : range? [.dash] = none := rfl
      have hyphen : (SetMember.range 0x2D 0x2D).contains code = Item.dash.contains code :=
        contains_member (.point 0x2D) code
      simp [Reading.finalMembers, covered, pending, pendingItems, union_cons alone,
        union_cons dash, union_nil, contains_member, hyphen]
  | cons item rest ih =>
    rw [List.foldlM_cons, bind_eq_ok] at added
    obtain ⟨next, first, later⟩ := added
    rw [ih later, covered_of_add first]

end

section

variable {text body more : List Char} {e : Char}

/-- Where the reader gets through the first text, it gets to the second by adding the items. -/
def Continues (items : List Item) (body later : List Char) : Prop :=
  ∀ (cls : OpenClass) (reading : Reading) (rest : List Char) (result : Reading),
    (reading.within cls).run (body ++ ']' :: rest) = .ok result →
      ∃ next, items.foldlM add cls = .ok next ∧
        (reading.within next).run (later ++ ']' :: rest) = .ok result

theorem Continues.trans {items items' : List Item} {middle later : List Char}
    (first : Continues items body middle) (second : Continues items' middle later) :
    Continues (items ++ items') body later := by
  intro cls reading rest result run
  obtain ⟨next, added, run'⟩ := first cls reading rest result run
  obtain ⟨last, added', run''⟩ := second next reading rest result run'
  refine ⟨last, ?_, run''⟩
  rw [List.foldlM_append, bind_eq_ok]
  exact ⟨next, added, added'⟩

theorem continues_plain {c : Char} (plain : IsPlain c) (body : List Char) :
    Continues [if c = '-' then .dash else .point c.toNat] (c :: body) body := by
  intro cls reading rest result run
  rw [List.cons_append, Reading.run_within_plain plain] at run
  obtain ⟨next, added, run'⟩ := bind_eq_ok.mp run
  refine ⟨next, ?_, run'⟩
  rw [List.foldlM_cons, bind_eq_ok]
  refine ⟨next, ?_, rfl⟩
  by_cases dash : c = '-'
  · subst dash
    exact added
  · simpa [add, dash] using added

theorem continues_escape {c : Char} {atom : ClassAtom} {count : Nat}
    (read : escape true c body = .ok (atom, count)) (fits : count ≤ body.length) :
    Continues [.ofAtom atom] ('\\' :: c :: body) (body.drop count) := by
  intro cls reading rest result run
  have read' : escape true c (body ++ ']' :: rest) = .ok (atom, count) :=
    (escape_fence (by simp [IsFence]) ..).trans read
  rw [List.cons_append, List.cons_append, Reading.run_within_escape read',
    List.drop_append_of_le_length fits] at run
  obtain ⟨next, added, run'⟩ := bind_eq_ok.mp run
  refine ⟨next, ?_, run'⟩
  rw [List.foldlM_cons, bind_eq_ok]
  refine ⟨next, ?_, rfl⟩
  cases atom <;> exact added

theorem continues_fault {c : Char} {fault : Fault} (read : escape true c body = .error fault)
    (items : List Item) (later : List Char) : Continues items ('\\' :: c :: body) later := by
  intro cls reading rest result run
  have read' : escape true c (body ++ ']' :: rest) = .error fault :=
    (escape_fence (by simp [IsFence]) ..).trans read
  have fails : (reading.within cls).run ('\\' :: c :: body ++ ']' :: rest) = .error fault := by
    apply Reading.run_fault
    simp [Reading.step, Reading.within, Reading.stepClass, read', bind, Except.bind]
  exact absurd (fails.symm.trans run) (by simp)

theorem continues_wordMembers (body : List Char) :
    Continues (Item.expand (.word false)) (Leaf.wordMembers ++ body) body := by
  have first := continues_plain (c := '_') (by simp [IsPlain])
    ('\\' :: 'p' :: '{' :: 'L' :: '}' :: '\\' :: 'p' :: '{' :: 'N' :: '}' :: body)
  have second :=
    continues_escape (Body.escape_letter ('\\' :: 'p' :: '{' :: 'N' :: '}' :: body)) (by simp)
  have third := continues_escape (Body.escape_number body) (by simp)
  simpa [Body.wordMembers_eq, Item.expand, Item.ofAtom] using first.trans (second.trans third)

/-- The reader gets through what the escape is put down as by adding its item, and then it reads
what the text behind the escape is put down as. -/
def Consumes (e : Char) (text body : List Char) : Prop :=
  ∃ later, Leaf.Lowers (text.drop (escaped e text).2) later ∧
    Continues (escaped e text).1.expand body later

theorem consumes_of_escape {c : Char} {tail : List Char} {item : Item} {atom : ClassAtom}
    (known : escaped e text = (item, 0)) (alone : item.expand = [.ofAtom atom])
    (reads : escape true c (tail ++ body) = .ok (atom, tail.length))
    (lowers : Leaf.Lowers text body) : Consumes e text ('\\' :: c :: (tail ++ body)) := by
  have continues := continues_escape reads (by simp)
  rw [List.drop_left, ← alone] at continues
  rw [Consumes, known]
  exact ⟨body, lowers, continues⟩

theorem consumes_of_letter {c : Char} {item : Item} {atom : ClassAtom}
    (known : escaped e text = (item, 0)) (alone : item.expand = [.ofAtom atom])
    (reads : escape true c body = .ok (atom, 0)) (lowers : Leaf.Lowers text body) :
    Consumes e text ('\\' :: c :: body) :=
  @consumes_of_escape _ _ _ _ [] _ _ known alone reads lowers

theorem consumes_of_number (found : Option (Nat × Nat))
    (known : escaped e text = numbered found)
    (reads : ∀ code count, found = some (code, count) →
      escape true e body = .ok (.point code, count) ∧ StartsWithOperand text count)
    (fails : found = none → ∃ fault, escape true e body = .error fault)
    (lowers : Leaf.Lowers text body) : Consumes e text ('\\' :: e :: body) := by
  rw [Consumes, known]
  cases found with
  | none =>
    obtain ⟨fault, read⟩ := fails rfl
    exact ⟨body, lowers, continues_fault read _ _⟩
  | some ends =>
    obtain ⟨code, count⟩ := ends
    obtain ⟨read, operand, later, rfl, length, belongs⟩ := reads code count rfl
    obtain ⟨body', rfl, lowers'⟩ := lowers.of_operand belongs
    have continues := continues_escape read (by simp [length])
    rw [← length, List.drop_left] at continues
    refine ⟨body', ?_, continues⟩
    simpa [numbered, ← length] using lowers'

theorem consumes_hex (lowers : Leaf.Lowers text body) :
    Consumes 'x' text ('\\' :: 'x' :: body) := by
  have digits := lowers.same hexEscape? fun start stop rest stops =>
    hexEscape?_stop stops start rest
  refine consumes_of_number ((hexEscape? text).map (·, 2)) rfl ?_ ?_ lowers
  · intro code count found
    obtain ⟨_, read, eq⟩ := Option.map_eq_some_iff.mp found
    obtain ⟨rfl, rfl⟩ := Prod.mk.inj eq
    exact ⟨by simp [escape, ← digits, read], startsWithOperand_of_hexEscape? read⟩
  · intro none
    have read := Option.map_eq_none_iff.mp none
    exact ⟨.characterEscape, by simp [escape, ← digits, read]⟩

theorem consumes_unicode (lowers : Leaf.Lowers text body) :
    Consumes 'u' text ('\\' :: 'u' :: body) := by
  have digits := lowers.unicodeEscape?_eq
  refine consumes_of_number (unicodeEscape? text) rfl ?_ ?_ lowers
  · intro code count read
    exact ⟨by simp [escape, ← digits, read], startsWithOperand_of_unicodeEscape? read⟩
  · intro read
    exact ⟨.unicodeEscape, by simp [escape, ← digits, read]⟩

theorem consumes_long {digits : List Char} (enough : digits.length = 8)
    (hexadecimal : digits.all Leaf.isHexDigit = true) (lowers : Leaf.Lowers text body) :
    Consumes 'U' (digits ++ text) ("\\u\x7b".toList ++ digits ++ ['}'] ++ body) := by
  have plain : ∀ c ∈ digits, IsPlain c := fun c mem =>
    Leaf.isPlain_of_isHexDigit (List.all_eq_true.mp hexadecimal c mem)
  have free : '}' ∉ digits := fun mem => by
    have digit := List.all_eq_true.mp hexadecimal _ mem
    simp [Leaf.isHexDigit] at digit
  have spelled : "\\u\x7b".toList ++ digits ++ ['}'] ++ body =
      '\\' :: 'u' :: '{' :: (digits ++ '}' :: body) := by
    simp
  have taken : (digits ++ text).take 8 = digits := by
    rw [← enough, List.take_left]
  have known : escaped 'U' (digits ++ text) = numbered (longEscape? (digits ++ text)) := rfl
  have braced := unicodeEscape?_braced free body
  rw [longEscape?, taken, if_pos ⟨enough, hexadecimal⟩] at known
  rw [Consumes, known, spelled]
  cases number : (hexNumber? digits).filter (· ≤ 0x10FFFF) with
  | none =>
    rw [number] at braced
    have read : escape true 'u' ('{' :: (digits ++ '}' :: body)) = .error .unicodeEscape := by
      simp [escape, braced]
    exact ⟨digits ++ body, lowers.append plain, continues_fault read _ _⟩
  | some code =>
    rw [number] at braced
    have read : escape true 'u' ('{' :: (digits ++ '}' :: body)) =
        .ok (.point code, digits.length + 2) := by
      simp [escape, braced]
    have continues := continues_escape read (by simp)
    have behind : ('{' :: (digits ++ '}' :: body)).drop (digits.length + 2) = body := by simp
    rw [behind] at continues
    refine ⟨body, ?_, continues⟩
    rw [Option.map_some, numbered, ← enough, List.drop_left]
    exact lowers

theorem consumes_wordMembers (lowers : Leaf.Lowers text body) :
    Consumes 'w' text (Leaf.wordMembers ++ body) := by
  have known : escaped 'w' text = (.word false, 0) := escaped_of_shorthand rfl _
  rw [Consumes, known]
  exact ⟨body, lowers, continues_wordMembers body⟩

theorem consumes_digit (lowers : Leaf.Lowers text body) :
    Consumes 'd' text ("\\p\x7bNd\x7d".toList ++ body) := by
  have reads : escape true 'p' (['{', 'N', 'd', '}'] ++ body) =
      .ok (.property .decimalDigit false, 4) := by
    simp [escape, propertyName?, List.isPrefixOf]
  exact consumes_of_escape (escaped_of_shorthand rfl _) rfl reads lowers

theorem consumes_notDigit (lowers : Leaf.Lowers text body) :
    Consumes 'D' text ("\\P\x7bNd\x7d".toList ++ body) := by
  have reads : escape true 'P' (['{', 'N', 'd', '}'] ++ body) =
      .ok (.property .decimalDigit true, 4) := by
    simp [escape, propertyName?, List.isPrefixOf]
  exact consumes_of_escape (escaped_of_shorthand rfl _) rfl reads lowers

theorem consumes_bell (lowers : Leaf.Lowers text body) :
    Consumes 'a' text ("\\x07".toList ++ body) := by
  have reads : escape true 'x' (['0', '7'] ++ body) = .ok (.point 0x7, 2) := by
    simp [escape, hexEscape?, hexValue?]
  exact consumes_of_escape (escaped_of_shorthand rfl _) rfl reads lowers

theorem consumes_backspace (lowers : Leaf.Lowers text body) :
    Consumes 'b' text ('\\' :: 'b' :: body) := by
  have reads : escape true 'b' body = .ok (.point 0x8, 0) := by
    simp [escape, reservedChars]
  exact consumes_of_letter (escaped_of_shorthand rfl _) rfl reads lowers

theorem consumes_special (mem : e ∈ Leaf.patternChars ∨ e = '-') (lowers : Leaf.Lowers text body) :
    Consumes e text ('\\' :: e :: body) := by
  obtain ⟨sign, reads⟩ : e.isAlphanum = false ∧
      escape true e body = .ok (.point e.toNat, 0) := by
    simp only [Leaf.patternChars, List.mem_cons, List.not_mem_nil, or_false] at mem
    rcases mem with (rfl | rfl | rfl | rfl | rfl | rfl | rfl | rfl | rfl | rfl | rfl | rfl | rfl |
      rfl | rfl) | rfl <;> exact ⟨by decide, by simp [escape, reservedChars]⟩
  exact consumes_of_letter (escaped_of_sign sign _) rfl reads lowers

theorem consumes_itself (sign : e.isAlphanum = false) (free : e ∉ Leaf.patternChars)
    (undashed : e ≠ '-') (lowers : Leaf.Lowers text body) : Consumes e text (e :: body) := by
  have plain : IsPlain e := by
    constructor <;> rintro rfl <;> simp [Leaf.patternChars] at free
  have continues := continues_plain plain body
  rw [if_neg undashed] at continues
  rw [Consumes, escaped_of_sign sign]
  exact ⟨body, lowers, continues⟩

theorem consumes_null (lowers : Leaf.Lowers text body) :
    Consumes '0' text ('\\' :: '0' :: body) := by
  have digit : text.head?.any Char.isDigit = body.head?.any Char.isDigit :=
    lowers.same (fun seen => seen.head?.any Char.isDigit) fun start stop rest stops => by
      cases start with
      | nil => simpa using isDigit_of_isStop stops
      | cons => rfl
  have known : escaped '0' text =
      (if text.head?.any Char.isDigit then .broken else .point 0, 0) := rfl
  by_cases follows : body.head?.any Char.isDigit = true
  · have read : escape true '0' body = .error .characterEscape := by simp [escape, follows]
    rw [Consumes, known, digit, if_pos follows]
    exact ⟨body, lowers, continues_fault read _ _⟩
  · rw [digit, if_neg follows] at known
    have reads : escape true '0' body = .ok (.point 0, 0) := by simp [escape, follows]
    exact consumes_of_letter known rfl reads lowers

theorem consumes_shared (mem : e ∈ ['s', 'S', 'n', 't', 'r', 'f', 'v', 'x', 'u'])
    (lowers : Leaf.Lowers text body) : Consumes e text ('\\' :: e :: body) := by
  simp only [List.mem_cons, List.not_mem_nil, or_false] at mem
  rcases mem with rfl | rfl | rfl | rfl | rfl | rfl | rfl | rfl | rfl
  iterate 7
    exact consumes_of_letter (escaped_of_shorthand rfl _) rfl (by simp [escape]; rfl) lowers
  · exact consumes_hex lowers
  · exact consumes_unicode lowers

theorem consumes_of_lowers (lowers : Leaf.Lowers ('\\' :: e :: text) body) :
    Consumes e text body := by
  obtain ⟨more, native, count, text', body', other, escaped', rfl, rfl, rest⟩ := lowers.of_escape
  cases escaped' with
  | word outside | boundary outside | notBoundary outside | start outside | stop outside =>
    simp at outside
  | nonWord => contradiction
  | wordMembers inside => exact consumes_wordMembers rest
  | digit => exact consumes_digit rest
  | notDigit => exact consumes_notDigit rest
  | bell => exact consumes_bell rest
  | backspace inside => exact consumes_backspace rest
  | special mem => exact consumes_special (by simpa using mem) rest
  | itself sign free undashed => exact consumes_itself sign free (undashed rfl) rest
  | null => exact consumes_null rest
  | shared mem => exact consumes_shared mem rest
  | long enough hexadecimal => exact consumes_long enough hexadecimal rest

theorem continues_items (lowers : Leaf.Lowers text body) :
    Continues ((items text).flatMap Item.expand) body [] := by
  induction size : text.length using Nat.strongRecOn generalizing text body with
  | ind size ih =>
    subst size
    cases lowers with
    | nil =>
      rw [items]
      exact fun cls reading rest result run => ⟨cls, rfl, run⟩
    | @plain c text body plain rest =>
      have later := ih text.length (by simp) rest rfl
      have first := continues_plain plain body
      rw [items_plain plain.1, List.flatMap_cons]
      have alone : Item.expand (if c = '-' then .dash else .point c.toNat) =
          [if c = '-' then .dash else .point c.toNat] := by
        split <;> rfl
      rw [alone]
      exact first.trans later
    | @escape e more native count text body other escaped' rest =>
      obtain ⟨later, lowers', first⟩ := consumes_of_lowers (.escape other escaped' rest)
      rw [items_escape, List.flatMap_cons]
      refine first.trans (ih _ ?_ lowers' rfl)
      rw [List.length_drop, List.length_cons, List.length_cons]
      omega

end

end LineGrammar.CharClass
