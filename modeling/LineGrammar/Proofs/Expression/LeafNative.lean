import LineGrammar.Proofs.Expression.ClassLowering
import LineGrammar.Proofs.Expression.LeafToken

/-! What leaf tokens stand for. The native text of a leaf is one term, which takes one character or,
for a few leaves, tests the characters on either side; or it is refused wherever it stands. Only
the text for the null character reads differently before a digit. -/

namespace LineGrammar

open Pattern

namespace Leaf

/-- The texts of leaves and what is put in place of them. -/
inductive Native : List Char → List Char → Prop
  | bracket {c : Char} (mem : c ∈ [']', '}', '{']) : Native [c] ['\\', c]
  | plain {c : Char} (free : c ∉ Token.roleChars) (other : c ∉ [']', '}']) : Native [c] [c]
  | escape {c : Char} {source : List Char} {count : Nat}
    (escaped : Escaped false [] c source count) : Native ['\\', c] source
  | charClass {inside : List Char} {cls : OpenClass} (body : isClassText cls.body = true) :
    Native ('[' :: (inside ++ [']'])) cls.closed

theorem native_plain {c : Char} {source : List Char} (free : c ∉ Token.roleChars)
    (lowered : nativeFrom 0 none [c] = .ok source) : Native [c] source := by
  have others := free
  simp only [Token.roleChars, List.mem_cons, List.not_mem_nil, or_false, not_or] at others
  rw [nativeFrom.eq_def] at lowered
  simp only [others, if_false, nativeFrom_nil, Except.map, List.append_nil] at lowered
  by_cases closing : c = ']' ∨ c = '}'
  · rw [if_pos closing] at lowered
    obtain rfl := Except.ok.inj lowered
    exact .bracket (by rcases closing with rfl | rfl <;> simp)
  · rw [if_neg closing] at lowered
    obtain rfl := Except.ok.inj lowered
    exact .plain free (by simpa using closing)

theorem native_of_isToken {text source : String} (isToken : IsToken text)
    (eq : native text = .ok source) : Native text.toList source.toList := by
  obtain ⟨source, lowered, rfl⟩ := map_eq_ok.mp eq
  rw [String.toList_ofList]
  have shape := isToken.isLeafText
  generalize text.toList = cs at shape lowered
  cases shape with
  | plain c free => exact native_plain free lowered
  | brace =>
    rw [nativeFrom.eq_def] at lowered
    simp only [nativeFrom_nil, Except.map, List.append_nil] at lowered
    obtain rfl : ['\\', '{'] = source := by simpa [countedLength?] using lowered
    exact .bracket (by simp)
  | escape c =>
    rw [nativeFrom.eq_def] at lowered
    simp only [if_true] at lowered
    split at lowered
    · simp at lowered
    · next escaped count read =>
      rw [List.drop_nil, nativeFrom_nil] at lowered
      obtain rfl : escaped = source := by simpa [Except.map] using lowered
      exact .escape (escaped_of_eq_ok read)
  | charClass inside closes =>
    obtain ⟨body, lowers, rfl⟩ := nativeFrom_bracket closes lowered
    exact .charClass lowers.isClassText

theorem mem_zeroWidth {text : String} :
    text ∈ zeroWidth ↔ text.toList ∈
      [['^'], ['$'], ['\\', 'A'], ['\\', 'Z'], ['\\', 'b'], ['\\', 'B']] := by
  simp [zeroWidth, ← String.toList_inj]

def Stands (text : String) (term : Pattern) : Prop :=
  if text ∈ zeroWidth then Senses term else Body.TakesOne term

theorem yields_of_takes {text : String} {source : List Char}
    (wide : text.toList ∉
      [['^'], ['$'], ['\\', 'A'], ['\\', 'Z'], ['\\', 'b'], ['\\', 'B']])
    (yields : Body.Yields source Body.TakesOne) : Body.Yields source (Stands text) := by
  have wide' : text ∉ zeroWidth := mt mem_zeroWidth.mp wide
  rcases yields with faulty | ⟨term, takes, ungrouped, readable⟩
  · exact .inl faulty
  · exact .of_readable (by rwa [Stands, if_neg wide']) ungrouped readable

theorem yields_of_senses {text : String} {source : List Char}
    (narrow : text.toList ∈
      [['^'], ['$'], ['\\', 'A'], ['\\', 'Z'], ['\\', 'b'], ['\\', 'B']])
    (yields : Body.Yields source Senses) : Body.Yields source (Stands text) := by
  have narrow' : text ∈ zeroWidth := mem_zeroWidth.mpr narrow
  rcases yields with faulty | ⟨term, senses, ungrouped, readable⟩
  · exact .inl faulty
  · exact .of_readable (by rwa [Stands, if_pos narrow']) ungrouped readable

theorem yields_wordBoundary : Body.Yields wordBoundary Senses :=
  Body.yields_wordTests false true true false (by
    unfold wordBoundary
    generalize wordClass = word
    simp [lookOpener])

theorem yields_notWordBoundary : Body.Yields notWordBoundary Senses :=
  Body.yields_wordTests false false true true (by
    unfold notWordBoundary
    generalize wordClass = word
    simp [lookOpener])

theorem yields_digit : Body.Yields "\\p\x7bNd\x7d".toList Body.TakesOne := by
  have spelled : "\\p\x7bNd\x7d".toList = ['\\', 'p', '{', 'N', 'd', '}'] := by simp
  rw [spelled]
  refine Body.yields_one (Body.readable_escape _ (.property .decimalDigit false) ?_)
  simp [Pattern.escape, propertyName?, List.isPrefixOf]

theorem yields_notDigit : Body.Yields "\\P\x7bNd\x7d".toList Body.TakesOne := by
  have spelled : "\\P\x7bNd\x7d".toList = ['\\', 'P', '{', 'N', 'd', '}'] := by simp
  rw [spelled]
  refine Body.yields_one (Body.readable_escape _ (.property .decimalDigit true) ?_)
  simp [Pattern.escape, propertyName?, List.isPrefixOf]

theorem yields_bell : Body.Yields "\\x07".toList Body.TakesOne := by
  have spelled : "\\x07".toList = ['\\', 'x', '0', '7'] := by simp
  rw [spelled]
  refine Body.yields_one (Body.readable_escape _ (.point 7) ?_)
  simp [Pattern.escape, hexEscape?, hexValue?]

theorem yields_shared {c : Char} (shared : c ∈ ['s', 'S', 'n', 't', 'r', 'f', 'v']) :
    Body.Yields ['\\', c] Body.TakesOne := by
  obtain ⟨atom, reads⟩ : ∃ atom, ∀ rest, Pattern.escape false c rest = .ok (atom, 0) := by
    simp only [List.mem_cons, List.not_mem_nil, or_false] at shared
    rcases shared with rfl | rfl | rfl | rfl | rfl | rfl | rfl <;>
      exact ⟨_, fun rest => by simp [Pattern.escape]; rfl⟩
  exact Body.yields_one (Body.readable_escape [] _ reads)

theorem escape_special {c : Char} (special : patternChars.contains c = true) (rest : List Char) :
    Pattern.escape false c rest = .ok (.point c.toNat, 0) := by
  simp only [patternChars, List.contains_eq_mem, List.mem_cons, List.not_mem_nil, or_false,
    decide_eq_true_eq] at special
  rcases special with rfl | rfl | rfl | rfl | rfl | rfl | rfl | rfl | rfl | rfl | rfl | rfl | rfl |
    rfl | rfl <;> simp [Pattern.escape, reservedChars]

theorem yields_special {c : Char} (special : patternChars.contains c = true) :
    Body.Yields ['\\', c] Body.TakesOne :=
  Body.yields_one (Body.readable_escape [] _ (escape_special special))

theorem cases_of_test {c : Char} (test : c ∈ ['A', 'Z', 'b', 'B']) :
    c = 'A' ∨ c = 'Z' ∨ c = 'b' ∨ c = 'B' := by
  simpa using test

theorem yields_escaped {text : String} {source : List Char} {count : Nat} {c : Char}
    (spelled : text.toList = ['\\', c]) (complete : c ≠ 'x' ∧ c ≠ 'u') (notNull : c ≠ '0')
    (escaped : Escaped false [] c source count) : Body.Yields source (Stands text) := by
  cases escaped with
  | wordMembers inside | backspace inside => simp at inside
  | word outside =>
    exact yields_of_takes (by simp [spelled]) (Body.yields_one Body.readable_wordClass)
  | nonWord =>
    exact yields_of_takes (by simp [spelled]) (Body.yields_one Body.readable_nonWordClass)
  | digit => exact yields_of_takes (by simp [spelled]) yields_digit
  | notDigit => exact yields_of_takes (by simp [spelled]) yields_notDigit
  | boundary outside => exact yields_of_senses (by simp [spelled]) yields_wordBoundary
  | notBoundary outside => exact yields_of_senses (by simp [spelled]) yields_notWordBoundary
  | start outside =>
    exact yields_of_senses (by simp [spelled])
      (.of_readable (senses_boundary _ _) rfl Body.readable_start)
  | stop outside =>
    exact yields_of_senses (by simp [spelled])
      (.of_readable (senses_boundary _ _) rfl Body.readable_end)
  | bell => exact yields_of_takes (by simp [spelled]) yields_bell
  | null => contradiction
  | shared mem =>
    have wide : c ∉ ['A', 'Z', 'b', 'B'] := fun narrow => by
      rcases cases_of_test narrow with rfl | rfl | rfl | rfl <;> simp at mem
    refine yields_of_takes (by simpa [spelled] using wide) (yields_shared ?_)
    simpa [complete] using mem
  | long enough hexadecimal => simp at enough
  | special mem =>
    have sign : patternChars.contains c = true := by simpa using mem
    have wide : c ∉ ['A', 'Z', 'b', 'B'] := fun narrow => by
      rcases cases_of_test narrow with rfl | rfl | rfl | rfl <;> simp [patternChars] at sign
    exact yields_of_takes (by simpa [spelled] using wide) (yields_special sign)
  | itself sign free _ =>
    have wide : c ∉ ['A', 'Z', 'b', 'B'] := fun narrow => by
      rcases cases_of_test narrow with rfl | rfl | rfl | rfl <;>
        simp [Char.isAlphanum, Char.isAlpha] at sign
    refine yields_of_takes (by simpa [spelled] using wide) (Body.yields_one (Body.readable_char ?_))
    simp_all [patternChars, Body.specialChars]

/-- The null character alone reads differently before a digit. -/
def IsNull (text : String) : Prop := text = "\\0"

theorem yields_plain {text : String} {c : Char} (spelled : text.toList = [c])
    (free : c ∉ Token.roleChars) (other : c ∉ [']', '}']) : Body.Yields [c] (Stands text) := by
  by_cases start : c = '^'
  · subst start
    exact yields_of_senses (by simp [spelled])
      (.of_readable (senses_boundary _ _) rfl Body.readable_start)
  by_cases stop : c = '$'
  · subst stop
    exact yields_of_senses (by simp [spelled])
      (.of_readable (senses_boundary _ _) rfl Body.readable_end)
  refine yields_of_takes (by simp [spelled, start, stop]) ?_
  by_cases dot : c = '.'
  · subst dot
    exact Body.yields_one Body.readable_dot
  · refine Body.yields_one (Body.readable_char ?_)
    simp_all [Token.roleChars, Body.specialChars]

theorem yields_native {text source : String} (isToken : IsToken text)
    (complete : ¬IsBareEscape text) (notNull : ¬IsNull text) (lowered : native text = .ok source) :
    Body.Yields source.toList (Stands text) := by
  have shape := native_of_isToken isToken lowered
  generalize spelled : text.toList = cs at shape
  generalize source.toList = native at shape
  cases shape with
  | bracket mem =>
    simp only [List.mem_cons, List.not_mem_nil, or_false] at mem
    refine yields_of_takes ?_ (yields_special ?_)
    · rcases mem with rfl | rfl | rfl <;> simp [spelled]
    · rcases mem with rfl | rfl | rfl <;> simp [patternChars]
  | plain free other => exact yields_plain spelled free other
  | @escape c _ _ escaped =>
    have complete' : c ≠ 'x' ∧ c ≠ 'u' := by
      constructor <;> rintro rfl <;>
        simp [IsBareEscape, ← String.toList_inj, spelled] at complete
    have notNull' : c ≠ '0' := by
      rintro rfl
      simp [IsNull, ← String.toList_inj, spelled] at notNull
    exact yields_escaped spelled complete' notNull' escaped
  | charClass body =>
    have wide : text.toList ∉
        [['^'], ['$'], ['\\', 'A'], ['\\', 'Z'], ['\\', 'b'], ['\\', 'B']] := by
      simp [spelled]
    exact yields_of_takes wide (Body.yields_closed body)

theorem read_ne_ok_of_isBareEscape {text source : String} (bare : IsBareEscape text)
    (lowered : native text = .ok source) {term : Pattern} : Pattern.read source ≠ .ok term := by
  rcases bare with rfl | rfl
  · have itself : native "\\x" = .ok "\\x" := by cbv
    have refused : Pattern.read "\\x" = .error .characterEscape := by cbv
    obtain rfl := Except.ok.inj (itself.symm.trans lowered)
    simp [refused]
  · have itself : native "\\u" = .ok "\\u" := by cbv
    have refused : Pattern.read "\\u" = .error .unicodeEscape := by cbv
    obtain rfl := Except.ok.inj (itself.symm.trans lowered)
    simp [refused]

end Leaf

namespace Body

def nowhere : Pattern := .one ⟨[], false, false⟩

def ofLeaf (text : String) : Body :=
  match Leaf.native text with
  | .error _ => single [] nowhere
  | .ok source =>
    single source.toList (match Pattern.read source with
      | .ok term => term
      | .error _ => nowhere)

variable {text source : String} {term : Pattern} {strict : Prop}

theorem not_spans_nowhere (input : Array Char) (i j : Nat) :
    ¬nowhere.Spans input .forward i j := by
  simp [nowhere, Pattern.Spans, CodeSet.contains, CodeSet.hasMember]

theorem read_of_readable (readable : (single source.toList term).Readable True) :
    Pattern.read source = .ok term := readable.enclosable.read rfl

theorem read_of_faulty (faulty : IsFaulty source.toList) :
    ∃ fault, Pattern.read source = .error fault := by
  obtain ⟨fault, fails⟩ := faulty.fails .start [] ⟨rfl, rfl⟩
  refine ⟨fault, ?_⟩
  rw [List.append_nil] at fails
  rw [Pattern.read, fails]
  rfl

theorem readable_null (lenient : ¬strict) :
    (single ['\\', '0'] (.one (.single 0 false))).Readable strict where
  unquantified := by simp [single, Unquantified, isQuantifierStart]
  reads reading rest h _ := by
    refine ⟨.atom, ?_⟩
    by_cases digit : rest.head?.any Char.isDigit = true
    · have fault : reading.step '\\' ('0' :: rest) = .error .characterEscape := by
        simp [Reading.step, h.openClass, isQuantifierStart, Pattern.escape, digit, bind,
          Except.bind]
      exact .of_error (Reading.run_fault fault) lenient
    · have stepped : reading.step '\\' ('0' :: rest) =
          .ok (reading.extend [.one (.single 0 false)] 0 .atom, 1) := by
        simp [Reading.step, h.openClass, h.flags, Flags.standard, isQuantifierStart,
          Pattern.escape, digit, Reading.pushAtom, Reading.push, Reading.extend, bind,
          Except.bind, pure, Except.pure]
      exact .of_eq (Reading.run_step _ stepped)

theorem native_null : Leaf.native "\\0" = .ok "\\0" := by
  have spelled : "\\0".toList = ['\\', '0'] := by simp
  rw [Leaf.native, spelled, Leaf.nativeFrom.eq_def]
  simp [Leaf.escape, Leaf.nativeFrom_nil, Except.map]

theorem read_null : Pattern.read "\\0" = .ok (.one (.single 0 false)) := by
  have spelled : "\\0".toList = ['\\', '0'] := by simp
  have stepped : Reading.start.step '\\' ['0'] =
      .ok (Reading.start.extend [.one (.single 0 false)] 0 .atom, 1) := by rfl
  rw [Pattern.read, spelled, Reading.run_step _ stepped, List.drop_one, List.tail_cons, Reading.run]
  rfl

theorem ofLeaf_cases (strict : Prop) (isToken : Leaf.IsToken text)
    (complete : ¬Leaf.IsBareEscape text) :
    (∃ source fault, Leaf.native text = .ok source ∧ Pattern.read source = .error fault ∧
        ofLeaf text = single source.toList nowhere ∧ IsFaulty source.toList) ∨
      ∃ source term, Leaf.native text = .ok source ∧ Pattern.read source = .ok term ∧
        ofLeaf text = single source.toList term ∧ Leaf.Stands text term ∧ term.groups = [] ∧
        ((strict → ¬Leaf.IsNull text) → (single source.toList term).Readable strict) := by
  obtain ⟨_, _, _, _, _, _, _, source, lowered⟩ := id isToken
  by_cases null : Leaf.IsNull text
  · obtain rfl : text = _ := null
    right
    refine ⟨"\\0", .one (.single 0 false), native_null, read_null, ?_, ?_, rfl, fun lenient => ?_⟩
    · simp only [ofLeaf, native_null, read_null]
    · rw [Leaf.Stands, if_neg (by simp [Leaf.zeroWidth])]
      exact ⟨_, takes_one _⟩
    · have spelled : "\\0".toList = ['\\', '0'] := by simp
      rw [spelled]
      exact readable_null fun holds => lenient holds rfl
  · rcases Leaf.yields_native isToken complete null lowered with
      faulty | ⟨term, stands, ungrouped, readable⟩
    · obtain ⟨fault, refused⟩ := read_of_faulty faulty
      exact .inl ⟨source, fault, lowered, refused, by simp only [ofLeaf, lowered, refused], faulty⟩
    · have read := read_of_readable readable
      exact .inr ⟨source, term, lowered, read, by simp only [ofLeaf, lowered, read], stands,
        ungrouped, fun _ => readable⟩

theorem readable_ofLeaf (isToken : Leaf.IsToken text) (complete : ¬Leaf.IsBareEscape text)
    (accepted : strict → ¬Leaf.IsNull text ∧
      ∃ source term, Leaf.native text = .ok source ∧ Pattern.read source = .ok term) :
    (ofLeaf text).Readable strict := by
  rcases ofLeaf_cases strict isToken complete with
    ⟨source, fault, lowered, refused, eq, faulty⟩ |
      ⟨source, term, lowered, read, eq, stands, ungrouped, readable⟩
  · have lenient : ¬strict := by
      intro holds
      obtain ⟨-, other, term, lowered', read⟩ := accepted holds
      obtain rfl : source = other := Except.ok.inj (lowered.symm.trans lowered')
      rw [refused] at read
      simp at read
    rw [eq]
    refine ⟨faulty.unquantified, fun reading rest h _ => ⟨.atom, ?_⟩⟩
    obtain ⟨fault', fails⟩ := faulty.fails reading rest h
    exact .of_error fails lenient
  · rw [eq]
    exact readable fun holds => (accepted holds).1

theorem stands_ofLeaf (isToken : Leaf.IsToken text) (complete : ¬Leaf.IsBareEscape text) :
    Leaf.Stands text (ofLeaf text).pattern := by
  rcases ofLeaf_cases False isToken complete with
    ⟨source, fault, lowered, refused, eq, faulty⟩ |
      ⟨source, term, lowered, read, eq, stands, ungrouped, readable⟩
  · rw [eq]
    unfold Leaf.Stands
    split
    · exact fun input other i j _ spans => absurd spans (not_spans_nowhere input i j)
    · exact ⟨_, takes_one _⟩
  · rw [eq]
    exact stands

theorem source_ofLeaf (lowered : Leaf.native text = .ok source) :
    (ofLeaf text).source = source.toList := by
  simp only [ofLeaf, lowered, single]

theorem names_ofLeaf (text : String) : (ofLeaf text).names = [] := by
  unfold ofLeaf
  split <;> rfl

theorem groups_ofLeaf (isToken : Leaf.IsToken text) : (ofLeaf text).pattern.groups = [] := by
  by_cases bare : Leaf.IsBareEscape text
  · unfold ofLeaf
    split
    · rfl
    · next source lowered =>
      cases read : Pattern.read source with
      | error fault => rfl
      | ok term => exact absurd read (Leaf.read_ne_ok_of_isBareEscape bare lowered)
  · rcases ofLeaf_cases False isToken bare with
      ⟨source, fault, lowered, refused, eq, faulty⟩ |
        ⟨source, term, lowered, read, eq, stands, ungrouped, readable⟩
    · rw [eq]
      rfl
    · rw [eq]
      exact ungrouped

end Body

end LineGrammar
