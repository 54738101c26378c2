import LineGrammar.Proofs.Highlight.Styles

/-! Characters outside the fields. A field is painted from its start on for as long as its
highlighter returns styles, and nothing stops at the end of the field. A character that no field
with a highlighter covers keeps the default style if the highlighters of the fields before it return
no more styles than those have characters; what the other highlighters return does not matter. -/

namespace LineGrammar.Highlighter

open StyledLines

/-- No more styles for a field than it has characters. -/
def KeepsTo (highlighter : Highlighter) (field : String) : Prop :=
  (layer (highlighter.highlight (.atEnd field)) (Document.atEnd field).lineCount).length ≤
    field.toList.length

/-- A byte that lies neither in an occurrence with a highlighter nor in the trailing input. -/
structure Uncovered (highlighters : List (String × Highlighter)) (found : Match) (position : Nat) :
    Prop where
  fields : ∀ occurrence ∈ found.occurrences,
    (Registry.find? highlighters occurrence.name).isSome →
      occurrence.span.contains position = false
  trailing : ∀ trailing ∈ found.trailingInput?, trailing.span.contains position = false

/-- The highlighters of the occurrences that stop before a byte keep to them. -/
def AllKeep (highlighters : List (String × Highlighter)) (found : Match) (position : Nat) : Prop :=
  ∀ occurrence ∈ found.occurrences,
    ∀ highlighter ∈ Registry.find? highlighters occurrence.name,
      occurrence.span.stop ≤ position → highlighter.KeepsTo (found.textOf occurrence.span)

section

variable {highlighters : List (String × Highlighter)} {defaultStyle text : String}
  {chars : List StyledChar} {before after : List Char} {c : Char} {field : String × Span}

theorem getElem?_paintField_outside {found : Match} (input : found.input = text)
    (spells : chars.map (·.2) = text.toList) (split : text.toList = before ++ c :: after)
    (outside : (Registry.find? highlighters field.1).isSome →
      field.2.contains (Text.byteLength before) = false)
    (keeps : ∀ highlighter ∈ Registry.find? highlighters field.1,
      field.2.stop ≤ Text.byteLength before → highlighter.KeepsTo (found.textOf field.2)) :
    (paintField highlighters defaultStyle text chars field)[before.length]? =
      chars[before.length]? := by
  cases cut : Text.between? text field.2.start field.2.stop with
  | none => simp [paintField, fieldDocument?, cut]
  | some inside =>
    cases known : Registry.find? highlighters field.1 with
    | none => simp [paintField, fieldDocument?, cut, highlightNamed_eq, known]
    | some highlighter =>
      obtain ⟨start, rest, split', first, last⟩ := Text.append_of_between? cut
      have own : found.textOf field.2 = inside := by rw [Match.textOf, input, cut, Option.getD_some]
      have untouched : touch defaultStyle none = id := funext (touch_none defaultStyle)
      have behind := mt (contains_iff split split' first last).mpr
        (Bool.eq_false_iff.mp (outside (by simp [known])))
      have painted : paintField highlighters defaultStyle text chars field =
          paintFrom defaultStyle field.2.start (layer (highlighter.highlight (.atEnd inside))
            (Document.atEnd inside).lineCount) chars := by
        simp [paintField, fieldDocument?, cut, highlightNamed_eq, known]
      rw [painted, ← first, getElem?_paintFrom (spells.trans split')]
      split
      · next within =>
        have place : before <+: text.toList := ⟨_, split.symm⟩
        have stopPlace : start ++ inside.toList <+: text.toList :=
          ⟨rest, by rw [split', List.append_assoc]⟩
        have stops := Text.byteLength_le_iff stopPlace place
        rw [Text.byteLength_append, last, List.length_append] at stops
        have short := keeps highlighter known (stops.mpr (by omega))
        rw [own, KeepsTo] at short
        rw [List.getElem?_eq_none (by omega), Option.join_none, untouched, Option.map_id_fun, id]
      · rw [untouched, Option.map_id_fun, id]

theorem getElem?_foldl_paintField_outside (defaultStyle : String) {found : Match}
    (input : found.input = text) {fields : List (String × Span)}
    (spells : chars.map (·.2) = text.toList) (split : text.toList = before ++ c :: after)
    (outside : ∀ field ∈ fields, (Registry.find? highlighters field.1).isSome →
      field.2.contains (Text.byteLength before) = false)
    (keeps : ∀ field ∈ fields, ∀ highlighter ∈ Registry.find? highlighters field.1,
      field.2.stop ≤ Text.byteLength before → highlighter.KeepsTo (found.textOf field.2)) :
    (fields.foldl (paintField highlighters defaultStyle text) chars)[before.length]? =
      chars[before.length]? := by
  induction fields generalizing chars with
  | nil => rfl
  | cons field rest ih =>
    obtain ⟨outside, othersOutside⟩ := List.forall_mem_cons.mp outside
    obtain ⟨keeps, othersKeep⟩ := List.forall_mem_cons.mp keeps
    rw [List.foldl_cons, ih ((map_paintField ..).trans spells) othersOutside othersKeep,
      getElem?_paintField_outside input spells split outside keeps]

end

/-- A character that is covered by no field with a highlighter and not by the trailing input keeps
the default style if the highlighters of the fields before it keep to their fields. -/
theorem charAt?_of_uncovered {grammar : Grammar} {defaultStyle : String}
    {highlighters : List (String × Highlighter)} {document : Document} {position : Nat}
    {before after : List Char} {c : Char}
    (stands : Text.cut? document.text.toList position = some (before, c :: after))
    (notNewline : c ≠ '\n')
    (uncovered : Uncovered highlighters (grammar.matchBeginning document.text) position)
    (keeps : AllKeep highlighters (grammar.matchBeginning document.text) position) :
    ((fields grammar defaultStyle highlighters).highlight document).charAt? document.text position =
      some (defaultStyle, c) := by
  obtain ⟨split, rfl⟩ := Text.append_of_cut? stands
  have spells : (document.text.toList.map fun c => (defaultStyle, c)).map (·.2) =
      document.text.toList := by
    simp [Function.comp_def]
  have painted := getElem?_foldl_paintField_outside defaultStyle
    (grammar.input_matchBeginning document.text) spells split
    (fun field mem => uncovered.fields _ (List.mem_map_of_mem mem))
    (fun field mem => keeps _ (List.mem_map_of_mem mem))
  have untrailed : (grammar.matchBeginning document.text).trailing.any
      (·.contains (Text.byteLength before)) = false := by
    have outside := uncovered.trailing
    cases marked : (grammar.matchBeginning document.text).trailing with
    | none => rfl
    | some span => simpa [Match.trailingInput?, marked] using outside
  have default : (document.text.toList.map fun c => (defaultStyle, c))[before.length]? =
      some (defaultStyle, c) := by
    rw [split]
    simp
  rw [highlight_fields]
  refine (charAt?_markTrailing? _ ((map_foldl_paintField ..).trans spells) split notNewline
    (painted.trans default)).trans ?_
  rw [untrailed, if_neg Bool.false_ne_true]

theorem tree_beside : Tree.ofExpression "(?P<x>a)b" =
    .ok (.sequence [.variable "x" (.leaf "a"), .leaf "b"]) := by
  have a : (Tree.leaf "a").Tokenized :=
    Tree.tokenized_char 'a' "a" (by decide) (by decide) (by cbv)
  have b : (Tree.leaf "b").Tokenized :=
    Tree.tokenized_char 'b' "b" (by decide) (by decide) (by cbv)
  have x : (Tree.variable "x" (.leaf "a")).Tokenized :=
    a.variable ⟨by simp, by simp [Token.isNameChar]⟩
  have both : (Tree.sequence [.variable "x" (.leaf "a"), .leaf "b"]).Tokenized :=
    Tree.tokenized_sequence (by decide) (by simp [x, b])
  exact both.read (by decide) rfl (by cbv)

theorem exists_beside : ∃ grammar, Grammar.ofExpression "(?P<x>a)b" [] [] = .ok grammar ∧
    (grammar.matchBeginning "ab").fields = [("x", ⟨0, 1⟩)] ∧
    (grammar.matchBeginning "ab").trailing = none := by
  have run : (Grammar.ofTree (.sequence [.variable "x" (.leaf "a"), .leaf "b"]) [] []
      >>= fun grammar => .ok ((grammar.matchBeginning "ab").fields,
          (grammar.matchBeginning "ab").trailing)) = .ok ([("x", ⟨0, 1⟩)], none) := by cbv
  obtain ⟨grammar, made, result⟩ := bind_eq_ok.mp run
  obtain ⟨fields, trailing⟩ := Prod.mk.inj (Except.ok.inj result)
  exact ⟨grammar, bind_eq_ok.mpr ⟨_, tree_beside, made⟩, fields, trailing⟩

theorem uncovered_beside {highlighters : List (String × Highlighter)} {found : Match}
    (fields : found.fields = [("x", ⟨0, 1⟩)]) (trailing : found.trailing = none) :
    Uncovered highlighters found 1 where
  fields := by simp [Match.occurrences, fields, Match.occurrence, Span.contains]
  trailing := by simp [Match.trailingInput?, trailing]

def wide : Highlighter := source (fun _ => [[⟨"class:x", "abc"⟩]]) []

def tall : Highlighter := source (fun _ => [[⟨"class:x", "a"⟩], [⟨"class:y", "bc"⟩]]) []

theorem charAt?_beside_tall : ∃ grammar, Grammar.ofExpression "(?P<x>a)b" [] [] = .ok grammar ∧
    Uncovered [("x", tall)] (grammar.matchBeginning "ab") 1 ∧
    AllKeep [("x", tall)] (grammar.matchBeginning "ab") 1 ∧
    ((fields grammar "" [("x", tall)]).highlight (.atEnd "ab")).charAt? "ab" 1 =
      some ("", 'b') := by
  obtain ⟨grammar, made, fields, trailing⟩ := exists_beside
  have uncovered : Uncovered [("x", tall)] (grammar.matchBeginning "ab") 1 :=
    uncovered_beside fields trailing
  have own : (grammar.matchBeginning "ab").textOf ⟨0, 1⟩ = "a" := by
    rw [Match.textOf, Grammar.input_matchBeginning]
    cbv
  have short : tall.KeepsTo "a" := by
    rw [KeepsTo, tall, highlight]
    decide
  have keeps : AllKeep [("x", tall)] (grammar.matchBeginning "ab") 1 := by
    simpa [AllKeep, Match.occurrences, fields, Match.occurrence, own, Registry.find?] using short
  exact ⟨grammar, made, uncovered, keeps, @charAt?_of_uncovered grammar "" _ (.atEnd "ab") 1 ['a']
    [] 'b' (by cbv) (by decide) uncovered keeps⟩

/-- Styles beyond the field go to the text behind it. -/
theorem charAt?_beside_wide : ∃ grammar, Grammar.ofExpression "(?P<x>a)b" [] [] = .ok grammar ∧
    Uncovered [("x", wide)] (grammar.matchBeginning "ab") 1 ∧
    ((fields grammar "" [("x", wide)]).highlight (.atEnd "ab")).charAt? "ab" 1 =
      some ("class:x", 'b') := by
  obtain ⟨grammar, made, fields, trailing⟩ := exists_beside
  refine ⟨grammar, made, uncovered_beside fields trailing, ?_⟩
  rw [highlight_fields]
  simp only [Document.text_atEnd, fields, trailing, List.foldl_cons, List.foldl_nil, paintField,
    highlightNamed_eq]
  cbv

end LineGrammar.Highlighter
