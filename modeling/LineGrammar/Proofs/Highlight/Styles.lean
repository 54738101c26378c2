import LineGrammar.Proofs.Grammar.Captures
import LineGrammar.Proofs.Highlight.Fingerprints
import LineGrammar.Proofs.Highlight.Places

/-! The style of every character. A highlighter that keeps the lines of a text offers each of its
characters a style; painting a field takes up what is offered where the character still has the
default style. Over all fields in their order, a character gets the first offer that differs from
the default style, and trailing input is marked last. -/

namespace LineGrammar.Highlighter

open StyledLines

/-- One line for each line of any document, with as many characters. -/
def TextPreserving (highlighter : Highlighter) : Prop :=
  ∀ document : Document, (highlighter.highlight document).map (fun line => (cells line).length) =
    document.lines.map String.length

/-- The style, if it is not the default one, that an occurrence with a highlighter gives to the
character at byte `position`: the one it has in the text of the occurrence. -/
def offer? (highlighters : List (String × Highlighter)) (defaultStyle : String) (found : Match)
    (position : Nat) (occurrence : Occurrence) : Option String :=
  if occurrence.span.contains position then
    (Registry.find? highlighters occurrence.name).bind fun highlighter =>
      let field := found.textOf occurrence.span
      ((highlighter.highlight (.atEnd field)).charAt? field
        (position - occurrence.span.start)).bind fun (style, _) =>
          if style = defaultStyle then none else some style
  else none

theorem ne_of_offer? {highlighters : List (String × Highlighter)} {defaultStyle style : String}
    {found : Match} {position : Nat} {occurrence : Occurrence}
    (offered : offer? highlighters defaultStyle found position occurrence = some style) :
    style ≠ defaultStyle := by
  unfold offer? at offered
  split at offered
  · obtain ⟨highlighter, -, offered⟩ := Option.bind_eq_some_iff.mp offered
    obtain ⟨⟨other, c⟩, -, offered⟩ := Option.bind_eq_some_iff.mp offered
    obtain ⟨differs, rfl⟩ : ¬other = defaultStyle ∧ other = style := by simpa using offered
    exact differs
  · simp at offered

def touch (defaultStyle : String) (offered : Option String) (char : StyledChar) : StyledChar :=
  (if char.1 = defaultStyle then offered.getD defaultStyle else char.1, char.2)

theorem touch_none (defaultStyle : String) (char : StyledChar) :
    touch defaultStyle none char = char := by
  unfold touch
  split
  · next same => rw [Option.getD_none, ← same]
  · rfl

theorem touch_offer (defaultStyle : String) (offered : Option String) :
    touch defaultStyle
        (offered.bind fun style => if style = defaultStyle then none else some style) =
      touch defaultStyle offered := by
  funext char
  unfold touch
  cases offered with
  | none => rfl
  | some style => by_cases same : style = defaultStyle <;> simp [same]

theorem getElem?_paint (defaultStyle : String) (chars : List StyledChar)
    (offers : List (Option String)) (index : Nat) :
    (paint defaultStyle chars offers)[index]? =
      chars[index]?.map (touch defaultStyle offers[index]?.join) := by
  induction chars, offers using paint.induct generalizing index with
  | case1 offers => simp [paint]
  | case2 chars some =>
    have same : touch defaultStyle none = id := funext (touch_none defaultStyle)
    simp [paint, same]
  | case3 char chars offers ih =>
    cases index with
    | zero => simp [paint, touch_none]
    | succ index => simpa [paint] using ih index
  | case4 style c chars offered offers ih =>
    cases index with
    | zero => simp [paint, touch]
    | succ index => simpa [paint] using ih index

theorem map_paint (defaultStyle : String) (chars : List StyledChar)
    (offers : List (Option String)) :
    (paint defaultStyle chars offers).map (·.2) = chars.map (·.2) := by
  refine List.ext_getElem? fun index => ?_
  rw [List.getElem?_map, List.getElem?_map, getElem?_paint, Option.map_map]
  rfl

theorem map_paintFrom (defaultStyle : String) (start : Nat) (offers : List (Option String))
    (chars : List StyledChar) :
    (paintFrom defaultStyle start offers chars).map (·.2) = chars.map (·.2) := by
  induction chars generalizing start with
  | nil => rfl
  | cons char chars ih =>
    rw [paintFrom]
    split
    · exact map_paint ..
    · rw [List.map_cons, List.map_cons, ih]

theorem paintFrom_append (defaultStyle : String) (before after : List StyledChar)
    (offers : List (Option String)) :
    paintFrom defaultStyle (Text.byteLength (before.map (·.2))) offers (before ++ after) =
      before ++ paint defaultStyle after offers := by
  induction before with
  | nil =>
    match after with
    | [] => simp [paintFrom, paint]
    | _ :: _ => simp [paintFrom]
  | cons char before ih =>
    have size := char.2.utf8Size_pos
    rw [List.map_cons, Text.byteLength_cons, List.cons_append, paintFrom, if_neg (by omega),
      Nat.add_sub_cancel_left, ih, List.cons_append]

theorem markTrailing_append (span : Span) (position : Nat) (before after : List StyledChar) :
    markTrailing span position (before ++ after) = markTrailing span position before ++
      markTrailing span (position + Text.byteLength (before.map (·.2))) after := by
  induction before generalizing position with
  | nil => simp [markTrailing]
  | cons char before ih => simp [markTrailing, ih, Nat.add_assoc]

theorem map_markTrailing (span : Span) (position : Nat) (chars : List StyledChar) :
    (markTrailing span position chars).map (·.2) = chars.map (·.2) := by
  induction chars generalizing position with
  | nil => rfl
  | cons char chars ih => simp [markTrailing, ih]

theorem layerOfLines_eq (lines : StyledLines) :
    layerOfLines lines = (spread (lines.map cells)).map (·.map (·.1)) := by
  have runs (line : List StyledRun) :
      layerOfLines.ofRuns line = (cells line).map fun char => some char.1 := by
    simp [layerOfLines.ofRuns, cells, List.map_flatMap, Function.comp_def]
  induction lines with
  | nil => rfl
  | cons line lines ih =>
    cases lines with
    | nil => simp [layerOfLines, spread, runs]
    | cons next lines =>
      rw [layerOfLines, ih, runs]
      · simp [spread]
      · simp

theorem layer_length (lines : StyledLines) : layer lines lines.length = layerOfLines lines := by
  have same : (List.range lines.length).map lines.line = lines := by
    refine List.ext_getElem (by simp) fun index within within' => ?_
    simp [StyledLines.line, List.getElem?_eq_getElem within']
  rw [layer, same]

theorem getElem?_paintFrom {chars : List StyledChar} {start rest : List Char}
    (spells : chars.map (·.2) = start ++ rest) (defaultStyle : String)
    (offers : List (Option String)) (index : Nat) :
    (paintFrom defaultStyle (Text.byteLength start) offers chars)[index]? =
      chars[index]?.map (touch defaultStyle
        (if start.length ≤ index then offers[index - start.length]?.join else none)) := by
  obtain ⟨before, after, rfl, rfl, rfl⟩ := List.map_eq_append_iff.mp spells
  rw [paintFrom_append, List.length_map]
  split
  · next reached =>
    rw [List.getElem?_append_right reached, List.getElem?_append_right reached, getElem?_paint]
  · next earlier =>
    have same : touch defaultStyle none = id := funext (touch_none defaultStyle)
    rw [List.getElem?_append_left (by omega), List.getElem?_append_left (by omega), same,
      Option.map_id_fun, id]

theorem join_layerOfLines {lines : StyledLines} {text : String} {before after : List Char}
    {c : Char} (fits : Fits (lines.map cells) text.toList)
    (split : text.toList = before ++ c :: after) (notNewline : c ≠ '\n') :
    (layerOfLines lines)[before.length]?.join =
      (lines.charAt? text (Text.byteLength before)).map (·.1) := by
  rw [split] at fits
  obtain ⟨cell, found, spreads⟩ := fits.spread_getElem? notNewline
  rw [charAt?_append _ split, found, layerOfLines_eq, List.getElem?_map, spreads]
  rfl

theorem TextPreserving.fits {highlighter : Highlighter} (preserving : highlighter.TextPreserving)
    (document : Document) :
    Fits ((highlighter.highlight document).map cells) document.text.toList := by
  have lengths := preserving document
  simpa [Fits, Document.lines, Text.lines, Function.comp_def] using lengths

theorem TextPreserving.length_eq {highlighter : Highlighter}
    (preserving : highlighter.TextPreserving) (document : Document) :
    (highlighter.highlight document).length = document.lineCount := by
  have lengths := congrArg List.length (preserving document)
  simpa [Document.lineCount] using lengths

def paintField (highlighters : List (String × Highlighter)) (defaultStyle text : String)
    (chars : List StyledChar) (field : String × Span) : List StyledChar :=
  match fieldDocument? text field.2 with
  | none => chars
  | some (start, document) =>
    match highlightNamed field.1 document highlighters with
    | none => chars
    | some lines => paintFrom defaultStyle start (layer lines document.lineCount) chars

theorem highlight_fields (grammar : Grammar) (defaultStyle : String)
    (highlighters : List (String × Highlighter)) (document : Document) :
    (fields grammar defaultStyle highlighters).highlight document =
      let found := grammar.matchBeginning document.text
      ofChars (markTrailing? found.trailing
        (found.fields.foldl (paintField highlighters defaultStyle document.text)
          (document.text.toList.map fun c => (defaultStyle, c)))) := by
  rw [highlight]
  simp only [fieldDocuments, List.foldl_filterMap]
  congr 3
  funext chars field
  unfold paintField
  cases fieldDocument? document.text field.2 <;> rfl

section

variable {highlighters : List (String × Highlighter)} {defaultStyle style text : String}
  {chars : List StyledChar} {before after : List Char} {c : Char} {field : String × Span}

theorem paintField_eq (preserving : ∀ entry ∈ highlighters, entry.2.TextPreserving)
    {inside : String} {highlighter : Highlighter}
    (found : Text.between? text field.2.start field.2.stop = some inside)
    (known : Registry.find? highlighters field.1 = some highlighter) :
    paintField highlighters defaultStyle text chars field =
      paintFrom defaultStyle field.2.start
        (layerOfLines (highlighter.highlight (.atEnd inside))) chars := by
  obtain ⟨entry, mem, rfl⟩ := Registry.mem_of_find? known
  rw [← layer_length, (preserving entry mem).length_eq]
  simp [paintField, fieldDocument?, found, highlightNamed_eq, known]

theorem map_paintField (highlighters : List (String × Highlighter)) (defaultStyle text : String)
    (chars : List StyledChar) (field : String × Span) :
    (paintField highlighters defaultStyle text chars field).map (·.2) = chars.map (·.2) := by
  unfold paintField
  split
  · rfl
  · split
    · rfl
    · exact map_paintFrom ..

theorem exists_append_of_lt {inside start rest : List Char}
    (split : text.toList = before ++ c :: after)
    (split' : text.toList = start ++ (inside ++ rest)) (within : start.length ≤ before.length)
    (less : before.length < start.length + inside.length) :
    ∃ earlier later, before = start ++ earlier ∧ inside = earlier ++ c :: later := by
  have place : before <+: text.toList := ⟨_, split.symm⟩
  have startPlace : start <+: text.toList := ⟨_, split'.symm⟩
  obtain ⟨earlier, rfl⟩ := List.prefix_of_prefix_length_le startPlace place within
  rw [List.length_append] at less
  rw [split', List.append_assoc, List.append_cancel_left_eq] at split
  have inPlace : earlier <+: inside ++ rest := ⟨_, split.symm⟩
  obtain ⟨others, rfl⟩ :=
    List.prefix_of_prefix_length_le inPlace (List.prefix_append inside rest) (by omega)
  match others with
  | [] => simp at less
  | d :: later =>
    have same : d = c := by
      rw [List.append_assoc, List.append_cancel_left_eq, List.cons_append,
        List.cons.injEq] at split
      exact split.1
    exact ⟨earlier, later, rfl, by rw [same]⟩

theorem contains_iff {span : Span} {inside start rest : List Char}
    (split : text.toList = before ++ after) (split' : text.toList = start ++ (inside ++ rest))
    (first : Text.byteLength start = span.start)
    (last : Text.byteLength start + Text.byteLength inside = span.stop) :
    span.contains (Text.byteLength before) = true ↔
      start.length ≤ before.length ∧ before.length < start.length + inside.length := by
  have place : before <+: text.toList := ⟨_, split.symm⟩
  have startPlace : start <+: text.toList := ⟨_, split'.symm⟩
  have stopPlace : start ++ inside <+: text.toList := ⟨rest, by rw [split', List.append_assoc]⟩
  have starts := Text.byteLength_le_iff startPlace place
  have stops := Text.byteLength_le_iff stopPlace place
  rw [Text.byteLength_append, List.length_append] at stops
  rw [Span.contains, Bool.and_eq_true, decide_eq_true_iff, decide_eq_true_iff]
  omega

theorem join_layerOfLines_eq {lines : StyledLines} {span : Span} {inside : String}
    {start rest : List Char} (fits : Fits (lines.map cells) inside.toList)
    (split : text.toList = before ++ c :: after) (notNewline : c ≠ '\n')
    (split' : text.toList = start ++ (inside.toList ++ rest))
    (first : Text.byteLength start = span.start)
    (last : Text.byteLength start + Text.byteLength inside.toList = span.stop) :
    (if start.length ≤ before.length then
        (layerOfLines lines)[before.length - start.length]?.join else none) =
      if span.contains (Text.byteLength before) then
        (lines.charAt? inside (Text.byteLength before - span.start)).map (·.1) else none := by
  by_cases inField : span.contains (Text.byteLength before) = true
  · obtain ⟨within, less⟩ := (contains_iff split split' first last).mp inField
    obtain ⟨earlier, later, rfl, spelled⟩ := exists_append_of_lt split split' within less
    rw [if_pos within, if_pos inField, ← first, Text.byteLength_append, Nat.add_sub_cancel_left,
      List.length_append, Nat.add_sub_cancel_left]
    exact join_layerOfLines fits spelled notNewline
  · have outside := mt (contains_iff split split' first last).mpr inField
    rw [if_neg inField]
    split
    · next within =>
      have length : (layerOfLines lines).length = inside.toList.length := by
        rw [layerOfLines_eq, List.length_map, fits.length_spread]
      rw [List.getElem?_eq_none (by omega)]
      rfl
    · rfl

theorem getElem?_paintField {found : Match} (input : found.input = text)
    (spells : chars.map (·.2) = text.toList)
    (split : text.toList = before ++ c :: after) (notNewline : c ≠ '\n')
    (preserving : ∀ entry ∈ highlighters, entry.2.TextPreserving)
    (boundaries : ∃ first second, field.2 = ⟨Text.byteLength (text.toList.take first),
      Text.byteLength (text.toList.take second)⟩) :
    (paintField highlighters defaultStyle text chars field)[before.length]? =
      chars[before.length]?.map (touch defaultStyle
        (offer? highlighters defaultStyle found (Text.byteLength before)
          (found.occurrence field))) := by
  have untouched : touch defaultStyle none = id := funext (touch_none defaultStyle)
  cases cut : Text.between? text field.2.start field.2.stop with
  | none =>
    have outside : field.2.contains (Text.byteLength before) = false := by
      obtain ⟨first, second, same⟩ := boundaries
      rw [same] at cut ⊢
      by_contra inside
      simp only [Span.contains, Bool.not_eq_false, Bool.and_eq_true, decide_eq_true_eq] at inside
      obtain ⟨field, found⟩ := Text.exists_between?_take (Nat.lt_of_le_of_lt inside.1 inside.2)
      rw [cut] at found
      contradiction
    simp [paintField, fieldDocument?, cut, offer?, Match.occurrence, outside, untouched]
  | some inside =>
    cases known : Registry.find? highlighters field.1 with
    | none =>
      simp [paintField, fieldDocument?, cut, highlightNamed_eq, known, offer?, Match.occurrence,
        untouched]
    | some highlighter =>
      obtain ⟨start, rest, split', first, last⟩ := Text.append_of_between? cut
      obtain ⟨entry, mem, rfl⟩ := Registry.mem_of_find? known
      have fits := (preserving entry mem).fits (.atEnd inside)
      rw [Document.text_atEnd] at fits
      have own : found.textOf field.2 = inside := by rw [Match.textOf, input, cut, Option.getD_some]
      rw [paintField_eq preserving cut known, ← first, getElem?_paintFrom (spells.trans split'),
        join_layerOfLines_eq fits split notNewline split' first last, ← touch_offer]
      congr 2
      simp only [offer?, Match.occurrence, known, own, Option.bind_some]
      split
      · rw [Option.bind_map]
        rfl
      · rfl

theorem getElem?_foldl_paintField {found : Match} (input : found.input = text)
    {fields : List (String × Span)} (spells : chars.map (·.2) = text.toList)
    (split : text.toList = before ++ c :: after) (notNewline : c ≠ '\n')
    (preserving : ∀ entry ∈ highlighters, entry.2.TextPreserving)
    (boundaries : ∀ field ∈ fields, ∃ first second, field.2 =
      ⟨Text.byteLength (text.toList.take first), Text.byteLength (text.toList.take second)⟩) :
    (fields.foldl (paintField highlighters defaultStyle text) chars)[before.length]? =
      chars[before.length]?.map (touch defaultStyle
        ((fields.map found.occurrence).findSome?
          (offer? highlighters defaultStyle found (Text.byteLength before)))) := by
  induction fields generalizing chars with
  | nil => simp [show touch defaultStyle none = id from funext (touch_none defaultStyle)]
  | cons field rest ih =>
    obtain ⟨bounds, others⟩ := List.forall_mem_cons.mp boundaries
    rw [List.foldl_cons, ih ((map_paintField ..).trans spells) others,
      getElem?_paintField input spells split notNewline preserving bounds, Option.map_map,
      List.map_cons, List.findSome?_cons]
    congr 1
    funext char
    cases offered : offer? highlighters defaultStyle found (Text.byteLength before)
      (found.occurrence field) with
    | none => simp [touch_none]
    | some style =>
      have other := ne_of_offer? offered
      by_cases same : char.1 = defaultStyle <;> simp [touch, same, other]

theorem map_foldl_paintField (fields : List (String × Span)) (chars : List StyledChar) :
    (fields.foldl (paintField highlighters defaultStyle text) chars).map (·.2) =
      chars.map (·.2) := by
  induction fields generalizing chars with
  | nil => rfl
  | cons field rest ih => rw [List.foldl_cons, ih, map_paintField]

end

theorem textPreserving_of_ofChars {highlighter : Highlighter}
    (spells : ∀ document : Document, ∃ chars, highlighter.highlight document = ofChars chars ∧
      chars.map (·.2) = document.text.toList) : highlighter.TextPreserving := by
  intro document
  obtain ⟨chars, made, same⟩ := spells document
  have fits := fits_rowsOf chars
  rw [same, Fits, rowsOf, ← made] at fits
  simpa [Document.lines, Text.lines, Function.comp_def] using fits

theorem textPreserving_plain (style : String) : (plain style).TextPreserving :=
  textPreserving_of_ofChars fun document => ⟨_, rfl, by simp [Function.comp_def]⟩

theorem map_markTrailing? (span : Option Span) (chars : List StyledChar) :
    (markTrailing? span chars).map (·.2) = chars.map (·.2) := by
  cases span with
  | none => rfl
  | some span => exact map_markTrailing ..

theorem exists_markTrailing?_append (span : Option Span) (before after : List StyledChar)
    (char : StyledChar) : ∃ rest, markTrailing? span (before ++ char :: after) =
      markTrailing? span before ++
        (if span.any (·.contains (Text.byteLength (before.map (·.2)))) then trailingStyle
          else char.1, char.2) :: rest := by
  cases span with
  | none => exact ⟨after, by simp [markTrailing?]⟩
  | some span =>
    refine ⟨markTrailing span (Text.byteLength (before.map (·.2)) + char.2.utf8Size) after, ?_⟩
    rw [markTrailing?, markTrailing_append, markTrailing, Nat.zero_add, Option.any_some]
    rfl

theorem exists_ofChars_fields (grammar : Grammar) (defaultStyle : String)
    (highlighters : List (String × Highlighter)) (document : Document) :
    ∃ chars, (fields grammar defaultStyle highlighters).highlight document = ofChars chars ∧
      chars.map (·.2) = document.text.toList := by
  refine ⟨_, highlight_fields .., ?_⟩
  rw [map_markTrailing?, map_foldl_paintField, List.map_map]
  simp [Function.comp_def]

theorem textPreserving_fields (grammar : Grammar) (defaultStyle : String)
    (highlighters : List (String × Highlighter)) :
    (fields grammar defaultStyle highlighters).TextPreserving :=
  textPreserving_of_ofChars (exists_ofChars_fields grammar defaultStyle highlighters)

theorem charAt?_markTrailing? {text : String} {painted : List StyledChar}
    {before after : List Char} {style : String} {c : Char} (trailing : Option Span)
    (spells : painted.map (·.2) = text.toList) (split : text.toList = before ++ c :: after)
    (notNewline : c ≠ '\n') (styled : painted[before.length]? = some (style, c)) :
    (ofChars (markTrailing? trailing painted)).charAt? text (Text.byteLength before) =
      some (if trailing.any (·.contains (Text.byteLength before)) then trailingStyle else style,
        c) := by
  obtain ⟨before', rest, rfl, same, tail⟩ := List.map_eq_append_iff.mp (spells.trans split)
  obtain ⟨char, after', rfl, -, -⟩ := List.map_eq_cons_iff.mp tail
  have length : before.length = before'.length := by rw [← same, List.length_map]
  rw [length, List.getElem?_append_right (Nat.le_refl _), Nat.sub_self, List.getElem?_cons_zero,
    Option.some.injEq] at styled
  subst styled
  obtain ⟨rest, marked⟩ := exists_markTrailing?_append trailing before' after' (style, c)
  rw [same] at marked
  refine charAt?_ofChars ?_ marked ((map_markTrailing? ..).trans same) notNewline
  rw [map_markTrailing?, spells]

theorem charAt?_ofChars_markTrailing? {found : Match} {text : String} (input : found.input = text)
    {highlighters : List (String × Highlighter)} (defaultStyle : String)
    (preserving : ∀ entry ∈ highlighters, entry.2.TextPreserving)
    (boundaries : ∀ field ∈ found.fields, ∃ first second, field.2 =
      ⟨Text.byteLength (text.toList.take first), Text.byteLength (text.toList.take second)⟩)
    {before after : List Char} {c : Char} (split : text.toList = before ++ c :: after)
    (notNewline : c ≠ '\n') :
    (ofChars (markTrailing? found.trailing (found.fields.foldl
      (paintField highlighters defaultStyle text)
        (text.toList.map fun c => (defaultStyle, c))))).charAt? text (Text.byteLength before) =
      some (if found.trailing.any (·.contains (Text.byteLength before)) then trailingStyle
        else (found.occurrences.findSome? (offer? highlighters defaultStyle found
          (Text.byteLength before))).getD defaultStyle, c) := by
  have start : (text.toList.map fun c => (defaultStyle, c)).map (·.2) = text.toList := by
    simp [Function.comp_def]
  refine charAt?_markTrailing? found.trailing ((map_foldl_paintField ..).trans start) split
    notNewline ?_
  rw [getElem?_foldl_paintField input start split notNewline preserving boundaries, split]
  simp [touch, Match.occurrences]

/-- The library's own highlighters keep the text. Where the highlighters of variables do so, each
character of a text is styled as trailing input if it lies in the trailing input, and else as the
first occurrence offers whose highlighter gives it a style other than the default one, if there is
one. -/
theorem charAt?_highlight {grammar : Grammar} {defaultStyle : String}
    {highlighters : List (String × Highlighter)}
    (preserving : ∀ entry ∈ highlighters, entry.2.TextPreserving) {document : Document}
    {position : Nat} {before after : List Char} {c : Char}
    (stands : Text.cut? document.text.toList position = some (before, c :: after))
    (notNewline : c ≠ '\n') :
    (∀ style, (plain style).TextPreserving) ∧
      (∀ grammar defaultStyle highlighters,
        (fields grammar defaultStyle highlighters).TextPreserving) ∧
      let found := grammar.matchBeginning document.text
      ((fields grammar defaultStyle highlighters).highlight document).charAt? document.text
        position = some
          (if found.trailingInput?.any (·.span.contains position) then trailingStyle
            else (found.occurrences.findSome?
              (offer? highlighters defaultStyle found position)).getD defaultStyle, c) := by
  refine ⟨textPreserving_plain, textPreserving_fields, ?_⟩
  obtain ⟨split, rfl⟩ := Text.append_of_cut? stands
  rw [highlight_fields]
  simp only [Match.trailingInput?, Option.any_map]
  exact charAt?_ofChars_markTrailing? (grammar.input_matchBeginning _) defaultStyle preserving
    (fun _ mem => Grammar.exists_position_of_field mem) split notNewline

theorem tree_lines : Tree.ofExpression "(?P<x>a\\né)" = .ok (.variable "x" (.sequence
    [.leaf "a", .leaf "\\n", .leaf "é"])) := by
  have a : (Tree.leaf "a").Tokenized :=
    Tree.tokenized_char 'a' "a" (by decide) (by decide) (by cbv)
  have lineEnd : (Tree.leaf "\\n").Tokenized := Tree.tokenized_escape 'n' "\\n" (by cbv)
  have é : (Tree.leaf "é").Tokenized :=
    Tree.tokenized_char 'é' "é" (by decide) (by decide) (by cbv)
  have body : (Tree.sequence [.leaf "a", .leaf "\\n", .leaf "é"]).Tokenized :=
    Tree.tokenized_sequence (by decide) (by simp [a, lineEnd, é])
  have x := body.variable ⟨show "x" ≠ "" by simp, by simp [Token.isNameChar]⟩
  exact x.read (by decide) rfl (by cbv)

theorem charAt?_highlight_lines : ∃ grammar,
    Grammar.ofExpression "(?P<x>a\\né)" [] [] = .ok grammar ∧
    ((fields grammar "" [("x", plain "class:x")]).highlight (.atEnd "a\néb")).charAt? "a\néb" 2 =
      some ("class:x", 'é') ∧
    ((fields grammar "" [("x", plain "class:x")]).highlight (.atEnd "a\néb")).charAt? "a\néb" 4 =
      some ("class:trailing-input", 'b') := by
  have run : (Grammar.ofTree (.variable "x" (.sequence [.leaf "a", .leaf "\\n", .leaf "é"])) [] []
      >>= fun grammar => .ok ((grammar.matchBeginning "a\néb").trailingInput?,
          (grammar.matchBeginning "a\néb").occurrences)) =
        .ok (some ⟨Match.trailingName, "b", ⟨4, 5⟩⟩, [⟨"x", "a\né", ⟨0, 4⟩⟩]) := by cbv
  obtain ⟨grammar, made, result⟩ := bind_eq_ok.mp run
  obtain ⟨reported, listed⟩ := Prod.mk.inj (Except.ok.inj result)
  have compiles : Grammar.ofExpression "(?P<x>a\\né)" [] [] = .ok grammar :=
    bind_eq_ok.mpr ⟨_, tree_lines, made⟩
  have preserving : ∀ entry ∈ [("x", plain "class:x")], entry.2.TextPreserving := by
    simp [textPreserving_plain]
  have inside : (grammar.matchBeginning "a\néb").textOf ⟨0, 4⟩ = "a\né" := by
    rw [Match.textOf, Grammar.input_matchBeginning]
    cbv
  have offered : offer? [("x", plain "class:x")] "" (grammar.matchBeginning "a\néb") 2
      ⟨"x", "a\né", ⟨0, 4⟩⟩ = some "class:x" := by
    simp only [offer?, inside]
    cbv
  refine ⟨grammar, compiles, ?_, ?_⟩
  · have law := (@charAt?_highlight grammar "" _ preserving (.atEnd "a\néb") 2 ['a', '\n'] ['b'] 'é'
      (by cbv) (by decide)).2.2
    simp only [Document.text_atEnd, reported, listed, List.findSome?_cons, offered] at law
    exact law
  · have law := (@charAt?_highlight grammar "" _ preserving (.atEnd "a\néb") 4 ['a', '\n', 'é'] []
      'b' (by cbv) (by decide)).2.2
    simp only [Document.text_atEnd, reported] at law
    exact law

end LineGrammar.Highlighter
