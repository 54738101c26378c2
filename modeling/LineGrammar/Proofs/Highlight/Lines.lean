import LineGrammar.Proofs.Highlight.Styles

/-! What styled lines spell. Their texts, one below the other, are the styled characters without
their styles, and every line is made of as few runs as its styles allow. Highlighting a document
puts styled characters of its own text into lines, so the lines spell the document whatever the
highlighters of the variables return. -/

namespace LineGrammar.StyledLines

def lineText (line : List StyledRun) : String := String.join (line.map (·.text))

def text (lines : StyledLines) : String := "\n".intercalate (lines.map lineText)

/-- The runs of a line are the longest stretches of one style. -/
structure Merged (line : List StyledRun) : Prop where
  filled : ∀ run ∈ line, run.text ≠ "" ∧ '\n' ∉ run.text.toList
  apart : line.IsChain fun run next => run.style ≠ next.style

theorem merged_nil : Merged [] where
  filled := by simp
  apart := .nil

theorem Merged.consChar {line : List StyledRun} (merged : Merged line) (style : String) {c : Char}
    (notNewline : c ≠ '\n') : Merged (consChar style c line) := by
  have alone : String.ofList [c] ≠ "" ∧ '\n' ∉ (String.ofList [c]).toList := by
    simp [notNewline.symm]
  match line with
  | [] => exact ⟨by simpa [StyledLines.consChar] using alone, .singleton _⟩
  | run :: runs =>
    obtain ⟨first, others⟩ := List.forall_mem_cons.mp merged.filled
    rw [StyledLines.consChar]
    split
    · next same =>
      have longer : String.ofList (c :: run.text.toList) ≠ "" ∧
          '\n' ∉ (String.ofList (c :: run.text.toList)).toList := by
        simp [notNewline.symm, first.2]
      refine ⟨List.forall_mem_cons.mpr ⟨longer, others⟩, ?_⟩
      have apart := merged.apart
      rw [List.isChain_cons] at apart ⊢
      rwa [same] at apart
    · next other =>
      exact ⟨List.forall_mem_cons.mpr ⟨alone, merged.filled⟩,
        merged.apart.cons_cons (Ne.symm other)⟩

theorem merged_of_mem_ofChars (chars : List StyledChar) : ∀ line ∈ ofChars chars, Merged line := by
  induction chars with
  | nil => simp [ofChars, merged_nil]
  | cons char rest ih =>
    obtain ⟨style, c⟩ := char
    rw [ofChars]
    split
    · exact List.forall_mem_cons.mpr ⟨merged_nil, ih⟩
    · next notNewline =>
      split
      · rw [List.forall_mem_singleton]
        exact merged_nil.consChar style notNewline
      · next line lines split =>
        rw [split] at ih
        obtain ⟨merged, others⟩ := List.forall_mem_cons.mp ih
        exact List.forall_mem_cons.mpr ⟨merged.consChar style notNewline, others⟩

theorem toList_lineText (line : List StyledRun) :
    (lineText line).toList = (cells line).map (·.2) := by
  simp [lineText, cells, List.map_flatMap, List.flatMap_map, Function.comp_def]

theorem toList_text (lines : StyledLines) :
    lines.text.toList = ['\n'].intercalate ((lines.map cells).map (·.map (·.2))) := by
  simp [text, String.toList_intercalate, Function.comp_def, toList_lineText]

theorem text_ofChars (chars : List StyledChar) :
    (ofChars chars).text = String.ofList (chars.map (·.2)) := by
  rw [← String.toList_inj, String.toList_ofList, toList_text, ← rowsOf]
  induction chars with
  | nil => rfl
  | cons char rest ih =>
    obtain ⟨style, c⟩ := char
    obtain ⟨row, rows, split⟩ := List.exists_cons_of_ne_nil (fits_rowsOf rest).ne_nil
    by_cases newline : c = '\n'
    · subst newline
      rw [rowsOf_newline, List.map_cons, List.map_cons, ← ih, split]
      rfl
    · rw [split] at ih
      rw [rowsOf_char newline split, List.map_cons (l := rest), ← ih]
      cases rows <;> simp [List.intercalate_cons_cons]

end LineGrammar.StyledLines

namespace LineGrammar.Highlighter

open StyledLines

/-- Whatever the highlighters of the variables return, the lines spell the document, there is one
for each of its lines, and they are made of the longest stretches of one style. -/
theorem text_highlight (grammar : Grammar) (defaultStyle : String)
    (highlighters : List (String × Highlighter)) (document : Document) :
    let lines := (fields grammar defaultStyle highlighters).highlight document
    lines.text = document.text ∧ lines.length = document.lineCount ∧
      ∀ line ∈ lines, Merged line := by
  intro lines
  have counted := (textPreserving_fields grammar defaultStyle highlighters).length_eq document
  obtain ⟨chars, made, same⟩ := exists_ofChars_fields grammar defaultStyle highlighters document
  have spelled : lines.text = document.text := by
    rw [show lines = ofChars chars from made, text_ofChars, same, String.ofList_toList]
  have merged : ∀ line ∈ lines, Merged line := by
    rw [show lines = ofChars chars from made]
    exact merged_of_mem_ofChars chars
  exact ⟨spelled, counted, merged⟩

end LineGrammar.Highlighter
