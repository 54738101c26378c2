import LineGrammar.Highlight.Highlighter
import LineGrammar.Proofs.Outcome

/-! Places in styled lines. A character of a text stands in the line after as many newlines as come
before it, behind the characters since the last of them. Lines that have the lengths of the lines of
a text hold one styled character for each of its characters but the newlines, in the same order. -/

namespace LineGrammar.StyledLines

def cells (line : List StyledRun) : List StyledChar :=
  line.flatMap fun run => run.text.toList.map fun c => (run.style, c)

def row (before : List Char) : Nat := before.count '\n'

def column (before : List Char) : Nat := (before.rtakeWhile (· ≠ '\n')).length

/-- The styled character that the lines have for byte `position` of the text. -/
def charAt? (lines : StyledLines) (text : String) (position : Nat) : Option StyledChar :=
  (Text.cut? text.toList position).bind fun (before, _) =>
    (cells (lines.line (row before)))[column before]?

theorem row_cons (c : Char) (before : List Char) :
    row (c :: before) = if c = '\n' then row before + 1 else row before := by
  rw [row, List.count_cons]
  split <;> simp_all [row]

theorem column_concat (before : List Char) (c : Char) :
    column (before ++ [c]) = if c = '\n' then 0 else column before + 1 := by
  by_cases newline : c = '\n'
  · rw [column, List.rtakeWhile_concat_neg _ _ _ (by simp [newline]), if_pos newline]
    rfl
  · rw [column, List.rtakeWhile_concat_pos _ _ _ (by simp [newline]), if_neg newline]
    simp [column]

theorem column_cons (c : Char) (before : List Char) :
    column (c :: before) =
      if c = '\n' ∨ 0 < row before then column before else column before + 1 := by
  induction before using List.reverseRecOn with
  | nil =>
    have alone := column_concat [] c
    simpa [row, column] using alone
  | append_singleton before last ih =>
    have rows : row (before ++ [last]) = row before + if last = '\n' then 1 else 0 := by
      simp [row, List.count_cons]
    rw [← List.cons_append, column_concat, column_concat, ih, rows]
    by_cases newline : last = '\n'
    · simp [newline]
    · simp only [newline, if_false, Nat.add_zero]
      split <;> rfl

section

variable {rows : List (List StyledChar)} {text before after : List Char} {c : Char}

/-- There is a row for each line of the text, with as many characters. -/
def Fits (rows : List (List StyledChar)) (text : List Char) : Prop :=
  rows.map List.length = (Text.splitLines text).map List.length

def spread : List (List StyledChar) → List (Option StyledChar)
  | [] => []
  | [cells] => cells.map some
  | cells :: rows => cells.map some ++ none :: spread rows

theorem Fits.newline (fits : Fits rows ('\n' :: text)) :
    ∃ later, rows = [] :: later ∧ Fits later text := by
  simp only [Fits, Text.splitLines, if_true, List.map_cons, List.length_nil] at fits
  obtain ⟨first, later, rfl, length, others⟩ := List.map_eq_cons_iff.mp fits
  exact ⟨later, by rw [List.length_eq_zero_iff.mp length], others⟩

theorem Fits.char (fits : Fits rows (c :: text)) (notNewline : c ≠ '\n') :
    ∃ cell cells later, rows = (cell :: cells) :: later ∧ Fits (cells :: later) text := by
  unfold Fits at fits ⊢
  rw [Text.splitLines, if_neg notNewline] at fits
  split at fits
  · next none => exact absurd none (Text.splitLines_ne_nil text)
  · next line lines split =>
    obtain ⟨first, later, rfl, length, others⟩ := List.map_eq_cons_iff.mp fits
    obtain ⟨cell, cells, rfl⟩ := List.exists_cons_of_length_eq_add_one length
    refine ⟨cell, cells, later, rfl, ?_⟩
    rw [split]
    simpa using And.intro length others

theorem fits_newline (fits : Fits rows text) : Fits ([] :: rows) ('\n' :: text) := by
  rw [Fits, Text.splitLines, if_pos rfl, List.map_cons, List.map_cons, fits]
  rfl

theorem fits_char {cells : List StyledChar} (fits : Fits (cells :: rows) text)
    (notNewline : c ≠ '\n') (cell : StyledChar) : Fits ((cell :: cells) :: rows) (c :: text) := by
  unfold Fits at fits ⊢
  rw [Text.splitLines, if_neg notNewline]
  split
  · next none => exact absurd none (Text.splitLines_ne_nil text)
  · next line lines split =>
    rw [split] at fits
    simpa using fits

theorem Fits.ne_nil (fits : Fits rows text) : rows ≠ [] := by
  rintro rfl
  have := Text.splitLines_ne_nil text
  simp_all [Fits]

theorem spread_newline (some : rows ≠ []) : spread ([] :: rows) = none :: spread rows := by
  match rows with
  | _ :: _ => rfl

theorem spread_char (cell : StyledChar) (cells : List StyledChar) (rows : List (List StyledChar)) :
    spread ((cell :: cells) :: rows) = some cell :: spread (cells :: rows) := by
  cases rows <;> rfl

theorem Fits.spread_getElem? (fits : Fits rows (before ++ c :: after)) (notNewline : c ≠ '\n') :
    ∃ cell, (rows[row before]?).bind (·[column before]?) = some cell ∧
      (spread rows)[before.length]? = some (some cell) := by
  induction before generalizing rows with
  | nil =>
    obtain ⟨cell, cells, later, rfl, -⟩ := fits.char notNewline
    exact ⟨cell, by simp [row, column], by rw [spread_char]; rfl⟩
  | cons d before ih =>
    by_cases newline : d = '\n'
    · subst newline
      obtain ⟨later, rfl, fits'⟩ := fits.newline
      obtain ⟨cell, found, spreads⟩ := ih fits'
      refine ⟨cell, ?_, by rwa [spread_newline fits'.ne_nil]⟩
      rwa [row_cons, column_cons, if_pos rfl, if_pos (.inl rfl), List.getElem?_cons_succ]
    · obtain ⟨first, cells, later, rfl, fits'⟩ := fits.char newline
      obtain ⟨cell, found, spreads⟩ := ih fits'
      refine ⟨cell, ?_, by rwa [spread_char]⟩
      rw [row_cons, column_cons, if_neg newline]
      by_cases first : row before = 0
      · rw [if_neg (by simp [newline, first])]
        simpa [first] using found
      · obtain ⟨number, eq⟩ := Nat.exists_eq_succ_of_ne_zero first
        rw [if_pos (.inr (by omega))]
        simpa [eq] using found

theorem Fits.length_spread (fits : Fits rows text) : (spread rows).length = text.length := by
  induction text generalizing rows with
  | nil =>
    obtain ⟨cells, rfl, none⟩ : ∃ cells, rows = [cells] ∧ cells = [] := by
      simpa [Fits, Text.splitLines, List.map_eq_singleton_iff] using fits
    simp [spread, none]
  | cons c text ih =>
    by_cases newline : c = '\n'
    · subst newline
      obtain ⟨later, rfl, fits'⟩ := fits.newline
      rw [spread_newline fits'.ne_nil, List.length_cons, List.length_cons, ih fits']
    · obtain ⟨first, cells, later, rfl, fits'⟩ := fits.char newline
      rw [spread_char, List.length_cons, List.length_cons, ih fits']

end

section

variable {chars before after : List StyledChar} {style : String} {c : Char}

theorem cells_consChar (style : String) (c : Char) (line : List StyledRun) :
    cells (consChar style c line) = (style, c) :: cells line := by
  unfold consChar
  split
  · simp [cells]
  · split
    · next same => simp [cells, same]
    · simp [cells]

def rowsOf (chars : List StyledChar) : List (List StyledChar) := (ofChars chars).map cells

theorem rowsOf_newline (style : String) (chars : List StyledChar) :
    rowsOf ((style, '\n') :: chars) = [] :: rowsOf chars := by
  rw [rowsOf, ofChars, if_pos rfl, List.map_cons]
  rfl

theorem rowsOf_char (notNewline : c ≠ '\n') {row : List StyledChar} {rows : List (List StyledChar)}
    (rest : rowsOf chars = row :: rows) :
    rowsOf ((style, c) :: chars) = ((style, c) :: row) :: rows := by
  obtain ⟨line, lines, split, rfl, rfl⟩ := List.map_eq_cons_iff.mp rest
  rw [rowsOf, ofChars, if_neg notNewline, split, List.map_cons, cells_consChar]

theorem fits_rowsOf (chars : List StyledChar) : Fits (rowsOf chars) (chars.map (·.2)) := by
  induction chars with
  | nil => rfl
  | cons char rest ih =>
    obtain ⟨style, c⟩ := char
    by_cases newline : c = '\n'
    · subst newline
      rw [rowsOf_newline]
      exact fits_newline ih
    · obtain ⟨row, rows, split⟩ := List.exists_cons_of_ne_nil ih.ne_nil
      rw [rowsOf_char newline split]
      exact fits_char (split ▸ ih) newline _

theorem spread_rowsOf (chars : List StyledChar) :
    spread (rowsOf chars) = chars.map fun char => if char.2 = '\n' then none else some char := by
  induction chars with
  | nil => rfl
  | cons char rest ih =>
    obtain ⟨style, c⟩ := char
    have some := (fits_rowsOf rest).ne_nil
    by_cases newline : c = '\n'
    · subst newline
      rw [rowsOf_newline, spread_newline some, ih]
      rfl
    · obtain ⟨row, rows, split⟩ := List.exists_cons_of_ne_nil some
      rw [rowsOf_char newline split, spread_char, ← split, ih]
      simp [newline]

theorem charAt?_append (lines : StyledLines) {text : String} {before after : List Char}
    (split : text.toList = before ++ after) :
    lines.charAt? text (Text.byteLength before) =
      ((lines.map cells)[row before]?).bind (·[column before]?) := by
  simp only [charAt?, split, Text.cut?_append, Option.bind_some, line, List.getElem?_map]
  cases lines[row before]? <;> simp [cells]

theorem charAt?_ofChars {text : String} {place : List Char}
    (spells : text.toList = chars.map (·.2)) (split : chars = before ++ (style, c) :: after)
    (same : before.map (·.2) = place) (notNewline : c ≠ '\n') :
    (ofChars chars).charAt? text (Text.byteLength place) = some (style, c) := by
  obtain rfl := same
  rw [split, List.map_append, List.map_cons] at spells
  have fits := fits_rowsOf chars
  rw [split, List.map_append, List.map_cons] at fits
  obtain ⟨cell, found, spreads⟩ := fits.spread_getElem? notNewline
  rw [← split, spread_rowsOf, split] at spreads
  rw [charAt?_append _ spells]
  rw [← split, rowsOf] at found
  rw [found]
  simpa [notNewline, eq_comm] using spreads

end

end LineGrammar.StyledLines
