import LineGrammar.Proofs.Highlight.Lines

/-! Splitting styled characters into lines and writing the lines one after another again. Written
with a newline between every two, the lines of styled characters are these characters, but for the
styles of newlines. The other way round, lines of the longest stretches of one style are what their
characters are split into; so adding the characters one by one at the end of the last line comes to
the same lines. -/

namespace LineGrammar.StyledLines

/-- The characters of the lines, with a newline of the given style between every two. -/
def flatten (newlineStyle : String) (lines : StyledLines) : List StyledChar :=
  [(newlineStyle, '\n')].intercalate (lines.map cells)

/-- A newline gets the style, another character keeps its own. -/
def restyle (newlineStyle : String) (char : StyledChar) : StyledChar :=
  if char.2 = '\n' then (newlineStyle, '\n') else char

variable {newlineStyle style : String} {c : Char} {line runs : List StyledRun}
  {lines : StyledLines} {chars : List StyledChar}

theorem ofChars_ne_nil (chars : List StyledChar) : ofChars chars ≠ [] := by
  have some := (fits_rowsOf chars).ne_nil
  rwa [rowsOf, Ne, List.map_eq_nil_iff] at some

theorem flatten_cons (line : List StyledRun) (some : lines ≠ []) :
    flatten newlineStyle (line :: lines) =
      cells line ++ (newlineStyle, '\n') :: flatten newlineStyle lines := by
  obtain ⟨next, rest, rfl⟩ := List.exists_cons_of_ne_nil some
  simp [flatten, List.intercalate_cons_cons]

theorem flatten_singleton (line : List StyledRun) : flatten newlineStyle [line] = cells line := by
  simp [flatten]

theorem flatten_consChar (style : String) (c : Char) (line : List StyledRun)
    (lines : StyledLines) :
    flatten newlineStyle (consChar style c line :: lines) =
      (style, c) :: flatten newlineStyle (line :: lines) := by
  cases lines with
  | nil => rw [flatten_singleton, flatten_singleton, cells_consChar]
  | cons next rest =>
    rw [flatten_cons _ (List.cons_ne_nil _ _), flatten_cons _ (List.cons_ne_nil _ _),
      cells_consChar, List.cons_append]

theorem flatten_ofChars (newlineStyle : String) (chars : List StyledChar) :
    flatten newlineStyle (ofChars chars) = chars.map (restyle newlineStyle) := by
  induction chars with
  | nil => rfl
  | cons char rest ih =>
    obtain ⟨style, c⟩ := char
    rw [List.map_cons, ← ih, restyle]
    by_cases newline : c = '\n'
    · rw [ofChars, if_pos newline, if_pos newline, flatten_cons _ (ofChars_ne_nil rest)]
      rfl
    · obtain ⟨line, lines, split⟩ := List.exists_cons_of_ne_nil (ofChars_ne_nil rest)
      rw [ofChars, if_neg newline, if_neg newline, split]
      exact flatten_consChar style c line lines

theorem ofChars_restyle (newlineStyle : String) (chars : List StyledChar) :
    ofChars (chars.map (restyle newlineStyle)) = ofChars chars := by
  induction chars with
  | nil => rfl
  | cons char rest ih =>
    obtain ⟨style, c⟩ := char
    rw [List.map_cons, restyle]
    by_cases newline : c = '\n'
    · rw [if_pos newline, ofChars, ofChars, if_pos rfl, if_pos newline, ih]
    · rw [if_neg newline, ofChars, ofChars, if_neg newline, if_neg newline, ih]

theorem consChar_of_apart (apart : ∀ run ∈ runs.head?, run.style ≠ style) :
    consChar style c runs = ⟨style, String.ofList [c]⟩ :: runs := by
  cases runs with
  | nil => rfl
  | cons run runs => rw [consChar, if_neg (apart run rfl)]

theorem consChar_of_same (text : String) :
    consChar style c (⟨style, text⟩ :: runs) =
      ⟨style, String.ofList (c :: text.toList)⟩ :: runs := by
  rw [consChar, if_pos rfl]

theorem ofChars_run {text : List Char} (some : text ≠ []) (unbroken : '\n' ∉ text)
    (apart : ∀ run ∈ runs.head?, run.style ≠ style) (rest : ofChars chars = runs :: lines) :
    ofChars (text.map (fun c => (style, c)) ++ chars) =
      (⟨style, String.ofList text⟩ :: runs) :: lines := by
  induction text with
  | nil => exact absurd rfl some
  | cons c text ih =>
    rw [List.mem_cons, not_or] at unbroken
    rw [List.map_cons, List.cons_append, ofChars, if_neg (Ne.symm unbroken.1)]
    cases text with
    | nil => simp [rest, consChar_of_apart apart]
    | cons d text =>
      rw [ih (List.cons_ne_nil d text) unbroken.2]
      simp [consChar_of_same]

theorem Merged.tail {run : StyledRun} (merged : Merged (run :: runs)) :
    Merged runs ∧ ∀ next ∈ runs.head?, next.style ≠ run.style := by
  obtain ⟨filled, apart⟩ := merged
  rw [List.isChain_cons] at apart
  exact ⟨⟨(List.forall_mem_cons.mp filled).2, apart.2⟩, fun next mem => (apart.1 next mem).symm⟩

theorem ofChars_cells (merged : Merged line) (rest : ofChars chars = [] :: lines) :
    ofChars (cells line ++ chars) = line :: lines := by
  induction line with
  | nil => simpa [cells] using rest
  | cons run runs ih =>
    obtain ⟨merged', apart⟩ := merged.tail
    obtain ⟨some, unbroken⟩ := merged.filled run List.mem_cons_self
    have first : run.text.toList ≠ [] := by simpa [String.toList_eq_nil_iff] using some
    have split : cells (run :: runs) ++ chars =
        run.text.toList.map (fun c => (run.style, c)) ++ (cells runs ++ chars) := by
      simp [cells]
    rw [split, ofChars_run first unbroken apart (ih merged'), String.ofList_toList]

theorem ofChars_flatten (newlineStyle : String) (some : lines ≠ [])
    (merged : ∀ line ∈ lines, Merged line) : ofChars (flatten newlineStyle lines) = lines := by
  induction lines with
  | nil => exact absurd rfl some
  | cons line lines ih =>
    obtain ⟨first, others⟩ := List.forall_mem_cons.mp merged
    by_cases last : lines = []
    · subst last
      have nothing : ofChars [] = [[]] := rfl
      have alone := ofChars_cells first nothing
      rwa [List.append_nil, ← @flatten_singleton newlineStyle] at alone
    · rw [flatten_cons line last]
      refine ofChars_cells first ?_
      rw [ofChars, if_pos rfl, ih last others]

def concatChar (line : List StyledRun) (char : StyledChar) : List StyledRun :=
  match line.getLast? with
  | none => [⟨char.1, String.ofList [char.2]⟩]
  | some run =>
    if run.style = char.1 then line.dropLast ++ [⟨char.1, run.text.push char.2⟩]
    else line ++ [⟨char.1, String.ofList [char.2]⟩]

def addChar (lines : StyledLines) (char : StyledChar) : StyledLines :=
  if char.2 = '\n' then lines ++ [[]]
  else lines.dropLast ++ [concatChar (lines.getLastD []) char]

theorem cells_concatChar (line : List StyledRun) (char : StyledChar) :
    cells (concatChar line char) = cells line ++ [char] := by
  unfold concatChar
  cases line using List.reverseRecOn with
  | nil => simp [cells]
  | append_singleton runs run =>
    rw [List.getLast?_concat, List.dropLast_concat]
    dsimp only
    split
    · next same => simp [cells, same]
    · simp [cells]

theorem Merged.concatChar (merged : Merged line) {char : StyledChar} (notNewline : char.2 ≠ '\n') :
    Merged (concatChar line char) := by
  have alone : String.ofList [char.2] ≠ "" ∧ '\n' ∉ (String.ofList [char.2]).toList := by
    simp [notNewline.symm]
  obtain ⟨filled, apart⟩ := merged
  unfold StyledLines.concatChar
  cases line using List.reverseRecOn with
  | nil => exact ⟨by simpa using alone, .singleton _⟩
  | append_singleton runs run =>
    rw [List.getLast?_concat, List.dropLast_concat]
    dsimp only
    obtain ⟨others, last⟩ := List.forall_mem_append.mp filled
    rw [List.forall_mem_singleton] at last
    split
    · next same =>
      have longer : run.text.push char.2 ≠ "" ∧ '\n' ∉ (run.text.push char.2).toList := by
        simp [String.toList_push, notNewline.symm, last.2, ← String.toList_eq_nil_iff]
      refine ⟨List.forall_mem_append.mpr ⟨others, by simpa using longer⟩, ?_⟩
      rw [List.isChain_append] at apart ⊢
      refine ⟨apart.1, .singleton _, fun before mem next here => ?_⟩
      obtain rfl : next = _ := by simpa using here.symm
      exact same ▸ apart.2.2 before mem run rfl
    · next other =>
      refine ⟨List.forall_mem_append.mpr ⟨filled, by simpa using alone⟩, ?_⟩
      refine List.isChain_append.mpr ⟨apart, .singleton _, fun before mem next here => ?_⟩
      obtain rfl : before = run := by simpa using mem.symm
      obtain rfl : next = _ := by simpa using here.symm
      exact other

theorem flatten_concat (some : lines ≠ []) (line : List StyledRun) :
    flatten newlineStyle (lines ++ [line]) =
      flatten newlineStyle lines ++ (newlineStyle, '\n') :: cells line := by
  induction lines with
  | nil => exact absurd rfl some
  | cons first lines ih =>
    rw [List.cons_append, flatten_cons first (by simp)]
    by_cases last : lines = []
    · rw [last, List.nil_append, flatten_singleton, flatten_singleton]
    · rw [ih last, flatten_cons first last, List.append_assoc, List.cons_append]

/-- The invariant of adding characters one by one: the lines are those of the characters so far. -/
structure Holds (newlineStyle : String) (chars : List StyledChar) (lines : StyledLines) :
    Prop where
  some : lines ≠ []
  merged : ∀ line ∈ lines, Merged line
  flat : flatten newlineStyle lines = chars.map (restyle newlineStyle)

theorem Holds.addChar (holds : Holds newlineStyle chars lines) (char : StyledChar) :
    Holds newlineStyle (chars ++ [char]) (addChar lines char) := by
  obtain ⟨some, merged, flat⟩ := holds
  rw [StyledLines.addChar]
  split
  · next newline =>
    refine ⟨by simp, List.forall_mem_append.mpr ⟨merged, by simp [merged_nil]⟩, ?_⟩
    rw [flatten_concat some, flat, List.map_append, List.map_singleton, restyle, if_pos newline]
    rfl
  · next notNewline =>
    obtain ⟨front, line, rfl⟩ : ∃ front line, lines = front ++ [line] :=
      ⟨_, _, (List.dropLast_concat_getLast some).symm⟩
    obtain ⟨before, last⟩ := List.forall_mem_append.mp merged
    rw [List.forall_mem_singleton] at last
    rw [List.dropLast_concat, List.getLastD_concat]
    refine ⟨by simp, List.forall_mem_append.mpr
      ⟨before, by simpa using last.concatChar notNewline⟩, ?_⟩
    rw [List.map_append, ← flat, List.map_singleton, restyle, if_neg notNewline]
    by_cases only : front = []
    · rw [only, List.nil_append, List.nil_append, flatten_singleton, flatten_singleton,
        cells_concatChar]
    · rw [flatten_concat only, flatten_concat only, cells_concatChar, List.append_assoc,
        List.cons_append]

theorem Holds.foldl (holds : Holds newlineStyle chars lines) (added : List StyledChar) :
    Holds newlineStyle (chars ++ added) (added.foldl StyledLines.addChar lines) := by
  induction added generalizing chars lines with
  | nil => simpa using holds
  | cons char added ih => simpa using ih (holds.addChar char)

/-- Adding the characters one by one to a first empty line comes to their lines. -/
theorem ofChars_eq_foldl (chars : List StyledChar) : ofChars chars = chars.foldl addChar [[]] := by
  have start : Holds "" [] [[]] := ⟨by simp, by simp [merged_nil], rfl⟩
  obtain ⟨some, merged, flat⟩ := start.foldl chars
  rw [← ofChars_flatten "" some merged, flat, List.nil_append, ofChars_restyle]

/-- Splitting into lines and writing the lines with newlines between them are inverse to each
other: characters come back with their styles, but for the styles of newlines, and lines of the
longest stretches of one style come back as they are, whichever style the newlines get. -/
theorem splitting_inverts_flattening :
    (∀ newlineStyle chars,
      flatten newlineStyle (ofChars chars) = chars.map (restyle newlineStyle)) ∧
    ∀ newlineStyle lines, lines ≠ [] → (∀ line ∈ lines, Merged line) →
      ofChars (flatten newlineStyle lines) = lines :=
  ⟨flatten_ofChars, fun newlineStyle _ some merged => ofChars_flatten newlineStyle some merged⟩

theorem ofChars_flatten_broken_style :
    let lines : StyledLines := [[⟨"a", "x"⟩, ⟨"b", "yz"⟩], [], [⟨"b", "y"⟩], []]
    flatten "n" lines = [("a", 'x'), ("b", 'y'), ("b", 'z'), ("n", '\n'), ("n", '\n'), ("b", 'y'),
        ("n", '\n')] ∧
      ofChars (flatten "n" lines) = lines := by
  intro lines
  have merged : ∀ line ∈ lines, Merged line := by
    simp only [lines, List.forall_mem_cons, List.not_mem_nil, false_imp_iff, implies_true, and_true]
    exact ⟨⟨by decide, by decide⟩, merged_nil, ⟨by decide, by decide⟩, merged_nil⟩
  exact ⟨by decide, splitting_inverts_flattening.2 "n" lines (by decide) merged⟩

end LineGrammar.StyledLines
