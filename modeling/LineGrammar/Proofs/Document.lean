import LineGrammar.Document
import LineGrammar.Proofs.Text.Boundaries

/-! The cursor of a document and the texts beside it. The search for the cursor goes down byte by
byte. Every byte that it leaves is inside of a character, so it passes no boundary and leaves three
bytes at most. The words before the cursor are found going back from it, through the position of the
last character that passes; each is the longest end of the text whose characters all pass. -/

namespace LineGrammar

namespace Text

variable {text : String} {limit boundary : Nat}

def boundariesUpTo (text : String) (limit : Nat) : Set Nat :=
  { position | String.Pos.Raw.IsValid text ⟨position⟩ ∧ position ≤ limit }

theorem boundariesUpTo_succ {below : Nat} (inside : ¬String.Pos.Raw.IsValid text ⟨below + 1⟩) :
    boundariesUpTo text (below + 1) = boundariesUpTo text below := by
  ext position
  constructor
  · rintro ⟨valid, le⟩
    have other : position ≠ below + 1 := fun same => inside (same ▸ valid)
    exact ⟨valid, by omega⟩
  · rintro ⟨valid, le⟩
    exact ⟨valid, by omega⟩

theorem isGreatest_of_boundaryUpTo? (found : boundaryUpTo? text limit = some boundary) :
    IsGreatest (boundariesUpTo text limit) boundary := by
  induction limit with
  | zero =>
    have valid : String.Pos.Raw.IsValid text ⟨0⟩ := String.Pos.Raw.isValid_zero
    rw [boundaryUpTo?_of_isValid valid] at found
    obtain rfl := Option.some.inj found
    exact ⟨⟨valid, le_rfl⟩, fun _ within => within.2⟩
  | succ below ih =>
    by_cases valid : String.Pos.Raw.IsValid text ⟨below + 1⟩
    · rw [boundaryUpTo?_of_isValid valid] at found
      obtain rfl := Option.some.inj found
      exact ⟨⟨valid, le_rfl⟩, fun _ within => within.2⟩
    · rw [boundaryUpTo?_succ valid] at found
      rw [boundariesUpTo_succ valid]
      exact ih found

theorem lt_add_four_of_isGreatest (within : limit ≤ text.utf8ByteSize)
    (greatest : IsGreatest (boundariesUpTo text limit) boundary) : limit < boundary + 4 := by
  by_contra far
  obtain ⟨⟨valid, -⟩, last⟩ := greatest
  obtain ⟨before, after, split, rfl⟩ := append_of_isValid valid
  have total := congrArg byteLength split
  rw [byteLength_append, byteLength_toList] at total
  cases after with
  | nil =>
    rw [byteLength_nil] at total
    omega
  | cons c rest =>
    have next : String.Pos.Raw.IsValid text ⟨byteLength before + c.utf8Size⟩ := by
      have behind : text.toList = (before ++ [c]) ++ rest := by rw [split, List.append_cons]
      simpa using isValid_of_append behind
    have four := c.utf8Size_le_four
    have some := c.utf8Size_pos
    have le : byteLength before + c.utf8Size ≤ byteLength before := last ⟨next, by omega⟩
    omega

end Text

namespace Document

/-- The longest end of the text whose characters all pass: every such end is an end of it. -/
structure IsTrailingRun (passes : Char → Bool) (text run : String) : Prop where
  ends : run.toList <:+ text.toList
  all : ∀ c ∈ run.toList, passes c = true
  longest : ∀ other, other <:+ text.toList → (∀ c ∈ other, passes c = true) → other <:+ run.toList

variable (passes : Char → Bool)

theorem runStart_concat (text : List Char) (c : Char) :
    runStart passes (text ++ [c]) =
      if passes c then runStart passes text else Text.byteLength (text ++ [c]) := by
  have places : (Text.placesFrom 0 (text ++ [c])).reverse =
      (Text.byteLength text, c) :: (Text.placesFrom 0 text).reverse := by
    simp [Text.placesFrom_append, Text.placesFrom]
  rw [runStart, places, List.takeWhile_cons]
  by_cases pass : passes c = true
  · rw [if_pos pass, if_pos pass, List.getLast?_cons, runStart]
    cases ((Text.placesFrom 0 text).reverse.takeWhile (passes ·.2)).getLast? <;> rfl
  · rw [if_neg pass, if_neg pass, List.getLast?_nil]

theorem runStart_eq (text : List Char) :
    runStart passes text = Text.byteLength (text.rdropWhile passes) := by
  -- from the last character on, the way the scan goes
  induction text using List.reverseRecOn with
  | nil => rfl
  | append_singleton text c ih =>
    rw [runStart_concat, List.rdropWhile_concat, ih]
    split <;> rfl

theorem toList_trailingRun (text : String) :
    (trailingRun passes text).toList = text.toList.rtakeWhile passes := by
  have isBefore : Text.IsBefore text (runStart passes text.toList)
      (text.toList.rtakeWhile passes) :=
    ⟨text.toList.rdropWhile passes, List.rdropWhile_append_rtakeWhile.symm,
      (runStart_eq passes text.toList).symm⟩
  rw [trailingRun, isBefore.from?, Option.getD_some, String.toList_ofList]

theorem isTrailingRun_trailingRun (text : String) :
    IsTrailingRun passes text (trailingRun passes text) := by
  constructor <;> rw [toList_trailingRun]
  · exact List.rtakeWhile_suffix _ _
  · exact fun c mem => List.mem_rtakeWhile_imp mem
  · rintro other ⟨front, split⟩ pass
    rw [← split, List.rtakeWhile, List.reverse_append,
      List.takeWhile_append_of_pos fun c mem => pass c (List.mem_reverse.mp mem),
      List.reverse_append, List.reverse_reverse]
    exact List.suffix_append _ _

theorem exists_ofText_eq (text : String) (cursor : Nat) :
    ∃ before after, text.toList = before ++ after ∧
      Text.boundaryUpTo? text (min cursor text.utf8ByteSize) = some (Text.byteLength before) ∧
      ofText text cursor = ⟨String.ofList before, String.ofList after⟩ := by
  obtain ⟨position, found⟩ := Option.isSome_iff_exists.mp
    (Text.isSome_boundaryUpTo? text (min cursor text.utf8ByteSize))
  obtain ⟨before, after, split, rfl⟩ :=
    Text.append_of_isValid (Text.isGreatest_of_boundaryUpTo? found).1.1
  have cut := Text.cut?_append before after
  rw [← split] at cut
  refine ⟨before, after, split, found, ?_⟩
  simp only [ofText, found, Option.get_some, Text.before?, Text.from?, cut, Option.map_some,
    Option.getD_some]

theorem boundaryUpTo?_eq_cursor_ofText (text : String) (cursor : Nat) :
    Text.boundaryUpTo? text (min cursor text.utf8ByteSize) = some (ofText text cursor).cursor := by
  obtain ⟨before, after, -, found, cut⟩ := exists_ofText_eq text cursor
  rw [found, cut, Document.cursor, ← Text.byteLength_toList, String.toList_ofList]

theorem before_ofText_append_after (text : String) (cursor : Nat) :
    (ofText text cursor).before ++ (ofText text cursor).after = text := by
  obtain ⟨before, after, split, -, cut⟩ := exists_ofText_eq text cursor
  rw [cut, ← String.ofList_append, ← split, String.ofList_toList]

/-- The search for the cursor comes to an end without a step below byte 0, after three steps at
most, at the greatest boundary that is behind neither the byte asked for nor the text. There the
text falls into its two sides. The two words are the longest ends of the side before the cursor that
consist of word characters and that have no white space. -/
theorem isGreatest_cursor_ofText (text : String) (cursor : Nat) :
    Text.boundaryUpTo? text (min cursor text.utf8ByteSize) = some (ofText text cursor).cursor ∧
    min cursor text.utf8ByteSize < (ofText text cursor).cursor + 4 ∧
    IsGreatest
      { position |
        String.Pos.Raw.IsValid text ⟨position⟩ ∧ position ≤ min cursor text.utf8ByteSize }
      (ofText text cursor).cursor ∧
    (ofText text cursor).before ++ (ofText text cursor).after = text ∧
    IsTrailingRun isWordChar (ofText text cursor).before (ofText text cursor).wordBefore ∧
    IsTrailingRun (!Text.isBlank ·) (ofText text cursor).before
      (ofText text cursor).bigWordBefore := by
  have found := boundaryUpTo?_eq_cursor_ofText text cursor
  have greatest := Text.isGreatest_of_boundaryUpTo? found
  have near := Text.lt_add_four_of_isGreatest (Nat.min_le_right _ _) greatest
  exact ⟨found, near, greatest, before_ofText_append_after text cursor,
    isTrailingRun_trailingRun _ _, isTrailingRun_trailingRun _ _⟩

example : (ofText "a/é€ _𝄞b" 12).cursor = 9 ∧ (ofText "a/é€ _𝄞b" 12).wordBefore = "_" ∧
    (ofText "a/é€ _𝄞b" 7).bigWordBefore = "a/é€" := by decide

end Document

end LineGrammar
