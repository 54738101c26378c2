import LineGrammar.Completion.Words
import LineGrammar.Proofs.Text.Lowercase

/-! Lists of words with and without regard to case. Both offer a word in place of the same text; a
word that goes on with what was typed as it stands is lost without regard to case just where it goes
on behind a sigma that was the last letter typed. -/

namespace LineGrammar.WordList

/-- What was typed ends in a final sigma, and the word goes on behind it: a letter that has case
comes after it, with nothing but skipped characters in between. -/
def ReopensSigma (typed word : String) : Prop :=
  ∃ more, word.toList = typed.toList ++ more ∧ Text.EndsInSigma [] typed.toList ∧
    Text.reachesCased more = true

theorem accepts_ignoringCase_iff (list : WordList) {word typed : String}
    (begins : typed.toList <+: word.toList) :
    { list with ignoreCase := true }.accepts word typed = true ↔ ¬ReopensSigma typed word := by
  obtain ⟨more, split⟩ := begins
  have lowered : { list with ignoreCase := true }.accepts word typed = true ↔
      Text.lowerFrom [] typed.toList <+: Text.lowerFrom [] (typed.toList ++ more) := by
    rw [split]
    simp [accepts, startsWith, Text.lowercase]
  rw [lowered, Text.lowerFrom_prefix_iff, not_iff_not]
  constructor
  · intro reopens
    exact ⟨more, split.symm, reopens⟩
  · rintro ⟨more', split', reopens⟩
    obtain rfl : more = more' := List.append_cancel_left (split.trans split')
    exact reopens

theorem mem_complete {list : WordList} {ignoreCase : Bool} {document : Document}
    {completion : Completion} :
    completion ∈ { list with ignoreCase := ignoreCase }.complete document ↔
      ∃ word ∈ list.words,
        { list with ignoreCase := ignoreCase }.accepts word (list.typed document) = true ∧
        completion = ⟨word, (list.typed document).utf8ByteSize, none, list.notes.find? word⟩ := by
  have typed : { list with ignoreCase := ignoreCase }.typed document = list.typed document := rfl
  simp only [complete, typed, List.mem_map, List.mem_filter, and_assoc, eq_comm]

/-- A completion that is offered with regard to case is the same without, unless its word goes on
behind a sigma that was the last letter typed; then it is not offered at all. -/
theorem mem_complete_ignoringCase_iff (list : WordList) (document : Document)
    (completion : Completion)
    (offered : completion ∈ { list with ignoreCase := false }.complete document) :
    completion ∈ { list with ignoreCase := true }.complete document ↔
      ¬ReopensSigma (list.typed document) completion.text := by
  obtain ⟨word, listed, accepted, rfl⟩ := mem_complete.mp offered
  have begins : (list.typed document).toList <+: word.toList := by
    simpa [accepts, startsWith] using accepted
  rw [← accepts_ignoringCase_iff list begins, mem_complete]
  constructor
  · rintro ⟨word', -, accepted', same⟩
    obtain rfl : word = word' := congrArg Completion.text same
    exact accepted'
  · intro accepted'
    exact ⟨word, listed, accepted', rfl⟩

theorem mem_complete_ignoringCase_dash :
    let list : WordList := .ofWords ["ΑΣ.Β", "ΑΣ-Β"]
    let dashed : Completion := ⟨"ΑΣ-Β", 4, none, none⟩
    let dotted : Completion := ⟨"ΑΣ.Β", 4, none, none⟩
    (dashed ∈ { list with ignoreCase := false }.complete (.atEnd "ΑΣ") ∧
      dashed ∈ { list with ignoreCase := true }.complete (.atEnd "ΑΣ") ∧
      ¬ReopensSigma (list.typed (.atEnd "ΑΣ")) dashed.text) ∧
    dotted ∈ { list with ignoreCase := false }.complete (.atEnd "ΑΣ") ∧
      dotted ∉ { list with ignoreCase := true }.complete (.atEnd "ΑΣ") ∧
      ReopensSigma (list.typed (.atEnd "ΑΣ")) dotted.text := by
  intro list dashed dotted
  have offered : { list with ignoreCase := false }.complete (.atEnd "ΑΣ") = [dotted, dashed] := by
    decide +kernel
  have ignoring : { list with ignoreCase := true }.complete (.atEnd "ΑΣ") = [dashed] := by
    decide +kernel
  have dashed' : dashed ∈ { list with ignoreCase := false }.complete (.atEnd "ΑΣ") := by
    simp [offered]
  have dotted' : dotted ∈ { list with ignoreCase := false }.complete (.atEnd "ΑΣ") := by
    simp [offered]
  have kept : dashed ∈ { list with ignoreCase := true }.complete (.atEnd "ΑΣ") := by
    simp [ignoring]
  have lost : dotted ∉ { list with ignoreCase := true }.complete (.atEnd "ΑΣ") := by
    simp [ignoring, dotted, dashed]
  refine ⟨⟨dashed', kept, ?_⟩, dotted', lost, ?_⟩
  · exact (mem_complete_ignoringCase_iff list (.atEnd "ΑΣ") dashed dashed').mp kept
  · by_contra apart
    exact lost ((mem_complete_ignoringCase_iff list (.atEnd "ΑΣ") dotted dotted').mpr apart)

/-- The word goes on with what was typed, and without regard to case it is not offered. -/
theorem complete_sigma_lost :
    { WordList.ofWords ["ΑΣΑ"] with ignoreCase := false }.complete (.atEnd "ΑΣ") =
        [⟨"ΑΣΑ", 4, none, none⟩] ∧
      { WordList.ofWords ["ΑΣΑ"] with ignoreCase := true }.complete (.atEnd "ΑΣ") = [] := by
  constructor <;> decide +kernel

end LineGrammar.WordList
