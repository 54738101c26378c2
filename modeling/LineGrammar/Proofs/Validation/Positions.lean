import LineGrammar.Proofs.Grammar.Boundaries
import LineGrammar.Proofs.Validation.Judgements

/-! Where complaints point to. The value of a variable is a part of the text, and a complaint about
it is moved to where that part starts, so it stays between the ends of the variable and on a
boundary of the text. The induction is on the validator: moved once for every grammar around it, a
position is still one of the whole text. -/

namespace LineGrammar

namespace Grammar

variable {grammar : Grammar} {input : String} {result : Match}

theorem between?_of_matchWhole? (verbatim : grammar.unescapes = [])
    (matched : grammar.matchWhole? input = some result) {occurrence : Occurrence}
    (mem : occurrence ∈ result.occurrences) :
    Text.between? input occurrence.span.start occurrence.span.stop = some occurrence.value := by
  obtain ⟨⟨name, span⟩, field, rfl⟩ := List.mem_map.mp mem
  obtain ⟨first, second, le, rfl⟩ := exists_positions_of_matchWhole? matched field
  obtain ⟨captures, -, rfl⟩ := Option.map_eq_some_iff.mp matched
  have typed := Text.between?_take input le
  have unescaped (value : String) : grammar.unescape name value = value := by
    rw [unescape, verbatim]
    rfl
  simp only [Match.occurrence, Match.textOf, unescaped, typed, Option.getD_some]

end Grammar

def ValidatorError.PointsInto (text : String) (error : ValidatorError) : Prop :=
  ∃ complaint, error = .invalid complaint ∧ String.Pos.Raw.IsValid text ⟨complaint.position⟩

namespace Validator

variable {grammar : Grammar} {validators : List (String × Validator)} {document : Document}
  {error : ValidatorError}

theorem pointsInto_end (message text : String) :
    ValidatorError.PointsInto text (.invalid ⟨message, text.utf8ByteSize⟩) :=
  ⟨_, rfl, String.Pos.Raw.isValid_rawEndPos⟩

theorem pointsInto_of_judge {passes : String → Bool} {message text : String} {atEnd : Bool}
    (failed : judge passes message atEnd text = .error error) : error.PointsInto text := by
  unfold judge at failed
  split at failed
  · cases failed
  · obtain rfl := Except.error.inj failed
    cases atEnd with
    | true => exact pointsInto_end message text
    | false => exact ⟨_, rfl, String.Pos.Raw.isValid_zero⟩

theorem exists_rejected {found : Match} (matched : grammar.matchWhole? document.text = some found)
    (failed : ((fields grammar validators).deferred document).finish.1 = .error error) :
    ∃ occurrence entry inner, found.occurrences.find? (rejects validators) = some occurrence ∧
      entry ∈ validators ∧ (entry.2.deferred (.atEnd occurrence.value)).finish.1 = .error inner ∧
      error = inner.shift occurrence.span.start := by
  rw [finish_fields matched] at failed
  cases first : found.occurrences.find? (rejects validators) with
  | none =>
    rw [first] at failed
    cases failed
  | some occurrence =>
    rw [first, Option.elim_some, deferredNamed_eq] at failed
    cases known : Registry.find? validators occurrence.name with
    | none =>
      rw [known] at failed
      cases failed
    | some validator =>
      rw [known, Option.elim_some] at failed
      obtain ⟨entry, mem, rfl⟩ := Registry.mem_of_find? known
      obtain ⟨inner, judged, same⟩ := mapError_eq_error.mp failed
      exact ⟨occurrence, entry, inner, rfl, mem, judged, same.symm⟩

theorem exists_within (verbatim : grammar.unescapes = []) {found : Match}
    (each : ∀ entry ∈ validators, ∀ document error,
      (entry.2.deferred document).finish.1 = .error error → error.PointsInto document.text)
    (matched : grammar.matchWhole? document.text = some found)
    (failed : ((fields grammar validators).deferred document).finish.1 = .error error) :
    ∃ occurrence complaint, found.occurrences.find? (rejects validators) = some occurrence ∧
      error = .invalid complaint ∧ String.Pos.Raw.IsValid document.text ⟨complaint.position⟩ ∧
      occurrence.span.start ≤ complaint.position ∧
      complaint.position ≤ occurrence.span.stop := by
  obtain ⟨occurrence, entry, inner, first, mem, judged, rfl⟩ := exists_rejected matched failed
  obtain ⟨complaint, rfl, valid⟩ := each entry mem _ _ judged
  rw [Document.text_atEnd] at valid
  have typed := Grammar.between?_of_matchWhole? verbatim matched (List.mem_of_find?_eq_some first)
  obtain ⟨moved, within⟩ := Text.isValid_of_between? typed valid
  exact ⟨occurrence, _, first, rfl, moved, Nat.le_add_left _ _, within⟩

theorem TestsValues.pointsInto {validator : Validator} (tests : validator.TestsValues)
    (failed : (validator.deferred document).finish.1 = .error error) :
    error.PointsInto document.text := by
  induction tests generalizing document error with
  | test passes message atEnd => exact pointsInto_of_judge failed
  | @fields grammar validators verbatim each ih =>
    cases matched : grammar.matchWhole? document.text with
    | none =>
      rw [finish_fields_of_none matched] at failed
      obtain rfl := Except.error.inj failed
      exact pointsInto_end _ _
    | some found =>
      obtain ⟨-, complaint, -, same, valid, -⟩ :=
        exists_within verbatim (fun entry mem _ _ => ih entry mem) matched failed
      exact ⟨complaint, same, valid⟩

/-- A complaint points to a boundary of the text: to its end if the text is no sentence, and
otherwise between the ends of the first variable that is rejected. A judgement that waits comes to
the same and makes the same tests in the same order. -/
theorem position_of_complaint {validator : Validator} (tests : validator.TestsValues)
    (document : Document) :
    (∀ complaint, (validator.validate document).outcome.1 = .error (.invalid complaint) →
      complaint.position ≤ document.text.utf8ByteSize ∧
      String.Pos.Raw.IsValid document.text ⟨complaint.position⟩ ∧
      ∀ grammar validators, validator = .fields grammar validators →
        (grammar.matchWhole? document.text = none →
          complaint.position = document.text.utf8ByteSize) ∧
        ∀ found, grammar.matchWhole? document.text = some found →
          ∃ occurrence, found.occurrences.find? (rejects validators) = some occurrence ∧
            occurrence.span.start ≤ complaint.position ∧
            complaint.position ≤ occurrence.span.stop) ∧
    (validator.deferred document).finish = (validator.validate document).outcome ∧
    ∀ chosen,
      ((validator.exposing chosen).validate document).outcome =
        ((validator.validate document).outcome.1, noted chosen (validator.visited document)) ∧
      ((validator.exposing chosen).deferred document).finish =
        ((validator.validate document).outcome.1, noted chosen (validator.visited document)) := by
  refine ⟨fun complaint failed => ?_, (outcome_validate document validator).symm,
    fun chosen => ?_⟩
  · rw [outcome_validate] at failed
    obtain ⟨complaint', same, valid⟩ := tests.pointsInto failed
    obtain rfl := ValidatorError.invalid.inj same
    refine ⟨valid.le_rawEndPos, valid, ?_⟩
    rintro grammar validators rfl
    refine ⟨fun refused => ?_, fun found matched => ?_⟩
    · rw [finish_fields_of_none refused] at failed
      cases failed
      rfl
    · cases tests with
      | fields verbatim each =>
        obtain ⟨occurrence, complaint', first, same, -, within⟩ := exists_within verbatim
          (fun entry mem _ _ => (each entry mem).pointsInto) matched failed
        obtain rfl := ValidatorError.invalid.inj same
        exact ⟨occurrence, first, within⟩
  · rw [outcome_validate, outcome_validate, finish_exposing tests]
    exact ⟨rfl, rfl⟩

def markedPart : Tree :=
  .sequence [.variable "mark" (.leaf "é"), .variable "part" (.sequence [.leaf "ß", .leaf "b"])]

def lastLetter : Tree := .sequence [.leaf "ß", .variable "last" (.leaf "b")]

def refusing (inner : Grammar) : List (String × Validator) :=
  [("mark", .test (fun _ => true) "" false),
    ("part", .fields inner [("last", .test (fun _ => false) "no" false)])]

theorem exists_refusing : ∃ outer inner, Grammar.ofTree markedPart [] [] = .ok outer ∧
    Grammar.ofTree lastLetter [] [] = .ok inner ∧ outer.unescapes = [] ∧ inner.unescapes = [] ∧
    (outer.matchWhole? "éßb").isSome = true ∧
    ((fields outer (refusing inner)).deferred (.atEnd "éßb")).finish =
      (.error (.invalid ⟨"no", 4⟩), []) ∧
    (fields outer (refusing inner)).visited (.atEnd "éßb") =
      [(["mark"], .atEnd "é"), (["part", "last"], .atEnd "b")] := by
  have run : (Grammar.ofTree markedPart [] [] >>= fun outer =>
      Grammar.ofTree lastLetter [] [] >>= fun inner =>
        .ok (outer.unescapes, inner.unescapes, (outer.matchWhole? "éßb").isSome,
          ((fields outer (refusing inner)).deferred (.atEnd "éßb")).finish,
          (fields outer (refusing inner)).visited (.atEnd "éßb"))) =
      .ok ([], [], true, (.error (.invalid ⟨"no", 4⟩), []),
        [(["mark"], .atEnd "é"), (["part", "last"], .atEnd "b")]) := by cbv
  obtain ⟨outer, made, run⟩ := bind_eq_ok.mp run
  obtain ⟨inner, made', run⟩ := bind_eq_ok.mp run
  simp only [Except.ok.injEq, Prod.mk.injEq] at run
  obtain ⟨verbatim, verbatim', matched, result, visited⟩ := run
  exact ⟨outer, inner, made, made', verbatim, verbatim', matched, result, visited⟩

theorem position_of_refused : ∃ outer inner, Grammar.ofTree markedPart [] [] = .ok outer ∧
    Grammar.ofTree lastLetter [] [] = .ok inner ∧
    (fields outer (refusing inner)).TestsValues ∧
    ((fields outer (refusing inner)).validate (.atEnd "éßb")).outcome.1 =
      .error (.invalid ⟨"no", 4⟩) ∧
    String.Pos.Raw.IsValid "éßb" ⟨4⟩ ∧
    (∃ found occurrence, outer.matchWhole? "éßb" = some found ∧
      found.occurrences.find? (rejects (refusing inner)) = some occurrence ∧
      occurrence.span.start ≤ 4 ∧ 4 ≤ occurrence.span.stop) ∧
    ∀ chosen, (((fields outer (refusing inner)).exposing chosen).deferred (.atEnd "éßb")).finish =
      (.error (.invalid ⟨"no", 4⟩),
        noted chosen [(["mark"], .atEnd "é"), (["part", "last"], .atEnd "b")]) := by
  obtain ⟨outer, inner, made, made', verbatim, verbatim', matched, result, visited⟩ :=
    exists_refusing
  have tests : (fields outer (refusing inner)).TestsValues := by
    refine .fields verbatim fun entry mem => ?_
    obtain rfl | rfl : entry = _ ∨ entry = _ := by simpa [refusing] using mem
    · exact .test _ _ _
    · refine .fields verbatim' fun entry mem => ?_
      obtain rfl := List.mem_singleton.mp mem
      exact .test _ _ _
  have failed : ((fields outer (refusing inner)).validate (.atEnd "éßb")).outcome.1 =
      .error (.invalid ⟨"no", 4⟩) := by
    rw [outcome_validate, result]
  obtain ⟨positions, -, agrees⟩ := position_of_complaint tests (.atEnd "éßb")
  obtain ⟨-, valid, within⟩ := positions _ failed
  obtain ⟨found, whole⟩ := Option.isSome_iff_exists.mp matched
  obtain ⟨occurrence, first, between⟩ := (within outer (refusing inner) rfl).2 found whole
  refine ⟨outer, inner, made, made', tests, failed, valid,
    ⟨found, occurrence, whole, first, between⟩, fun chosen => ?_⟩
  rw [(agrees chosen).2, failed, visited]

end Validator

end LineGrammar
