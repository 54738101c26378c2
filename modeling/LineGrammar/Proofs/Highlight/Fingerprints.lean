import LineGrammar.Highlight.Highlighter
import LineGrammar.Proofs.Expression.RoundTrip
import LineGrammar.Proofs.Grammar.Sentences
import LineGrammar.Proofs.Registry

/-! What a fingerprint tells of a highlighter. The marks of the library's own highlighters are
bracketed, so equal fingerprints agree part by part: on the default styles, and on the names that
have a highlighter and the fingerprints of these. Of a grammar they hold the pattern of the whole
alone, which does not decide what the grammar finds in a text. Where the grammars find the same, two
highlighters with equal fingerprints style every document in the same way. -/

namespace LineGrammar

namespace Grammar

/-- The two grammars find the same variables and the same trailing input in every text. -/
structure FindsLike (first second : Grammar) : Prop where
  fields : ∀ text, (first.matchBeginning text).fields = (second.matchBeginning text).fields
  trailing : ∀ text, (first.matchBeginning text).trailing = (second.matchBeginning text).trailing

variable {first second : Grammar}

theorem findsLike_of_eq (names : first.groupNames = second.groupNames)
    (beginnings : first.beginnings = second.beginnings)
    (withTrailing : first.withTrailing = second.withTrailing) : first.FindsLike second := by
  have named (captures : List (Nat × Span)) :
      Match.named first captures = Match.named second captures := by
    simp only [Match.named, groupName?, names]
  constructor
  all_goals
    intro text
    simp only [matchBeginning, beginnings, withTrailing, named]
    split <;> rfl

theorem findsLike_of_lower {root root' : Tree}
    {escapes unescapes escapes' unescapes' : Registry (String → String)}
    (compiles : ofTree root escapes unescapes = .ok first)
    (compiles' : ofTree root' escapes' unescapes' = .ok second)
    (same : root.lower.map (fun lowered => (lowered.groupNames, lowered.beginnings)) =
      root'.lower.map fun lowered => (lowered.groupNames, lowered.beginnings)) :
    first.FindsLike second := by
  simp only [ofTree, bind_eq_ok, pure, Except.pure, Except.ok.injEq] at compiles compiles'
  obtain ⟨lowered, lowers, whole, -, beginnings, anchored, trailing, trails, rfl⟩ := compiles
  obtain ⟨lowered', lowers', whole', -, beginnings', anchored', trailing', trails', rfl⟩ :=
    compiles'
  simp only [lowers, lowers', Except.map, Except.ok.injEq, Prod.mk.injEq] at same
  obtain ⟨names, bodies⟩ := same
  rw [← bodies] at anchored' trails'
  exact findsLike_of_eq names (Except.ok.inj (anchored.symm.trans anchored'))
    (Except.ok.inj (trails.symm.trans trails'))

end Grammar

namespace Highlighter

theorem highlightNamed_eq (name : String) (document : Document)
    (highlighters : List (String × Highlighter)) :
    highlightNamed name document highlighters =
      (Registry.find? highlighters name).map (·.highlight document) := by
  have looked : highlightNamed name document highlighters =
      (Registry.find? highlighters name).elim none (some <| ·.highlight document) :=
    Registry.eq_of_search rfl (fun _ _ _ => by rw [highlightNamed]) highlighters
  rw [looked]
  cases Registry.find? highlighters name <;> rfl

theorem namedFingerprints_eq (highlighters : List (String × Highlighter)) :
    namedFingerprints highlighters =
      highlighters.map fun entry => (entry.1, entry.2.fingerprint) := by
  induction highlighters with
  | nil => rfl
  | cons entry rest ih =>
    obtain ⟨key, highlighter⟩ := entry
    rw [namedFingerprints, ih, List.map_cons]

def sortedFingerprints (highlighters : List (String × Highlighter)) :
    List (String × Fingerprint) :=
  (namedFingerprints highlighters).mergeSort fun a b => decide (a.1 ≤ b.1)

theorem mem_sortedFingerprints {highlighters : List (String × Highlighter)}
    {entry : String × Fingerprint} :
    entry ∈ sortedFingerprints highlighters ↔
      ∃ part ∈ highlighters, (part.1, part.2.fingerprint) = entry := by
  rw [sortedFingerprints, List.mem_mergeSort, namedFingerprints_eq, List.mem_map]

theorem find?_sortedFingerprints (highlighters : List (String × Highlighter)) (name : String) :
    Registry.find? (sortedFingerprints highlighters) name =
      (Registry.find? highlighters name).map fingerprint := by
  rw [sortedFingerprints, Registry.find?_mergeSort, namedFingerprints_eq, Registry.find?_map]

/-- Highlighters of the library, without any from outside. -/
inductive IsOwn : Highlighter → Prop
  | plain (style : String) : IsOwn (.plain style)
  | fields (grammar : Grammar) (defaultStyle : String) {highlighters : List (String × Highlighter)}
    (inner : ∀ entry ∈ highlighters, IsOwn entry.2) :
    IsOwn (.fields grammar defaultStyle highlighters)

def Delimited (marks : Fingerprint) : Prop :=
  ∀ other : Highlighter, other.IsOwn → ∀ rest rest' : Fingerprint,
    marks ++ rest = other.fingerprint ++ rest' → marks = other.fingerprint ∧ rest = rest'

def written (entries : List (String × Fingerprint)) : Fingerprint :=
  entries.flatMap fun (name, marks) => .text name :: marks

theorem fingerprint_fields (grammar : Grammar) (defaultStyle : String)
    (highlighters : List (String × Highlighter)) :
    (fields grammar defaultStyle highlighters).fingerprint =
      .opening :: .text grammar.whole.source :: .text defaultStyle ::
        (written (sortedFingerprints highlighters) ++ [.closing]) := by
  rw [fingerprint]
  rfl

theorem written_inj {entries entries' : List (String × Fingerprint)} {rest rest' : Fingerprint}
    (delimited : ∀ entry ∈ entries, Delimited entry.2)
    (own : ∀ entry ∈ entries', ∃ highlighter : Highlighter, highlighter.IsOwn ∧
      highlighter.fingerprint = entry.2)
    (same : written entries ++ .closing :: rest = written entries' ++ .closing :: rest') :
    entries = entries' ∧ rest = rest' := by
  induction entries generalizing entries' with
  | nil =>
    cases entries' with
    | nil => simpa [written] using same
    | cons entry others => simp [written] at same
  | cons entry others ih =>
    obtain ⟨name, marks⟩ := entry
    cases entries' with
    | nil => simp [written] at same
    | cons entry' others' =>
      obtain ⟨name', marks'⟩ := entry'
      obtain ⟨highlighter, own', rfl⟩ := own _ List.mem_cons_self
      simp only [written, List.flatMap_cons, List.cons_append, List.append_assoc, List.cons.injEq,
        FingerprintMark.text.injEq] at same
      obtain ⟨rfl, behind⟩ := same
      obtain ⟨rfl, behind'⟩ := delimited _ List.mem_cons_self highlighter own' _ _ behind
      obtain ⟨rfl, rfl⟩ := ih (fun entry mem => delimited entry (List.mem_cons_of_mem _ mem))
        (fun entry mem => own entry (List.mem_cons_of_mem _ mem)) behind'
      exact ⟨rfl, rfl⟩

section Parts

variable {grammar grammar' : Grammar} {defaultStyle defaultStyle' : String}
  {highlighters highlighters' : List (String × Highlighter)}

theorem fingerprint_fields_inj {rest rest' : Fingerprint}
    (delimited : ∀ part ∈ highlighters, Delimited part.2.fingerprint)
    (own : ∀ part ∈ highlighters', part.2.IsOwn)
    (same : (fields grammar defaultStyle highlighters).fingerprint ++ rest =
      (fields grammar' defaultStyle' highlighters').fingerprint ++ rest') :
    grammar.whole.source = grammar'.whole.source ∧ defaultStyle = defaultStyle' ∧
      sortedFingerprints highlighters = sortedFingerprints highlighters' ∧ rest = rest' := by
  simp only [fingerprint_fields, List.cons_append, List.append_assoc, List.nil_append,
    List.cons.injEq, FingerprintMark.text.injEq, true_and] at same
  obtain ⟨source, style, parts⟩ := same
  refine ⟨source, style, written_inj (fun entry mem => ?_) (fun entry mem => ?_) parts⟩
  · obtain ⟨part, among, rfl⟩ := mem_sortedFingerprints.mp mem
    exact delimited part among
  · obtain ⟨part, among, rfl⟩ := mem_sortedFingerprints.mp mem
    exact ⟨part.2, own part among, rfl⟩

theorem IsOwn.delimited {highlighter : Highlighter} (own : highlighter.IsOwn) :
    Delimited highlighter.fingerprint := by
  induction own with
  | plain style =>
    intro other own' rest rest' same
    cases own' with
    | plain style' => simpa [fingerprint] using same
    | fields => simp [fingerprint] at same
  | fields grammar defaultStyle inner ih =>
    intro other own' rest rest' same
    cases own' with
    | plain => simp [fingerprint] at same
    | fields grammar' defaultStyle' inner' =>
      obtain ⟨source, style, parts, behind⟩ := fingerprint_fields_inj ih inner' same
      exact ⟨by rw [fingerprint_fields, fingerprint_fields, source, style, parts], behind⟩

theorem fingerprint_find?_eq
    (parts : sortedFingerprints highlighters = sortedFingerprints highlighters') (name : String) :
    (Registry.find? highlighters name).map fingerprint =
      (Registry.find? highlighters' name).map fingerprint := by
  rw [← find?_sortedFingerprints, parts, find?_sortedFingerprints]

/-- The grammar of the highlighter that the names lead to, part by part. -/
def grammarAt? : List String → Highlighter → Option Grammar
  | [], .fields grammar _ _ => some grammar
  | name :: path, .fields _ _ highlighters =>
    (Registry.find? highlighters name).bind (grammarAt? path)
  | _, _ => none

theorem highlight_fields_eq (finds : grammar.FindsLike grammar')
    (named : ∀ name document, highlightNamed name document highlighters =
      highlightNamed name document highlighters') (document : Document) :
    (fields grammar defaultStyle highlighters).highlight document =
      (fields grammar' defaultStyle highlighters').highlight document := by
  simp only [highlight, fieldDocuments, finds.fields, finds.trailing, named]

end Parts

/-- With equal fingerprints the grammars alone can make a difference: where those at the same place
find the same, every document is styled in the same way. -/
theorem highlight_eq_of_fingerprint_eq {first second : Highlighter} (own : first.IsOwn)
    (own' : second.IsOwn) (same : first.fingerprint = second.fingerprint)
    (finds : ∀ path grammar grammar', first.grammarAt? path = some grammar →
      second.grammarAt? path = some grammar' → grammar.FindsLike grammar') (document : Document) :
    first.highlight document = second.highlight document := by
  induction own generalizing second document with
  | plain style =>
    cases own' with
    | plain style' =>
      obtain rfl : style = style' := by simpa [fingerprint] using same
      rfl
    | fields => simp [fingerprint] at same
  | @fields grammar defaultStyle highlighters inner ih =>
    cases own' with
    | plain => simp [fingerprint] at same
    | @fields grammar' defaultStyle' highlighters' inner' =>
      obtain ⟨-, rfl, parts, -⟩ := fingerprint_fields_inj
        (fun part mem => (inner part mem).delimited) inner' (congrArg (· ++ []) same)
      refine highlight_fields_eq (finds [] _ _ rfl rfl) (fun name field => ?_) document
      -- Both lists have a highlighter under the same names, with equal fingerprints; the order of
      -- the lists may differ, so they are compared by look-up.
      have equal := fingerprint_find?_eq parts name
      rw [highlightNamed_eq, highlightNamed_eq]
      cases found : Registry.find? highlighters name with
      | none =>
        have nothing : Registry.find? highlighters' name = none := by simpa [found] using equal
        rw [nothing]
      | some part =>
        obtain ⟨part', found', marks⟩ : ∃ part', Registry.find? highlighters' name = some part' ∧
            part'.fingerprint = part.fingerprint := by simpa [found] using equal.symm
        obtain ⟨entry, among, rfl⟩ := Registry.mem_of_find? found
        obtain ⟨entry', among', rfl⟩ := Registry.mem_of_find? found'
        have inside : entry.2.highlight field = entry'.2.highlight field :=
          ih entry among (inner' entry' among') marks.symm
            (fun path grammar grammar' at' at'' => finds (name :: path) grammar grammar'
              (by simpa [grammarAt?, found] using at') (by simpa [grammarAt?, found'] using at''))
            field
        rw [found', Option.map_some, Option.map_some, inside]

def pair : Tree := .sequence [.variable "a" .letters, .variable "b" (.leaf "c")]

def parts (inner : Grammar) : List (String × Highlighter) :=
  [("a", .fields inner "class:a" [("x", .plain "class:x")]), ("b", .plain "class:b")]

theorem isOwn_parts {inner : Grammar} : ∀ part ∈ parts inner, part.2.IsOwn := by
  simp only [parts, List.forall_mem_cons, List.not_mem_nil, false_implies, implies_true, and_true]
  exact ⟨.fields _ _ (List.forall_mem_singleton.mpr (.plain _)), .plain _⟩

theorem eq_of_grammarAt?_parts {outer inner grammar : Grammar} {name : String}
    {path : List String} {highlighters : List (String × Highlighter)}
    (among : ∀ part ∈ highlighters, part ∈ parts inner)
    (leads : (fields outer "" highlighters).grammarAt? (name :: path) = some grammar) :
    grammar = inner := by
  obtain ⟨part, found, inside⟩ := Option.bind_eq_some_iff.mp leads
  obtain ⟨entry, mem, rfl⟩ := Registry.mem_of_find? found
  have listed := among entry mem
  simp only [parts, List.mem_cons, List.not_mem_nil, or_false] at listed
  obtain rfl | rfl := listed
  · cases path with
    | nil => exact (Option.some.inj inside).symm
    | cons name' path =>
      obtain ⟨part, found', deeper⟩ := Option.bind_eq_some_iff.mp inside
      obtain ⟨entry, mem', rfl⟩ := Registry.mem_of_find? found'
      obtain rfl := List.mem_singleton.mp mem'
      simp [grammarAt?] at deeper
  · simp [grammarAt?] at inside

theorem highlight_parts : ∃ outer inner outer' inner',
    Grammar.ofTree pair [] [] = .ok outer ∧ Grammar.ofTree .letters [] [] = .ok inner ∧
      Grammar.ofTree pair [("a", (· ++ "!"))] [] = .ok outer' ∧
      Grammar.ofTree .letters [] [("x", (· ++ "?"))] = .ok inner' ∧
      (fields outer "" (parts inner)).fingerprint =
        (fields outer' "" (parts inner').reverse).fingerprint ∧
      (fields outer "" (parts inner)).highlight (.atEnd "bbcd") =
        [[⟨"class:x", "bb"⟩, ⟨"class:b", "c"⟩, ⟨trailingStyle, "d"⟩]] ∧
      ∀ document, (fields outer "" (parts inner)).highlight document =
        (fields outer' "" (parts inner').reverse).highlight document := by
  have run : (Grammar.ofTree pair [] [] >>= fun outer =>
      Grammar.ofTree .letters [] [] >>= fun inner =>
      Grammar.ofTree pair [("a", (· ++ "!"))] [] >>= fun outer' =>
      Grammar.ofTree .letters [] [("x", (· ++ "?"))] >>= fun inner' =>
        .ok (decide ((fields outer "" (parts inner)).fingerprint =
            (fields outer' "" (parts inner').reverse).fingerprint),
          (fields outer "" (parts inner)).highlight (.atEnd "bbcd"))) =
      .ok (true, [[⟨"class:x", "bb"⟩, ⟨"class:b", "c"⟩, ⟨trailingStyle, "d"⟩]]) := by cbv
  obtain ⟨outer, compiles, run⟩ := bind_eq_ok.mp run
  obtain ⟨inner, compilesInner, run⟩ := bind_eq_ok.mp run
  obtain ⟨outer', compiles', run⟩ := bind_eq_ok.mp run
  obtain ⟨inner', compilesInner', run⟩ := bind_eq_ok.mp run
  obtain ⟨equal, styled⟩ := Prod.mk.inj (Except.ok.inj run)
  have same := of_decide_eq_true equal
  have finds : ∀ path grammar grammar',
      (fields outer "" (parts inner)).grammarAt? path = some grammar →
        (fields outer' "" (parts inner').reverse).grammarAt? path = some grammar' →
          grammar.FindsLike grammar' := by
    rintro (_ | ⟨name, path⟩) grammar grammar' at' at''
    · obtain rfl := Option.some.inj at'
      obtain rfl := Option.some.inj at''
      exact Grammar.findsLike_of_lower compiles compiles' rfl
    · obtain rfl := eq_of_grammarAt?_parts (fun _ mem => mem) at'
      obtain rfl := eq_of_grammarAt?_parts (fun _ mem => List.mem_reverse.mp mem) at''
      exact Grammar.findsLike_of_lower compilesInner compilesInner' rfl
  exact ⟨outer, inner, outer', inner', compiles, compilesInner, compiles', compilesInner', same,
    styled, highlight_eq_of_fingerprint_eq (.fields _ _ isOwn_parts)
      (.fields _ _ fun part mem => isOwn_parts part (List.mem_reverse.mp mem)) same finds⟩

def marking (grammar : Grammar) : Highlighter := .fields grammar "" [("a", .plain "class:a")]

theorem tree_named {name expression : String} (isName : Token.IsName name)
    (rendered : (Tree.variable name (.leaf "x")).render = expression) :
    Tree.ofExpression expression = .ok (.variable name (.leaf "x")) := by
  have x : (Tree.leaf "x").Tokenized :=
    Tree.tokenized_char 'x' "x" (by decide) (by decide) (by cbv)
  exact (x.variable isName).read (by simp [Tree.leaves]) rfl rendered

/-- The names of the variables leave no trace in the pattern of the whole, though they tell which
highlighter a text is given to. -/
theorem highlight_ne_of_names : ∃ first second,
    Grammar.ofExpression "(?P<a>x)" [] [] = .ok first ∧
      Grammar.ofExpression "(?P<b>x)" [] [] = .ok second ∧
      (marking first).IsOwn ∧ (marking second).IsOwn ∧
      (marking first).fingerprint = (marking second).fingerprint ∧
      (marking first).highlight (.atEnd "x") = [[⟨"class:a", "x"⟩]] ∧
      (marking second).highlight (.atEnd "x") = [[⟨"", "x"⟩]] := by
  have run : (Grammar.ofTree (.variable "a" (.leaf "x")) [] [] >>= fun first =>
      Grammar.ofTree (.variable "b" (.leaf "x")) [] [] >>= fun second =>
        .ok (decide ((marking first).fingerprint = (marking second).fingerprint),
          (marking first).highlight (.atEnd "x"), (marking second).highlight (.atEnd "x"))) =
      .ok (true, [[⟨"class:a", "x"⟩]], [[⟨"", "x"⟩]]) := by cbv
  obtain ⟨first, compiles, run⟩ := bind_eq_ok.mp run
  obtain ⟨second, compiles', run⟩ := bind_eq_ok.mp run
  obtain ⟨equal, styled⟩ := Prod.mk.inj (Except.ok.inj run)
  obtain ⟨styled, styled'⟩ := Prod.mk.inj styled
  have own (grammar : Grammar) : (marking grammar).IsOwn :=
    .fields _ _ (List.forall_mem_singleton.mpr (.plain _))
  have tree : Tree.ofExpression "(?P<a>x)" = .ok (.variable "a" (.leaf "x")) :=
    tree_named ⟨by simp, by simp [Token.isNameChar]⟩ (by cbv)
  have tree' : Tree.ofExpression "(?P<b>x)" = .ok (.variable "b" (.leaf "x")) :=
    tree_named ⟨by simp, by simp [Token.isNameChar]⟩ (by cbv)
  exact ⟨first, second, bind_eq_ok.mpr ⟨_, tree, compiles⟩, bind_eq_ok.mpr ⟨_, tree', compiles'⟩,
    own _, own _, of_decide_eq_true equal, styled, styled'⟩

end Highlighter

end LineGrammar
