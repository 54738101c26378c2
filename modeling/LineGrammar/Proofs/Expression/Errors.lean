import LineGrammar.Proofs.Expression.Layout
import LineGrammar.Proofs.Expression.Rendering
import LineGrammar.Proofs.Expression.PhraseReading

/-! Where the errors of expressions point. The tokenizer knows places in the expression, the reader
those of tokens, and the translation of a leaf those in its text, which are moved by the place of
its token; each of them is the place of what the error is about. A tree that has been read has
passed the checks that lowering makes again, so only the patterns can refuse it. -/

namespace LineGrammar

/-- What stands at the place that the error of an expression names. -/
inductive Points (expression : String) (position : Nat) (rest : List Char) : GrammarError → Prop
  | unsupported {construct : String} (here : construct.toList <+: rest) :
    Points expression position rest (.unsupported construct position)
  | danglingEscape (here : rest = ['\\']) :
    Points expression position rest (.malformed .danglingEscape position)
  | unterminatedClass (here : rest.head? = some '[') :
    Points expression position rest (.malformed .unterminatedClass position)
  | nothingToRepeat {c : Char} (sign : c ∈ ['*', '+', '?']) (here : rest.head? = some c) :
    Points expression position rest (.malformed .nothingToRepeat position)
  | unmatchedParenthesis (here : rest.head? = some ')') :
    Points expression position rest (.malformed .unmatchedParenthesis position)
  | invalidGroupName (here : ['(', '?', 'P', '<'] <+: rest) :
    Points expression position rest (.malformed .invalidGroupName position)
  /-- Behind the opener every group is closed again. -/
  | unclosedGroup {before after : List Token} {opener : Token} {enclosure : Enclosure} {body : Tree}
    (split : tokenize expression = .ok (before ++ opener :: after))
    (placed : opener.position = position) (opens : Phrase.Opener opener.text enclosure)
    (closed : Phrase.Expression (after.map (·.text)) body) (here : opener.text.toList <+: rest) :
    Points expression position rest (.malformed .unclosedGroup position)

namespace Leaf

def Refuses (position : Nat) (cs : List Char) (error : GrammarError) : Prop :=
  ∃ before c after, cs = before ++ '\\' :: c :: after ∧
    error = .unsupported (String.ofList ['\\', c]) (position + Text.byteLength before)

variable {position : Nat} {error : GrammarError} {c : Char} {cs rest : List Char}
  {cls : Option OpenClass}

theorem Refuses.cons (refuses : Refuses (position + c.utf8Size) rest error) :
    Refuses position (c :: rest) error := by
  obtain ⟨before, d, after, rfl, rfl⟩ := refuses
  refine ⟨c :: before, d, after, rfl, ?_⟩
  rw [Text.byteLength_cons, Nat.add_assoc]

theorem Refuses.of_drop {count : Nat}
    (refuses : Refuses (position + Text.byteLength (rest.take count)) (rest.drop count) error) :
    Refuses position rest error := by
  obtain ⟨before, d, after, split, rfl⟩ := refuses
  refine ⟨rest.take count ++ before, d, after, ?_, ?_⟩
  · rw [List.append_assoc, ← split, List.take_append_drop]
  · rw [Text.byteLength_append, Nat.add_assoc]

theorem refuses_escape {inClass : Bool}
    (refused : escape inClass position c rest = .error error) :
    Refuses position ('\\' :: c :: rest) error := by
  suffices error = .unsupported (String.ofList ['\\', c]) position from ⟨[], c, rest, rfl, this⟩
  unfold escape at refused
  dsimp only at refused
  iterate 11
    rcases ite_eq_iff.mp refused with ⟨-, made⟩ | ⟨-, refused⟩
    · cases made
  rcases ite_eq_iff.mp refused with ⟨-, long⟩ | ⟨-, refused⟩
  · rcases ite_eq_iff.mp long with ⟨-, made⟩ | ⟨-, refused⟩
    · cases made
    · exact (Except.error.inj refused).symm
  rcases ite_eq_iff.mp refused with ⟨-, refused⟩ | ⟨-, punctuation⟩
  · exact (Except.error.inj refused).symm
  rcases ite_eq_iff.mp punctuation with ⟨-, made⟩ | ⟨-, made⟩ <;> cases made

theorem utf8Size_of_isDigit (digit : c.isDigit = true) : c.utf8Size = 1 := by
  rw [Char.utf8Size_eq_one_iff]
  simp only [Char.isDigit, Bool.and_eq_true, decide_eq_true_eq] at digit
  exact UInt32.le_trans digit.2 (by decide)

theorem ascii_through {d : Char} (sign : d.utf8Size = 1)
    (inside : ∀ c ∈ cs.takeWhile (· ≠ d), c.utf8Size = 1) :
    ∀ c ∈ cs.take ((cs.takeWhile (· ≠ d)).length + 1), c.utf8Size = 1 := by
  have split : cs.takeWhile (· ≠ d) ++ cs.dropWhile (· ≠ d) = cs := List.takeWhile_append_dropWhile
  have stop := List.head?_dropWhile_not (· ≠ d) cs
  generalize cs.takeWhile (· ≠ d) = front at inside split
  generalize cs.dropWhile (· ≠ d) = back at split stop
  rw [← split, List.take_length_add_append]
  intro c mem
  rcases List.mem_append.mp mem with mem | mem
  · exact inside c mem
  · cases back with
    | nil => simp at mem
    | cons e later =>
      obtain rfl : e = d := by simpa using stop
      obtain rfl : c = e := by simpa using mem
      exact sign

theorem byteLength_countedLength? {count : Nat} (counted : countedLength? rest = some count) :
    Text.byteLength (rest.take count) = count := by
  unfold countedLength? at counted
  dsimp only at counted
  split at counted
  · next shape =>
    obtain ⟨closes, -, low, high⟩ := shape
    obtain rfl := Option.some.inj counted
    have inside : ∀ c ∈ rest.takeWhile (· ≠ '}'), c.utf8Size = 1 := by
      generalize rest.takeWhile (· ≠ '}') = inside at low high
      rw [List.drop_drop] at high
      have front : ∀ c ∈ inside.takeWhile (· ≠ ','), c.utf8Size = 1 := fun c mem =>
        utf8Size_of_isDigit (List.all_eq_true.mp low c mem)
      have through := ascii_through (by decide) front
      intro c mem
      rw [← List.take_append_drop ((inside.takeWhile (· ≠ ',')).length + 1) inside,
        List.mem_append] at mem
      exact mem.elim (through c) fun mem => utf8Size_of_isDigit (List.all_eq_true.mp high c mem)
    have through := ascii_through (by decide) inside
    rw [Text.byteLength_of_ascii through, List.length_take, Nat.min_eq_left closes]
  · simp at counted

theorem refuses_of_nativeFrom (refused : nativeFrom position cls cs = .error error) :
    Refuses position cs error := by
  fun_induction nativeFrom position cls cs with
  | case1 | case2 => cases refused
  | case3 position c rest error' refused' =>
    obtain rfl : error' = error := Except.error.inj refused
    exact refuses_escape refused'
  | case4 position c rest text count next escaped ih =>
    have later := ih (map_eq_error.mp refused)
    rw [Text.byteLength_cons, ← Nat.add_assoc] at later
    exact later.of_drop.cons.cons
  | case5 position rest cls next ih => exact (ih refused).cons.cons
  | case6 position c rest cls other error' refused' =>
    obtain rfl : error' = error := Except.error.inj refused
    exact refuses_escape refused'
  | case7 position c rest cls other text count next escaped ih =>
    have later := ih refused
    rw [Text.byteLength_cons, ← Nat.add_assoc] at later
    exact later.of_drop.cons.cons
  | case8 position rest cls next other ih => exact (ih (map_eq_error.mp refused)).cons
  | case9 position c rest next other cls open' ih => exact (ih refused).cons
  | case10 position rest sign next other ih =>
    obtain ⟨more, rfl⟩ := List.head?_eq_some_iff.mp sign
    exact (Refuses.cons (ih refused)).cons
  | case11 position rest unsigned next other ih => exact (ih refused).cons
  | case12 position c rest next other bracket closing ih =>
    exact (ih (map_eq_error.mp refused)).cons
  | case13 position rest count counted next other bracket closing ih =>
    have later : Refuses (next + Text.byteLength (rest.take count)) (rest.drop count) error := by
      rw [byteLength_countedLength? counted]
      exact ih (map_eq_error.mp refused)
    exact later.of_drop.cons
  | case14 position rest uncounted next other bracket closing ih =>
    exact (ih (map_eq_error.mp refused)).cons
  | case15 position c rest next other bracket closing brace ih =>
    exact (ih (map_eq_error.mp refused)).cons

end Leaf

namespace Token

variable {expression : String} {tokens : List Token} {token : Token} {error : GrammarError}

theorem exists_isBefore (split : tokenize expression = .ok tokens) (mem : token ∈ tokens) :
    ∃ after, Text.IsBefore expression token.position (token.text.toList ++ after) ∧
      token.text.toList ≠ [] := by
  rw [tokenize_eq] at split
  have lie : Lie (Text.byteLength []) expression.toList tokens := lie_of_ofCharsFrom split
  obtain ⟨before, after, whole, start, -⟩ := Text.append_of_between? (lie.placed rfl token mem)
  obtain ⟨c, more, spelled, -⟩ := lie.solid token mem
  exact ⟨after, ⟨before, whole, start⟩, by simp [spelled]⟩

theorem cases_of_piece {c : Char} {rest : List Char} {cause : Malformed}
    (failed : piece c rest = .error cause) :
    (c = '\\' ∧ rest = [] ∧ cause = .danglingEscape) ∨ (c = '[' ∧ cause = .unterminatedClass) := by
  unfold piece at failed
  iterate 4
    rcases ite_eq_iff.mp failed with ⟨-, made⟩ | ⟨-, failed⟩
    · cases made
  rcases ite_eq_iff.mp failed with ⟨backslash, failed⟩ | ⟨-, failed⟩
  · rcases ite_eq_iff.mp failed with ⟨last, failed⟩ | ⟨-, made⟩
    · exact .inl ⟨backslash, last, (Except.error.inj failed).symm⟩
    · cases made
  rcases ite_eq_iff.mp failed with ⟨bracket, failed⟩ | ⟨-, failed⟩
  · split at failed
    · cases failed
    · exact .inr ⟨bracket, (Except.error.inj failed).symm⟩
  rcases ite_eq_iff.mp failed with ⟨-, made⟩ | ⟨-, made⟩ <;> cases made

theorem exists_piece_of_ofCharsFrom {position : Nat} {cs : List Char}
    (failed : ofCharsFrom position cs = .error error) :
    ∃ before c rest cause, cs = before ++ c :: rest ∧ piece c rest = .error cause ∧
      error = .malformed cause (position + Text.byteLength before) := by
  induction position, cs using ofCharsFrom.induct with
  | case1 position =>
    rw [ofCharsFrom] at failed
    cases failed
  | case2 position c rest cause found =>
    rw [ofCharsFrom, found] at failed
    exact ⟨[], c, rest, cause, rfl, found, (Except.error.inj failed).symm⟩
  | case3 position c rest more found text =>
    rename_i ih
    rw [ofCharsFrom, found] at failed
    obtain ⟨before, d, later, cause, split, none, rfl⟩ := ih (map_eq_error.mp failed)
    refine ⟨text ++ before, d, later, cause, ?_, none, ?_⟩
    · rw [List.append_assoc, ← split, List.cons_append, List.take_append_drop]
    · rw [Text.byteLength_append, Nat.add_assoc]
  | case4 position c rest more found ih =>
    rw [ofCharsFrom, found] at failed
    obtain ⟨before, d, later, cause, split, none, rfl⟩ := ih failed
    refine ⟨(c :: rest.take more) ++ before, d, later, cause, ?_, none, ?_⟩
    · rw [List.append_assoc, ← split, List.cons_append, List.take_append_drop]
    · rw [Text.byteLength_append, Nat.add_assoc]

end Token

def IsPlaced (expression : String) (error : GrammarError) : Prop :=
  ∃ position rest, Text.IsBefore expression position rest ∧ rest ≠ [] ∧
    Points expression position rest error

variable {expression : String} {tokens : List Token} {token : Token} {error : GrammarError}
  {parsing : Parsing}

/-- What the tokenizer refuses is broken, and no construct that grammars lack. -/
theorem isMalformed_of_tokenize (failed : tokenize expression = .error error) :
    error.isMalformed = true := by
  rw [Token.tokenize_eq] at failed
  obtain ⟨before, c, rest, cause, -, -, rfl⟩ := Token.exists_piece_of_ofCharsFrom failed
  rfl

theorem isPlaced_of_tokenize (failed : tokenize expression = .error error) :
    IsPlaced expression error := by
  rw [Token.tokenize_eq] at failed
  obtain ⟨before, c, rest, cause, split, none, rfl⟩ := Token.exists_piece_of_ofCharsFrom failed
  rw [Nat.zero_add]
  refine ⟨Text.byteLength before, c :: rest, ⟨before, split, rfl⟩, by simp, ?_⟩
  rcases Token.cases_of_piece none with ⟨rfl, rfl, rfl⟩ | ⟨rfl, rfl⟩
  · exact .danglingEscape rfl
  · exact .unterminatedClass rfl

theorem isPlaced_of_token (split : tokenize expression = .ok tokens) (mem : token ∈ tokens)
    (points : ∀ after, Points expression token.position (token.text.toList ++ after) error) :
    IsPlaced expression error := by
  obtain ⟨after, isBefore, some⟩ := Token.exists_isBefore split mem
  exact ⟨_, _, isBefore, by simp [some], points after⟩

theorem isPlaced_of_native (split : tokenize expression = .ok tokens) (mem : token ∈ tokens)
    (refused : Leaf.native token.text = .error error) :
    IsPlaced expression (error.shift token.position) := by
  obtain ⟨before, c, after, spelled, rfl⟩ := Leaf.refuses_of_nativeFrom (map_eq_error.mp refused)
  obtain ⟨behind, ⟨front, whole, start⟩, -⟩ := Token.exists_isBefore split mem
  have place : Text.byteLength (front ++ before) =
      0 + Text.byteLength before + token.position := by
    rw [Text.byteLength_append, start]
    omega
  refine ⟨_, '\\' :: c :: (after ++ behind), ⟨front ++ before, ?_, place⟩, by simp, ?_⟩
  · rw [whole, spelled]
    simp
  · exact .unsupported (by simp)

theorem prefix_of_nameless (nameless : token.role = .nameless) :
    ['(', '?', 'P', '<'] <+: token.text.toList := by
  by_contra other
  have notNamed : ¬['(', '?', 'P', '<'].isPrefixOf token.text.toList = true := fun opens =>
    other (List.isPrefixOf_iff_prefix.mp opens)
  unfold Token.role at nameless
  dsimp only at nameless
  rw [if_neg notNamed] at nameless
  iterate 12
    rcases ite_eq_iff.mp nameless with ⟨-, made⟩ | ⟨-, nameless⟩
    · cases made
  cases nameless

theorem head?_of_sign {text : String} {repetition : Repetition}
    (sign : Phrase.Sign text repetition) :
    ∃ c ∈ ['*', '+', '?'], text.toList.head? = some c := by
  cases sign <;> exact ⟨_, by decide, rfl⟩

theorem isPlaced_of_step (split : tokenize expression = .ok tokens) (mem : token ∈ tokens)
    (failed : parsing.step token = .error error) : IsPlaced expression error := by
  have plays := Token.plays_role token
  unfold Parsing.step at failed
  cases role : token.role with
  | bar | opening => simp [role] at failed
  | closing =>
    simp only [role] at plays failed
    cases plays with
    | closing closes =>
      cases groups : parsing.groups with
      | nil =>
        rw [groups] at failed
        obtain rfl := Except.error.inj failed
        exact isPlaced_of_token split mem fun after => .unmatchedParenthesis (by simp [closes])
      | cons group outer => simp [groups] at failed
  | quantifier repetition =>
    simp only [role] at plays failed
    cases plays with
    | quantifier sign =>
      cases parts : parsing.level.parts with
      | nil =>
        rw [parts] at failed
        obtain rfl := Except.error.inj failed
        obtain ⟨c, among, first⟩ := head?_of_sign sign
        exact isPlaced_of_token split mem fun after =>
          .nothingToRepeat among (by rw [List.head?_append, first, Option.some_or])
      | cons part before => simp [parts] at failed
  | nameless =>
    simp only [role] at failed
    obtain rfl := Except.error.inj failed
    exact isPlaced_of_token split mem fun after =>
      .invalidGroupName ((prefix_of_nameless role).trans (List.prefix_append _ _))
  | foreign =>
    simp only [role] at failed
    obtain rfl := Except.error.inj failed
    exact isPlaced_of_token split mem fun after => .unsupported (List.prefix_append _ _)
  | leaf =>
    simp only [role] at failed
    cases lowered : Leaf.native token.text with
    | ok source => simp [lowered] at failed
    | error refused =>
      rw [lowered] at failed
      obtain rfl := Except.error.inj failed
      exact isPlaced_of_native split mem lowered

theorem isPlaced_of_run (split : tokenize expression = .ok tokens) {rest : List Token}
    (among : rest ⊆ tokens) (failed : parsing.run rest = .error error) :
    IsPlaced expression error := by
  induction rest generalizing parsing with
  | nil => cases failed
  | cons token rest ih =>
    obtain ⟨mem, among'⟩ := List.cons_subset.mp among
    rw [Parsing.run] at failed
    cases stepped : parsing.step token with
    | error refused =>
      rw [stepped] at failed
      obtain rfl := Except.error.inj failed
      exact isPlaced_of_step split mem stepped
    | ok next =>
      rw [stepped] at failed
      exact ih among' failed

open Parsing in
theorem exists_opener_of_run {group : OpenGroup} {outer : List OpenGroup}
    (run : start.run tokens = .ok parsing) (open' : parsing.groups = group :: outer) :
    ∃ before opener after enclosure body, tokens = before ++ opener :: after ∧
      opener.position = group.position ∧ Phrase.Opener opener.text enclosure ∧
      Phrase.Expression (after.map (·.text)) body := by
  have spelled := spelled_start.run run
  rw [List.nil_append] at spelled
  generalize same : tokens.map (·.text) = texts at spelled
  obtain @⟨before, inside, groups, level, outside, inner⟩ := spelled
  obtain rfl : groups = group :: outer := open'
  cases outside with
  | @enter earlier around _ _ text enclosure position _ _ opens =>
    obtain ⟨front, after, rfl, same, same'⟩ := List.map_eq_append_iff.mp same
    rw [← List.append_assoc] at same
    obtain ⟨first, last, rfl, -, same⟩ := List.map_eq_append_iff.mp same
    obtain ⟨opener, rfl, rfl⟩ := List.map_eq_singleton_iff.mp same
    rw [List.append_assoc, List.singleton_append] at run ⊢
    -- The reader enters the group with the opener and does not leave it behind.
    rw [run_append] at run
    obtain ⟨middle, -, run⟩ := bind_eq_ok.mp run
    have entered : middle.step opener =
        .ok ⟨⟨opener.position, enclosure, middle.level⟩ :: middle.groups, .blank⟩ :=
      step_eq_ok.mpr (.opening opens.role)
    rw [Parsing.run, entered] at run
    obtain ⟨level', leads, -⟩ :=
      inner.choice.leads (⟨opener.position, enclosure, middle.level⟩ :: middle.groups) []
    have stays := Except.ok.inj (run.symm.trans (leads after same'))
    have placed : position = opener.position := by
      have := (List.cons.inj (congrArg Parsing.groups stays)).1
      exact congrArg OpenGroup.position this
    have closed : Phrase.Expression (after.map (·.text)) level.body :=
      ⟨_, same' ▸ inner.choice, rfl⟩
    exact ⟨first, opener, after, enclosure, _, rfl, placed.symm, opens, closed⟩

theorem isPlaced_of_finish (split : tokenize expression = .ok tokens)
    (run : Parsing.start.run tokens = .ok parsing) (failed : parsing.finish = .error error) :
    IsPlaced expression error := by
  unfold Parsing.finish at failed
  split at failed
  · cases failed
  · next group outer open' =>
    obtain rfl := Except.error.inj failed
    obtain ⟨before, opener, after, enclosure, body, rfl, placed, opens, closed⟩ :=
      exists_opener_of_run run open'
    rw [← placed]
    exact isPlaced_of_token split (by simp) fun _ =>
      .unclosedGroup split rfl opens closed (List.prefix_append _ _)

theorem isPlaced_of_ofExpression (failed : Tree.ofExpression expression = .error error) :
    IsPlaced expression error := by
  rcases bind_eq_error.mp failed with failed | ⟨tokens, split, failed⟩
  · exact isPlaced_of_tokenize failed
  rcases bind_eq_error.mp failed with failed | ⟨parsing, run, failed⟩
  · exact isPlaced_of_run split (List.Subset.refl tokens) failed
  · exact isPlaced_of_finish split run failed

theorem CompiledPattern.pattern_of_ofSource {source : String} {groups : List Nat}
    (failed : ofSource source groups = .error error) : ∃ fault, error = .pattern fault := by
  unfold ofSource at failed
  split at failed
  · cases failed
  · next fault read => exact ⟨fault, (Except.error.inj failed).symm⟩

theorem Grammar.pattern_of_ofTree {root : Tree} (lowerable : root.Lowerable)
    {escapes unescapes : Registry (String → String)}
    (failed : ofTree root escapes unescapes = .error error) : ∃ fault, error = .pattern fault := by
  obtain ⟨lowered, lowers⟩ := lowerable.exists_lower
  unfold ofTree at failed
  rcases bind_eq_error.mp failed with refused | ⟨_, -, failed⟩
  · rw [lowers] at refused
    cases refused
  rcases bind_eq_error.mp failed with failed | ⟨_, -, failed⟩
  · exact CompiledPattern.pattern_of_ofSource failed
  rcases bind_eq_error.mp failed with failed | ⟨_, -, failed⟩
  · obtain ⟨body, -, failed⟩ := exists_of_mapM_eq_error failed
    exact CompiledPattern.pattern_of_ofSource failed
  rcases bind_eq_error.mp failed with failed | ⟨_, -, made⟩
  · obtain ⟨body, -, failed⟩ := exists_of_mapM_eq_error failed
    exact CompiledPattern.pattern_of_ofSource failed
  · cases made

theorem Tree.lowerable_of_ofExpression {root : Tree} (read : ofExpression expression = .ok root) :
    root.Lowerable := by
  obtain ⟨tokens, -, read⟩ := bind_eq_ok.mp read
  exact (expression_of_ofTokens read).bears.spelled.lowerable

/-- An expression is refused at a place in it, where the text that the error is about begins; the
tree of an expression that is read can be refused by the patterns alone. -/
theorem points_of_ofExpression (expression : String) :
    (∀ error, Tree.ofExpression expression = .error error →
      ∃ position rest, Text.from? expression position = some rest ∧
        position < expression.utf8ByteSize ∧ Points expression position rest.toList error) ∧
    (∀ root, Tree.ofExpression expression = .ok root → ∀ escapes unescapes error,
      Grammar.ofTree root escapes unescapes = .error error → ∃ fault, error = .pattern fault) := by
  refine ⟨fun error failed => ?_, fun root read escapes unescapes error failed => ?_⟩
  · obtain ⟨position, rest, isBefore, some, points⟩ := isPlaced_of_ofExpression failed
    refine ⟨position, String.ofList rest, isBefore.from?, isBefore.lt some, ?_⟩
    rwa [String.toList_ofList]
  · exact Grammar.pattern_of_ofTree (Tree.lowerable_of_ofExpression read) failed

theorem points_unclosed :
    (Tree.ofExpression "é((a # )" = .error (.malformed .unclosedGroup 3) ∧
      ∃ rest, Text.from? "é((a # )" 3 = some rest ∧
        Points "é((a # )" 3 rest.toList (.malformed .unclosedGroup 3)) ∧
    ∃ root error fault, Tree.ofExpression "\\x" = .ok root ∧
      Grammar.ofTree root [] [] = .error error ∧ error = .pattern fault := by
  have failed : Tree.ofExpression "é((a # )" = .error (.malformed .unclosedGroup 3) := by
    rw [Tree.ofExpression_eq]
    cbv
  obtain ⟨position, rest, from', -, points⟩ := (points_of_ofExpression _).1 _ failed
  obtain rfl : position = 3 := by
    cases points with
    | unclosedGroup => rfl
  have read : Tree.ofExpression "\\x" = .ok (.leaf "\\x") := by
    rw [Tree.ofExpression_eq]
    cbv
  have refused : Grammar.ofTree (.leaf "\\x") [] [] = .error (.pattern .characterEscape) := by cbv
  obtain ⟨fault, same⟩ := (points_of_ofExpression _).2 _ read _ _ _ refused
  exact ⟨⟨failed, rest, from', points⟩, _, _, fault, read, refused, same⟩

end LineGrammar
