import LineGrammar.Proofs.Expression.PhraseReading
import LineGrammar.Proofs.Expression.Rendering
import LineGrammar.Proofs.Expression.Tokenizing

/-! A tree that is read from an expression without comments is rendered to an expression that is
read again, as the flat form of the tree. -/

namespace LineGrammar

open Token

section

variable {c : Char} {rest : List Char} {more : Nat}

theorem isNameChar_of_openerLength {tail name : List Char}
    (taken : tail.take (openerLength tail) = 'P' :: '<' :: (name ++ ['>'])) :
    ∀ c ∈ name, isNameChar c = true := by
  obtain ⟨later, rfl⟩ : ∃ later, tail = 'P' :: '<' :: later := by
    have whole := List.take_append_drop (openerLength tail) tail
    rw [taken] at whole
    exact ⟨_, whole.symm⟩
  have first := List.prefix_iff_eq_take.mp (List.takeWhile_prefix isNameChar (l := later))
  generalize known : later.takeWhile isNameChar = inside at first
  have all : ∀ c ∈ inside, isNameChar c = true := fun c mem =>
    List.mem_takeWhile_imp (known ▸ mem)
  by_cases closes : inside ≠ [] ∧ later[inside.length]? = some '>'
  · have length : openerLength ('P' :: '<' :: later) = inside.length + 3 := by
      simp [openerLength, known, closes.1, Nat.add_comm 2, closes.2]
    rw [length, List.take_succ_cons, List.take_succ_cons, List.take_add_one, ← first,
      closes.2] at taken
    have same : inside = name := by simpa using taken
    exact same ▸ all
  · have length : openerLength ('P' :: '<' :: later) = 2 := by
      have := closes
      simp [openerLength, known, Nat.add_comm 2]
      tauto
    simp [length] at taken

theorem isNameChar_of_piece {name : String} (found : piece c rest = .ok (.token more))
    (spelled : String.ofList (c :: rest.take more) = Phrase.opener name) :
    ∀ c ∈ name.toList, isNameChar c = true := by
  have shape : c = '(' ∧ rest.take more = '?' :: 'P' :: '<' :: (name.toList ++ ['>']) := by
    simpa [← String.toList_inj, Phrase.opener] using spelled
  obtain ⟨rfl, taken⟩ := shape
  obtain ⟨tail, rfl⟩ : ∃ tail, rest = '?' :: tail := by
    have whole := List.take_append_drop more rest
    rw [taken] at whole
    exact ⟨_, whole.symm⟩
  obtain rfl : openerLength tail + 1 = more := by simpa [piece] using found
  rw [List.take_succ_cons, List.cons.injEq] at taken
  exact isNameChar_of_openerLength taken.2

theorem isLeaf_of_piece {token : Token} (found : piece c rest = .ok (.token more))
    (spelled : token.text = String.ofList (c :: rest.take more))
    (operand : Phrase.IsOperand token.text) : IsLeaf token.text := by
  obtain ⟨text, position⟩ := token
  obtain rfl : text = _ := spelled
  refine ⟨?_, fun d head => ?_⟩
  · rw [String.toList_ofList]
    exact isLeafText_of_piece found operand.role
  · obtain rfl : c = d := by simpa using head
    exact ne_of_piece found

theorem isOperand_of_brace {token : Token} (found : piece c rest = .ok (.token more))
    (spelled : token.text = String.ofList (c :: rest.take more))
    (read : token.role ≠ .nameless ∧ token.role ≠ .foreign)
    (brace : token.text.toList.filter isBrace ≠ []) : Phrase.IsOperand token.text := by
  have plays := plays_role token
  generalize token.role = role at plays read
  cases plays with
  | bar eq | closing eq => simp [eq, isBrace] at brace
  | quantifier sign =>
    exfalso
    generalize token.text = text at sign brace
    cases sign <;> simp [isBrace] at brace
  | opening opens =>
    exfalso
    rw [spelled] at opens brace
    generalize text : String.ofList (c :: rest.take more) = opener at opens brace
    cases opens with
    | bare | plain | negativeLook => simp [isBrace] at brace
    | @named name some =>
      exact brace (IsName.filter_opener ⟨some, isNameChar_of_piece found text⟩)
  | nameless => exact absurd rfl read.1
  | foreign => exact absurd rfl read.2
  | leaf operand => exact operand

end

theorem Parsing.role_of_run {parsing next : Parsing} {tokens : List Token}
    (run : parsing.run tokens = .ok next) :
    ∀ token ∈ tokens, token.role ≠ .nameless ∧ token.role ≠ .foreign := by
  induction tokens generalizing parsing with
  | nil => simp
  | cons token rest ih =>
    obtain ⟨middle, step, run⟩ := Parsing.run_cons_eq_ok.mp run
    refine List.forall_mem_cons.mpr ⟨?_, ih run⟩
    cases step with
    | bar role | closing role | quantifier role | opening role | leaf role => simp [role]

namespace Tree

variable {tree : Tree}

theorem mem_allLeaves {text : String} {trees : List Tree} :
    text ∈ allLeaves trees ↔ ∃ tree ∈ trees, text ∈ tree.leaves := by
  induction trees with
  | nil => simp [allLeaves]
  | cons tree rest ih => simp [allLeaves, ih]

theorem mem_allVariableNames {name : String} {trees : List Tree} :
    name ∈ allVariableNames trees ↔ ∃ tree ∈ trees, name ∈ tree.variableNames := by
  induction trees with
  | nil => simp [allVariableNames]
  | cons tree rest ih => simp [allVariableNames, ih]

theorem subset_of_mem_subtrees {inner : Tree} (mem : inner ∈ tree.subtrees) :
    inner.leaves ⊆ tree.leaves ∧ inner.variableNames ⊆ tree.variableNames := by
  induction tree with
  | choice branches ih =>
    rw [subtrees, List.mem_cons, mem_allSubtrees] at mem
    rcases mem with rfl | ⟨branch, mem, below⟩
    · exact ⟨List.Subset.refl _, List.Subset.refl _⟩
    · have inside := ih branch mem below
      exact ⟨fun text found => mem_allLeaves.mpr ⟨branch, mem, inside.1 found⟩,
        fun name found => mem_allVariableNames.mpr ⟨branch, mem, inside.2 found⟩⟩
  | sequence parts ih =>
    rw [subtrees, List.mem_cons, mem_allSubtrees] at mem
    rcases mem with rfl | ⟨part, mem, below⟩
    · exact ⟨List.Subset.refl _, List.Subset.refl _⟩
    · have inside := ih part mem below
      exact ⟨fun text found => mem_allLeaves.mpr ⟨part, mem, inside.1 found⟩,
        fun name found => mem_allVariableNames.mpr ⟨part, mem, inside.2 found⟩⟩
  | leaf text =>
    obtain rfl := List.mem_singleton.mp mem
    exact ⟨List.Subset.refl _, List.Subset.refl _⟩
  | look negated body ih | repeated body repetition ih =>
    rcases List.mem_cons.mp mem with rfl | below
    · exact ⟨List.Subset.refl _, List.Subset.refl _⟩
    · exact ih below
  | named name body ih =>
    rcases List.mem_cons.mp mem with rfl | below
    · exact ⟨List.Subset.refl _, List.Subset.refl _⟩
    · exact ⟨(ih below).1, fun other found => List.mem_cons_of_mem _ ((ih below).2 found)⟩

/-- A tree of phrases whose leaves and names can be read as tokens. -/
structure Tokenized (tree : Tree) : Prop where
  spelled : tree.Spelled
  leaves : ∀ text ∈ tree.leaves, IsLeaf text
  names : ∀ name ∈ tree.variableNames, ∀ c ∈ name.toList, isNameChar c = true

theorem Tokenized.part {inner : Tree} (tokenized : tree.Tokenized) (mem : inner ∈ tree.subtrees) :
    inner.Tokenized where
  spelled := tokenized.spelled.part mem
  leaves text found := tokenized.leaves text ((subset_of_mem_subtrees mem).1 found)
  names name found := tokenized.names name ((subset_of_mem_subtrees mem).2 found)

end Tree

/-- Tokens that stay apart, none of which takes part in a sign; they have the braces of the
operands. -/
structure Settled (operands texts : List String) : Prop where
  apart : Apart texts
  unmarked : (texts.flatMap String.toList).head? ≠ some '?'
  braces : braces texts = braces operands

namespace Settled

variable {operands texts : List String} {text : String}

theorem nil : Settled [] [] := ⟨trivial, by simp, rfl⟩

theorem structural (settled : Settled operands texts) (stands : ∀ rest, Stands text rest)
    (unmarked : text.toList.head? ≠ some '?') (plain : text.toList.filter isBrace = []) :
    Settled operands (text :: texts) where
  apart := ⟨stands _, settled.apart⟩
  unmarked := by
    obtain ⟨c, more, spelled, -⟩ := stands []
    rw [spelled] at unmarked
    simpa [spelled] using unmarked
  braces := by rw [braces_cons, plain, settled.braces, List.nil_append]

theorem closing (settled : Settled operands texts) : Settled operands (")" :: texts) :=
  settled.structural stands_closing (by simp) (by simp [isBrace])

theorem bar (settled : Settled operands texts) : Settled operands ("|" :: texts) :=
  settled.structural stands_bar (by simp) (by simp [isBrace])

theorem plain (settled : Settled operands texts) : Settled operands ("(?:" :: texts) :=
  settled.structural stands_plain (by simp) (by simp [isBrace])

theorem negativeLook (settled : Settled operands texts) : Settled operands ("(?!" :: texts) :=
  settled.structural stands_negativeLook (by simp) (by simp [isBrace])

theorem opener (settled : Settled operands texts) {name : String} (isName : IsName name) :
    Settled operands (Phrase.opener name :: texts) :=
  settled.structural (stands_opener isName) (by simp [Phrase.opener]) isName.filter_opener

theorem repeated (settled : Settled operands texts) {sign : String} {repetition : Repetition}
    (repeats : Phrase.Sign sign repetition) : Settled operands (")" :: sign :: texts) where
  apart := ⟨stands_closing _, stands_sign repeats settled.unmarked, settled.apart⟩
  unmarked := by simp
  braces := by
    have plain : sign.toList.filter isBrace = [] := by cases repeats <;> simp [isBrace]
    rw [braces_cons, braces_cons, plain, settled.braces]
    simp [isBrace]

theorem leaf (settled : Settled operands texts) (leaf : IsLeaf text)
    (lone : Lone (text :: operands)) : Settled (text :: operands) (text :: texts) where
  apart := by
    refine ⟨leaf.stands fun brace => ?_, settled.apart⟩
    have same := settled.braces
    rw [Token.braces] at same
    rw [same]
    exact lone.1 brace
  unmarked := by
    obtain ⟨shape, -⟩ := leaf
    rw [List.flatMap_cons]
    generalize text.toList = cs at shape
    cases shape with
    | plain c free => simp_all [roleChars]
    | brace | escape | charClass => simp
  braces := by rw [braces_cons, braces_cons, settled.braces]

end Settled

namespace Tree

variable {tree : Tree}

def Settles (tree : Tree) : Prop :=
  ∀ {operands later : List String}, Settled operands later → Lone (tree.leaves ++ operands) →
    Settled (tree.leaves ++ operands) (tree.spelling ++ later)

variable {trees : List Tree} {operands later : List String}

theorem settled_parts (each : ∀ tree ∈ trees, tree.Settles) (settled : Settled operands later)
    (lone : Lone (allLeaves trees ++ operands)) :
    Settled (allLeaves trees ++ operands) ((spellings trees).flatten ++ later) := by
  induction trees with
  | nil => exact settled
  | cons tree rest ih =>
    rw [allLeaves, List.append_assoc] at lone ⊢
    rw [spellings, List.flatten_cons, List.append_assoc]
    have others := ih (fun tree mem => each tree (List.mem_cons_of_mem _ mem)) lone.right
    exact each tree List.mem_cons_self others lone

theorem settled_branches {trees : List Tree} (each : ∀ tree ∈ trees, tree.Settles)
    (settled : Settled operands later) (lone : Lone (allLeaves trees ++ operands)) :
    Settled (allLeaves trees ++ operands) (["|"].intercalate (spellings trees) ++ later) := by
  match trees with
  | [] => exact settled
  | [branch] =>
    have alone := each branch List.mem_cons_self settled (by simpa [allLeaves] using lone)
    simpa [allLeaves, spellings] using alone
  | first :: second :: rest =>
    rw [allLeaves, List.append_assoc] at lone ⊢
    have behind : ∀ tree ∈ second :: rest, tree.Settles := fun tree mem =>
      each tree (List.mem_cons_of_mem _ mem)
    have others := settled_branches behind settled lone.right
    rw [spellings, spellings, List.intercalate_cons_cons, ← spellings, List.append_assoc,
      List.append_assoc]
    exact each first List.mem_cons_self others.bar lone

theorem Tokenized.settles (tokenized : tree.Tokenized) : tree.Settles := by
  induction tree with
  | choice branches ih =>
    intro operands later settled lone
    have inside := settled_branches
      (fun branch mem => ih branch mem (tokenized.part (branch_mem_subtrees mem)))
      settled.closing lone
    rw [Tree.leaves, spelling]
    simpa using inside.plain
  | sequence parts ih =>
    intro operands later settled lone
    exact settled_parts (fun part mem => ih part mem (tokenized.part (part_mem_subtrees mem)))
      settled lone
  | leaf text =>
    intro operands later settled lone
    exact settled.leaf (tokenized.leaves text List.mem_cons_self) lone
  | look negated body ih =>
    intro operands later settled lone
    obtain rfl : negated = true := tokenized.spelled _ (self_mem_subtrees _)
    have inside := ih (tokenized.part look_body_mem_subtrees) settled.closing lone
    rw [Tree.leaves, spelling]
    simpa using inside.negativeLook
  | named name body ih =>
    intro operands later settled lone
    have isName : IsName name :=
      ⟨tokenized.spelled _ (self_mem_subtrees _), tokenized.names name List.mem_cons_self⟩
    have inside := ih (tokenized.part variable_body_mem_subtrees) settled.closing lone
    rw [Tree.leaves, spelling]
    simpa using inside.opener isName
  | repeated body repetition ih =>
    intro operands later settled lone
    obtain ⟨sign, repeats⟩ : ∃ sign, Phrase.Sign sign repetition :=
      tokenized.spelled _ (self_mem_subtrees _)
    have inside := ih (tokenized.part repeated_body_mem_subtrees) (settled.repeated repeats) lone
    rw [Tree.leaves, spelling, ← repeats.eq_quantifier]
    simpa using inside.plain

variable {expression : String} {root : Tree}

theorem isNameChar_of_ofExpression (read : ofExpression expression = .ok root) {name : String}
    (mem : name ∈ root.variableNames) : ∀ c ∈ name.toList, isNameChar c = true := by
  obtain ⟨tokens, split, readTokens⟩ := bind_eq_ok.mp ((ofExpression_eq _).symm.trans read)
  have bears := (expression_of_ofTokens readTokens).bears
  obtain ⟨token, among, same⟩ := List.mem_map.mp (bears.named name mem)
  obtain ⟨c, rest, more, found, spelled⟩ := mem_ofCharsFrom split among
  exact isNameChar_of_piece found (spelled.symm.trans same)

theorem tokenized_of_ofExpression (read : ofExpression expression = .ok root) :
    root.Tokenized := by
  obtain ⟨tokens, split, readTokens⟩ := bind_eq_ok.mp ((ofExpression_eq _).symm.trans read)
  have bears := (expression_of_ofTokens readTokens).bears
  refine ⟨bears.spelled, fun text mem => ?_, fun name mem => isNameChar_of_ofExpression read mem⟩
  rw [bears.leaves, List.mem_filter, decide_eq_true_iff] at mem
  obtain ⟨token, among, rfl⟩ := List.mem_map.mp mem.1
  obtain ⟨c, rest, more, found, spelled⟩ := mem_ofCharsFrom split among
  exact isLeaf_of_piece found spelled mem.2

theorem lone_leaves (read : ofExpression expression = .ok root)
    (uncommented : ∀ gap ∈ gaps expression.toList, gap.head? ≠ some '#') : Lone root.leaves := by
  obtain ⟨tokens, split, readTokens⟩ := bind_eq_ok.mp ((ofExpression_eq _).symm.trans read)
  obtain ⟨parsing, run, -⟩ := bind_eq_ok.mp readTokens
  have plain : ∀ text ∈ tokens.map (·.text), ¬Phrase.IsOperand text →
      text.toList.filter isBrace = [] := by
    intro text mem structural
    obtain ⟨token, among, rfl⟩ := List.mem_map.mp mem
    obtain ⟨c, rest, more, found, spelled⟩ := mem_ofCharsFrom split among
    by_contra brace
    exact structural (isOperand_of_brace found spelled (Parsing.role_of_run run token among) brace)
  rw [(expression_of_ofTokens readTokens).bears.leaves]
  exact (lone_of_ofCharsFrom split uncommented).2.filter plain

theorem Tokenized.reread (tokenized : root.Tokenized) (lone : Lone root.leaves) :
    ofExpression root.render = .ok root.flat := by
  rw [← List.append_nil root.leaves] at lone
  have apart : Apart root.spelling := by simpa using (tokenized.settles .nil lone).apart
  obtain ⟨tokens, split, same⟩ := apart.ofCharsFrom 0
  have phrase : Phrase.Expression (tokens.map (·.text)) root.flat :=
    same ▸ tokenized.spelled.expression
  rw [flatMap_spelling] at split
  rw [ofExpression_eq]
  exact bind_eq_ok.mpr ⟨tokens, split, phrase.ofTokens⟩

theorem Tokenized.read {expression : String} (tokenized : root.Tokenized)
    (whole : ∀ text ∈ root.leaves, text ≠ "\x7b") (flat : root.flat = root)
    (rendered : root.render = expression) : ofExpression expression = .ok root := by
  rw [← rendered, tokenized.reread (lone_of_forall whole), flat]

theorem tokenized_leaf {text source : String} (leaf : IsLeaf text)
    (operand : Phrase.IsOperand text) (lowered : Leaf.native text = .ok source) :
    (Tree.leaf text).Tokenized where
  spelled := List.forall_mem_singleton.mpr ⟨operand, source, lowered⟩
  leaves := List.forall_mem_singleton.mpr leaf
  names := by simp [variableNames]

theorem tokenized_char (c : Char) (source : String) (free : c ∉ roleChars)
    (legible : c ≠ '#' ∧ Text.isBlank c = false)
    (lowered : Leaf.native (String.singleton c) = .ok source) :
    (Tree.leaf (String.singleton c)).Tokenized := by
  have spelled : (String.singleton c).toList = [c] := by simp
  refine tokenized_leaf ⟨?_, fun d head => ?_⟩ ⟨?_, ?_, ?_⟩ lowered
  · rw [spelled]
    exact .plain c free
  · obtain rfl : c = d := by simpa [spelled] using head
    exact legible
  · simp_all [← String.toList_inj, roleChars]
  · simp [spelled]
  · simp [spelled]

theorem tokenized_escape (c : Char) (source : String)
    (lowered : Leaf.native (String.ofList ['\\', c]) = .ok source) :
    (Tree.leaf (String.ofList ['\\', c])).Tokenized := by
  refine tokenized_leaf ⟨?_, fun d head => ?_⟩ ⟨?_, ?_, ?_⟩ lowered
  · rw [String.toList_ofList]
    exact .escape c
  · obtain rfl : '\\' = d := by simpa using head
    exact ⟨by decide, by decide⟩
  · simp [← String.toList_inj]
  · simp
  · simp

theorem Tokenized.variable {name : String} (tokenized : root.Tokenized) (isName : IsName name) :
    (Tree.variable name root).Tokenized where
  spelled := List.forall_mem_cons.mpr ⟨isName.1, tokenized.spelled⟩
  leaves := tokenized.leaves
  names := List.forall_mem_cons.mpr ⟨isName.2, tokenized.names⟩

theorem Tokenized.negativeLook (tokenized : root.Tokenized) : (look true root).Tokenized where
  spelled := List.forall_mem_cons.mpr ⟨rfl, tokenized.spelled⟩
  leaves := tokenized.leaves
  names := tokenized.names

theorem tokenized_sequence {parts : List Tree} (several : parts.length ≠ 1)
    (each : ∀ part ∈ parts, part.Tokenized) : (sequence parts).Tokenized where
  spelled := by
    intro inner mem
    rcases List.mem_cons.mp mem with rfl | below
    · exact several
    · obtain ⟨part, mem, below⟩ := mem_allSubtrees.mp below
      exact (each part mem).spelled inner below
  leaves := by
    intro text mem
    obtain ⟨part, mem, found⟩ := mem_allLeaves.mp mem
    exact (each part mem).leaves text found
  names := by
    intro name mem
    obtain ⟨part, mem, found⟩ := mem_allVariableNames.mp mem
    exact (each part mem).names name found

/-- A tree that is read from an expression without comments is rendered to an expression for a tree
that is rendered to the same expression and lowered to the same body, in which the same groups stand
for the same variables. -/
theorem ofExpression_render (read : ofExpression expression = .ok root)
    (uncommented : ∀ gap ∈ gaps expression.toList, gap.head? ≠ some '#') :
    ∃ again, ofExpression root.render = .ok again ∧ again.render = root.render ∧
      ∃ lowered lowered', root.lower = .ok lowered ∧ again.lower = .ok lowered' ∧
        lowered'.whole = lowered.whole ∧
        lowered'.whole.groups.map (lowered'.groupNames[·]?) =
          lowered.whole.groups.map (lowered.groupNames[·]?) := by
  have tokenized := tokenized_of_ofExpression read
  exact ⟨root.flat, tokenized.reread (lone_leaves read uncommented), root.render_flat,
    tokenized.spelled.lower_flat⟩

theorem ofExpression_render_stacked :
    ∃ root again, ofExpression "(a | [#])*+ \\# \x7b" = .ok root ∧
      root.render = "(?:(?:(?:a|[#]))*)+\\#\x7b" ∧ ofExpression root.render = .ok again ∧
      again.render = root.render ∧
      ∃ lowered lowered', root.lower = .ok lowered ∧ again.lower = .ok lowered' ∧
        lowered'.whole = lowered.whole ∧
        lowered'.whole.groups.map (lowered'.groupNames[·]?) =
          lowered.whole.groups.map (lowered.groupNames[·]?) := by
  have read : ofExpression "(a | [#])*+ \\# \x7b" = .ok (.sequence [.repeated (.repeated
      (.choice [.leaf "a", .leaf "[#]"]) ⟨0, none, true⟩) ⟨1, none, true⟩, .leaf "\\#",
      .leaf "\x7b"]) := by
    rw [ofExpression_eq]
    cbv
  have skipped : gaps "(a | [#])*+ \\# \x7b".toList = [[' '], [' '], [' '], [' ']] := by cbv
  have uncommented : ∀ gap ∈ gaps "(a | [#])*+ \\# \x7b".toList, gap.head? ≠ some '#' := by
    rw [skipped]
    decide
  obtain ⟨again, readAgain, rendered, lowered⟩ := ofExpression_render read uncommented
  exact ⟨_, again, read, rfl, readAgain, rendered, lowered⟩

end Tree

end LineGrammar
