import LineGrammar.Expression.Parsing
import LineGrammar.Proofs.Outcome
import LineGrammar.Proofs.Tree.Basic

/-! The phrases of expressions: a grammar over the texts of tokens that says what an expression is
and which tree it stands for. The text of a token decides its role, so the grammar needs nothing
else of it. The leaves of the tree are the texts that have no role in the structure, in their
order. -/

namespace LineGrammar

namespace Phrase

inductive Sign : String → Repetition → Prop
  | star : Sign "*" ⟨0, none, true⟩
  | lazyStar : Sign "*?" ⟨0, none, false⟩
  | plus : Sign "+" ⟨1, none, true⟩
  | lazyPlus : Sign "+?" ⟨1, none, false⟩
  | mark : Sign "?" ⟨0, some 1, true⟩
  | lazyMark : Sign "??" ⟨0, some 1, false⟩

inductive Opener : String → Enclosure → Prop
  | bare : Opener "(" .plain
  | plain : Opener "(?:" .plain
  | negativeLook : Opener "(?!" .negativeLook
  | named {name : String} (some : name ≠ "") :
    Opener ("(?P<" ++ name ++ ">") (.variable name)

def IsOperand (text : String) : Prop :=
  text ∉ [")", "|", "(", "*", "*?", "+", "+?", "?", "??"] ∧ ¬['(', '?'] <+: text.toList ∧
    ¬(['{'] <+: text.toList ∧ 1 < text.toList.length)

instance : DecidablePred IsOperand := fun _ => inferInstanceAs (Decidable (_ ∧ _))

mutual

inductive Atom : List String → Tree → Prop
  | leaf {text source : String} (operand : IsOperand text)
    (lowered : Leaf.native text = .ok source) : Atom [text] (.leaf text)
  | group {opener : String} {enclosure : Enclosure} {inside : List String}
    {branches : List Tree} (opens : Opener opener enclosure) (body : Choice inside branches) :
    Atom (opener :: (inside ++ [")"])) (enclosure.enclose (.ofBranches branches))

/-- An atom and the signs behind it, each of which repeats all that is before it. -/
inductive Term : List String → Tree → Prop
  | atom {texts : List String} {part : Tree} (alone : Atom texts part) : Term texts part
  | repeated {texts : List String} {part : Tree} {sign : String} {repetition : Repetition}
    (term : Term texts part) (repeats : Sign sign repetition) :
    Term (texts ++ [sign]) (.repeated part repetition)

inductive Sequence : List String → List Tree → Prop
  | nil : Sequence [] []
  | cons {first rest : List String} {part : Tree} {parts : List Tree} (term : Term first part)
    (later : Sequence rest parts) : Sequence (first ++ rest) (part :: parts)

inductive Choice : List String → List Tree → Prop
  | last {texts : List String} {parts : List Tree} (sequence : Sequence texts parts) :
    Choice texts [.ofParts parts]
  | bar {first rest : List String} {parts branches : List Tree} (sequence : Sequence first parts)
    (later : Choice rest branches) : Choice (first ++ "|" :: rest) (.ofParts parts :: branches)

end

/-- The texts are an expression for the tree. -/
def Expression (texts : List String) (tree : Tree) : Prop :=
  ∃ branches, Choice texts branches ∧ tree = .ofBranches branches

end Phrase

theorem Phrase.Choice.ne_nil {texts : List String} {branches : List Tree}
    (choice : Phrase.Choice texts branches) : branches ≠ [] := by
  cases choice <;> simp

theorem Phrase.Sequence.one {texts : List String} {part : Tree} (term : Phrase.Term texts part) :
    Phrase.Sequence texts [part] := by
  rw [← List.append_nil texts]
  exact .cons term .nil

theorem Phrase.Sequence.append {first rest : List String} {parts later : List Tree}
    (before : Phrase.Sequence first parts) (after : Phrase.Sequence rest later) :
    Phrase.Sequence (first ++ rest) (parts ++ later) := by
  match before with
  | .nil => exact after
  | .cons term more =>
    rw [List.append_assoc]
    exact .cons term (more.append after)

inductive Token.Plays (text : String) : Role → Prop
  | bar (eq : text = "|") : Plays text .bar
  | closing (eq : text = ")") : Plays text .closing
  | quantifier {repetition : Repetition} (sign : Phrase.Sign text repetition) :
    Plays text (.quantifier repetition)
  | opening {enclosure : Enclosure} (opens : Phrase.Opener text enclosure) :
    Plays text (.opening enclosure)
  | nameless (opens : ['(', '?'] <+: text.toList) : Plays text .nameless
  | foreign (other : ['(', '?'] <+: text.toList ∨ ['{'] <+: text.toList ∧ 1 < text.toList.length) :
    Plays text .foreign
  | leaf (operand : Phrase.IsOperand text) : Plays text .leaf

namespace Token

variable {token : Token}

theorem opener_of_groupName? {text name : String} (opens : ['(', '?', 'P', '<'] <+: text.toList)
    (named : groupName? text.toList = some name) :
    Phrase.Opener text (.variable name) := by
  obtain ⟨rest, spelled⟩ := opens
  unfold groupName? at named
  rw [← spelled] at named
  simp only [List.cons_append, List.nil_append, List.drop_succ_cons, List.drop_zero] at named
  split at named
  · next closes =>
    obtain rfl := Option.some.inj named
    obtain ⟨last, some⟩ := closes
    have ends : rest.dropLast ++ ['>'] = rest := by
      apply List.dropLast_append_getLast?
      cases rest with
      | nil => simp at some
      | cons c more => simpa using last
    have same : text = "(?P<" ++ String.ofList rest.dropLast ++ ">" := by
      rw [← String.toList_inj, ← spelled]
      simp [ends]
    rw [same]
    exact .named (by simpa [← String.toList_inj] using some)
  · simp at named

theorem Plays.ite {text : String} {p : Prop} [Decidable p] {yes no : Role}
    (hyes : p → Plays text yes) (hno : ¬p → Plays text no) :
    Plays text (if p then yes else no) := by
  by_cases h : p
  · rw [if_pos h]
    exact hyes h
  · rw [if_neg h]
    exact hno h

theorem plays_role (token : Token) : Plays token.text token.role := by
  have eq {cs : List Char} {text : String} (same : token.text.toList = cs)
      (spelled : text.toList = cs) : token.text = text :=
    String.toList_inj.mp (same.trans spelled.symm)
  have sign {cs : List Char} {text : String} {repetition : Repetition}
      (spelled : text.toList = cs) (sign : Phrase.Sign text repetition)
      (same : token.text.toList = cs) : Plays token.text (.quantifier repetition) :=
    .quantifier (eq same spelled ▸ sign)
  have opener {cs : List Char} {text : String} {enclosure : Enclosure}
      (spelled : text.toList = cs) (opens : Phrase.Opener text enclosure)
      (same : token.text.toList = cs) : Plays token.text (.opening enclosure) :=
    .opening (eq same spelled ▸ opens)
  unfold role
  dsimp only
  refine .ite (fun same => .closing (eq same rfl)) fun notClosing => ?_
  refine .ite (fun same => .bar (eq same rfl)) fun notBar => ?_
  refine .ite (sign rfl .star) fun notStar => ?_
  refine .ite (sign rfl .lazyStar) fun notLazyStar => ?_
  refine .ite (sign rfl .plus) fun notPlus => ?_
  refine .ite (sign rfl .lazyPlus) fun notLazyPlus => ?_
  refine .ite (sign rfl .mark) fun notMark => ?_
  refine .ite (sign rfl .lazyMark) fun notLazyMark => ?_
  refine .ite (fun same => same.elim (opener rfl .bare) (opener rfl .plain)) fun notPlain => ?_
  refine .ite (opener rfl .negativeLook) fun notLook => ?_
  refine .ite (fun opens => ?_) fun notNamed => ?_
  · have starts := List.isPrefixOf_iff_prefix.mp opens
    split
    · next name named => exact .opening (opener_of_groupName? starts named)
    · exact .nameless (List.IsPrefix.trans ⟨['P', '<'], rfl⟩ starts)
  refine .ite (fun opens => .foreign (.inl (List.isPrefixOf_iff_prefix.mp opens))) fun other => ?_
  refine .ite (fun braced => .foreign (.inr ?_)) fun notBraced => .leaf ?_
  · obtain ⟨rest, spelled⟩ := List.head?_eq_some_iff.mp braced.1
    exact ⟨⟨rest, spelled.symm⟩, braced.2⟩
  · refine ⟨?_, fun starts => other (List.isPrefixOf_iff_prefix.mpr starts), ?_⟩
    · simp only [← String.toList_inj, List.mem_cons, List.not_mem_nil, or_false, not_or]
      rw [not_or] at notPlain
      exact ⟨notClosing, notBar, notPlain.1, notStar, notLazyStar, notPlus, notLazyPlus, notMark,
        notLazyMark⟩
    · rintro ⟨⟨rest, spelled⟩, longer⟩
      exact notBraced ⟨by simp [← spelled], longer⟩

end Token

namespace Phrase

variable {token : Token} {text : String}

theorem Sign.not_isOperand {repetition : Repetition} (sign : Sign text repetition) :
    ¬IsOperand text := by
  rintro ⟨other, -, -⟩
  cases sign <;> simp at other

theorem Sign.eq_quantifier {repetition : Repetition} (sign : Sign text repetition) :
    text = repetition.quantifier := by
  cases sign <;> rfl

theorem Opener.not_isOperand {enclosure : Enclosure} (opens : Opener text enclosure) :
    ¬IsOperand text := by
  rintro ⟨other, unmarked, -⟩
  cases opens with
  | bare => simp at other
  | plain | negativeLook => exact unmarked ⟨_, rfl⟩
  | named some => exact unmarked ⟨_, by simp; rfl⟩

theorem Sign.role {repetition : Repetition} (sign : Sign token.text repetition) :
    token.role = .quantifier repetition := by
  unfold Token.role
  generalize token.text = text at sign
  cases sign <;> simp

theorem Opener.role {enclosure : Enclosure} (opens : Opener token.text enclosure) :
    token.role = .opening enclosure := by
  unfold Token.role
  generalize token.text = text at opens
  cases opens with
  | bare | plain | negativeLook => simp
  | @named name some =>
    have spelled : ("(?P<" ++ name ++ ">").toList =
        '(' :: '?' :: 'P' :: '<' :: (name.toList ++ ['>']) := by simp
    have last : ('(' :: '?' :: 'P' :: '<' :: (name.toList ++ ['>'])).getLast? =
        Option.some '>' :=
      List.getLast?_concat (l := '(' :: '?' :: 'P' :: '<' :: name.toList)
    have named : Token.groupName? ('(' :: '?' :: 'P' :: '<' :: (name.toList ++ ['>'])) =
        Option.some name := by
      rw [Token.groupName?, last]
      simp [some]
    simp [spelled, named]

theorem role_of_closing (closing : token.text = ")") : token.role = .closing := by
  unfold Token.role
  simp [closing]

theorem role_of_bar (bar : token.text = "|") : token.role = .bar := by
  unfold Token.role
  simp [bar]

theorem IsOperand.role (operand : IsOperand token.text) : token.role = .leaf := by
  have plays := Token.plays_role token
  generalize token.role = role at plays
  cases plays with
  | bar eq | closing eq => simp [eq, IsOperand] at operand
  | quantifier sign => exact absurd operand sign.not_isOperand
  | opening opens => exact absurd operand opens.not_isOperand
  | nameless opens => exact absurd opens operand.2.1
  | foreign other => exact absurd other (not_or.mpr operand.2)
  | leaf => rfl

end Phrase

namespace Tree

mutual

def leaves : Tree → List String
  | .choice branches => allLeaves branches
  | .sequence parts => allLeaves parts
  | .leaf text => [text]
  | .look _ body => body.leaves
  | .variable _ body => body.leaves
  | .repeated body _ => body.leaves

def allLeaves : List Tree → List String
  | [] => []
  | tree :: rest => tree.leaves ++ allLeaves rest

end

/-- A node that a phrase can stand for. One branch or one part is no node of its own. -/
def IsSpelled : Tree → Prop
  | .choice branches => 2 ≤ branches.length
  | .sequence parts => parts.length ≠ 1
  | .leaf text => Phrase.IsOperand text ∧ ∃ source, Leaf.native text = .ok source
  | .look negated _ => negated = true
  | .variable name _ => name ≠ ""
  | .repeated _ repetition => ∃ sign, Phrase.Sign sign repetition

def Spelled (root : Tree) : Prop := ∀ inner ∈ root.subtrees, inner.IsSpelled

variable {trees : List Tree}

theorem leaves_ofParts (parts : List Tree) : (ofParts parts).leaves = allLeaves parts := by
  unfold ofParts
  split
  · simp [allLeaves]
  · rw [leaves]

theorem leaves_ofBranches (branches : List Tree) :
    (ofBranches branches).leaves = allLeaves branches := by
  unfold ofBranches
  split
  · simp [allLeaves]
  · rw [leaves]

theorem variableNames_ofParts (parts : List Tree) :
    (ofParts parts).variableNames = allVariableNames parts := by
  unfold ofParts
  split
  · simp [allVariableNames]
  · rw [variableNames]

theorem variableNames_ofBranches (branches : List Tree) :
    (ofBranches branches).variableNames = allVariableNames branches := by
  unfold ofBranches
  split
  · simp [allVariableNames]
  · rw [variableNames]

theorem spelled_ofParts (each : ∀ tree ∈ trees, tree.Spelled) : (ofParts trees).Spelled := by
  unfold ofParts
  split
  · exact each _ List.mem_cons_self
  · next several =>
    intro inner mem
    rw [subtrees, List.mem_cons, mem_allSubtrees] at mem
    rcases mem with rfl | ⟨part, mem, below⟩
    · intro one
      obtain ⟨part, rfl⟩ := List.length_eq_one_iff.mp one
      exact several part rfl
    · exact each part mem inner below

theorem spelled_ofBranches (some : trees ≠ []) (each : ∀ tree ∈ trees, tree.Spelled) :
    (ofBranches trees).Spelled := by
  unfold ofBranches
  split
  · exact each _ List.mem_cons_self
  · next several =>
    intro inner mem
    rw [subtrees, List.mem_cons, mem_allSubtrees] at mem
    rcases mem with rfl | ⟨branch, mem, below⟩
    · have more : trees.length ≠ 1 := fun one => by
        obtain ⟨branch, rfl⟩ := List.length_eq_one_iff.mp one
        exact several branch rfl
      have several' : 0 < trees.length := List.length_pos_iff.mpr some
      simp only [IsSpelled]
      omega
    · exact each branch mem inner below

end Tree

namespace Phrase

def opener (name : String) : String := "(?P<" ++ name ++ ">"

/-- The tree has the operands among the texts for leaves, an opener for each variable, and the nodes
of phrases. -/
structure Bears (texts : List String) (tree : Tree) : Prop where
  leaves : tree.leaves = texts.filter (IsOperand ·)
  named : ∀ name ∈ tree.variableNames, opener name ∈ texts
  spelled : tree.Spelled

structure BearsAll (texts : List String) (trees : List Tree) : Prop where
  leaves : Tree.allLeaves trees = texts.filter (IsOperand ·)
  named : ∀ name ∈ Tree.allVariableNames trees, opener name ∈ texts
  spelled : ∀ tree ∈ trees, tree.Spelled

theorem BearsAll.ofParts {texts : List String} {parts : List Tree} (bears : BearsAll texts parts) :
    Bears texts (.ofParts parts) where
  leaves := (Tree.leaves_ofParts parts).trans bears.leaves
  named := by
    rw [Tree.variableNames_ofParts]
    exact bears.named
  spelled := Tree.spelled_ofParts bears.spelled

theorem BearsAll.ofBranches {texts : List String} {branches : List Tree} (some : branches ≠ [])
    (bears : BearsAll texts branches) : Bears texts (.ofBranches branches) where
  leaves := (Tree.leaves_ofBranches branches).trans bears.leaves
  named := by
    rw [Tree.variableNames_ofBranches]
    exact bears.named
  spelled := Tree.spelled_ofBranches some bears.spelled

theorem bearsAll_nil : BearsAll [] [] := ⟨rfl, by simp [Tree.allVariableNames], by simp⟩

theorem Bears.cons {first rest : List String} {tree : Tree} {trees : List Tree}
    (bears : Bears first tree) (others : BearsAll rest trees) :
    BearsAll (first ++ rest) (tree :: trees) where
  leaves := by rw [Tree.allLeaves, bears.leaves, others.leaves, List.filter_append]
  named name mem := by
    rw [Tree.allVariableNames, List.mem_append] at mem
    exact List.mem_append.mpr (mem.imp (bears.named name) (others.named name))
  spelled := List.forall_mem_cons.mpr ⟨bears.spelled, others.spelled⟩

theorem BearsAll.structural {texts : List String} {text : String} {trees : List Tree}
    (bears : BearsAll texts trees) (structural : ¬IsOperand text) :
    BearsAll (text :: texts) trees where
  leaves := by simpa [structural] using bears.leaves
  named name mem := List.mem_cons_of_mem _ (bears.named name mem)
  spelled := bears.spelled

theorem Opener.bears {opener : String} {enclosure : Enclosure} {texts : List String} {body : Tree}
    (opens : Opener opener enclosure) (bears : Bears texts body) :
    Bears (opener :: (texts ++ [")"])) (enclosure.enclose body) := by
  have closing : ¬IsOperand ")" := by simp [IsOperand]
  have operands : body.leaves = (opener :: (texts ++ [")"])).filter (IsOperand ·) := by
    simp [opens.not_isOperand, closing, bears.leaves]
  have inside : ∀ name ∈ body.variableNames, Phrase.opener name ∈ opener :: (texts ++ [")"]) :=
    fun name mem => by simp [bears.named name mem]
  cases opens with
  | bare | plain => exact ⟨operands, inside, bears.spelled⟩
  | negativeLook =>
    refine ⟨operands, inside, fun inner mem => ?_⟩
    rcases List.mem_cons.mp mem with rfl | below
    · rfl
    · exact bears.spelled inner below
  | named some =>
    refine ⟨operands, fun other mem => ?_, fun inner mem => ?_⟩
    · rcases List.mem_cons.mp mem with rfl | below
      · exact List.mem_cons_self
      · exact inside other below
    · rcases List.mem_cons.mp mem with rfl | below
      · exact some
      · exact bears.spelled inner below

mutual

theorem Atom.bears {texts : List String} {part : Tree} (atom : Atom texts part) :
    Bears texts part := by
  match atom with
  | .leaf operand lowered =>
    refine ⟨by simp [Tree.leaves, operand], by simp [Tree.variableNames], fun inner mem => ?_⟩
    obtain rfl := List.mem_singleton.mp mem
    exact ⟨operand, _, lowered⟩
  | .group opens body => exact opens.bears (body.bears.ofBranches body.ne_nil)

theorem Term.bears {texts : List String} {part : Tree} (term : Term texts part) :
    Bears texts part := by
  match term with
  | .atom alone => exact alone.bears
  | .repeated term repeats =>
    have inside := term.bears
    refine ⟨?_, fun name mem => List.mem_append_left _ (inside.named name mem),
      fun inner mem => ?_⟩
    · rw [Tree.leaves, inside.leaves]
      simp [repeats.not_isOperand]
    · rcases List.mem_cons.mp mem with rfl | below
      · exact ⟨_, repeats⟩
      · exact inside.spelled inner below

theorem Sequence.bears {texts : List String} {parts : List Tree}
    (sequence : Sequence texts parts) : BearsAll texts parts := by
  match sequence with
  | .nil => exact bearsAll_nil
  | .cons term later => exact term.bears.cons later.bears

theorem Choice.bears {texts : List String} {branches : List Tree}
    (choice : Choice texts branches) : BearsAll texts branches := by
  match choice with
  | .last sequence => simpa using sequence.bears.ofParts.cons bearsAll_nil
  | .bar sequence later =>
    exact sequence.bears.ofParts.cons (later.bears.structural (by simp [IsOperand]))

end

theorem Expression.bears {texts : List String} {tree : Tree} (expression : Expression texts tree) :
    Bears texts tree := by
  obtain ⟨branches, choice, rfl⟩ := expression
  exact choice.bears.ofBranches choice.ne_nil

end Phrase

end LineGrammar
