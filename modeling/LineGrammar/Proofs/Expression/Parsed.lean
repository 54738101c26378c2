import LineGrammar.Proofs.Tree.Basic

/-! Trees that are read from expressions. What the reader does with a token is a step of one of five
kinds. What has been read stands on the level of the innermost open group and on the levels around
it; every tree there has tokens for leaves, a branch in each choice and possible bounds at each
repetition. A step keeps that, so the tree that is read in the end has it as well. -/

namespace LineGrammar

namespace Tree

def IsNode : Tree → Prop
  | .choice branches => branches ≠ []
  | .sequence _ => True
  | .leaf text => Leaf.IsToken text
  | .look _ _ => True
  | .variable _ _ => True
  | .repeated _ repetition => repetition.WellFormed

def Parsed (root : Tree) : Prop := ∀ inner ∈ root.subtrees, inner.IsNode

variable {root body : Tree} {trees : List Tree}

theorem Parsed.wellFormed (parsed : root.Parsed)
    (notBare : ∀ text, leaf text ∈ root.subtrees → ¬Leaf.IsBareEscape text) : root.WellFormed where
  token _ mem := parsed _ mem
  notBare := notBare
  branches mem := parsed _ mem rfl
  bounds _ _ mem := parsed _ mem

theorem parsed_sequence (each : ∀ tree ∈ trees, tree.Parsed) : (sequence trees).Parsed := by
  intro inner mem
  rw [subtrees, List.mem_cons, mem_allSubtrees] at mem
  rcases mem with rfl | ⟨part, mem, below⟩
  · trivial
  · exact each part mem inner below

theorem parsed_choice (some : trees ≠ []) (each : ∀ tree ∈ trees, tree.Parsed) :
    (choice trees).Parsed := by
  intro inner mem
  rw [subtrees, List.mem_cons, mem_allSubtrees] at mem
  rcases mem with rfl | ⟨branch, mem, below⟩
  · exact some
  · exact each branch mem inner below

theorem parsed_leaf {text : String} (isToken : Leaf.IsToken text) : (leaf text).Parsed := by
  intro inner mem
  obtain rfl := List.mem_singleton.mp mem
  exact isToken

theorem Parsed.repeated {repetition : Repetition} (parsed : body.Parsed)
    (bounded : repetition.WellFormed) : (Tree.repeated body repetition).Parsed := by
  intro inner mem
  rcases List.mem_cons.mp mem with rfl | below
  · exact bounded
  · exact parsed inner below

theorem Parsed.enclose (parsed : body.Parsed) (enclosure : Enclosure) :
    (enclosure.enclose body).Parsed := by
  match enclosure with
  | .plain => exact parsed
  | .negativeLook | .variable _ =>
    intro inner mem
    rcases List.mem_cons.mp mem with rfl | below
    · trivial
    · exact parsed inner below

theorem parsed_ofParts (each : ∀ tree ∈ trees, tree.Parsed) : (ofParts trees).Parsed := by
  unfold ofParts
  split
  · exact each _ List.mem_cons_self
  · exact parsed_sequence each

theorem parsed_ofBranches (some : trees ≠ []) (each : ∀ tree ∈ trees, tree.Parsed) :
    (ofBranches trees).Parsed := by
  unfold ofBranches
  split
  · exact each _ List.mem_cons_self
  · exact parsed_choice some each

end Tree

theorem Token.wellFormed_of_role {token : Token} {repetition : Repetition}
    (sign : token.role = .quantifier repetition) : repetition.WellFormed := by
  unfold role at sign
  iterate 10
    rcases ite_eq_iff.mp sign with ⟨-, eq⟩ | ⟨-, sign⟩
    · cases eq <;>
        exact ⟨by simp, by simp [Pattern.largestCount], by simp [Pattern.largestCount]⟩
  rcases ite_eq_iff.mp sign with ⟨-, eq⟩ | ⟨-, sign⟩
  · split at eq <;> cases eq
  rcases ite_eq_iff.mp sign with ⟨-, eq⟩ | ⟨-, sign⟩
  · cases eq
  rcases ite_eq_iff.mp sign with ⟨-, eq⟩ | ⟨-, eq⟩ <;> cases eq

namespace Parsing

/-- What the reader does with a token that it does not refuse. -/
inductive Step (token : Token) : Parsing → Parsing → Prop
  | bar {groups : List OpenGroup} {level : Level} (role : token.role = .bar) :
    Step token ⟨groups, level⟩ ⟨groups, level.nextBranch⟩
  | closing {group : OpenGroup} {outer : List OpenGroup} {level : Level}
    (role : token.role = .closing) :
    Step token ⟨group :: outer, level⟩
      ⟨outer, group.outside.push (group.enclosure.enclose level.body)⟩
  | quantifier {groups : List OpenGroup} {branches before : List Tree} {part : Tree}
    {repetition : Repetition} (role : token.role = .quantifier repetition) :
    Step token ⟨groups, ⟨branches, part :: before⟩⟩
      ⟨groups, ⟨branches, .repeated part repetition :: before⟩⟩
  | opening {groups : List OpenGroup} {level : Level} {enclosure : Enclosure}
    (role : token.role = .opening enclosure) :
    Step token ⟨groups, level⟩ ⟨⟨token.position, enclosure, level⟩ :: groups, .blank⟩
  | leaf {groups : List OpenGroup} {level : Level} {source : String} (role : token.role = .leaf)
    (lowered : Leaf.native token.text = .ok source) :
    Step token ⟨groups, level⟩ ⟨groups, level.push (.leaf token.text)⟩

section Steps

variable {token : Token} {rest : List Token} {parsing next : Parsing}

theorem step_eq_ok : parsing.step token = .ok next ↔ Step token parsing next := by
  constructor
  · intro stepped
    unfold step at stepped
    obtain ⟨groups, branches, parts⟩ := parsing
    cases role : token.role with
    | bar =>
      rw [role] at stepped
      obtain rfl := Except.ok.inj stepped
      exact .bar role
    | closing =>
      rw [role] at stepped
      cases groups with
      | nil => simp at stepped
      | cons group outer =>
        obtain rfl := Except.ok.inj stepped
        exact .closing role
    | quantifier repetition =>
      rw [role] at stepped
      cases parts with
      | nil => simp at stepped
      | cons part before =>
        obtain rfl := Except.ok.inj stepped
        exact .quantifier role
    | opening enclosure =>
      rw [role] at stepped
      obtain rfl := Except.ok.inj stepped
      exact .opening role
    | nameless | foreign => simp [role] at stepped
    | leaf =>
      simp only [role] at stepped
      cases lowered : Leaf.native token.text with
      | error error => simp [lowered] at stepped
      | ok source =>
        rw [lowered] at stepped
        obtain rfl := Except.ok.inj stepped
        exact .leaf role lowered
  · intro steps
    cases steps with
    | bar role | closing role | quantifier role | opening role => rw [step, role]
    | leaf role lowered => rw [step, role, lowered]

theorem run_cons_eq_ok :
    parsing.run (token :: rest) = .ok next ↔
      ∃ middle, Step token parsing middle ∧ middle.run rest = .ok next := by
  rw [run]
  cases stepped : parsing.step token with
  | error error =>
    have refused : ∀ middle, ¬Step token parsing middle := fun middle steps => by
      rw [← step_eq_ok, stepped] at steps
      cases steps
    simp [refused]
  | ok middle =>
    have alone : ∀ other, Step token parsing other ↔ middle = other := fun other => by
      rw [← step_eq_ok, stepped, Except.ok.injEq]
    simp [alone]

end Steps

structure Level.Parsed (level : Level) : Prop where
  branches : ∀ branch ∈ level.branches, branch.Parsed
  parts : ∀ part ∈ level.parts, part.Parsed

variable {level : Level} {part : Tree}

theorem Level.parsed_blank : Level.blank.Parsed := ⟨by simp [blank], by simp [blank]⟩

theorem Level.Parsed.push (parsed : level.Parsed) (parsed' : part.Parsed) :
    (level.push part).Parsed :=
  ⟨parsed.branches, List.forall_mem_cons.mpr ⟨parsed', parsed.parts⟩⟩

theorem Level.Parsed.nextBranch (parsed : level.Parsed) : level.nextBranch.Parsed where
  branches := by
    refine List.forall_mem_cons.mpr ⟨Tree.parsed_ofParts fun tree mem => ?_, parsed.branches⟩
    exact parsed.parts tree (List.mem_reverse.mp mem)
  parts := by simp [Level.nextBranch]

theorem Level.Parsed.body (parsed : level.Parsed) : level.body.Parsed := by
  refine Tree.parsed_ofBranches (by simp [Level.nextBranch]) fun tree mem => ?_
  exact parsed.nextBranch.branches tree (List.mem_reverse.mp mem)

structure Parsed (parsing : Parsing) : Prop where
  level : parsing.level.Parsed
  groups : ∀ group ∈ parsing.groups, group.outside.Parsed

variable {expression : String} {tokens : List Token} {parsing next : Parsing}

theorem Parsed.step (parsed : parsing.Parsed) (split : tokenize expression = .ok tokens)
    {token : Token} (mem : token ∈ tokens) (step : Step token parsing next) : next.Parsed := by
  obtain ⟨level, groups⟩ := parsed
  cases step with
  | bar => exact ⟨level.nextBranch, groups⟩
  | closing =>
    rw [List.forall_mem_cons] at groups
    exact ⟨groups.1.push (level.body.enclose _), groups.2⟩
  | quantifier role =>
    have parts := List.forall_mem_cons.mp level.parts
    have repeated := parts.1.repeated (Token.wellFormed_of_role role)
    exact ⟨⟨level.branches, List.forall_mem_cons.mpr ⟨repeated, parts.2⟩⟩, groups⟩
  | opening => exact ⟨Level.parsed_blank, List.forall_mem_cons.mpr ⟨level, groups⟩⟩
  | @leaf _ _ source role lowered =>
    have isToken : Leaf.IsToken token.text :=
      ⟨expression, tokens, split, token, mem, rfl, role, source, lowered⟩
    exact ⟨level.push (Tree.parsed_leaf isToken), groups⟩

theorem Parsed.run (parsed : parsing.Parsed) (split : tokenize expression = .ok tokens)
    {rest : List Token} (among : rest ⊆ tokens) (run : parsing.run rest = .ok next) :
    next.Parsed := by
  induction rest generalizing parsing with
  | nil =>
    obtain rfl := Except.ok.inj run
    exact parsed
  | cons token rest ih =>
    obtain ⟨mem, among'⟩ := List.cons_subset.mp among
    obtain ⟨middle, step, run⟩ := run_cons_eq_ok.mp run
    exact ih (parsed.step split mem step) among' run

end Parsing

theorem Tree.parsed_of_ofExpression {expression : String} {root : Tree}
    (read : ofExpression expression = .ok root) : root.Parsed := by
  obtain ⟨tokens, split, read⟩ := bind_eq_ok.mp read
  obtain ⟨parsing, run, finished⟩ := bind_eq_ok.mp read
  have started : Parsing.start.Parsed := ⟨Parsing.Level.parsed_blank, by simp [Parsing.start]⟩
  have parsed := started.run split (List.Subset.refl tokens) run
  unfold Parsing.finish at finished
  split at finished
  · obtain rfl := Except.ok.inj finished
    exact parsed.level.body
  · simp at finished

end LineGrammar
