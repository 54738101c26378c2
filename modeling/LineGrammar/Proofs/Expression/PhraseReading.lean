import LineGrammar.Proofs.Expression.Parsed
import LineGrammar.Proofs.Expression.Phrases

/-! Tokens are read as a tree exactly when their texts are an expression for it. Reading keeps, for
every level that is still open, what its branches and parts were spelled by, so a tree that is read
is spelled by the tokens. Conversely a phrase takes the reader from any place to the one behind its
tree. -/

namespace LineGrammar

namespace Parsing

open Phrase (Term Sign Opener Choice)

inductive PartsSpelled : List String → List Tree → Prop
  | nil : PartsSpelled [] []
  | push {before last : List String} {parts : List Tree} {part : Tree}
    (earlier : PartsSpelled before parts) (term : Term last part) :
    PartsSpelled (before ++ last) (part :: parts)

inductive BranchesSpelled : List String → List Tree → Prop
  | nil : BranchesSpelled [] []
  | next {before texts : List String} {branches parts : List Tree}
    (earlier : BranchesSpelled before branches) (spelled : PartsSpelled texts parts) :
    BranchesSpelled (before ++ (texts ++ ["|"])) (.ofParts parts.reverse :: branches)

/-- What has been read on a level since it was entered. -/
inductive Level.Spelled : List String → Level → Prop
  | mk {before texts : List String} {branches parts : List Tree}
    (earlier : BranchesSpelled before branches) (spelled : PartsSpelled texts parts) :
    Level.Spelled (before ++ texts) ⟨branches, parts⟩

inductive GroupsSpelled : List String → List OpenGroup → Prop
  | nil : GroupsSpelled [] []
  | enter {before outside : List String} {groups : List OpenGroup} {level : Level}
    {opener : String} {enclosure : Enclosure} {position : Nat}
    (earlier : GroupsSpelled before groups) (around : level.Spelled outside)
    (opens : Opener opener enclosure) :
    GroupsSpelled (before ++ (outside ++ [opener])) (⟨position, enclosure, level⟩ :: groups)

inductive Spelled : List String → Parsing → Prop
  | mk {before inside : List String} {groups : List OpenGroup} {level : Level}
    (outer : GroupsSpelled before groups) (inner : level.Spelled inside) :
    Spelled (before ++ inside) ⟨groups, level⟩

variable {texts last : List String} {part : Tree} {parts branches : List Tree} {level : Level}

theorem PartsSpelled.sequence (spelled : PartsSpelled texts parts) :
    Phrase.Sequence texts parts.reverse := by
  induction spelled with
  | nil => exact .nil
  | push earlier term ih =>
    rw [List.reverse_cons]
    exact ih.append (.one term)

theorem BranchesSpelled.choice (spelled : BranchesSpelled texts branches) {later : List Tree}
    (choice : Choice last later) : Choice (texts ++ last) (branches.reverse ++ later) := by
  induction spelled generalizing last later with
  | nil => exact choice
  | next earlier parts ih =>
    have longer := ih (.bar parts.sequence choice)
    simpa using longer

namespace Level

theorem spelled_blank : blank.Spelled [] := .mk .nil .nil

theorem Spelled.push (spelled : level.Spelled texts) (term : Term last part) :
    (level.push part).Spelled (texts ++ last) := by
  obtain ⟨earlier, parts⟩ := spelled
  rw [List.append_assoc]
  exact .mk earlier (.push parts term)

theorem Spelled.nextBranch (spelled : level.Spelled texts) :
    level.nextBranch.Spelled (texts ++ ["|"]) := by
  obtain ⟨earlier, parts⟩ := spelled
  rw [List.append_assoc, ← List.append_nil (_ ++ (_ ++ ["|"]))]
  exact .mk (.next earlier parts) .nil

theorem Spelled.repeated {sign : String} {repetition : Repetition}
    (spelled : Spelled texts ⟨branches, part :: parts⟩) (repeats : Sign sign repetition) :
    Spelled (texts ++ [sign]) ⟨branches, .repeated part repetition :: parts⟩ := by
  obtain ⟨earlier, parts⟩ := spelled
  cases parts with
  | push before term =>
    rw [List.append_assoc, List.append_assoc]
    exact .mk earlier (.push before (.repeated term repeats))

theorem Spelled.choice (spelled : level.Spelled texts) :
    Choice texts level.nextBranch.branches.reverse := by
  obtain ⟨earlier, parts⟩ := spelled
  rw [Level.nextBranch, List.reverse_cons]
  exact earlier.choice (.last parts.sequence)

end Level

variable {parsing next : Parsing} {token : Token} {tokens : List Token}

theorem spelled_start : Spelled [] start := .mk .nil Level.spelled_blank

theorem Spelled.step (spelled : parsing.Spelled texts) (step : Step token parsing next) :
    next.Spelled (texts ++ [token.text]) := by
  obtain @⟨before, inside, groups, level, outer, inner⟩ := spelled
  have plays := Token.plays_role token
  rw [List.append_assoc]
  cases step with
  | bar role =>
    rw [role] at plays
    cases plays with
    | bar eq => exact .mk outer (eq ▸ inner.nextBranch)
  | closing role =>
    rw [role] at plays
    cases plays with
    | closing eq =>
      cases outer with
      | enter earlier around opens =>
        have group := around.push (.atom (.group opens inner.choice))
        rw [← eq] at group
        simpa [Level.body] using Spelled.mk earlier group
  | quantifier role =>
    rw [role] at plays
    cases plays with
    | quantifier sign => exact .mk outer (inner.repeated sign)
  | opening role =>
    rw [role] at plays
    cases plays with
    | opening opens => simpa using Spelled.mk (.enter outer inner opens) Level.spelled_blank
  | leaf role lowered =>
    rw [role] at plays
    cases plays with
    | leaf operand => exact .mk outer (inner.push (.atom (.leaf operand lowered)))

theorem Spelled.run (spelled : parsing.Spelled texts) (run : parsing.run tokens = .ok next) :
    next.Spelled (texts ++ tokens.map (·.text)) := by
  induction tokens generalizing parsing texts with
  | nil =>
    obtain rfl := Except.ok.inj run
    simpa using spelled
  | cons token rest ih =>
    obtain ⟨middle, step, run⟩ := run_cons_eq_ok.mp run
    simpa using ih (spelled.step step) run

theorem Spelled.finish {tree : Tree} (spelled : parsing.Spelled texts)
    (finished : parsing.finish = .ok tree) : Phrase.Expression texts tree := by
  obtain ⟨outer, inner⟩ := spelled
  cases outer with
  | nil =>
    obtain rfl := Except.ok.inj finished
    exact ⟨_, inner.choice, rfl⟩
  | enter earlier around opens => simp [Parsing.finish] at finished

end Parsing

namespace Parsing

theorem run_append (parsing : Parsing) (first second : List Token) :
    parsing.run (first ++ second) = (parsing.run first).bind (·.run second) := by
  induction first generalizing parsing with
  | nil => rfl
  | cons token rest ih =>
    rw [List.cons_append, run, run]
    cases parsing.step token with
    | error error => rfl
    | ok next => exact ih next

/-- Tokens with these texts take the reader from one place to the other. -/
def Leads (texts : List String) (parsing next : Parsing) : Prop :=
  ∀ tokens : List Token, tokens.map (·.text) = texts → parsing.run tokens = .ok next

variable {text : String} {first rest : List String} {parsing middle next : Parsing}

theorem leads_nil (parsing : Parsing) : Leads [] parsing parsing := by
  intro tokens spelled
  obtain rfl := List.map_eq_nil_iff.mp spelled
  rfl

theorem leads_one (step : ∀ token : Token, token.text = text → Step token parsing next) :
    Leads [text] parsing next := by
  intro tokens spelled
  obtain ⟨token, rfl, same⟩ := List.map_eq_singleton_iff.mp spelled
  exact run_cons_eq_ok.mpr ⟨next, step token same, rfl⟩

theorem Leads.append (before : Leads first parsing middle) (after : Leads rest middle next) :
    Leads (first ++ rest) parsing next := by
  intro tokens spelled
  obtain ⟨tokens, later, rfl, spelled, spelled'⟩ := List.map_eq_append_iff.mp spelled
  rw [run_append, before tokens spelled]
  exact after later spelled'

def push (parsing : Parsing) (part : Tree) : Parsing :=
  { parsing with level := parsing.level.push part }

end Parsing

namespace Phrase

open Parsing (Leads leads_nil leads_one)

mutual

theorem Atom.leads {texts : List String} {part : Tree} (atom : Atom texts part)
    (parsing : Parsing) : Leads texts parsing (parsing.push part) := by
  match atom with
  | .leaf operand lowered =>
    refine leads_one fun token same => ?_
    subst same
    exact .leaf operand.role lowered
  | @Atom.group _ enclosure _ branches opens body =>
    intro tokens spelled
    obtain ⟨opener, later, rfl, same, inner⟩ := List.map_eq_cons_iff.mp spelled
    subst same
    obtain ⟨level, inside, made⟩ :=
      body.leads (⟨opener.position, enclosure, parsing.level⟩ :: parsing.groups) []
    have left : Leads [")"] ⟨⟨opener.position, enclosure, parsing.level⟩ :: parsing.groups, level⟩
        (parsing.push (enclosure.enclose (.ofBranches branches))) := by
      refine leads_one fun token same => ?_
      have closes : Parsing.Step token
          ⟨⟨opener.position, enclosure, parsing.level⟩ :: parsing.groups, level⟩
          (parsing.push (enclosure.enclose level.body)) := .closing (role_of_closing same)
      rwa [Parsing.Level.body, made] at closes
    exact Parsing.run_cons_eq_ok.mpr ⟨_, .opening opens.role, inside.append left later inner⟩

theorem Term.leads {texts : List String} {part : Tree} (term : Term texts part)
    (parsing : Parsing) : Leads texts parsing (parsing.push part) := by
  match term with
  | .atom alone => exact alone.leads parsing
  | .repeated term repeats =>
    refine (term.leads parsing).append (leads_one fun token same => ?_)
    subst same
    exact .quantifier repeats.role

theorem Sequence.leads {texts : List String} {parts : List Tree} (sequence : Sequence texts parts)
    (groups : List Parsing.OpenGroup) (branches before : List Tree) :
    Leads texts ⟨groups, ⟨branches, before⟩⟩ ⟨groups, ⟨branches, parts.reverse ++ before⟩⟩ := by
  match sequence with
  | .nil => exact leads_nil _
  | @Sequence.cons _ _ part _ term later =>
    have continues := later.leads groups branches (part :: before)
    rw [List.reverse_cons, List.append_assoc]
    exact (term.leads ⟨groups, ⟨branches, before⟩⟩).append continues

theorem Choice.leads {texts : List String} {branches : List Tree} (choice : Choice texts branches)
    (groups : List Parsing.OpenGroup) (before : List Tree) :
    ∃ level, Leads texts ⟨groups, ⟨before, []⟩⟩ ⟨groups, level⟩ ∧
      level.nextBranch.branches.reverse = before.reverse ++ branches := by
  match choice with
  | .last sequence =>
    exact ⟨_, sequence.leads groups before [], by simp [Parsing.Level.nextBranch]⟩
  | @Choice.bar _ _ parts _ sequence later =>
    obtain ⟨level, continues, made⟩ := later.leads groups (.ofParts parts :: before)
    have passed : Leads ["|"] ⟨groups, ⟨before, parts.reverse ++ []⟩⟩
        ⟨groups, ⟨.ofParts parts :: before, []⟩⟩ := by
      refine leads_one fun token same => ?_
      have passes : Parsing.Step token ⟨groups, ⟨before, parts.reverse ++ []⟩⟩
          ⟨groups, Parsing.Level.nextBranch ⟨before, parts.reverse ++ []⟩⟩ :=
        .bar (role_of_bar same)
      simpa [Parsing.Level.nextBranch] using passes
    refine ⟨level, (sequence.leads groups before []).append (passed.append continues), ?_⟩
    simpa using made

end

end Phrase

variable {tokens : List Token} {tree : Tree}

theorem Tree.expression_of_ofTokens (read : ofTokens tokens = .ok tree) :
    Phrase.Expression (tokens.map (·.text)) tree := by
  obtain ⟨parsing, run, finished⟩ := bind_eq_ok.mp read
  exact (Parsing.spelled_start.run run).finish finished

theorem Phrase.Expression.ofTokens (expression : Expression (tokens.map (·.text)) tree) :
    Tree.ofTokens tokens = .ok tree := by
  obtain ⟨branches, choice, rfl⟩ := expression
  obtain ⟨level, leads, made⟩ := choice.leads [] []
  refine bind_eq_ok.mpr ⟨⟨[], level⟩, leads tokens rfl, ?_⟩
  rw [Parsing.finish, Parsing.Level.body, made]
  rfl

/-- Reading accepts just the tokens of expressions, and the tree has the shape of its expression: a
choice has several branches, a sequence none or several parts, and the operands among the tokens are
the leaves in their order. -/
theorem Tree.ofTokens_iff_expression (tokens : List Token) (tree : Tree) :
    (ofTokens tokens = .ok tree ↔ Phrase.Expression (tokens.map (·.text)) tree) ∧
      (Phrase.Expression (tokens.map (·.text)) tree →
        (∀ branches, choice branches ∈ tree.subtrees → 2 ≤ branches.length) ∧
        (∀ parts, sequence parts ∈ tree.subtrees → parts.length ≠ 1) ∧
        tree.leaves = (tokens.map (·.text)).filter (Phrase.IsOperand ·)) := by
  refine ⟨⟨expression_of_ofTokens, Phrase.Expression.ofTokens⟩, fun expression => ?_⟩
  have bears := expression.bears
  exact ⟨fun branches mem => bears.spelled _ mem, fun parts mem => bears.spelled _ mem,
    bears.leaves⟩

theorem Tree.expression_stacked :
    Phrase.Expression ["(?P<x>", "a", "|", ")", "*", "??", "b"]
      (.sequence [.repeated (.repeated (.variable "x" (.choice [.leaf "a", .empty]))
        ⟨0, none, true⟩) ⟨0, some 1, false⟩, .leaf "b"]) := by
  have read : ofTokens [⟨"(?P<x>", 0⟩, ⟨"a", 6⟩, ⟨"|", 7⟩, ⟨")", 8⟩, ⟨"*", 9⟩, ⟨"??", 11⟩,
      ⟨"b", 13⟩] = .ok (.sequence [.repeated (.repeated (.variable "x"
        (.choice [.leaf "a", .empty])) ⟨0, none, true⟩) ⟨0, some 1, false⟩, .leaf "b"]) := by
    have role : Token.role ⟨"(?P<x>", 0⟩ = .opening (.variable "x") := by
      simp [Token.role, Token.groupName?]
    simp only [Tree.ofTokens, Parsing.run, Parsing.step, role]
    cbv
  exact (ofTokens_iff_expression _ _).1.mp read

end LineGrammar
