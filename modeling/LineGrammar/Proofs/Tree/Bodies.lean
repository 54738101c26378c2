import LineGrammar.Grammar.Lowering
import LineGrammar.Proofs.Expression.LeafNative
import LineGrammar.Proofs.Tree.Basic

/-! The bodies that a tree is lowered to, put together without identifiers and without reading
pattern text: one for the whole language of the tree and a list for its beginnings. All of them
can be read wherever a term may stand. -/

namespace LineGrammar

structure BodyPart where
  hasVariable : Bool
  whole : Body
  beginnings : List Body

namespace BodyPart

def stopsInVariable (head : Body) : List BodyPart → List Body
  | [] => []
  | part :: rest =>
    (if part.hasVariable then part.beginnings.map (head.append ·) else []) ++
      stopsInVariable (head.append part.whole) rest

def merged : List Body → Body
  | [body] => body
  | bodies => .choice bodies

def stopsOutside : List BodyPart → Body
  | [] => .empty
  | part :: rest =>
    .choice (part.whole.append (stopsOutside rest) ::
      if part.hasVariable then [] else [.choice [merged part.beginnings]])

def sequenceBeginnings (parts : List BodyPart) : List Body :=
  if parts.isEmpty then [.empty]
  else
    stopsInVariable .empty parts ++
      if parts.any (!·.hasVariable) then [stopsOutside parts] else []

def choiceBeginnings (branches : List BodyPart) : List Body :=
  let apart := branches.flatMap fun branch => if branch.hasVariable then branch.beginnings else []
  let plain := branches.flatMap fun branch => if branch.hasVariable then [] else branch.beginnings
  apart ++ if plain.isEmpty then [] else [.choice plain]

end BodyPart

namespace Tree

mutual

/-- The body that matches the language of the tree. -/
def wholeBody : Tree → Body
  | .choice branches => .choice (wholeBodies branches)
  | .sequence parts => .concat (wholeBodies parts)
  | .leaf text => .ofLeaf text
  | .look negated body => body.wholeBody.look .forward negated
  | .variable name body => body.wholeBody.capture name
  | .repeated body repetition =>
    body.wholeBody.repeated repetition.quantifier.toList repetition

def wholeBodies : List Tree → List Body
  | [] => []
  | tree :: rest => tree.wholeBody :: wholeBodies rest

end

theorem wholeBodies_eq (trees : List Tree) : wholeBodies trees = trees.map wholeBody := by
  induction trees with
  | nil => rfl
  | cons tree rest ih => rw [wholeBodies, ih, List.map_cons]

mutual

/-- The bodies that together match the beginnings of the sentences of the tree. -/
def beginningBodies : Tree → List Body
  | .choice branches => BodyPart.choiceBeginnings (bodyParts branches)
  | .sequence parts => BodyPart.sequenceBeginnings (bodyParts parts)
  | .leaf text => [(Body.ofLeaf text).repeated ['?'] ⟨0, some 1, true⟩]
  | .look negated body => [body.wholeBody.look .forward negated]
  | .variable name body => body.beginningBodies.map (.capture name)
  | .repeated body repetition =>
    match repetition.max with
    | some 1 => body.beginningBodies
    | some 0 => [.empty]
    | _ => body.beginningBodies.map fun inner =>
      (body.wholeBody.repeated repetition.beforeLast.toList repetition.complete).append inner

def bodyParts : List Tree → List BodyPart
  | [] => []
  | tree :: rest =>
    ⟨tree.hasVariable, tree.wholeBody, tree.beginningBodies⟩ :: bodyParts rest

end

def bodyPart (tree : Tree) : BodyPart := ⟨tree.hasVariable, tree.wholeBody, tree.beginningBodies⟩

theorem bodyParts_eq (trees : List Tree) : bodyParts trees = trees.map bodyPart := by
  induction trees with
  | nil => rfl
  | cons tree rest ih => rw [bodyParts, ih, List.map_cons, bodyPart]

end Tree

structure Body.Joins (holds : Body → Prop) : Prop where
  empty : holds .empty
  append {first second : Body} : holds first → holds second → holds (first.append second)
  choice {bodies : List Body} : (∀ body ∈ bodies, holds body) → holds (.choice bodies)

/-- A property that bodies have when the bodies have it that they are put together from. -/
structure Body.Hereditary (holds : Body → Prop) : Prop extends Body.Joins holds where
  capture (name : String) {body : Body} : holds body → holds (body.capture name)
  repeated {sign : List Char} {repetition : Repetition} {body : Body} :
    Pattern.Spells sign repetition → repetition.isReversed = false → holds body →
      holds (body.repeated sign repetition)

theorem Body.Joins.concat {holds : Body → Prop} (joins : Joins holds)
    {bodies : List Body} (each : ∀ body ∈ bodies, holds body) : holds (.concat bodies) := by
  induction bodies with
  | nil => exact joins.empty
  | cons body rest ih =>
    exact joins.append (each body List.mem_cons_self)
      (ih fun body mem => each body (List.mem_cons_of_mem _ mem))

namespace BodyPart

structure All (holds : Body → Prop) (part : BodyPart) : Prop where
  whole : holds part.whole
  beginnings : ∀ body ∈ part.beginnings, holds body

variable {holds : Body → Prop} {parts : List BodyPart}

theorem all_stopsInVariable (joins : Body.Joins holds)
    (each : ∀ part ∈ parts, part.All holds) {head : Body} (before : holds head) :
    ∀ body ∈ stopsInVariable head parts, holds body := by
  induction parts generalizing head with
  | nil => simp [stopsInVariable]
  | cons part rest ih =>
    have first := each part List.mem_cons_self
    have others := ih (fun part mem => each part (List.mem_cons_of_mem _ mem))
      (joins.append before first.whole)
    intro body mem
    rw [stopsInVariable, List.mem_append] at mem
    rcases mem with mem | mem
    · split at mem
      · obtain ⟨inner, mem', rfl⟩ := List.mem_map.mp mem
        exact joins.append before (first.beginnings inner mem')
      · simp at mem
    · exact others body mem

theorem all_merged (joins : Body.Joins holds) {bodies : List Body}
    (each : ∀ body ∈ bodies, holds body) : holds (merged bodies) := by
  unfold merged
  split
  · exact each _ List.mem_cons_self
  · exact joins.choice each

theorem all_stopsOutside (joins : Body.Joins holds)
    (each : ∀ part ∈ parts, part.All holds) : holds (stopsOutside parts) := by
  induction parts with
  | nil => exact joins.empty
  | cons part rest ih =>
    have first := each part List.mem_cons_self
    have others := ih fun part mem => each part (List.mem_cons_of_mem _ mem)
    have last : holds (.choice [merged part.beginnings]) :=
      joins.choice (by simpa using all_merged joins first.beginnings)
    rw [stopsOutside]
    refine joins.choice fun body mem => ?_
    rcases List.mem_cons.mp mem with rfl | mem
    · exact joins.append first.whole others
    · split at mem
      · simp at mem
      · exact List.mem_singleton.mp mem ▸ last

theorem all_sequenceBeginnings (joins : Body.Joins holds)
    (each : ∀ part ∈ parts, part.All holds) : ∀ body ∈ sequenceBeginnings parts, holds body := by
  intro body mem
  unfold sequenceBeginnings at mem
  split at mem
  · exact List.mem_singleton.mp mem ▸ joins.empty
  · rcases List.mem_append.mp mem with mem | mem
    · exact all_stopsInVariable joins each joins.empty body mem
    · split at mem
      · exact List.mem_singleton.mp mem ▸ all_stopsOutside joins each
      · simp at mem

theorem all_choiceBeginnings (joins : Body.Joins holds)
    (each : ∀ part ∈ parts, part.All holds) : ∀ body ∈ choiceBeginnings parts, holds body := by
  have apart : ∀ body ∈ parts.flatMap (fun branch =>
      if branch.hasVariable then branch.beginnings else []), holds body := by
    intro body mem
    obtain ⟨part, mem', inside⟩ := List.mem_flatMap.mp mem
    split at inside
    · exact (each part mem').beginnings body inside
    · simp at inside
  have plain : ∀ body ∈ parts.flatMap (fun branch =>
      if branch.hasVariable then [] else branch.beginnings), holds body := by
    intro body mem
    obtain ⟨part, mem', inside⟩ := List.mem_flatMap.mp mem
    split at inside
    · simp at inside
    · exact (each part mem').beginnings body inside
  intro body mem
  unfold choiceBeginnings at mem
  rcases List.mem_append.mp mem with mem | mem
  · exact apart body mem
  · split at mem
    · simp at mem
    · exact List.mem_singleton.mp mem ▸ joins.choice plain

end BodyPart

namespace Tree

theorem spells_optional : Pattern.Spells ['?'] ⟨0, some 1, true⟩ := by
  have spelled := Repetition.spells_quantifier ⟨0, some 1, true⟩ (by simp)
    (by simp [Pattern.largestCount])
  simpa [Repetition.quantifier, Repetition.sign] using spelled

structure Grounds (holds : Body → Prop) (root : Tree) : Prop where
  leaf : ∀ text, leaf text ∈ root.subtrees → holds (.ofLeaf text)
  look : ∀ negated body, look negated body ∈ root.subtrees → holds body.wholeBody →
    holds (body.wholeBody.look .forward negated)
  bounds : ∀ body repetition, repeated body repetition ∈ root.subtrees → repetition.WellFormed

inductive Quantifies (root : Tree) : List Char → Repetition → Prop
  | optional : Quantifies root ['?'] ⟨0, some 1, true⟩
  | all {body : Tree} {repetition : Repetition} (mem : repeated body repetition ∈ root.subtrees) :
    Quantifies root repetition.quantifier.toList repetition
  | beforeLast {body : Tree} {repetition : Repetition}
    (mem : repeated body repetition ∈ root.subtrees) :
    Quantifies root repetition.beforeLast.toList repetition.complete

theorem Quantifies.of_subtree {root inner : Tree} {sign : List Char} {repetition : Repetition}
    (quantifies : inner.Quantifies sign repetition) (mem : inner ∈ root.subtrees) :
    root.Quantifies sign repetition := by
  cases quantifies with
  | optional => exact .optional
  | all below => exact .all (mem_subtrees_trans below mem)
  | beforeLast below => exact .beforeLast (mem_subtrees_trans below mem)

/-- The nodes of the tree keep two properties when its bodies are put together: one of the bodies
for whole languages, and a weaker one of those for beginnings. -/
structure Builds (strong weak : Body → Prop) (root : Tree) : Prop where
  whole : Body.Joins strong
  beginnings : Body.Joins weak
  weaken {body : Body} : strong body → weak body
  leaf : ∀ text, leaf text ∈ root.subtrees → strong (.ofLeaf text)
  look : ∀ negated body, look negated body ∈ root.subtrees → strong body.wholeBody →
    strong (body.wholeBody.look .forward negated)
  captureWhole : ∀ name body, Tree.variable name body ∈ root.subtrees → strong body.wholeBody →
    strong (body.wholeBody.capture name)
  captureBeginning : ∀ name body, Tree.variable name body ∈ root.subtrees →
    ∀ inner ∈ body.beginningBodies, weak inner → weak (inner.capture name)
  repeated : ∀ sign repetition body, root.Quantifies sign repetition → strong body →
    strong (body.repeated sign repetition)

section Builds

variable {strong weak : Body → Prop} {root tree : Tree}

theorem Builds.subtree (builds : root.Builds strong weak) (mem : tree ∈ root.subtrees) :
    tree.Builds strong weak where
  whole := builds.whole
  beginnings := builds.beginnings
  weaken := builds.weaken
  leaf text h := builds.leaf text (mem_subtrees_trans h mem)
  look negated body h := builds.look negated body (mem_subtrees_trans h mem)
  captureWhole name body h := builds.captureWhole name body (mem_subtrees_trans h mem)
  captureBeginning name body h := builds.captureBeginning name body (mem_subtrees_trans h mem)
  repeated sign repetition body h := builds.repeated sign repetition body (h.of_subtree mem)

theorem Builds.all (builds : tree.Builds strong weak) :
    strong tree.wholeBody ∧ tree.bodyPart.All weak := by
  have joins := builds.beginnings
  induction tree with
  | choice branches ih =>
    have each : ∀ branch ∈ branches, strong branch.wholeBody ∧ branch.bodyPart.All weak :=
      fun branch mem => ih branch mem (builds.subtree (branch_mem_subtrees mem))
    have whole : strong (choice branches).wholeBody := by
      refine builds.whole.choice ?_
      rw [wholeBodies_eq, List.forall_mem_map]
      exact fun branch mem => (each branch mem).1
    refine ⟨whole, builds.weaken whole, BodyPart.all_choiceBeginnings joins ?_⟩
    rw [bodyParts_eq, List.forall_mem_map]
    exact fun branch mem => (each branch mem).2
  | sequence parts ih =>
    have each : ∀ part ∈ parts, strong part.wholeBody ∧ part.bodyPart.All weak :=
      fun part mem => ih part mem (builds.subtree (part_mem_subtrees mem))
    have whole : strong (sequence parts).wholeBody := by
      refine builds.whole.concat ?_
      rw [wholeBodies_eq, List.forall_mem_map]
      exact fun part mem => (each part mem).1
    refine ⟨whole, builds.weaken whole, BodyPart.all_sequenceBeginnings joins ?_⟩
    rw [bodyParts_eq, List.forall_mem_map]
    exact fun part mem => (each part mem).2
  | leaf text =>
    have alone := builds.leaf text (self_mem_subtrees _)
    have optional := builds.weaken (builds.repeated _ _ _ .optional alone)
    exact ⟨alone, builds.weaken alone, fun body mem => List.mem_singleton.mp mem ▸ optional⟩
  | look negated body ih =>
    have inner := builds.look negated body (self_mem_subtrees _)
      (ih (builds.subtree look_body_mem_subtrees)).1
    have same := builds.weaken inner
    exact ⟨inner, same, fun body mem => List.mem_singleton.mp mem ▸ same⟩
  | named name body ih =>
    obtain ⟨whole, inner⟩ := ih (builds.subtree variable_body_mem_subtrees)
    have here := self_mem_subtrees (Tree.variable name body)
    have capture := builds.captureWhole name body here whole
    refine ⟨capture, builds.weaken capture, fun made mem => ?_⟩
    obtain ⟨beginning, mem', rfl⟩ := List.mem_map.mp mem
    exact builds.captureBeginning name body here _ mem' (inner.beginnings beginning mem')
  | repeated body repetition ih =>
    obtain ⟨whole, inner⟩ := ih (builds.subtree repeated_body_mem_subtrees)
    have here := self_mem_subtrees (.repeated body repetition)
    have all := builds.repeated _ _ _ (.all here) whole
    have before := builds.weaken (builds.repeated _ _ _ (.beforeLast here) whole)
    refine ⟨all, builds.weaken all, fun beginning mem => ?_⟩
    simp only [bodyPart, beginningBodies] at mem
    split at mem
    · exact inner.beginnings beginning mem
    · exact List.mem_singleton.mp mem ▸ joins.empty
    · obtain ⟨last, mem', rfl⟩ := List.mem_map.mp mem
      exact joins.append before (inner.beginnings last mem')

end Builds

theorem Grounds.builds {holds : Body → Prop} {tree : Tree} (grounds : tree.Grounds holds)
    (hereditary : Body.Hereditary holds) : tree.Builds holds holds where
  whole := hereditary.toJoins
  beginnings := hereditary.toJoins
  weaken := id
  leaf := grounds.leaf
  look := grounds.look
  captureWhole name _ _ inner := hereditary.capture name inner
  captureBeginning name _ _ _ _ inner := hereditary.capture name inner
  repeated sign repetition body quantifies inner := by
    cases quantifies with
    | optional => exact hereditary.repeated spells_optional rfl inner
    | all mem =>
      have bounded := grounds.bounds _ _ mem
      exact hereditary.repeated (Repetition.spells_quantifier repetition bounded.min_le
        bounded.max_le) bounded.isReversed inner
    | beforeLast mem =>
      have bounded := grounds.bounds _ _ mem
      exact hereditary.repeated (Repetition.spells_beforeLast bounded.max_le)
        (by simp [Repetition.isReversed, Repetition.complete]) inner

theorem Grounds.all {holds : Body → Prop} {tree : Tree} (grounds : tree.Grounds holds)
    (hereditary : Body.Hereditary holds) : tree.bodyPart.All holds :=
  (grounds.builds hereditary).all.2

def Accepted (text : String) : Prop :=
  ¬Leaf.IsNull text ∧
    ∃ source term, Leaf.native text = .ok source ∧ Pattern.read source = .ok term

variable {strict : Prop}

structure Lowers (strict : Prop) (root : Tree) : Prop where
  wellFormed : root.WellFormed
  accepted : strict → ∀ text, leaf text ∈ root.subtrees → Accepted text

theorem Lowers.subtree {root inner : Tree} (lowers : root.Lowers strict)
    (mem : inner ∈ root.subtrees) : inner.Lowers strict where
  wellFormed := lowers.wellFormed.subtree mem
  accepted holds text h := lowers.accepted holds text (mem_subtrees_trans h mem)

theorem Lowers.ofLeaf {text : String} (lowers : (leaf text).Lowers strict) :
    (Body.ofLeaf text).Readable strict :=
  have mem : leaf text ∈ (leaf text).subtrees := self_mem_subtrees _
  Body.readable_ofLeaf (lowers.wellFormed.token text mem) (lowers.wellFormed.notBare text mem)
    fun holds => lowers.accepted holds text mem

theorem hereditary_readable : Body.Hereditary (Body.Readable strict) where
  empty := Body.readable_empty
  append := .append
  choice each := Body.readable_choice fun body mem => (each body mem).enclosable
  capture name _ h := h.enclosable.capture name
  repeated spells ordered h := h.enclosable.repeated spells ordered

theorem Lowers.grounds {tree : Tree} (lowers : tree.Lowers strict) :
    tree.Grounds (Body.Readable strict) where
  leaf _ mem := (lowers.subtree mem).ofLeaf
  look negated _ _ readable := readable.enclosable.look .forward negated
  bounds := lowers.wellFormed.bounds

theorem readable_bodyPart {tree : Tree} (lowers : tree.Lowers strict) :
    tree.bodyPart.All (Body.Readable strict) :=
  lowers.grounds.all hereditary_readable

end Tree

end LineGrammar
