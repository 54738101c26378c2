import LineGrammar.Proofs.Expression.Phrases
import LineGrammar.Proofs.Grammar.Acceptance

/-! What a tree is rendered to, token by token. Rendering drops the groups around sequences, so the
texts are a phrase not for the tree itself but for its flat form, in which the terms of a sequence
within a sequence have become terms of the outer one. The flat form is rendered to the same texts
and lowered to the same body. -/

namespace LineGrammar.Tree

open Phrase (Sequence Choice Term Atom)

mutual

def spelling : Tree → List String
  | .choice branches => "(?:" :: (["|"].intercalate (spellings branches) ++ [")"])
  | .sequence parts => (spellings parts).flatten
  | .leaf text => [text]
  | .look negated body => (if negated then "(?!" else "(?=") :: (body.spelling ++ [")"])
  | .variable name body => Phrase.opener name :: (body.spelling ++ [")"])
  | .repeated body repetition => "(?:" :: (body.spelling ++ [")", repetition.quantifier])

def spellings : List Tree → List (List String)
  | [] => []
  | tree :: rest => tree.spelling :: spellings rest

end

mutual

def terms : Tree → List Tree
  | .choice branches => [.choice (flats branches)]
  | .sequence parts => allTerms parts
  | .leaf text => [.leaf text]
  | .look negated body => [.look negated (.ofParts body.terms)]
  | .variable name body => [.variable name (.ofParts body.terms)]
  | .repeated body repetition => [.repeated (.ofParts body.terms) repetition]

def allTerms : List Tree → List Tree
  | [] => []
  | tree :: rest => tree.terms ++ allTerms rest

def flats : List Tree → List Tree
  | [] => []
  | tree :: rest => .ofParts tree.terms :: flats rest

end

/-- The tree without sequences that are parts of sequences. -/
def flat (tree : Tree) : Tree := .ofParts tree.terms

variable {tree : Tree} {trees parts branches : List Tree}

theorem spellings_eq (trees : List Tree) : spellings trees = trees.map spelling := by
  induction trees with
  | nil => rfl
  | cons tree rest ih => rw [spellings, ih, List.map_cons]

theorem flats_eq (trees : List Tree) : flats trees = trees.map flat := by
  induction trees with
  | nil => rfl
  | cons tree rest ih => rw [flats, ih, List.map_cons, flat]

theorem flatMap_intercalate (bar : String) (texts : List (List String)) :
    ([bar].intercalate texts).flatMap String.toList =
      bar.toList.intercalate (texts.map (·.flatMap String.toList)) := by
  match texts with
  | [] => rfl
  | [text] => simp
  | first :: second :: rest =>
    have ih := flatMap_intercalate bar (second :: rest)
    simp only [List.intercalate_cons_cons, List.map_cons, List.flatMap_append,
      List.flatMap_singleton] at ih ⊢
    rw [ih]

theorem flatMap_spelling (tree : Tree) :
    tree.spelling.flatMap String.toList = tree.render.toList := by
  have all {trees : List Tree}
      (each : ∀ tree ∈ trees, tree.spelling.flatMap String.toList = tree.render.toList) :
      (spellings trees).map (·.flatMap String.toList) = (renderAll trees).map String.toList := by
    induction trees with
    | nil => rfl
    | cons tree rest ih =>
      have others := ih fun tree mem => each tree (List.mem_cons_of_mem _ mem)
      rw [spellings, renderAll, List.map_cons, List.map_cons, each tree List.mem_cons_self, others]
  induction tree with
  | choice branches ih =>
    simp [spelling, render, flatMap_intercalate, all ih, String.toList_intercalate]
  | sequence parts ih =>
    have same := congrArg List.flatten (all ih)
    simpa [spelling, render, List.flatMap_def, List.map_flatten, List.flatten_flatten,
      Function.comp_def] using same
  | leaf text => simp [spelling, render]
  | look negated body ih => simp [spelling, render, ih]
  | named name body ih => simp [spelling, render, ih, Phrase.opener]
  | repeated body repetition ih => simp [spelling, render, ih]

theorem choice_flats {branches : List Tree} (some : branches ≠ [])
    (each : ∀ branch ∈ branches, Sequence branch.spelling branch.terms) :
    Choice (["|"].intercalate (spellings branches)) (flats branches) := by
  match branches with
  | [branch] => simpa [spellings, flats] using Choice.last (each branch List.mem_cons_self)
  | first :: second :: rest =>
    have others : second :: rest ≠ [] := by simp
    have later := choice_flats others fun branch mem => each branch (List.mem_cons_of_mem _ mem)
    rw [spellings, spellings, List.intercalate_cons_cons, ← spellings, flats]
    simpa using Choice.bar (each first List.mem_cons_self) later

theorem Spelled.part {inner : Tree} (spelled : tree.Spelled) (mem : inner ∈ tree.subtrees) :
    inner.Spelled := fun _ below => spelled _ (mem_subtrees_trans below mem)

theorem Spelled.sequence (spelled : tree.Spelled) : Sequence tree.spelling tree.terms := by
  induction tree with
  | choice branches ih =>
    have several : 2 ≤ branches.length := spelled _ (self_mem_subtrees _)
    have some : branches ≠ [] := by
      rintro rfl
      simp at several
    have inside := choice_flats some fun branch mem =>
      ih branch mem (spelled.part (branch_mem_subtrees mem))
    have whole : ofBranches (flats branches) = .choice (flats branches) := by
      match branches with
      | _ :: _ :: _ => rfl
    exact Sequence.one (.atom (whole ▸ .group .plain inside))
  | sequence parts ih =>
    have each (part : Tree) (mem : part ∈ parts) : Sequence part.spelling part.terms :=
      ih part mem (spelled.part (part_mem_subtrees mem))
    clear ih spelled
    rw [spelling, terms]
    induction parts with
    | nil => exact .nil
    | cons part rest ih =>
      rw [spellings, List.flatten_cons, allTerms]
      exact (each part List.mem_cons_self).append
        (ih fun part mem => each part (List.mem_cons_of_mem _ mem))
  | leaf text =>
    obtain ⟨operand, source, lowered⟩ := spelled _ (self_mem_subtrees _)
    exact Sequence.one (.atom (.leaf operand lowered))
  | look negated body ih =>
    obtain rfl : negated = true := spelled _ (self_mem_subtrees _)
    have inside := ih (spelled.part look_body_mem_subtrees)
    exact Sequence.one (.atom (.group .negativeLook (.last inside)))
  | named name body ih =>
    have some : name ≠ "" := spelled _ (self_mem_subtrees _)
    have inside := ih (spelled.part variable_body_mem_subtrees)
    exact Sequence.one (.atom (.group (.named some) (.last inside)))
  | repeated body repetition ih =>
    obtain ⟨sign, repeats⟩ : ∃ sign, Phrase.Sign sign repetition := spelled _ (self_mem_subtrees _)
    have inside := ih (spelled.part repeated_body_mem_subtrees)
    have group := Term.atom (.group .plain (.last inside))
    rw [spelling, ← repeats.eq_quantifier, terms]
    simpa [Enclosure.enclose, ofBranches] using Sequence.one (.repeated group repeats)

theorem Spelled.expression (spelled : tree.Spelled) :
    Phrase.Expression tree.spelling tree.flat := ⟨_, .last spelled.sequence, rfl⟩

theorem spelling_ofParts (parts : List Tree) :
    (ofParts parts).spelling = (spellings parts).flatten := by
  unfold ofParts
  split
  · simp [spellings]
  · rw [spelling]

theorem flatten_spellings_terms (tree : Tree) :
    (spellings tree.terms).flatten = tree.spelling := by
  induction tree with
  | choice branches ih =>
    have same : spellings (flats branches) = spellings branches := by
      rw [spellings_eq, flats_eq, spellings_eq, List.map_map]
      refine List.map_congr_left fun branch mem => ?_
      exact (spelling_ofParts _).trans (ih branch mem)
    simp [terms, spellings, spelling, same]
  | sequence parts ih =>
    rw [terms, spelling]
    induction parts with
    | nil => rfl
    | cons part rest ih' =>
      have others := ih' fun part mem => ih part (List.mem_cons_of_mem _ mem)
      rw [spellings_eq] at others
      simp only [allTerms, spellings, List.flatten_cons, ← ih part List.mem_cons_self, ← others]
      simp [spellings_eq]
  | leaf text => rfl
  | look negated body ih | named name body ih | repeated body repetition ih =>
    simp [terms, spellings, spelling, spelling_ofParts, ih]

theorem spelling_flat (tree : Tree) : tree.flat.spelling = tree.spelling :=
  (spelling_ofParts _).trans tree.flatten_spellings_terms

theorem render_flat (tree : Tree) : tree.flat.render = tree.render := by
  rw [← String.toList_inj, ← flatMap_spelling, ← flatMap_spelling, spelling_flat]

theorem concat_append (first second : List Fragment) :
    Fragment.concat (first ++ second) = Fragment.concat first ++ Fragment.concat second := by
  have sources : (Fragment.concat (first ++ second)).source =
      (Fragment.concat first ++ Fragment.concat second).source := by
    rw [← String.toList_inj]
    simp [Fragment.concat]
  rw [Fragment.mk.injEq]
  exact ⟨sources, by simp [Fragment.concat]⟩

theorem concat_singleton (fragment : Fragment) : Fragment.concat [fragment] = fragment := by
  simp [Fragment.concat]

theorem wholeAll_append (first second : List Tree) :
    wholeAll (first ++ second) = do
      let bodies ← wholeAll first
      let later ← wholeAll second
      return bodies ++ later := by
  induction first with
  | nil => simp [wholeAll]
  | cons tree rest ih => simp [wholeAll, ih]

theorem whole_ofParts (parts : List Tree) :
    (ofParts parts).whole = Fragment.concat <$> wholeAll parts := by
  unfold ofParts
  split
  · simp [wholeAll, concat_singleton]
  · simp [whole]

theorem concat_wholeAll_terms (tree : Tree) :
    Fragment.concat <$> wholeAll tree.terms = tree.whole := by
  induction tree with
  | choice branches ih =>
    have same : wholeAll (flats branches) = wholeAll branches := by
      induction branches with
      | nil => rfl
      | cons branch rest ih' =>
        have others := ih' fun branch mem => ih branch (List.mem_cons_of_mem _ mem)
        rw [flats, wholeAll, wholeAll, whole_ofParts, ih branch List.mem_cons_self, others]
    simp [terms, wholeAll, whole, same, concat_singleton]
  | sequence parts ih =>
    rw [terms, whole]
    induction parts with
    | nil => simp [allTerms, wholeAll]
    | cons part rest ih' =>
      have others := ih' fun part mem => ih part (List.mem_cons_of_mem _ mem)
      have split (body : Fragment) (bodies : List Fragment) :
          Fragment.concat (body :: bodies) = body ++ Fragment.concat bodies := by
        rw [← List.singleton_append, concat_append, concat_singleton]
      calc Fragment.concat <$> wholeAll (allTerms (part :: rest))
        _ = do
            let body ← Fragment.concat <$> wholeAll part.terms
            let bodies ← Fragment.concat <$> wholeAll (allTerms rest)
            return body ++ bodies := by simp [allTerms, wholeAll_append, concat_append]
        _ = do
            let body ← part.whole
            let bodies ← wholeAll rest
            return body ++ Fragment.concat bodies := by
          rw [ih part List.mem_cons_self, others]
          simp
        _ = _ := by simp [wholeAll, split]
  | leaf text => simp [terms, wholeAll, whole, concat_singleton]
  | look negated body ih => simp [terms, wholeAll, whole, whole_ofParts, ih, concat_singleton]
  | named name body ih => simp [terms, wholeAll, whole, whole_ofParts, ih, concat_singleton]
  | repeated body repetition ih =>
    simp [terms, wholeAll, whole, whole_ofParts, ih, concat_singleton]

theorem whole_flat (tree : Tree) : tree.flat.whole = tree.whole :=
  (whole_ofParts _).trans tree.concat_wholeAll_terms

theorem Spelled.lowerable (spelled : tree.Spelled) : tree.Lowerable where
  native _ mem := (spelled _ mem).2
  negative _ _ mem := spelled _ mem

theorem Spelled.lower_flat (spelled : tree.Spelled) :
    ∃ lowered lowered', tree.lower = .ok lowered ∧ tree.flat.lower = .ok lowered' ∧
      lowered'.whole = lowered.whole ∧
      lowered'.whole.groups.map (lowered'.groupNames[·]?) =
        lowered.whole.groups.map (lowered.groupNames[·]?) := by
  obtain ⟨⟨body, names⟩, run⟩ := spelled.lowerable.succeeds_whole #[]
  obtain ⟨beginnings, later, lowered, more⟩ := spelled.lowerable.lower run
  obtain ⟨beginnings', later', lowered', more'⟩ :=
    spelled.expression.bears.spelled.lowerable.lower ((congrFun tree.whole_flat _).trans run)
  have first := (tree.lowersTo run).2
  have groups := (first.mono more').groups.trans (first.mono more).groups.symm
  exact ⟨_, _, lowered, lowered', rfl, groups⟩

end LineGrammar.Tree
