import LineGrammar.Proofs.Expression.ClassReading
import LineGrammar.Proofs.Expression.Parsed
import LineGrammar.Proofs.Grammar.Sentences

/-! What a class matches. Its text is lowered to a set of its members or, with `\W` among them, to
a set beside the complement of the word class. The other members then move up to the bracket, where
a circumflex that was a member negates them. -/

namespace LineGrammar

open Pattern

namespace CharClass

variable {text body inside source : List Char} {set : CodeSet} {term : Pattern} {code : Nat}

def spelledOut (inside : List Char) (code : Nat) : Bool :=
  union code ((items (written inside)).flatMap Item.expand) != isNegated inside

theorem negated_of_add {cls next : OpenClass} {item : Item} (added : add cls item = .ok next) :
    next.negated = cls.negated := by
  cases item with
  | word | broken => simp [add] at added
  | _ => exact Reading.negated_of_add added

theorem negated_of_foldlM {cls last : OpenClass} {items : List Item}
    (added : items.foldlM add cls = .ok last) : last.negated = cls.negated := by
  induction items generalizing cls with
  | nil => rw [← Except.ok.inj added]
  | cons item rest ih =>
    obtain ⟨next, first, later⟩ := bind_eq_ok.mp added
    rw [ih later, negated_of_add first]

theorem head?_of_lowers (lowers : Leaf.Lowers text body) (unmarked : text.head? ≠ some '^') :
    body.head? ≠ some '^' := by
  cases lowers with
  | nil => simp
  | plain => exact unmarked
  | escape other escaped rest => exact escaped.head?_ne other _

theorem contains_of_readable (lowers : Leaf.Lowers text body)
    (readable : (Body.single ('[' :: (body ++ [']'])) (.one set)).Readable True) (code : Nat) :
    set.contains code = spelledOut text code := by
  obtain ⟨last, agree⟩ := readable.reads .start [] ⟨rfl, rfl⟩ (by simp [Unquantified])
  have run : Reading.start.run ('[' :: (body ++ [']'])) =
      .ok (Reading.start.push (.one set) last) := by
    have same := agree.2 trivial
    rw [List.append_nil, Reading.run] at same
    exact same
  obtain ⟨own, lowers', opened⟩ : ∃ own, Leaf.Lowers (written text) own ∧
      Reading.start.run ('[' :: (body ++ [']'])) =
        (Reading.start.within ⟨isNegated text, [], .nothing⟩).run (own ++ [']']) := by
    rcases isNegated_cases text with ⟨members, rfl, marked, rest⟩ | ⟨first, unmarked, rest⟩
    · obtain ⟨own, rfl, lowers'⟩ := lowers.of_plain (by simp [IsPlain])
      rw [marked, rest]
      exact ⟨own, lowers', Body.run_opening_negated ⟨rfl, rfl⟩ own []⟩
    · rw [unmarked, rest]
      exact ⟨body, lowers, Body.run_opening ⟨rfl, rfl⟩ (head?_of_lowers lowers first) []⟩
  rw [opened] at run
  obtain ⟨next, added, closed⟩ := continues_items lowers' _ _ [] _ run
  have negated := negated_of_foldlM added
  rw [List.nil_append, Reading.run_within_close ⟨rfl, rfl⟩, Reading.run] at closed
  obtain ⟨rfl, -⟩ : (⟨Reading.finalMembers next, next.negated, false⟩ : CodeSet) = set ∧ _ := by
    simpa [Reading.push] using closed
  have members := any_finalMembers added code
  simp [CodeSet.contains, CodeSet.hasMember, spelledOut, members, covered, pendingItems, negated]

def rewritten (inside : List Char) (code : Nat) : Bool :=
  if hasNonWord (written inside) then
    (spelledOut (others (written inside)) code || !isWord code) != isNegated inside
  else spelledOut inside code

theorem contains_wordSet (negated : Bool) (code : Nat) :
    (Body.wordSet negated).contains code = (isWord code != negated) := by
  have underscore : (SetMember.range 95 95).contains code = decide (code = 95) :=
    contains_member (.point 95) code
  have property (kind : Property) : (SetMember.property kind false).contains code =
      kind.holds code := Bool.bne_false _
  simp only [Body.wordSet, CodeSet.contains, CodeSet.hasMember, List.any_cons, List.any_nil,
    underscore, property, Property.holds, isWord, Bool.false_eq_true, if_false, Bool.or_false,
    Bool.or_assoc]

theorem isClassText_written (closes : isClassText inside = true) :
    isClassText (written inside) = true := by
  rcases isNegated_cases inside with ⟨members, rfl, -, rest⟩ | ⟨-, -, rest⟩
  · rw [isClassText_cons (by simp [IsPlain])] at closes
    rwa [rest]
  · rwa [rest]

theorem eq_of_readable {other : Pattern} (read : Pattern.read (String.ofList source) = .ok term)
    (readable : ∀ {strict}, (Body.single source other).Readable strict) : term = other := by
  have same : Pattern.read (String.ofList source) = .ok other :=
    Body.read_of_readable (by rw [String.toList_ofList]; exact readable)
  exact Except.ok.inj (read.symm.trans same)

theorem not_isFaulty (read : Pattern.read (String.ofList source) = .ok term) :
    ¬Body.IsFaulty source := by
  intro faulty
  obtain ⟨fault, refused⟩ : ∃ fault, Pattern.read (String.ofList source) = .error fault :=
    Body.read_of_faulty (by rwa [String.toList_ofList])
  exact absurd (read.symm.trans refused) (by simp)

theorem takes_of_brackets (lowers : Leaf.Lowers text body)
    (read : Pattern.read (String.ofList ('[' :: (body ++ [']']))) = .ok term) :
    term.Takes fun c => spelledOut text c.toNat = true := by
  obtain ⟨set, readable⟩ :=
    (Body.readable_class lowers.isClassText).resolve_left (not_isFaulty read)
  obtain rfl := eq_of_readable read readable
  have accepts := takes_one set
  simpa only [contains_of_readable lowers readable] using accepts

theorem takes_of_native (closes : isClassText inside = true)
    (lowered : Leaf.nativeFrom 0 none ('[' :: (inside ++ [']'])) = .ok source)
    (read : Pattern.read (String.ofList source) = .ok term) :
    term.Takes fun c => rewritten inside c.toNat = true := by
  obtain ⟨body, lowers, rfl⟩ := Leaf.nativeFrom_bracket closes lowered
  cases complement : hasNonWord (written inside) with
  | false =>
    rw [complement] at read
    rw [others_eq_self (isClassText_written closes) complement] at lowers
    simp only [rewritten, complement, Bool.false_eq_true, if_false]
    rcases isNegated_cases inside with ⟨members, rfl, marked, rest⟩ | ⟨-, unmarked, rest⟩
    · rw [rest] at lowers
      rw [marked] at read
      exact takes_of_brackets (.plain (by simp [IsPlain]) lowers) read
    · rw [rest] at lowers
      rw [unmarked] at read
      exact takes_of_brackets lowers read
  | true =>
    rw [complement] at read
    simp only [rewritten, complement, if_true]
    by_cases alone : body = []
    · subst alone
      have nothing (code : Nat) : spelledOut [] code = false := by
        simp [spelledOut, written, isNegated, items, union_nil]
      simp only [lowers.eq_nil, nothing, Bool.false_or]
      cases marked : isNegated inside with
      | false =>
        rw [marked] at read
        obtain rfl := eq_of_readable read Body.readable_nonWordClass
        have accepts := takes_one (Body.wordSet true)
        simpa only [contains_wordSet, Bool.bne_true, Bool.bne_false] using accepts
      | true =>
        rw [marked] at read
        obtain rfl := eq_of_readable read Body.readable_wordClass
        have accepts := takes_one (Body.wordSet false)
        simpa only [contains_wordSet, Bool.bne_true, Bool.bne_false, Bool.not_not] using accepts
    · obtain ⟨set, readable⟩ := (Body.readable_class lowers.isClassText).resolve_left
        fun faulty => not_isFaulty read (faulty.closed alone)
      obtain rfl := eq_of_readable read (Body.readable_closed alone readable)
      have accepts := Body.takes_besideNonWord (isNegated inside) set
      simpa only [contains_of_readable lowers readable, contains_wordSet, Bool.bne_true]
        using accepts

theorem spelledOut_eq_denotes (stand : DashesStand (items (written inside)))
    (none : .word true ∉ items (written inside)) (code : Nat) :
    spelledOut inside code = denotes inside code := by
  rw [spelledOut, denotes, union_expand stand code]
  simp [none]

theorem rewritten_eq (closes : isClassText inside = true)
    (stand : DashesStand (items (written inside)))
    (settled : items (others (written inside)) =
      (items (written inside)).filter (· ≠ .word true)) (code : Nat) :
    rewritten inside code =
      if hasNonWord (written inside) ∧ isNegated (others (written inside)) then
        (denotes (others (written inside)) code || !isWord code) != isNegated inside
      else denotes inside code := by
  have mem := nonWord_mem_items_iff (isClassText_written closes)
  cases complement : hasNonWord (written inside) with
  | false =>
    have none : .word true ∉ items (written inside) := by simp [mem, complement]
    simp [rewritten, complement, spelledOut_eq_denotes stand none]
  | true =>
    have stand' : DashesStand (items (others (written inside))) := settled ▸ stand.filter
    have none : .word true ∉ items (others (written inside)) := by simp [settled]
    rcases isNegated_cases (others (written inside)) with
      ⟨members, moved, marked, rest⟩ | ⟨-, unmarked, rest⟩
    · have first : items (others (written inside)) = .point '^'.toNat :: items members := by
        rw [moved, items_plain (by decide)]
        rfl
      rw [first] at stand' none
      have same : spelledOut (others (written inside)) code =
          denotes (others (written inside)) code :=
        spelledOut_eq_denotes (by rw [rest]; exact stand'.tail)
          (by rw [rest]; exact fun later => none (List.mem_cons_of_mem _ later)) code
      simp [rewritten, complement, marked, same]
    · have same := union_expand stand code
      rw [← flatMap_expand_filter, ← settled] at same
      simp [rewritten, complement, unmarked, denotes, spelledOut, rest, same, mem, Bool.or_comm]

end CharClass

namespace Tree

variable {text : String} {root : Tree}

theorem ofExpression_alone (alone : tokenize text = .ok [⟨text, 0⟩])
    (role : Token.role ⟨text, 0⟩ = .leaf) :
    ofExpression text = .ok root ↔ leaf text = root ∧ ∃ source, Leaf.native text = .ok source := by
  rw [ofExpression, alone]
  cases lowered : Leaf.native text <;>
    simp [Except.bind, ofTokens, Parsing.run, Parsing.step, role, lowered, Parsing.finish,
      Parsing.start, Parsing.Level.blank, Parsing.Level.push, Parsing.Level.body,
      Parsing.Level.nextBranch, ofParts, ofBranches]

theorem wellFormed_leaf_of_isToken (isToken : Leaf.IsToken text)
    (complete : ¬Leaf.IsBareEscape text) : (leaf text).WellFormed := by
  refine (parsed_leaf isToken).wellFormed fun other mem => ?_
  obtain ⟨⟩ := List.mem_singleton.mp mem
  exact complete

end Tree

namespace Grammar

variable {text source : String} {grammar : Grammar} {escapes unescapes : Registry (String → String)}

theorem ofExpression_leaf (alone : tokenize text = .ok [⟨text, 0⟩])
    (role : Token.role ⟨text, 0⟩ = .leaf) (lowered : Leaf.native text = .ok source)
    (made : ofTree (.leaf text) escapes unescapes = .ok grammar) :
    ofExpression text escapes unescapes = .ok grammar :=
  bind_eq_ok.mpr ⟨_, (Tree.ofExpression_alone alone role).mpr ⟨rfl, source, lowered⟩, made⟩

theorem Compiles.read_leaf (compiles : grammar.Compiles (.leaf text)) (isToken : Leaf.IsToken text)
    (complete : ¬Leaf.IsBareEscape text) :
    ∃ source term, Leaf.native text = .ok source ∧ Pattern.read source = .ok term := by
  rcases Body.ofLeaf_cases False isToken complete with
    ⟨source, fault, lowered, refused, eq, faulty⟩ | ⟨source, term, lowered, read, -⟩
  · exfalso
    obtain ⟨fragment, represents, anchored⟩ := compiles.whole
    obtain ⟨read, -, -⟩ := CompiledPattern.ofSource_eq_ok.mp anchored
    have spelled : ("^(?:" ++ fragment.source ++ ")$").toList =
        '^' :: '(' :: '?' :: ':' :: (source.toList ++ [')', '$']) := by
      have same := represents.source
      rw [Tree.wholeBody, Body.source_ofLeaf lowered] at same
      simp [same]
    have behind := faulty.plain [')', '$']
    obtain ⟨last, agree⟩ := Body.readable_start.reads .start _ ⟨rfl, rfl⟩ behind.unquantified
    obtain ⟨fault', fails⟩ := behind.fails (Reading.start.extend _ _ last) []
      (Reading.AtTerm.extend ⟨rfl, rfl⟩ _ _ _)
    rw [List.append_nil] at fails
    have run := (agree.2 trivial).trans fails
    rw [Pattern.read, spelled] at read
    simp [Body.single] at run
    simp [run, Except.bind] at read
  · exact ⟨source, term, lowered, read⟩

end Grammar

namespace CharClass

variable {text : String} {inside : List Char} {grammar : Grammar}
  {escapes unescapes : Registry (String → String)}

/-- The grammar of a class matches the characters that the class denotes, wherever its `\W` stand,
if the other members read the same without these. Only a circumflex that moves up to the bracket
makes the other members a negated class of their own. -/
theorem matchWhole?_singleton (alone : tokenize text = .ok [⟨text, 0⟩])
    (spelled : text.toList = '[' :: (inside ++ [']']))
    (compiles : Grammar.ofExpression text escapes unescapes = .ok grammar)
    (stand : DashesStand (items (written inside)))
    (settled : items (others (written inside)) =
      (items (written inside)).filter (· ≠ .word true)) (c : Char) :
    (grammar.matchWhole? (String.singleton c)).isSome =
      if hasNonWord (written inside) ∧ isNegated (others (written inside)) then
        (denotes (others (written inside)) c.toNat || !isWord c.toNat) != isNegated inside
      else denotes inside c.toNat := by
  have role : Token.role ⟨text, 0⟩ = .leaf := by simp [Token.role, spelled]
  obtain ⟨root, read, compiles'⟩ := bind_eq_ok.mp compiles
  obtain ⟨rfl, source, lowered⟩ := (Tree.ofExpression_alone alone role).mp read
  have isToken := Leaf.isToken_of_alone text source ((Token.tokenize_eq text).symm.trans alone) role
    lowered
  have complete : ¬Leaf.IsBareEscape text := by
    simp [Leaf.IsBareEscape, ← String.toList_inj, spelled]
  have closes : isClassText inside = true := by
    have shape := isToken.isLeafText
    rw [spelled] at shape
    generalize whole : '[' :: (inside ++ [']']) = cs at shape
    cases shape with
    | charClass other closes =>
      obtain rfl : inside = other := by simpa using whole
      exact closes
    | _ => simp at whole
  obtain ⟨source', term, lowered', read'⟩ :=
    (Grammar.compiles_of_ofTree compiles').read_leaf isToken complete
  obtain rfl : source = source' := Except.ok.inj (lowered.symm.trans lowered')
  have wellFormed := Tree.wellFormed_leaf_of_isToken isToken complete
  obtain ⟨native, lowered'', rfl⟩ := map_eq_ok.mp lowered
  rw [spelled] at lowered''
  have takes := takes_of_native closes lowered'' read'
  rw [← rewritten_eq closes stand settled, Bool.eq_iff_iff, Grammar.matchWhole?, Option.isSome_map,
    Grammar.find?_whole_isSome_iff compiles' wellFormed, Tree.Relates,
    Leaf.relates_iff lowered read', takes]
  simp

theorem matchWhole?_beside_nonWord : ∃ grammar,
    Grammar.ofExpression "[\\d\\W-]" [] [] = .ok grammar ∧
    (grammar.matchWhole? (String.singleton '٣')).isSome = true ∧
    (grammar.matchWhole? (String.singleton 'a')).isSome = false := by
  have run : (Grammar.ofTree (.leaf "[\\d\\W-]") [] []).isOk = true := by cbv
  obtain ⟨grammar, made⟩ := isOk_iff.mp run
  have alone : tokenize "[\\d\\W-]" = .ok [⟨"[\\d\\W-]", 0⟩] := by
    rw [Token.tokenize_eq]
    cbv
  have spelled : "[\\d\\W-]".toList = '[' :: ("\\d\\W-".toList ++ [']']) := by simp
  have role : Token.role ⟨"[\\d\\W-]", 0⟩ = .leaf := by simp [Token.role]
  have lowered : Leaf.native "[\\d\\W-]" =
      .ok "(?:[\\p\x7bNd\x7d-]|[^_\\p\x7bL\x7d\\p\x7bN\x7d])" := by cbv
  have compiles := Grammar.ofExpression_leaf alone role lowered made
  have listed : items (written "\\d\\W-".toList) =
      [.property .decimalDigit false, .word true, .dash] := by cbv
  have stand : DashesStand (items (written "\\d\\W-".toList)) := by
    rw [listed]
    simp [DashesStand, List.cons_eq_append_iff]
  have settled : items (others (written "\\d\\W-".toList)) =
      (items (written "\\d\\W-".toList)).filter (· ≠ .word true) := by cbv
  have stays : isNegated (others (written "\\d\\W-".toList)) = false := by cbv
  have same := matchWhole?_singleton alone spelled compiles stand settled
  simp only [stays, Bool.false_eq_true, and_false, if_false] at same
  exact ⟨grammar, compiles, (same '٣').trans (by cbv), (same 'a').trans (by cbv)⟩

/-- The circumflex is a member, but it moves up to the bracket and negates the members behind it. -/
theorem matchWhole?_moved_circumflex : ∃ grammar,
    tokenize "[\\W^a]" = .ok [⟨"[\\W^a]", 0⟩] ∧
    Grammar.ofExpression "[\\W^a]" [] [] = .ok grammar ∧
    DashesStand (items (written "\\W^a".toList)) ∧
    (grammar.matchWhole? "b").isSome = true ∧ denotes "\\W^a".toList 'b'.toNat = false := by
  have run : (Grammar.ofTree (.leaf "[\\W^a]") [] [] >>= fun grammar =>
      .ok (grammar.matchWhole? "b").isSome) = .ok true := by cbv
  obtain ⟨grammar, made, matched⟩ := bind_eq_ok.mp run
  have alone : tokenize "[\\W^a]" = .ok [⟨"[\\W^a]", 0⟩] := by
    rw [Token.tokenize_eq]
    cbv
  have role : Token.role ⟨"[\\W^a]", 0⟩ = .leaf := by simp [Token.role]
  have lowered : Leaf.native "[\\W^a]" =
      .ok "(?:[^a]|[^_\\p\x7bL\x7d\\p\x7bN\x7d])" := by cbv
  have listed : items (written "\\W^a".toList) = [.word true, .point 94, .point 97] := by cbv
  refine ⟨grammar, alone, Grammar.ofExpression_leaf alone role lowered made, ?_,
    Except.ok.inj matched, by cbv⟩
  rw [listed]
  simp [DashesStand, List.cons_eq_append_iff]

end CharClass

end LineGrammar
