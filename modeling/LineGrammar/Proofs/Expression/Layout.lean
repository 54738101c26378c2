import LineGrammar.Proofs.Expression.Tokenizing
import LineGrammar.Proofs.Text.Boundaries

/-! How tokens lie in an expression. They stand one behind the other at the bytes that their
positions say, and before, between and behind them there is white space and comments alone, so
every character of the expression belongs to a token or is skipped as one of these. -/

namespace LineGrammar.Token

def stop (token : Token) : Nat := token.position + token.text.utf8ByteSize

inductive IsComment : List Char → List Char → Prop
  | line {inside : List Char} (single : '\n' ∉ inside) (after : List Char) :
    IsComment ('#' :: (inside ++ ['\n'])) after
  | last {inside : List Char} (single : '\n' ∉ inside) : IsComment ('#' :: inside) []

/-- White space and comments. A comment runs through the end of its line; if `last`, it may also
run to the end of the gap. -/
inductive IsGap (last : Prop) : List Char → Prop
  | nil : IsGap last []
  | blank {c : Char} {more : List Char} (blank : Text.isBlank c = true)
    (later : IsGap last more) : IsGap last (c :: more)
  | comment {inside more : List Char} (line : '\n' ∉ inside) (later : IsGap last more) :
    IsGap last ('#' :: (inside ++ '\n' :: more))
  | unended {inside : List Char} (line : '\n' ∉ inside) (ends : last) :
    IsGap last ('#' :: inside)

def IsSolid (text : String) : Prop :=
  ∃ c more, text.toList = c :: more ∧ c ≠ '#' ∧ Text.isBlank c = false

def gapEnds (expression : String) (tokens : List Token) : List (Nat × Nat) :=
  (0 :: tokens.map stop).zip (tokens.map position ++ [expression.utf8ByteSize])

/-- The tokens are parts of the expression in their order, and the rest of it is gaps. Only the
comment that reaches the end of the expression may lack the end of its line. -/
structure Partition (expression : String) (tokens : List Token) : Prop where
  solid : ∀ token ∈ tokens, IsSolid token.text
  placed : ∀ token ∈ tokens,
    Text.between? expression token.position token.stop = some token.text
  ordered : tokens.Pairwise fun first second =>
    first.position < second.position ∧ first.stop ≤ second.position
  gaps : ∀ ends ∈ gapEnds expression tokens, ∃ gap,
    Text.between? expression ends.1 ends.2 = some gap ∧
      IsGap (ends.2 = expression.utf8ByteSize) gap.toList

variable {last : Prop} {c : Char} {rest gap : List Char} {more : Nat}

theorem IsGap.append {first second : List Char} (before : IsGap False first)
    (after : IsGap last second) : IsGap last (first ++ second) := by
  induction before with
  | nil => exact after
  | blank blank later ih => exact .blank blank ih
  | comment line later ih => simpa using IsGap.comment line ih
  | unended line ends => exact ends.elim

theorem IsGap.mono {other : Prop} (isGap : IsGap last gap) (weaker : last → other) :
    IsGap other gap := by
  induction isGap with
  | nil => exact .nil
  | blank blank later ih => exact .blank blank ih
  | comment line later ih => exact .comment line ih
  | unended line ends => exact .unended line (weaker ends)

theorem isSolid_of_piece (found : piece c rest = .ok (.token more)) :
    IsSolid (String.ofList (c :: rest.take more)) :=
  ⟨c, rest.take more, String.toList_ofList, ne_of_piece found⟩

theorem isComment_of_piece (found : piece '#' rest = .ok (.gap more)) :
    IsComment ('#' :: rest.take more) (rest.drop more) := by
  obtain rfl : (rest.takeWhile (· ≠ '\n')).length + 1 = more := by simpa [piece] using found
  have single : '\n' ∉ rest.takeWhile (· ≠ '\n') := fun mem => by
    simpa using List.mem_takeWhile_imp mem
  have split : rest.takeWhile (· ≠ '\n') ++ rest.dropWhile (· ≠ '\n') = rest :=
    List.takeWhile_append_dropWhile
  have first := List.head?_dropWhile_not (· ≠ '\n') rest
  generalize rest.takeWhile (· ≠ '\n') = inside at single split
  cases after : rest.dropWhile (· ≠ '\n') with
  | nil =>
    obtain rfl : inside = rest := by rw [← split, after, List.append_nil]
    rw [List.take_of_length_le (by omega), List.drop_eq_nil_of_le (by omega)]
    exact .last single
  | cons d later =>
    rw [after] at split first
    obtain rfl : d = '\n' := by simpa using first
    have closed : rest.take (inside.length + 1) = inside ++ ['\n'] := by
      rw [← split, List.take_length_add_append, List.take_one, List.head?_cons,
        Option.toList_some]
    rw [closed]
    exact .line single _

theorem isGap_of_piece (found : piece c rest = .ok (.gap more)) :
    IsGap (rest.drop more = []) (c :: rest.take more) := by
  by_cases sign : c = '#'
  · subst sign
    have isComment := isComment_of_piece found
    generalize '#' :: rest.take more = comment at isComment ⊢
    generalize rest.drop more = after at isComment ⊢
    cases isComment with
    | line single => exact .comment single .nil
    | last single => exact .unended single rfl
  · obtain ⟨blank, rfl⟩ := isBlank_of_piece found sign
    exact .blank blank .nil

/-- The characters, which start at byte `position`, are the tokens and the gaps around them. -/
inductive Lie : Nat → List Char → List Token → Prop
  | last {position : Nat} {gap : List Char} (isGap : IsGap True gap) : Lie position gap []
  | token {position : Nat} {gap rest : List Char} {token : Token} {tokens : List Token}
    (isGap : IsGap False gap) (solid : IsSolid token.text)
    (placed : token.position = position + Text.byteLength gap)
    (later : Lie token.stop rest tokens) :
    Lie position (gap ++ (token.text.toList ++ rest)) (token :: tokens)

variable {position : Nat} {cs : List Char} {token : Token} {tokens : List Token}

theorem Lie.behind (lie : Lie (position + Text.byteLength gap) cs tokens)
    (isGap : IsGap False gap) : Lie position (gap ++ cs) tokens := by
  cases lie with
  | last isGap' => exact .last (isGap.append isGap')
  | token isGap' solid placed later =>
    rw [← List.append_assoc]
    refine .token (isGap.append isGap') solid ?_ later
    rw [placed, Text.byteLength_append, Nat.add_assoc]

theorem lie_of_ofCharsFrom (split : ofCharsFrom position cs = .ok tokens) :
    Lie position cs tokens := by
  replace split := falls_of_ofCharsFrom split
  induction split with
  | nil => exact .last .nil
  | @token position more c rest later found _ lie =>
    have isSolid := isSolid_of_piece found
    have whole : c :: rest = (c :: rest.take more) ++ rest.drop more := by simp
    rw [whole]
    generalize c :: rest.take more = text at isSolid lie ⊢
    have stops : stop ⟨String.ofList text, position⟩ = position + Text.byteLength text := by
      rw [stop, ← Text.byteLength_toList, String.toList_ofList]
    rw [← stops] at lie
    have made := @Lie.token position [] (rest.drop more) ⟨String.ofList text, position⟩ later .nil
      isSolid rfl lie
    rwa [List.nil_append, String.toList_ofList] at made
  | @gap position more c rest tokens found behind lie =>
    have isGap := isGap_of_piece found
    have whole : c :: rest = (c :: rest.take more) ++ rest.drop more := by simp
    rw [whole]
    by_cases ended : rest.drop more = []
    · rw [ended] at behind ⊢
      cases behind
      rw [List.append_nil]
      exact .last (isGap.mono fun _ => trivial)
    · exact lie.behind (isGap.mono ended)

namespace Lie

theorem solid (lie : Lie position cs tokens) : ∀ token ∈ tokens, IsSolid token.text := by
  induction lie with
  | last => simp
  | token _ solid _ _ ih => exact List.forall_mem_cons.mpr ⟨solid, ih⟩

theorem position_le (lie : Lie position cs tokens) :
    ∀ token ∈ tokens, position ≤ token.position := by
  induction lie with
  | last => simp
  | token _ _ placed _ ih =>
    refine List.forall_mem_cons.mpr ⟨by omega, fun other mem => ?_⟩
    have := ih other mem
    simp only [stop] at this
    omega

theorem ordered (lie : Lie position cs tokens) : tokens.Pairwise fun first second =>
    first.position < second.position ∧ first.stop ≤ second.position := by
  induction lie with
  | last => exact .nil
  | @token _ _ _ token _ _ solid _ later ih =>
    refine .cons (fun other mem => ?_) ih
    have behind := later.position_le other mem
    obtain ⟨c, more, spelled, -⟩ := solid
    have wide := Text.byteLength_toList token.text
    rw [spelled, Text.byteLength_cons] at wide
    have := c.utf8Size_pos
    refine ⟨?_, behind⟩
    simp only [stop] at behind
    omega

variable {expression : String} {before : List Char}

theorem placed (lie : Lie (Text.byteLength before) cs tokens)
    (whole : expression.toList = before ++ cs) :
    ∀ token ∈ tokens, Text.between? expression token.position token.stop = some token.text := by
  generalize start : Text.byteLength before = position at lie
  induction lie generalizing before with
  | last => simp
  | @token _ gap rest token tokens _ _ placed _ ih =>
    have place : token.position = Text.byteLength (before ++ gap) := by
      rw [placed, ← start, Text.byteLength_append]
    have stops : token.stop = Text.byteLength (before ++ gap ++ token.text.toList) := by
      rw [stop, place, Text.byteLength_append _ token.text.toList, Text.byteLength_toList]
    have split : expression.toList = (before ++ gap) ++ (token.text.toList ++ rest) := by
      rw [whole, List.append_assoc]
    have here := Text.between?_append split
    rw [← Text.byteLength_append, ← stops, ← place, String.ofList_toList] at here
    exact List.forall_mem_cons.mpr ⟨here, ih (by simp [whole]) stops.symm⟩

theorem gaps (lie : Lie (Text.byteLength before) cs tokens)
    (whole : expression.toList = before ++ cs) :
    ∀ ends ∈ (Text.byteLength before :: tokens.map stop).zip
      (tokens.map Token.position ++ [expression.utf8ByteSize]),
      ∃ gap, Text.between? expression ends.1 ends.2 = some gap ∧
        IsGap (ends.2 = expression.utf8ByteSize) gap.toList := by
  generalize start : Text.byteLength before = position at lie
  induction lie generalizing before with
  | @last position gap isGap =>
    have split : expression.toList = before ++ (gap ++ []) := by rw [whole, List.append_nil]
    have here := Text.between?_append split
    rw [← Text.byteLength_append, ← whole, Text.byteLength_toList, start] at here
    intro ends mem
    obtain rfl : ends = (position, expression.utf8ByteSize) := by simpa using mem
    exact ⟨_, here, by simpa using isGap⟩
  | @token position gap rest token tokens isGap _ placed _ ih =>
    have here := Text.between?_append whole
    rw [start, ← placed] at here
    have stops : Text.byteLength (before ++ gap ++ token.text.toList) = token.stop := by
      rw [stop, placed, ← start, Text.byteLength_append, Text.byteLength_append,
        Text.byteLength_toList]
    refine List.forall_mem_cons.mpr ⟨⟨_, here, ?_⟩, ih (by simp [whole]) stops⟩
    rw [String.toList_ofList]
    exact isGap.mono False.elim

end Lie

/-- What is no token is white space or a comment, at the end of the expression as well. -/
theorem partition_of_tokenize {expression : String} (split : tokenize expression = .ok tokens) :
    Partition expression tokens := by
  rw [tokenize_eq] at split
  have lie : Lie (Text.byteLength []) expression.toList tokens := lie_of_ofCharsFrom split
  exact ⟨lie.solid, lie.placed rfl, lie.ordered, lie.gaps rfl⟩

theorem partition_multibyte :
    ∃ tokens, tokenize " é\x7b2\x7d # \x7b\n[#\\]]\\#(?P<ü#(" = .ok tokens ∧
      tokens.map Token.position = [1, 3, 11, 16, 18, 22] ∧
      Partition " é\x7b2\x7d # \x7b\n[#\\]]\\#(?P<ü#(" tokens := by
  have split : tokenize " é\x7b2\x7d # \x7b\n[#\\]]\\#(?P<ü#(" =
      .ok [⟨"é", 1⟩, ⟨"\x7b2\x7d", 3⟩, ⟨"[#\\]]", 11⟩, ⟨"\\#", 16⟩, ⟨"(?P<", 18⟩,
        ⟨"ü", 22⟩] := by
    rw [Token.tokenize_eq]
    cbv
  exact ⟨_, split, rfl, partition_of_tokenize split⟩

end LineGrammar.Token
