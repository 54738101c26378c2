import LineGrammar.Proofs.Expression.Layout

/-! Comments, and what their text decides. A token is found with what follows it in sight, so what
a comment says may matter to a token that stands before it. Of all that the tokenizer looks ahead
for only the next brace may lie beyond the token: where an opening brace is the last one before a
comment, an opening brace in the comment hides a closing one behind it. Everywhere else a comment
is worth a space. -/

namespace LineGrammar

def GrammarError.placedAt (position : Nat) : GrammarError → GrammarError
  | .unsupported construct _ => .unsupported construct position
  | .malformed cause _ => .malformed cause position
  | .pattern fault => .pattern fault

namespace Token

/-- What comes out of splitting an expression, apart from positions. -/
def outline : Except GrammarError (List Token) → Except GrammarError (List String)
  | .ok tokens => .ok (tokens.map (·.text))
  | .error error => .error (error.placedAt 0)

def Piece.more : Piece → Nat
  | .token more => more
  | .gap more => more

def Piece.texts (text : List Char) : Piece → List String
  | .token _ => [String.ofList text]
  | .gap _ => []

def lead (texts : List String) : Except GrammarError (List String) →
    Except GrammarError (List String) :=
  Except.map (texts ++ ·)

/-- The text consists of whole pieces where `behind` comes after it. -/
inductive Splits (behind : List Char) : List Char → Prop
  | nothing : Splits behind []
  | cons {c : Char} {more later : List Char} {found : Piece}
    (first : piece c (more ++ (later ++ behind)) = .ok found) (length : found.more = more.length)
    (others : Splits behind later) : Splits behind (c :: (more ++ later))

/-- The tokenizer comes upon the comment behind `before` and skips it. -/
structure Skips (before comment after : List Char) : Prop where
  reached : Splits (comment ++ after) before
  isComment : IsComment comment after

/-- The last brace before the comment opens and is found as a piece, and the next one after it
opens in the comment but closes behind the comment. -/
def KeepsOpen (before comment after : List Char) : Prop :=
  ∃ first between, before = first ++ '{' :: between ∧
    Splits ('{' :: (between ++ (comment ++ after))) first ∧ between.filter isBrace = [] ∧
    (comment.filter isBrace).head? = some '{' ∧ (after.filter isBrace).head? = some '}'

theorem Splits.of_drop {c : Char} {rest before behind : List Char} {found : Piece}
    (splits : Splits behind before) (first : piece c rest = .ok found)
    (split : rest.drop found.more = before ++ behind) (some : behind ≠ []) :
    rest = (rest.take found.more ++ before) ++ behind ∧
      Splits behind (c :: (rest.take found.more ++ before)) := by
  have within : found.more ≤ rest.length := by
    by_contra longer
    rw [List.drop_eq_nil_of_le (by omega)] at split
    exact some (List.append_eq_nil_iff.mp split.symm).2
  have whole : rest = rest.take found.more ++ (before ++ behind) := by
    rw [← split, List.take_append_drop]
  have first' : piece c (rest.take found.more ++ (before ++ behind)) = .ok found := by
    rwa [← whole]
  have length : found.more = (rest.take found.more).length := by
    rw [List.length_take, Nat.min_eq_left within]
  exact ⟨by rw [List.append_assoc, ← whole], .cons first' length splits⟩

/-- Every comment that the tokenizer skips comes behind whole pieces. -/
theorem exists_skips_of_mem_gaps {cs comment : List Char} (mem : comment ∈ gaps cs)
    (sign : comment.head? = some '#') :
    ∃ before after, cs = before ++ (comment ++ after) ∧ Skips before comment after := by
  have some (after : List Char) : comment ++ after ≠ [] := by
    rintro none
    simp [(List.append_eq_nil_iff.mp none).1] at sign
  induction cs using gaps.induct with
  | case1 => simp [gaps] at mem
  | case2 c rest cause found =>
    rw [gaps, found] at mem
    simp at mem
  | case3 c rest more found ih =>
    rw [gaps, found] at mem
    obtain ⟨before, after, split, skips⟩ := ih mem
    obtain ⟨whole, splits⟩ := skips.reached.of_drop found split (some after)
    exact ⟨_, after, congrArg (c :: ·) whole, splits, skips.isComment⟩
  | case4 c rest more found ih =>
    rw [gaps, found, List.mem_cons] at mem
    rcases mem with rfl | mem
    · obtain rfl : c = '#' := by simpa using sign
      refine ⟨[], rest.drop more, ?_, .nothing, isComment_of_piece found⟩
      rw [List.nil_append, List.cons_append, List.take_append_drop]
    · obtain ⟨before, after, split, skips⟩ := ih mem
      obtain ⟨whole, splits⟩ := skips.reached.of_drop found split (some after)
      exact ⟨_, after, congrArg (c :: ·) whole, splits, skips.isComment⟩

def IsBarrier (behind : List Char) : Prop :=
  ∃ c rest, behind = c :: rest ∧ c ∈ ['#', ' ', '{']

variable {c : Char} {before behind other rest : List Char} {more : Nat}

theorem head?_append_of_ne (some : before ≠ []) (behind other : List Char) :
    (before ++ other).head? = (before ++ behind).head? := by
  obtain ⟨c, rest, rfl⟩ := List.exists_cons_of_ne_nil some
  rfl

theorem takeWhile_append_of_lt {keep : Char → Bool}
    (within : ((before ++ behind).takeWhile keep).length < before.length) (other : List Char) :
    (before ++ other).takeWhile keep = (before ++ behind).takeWhile keep := by
  rw [List.takeWhile_append] at within ⊢
  rw [List.takeWhile_append]
  split_ifs at within ⊢ with whole
  · rw [List.length_append] at within
    omega
  · rfl

theorem IsBarrier.head?_ne (barrier : IsBarrier behind) {d : Char} (sign : d ∉ ['#', ' ', '{']) :
    behind.head? ≠ some d := by
  obtain ⟨c, rest, rfl, mem⟩ := barrier
  rintro ⟨⟩
  exact sign mem

theorem IsBarrier.ne_nil (barrier : IsBarrier behind) : behind ≠ [] := by
  obtain ⟨c, rest, rfl, -⟩ := barrier
  simp

theorem throughParenthesis_append (some : behind ≠ [])
    (within : throughParenthesis (before ++ behind) ≤ before.length) (other : List Char) :
    throughParenthesis (before ++ other) = throughParenthesis (before ++ behind) := by
  have longer := List.length_pos_iff.mpr some
  have inside : ((before ++ behind).takeWhile (· ≠ ')')).length < before.length := by
    simp only [throughParenthesis, List.length_append] at within
    omega
  have same := takeWhile_append_of_lt inside other
  simp only [throughParenthesis, same, List.length_append] at inside ⊢
  omega

theorem takeWhile_isNameChar_append (barrier : IsBarrier behind) (name : List Char) :
    (name ++ behind).takeWhile isNameChar = name.takeWhile isNameChar := by
  obtain ⟨c, rest, rfl, mem⟩ := barrier
  have stops : isNameChar c = false := by
    simp only [List.mem_cons, List.not_mem_nil, or_false] at mem
    rcases mem with rfl | rfl | rfl <;> decide
  rw [List.takeWhile_append]
  split_ifs with whole
  · rw [List.takeWhile_cons_of_neg (by simp [stops]), List.append_nil]
    exact (List.takeWhile_prefix _).eq_of_length whole |>.symm
  · rfl

theorem head?_drop_append (barrier : IsBarrier behind) {d : Char} (sign : d ∉ ['#', ' ', '{'])
    {count : Nat} (within : count ≤ before.length) :
    ((before ++ behind).drop count).head? = some d ↔ (before.drop count).head? = some d := by
  rw [List.drop_append_of_le_length within]
  cases before.drop count with
  | nil => simpa using barrier.head?_ne sign
  | cons e rest => simp

theorem isPrefixOf_append (barrier : IsBarrier behind) {c d : Char} (first : c ∉ ['#', ' ', '{'])
    (second : d ∉ ['#', ' ', '{']) :
    [c, d].isPrefixOf (before ++ behind) = [c, d].isPrefixOf before := by
  have notFirst := barrier.head?_ne first
  have notSecond := barrier.head?_ne second
  obtain ⟨e, rest, rfl, -⟩ := barrier
  rw [List.head?_cons, ne_eq, Option.some.injEq, eq_comm] at notFirst notSecond
  match before with
  | [] => simp [List.isPrefixOf_cons_cons, notFirst]
  | [_] => simp [List.isPrefixOf_cons_cons, notSecond]
  | _ :: _ :: _ => simp [List.isPrefixOf_cons_cons]

theorem openerLength_of_barrier (some : before ≠ []) (barrier : IsBarrier behind) :
    openerLength (before ++ behind) =
      if "P=".toList.isPrefixOf before || "#".toList.isPrefixOf before then
        throughParenthesis (before ++ behind)
      else openerLength before := by
  have named : "P<".toList.isPrefixOf (before ++ behind) = "P<".toList.isPrefixOf before := by
    exact isPrefixOf_append barrier (by decide) (by decide)
  have cited : "P=".toList.isPrefixOf (before ++ behind) = "P=".toList.isPrefixOf before := by
    exact isPrefixOf_append barrier (by decide) (by decide)
  have back : "<=".toList.isPrefixOf (before ++ behind) = "<=".toList.isPrefixOf before := by
    exact isPrefixOf_append barrier (by decide) (by decide)
  have notBack : "<!".toList.isPrefixOf (before ++ behind) = "<!".toList.isPrefixOf before := by
    exact isPrefixOf_append barrier (by decide) (by decide)
  have remark : "#".toList.isPrefixOf (before ++ behind) = "#".toList.isPrefixOf before := by
    obtain ⟨c, rest, rfl⟩ := List.exists_cons_of_ne_nil some
    simp [List.isPrefixOf]
  have first : min 1 (before ++ behind).length = min 1 before.length := by
    have := List.length_pos_iff.mpr some
    rw [List.length_append]
    omega
  simp only [openerLength, named, cited, back, notBack, remark, first]
  by_cases opens : "P<".toList.isPrefixOf before = true
  · obtain ⟨name, rfl⟩ : ∃ name, 'P' :: '<' :: name = before := List.isPrefixOf_iff_prefix.mp opens
    have inside : (('P' :: '<' :: name) ++ behind).drop 2 = name ++ behind := rfl
    have short : 2 + (name.takeWhile isNameChar).length ≤ ('P' :: '<' :: name).length := by
      have := (name.takeWhile_prefix isNameChar).length_le
      simp only [List.length_cons]
      omega
    have closes := head?_drop_append barrier (d := '>') (by decide) short
    have notSearched : ¬("P=".toList.isPrefixOf ('P' :: '<' :: name) ||
        "#".toList.isPrefixOf ('P' :: '<' :: name)) = true := by simp [List.isPrefixOf_cons_cons]
    rw [inside, takeWhile_isNameChar_append barrier, if_pos opens, if_neg notSearched, if_pos opens]
    simp only [closes]
    rfl
  · rw [if_neg opens, if_neg opens]
    split_ifs <;> rfl

theorem openerLength_append (barrier : IsBarrier behind) (barrier' : IsBarrier other)
    (within : openerLength (before ++ behind) ≤ before.length) :
    openerLength (before ++ other) = openerLength (before ++ behind) := by
  by_cases some : before = []
  · subst some
    obtain ⟨c, rest, rfl, mem⟩ := barrier
    simp only [List.mem_cons, List.not_mem_nil, or_false] at mem
    rcases mem with rfl | rfl | rfl <;> simp [openerLength, throughParenthesis] at within
  · rw [openerLength_of_barrier some barrier] at within ⊢
    rw [openerLength_of_barrier some barrier']
    split_ifs at within ⊢ with search
    · exact throughParenthesis_append barrier.ne_nil within other
    · rfl

theorem classLength?_append_of_le (found : classLength? (before ++ behind) = some more)
    (within : more ≤ before.length) (other : List Char) :
    classLength? (before ++ other) = some more := by
  obtain ⟨inside, closes, taken⟩ := take_of_classLength? found
  rw [List.take_append_of_le_length within] at taken
  have length := congrArg List.length taken
  rw [List.length_take, Nat.min_eq_left within, List.length_append, List.length_singleton] at length
  have split := List.take_append_drop more before
  rw [taken] at split
  rw [← split, length, List.append_assoc, List.append_assoc]
  exact classLength?_append closes _

theorem bracedLength_append (within : bracedLength (before ++ behind) ≤ before.length)
    (alone : before.filter isBrace = [] → (behind.filter isBrace).head? ≠ some '}' →
      (other.filter isBrace).head? ≠ some '}') :
    bracedLength (before ++ other) = bracedLength (before ++ behind) := by
  by_cases none : bracedLength (before ++ behind) = 0
  · have notNext := (bracedLength_eq_zero_iff _).mp none
    rw [none, bracedLength_eq_zero_iff]
    rw [List.filter_append] at notNext ⊢
    by_cases braces : before.filter isBrace = []
    · rw [braces, List.nil_append] at notNext ⊢
      exact alone braces notNext
    · rwa [head?_append_of_ne braces (behind.filter isBrace)]
  · unfold bracedLength at none within ⊢
    dsimp only at none within ⊢
    split at none
    · next closes =>
      rw [if_pos closes] at within ⊢
      have same := takeWhile_append_of_lt (Nat.lt_of_succ_le within) other
      have stop : (before.drop
          ((before ++ behind).takeWhile fun c => c ≠ '{' && c ≠ '}').length) ≠ [] := by
        rw [ne_eq, List.drop_eq_nil_iff]
        omega
      rw [List.drop_append_of_le_length (by omega)] at closes
      rw [same, List.drop_append_of_le_length (by omega), head?_append_of_ne stop behind,
        if_pos closes]
    · exact absurd rfl none

theorem piece_append (barrier : IsBarrier behind) (barrier' : IsBarrier other) {found : Piece}
    (first : piece c (before ++ behind) = .ok found) (within : found.more ≤ before.length)
    (alone : c = '{' → before.filter isBrace = [] → (behind.filter isBrace).head? ≠ some '}' →
      (other.filter isBrace).head? ≠ some '}') :
    piece c (before ++ other) = .ok found := by
  have question : (before ++ other).head? = some '?' ↔ (before ++ behind).head? = some '?' := by
    by_cases some : before = []
    · subst some
      exact iff_of_false (barrier'.head?_ne (by decide)) (barrier.head?_ne (by decide))
    · rw [head?_append_of_ne some behind]
  unfold piece at first ⊢
  split at first
  · rw [if_pos ‹_›]
    simp only [question]
    obtain rfl := Except.ok.inj first
    split_ifs at within ⊢ with mark
    · obtain ⟨inside, rfl⟩ : ∃ inside, before = '?' :: inside := by
        cases before with
        | nil => exact absurd mark (barrier.head?_ne (by decide))
        | cons d inside => exact ⟨inside, by simpa using mark⟩
      have same := openerLength_append barrier barrier' (Nat.le_of_succ_le_succ within)
      rw [List.cons_append, List.cons_append, List.tail_cons, List.tail_cons, same]
    · rfl
  rw [if_neg ‹_›]
  split at first
  · rw [if_pos ‹_›]
    simp only [question]
    exact first
  rw [if_neg ‹_›]
  split at first
  · next brace =>
    rw [if_pos brace]
    obtain rfl := Except.ok.inj first
    rw [bracedLength_append within (alone brace)]
  rw [if_neg ‹_›]
  split at first
  · rw [if_pos ‹_›]
    obtain rfl := Except.ok.inj first
    rw [takeWhile_append_of_lt (Nat.lt_of_succ_le within) other]
  rw [if_neg ‹_›]
  split at first
  · rw [if_pos ‹_›]
    rw [if_neg (by simp [barrier.ne_nil])] at first
    rw [if_neg (by simp [barrier'.ne_nil])]
    exact first
  rw [if_neg ‹_›]
  split at first
  · rw [if_pos ‹_›]
    cases measured : classLength? (before ++ behind) with
    | none => simp [measured] at first
    | some more =>
      rw [measured] at first
      obtain rfl := Except.ok.inj first
      rw [classLength?_append_of_le measured within other]
  rw [if_neg ‹_›]
  exact first

theorem lead_nil (outcome : Except GrammarError (List String)) : lead [] outcome = outcome := by
  cases outcome <;> rfl

theorem lead_lead (first second : List String) (outcome : Except GrammarError (List String)) :
    lead first (lead second outcome) = lead (first ++ second) outcome := by
  cases outcome with
  | ok texts => simp [lead, Except.map]
  | error error => rfl

theorem lead_injective (texts : List String) : (lead texts).Injective := by
  intro first second same
  cases first <;> cases second <;> simp_all [lead, Except.map]

theorem eq_of_lead {first second : String} {outcome other : Except GrammarError (List String)}
    {texts : List String} (same : lead [first] outcome = lead [second] other)
    (split : lead [first] outcome = .ok texts) : first = second := by
  cases outcome <;> cases other <;> simp_all [lead, Except.map]

theorem outline_map_cons (token : Token) (outcome : Except GrammarError (List Token)) :
    outline (outcome.map (token :: ·)) = lead [token.text] (outline outcome) := by
  cases outcome <;> rfl

theorem outline_ofCharsFrom (position other : Nat) (cs : List Char) :
    outline (ofCharsFrom position cs) = outline (ofCharsFrom other cs) := by
  induction position, cs using ofCharsFrom.induct generalizing other with
  | case1 position => rw [ofCharsFrom, ofCharsFrom]
  | case2 position c rest cause found =>
    rw [ofCharsFrom, ofCharsFrom, found]
    rfl
  | case3 position c rest more found text =>
    rename_i ih
    rw [ofCharsFrom, ofCharsFrom, found]
    simp only [outline_map_cons]
    rw [ih]
  | case4 position c rest more found ih =>
    rw [ofCharsFrom, ofCharsFrom, found]
    exact ih _

theorem outline_token (first : piece c rest = .ok (.token more)) :
    outline (ofCharsFrom 0 (c :: rest)) =
      lead [String.ofList (c :: rest.take more)] (outline (ofCharsFrom 0 (rest.drop more))) := by
  rw [ofCharsFrom, first]
  simp only [outline_map_cons]
  rw [outline_ofCharsFrom _ 0]

theorem outline_gap (first : piece c rest = .ok (.gap more)) :
    outline (ofCharsFrom 0 (c :: rest)) = outline (ofCharsFrom 0 (rest.drop more)) := by
  rw [ofCharsFrom, first]
  exact outline_ofCharsFrom _ 0 _

theorem outline_piece {inside : List Char} {found : Piece}
    (first : piece c (inside ++ rest) = .ok found) (length : found.more = inside.length) :
    outline (ofCharsFrom 0 (c :: (inside ++ rest))) =
      lead (found.texts (c :: inside)) (outline (ofCharsFrom 0 rest)) := by
  cases found with
  | token more =>
    obtain rfl : more = inside.length := length
    rw [outline_token first, List.take_left, List.drop_left]
    rfl
  | gap more =>
    obtain rfl : more = inside.length := length
    rw [outline_gap first, List.drop_left]
    exact (lead_nil _).symm

theorem Splits.exists_texts (splits : Splits behind before) (barrier : IsBarrier behind)
    (barrier' : IsBarrier other)
    (alone : ∀ first between, before = first ++ '{' :: between →
      Splits ('{' :: (between ++ behind)) first → between.filter isBrace = [] →
      (behind.filter isBrace).head? ≠ some '}' → (other.filter isBrace).head? ≠ some '}') :
    ∃ texts,
      outline (ofCharsFrom 0 (before ++ behind)) = lead texts (outline (ofCharsFrom 0 behind)) ∧
      outline (ofCharsFrom 0 (before ++ other)) = lead texts (outline (ofCharsFrom 0 other)) := by
  induction splits with
  | nothing => exact ⟨[], (lead_nil _).symm, (lead_nil _).symm⟩
  | @cons c inside later found first length _ ih =>
    -- A brace that is alone among the later pieces is alone among all of them.
    have later_alone : ∀ first between, later = first ++ '{' :: between →
        Splits ('{' :: (between ++ behind)) first → between.filter isBrace = [] →
        (behind.filter isBrace).head? ≠ some '}' →
        (other.filter isBrace).head? ≠ some '}' := by
      rintro start between rfl splits
      refine alone (c :: (inside ++ start)) between (by simp) (.cons ?_ length splits)
      simpa using first
    obtain ⟨texts, same, same'⟩ := ih later_alone
    have first' : piece c (inside ++ (later ++ other)) = .ok found := by
      rw [← List.append_assoc] at first ⊢
      refine piece_append barrier barrier' first (by simp [length]) ?_
      rintro rfl none
      exact alone [] (inside ++ later) rfl .nothing none
    refine ⟨found.texts (c :: inside) ++ texts, ?_, ?_⟩
    · rw [List.cons_append, List.append_assoc, outline_piece first length, same, lead_lead]
    · rw [List.cons_append, List.append_assoc, outline_piece first' length, same', lead_lead]

theorem outline_blank (rest : List Char) :
    outline (ofCharsFrom 0 (' ' :: rest)) = outline (ofCharsFrom 0 rest) :=
  outline_gap (piece_of_isBlank (by decide) rest)

theorem IsComment.isBarrier {comment after : List Char} (isComment : IsComment comment after) :
    IsBarrier (comment ++ after) := by
  cases isComment <;> exact ⟨'#', _, rfl, by decide⟩

theorem piece_comment (rest : List Char) :
    piece '#' rest = .ok (.gap ((rest.takeWhile (· ≠ '\n')).length + 1)) := rfl

theorem takeWhile_append_of_not_mem {inside : List Char} (single : '\n' ∉ inside)
    (rest : List Char) :
    (inside ++ rest).takeWhile (· ≠ '\n') = inside ++ rest.takeWhile (· ≠ '\n') :=
  List.takeWhile_append_of_pos fun c mem => by simpa using ne_of_mem_of_not_mem mem single

theorem IsComment.outline_append {comment after : List Char} (isComment : IsComment comment after) :
    outline (ofCharsFrom 0 (comment ++ after)) = outline (ofCharsFrom 0 after) := by
  cases isComment with
  | @line inside single after =>
    rw [List.cons_append, outline_gap (piece_comment _), List.append_assoc,
      takeWhile_append_of_not_mem single, List.singleton_append,
      List.takeWhile_cons_of_neg (by simp), List.append_nil, ← List.singleton_append,
      ← List.append_assoc]
    exact congrArg (fun rest => outline (ofCharsFrom 0 rest)) (List.drop_left' (by simp))
  | @last inside single =>
    rw [List.append_nil, outline_gap (piece_comment _), ← List.append_nil inside,
      takeWhile_append_of_not_mem single, List.drop_eq_nil_of_le (by simp)]

variable {comment after : List Char}

theorem head?_of_not_keepsOpen (notKept : ¬KeepsOpen before comment after)
    {first between : List Char} (split : before = first ++ '{' :: between)
    (reached : Splits ('{' :: (between ++ (comment ++ after))) first)
    (none : between.filter isBrace = [])
    (alone : ((comment ++ after).filter isBrace).head? ≠ some '}') :
    ((' ' :: after).filter isBrace).head? ≠ some '}' := by
  have space : (' ' :: after).filter isBrace = after.filter isBrace := by simp [isBrace]
  rw [space]
  rw [List.filter_append] at alone
  cases braces : comment.filter isBrace with
  | nil => rwa [braces, List.nil_append] at alone
  | cons brace others =>
    intro closes
    refine notKept ⟨first, between, split, reached, none, ?_, closes⟩
    have isBrace : isBrace brace = true :=
      (List.mem_filter.mp (braces ▸ List.mem_cons_self)).2
    rw [braces] at alone ⊢
    simp_all [Token.isBrace]

theorem outline_ne_of_keepsOpen (kept : KeepsOpen before comment after)
    {tokens : List Token} (split : ofCharsFrom 0 (before ++ (comment ++ after)) = .ok tokens) :
    outline (ofCharsFrom 0 (before ++ (comment ++ after))) ≠
      outline (ofCharsFrom 0 (before ++ ' ' :: after)) := by
  obtain ⟨first, between, rfl, splits, none, opens, closes⟩ := kept
  have brace : IsBarrier ('{' :: (between ++ (comment ++ after))) := ⟨'{', _, rfl, by decide⟩
  have brace' : IsBarrier ('{' :: (between ++ ' ' :: after)) := ⟨'{', _, rfl, by decide⟩
  obtain ⟨texts, same, same'⟩ := splits.exists_texts brace brace' fun _ _ _ _ _ _ => by
    simp [isBrace]
  -- The brace is alone before the comment, and takes up more before the space.
  have alone : bracedLength (between ++ (comment ++ after)) = 0 := by
    obtain ⟨others, braces⟩ := List.head?_eq_some_iff.mp opens
    simp [bracedLength_eq_zero_iff, none, braces]
  have longer : bracedLength (between ++ ' ' :: after) ≠ 0 := by
    rw [ne_eq, bracedLength_eq_zero_iff, not_not, List.filter_append, none, List.nil_append]
    simpa [isBrace] using closes
  have first : piece '{' (between ++ (comment ++ after)) =
      .ok (.token (bracedLength (between ++ (comment ++ after)))) := rfl
  have first' : piece '{' (between ++ ' ' :: after) =
      .ok (.token (bracedLength (between ++ ' ' :: after))) := rfl
  rw [List.append_assoc, List.cons_append] at split
  rw [List.append_assoc, List.append_assoc, List.cons_append, List.cons_append, same, same']
  intro equal
  have equal := lead_injective texts equal
  obtain ⟨later, whole⟩ : ∃ later,
      outline (ofCharsFrom 0 ('{' :: (between ++ (comment ++ after)))) = .ok later := by
    rw [split] at same
    cases outcome : outline (ofCharsFrom 0 ('{' :: (between ++ (comment ++ after)))) with
    | ok later => exact ⟨later, rfl⟩
    | error error =>
      rw [outcome] at same
      cases same
  rw [outline_token first, alone] at whole equal
  rw [outline_token first'] at equal
  have text := String.ofList_injective (eq_of_lead equal whole)
  have short := (List.cons.inj text).2.symm
  rw [List.take_zero, List.take_eq_nil_iff] at short
  rcases short with none | none
  · exact longer none
  · simp at none

/-- A skipped comment is worth a space, unless it has kept open the last brace before it. -/
theorem outline_of_skips (skips : Skips before comment after) :
    (¬KeepsOpen before comment after →
      outline (tokenize (String.ofList (before ++ (comment ++ after)))) =
        outline (tokenize (String.ofList (before ++ ' ' :: after)))) ∧
    (KeepsOpen before comment after →
      ∀ tokens, tokenize (String.ofList (before ++ (comment ++ after))) = .ok tokens →
        outline (tokenize (String.ofList (before ++ (comment ++ after)))) ≠
          outline (tokenize (String.ofList (before ++ ' ' :: after)))) := by
  simp only [tokenize_eq, String.toList_ofList]
  refine ⟨fun notKept => ?_, fun kept tokens => outline_ne_of_keepsOpen kept⟩
  have space : IsBarrier (' ' :: after) := ⟨' ', after, rfl, by decide⟩
  obtain ⟨texts, same, same'⟩ := skips.reached.exists_texts skips.isComment.isBarrier space
    fun first between => head?_of_not_keepsOpen notKept
  rw [same, same', skips.isComment.outline_append, outline_blank]

theorem outline_brace_behind :
    ¬KeepsOpen "\x7b x ".toList "#\x7b1\n".toList "\x7b2\x7d".toList ∧
      outline (tokenize "\x7b x #\x7b1\n\x7b2\x7d") = outline (tokenize "\x7b x  \x7b2\x7d") := by
  have line : IsComment "#\x7b1\n".toList "\x7b2\x7d".toList :=
    @IsComment.line ['{', '1'] (by decide) ['{', '2', '}']
  have skips : Skips "\x7b x ".toList "#\x7b1\n".toList "\x7b2\x7d".toList := by
    refine ⟨?_, line⟩
    refine @Splits.cons _ '{' [] [' ', 'x', ' '] (.token 0) (by rfl) rfl ?_
    refine @Splits.cons _ ' ' [] ['x', ' '] (.gap 0) (by rfl) rfl ?_
    refine @Splits.cons _ 'x' [] [' '] (.token 0) (by rfl) rfl ?_
    exact @Splits.cons _ ' ' [] [] (.gap 0) (by rfl) rfl .nothing
  have notKept : ¬KeepsOpen "\x7b x ".toList "#\x7b1\n".toList "\x7b2\x7d".toList := by
    rintro ⟨-, -, -, -, -, -, closes⟩
    exact absurd closes (by decide)
  exact ⟨notKept, (outline_of_skips skips).1 notKept⟩

/-- With the comment the first brace is a token, and with a space it is not. -/
theorem outline_brace_inside :
    Skips ['{'] "#\x7b\n".toList ['}'] ∧
      outline (tokenize "\x7b#\x7b\n\x7d") = .ok ["\x7b", "\x7d"] ∧
      outline (tokenize "\x7b \x7d") = .ok ["\x7b \x7d"] := by
  refine ⟨⟨?_, ?_⟩, ?_, ?_⟩
  · exact @Splits.cons _ '{' [] [] (.token 0) (by rfl) rfl .nothing
  · exact @IsComment.line ['{'] (by decide) ['}']
  · rw [tokenize_eq]
    cbv
  · rw [tokenize_eq]
    cbv

end Token

end LineGrammar
