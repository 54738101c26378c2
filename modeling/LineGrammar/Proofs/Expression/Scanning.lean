import LineGrammar.Expression.Parsing
import LineGrammar.Proofs.Text.Boundaries

/-! The tokenizer counts bytes, an argument about its tokens speaks of characters. Here the
characters of an expression are split with lengths in characters, and both give the same tokens:
every length in bytes is that of whole characters, so each step of the tokenizer starts at a
boundary and ends at one. -/

namespace LineGrammar

namespace Token

/-- What a character and those that follow it make up: a token, or a gap, with `more` characters
after the first. -/
inductive Piece
  | token (more : Nat)
  | gap (more : Nat)
  deriving DecidableEq, Repr

def throughParenthesis (cs : List Char) : Nat :=
  let inside := cs.takeWhile (· ≠ ')')
  min (inside.length + 1) cs.length

def openerLength (cs : List Char) : Nat :=
  if "P<".toList.isPrefixOf cs then
    let name := (cs.drop 2).takeWhile isNameChar
    if name ≠ [] ∧ (cs.drop (2 + name.length)).head? = some '>' then name.length + 3 else 2
  else if "P=".toList.isPrefixOf cs || "#".toList.isPrefixOf cs then throughParenthesis cs
  else if "<=".toList.isPrefixOf cs || "<!".toList.isPrefixOf cs then 2
  else min 1 cs.length

def bracedLength (cs : List Char) : Nat :=
  let inside := cs.takeWhile fun c => c ≠ '{' && c ≠ '}'
  if (cs.drop inside.length).head? = some '}' then inside.length + 1 else 0

def classLength? : List Char → Option Nat
  | [] => none
  | c :: rest =>
    if c = ']' then some 1
    else if c = '\\' then
      match rest with
      | [] => none
      | _ :: more => (classLength? more).map (· + 2)
    else (classLength? rest).map (· + 1)

def piece (c : Char) (rest : List Char) : Except Malformed Piece :=
  if c = '(' then .ok (.token (if rest.head? = some '?' then openerLength rest.tail + 1 else 0))
  else if c = '*' ∨ c = '+' ∨ c = '?' then
    .ok (.token (if rest.head? = some '?' then 1 else 0))
  else if c = '{' then .ok (.token (bracedLength rest))
  else if c = '#' then .ok (.gap ((rest.takeWhile (· ≠ '\n')).length + 1))
  else if c = '\\' then if rest = [] then .error .danglingEscape else .ok (.token 1)
  else if c = '[' then
    match classLength? rest with
    | some length => .ok (.token length)
    | none => .error .unterminatedClass
  else if Text.isBlank c then .ok (.gap 0)
  else .ok (.token 0)

def ofCharsFrom (position : Nat) : List Char → Except GrammarError (List Token)
  | [] => .ok []
  | c :: rest =>
    match piece c rest with
    | .error cause => .error (.malformed cause position)
    | .ok (.token more) =>
      let text := c :: rest.take more
      (ofCharsFrom (position + Text.byteLength text) (rest.drop more)).map
        (⟨String.ofList text, position⟩ :: ·)
    | .ok (.gap more) =>
      ofCharsFrom (position + Text.byteLength (c :: rest.take more)) (rest.drop more)
termination_by cs => cs.length
decreasing_by all_goals simp only [List.length_drop, List.length_cons]; omega

variable {text : String} {c : Char} {cs rest tail : List Char}

theorem drop_length_takeWhile (test : Char → Bool) (cs : List Char) :
    cs.drop (cs.takeWhile test).length = cs.dropWhile test := by
  induction cs with
  | nil => rfl
  | cons c rest ih => cases passes : test c <;> simp [passes, ih]

theorem take_length_takeWhile {test : Char → Bool} (behind : cs.dropWhile test = c :: rest) :
    cs.take ((cs.takeWhile test).length + 1) = cs.takeWhile test ++ [c] := by
  have split : cs.takeWhile test ++ cs.dropWhile test = cs := List.takeWhile_append_dropWhile
  rw [behind] at split
  generalize cs.takeWhile test = inside at split ⊢
  rw [← split, List.take_length_add_append, List.take_one, List.head?_cons, Option.toList_some]

theorem find?_placesFrom (start : Nat) (cs : List Char) (test : Char → Bool) :
    ((Text.placesFrom start cs).find? fun (_, c) => test c).map (·.1) =
      (cs.dropWhile (!test ·)).head?.map fun _ =>
        start + Text.byteLength (cs.takeWhile (!test ·)) := by
  induction cs generalizing start with
  | nil => rfl
  | cons c rest ih =>
    cases passes : test c with
    | true => simp [Text.placesFrom, passes]
    | false => simp [Text.placesFrom, passes, ih, Nat.add_assoc]

theorem offset?_ofList (cs : List Char) (test : Char → Bool) :
    Text.offset? (String.ofList cs) test =
      (cs.dropWhile (!test ·)).head?.map fun _ => Text.byteLength (cs.takeWhile (!test ·)) := by
  rw [Text.offset?, String.toList_ofList, find?_placesFrom]
  simp only [Nat.zero_add]

theorem between?_eq_singleton_iff (narrow : c.utf8Size = 1) (before after : List Char) :
    Text.between? (String.ofList (before ++ after)) (Text.byteLength before)
      (Text.byteLength before + 1) = some (String.ofList [c]) ↔ after.head? = some c := by
  rw [Text.between?, if_pos (by omega), String.toList_ofList, Text.cut?_append,
    Nat.add_sub_cancel_left]
  cases after with
  | nil => simp [Text.cut?]
  | cons d more =>
    by_cases fits : d.utf8Size ≤ 1
    · have wide := d.utf8Size_pos
      have width : d.utf8Size = 1 := by omega
      simp [Text.cut?, width]
    · have other : d ≠ c := by
        rintro rfl
        omega
      simp [Text.cut?, fits, other]

theorem from?_of_append (before : List Char) (spelled : text.toList = before ++ tail) :
    Text.from? text (Text.byteLength before) = some (String.ofList tail) :=
  Text.IsBefore.from? ⟨before, spelled, rfl⟩

theorem byteLength_pos_iff (cs : List Char) : 0 < Text.byteLength cs ↔ cs ≠ [] := by
  cases cs with
  | nil => simp
  | cons c rest =>
    have := c.utf8Size_pos
    simp only [Text.byteLength_cons, ne_eq, reduceCtorEq, not_false_eq_true, iff_true]
    omega

theorem bytesThrough_eq (narrow : c.utf8Size = 1) (text : String) :
    bytesThrough text c =
      Text.byteLength (text.toList.take ((text.toList.takeWhile (· ≠ c)).length + 1)) := by
  have split : text.toList.takeWhile (· ≠ c) ++ text.toList.dropWhile (· ≠ c) = text.toList :=
    List.takeWhile_append_dropWhile
  have first := List.head?_dropWhile_not (· ≠ c) text.toList
  have found := offset?_ofList text.toList (· = c)
  simp only [String.ofList_toList, ← decide_not] at found
  rw [bytesThrough, found]
  cases behind : text.toList.dropWhile (· ≠ c) with
  | nil =>
    rw [behind, List.append_nil] at split
    rw [split, List.take_of_length_le (by omega)]
    rfl
  | cons d more =>
    rw [behind] at first
    obtain rfl : d = c := by simpa using first
    rw [take_length_takeWhile behind, Text.byteLength_append, Text.byteLength_cons, narrow]
    rfl

theorem nameBytes_ofList (tail : List Char) :
    (Text.offset? (String.ofList tail) (!isNameChar ·)).getD (Text.byteLength tail) =
      Text.byteLength (tail.takeWhile isNameChar) := by
  have split : tail.takeWhile isNameChar ++ tail.dropWhile isNameChar = tail :=
    List.takeWhile_append_dropWhile
  rw [offset?_ofList]
  simp only [Bool.not_not]
  cases behind : tail.dropWhile isNameChar with
  | nil =>
    rw [behind, List.append_nil] at split
    rw [split]
    rfl
  | cons d more => rfl

theorem byteLength_group (tail : List Char) :
    Text.byteLength ('(' :: '?' :: tail) = 2 + Text.byteLength tail := by
  rw [Text.byteLength_cons, Text.byteLength_cons, ← Nat.add_assoc]
  rfl

theorem openerBytes_named (spelled : text.toList = '(' :: '?' :: 'P' :: '<' :: tail) :
    openerBytes text = Text.byteLength
      ('(' :: '?' :: ('P' :: '<' :: tail).take (openerLength ('P' :: '<' :: tail))) := by
  have behind : Text.from? text 4 = some (String.ofList tail) :=
    from?_of_append ['(', '?', 'P', '<'] spelled
  have closes := between?_eq_singleton_iff (c := '>') rfl (tail.takeWhile isNameChar)
    (tail.dropWhile isNameChar)
  rw [List.takeWhile_append_dropWhile, show String.ofList ['>'] = ">" from rfl] at closes
  have marked : "(?P<".toList.isPrefixOf ('(' :: '?' :: 'P' :: '<' :: tail) = true := by simp
  have marked' : "P<".toList.isPrefixOf ('P' :: '<' :: tail) = true := by simp
  unfold openerBytes openerLength
  rw [spelled, if_pos marked, if_pos marked', behind]
  simp only [Option.getD_some, String.toList_ofList, nameBytes_ofList, byteLength_pos_iff, closes,
    Nat.add_comm 2, List.drop_succ_cons, List.drop_zero, drop_length_takeWhile]
  split
  · next named =>
    obtain ⟨more, after⟩ := List.head?_eq_some_iff.mp named.2
    rw [List.take_succ_cons, List.take_succ_cons, take_length_takeWhile after]
    simp [Char.utf8Size]
    omega
  · simp [Char.utf8Size]

theorem openerBytes_ofList (spelled : text.toList = '(' :: '?' :: tail) :
    openerBytes text = Text.byteLength ('(' :: '?' :: tail.take (openerLength tail)) := by
  have behind : Text.from? text 2 = some (String.ofList tail) :=
    from?_of_append ['(', '?'] spelled
  by_cases named : "P<".toList.isPrefixOf tail
  · obtain ⟨more, rfl⟩ := List.isPrefixOf_iff_prefix.mp named
    exact openerBytes_named spelled
  have mark (signs : List Char) :
      ('(' :: '?' :: signs).isPrefixOf text.toList = signs.isPrefixOf tail := by simp [spelled]
  unfold openerBytes openerLength
  rw [show "(?P<".toList = '(' :: '?' :: "P<".toList by simp,
    show "(?P=".toList = '(' :: '?' :: "P=".toList by simp,
    show "(?#".toList = '(' :: '?' :: "#".toList by simp,
    show "(?<=".toList = '(' :: '?' :: "<=".toList by simp,
    show "(?<!".toList = '(' :: '?' :: "<!".toList by simp]
  simp only [mark, if_neg named]
  split
  · rw [bytesThrough_eq rfl, spelled, throughParenthesis, ← List.take_eq_take_min]
    simp
  split
  · next looksBehind =>
    have signs : tail.take 2 = ['<', '='] ∨ tail.take 2 = ['<', '!'] := by
      rw [Bool.or_eq_true, List.isPrefixOf_iff_prefix, List.isPrefixOf_iff_prefix] at looksBehind
      obtain ⟨more, rfl⟩ | ⟨more, rfl⟩ := looksBehind <;> simp
    rcases signs with signs | signs <;> rw [signs] <;> rfl
  · rw [behind]
    cases tail with
    | nil => rfl
    | cons c more =>
      rw [List.length_cons, Nat.min_eq_left (by omega), byteLength_group]
      simp

theorem braceBytes_ofList (spelled : text.toList = '{' :: tail) :
    braceBytes text = Text.byteLength ('{' :: tail.take (bracedLength tail)) := by
  have behind : Text.from? text 1 = some (String.ofList tail) :=
    from?_of_append ['{'] spelled
  have found : Text.offset? (String.ofList tail) (fun c => c = '{' || c = '}') =
      (tail.dropWhile fun c => c ≠ '{' && c ≠ '}').head?.map fun _ =>
        Text.byteLength (tail.takeWhile fun c => c ≠ '{' && c ≠ '}') := by
    simpa only [Bool.not_or, ← decide_not] using offset?_ofList tail fun c => c = '{' || c = '}'
  have closes := between?_eq_singleton_iff (c := '}') rfl
    (tail.takeWhile fun c => c ≠ '{' && c ≠ '}') (tail.dropWhile fun c => c ≠ '{' && c ≠ '}')
  rw [List.takeWhile_append_dropWhile, show String.ofList ['}'] = "\x7d" from rfl] at closes
  unfold braceBytes bracedLength
  simp only [behind, Option.getD_some, found, drop_length_takeWhile]
  cases after : tail.dropWhile fun c => c ≠ '{' && c ≠ '}' with
  | nil => simp [Char.utf8Size]
  | cons d more =>
    rw [after] at closes
    by_cases closing : d = '}'
    · simp only [List.head?_cons, Option.map_some, if_pos (closes.mpr (congrArg some closing)),
        closing, if_true, take_length_takeWhile after]
      simp [Char.utf8Size]
      omega
    · have stays := mt closes.mp (by simpa using closing)
      simp only [List.head?_cons, Option.map_some, if_neg stays, Option.some.injEq, closing,
        if_false]
      rfl

theorem classEnd?_placesFrom (start : Nat) (cs : List Char) :
    classEnd? (Text.placesFrom start cs) =
      (classLength? cs).map fun length => start + Text.byteLength (cs.take length) := by
  induction cs using classLength?.induct generalizing start with
  | case1 => rfl
  | case2 rest =>
    rw [Text.placesFrom, classEnd?.eq_def, classLength?.eq_def]
    simp [Char.utf8Size]
  | case3 _ => simp [Text.placesFrom, classEnd?, classLength?]
  | case4 e more _ ih =>
    rw [Text.placesFrom, Text.placesFrom, classEnd?.eq_def, classLength?.eq_def]
    simp [ih, Function.comp_def, Nat.add_assoc]
  | case5 c rest notClosing notEscape ih =>
    rw [Text.placesFrom, classEnd?.eq_def, classLength?.eq_def]
    simp [ih, notClosing, notEscape, Function.comp_def, Nat.add_assoc]

def Piece.scanned (c : Char) (rest : List Char) : Piece → Scanned
  | .token more => .keep (Text.byteLength (c :: rest.take more))
  | .gap more => .skip (Text.byteLength (c :: rest.take more))

theorem isPrefixOf_group_iff (c : Char) (rest : List Char) :
    "(?".toList.isPrefixOf (c :: rest) = true ↔ c = '(' ∧ rest.head? = some '?' := by
  have marks : "(?".toList = ['(', '?'] := by simp
  rw [marks, @eq_comm Char c]
  cases rest with
  | nil => simp [List.isPrefixOf]
  | cons d more => simp [List.isPrefixOf, @eq_comm Char d]

theorem scan_group (spelled : text.toList = '(' :: rest) (position : Nat) :
    ∃ found, piece '(' rest = .ok found ∧ scan text position = .ok (found.scanned '(' rest) := by
  unfold scan
  rw [spelled, List.head?_cons]
  dsimp only
  by_cases marked : rest.head? = some '?'
  · obtain ⟨tail, rfl⟩ := List.head?_eq_some_iff.mp marked
    refine ⟨.token (openerLength tail + 1), by simp [piece], ?_⟩
    rw [if_pos ((isPrefixOf_group_iff ..).mpr ⟨rfl, rfl⟩), openerBytes_ofList spelled]
    rfl
  · refine ⟨.token 0, by simp [piece, marked], ?_⟩
    rw [if_neg fun opens => marked ((isPrefixOf_group_iff ..).mp opens).2, if_pos (.inl rfl)]
    rfl

theorem scan_sign (sign : c = '*' ∨ c = '+' ∨ c = '?') (spelled : text.toList = c :: rest)
    (position : Nat) :
    ∃ found, piece c rest = .ok found ∧ scan text position = .ok (found.scanned c rest) := by
  have narrow : c.utf8Size = 1 := by rcases sign with rfl | rfl | rfl <;> rfl
  have other : c ≠ '(' ∧ c ≠ ')' ∧ c ≠ '|' := by rcases sign with rfl | rfl | rfl <;> simp
  have marked := between?_eq_singleton_iff (c := '?') rfl [c] rest
  rw [List.singleton_append, ← spelled, String.ofList_toList, Text.byteLength_cons, narrow,
    Text.byteLength_nil, Nat.add_zero, show String.ofList ['?'] = "?" from rfl] at marked
  refine ⟨.token (if rest.head? = some '?' then 1 else 0), by simp [piece, other, sign], ?_⟩
  unfold scan
  rw [spelled, List.head?_cons]
  dsimp only
  rw [if_neg fun opens => other.1 ((isPrefixOf_group_iff ..).mp opens).1, if_neg (by simp [other]),
    if_pos sign]
  simp only [marked, Piece.scanned]
  split
  · next lazy =>
    obtain ⟨tail, rfl⟩ := List.head?_eq_some_iff.mp lazy
    rw [List.take_succ_cons, List.take_zero, Text.byteLength_cons, narrow]
    rfl
  · rw [List.take_zero, Text.byteLength_cons, narrow]
    rfl

/-- The tokenizer takes the bytes of whole characters. -/
theorem scan_ofList (spelled : text.toList = c :: rest) (position : Nat) :
    scan text position =
      ((piece c rest).map (Piece.scanned c rest)).mapError (.malformed · position) := by
  have behind : Text.from? text c.utf8Size = some (String.ofList rest) :=
    from?_of_append [c] spelled
  by_cases group : c = '('
  · subst group
    obtain ⟨found, split, same⟩ := scan_group spelled position
    rw [split, same]
    rfl
  by_cases sign : c = '*' ∨ c = '+' ∨ c = '?'
  · obtain ⟨found, split, same⟩ := scan_sign sign spelled position
    rw [split, same]
    rfl
  unfold scan
  rw [spelled, List.head?_cons]
  dsimp only
  rw [if_neg (fun opens => group ((isPrefixOf_group_iff c rest).mp opens).1)]
  unfold piece
  rw [if_neg group, if_neg sign]
  by_cases closes : c = ')' ∨ c = '|'
  · rcases closes with rfl | rfl <;> simp [Text.isBlank, Text.isSharedSpace] <;> rfl
  rw [if_neg (by tauto), if_neg sign]
  split
  · next brace =>
    subst brace
    rw [braceBytes_ofList spelled]
    rfl
  split
  · next comment =>
    subst comment
    rw [bytesThrough_eq rfl, spelled]
    rfl
  split
  · next escape =>
    subst escape
    rw [show '\\'.utf8Size = 1 from rfl] at behind
    rw [behind]
    cases rest with
    | nil => rfl
    | cons e more => simp; rfl
  split
  · next charClass =>
    subst charClass
    rw [classBytes?, spelled, Text.placesFrom, List.drop_succ_cons, List.drop_zero,
      classEnd?_placesFrom]
    cases classLength? rest with
    | none => rfl
    | some length => simp; rfl
  split <;> rfl

variable {expression : String} {position : Nat}

theorem tokensFrom_of_from? (behind : Text.from? expression position = some text)
    (nonempty : text ≠ "") :
    tokensFrom expression position =
      match scan text position with
      | .error error => .error error
      | .ok (.skip length) => tokensFrom expression (position + length)
      | .ok (.keep length) =>
        match Text.before? text length with
        | none => tokensFrom expression (position + length)
        | some token =>
          (tokensFrom expression (position + length)).map (⟨token, position⟩ :: ·) := by
  rw [tokensFrom]
  split
  · simp_all
  · next rest found =>
    obtain rfl : text = rest := by simpa [behind] using found
    rw [dif_neg nonempty]
    split
    · next error read => rw [read]
    · next length read => rw [read]
    · next length read => cases before : Text.before? text length <;> simp only [read, before]

/-- Each step of the tokenizer ends at a boundary, so it goes on with the characters behind. -/
theorem tokensFrom_eq {cs : List Char} (isBefore : Text.IsBefore expression position cs) :
    tokensFrom expression position = ofCharsFrom position cs := by
  induction position, cs using ofCharsFrom.induct with
  | case1 position =>
    rw [tokensFrom, ofCharsFrom]
    split
    · rfl
    · next rest found =>
      obtain rfl : "" = rest := by simpa [isBefore.from?] using found
      rfl
  | case2 position c rest cause found =>
    rw [tokensFrom_of_from? isBefore.from? (by simp), scan_ofList String.toList_ofList, found,
      ofCharsFrom, found]
    rfl
  | case3 position c rest more found text ih =>
    have split : c :: rest = text ++ rest.drop more := by simp [text]
    have cut := Text.before?_append (String.toList_ofList.trans split)
    rw [tokensFrom_of_from? isBefore.from? (by simp), scan_ofList String.toList_ofList,
      ofCharsFrom, found]
    dsimp only [Except.map, Except.mapError, Piece.scanned]
    rw [cut, ih (split ▸ isBefore).behind]
  | case4 position c rest more found ih =>
    have split : c :: rest = (c :: rest.take more) ++ rest.drop more := by simp
    rw [tokensFrom_of_from? isBefore.from? (by simp), scan_ofList String.toList_ofList,
      ofCharsFrom, found]
    exact ih (split ▸ isBefore).behind

theorem tokenize_eq (expression : String) :
    tokenize expression = ofCharsFrom 0 expression.toList :=
  tokensFrom_eq ⟨[], rfl, rfl⟩

end Token

theorem Tree.ofExpression_eq (expression : String) :
    ofExpression expression = (Token.ofCharsFrom 0 expression.toList).bind ofTokens := by
  rw [ofExpression, Token.tokenize_eq]

end LineGrammar
