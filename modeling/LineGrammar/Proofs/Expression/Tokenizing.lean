import LineGrammar.Proofs.Expression.Phrases

/-! Which texts are tokens again when they are written one after another. A token is found with what
follows it in sight: a sign takes up a question mark, and an opening brace reaches for the next
closing one. So texts stay apart if no question mark comes after a sign, and if an opening brace
that is alone has no closing brace next among the braces that follow. -/

namespace LineGrammar.Token

/-- The texts between the tokens, which belong to none. -/
def gaps : List Char → List (List Char)
  | [] => []
  | c :: rest =>
    match piece c rest with
    | .error _ => []
    | .ok (.token more) => gaps (rest.drop more)
    | .ok (.gap more) => (c :: rest.take more) :: gaps (rest.drop more)
termination_by cs => cs.length
decreasing_by all_goals simp only [List.length_drop, List.length_cons]; omega

/-- The text is the token that is found where it stands before `rest`. -/
def Stands (text : String) (rest : List Char) : Prop :=
  ∃ c more, text.toList = c :: more ∧ piece c (more ++ rest) = .ok (.token more.length)

def Apart : List String → Prop
  | [] => True
  | text :: later => Stands text (later.flatMap String.toList) ∧ Apart later

theorem Stands.ofCharsFrom {text : String} {rest : List Char} (stands : Stands text rest)
    (position : Nat) :
    ofCharsFrom position (text.toList ++ rest) =
      (ofCharsFrom (position + Text.byteLength text.toList) rest).map (⟨text, position⟩ :: ·) := by
  obtain ⟨c, more, spelled, found⟩ := stands
  have whole : String.ofList (c :: more) = text := by rw [← spelled, String.ofList_toList]
  rw [spelled, List.cons_append, Token.ofCharsFrom, found]
  simp only [List.take_left, List.drop_left, whole]

theorem Apart.ofCharsFrom {texts : List String} (apart : Apart texts) (position : Nat) :
    ∃ tokens, ofCharsFrom position (texts.flatMap String.toList) = .ok tokens ∧
      tokens.map (·.text) = texts := by
  induction texts generalizing position with
  | nil => exact ⟨[], by rw [List.flatMap_nil, Token.ofCharsFrom], rfl⟩
  | cons text later ih =>
    obtain ⟨stands, others⟩ := apart
    obtain ⟨tokens, split, same⟩ := ih others (position + Text.byteLength text.toList)
    refine ⟨⟨text, position⟩ :: tokens, ?_, by rw [List.map_cons, same]⟩
    rw [List.flatMap_cons, stands.ofCharsFrom, split]
    rfl

def isBrace (c : Char) : Bool := c = '{' || c = '}'

theorem isBrace_of_isNameChar {c : Char} (allowed : isNameChar c = true) : isBrace c = false := by
  have notOpening : c ≠ '{' := by
    rintro rfl
    exact absurd allowed (by decide)
  have notClosing : c ≠ '}' := by
    rintro rfl
    exact absurd allowed (by decide)
  simp [isBrace, notOpening, notClosing]

def braces (texts : List String) : List Char := (texts.flatMap String.toList).filter isBrace

/-- An opening brace that is alone has no closing brace next among the braces behind it. -/
def Lone : List String → Prop
  | [] => True
  | text :: later => (text = "\x7b" → (braces later).head? ≠ some '}') ∧ Lone later

theorem braces_cons (text : String) (texts : List String) :
    braces (text :: texts) = text.toList.filter isBrace ++ braces texts := by
  simp [braces]

theorem lone_of_forall {texts : List String} (each : ∀ text ∈ texts, text ≠ "\x7b") :
    Lone texts := by
  induction texts with
  | nil => trivial
  | cons text rest ih =>
    obtain ⟨first, others⟩ := List.forall_mem_cons.mp each
    exact ⟨fun brace => absurd brace first, ih others⟩

theorem Lone.right {first second : List String} (lone : Lone (first ++ second)) : Lone second := by
  induction first with
  | nil => exact lone
  | cons text rest ih => exact ih lone.2

theorem bracedLength_eq_zero_iff (cs : List Char) :
    bracedLength cs = 0 ↔ (cs.filter isBrace).head? ≠ some '}' := by
  have next : (cs.drop (cs.takeWhile fun c => c ≠ '{' && c ≠ '}').length).head? =
      (cs.filter isBrace).head? := by
    induction cs with
    | nil => rfl
    | cons c rest ih =>
      by_cases brace : c = '{' ∨ c = '}'
      · rcases brace with rfl | rfl <;> simp [isBrace]
      · rw [not_or] at brace
        simpa [isBrace, brace] using ih
  unfold bracedLength
  dsimp only
  rw [next]
  split <;> simp_all

theorem braces_filter {keep : String → Prop} [DecidablePred keep] {texts : List String}
    (plain : ∀ text ∈ texts, ¬keep text → text.toList.filter isBrace = []) :
    braces (texts.filter (keep ·)) = braces texts := by
  induction texts with
  | nil => rfl
  | cons text rest ih =>
    obtain ⟨first, others⟩ := List.forall_mem_cons.mp plain
    by_cases kept : keep text
    · rw [List.filter_cons_of_pos (by simpa using kept), braces_cons, braces_cons, ih others]
    · rw [List.filter_cons_of_neg (by simpa using kept), braces_cons, first kept, ih others]
      rfl

theorem Lone.filter {keep : String → Prop} [DecidablePred keep] {texts : List String}
    (lone : Lone texts)
    (plain : ∀ text ∈ texts, ¬keep text → text.toList.filter isBrace = []) :
    Lone (texts.filter (keep ·)) := by
  induction texts with
  | nil => trivial
  | cons text rest ih =>
    obtain ⟨first, others⟩ := List.forall_mem_cons.mp plain
    by_cases kept : keep text
    · rw [List.filter_cons_of_pos (by simpa using kept)]
      refine ⟨fun brace => ?_, ih lone.2 others⟩
      rw [braces_filter others]
      exact lone.1 brace
    · rw [List.filter_cons_of_neg (by simpa using kept)]
      exact ih lone.2 others

def IsName (name : String) : Prop := name ≠ "" ∧ ∀ c ∈ name.toList, isNameChar c = true

theorem IsName.filter_opener {name : String} (isName : IsName name) :
    (Phrase.opener name).toList.filter isBrace = [] := by
  have plain : name.toList.filter isBrace = [] := by
    simp only [List.filter_eq_nil_iff, Bool.not_eq_true]
    exact fun c mem => isBrace_of_isNameChar (isName.2 c mem)
  simpa [Phrase.opener, isBrace] using plain

/-- The text of a leaf that is neither white space nor the beginning of a comment. -/
def IsLeaf (text : String) : Prop :=
  IsLeafText text.toList ∧ ∀ c, text.toList.head? = some c → c ≠ '#' ∧ Text.isBlank c = false

theorem classLength?_append {inside : List Char} (closes : Pattern.isClassText inside = true)
    (rest : List Char) :
    classLength? (inside ++ ']' :: rest) = some (inside.length + 1) := by
  induction h : inside.length using Nat.strongRecOn generalizing inside with
  | ind size ih =>
    subst h
    rcases Pattern.isClassText_cases closes with rfl | ⟨c, later, rfl, plain, text⟩ |
      ⟨c, later, rfl, text⟩
    · rw [List.nil_append, classLength?.eq_def]
      simp
    · have found := ih later.length (by simp) text rfl
      rw [List.cons_append, classLength?.eq_def]
      simp [plain.1, plain.2, found]
    · have found := ih later.length (by rw [List.length_cons, List.length_cons]; omega) text rfl
      rw [List.cons_append, List.cons_append, classLength?.eq_def]
      simp [found]

theorem stands_closing (rest : List Char) : Stands ")" rest := by
  refine ⟨')', [], by simp, ?_⟩
  simp [piece, Text.isBlank, Text.isSharedSpace]

theorem stands_bar (rest : List Char) : Stands "|" rest := by
  refine ⟨'|', [], by simp, ?_⟩
  simp [piece, Text.isBlank, Text.isSharedSpace]

theorem stands_plain (rest : List Char) : Stands "(?:" rest := by
  refine ⟨'(', ['?', ':'], by simp, ?_⟩
  simp [piece, openerLength]

theorem stands_negativeLook (rest : List Char) : Stands "(?!" rest := by
  refine ⟨'(', ['?', '!'], by simp, ?_⟩
  simp [piece, openerLength]

theorem stands_opener {name : String} (isName : IsName name) (rest : List Char) :
    Stands (Phrase.opener name) rest := by
  refine ⟨'(', '?' :: 'P' :: '<' :: (name.toList ++ ['>']), by simp [Phrase.opener], ?_⟩
  have inside : (name.toList ++ '>' :: rest).takeWhile isNameChar = name.toList := by
    rw [List.takeWhile_append_of_pos isName.2]
    simp [isNameChar]
  have some : name.toList ≠ [] := by simpa using isName.1
  have closes : ('P' :: '<' :: (name.toList ++ '>' :: rest))[2 + name.toList.length]? =
      Option.some '>' := by
    rw [Nat.add_comm]
    simp
  simp [piece, openerLength, inside, some, closes]

theorem stands_sign {sign : String} {repetition : Repetition}
    (repeats : Phrase.Sign sign repetition) {rest : List Char} (unmarked : rest.head? ≠ some '?') :
    Stands sign rest := by
  cases repeats with
  | star | plus | mark => exact ⟨_, [], by simp; rfl, by simp [piece, unmarked]⟩
  | lazyStar | lazyPlus | lazyMark => exact ⟨_, ['?'], by simp; rfl, by simp [piece]⟩

theorem IsLeaf.stands {text : String} (leaf : IsLeaf text) {rest : List Char}
    (lone : text = "\x7b" → (rest.filter isBrace).head? ≠ some '}') : Stands text rest := by
  obtain ⟨shape, start⟩ := leaf
  unfold Stands
  generalize spelled : text.toList = cs at shape start
  cases shape with
  | plain c free =>
    obtain ⟨notComment, notBlank⟩ := start c rfl
    refine ⟨c, [], rfl, ?_⟩
    simp_all [roleChars, piece]
  | brace =>
    refine ⟨'{', [], rfl, ?_⟩
    have alone := lone (by rw [← String.toList_inj, spelled]; rfl)
    simp [piece, (bracedLength_eq_zero_iff rest).mpr alone]
  | escape c => exact ⟨'\\', [c], rfl, by simp [piece]⟩
  | charClass inside closes =>
    refine ⟨'[', inside ++ [']'], rfl, ?_⟩
    simp [piece, classLength?_append closes]

theorem ne_of_isBlank {c d : Char} (blank : Text.isBlank c = true)
    (special : d ∈ ['(', '*', '+', '?', '{', '}', '#', '\\', '[']) : c ≠ d := by
  have all : ∀ d ∈ ['(', '*', '+', '?', '{', '}', '#', '\\', '['], Text.isBlank d = false := by
    simp [Text.isBlank, Text.isSharedSpace]
  rintro rfl
  rw [all c special] at blank
  contradiction

theorem piece_of_isBlank {c : Char} (blank : Text.isBlank c = true) (rest : List Char) :
    piece c rest = .ok (.gap 0) := by
  unfold piece
  have ne {d : Char} := ne_of_isBlank (d := d) blank
  rw [if_neg (ne (by decide)), if_neg (by simp [ne]), if_neg (ne (by decide)),
    if_neg (ne (by decide)), if_neg (ne (by decide)), if_neg (ne (by decide)), if_pos blank]

theorem ne_of_piece {c : Char} {rest : List Char} {more : Nat}
    (found : piece c rest = .ok (.token more)) : c ≠ '#' ∧ Text.isBlank c = false := by
  refine ⟨?_, ?_⟩
  · rintro rfl
    simp [piece] at found
  · by_contra blank
    rw [piece_of_isBlank (by simpa using blank)] at found
    simp at found

theorem isBlank_of_piece {c : Char} {rest : List Char} {more : Nat}
    (found : piece c rest = .ok (.gap more)) (uncommented : c ≠ '#') :
    Text.isBlank c = true ∧ more = 0 := by
  unfold piece at found
  split at found
  · simp at found
  split at found
  · simp at found
  split at found
  · simp at found
  split at found
  · split at found <;> simp at found
  split at found
  · split at found <;> simp at found
  split at found
  · next blank =>
    obtain rfl : 0 = more := by simpa using found
    exact ⟨blank, rfl⟩
  · simp at found

theorem head?_of_piece {rest : List Char} {more : Nat} (found : piece '{' rest = .ok (.token more))
    (alone : rest.take more = []) : (rest.filter isBrace).head? ≠ some '}' := by
  obtain rfl : bracedLength rest = more := by simpa [piece] using found
  rcases List.take_eq_nil_iff.mp alone with none | rfl
  · exact (bracedLength_eq_zero_iff rest).mp none
  · simp

theorem lone_of_ofCharsFrom {position : Nat} {cs : List Char} {tokens : List Token}
    (split : ofCharsFrom position cs = .ok tokens)
    (uncommented : ∀ gap ∈ gaps cs, gap.head? ≠ some '#') :
    braces (tokens.map (·.text)) = cs.filter isBrace ∧ Lone (tokens.map (·.text)) := by
  replace split := falls_of_ofCharsFrom split
  induction split with
  | nil => exact ⟨rfl, trivial⟩
  | @token _ more c rest _ found _ ih =>
    rw [gaps, found] at uncommented
    obtain ⟨same, lone⟩ := ih uncommented
    refine ⟨?_, fun brace => ?_, lone⟩
    · rw [List.map_cons, braces_cons, same, String.toList_ofList, ← List.filter_append,
        List.cons_append, List.take_append_drop]
    · obtain ⟨rfl, alone⟩ : c = '{' ∧ rest.take more = [] := by
        simpa [← String.toList_inj] using brace
      have next := head?_of_piece found alone
      have same' : rest.drop more = rest := by
        simpa [alone] using List.take_append_drop more rest
      rwa [same, same']
  | @gap _ _ c _ _ found _ ih =>
    rw [gaps, found] at uncommented
    obtain ⟨first, others⟩ := List.forall_mem_cons.mp uncommented
    obtain ⟨same, lone⟩ := ih others
    refine ⟨same.trans ?_, lone⟩
    obtain ⟨blank, rfl⟩ := isBlank_of_piece found (by simpa using first)
    have plain : isBrace c = false := by
      simp [isBrace, ne_of_isBlank blank (d := '{'), ne_of_isBlank blank (d := '}')]
    simp [plain]

end LineGrammar.Token
