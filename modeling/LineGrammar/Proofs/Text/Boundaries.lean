import LineGrammar.Text.Bytes
import Mathlib

/-! Boundaries of a text: counted in bytes, the places before its characters are in the same order
as counted in characters, and the text between two of them is what stands there. -/

namespace LineGrammar.Text

theorem byteLength_toList (text : String) : byteLength text.toList = text.utf8ByteSize := by
  have spelled : ∀ characters : List Char, byteLength characters = String.utf8Len characters := by
    intro characters
    induction characters with
    | nil => rfl
    | cons c rest ih =>
      rw [byteLength_cons, String.utf8Len_cons, ih]
      omega
  rw [spelled, ← String.utf8ByteSize_ofList, String.ofList_toList]

theorem byteLength_of_ascii {characters : List Char} (ascii : ∀ c ∈ characters, c.utf8Size = 1) :
    byteLength characters = characters.length := by
  induction characters with
  | nil => rfl
  | cons c rest ih =>
    obtain ⟨first, others⟩ := List.forall_mem_cons.mp ascii
    rw [byteLength_cons, first, ih others, List.length_cons, Nat.add_comm]

theorem append_of_isValid {text : String} {position : Nat}
    (valid : String.Pos.Raw.IsValid text ⟨position⟩) :
    ∃ before after, text.toList = before ++ after ∧ byteLength before = position := by
  obtain ⟨before, after, rfl, size⟩ := String.Pos.Raw.isValid_iff_exists_append.mp valid
  refine ⟨before.toList, after.toList, String.toList_append, ?_⟩
  rw [byteLength_toList]
  exact (congrArg String.Pos.Raw.byteIdx size).symm

theorem isValid_of_append {text : String} {before after : List Char}
    (split : text.toList = before ++ after) :
    String.Pos.Raw.IsValid text ⟨byteLength before⟩ := by
  rw [String.Pos.Raw.isValid_iff_exists_append]
  refine ⟨String.ofList before, String.ofList after, ?_, ?_⟩
  · rw [← String.ofList_append, ← split, String.ofList_toList]
  · rw [String.rawEndPos, ← byteLength_toList, String.toList_ofList]

theorem before?_append {text : String} {before after : List Char}
    (split : text.toList = before ++ after) :
    before? text (byteLength before) = some (String.ofList before) := by
  rw [before?, split, cut?_append, Option.map_some]

theorem before?_take (text : String) (position : Nat) :
    before? text (byteLength (text.toList.take position)) =
      some (String.ofList (text.toList.take position)) :=
  before?_append (List.take_append_drop position text.toList).symm

theorem monotone_byteLength_take (characters : List Char) :
    Monotone fun position => byteLength (characters.take position) := by
  intro position later le
  have split : (characters.take later).take position = characters.take position := by
    rw [List.take_take, Nat.min_eq_left le]
  have total := byteLength_append (characters.take position) ((characters.take later).drop position)
  rw [← split, List.take_append_drop] at total
  show byteLength (characters.take position) ≤ byteLength (characters.take later)
  rw [← split]
  omega

theorem byteLength_take_lt {characters : List Char} {first second : Nat} (less : first < second)
    (within : second ≤ characters.length) :
    byteLength (characters.take first) < byteLength (characters.take second) := by
  have split : (characters.take second).take first = characters.take first := by
    rw [List.take_take, Nat.min_eq_left (Nat.le_of_lt less)]
  obtain ⟨c, rest, more⟩ : ∃ c rest, (characters.take second).drop first = c :: rest := by
    refine List.exists_cons_of_ne_nil fun none => ?_
    have := congrArg List.length none
    simp only [List.length_drop, List.length_take, List.length_nil] at this
    omega
  have total := byteLength_append ((characters.take second).take first) (c :: rest)
  rw [← more, List.take_append_drop, split, more, byteLength_cons] at total
  have := c.utf8Size_pos
  omega

theorem byteLength_le_iff {first second characters : List Char} (h : first <+: characters)
    (h' : second <+: characters) :
    byteLength first ≤ byteLength second ↔ first.length ≤ second.length := by
  have whole := List.prefix_iff_eq_take.mp h
  have whole' := List.prefix_iff_eq_take.mp h'
  constructor
  · intro le
    by_contra longer
    have less := byteLength_take_lt (Nat.lt_of_not_le longer) h.length_le
    rw [← whole, ← whole'] at less
    omega
  · intro le
    have mono := monotone_byteLength_take characters le
    dsimp only at mono
    rwa [← whole, ← whole'] at mono

theorem between?_append {text : String} {before inside after : List Char}
    (split : text.toList = before ++ (inside ++ after)) :
    between? text (byteLength before) (byteLength before + byteLength inside) =
      some (String.ofList inside) := by
  rw [between?, if_pos (by omega), split, cut?_append, Nat.add_sub_cancel_left]
  simp [cut?_append]

theorem between?_take (text : String) {first second : Nat} (le : first ≤ second) :
    between? text (byteLength (text.toList.take first)) (byteLength (text.toList.take second)) =
      some (String.ofList ((text.toList.take second).drop first)) := by
  have front : (text.toList.take second).take first = text.toList.take first := by
    rw [List.take_take, Nat.min_eq_left le]
  have middle := List.take_append_drop first (text.toList.take second)
  have split : text.toList = text.toList.take first ++
      ((text.toList.take second).drop first ++ text.toList.drop second) := by
    rw [← List.append_assoc, ← front, middle, List.take_append_drop]
  have found := between?_append split
  rwa [← byteLength_append, ← front, middle, front] at found

theorem exists_between?_take {text : String} {first second : Nat}
    (less : byteLength (text.toList.take first) < byteLength (text.toList.take second)) :
    ∃ inside, between? text (byteLength (text.toList.take first))
      (byteLength (text.toList.take second)) = some inside := by
  have ordered : first ≤ second := by
    by_contra reversed
    have mono := monotone_byteLength_take text.toList (Nat.le_of_not_le reversed)
    dsimp only at mono
    omega
  exact ⟨_, between?_take text ordered⟩

theorem append_of_between? {text inside : String} {start stop : Nat}
    (found : between? text start stop = some inside) :
    ∃ before after, text.toList = before ++ (inside.toList ++ after) ∧ byteLength before = start ∧
      byteLength before + byteLength inside.toList = stop := by
  unfold between? at found
  split at found
  · next ordered =>
    obtain ⟨⟨before, rest⟩, cut, found⟩ := Option.bind_eq_some_iff.mp found
    obtain ⟨⟨inside', after⟩, cut', same⟩ := Option.map_eq_some_iff.mp found
    obtain ⟨split, start'⟩ := append_of_cut? cut
    obtain ⟨split', length⟩ := append_of_cut? cut'
    obtain rfl : String.ofList inside' = inside := same
    refine ⟨before, after, ?_, start', ?_⟩
    · rw [split, split', String.toList_ofList]
    · rw [String.toList_ofList]
      omega
  · simp at found

/-- The boundary of the text behind which `rest` stands. -/
def IsBefore (text : String) (position : Nat) (rest : List Char) : Prop :=
  ∃ before, text.toList = before ++ rest ∧ byteLength before = position

variable {text : String} {position : Nat} {rest : List Char}

theorem IsBefore.from? (isBefore : IsBefore text position rest) :
    from? text position = some (String.ofList rest) := by
  obtain ⟨before, split, rfl⟩ := isBefore
  rw [Text.from?, split, cut?_append, Option.map_some]

theorem IsBefore.behind {front after : List Char}
    (isBefore : IsBefore text position (front ++ after)) :
    IsBefore text (position + byteLength front) after := by
  obtain ⟨before, split, rfl⟩ := isBefore
  exact ⟨before ++ front, by rw [split, List.append_assoc], byteLength_append before front⟩

theorem IsBefore.lt (isBefore : IsBefore text position rest) (some : rest ≠ []) :
    position < text.utf8ByteSize := by
  obtain ⟨before, split, rfl⟩ := isBefore
  obtain ⟨c, more, rfl⟩ := List.exists_cons_of_ne_nil some
  have := c.utf8Size_pos
  rw [← byteLength_toList, split, byteLength_append, byteLength_cons]
  omega

end LineGrammar.Text
