import LineGrammar.Proofs.Pattern.Numbering

/-! Patterns held between the two ends of the text. Such a pattern is found at the start of the text
or nowhere, and what it captures is what the first way to the end captures. A trailing part that
takes as little as it can leaves the first way of the pattern before it alone. -/

namespace LineGrammar

namespace Pattern

variable {input : Array Char}

theorem Spans.le_size {pattern : Pattern} {direction : Direction} {i j : Nat}
    (spans : pattern.Spans input direction i j) (inside : i ≤ input.size) : j ≤ input.size := by
  induction pattern generalizing direction i j with
  | empty => exact spans ▸ inside
  | one set =>
    obtain ⟨c, next, -⟩ := spans
    cases direction with
    | forward =>
      obtain ⟨c', present, eq⟩ := Option.map_eq_some_iff.mp next
      obtain ⟨before, -⟩ := Array.getElem?_eq_some_iff.mp present
      obtain ⟨-, rfl⟩ := Prod.mk.inj eq
      exact before
    | backward =>
      have less := Direction.room_lt next
      simp only [Direction.room] at less
      omega
  | boundary side lines => exact spans.1 ▸ inside
  | sequence first second hfirst hsecond =>
    cases direction with
    | forward =>
      obtain ⟨k, before, after⟩ := spans
      exact hsecond after (hfirst before inside)
    | backward =>
      obtain ⟨k, before, after⟩ := spans
      exact hfirst after (hsecond before inside)
  | choice first second hfirst hsecond =>
    exact spans.elim (hfirst · inside) (hsecond · inside)
  | capture group body hbody => exact hbody spans inside
  | repeated body repetition hbody =>
    obtain ⟨further, -, steps⟩ := spans
    exact steps.preserves (· ≤ input.size) (fun _ _ step => hbody step) inside
  | look side negated body hbody => exact spans.1 ▸ inside

theorem Spans.le {pattern : Pattern} {i j : Nat} (spans : pattern.Spans input .forward i j) :
    i ≤ j := by
  rcases spans.room with rfl | less
  · exact Nat.le_refl i
  · simp only [Direction.room] at less
    omega

theorem position_le_size {pattern : Pattern} {point reached : Point}
    (mem : reached ∈ pattern.ways input .forward point) (inside : point.position ≤ input.size) :
    reached.position ≤ input.size :=
  Spans.le_size ((ways_reaches input pattern .forward point _).mp ⟨reached, mem, rfl⟩) inside

theorem ways_stop {point : Point} (inside : point.position ≤ input.size) :
    (boundary .forward false).ways input .forward point =
      if point.position = input.size then [point] else [] := by
  simp only [ways, Ways.boundary, Direction.next?]
  by_cases stops : point.position = input.size
  · simp [stops]
  · have more : point.position < input.size := by omega
    simp [stops, more]

theorem find?_anchored (terms : List Pattern) :
    (ofTerms (.boundary .backward false :: terms)).find? input =
      ((ofTerms terms).ways input .forward ⟨0, []⟩).head?.map (·.captures) := by
  have first (start : Nat) (inside : start ≤ input.size) :
      (boundary .backward false).ways input .forward ⟨start, []⟩ =
        if start = 0 then [⟨start, []⟩] else [] := by
    cases start with
    | zero => simp [ways, Ways.boundary, Direction.next?]
    | succ before =>
      have present : before < input.size := by omega
      simp [ways, Ways.boundary, Direction.next?, present]
  have started (start : Nat) (inside : start ≤ input.size) :
      (ofTerms (.boundary .backward false :: terms)).matcher input .forward ⟨start, []⟩ some =
        if start = 0 then ((ofTerms terms).ways input .forward ⟨start, []⟩).head? else none := by
    rw [matcher_follows, ways_ofTerms_cons, Ways.sequence, first start inside]
    split
    · rw [List.flatMap_singleton]
      cases (ofTerms terms).ways input .forward ⟨start, []⟩ <;> rfl
    · rfl
  have others : ((List.range input.size).map Nat.succ).findSome? (fun start =>
      ((ofTerms (.boundary .backward false :: terms)).matcher input .forward ⟨start, []⟩ some).map
        (·.captures)) = none := by
    rw [List.findSome?_eq_none_iff]
    intro start mem
    obtain ⟨before, mem', rfl⟩ := List.mem_map.mp mem
    rw [started (before + 1) (List.mem_range.mp mem'), if_neg (by omega)]
    rfl
  rw [find?, findFrom, List.range_succ_eq_map, List.findSome?_cons, started 0 (Nat.zero_le _),
    if_pos rfl, others]
  cases ((ofTerms terms).ways input .forward ⟨0, []⟩).head? <;> rfl

theorem findSome?_congr {α β : Type} {f g : α → Option β} {xs : List α}
    (same : ∀ x ∈ xs, f x = g x) : xs.findSome? f = xs.findSome? g := by
  induction xs with
  | nil => rfl
  | cons x xs ih =>
    rw [List.findSome?_cons, List.findSome?_cons, same x List.mem_cons_self,
      ih fun y mem => same y (List.mem_cons_of_mem _ mem)]

theorem find?_covering (pattern : Pattern) :
    (ofTerms [.boundary .backward false, pattern, .boundary .forward false]).find? input =
      ((pattern.ways input .forward ⟨0, []⟩).find? (·.position = input.size)).map
        (·.captures) := by
  rw [find?_anchored, ways_ofTerms_cons, Ways.sequence, List.head?_flatMap,
    List.find?_eq_findSome?_guard]
  congr 1
  refine findSome?_congr fun reached mem => ?_
  rw [ofTerms, ways_stop (position_le_size mem (Nat.zero_le _))]
  by_cases stops : reached.position = input.size <;> simp [stops, Option.guard]

def anything : Pattern := .repeated (.one .all) ⟨0, none, false⟩

theorem find?_upTo_all (position : Nat) {count : Nat} (outer : List Capture)
    (count_eq : position + count = input.size) :
    ((Ways.one input .all .forward).upTo outer false count ⟨position, outer⟩).find?
      (·.position = input.size) = some ⟨input.size, outer⟩ := by
  induction count generalizing position with
  | zero =>
    obtain rfl : position = input.size := by omega
    simp [Ways.upTo, Ways.empty]
  | succ count ih =>
    have inside : position < input.size := by omega
    have elsewhere : position ≠ input.size := by omega
    have step : Ways.one input .all .forward ⟨position, outer⟩ = [⟨position + 1, outer⟩] := by
      simp [Ways.one, Direction.next?, inside]
    simp [Ways.upTo, step, elsewhere, ih (position + 1) (by omega)]

theorem find?_anything {point : Point} (inside : point.position ≤ input.size) :
    (anything.ways input .forward point).find? (·.position = input.size) =
      some ⟨input.size, point.captures⟩ := by
  have rest : point.position + (input.size - point.position) = input.size := by omega
  have found := find?_upTo_all point.position point.captures rest
  simpa [anything, ways, Ways.repeated, Ways.exactly, Ways.empty, Ways.further, Direction.room]
    using found

theorem find?_trailing (pattern : Pattern) (group : Nat) :
    (ofTerms [.boundary .backward false, pattern, .capture group anything,
        .boundary .forward false]).find? input =
      (pattern.ways input .forward ⟨0, []⟩).head?.map fun reached =>
        ⟨group, reached.position, input.size⟩ :: reached.captures := by
  rw [find?_anchored, ways_ofTerms_cons, Ways.sequence, List.head?_flatMap]
  have finishes (reached : Point) (inside : reached.position ≤ input.size) :
      ((ofTerms [.capture group anything, .boundary .forward false]).ways input .forward
        reached).head? = some ⟨input.size,
          ⟨group, reached.position, input.size⟩ :: reached.captures⟩ := by
    let closed (stop : Point) : Point := { stop with
      captures := ⟨group, min reached.position stop.position,
        max reached.position stop.position⟩ :: stop.captures }
    have ends : (anything.ways input .forward reached).findSome? (fun stop =>
        ((boundary .forward false).ways input .forward (closed stop)).head?) =
          ((anything.ways input .forward reached).find? (·.position = input.size)).map closed := by
      rw [List.find?_eq_findSome?_guard, List.map_findSome?]
      refine findSome?_congr fun stop mem => ?_
      have inside' : stop.position ≤ input.size := position_le_size mem inside
      have stopped : (closed stop).position ≤ input.size := inside'
      rw [ways_stop stopped]
      by_cases stops : stop.position = input.size <;> simp [closed, stops, Option.guard]
    rw [ways_ofTerms_cons, Ways.sequence, List.head?_flatMap, ways, Ways.capture,
      List.findSome?_map]
    refine ends.trans ?_
    rw [find?_anything inside]
    simp [closed, inside]
  have each : ∀ reached ∈ pattern.ways input .forward ⟨0, []⟩, _ := fun reached mem =>
    finishes reached (position_le_size mem (Nat.zero_le _))
  revert each
  cases pattern.ways input .forward ⟨0, []⟩ with
  | nil => intro _; rfl
  | cons first rest =>
    intro each
    rw [List.findSome?_cons, each first List.mem_cons_self]
    rfl

end Pattern

end LineGrammar
