import LineGrammar.Completion.Feed
import LineGrammar.Proofs.Registry

/-! Feeds step by step. Draining one follows its steps in order: only a check that finds the request
cancelled leaves anything out. In a guarded feed a check directly follows every completion, and
nothing follows an error. -/

namespace LineGrammar

namespace Request

variable {request : Request}

def due (request : Request) (cancelAfter : Option Nat) : Request :=
  if cancelAfter = some 0 then request.cancel else request

@[simp] theorem due_none : request.due none = request := rfl

@[simp] theorem due_zero : request.due (some 0) = request.cancel := rfl

theorem due_of_cancelled (cancelled : request.cancelled = true) (cancelAfter : Option Nat) :
    request.due cancelAfter = request := by
  have same : request.cancel = request := by rw [cancel, ← cancelled]
  rw [due, same, ite_self]

theorem due_note (cancelAfter : Option Nat) (document : Document) (cancels : Bool) :
    (request.due cancelAfter).note document cancels =
      (request.note document cancels).due cancelAfter := by
  unfold due
  split <;> simp [cancel, note]

@[simp] theorem asked_due (cancelAfter : Option Nat) :
    (request.due cancelAfter).asked = request.asked := by
  unfold due
  split <;> rfl

end Request

namespace Feed

theorem drain_eq (feed : Feed) (request : Request) (cancelAfter : Option Nat) :
    drain feed request cancelAfter =
      match next feed (request.due cancelAfter) with
      | (none, _, later) => ([], later)
      | (some item, rest, later) =>
        (item :: (drain rest later (cancelAfter.map (· - 1))).1,
          (drain rest later (cancelAfter.map (· - 1))).2) := by
  rw [drain]
  split
  · next ended => simp [Request.due, ended]
  · next received => simp [Request.due, received]

variable {feed rest : Feed} {request : Request} {cancelAfter : Option Nat}

@[simp] theorem drain_nil : drain [] request cancelAfter = ([], request.due cancelAfter) := by
  rw [drain_eq, next]

theorem drain_item (item : FeedItem) :
    drain (.item item :: rest) request cancelAfter =
      (item :: (drain rest (request.due cancelAfter) (cancelAfter.map (· - 1))).1,
        (drain rest (request.due cancelAfter) (cancelAfter.map (· - 1))).2) := by
  rw [drain_eq, next]

theorem drain_consult (document : Document) (cancels : Bool) :
    drain (.consult document cancels :: rest) request cancelAfter =
      drain rest (request.note document cancels) cancelAfter := by
  rw [drain_eq, next, Request.due_note, ← drain_eq]

theorem drain_check :
    drain (.check :: rest) request cancelAfter =
      if (request.due cancelAfter).cancelled then
        ([.error .cancelled], request.due cancelAfter)
      else drain rest request cancelAfter := by
  rw [drain_eq, next]
  by_cases cancelled : (request.due cancelAfter).cancelled = true
  · simp [cancelled, Request.due_of_cancelled]
  · rw [if_neg cancelled, if_neg cancelled, ← drain_eq]

/-- The items of a feed whose checks are ignored. -/
def items : Feed → List FeedItem
  | [] => []
  | .item item :: rest => item :: items rest
  | .consult _ _ :: rest | .check :: rest => items rest

def consulted : Feed → List Document
  | [] => []
  | .consult document _ :: rest => document :: consulted rest
  | .item _ :: rest | .check :: rest => consulted rest

theorem items_append (first second : Feed) :
    items (first ++ second) = items first ++ items second := by
  induction first with
  | nil => rfl
  | cons step rest ih => cases step <;> simp [items, ih]

theorem consulted_append (first second : Feed) :
    consulted (first ++ second) = consulted first ++ consulted second := by
  induction first with
  | nil => rfl
  | cons step rest ih => cases step <;> simp [consulted, ih]

theorem drain_of_not_cancelled (active : (drain feed request none).2.cancelled = false) :
    drain feed request none =
      (feed.items, ⟨false, request.asked ++ feed.consulted⟩) := by
  induction feed generalizing request with
  | nil =>
    have active' : request.cancelled = false := by simpa using active
    simp [items, consulted, ← active']
  | cons step rest ih =>
    cases step with
    | item item =>
      rw [drain_item] at active ⊢
      rw [Request.due_none, Option.map_none] at active ⊢
      rw [ih active]
      rfl
    | consult document cancels =>
      rw [drain_consult] at active ⊢
      rw [ih active]
      simp [items, consulted, Request.note]
    | check =>
      rw [drain_check, Request.due_none] at active ⊢
      by_cases cancelled : request.cancelled = true
      · simp [cancelled] at active
      · rw [if_neg cancelled] at active ⊢
        rw [ih active, items, consulted]

theorem uniqueBeyond_item (seen : List (String × Nat)) (completion : Completion) :
    uniqueBeyond seen (.item (.ok completion) :: rest) =
      if completion.key ∈ seen then uniqueBeyond seen rest
      else .item (.ok completion) :: uniqueBeyond (completion.key :: seen) rest := rfl

/-- What comes after an item: a check directly after a completion, and nothing after an error. -/
def Follows (rest : Feed) : FeedItem → Prop
  | .ok _ => rest.head? = some .check
  | .error _ => rest = []

def Watched : Feed → Prop
  | [] => True
  | .item item :: rest => Follows rest item ∧ Watched rest
  | .consult _ _ :: rest | .check :: rest => Watched rest

theorem watched_checkedAfter (feed : Feed) : (checkedAfter feed).Watched := by
  fun_induction checkedAfter feed with
  | case1 => trivial
  | case2 completion rest ih => exact ⟨rfl, ih⟩
  | case3 error rest => exact ⟨rfl, trivial⟩
  | case4 step rest notOk notError ih =>
    cases step with
    | item item => cases item <;> simp_all
    | consult document cancels => exact ih
    | check => exact ih

theorem watched_guarded (feed : Feed) : (guarded feed).Watched := watched_checkedAfter feed

end Feed

namespace Completer

@[elab_as_elim, induction_eliminator]
theorem induct {motive : Completer → Prop} (words : ∀ list, motive (.words list))
    (fields : ∀ grammar completers, (∀ entry ∈ completers, motive entry.2) →
      motive (.fields grammar completers))
    (source : ∀ respond, motive (.source respond)) (completer : Completer) : motive completer :=
  match completer with
  | .words list => words list
  | .fields grammar completers =>
    fields grammar completers fun (_, inner) _ => induct words fields source inner
  | .source respond => source respond
decreasing_by
  have within := List.sizeOf_lt_of_mem ‹_ ∈ completers›
  simp only [Prod.mk.sizeOf_spec, Completer.fields.sizeOf_spec] at within ⊢
  omega

variable (name : String) (document : Document) (event : CompletionEvent)

theorem completeNamed_eq (completers : List (String × Completer)) :
    completeNamed name document event completers =
      (Registry.find? completers name).elim (pure []) (·.complete document event) :=
  Registry.eq_of_search rfl (fun _ _ _ => by rw [completeNamed]) completers

theorem feedNamed_eq (completers : List (String × Completer)) :
    feedNamed name document event completers =
      (Registry.find? completers name).elim [] (·.feed document event) :=
  Registry.eq_of_search rfl (fun _ _ _ => by rw [feedNamed]) completers

theorem feedNamed_cases (completers : List (String × Completer)) :
    feedNamed name document event completers = [] ∨
      ∃ entry ∈ completers,
        feedNamed name document event completers = entry.2.feed document event := by
  rw [feedNamed_eq]
  cases found : Registry.find? completers name with
  | none => exact .inl rfl
  | some completer =>
    obtain ⟨entry, mem, rfl⟩ := Registry.mem_of_find? found
    exact .inr ⟨entry, mem, rfl⟩

theorem exists_feed_eq_guarded (completer : Completer) :
    ∃ inner, completer.feed document event = Feed.guarded inner := by
  cases completer <;> exact ⟨_, by rw [feed]⟩

end Completer

end LineGrammar
