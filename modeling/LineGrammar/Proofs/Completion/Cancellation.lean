import LineGrammar.Proofs.Completion.Feeds
import LineGrammar.Proofs.Grammar.Sentences

/-! Cancelled requests. Whenever a request is cancelled, what is received of its feed is all of it,
or a beginning of it and then the report of the cancellation. Between two items a check is next, so
a cancellation there is reported before anything else happens; one that comes from a completer that
is being consulted lets through the item that is being looked for, but no other completer. -/

namespace LineGrammar

namespace Feed

/-- Receiving these completions from the feed leaves the rest of it, and the request as it is
then. -/
inductive Received : Feed → Request → List Completion → Feed → Request → Prop
  | none (feed request) : Received feed request [] feed request
  | next {feed request completion between later completions rest final}
    (first : next feed request = (some (.ok completion), between, later))
    (others : Received between later completions rest final) :
    Received feed request (completion :: completions) rest final

variable {feed rest : Feed} {request later : Request} {completions : List Completion}
  {cancelAfter : Option Nat}

theorem Received.drain (received : Received feed request completions rest later)
    (cancelAfter : Option Nat) :
    drain feed request (cancelAfter.map (· + completions.length)) =
      (completions.map .ok ++ (Feed.drain rest later cancelAfter).1,
        (Feed.drain rest later cancelAfter).2) := by
  induction received with
  | none feed request => simp
  | @next feed request completion between soon completions rest later first others ih =>
    have due : request.due (cancelAfter.map (· + (completions.length + 1))) = request := by
      cases cancelAfter <;> simp [Request.due]
    have fewer : (cancelAfter.map (· + (completions.length + 1))).map (· - 1) =
        cancelAfter.map (· + completions.length) := by
      cases cancelAfter <;> simp
    rw [drain_eq, List.length_cons, due, first]
    simp only [fewer, ih, List.map_cons, List.cons_append]

theorem Watched.drain_cases (watched : feed.Watched) (request : Request)
    (cancelAfter : Option Nat) :
    ∃ (completions : List Completion) (last : Option CompletionError),
      (drain feed request cancelAfter).1 = completions.map .ok ++ last.toList.map .error ∧
        ((drain feed request cancelAfter).1 = feed.items ∨
          completions.map .ok <+: feed.items ∧ last = some .cancelled) := by
  induction feed generalizing request cancelAfter with
  | nil => exact ⟨[], none, by simp, .inl (by simp [items])⟩
  | cons step rest ih =>
    cases step with
    | item item =>
      rw [drain_item, items]
      cases item with
      | error error =>
        obtain rfl : rest = [] := watched.1
        exact ⟨[], some error, by simp, .inl (by simp [items])⟩
      | ok completion =>
        obtain ⟨completions, last, received, all | ⟨front, cut⟩⟩ :=
          ih watched.2 (request.due cancelAfter) (cancelAfter.map (· - 1))
        · exact ⟨completion :: completions, last, by simp [received], .inl (by rw [all])⟩
        · exact ⟨completion :: completions, last, by simp [received],
            .inr ⟨by simpa using front, cut⟩⟩
    | consult document cancels =>
      -- Whether the completer cancels only shows at the next check.
      rw [drain_consult]
      exact ih watched _ cancelAfter
    | check =>
      rw [drain_check]
      split
      · exact ⟨[], some .cancelled, rfl, .inr ⟨List.nil_prefix, rfl⟩⟩
      · exact ih watched request cancelAfter

theorem cancelled_next (cancelled : request.cancelled = true) :
    (next feed request).2.2.cancelled = true := by
  induction feed generalizing request with
  | nil => exact cancelled
  | cons step others ih =>
    cases step with
    | item item => exact cancelled
    | consult document cancels => exact ih (by rw [Request.note, cancelled]; rfl)
    | check =>
      rw [next, if_pos cancelled]
      exact cancelled

/-- A guarded feed that waits for the next item: a check comes first. -/
structure AtRest (feed : Feed) : Prop where
  checks : feed.head? = some .check
  watched : feed.Watched

theorem atRest_guarded (feed : Feed) : (guarded feed).AtRest := ⟨rfl, watched_guarded feed⟩

theorem Watched.of_next (watched : feed.Watched) {item : FeedItem}
    (received : next feed request = (some item, rest, later)) :
    rest.Watched ∧ rest.Follows item := by
  induction feed generalizing request with
  | nil => simp [next] at received
  | cons step others ih =>
    cases step with
    | item other =>
      obtain ⟨rfl, rfl, rfl⟩ : other = item ∧ others = rest ∧ request = later := by
        simpa [next] using received
      exact ⟨watched.2, watched.1⟩
    | consult document cancels =>
      rw [next] at received
      exact ih watched received
    | check =>
      rw [next] at received
      split at received
      · obtain ⟨rfl, rfl, -⟩ : .error .cancelled = item ∧ [] = rest ∧ request = later := by
          simpa using received
        exact ⟨trivial, rfl⟩
      · exact ih watched received

theorem AtRest.of_received (atRest : feed.AtRest)
    (received : Received feed request completions rest later) : rest.AtRest := by
  induction received with
  | none => exact atRest
  | next first others ih =>
    obtain ⟨watched, checks⟩ := atRest.watched.of_next first
    exact ih ⟨checks, watched⟩

theorem AtRest.drain_of_cancelled (atRest : feed.AtRest) (request : Request)
    (cancelAfter : Option Nat) (cancelled : (request.due cancelAfter).cancelled = true) :
    drain feed request cancelAfter = ([.error .cancelled], request.due cancelAfter) := by
  obtain ⟨rest, rfl⟩ := List.head?_eq_some_iff.mp atRest.checks
  rw [drain_check, if_pos cancelled]

theorem Watched.drain_of_next_cancelled (watched : feed.Watched)
    (cancelled : (next feed request).2.2.cancelled = true) :
    ∃ (more : Option Completion) (last : Option CompletionError),
      drain feed request none =
        (more.toList.map .ok ++ last.toList.map .error, (next feed request).2.2) := by
  rw [drain_eq, Request.due_none]
  rcases received : next feed request with ⟨item, rest, later⟩
  rw [received] at cancelled
  cases item with
  | none => exact ⟨none, none, rfl⟩
  | some item =>
    obtain ⟨watched', checks⟩ := watched.of_next received
    cases item with
    | error error =>
      obtain rfl : rest = [] := checks
      exact ⟨none, some error, by simp⟩
    | ok completion =>
      have reported := AtRest.drain_of_cancelled ⟨checks, watched'⟩ later none cancelled
      exact ⟨some completion, some .cancelled, by simp [reported]⟩

def Spaced : Bool → Feed → Prop
  | _, [] => True
  | checked, .consult _ _ :: rest => checked = true ∧ Spaced false rest
  | _, .check :: rest => Spaced true rest
  | checked, .item _ :: rest => Spaced checked rest

namespace Spaced

variable {checked : Bool} {first second : Feed}

theorem mono (spaced : Spaced false feed) : Spaced checked feed := by
  induction feed with
  | nil => trivial
  | cons step rest ih =>
    cases step with
    | item item => exact ih spaced
    | consult document cancels => simp [Spaced] at spaced
    | check => exact spaced

theorem append (spaced : Spaced checked first) (spaced' : Spaced false second) :
    Spaced checked (first ++ second) := by
  induction first generalizing checked with
  | nil => exact spaced'.mono
  | cons step rest ih =>
    cases step with
    | item item => exact ih spaced
    | consult document cancels => exact ⟨spaced.1, ih spaced.2⟩
    | check => exact ih spaced

theorem flatMap {α : Type} {f : α → Feed} {list : List α} (each : ∀ a ∈ list, Spaced false (f a)) :
    Spaced false (list.flatMap f) := by
  induction list with
  | nil => trivial
  | cons a rest ih =>
    rw [List.flatMap_cons]
    exact (each a List.mem_cons_self).append (ih fun b mem => each b (List.mem_cons_of_mem a mem))

theorem map (f : Completion → Completion) (spaced : Spaced checked feed) :
    Spaced checked (Feed.map f feed) := by
  induction feed generalizing checked with
  | nil => trivial
  | cons step rest ih =>
    cases step with
    | item item => cases item <;> exact ih spaced
    | consult document cancels => exact ⟨spaced.1, ih spaced.2⟩
    | check => exact ih spaced

theorem uniqueBeyond (seen : List (String × Nat)) (spaced : Spaced checked feed) :
    Spaced checked (Feed.uniqueBeyond seen feed) := by
  induction feed generalizing checked seen with
  | nil => trivial
  | cons step rest ih =>
    cases step with
    | item item =>
      cases item with
      | error error => exact ih seen spaced
      | ok completion =>
        rw [uniqueBeyond_item]
        split
        · exact ih seen spaced
        · exact ih _ spaced
    | consult document cancels => exact ⟨spaced.1, ih seen spaced.2⟩
    | check => exact ih seen spaced

theorem checkedAfter (spaced : Spaced checked feed) : Spaced checked (Feed.checkedAfter feed) := by
  induction feed generalizing checked with
  | nil => trivial
  | cons step rest ih =>
    cases step with
    | item item =>
      cases item with
      | error error => trivial
      | ok completion =>
        have later : Spaced true (Feed.checkedAfter rest) := by
          cases checked with
          | false => exact (ih spaced).mono
          | true => exact ih spaced
        exact later
    | consult document cancels => exact ⟨spaced.1, ih spaced.2⟩
    | check => exact ih spaced

theorem guarded (spaced : Spaced true feed) : Spaced false (Feed.guarded feed) :=
  spaced.checkedAfter

end Spaced

theorem spaced_ofItems (items : List FeedItem) (checked : Bool) :
    Spaced checked (ofItems items) := by
  induction items with
  | nil => trivial
  | cons item rest ih => exact ih

theorem asked_drain_of_cancelled (spaced : Spaced false feed)
    (cancelled : request.cancelled = true) (cancelAfter : Option Nat) :
    (drain feed request cancelAfter).2.asked = request.asked := by
  induction feed generalizing cancelAfter with
  | nil => simp
  | cons step rest ih =>
    cases step with
    | item item =>
      rw [drain_item, Request.due_of_cancelled cancelled]
      exact ih spaced _
    | consult document cancels => simp [Spaced] at spaced
    | check => rw [drain_check, Request.due_of_cancelled cancelled, if_pos cancelled]

theorem asked_drain_prefix {checked : Bool} {before after : Feed} {document : Document}
    (spaced : Spaced checked (before ++ .consult document true :: after)) (request : Request)
    (cancelAfter : Option Nat) :
    (drain (before ++ .consult document true :: after) request cancelAfter).2.asked <+:
      request.asked ++ (before.consulted ++ [document]) := by
  induction before generalizing checked request cancelAfter with
  | nil =>
    have cancelled : (request.note document true).cancelled = true := by simp [Request.note]
    rw [List.nil_append, drain_consult, asked_drain_of_cancelled spaced.2 cancelled]
    exact List.prefix_rfl
  | cons step rest ih =>
    rw [List.cons_append] at spaced ⊢
    cases step with
    | item item =>
      rw [drain_item]
      simpa [consulted] using ih spaced (request.due cancelAfter) (cancelAfter.map (· - 1))
    | consult other cancels =>
      rw [drain_consult]
      simpa [Request.note, consulted] using
        ih spaced.2 (request.note other cancels) cancelAfter
    | check =>
      rw [drain_check]
      split
      · simp
      · exact ih spaced request cancelAfter

end Feed

namespace Completer

variable (document : Document) (event : CompletionEvent)

theorem spaced_feed (completer : Completer) :
    Feed.Spaced false (completer.feed document event) := by
  induction completer generalizing document with
  | words list =>
    rw [feed]
    exact Feed.Spaced.guarded (Feed.spaced_ofItems _ true)
  | source respond =>
    rw [feed]
    refine Feed.Spaced.guarded ⟨rfl, ?_⟩
    cases (respond document event).result <;> exact Feed.spaced_ofItems _ false
  | fields grammar completers ih =>
    rw [feed]
    refine Feed.Spaced.guarded (Feed.Spaced.uniqueBeyond [] ?_)
    refine (Feed.Spaced.flatMap fun field _ => Feed.Spaced.map _ ?_).mono
    obtain nobody | ⟨entry, mem, same⟩ :=
      feedNamed_cases field.name field.document event completers
    · rw [nobody]
      trivial
    · rw [same]
      exact ih entry mem field.document

/-- Cancelling a request cuts its feed off between two items and is always reported when it does.
Whenever it comes, all items are received, or a beginning of them and then the report, and an error
is the last item. When it comes after some completions were received, the report is next, and nobody
is consulted any more; when a completer that is being consulted cancels, one more completion is
received at most, and no other completer is consulted. -/
theorem cancellation_feed (completer : Completer) :
    (∀ cancelAfter, ∃ (completions : List Completion) (last : Option CompletionError),
      ((completer.feed document event).drain .start cancelAfter).1 =
          completions.map .ok ++ last.toList.map .error ∧
        (((completer.feed document event).drain .start cancelAfter).1 =
            (completer.feed document event).items ∨
          completions.map .ok <+: (completer.feed document event).items ∧
            last = some .cancelled)) ∧
    (∀ completions rest request,
      (completer.feed document event).Received .start completions rest request →
        (completer.feed document event).drain .start (some completions.length) =
            (completions.map .ok ++ [.error .cancelled], request.cancel) ∧
          ((rest.next request).2.2.cancelled = true →
            ∃ (more : Option Completion) (last : Option CompletionError),
              (completer.feed document event).drain .start none =
                (completions.map .ok ++ (more.toList.map .ok ++ last.toList.map .error),
                  (rest.next request).2.2))) ∧
    ∀ (before : Feed) asked after,
      completer.feed document event = before ++ .consult asked true :: after →
        ∀ cancelAfter, ((completer.feed document event).drain .start cancelAfter).2.asked <+:
          before.consulted ++ [asked] := by
  obtain ⟨inner, guarded⟩ := exists_feed_eq_guarded document event completer
  have atRest : (completer.feed document event).AtRest := guarded ▸ Feed.atRest_guarded inner
  refine ⟨atRest.watched.drain_cases .start, fun completions rest request received => ⟨?_, ?_⟩, ?_⟩
  · have reported := (atRest.of_received received).drain_of_cancelled request (some 0) rfl
    have drained := received.drain (some 0)
    rw [reported] at drained
    simpa using drained
  · intro cancelled
    obtain ⟨more, last, rest_eq⟩ :=
      (atRest.of_received received).watched.drain_of_next_cancelled cancelled
    exact ⟨more, last, by simpa [rest_eq] using received.drain none⟩
  · intro before asked after split cancelAfter
    have spaced := spaced_feed document event completer
    rw [split] at spaced ⊢
    exact Feed.asked_drain_prefix spaced .start cancelAfter

def cancelling (grammar : Grammar) : Completer :=
  .fields grammar
    [("y", .source fun _ _ =>
        ⟨.ok [.ofStart "bc" (-1), .ofStart "bc" (-1), .ofStart "bd" (-1)], true⟩),
      ("x", .fields grammar [("x", .words (.ofWords ["be"]))])]

theorem exists_feed_cancelling {grammar : Grammar} {field : CompletionField}
    {others : List CompletionField} (named : field.name = "y")
    (under : CompletionField.under grammar document = field :: others) :
    ∃ after, (cancelling grammar).feed document event =
      [.check, .check] ++ .consult field.document true :: after := by
  rw [cancelling, feed, under, List.flatMap_cons, named, feedNamed, if_pos rfl, feed]
  exact ⟨_, rfl⟩

theorem cancellation_cancelling : ∃ grammar after,
    Grammar.ofTree (.variable "y" .letters) [] [] = .ok grammar ∧
      let feed := (cancelling grammar).feed (.atEnd "b") .request
      feed = [.check, .check] ++ .consult (.atEnd "b") true :: after ∧
        feed.drain .start (some 0) = ([.error .cancelled], ⟨true, []⟩) ∧
        (∃ (more : Option Completion) (last : Option CompletionError),
          (feed.drain .start none).1 = more.toList.map .ok ++ last.toList.map .error) ∧
        (feed.drain .start none).2.asked <+: [.atEnd "b"] := by
  have run : (Grammar.ofTree (.variable "y" .letters) [] [] >>= fun grammar =>
      .ok (CompletionField.under grammar (.atEnd "b"))) =
      .ok [⟨"y", .atEnd "b", 1⟩, ⟨"x", .atEnd "b", 1⟩] := by cbv
  obtain ⟨grammar, compiles, under⟩ := bind_eq_ok.mp run
  obtain ⟨after, split⟩ := exists_feed_cancelling (.atEnd "b") .request rfl (Except.ok.inj under)
  obtain ⟨-, between, meanwhile⟩ := cancellation_feed (.atEnd "b") .request (cancelling grammar)
  obtain ⟨reported, within⟩ := between [] _ .start (.none _ _)
  have cancelled : (((cancelling grammar).feed (.atEnd "b") .request).next .start).2.2.cancelled =
      true := by
    rw [split]
    change (Feed.next after (Request.start.note (.atEnd "b") true)).2.2.cancelled = true
    exact Feed.cancelled_next rfl
  obtain ⟨more, last, received⟩ := within cancelled
  exact ⟨grammar, after, compiles, split, reported, ⟨more, last, by rw [received]; rfl⟩,
    meanwhile _ _ _ split none⟩

end Completer

end LineGrammar
