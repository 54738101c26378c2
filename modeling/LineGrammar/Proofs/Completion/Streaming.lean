import LineGrammar.Proofs.Completion.Feeds
import LineGrammar.Proofs.Consulting
import LineGrammar.Proofs.Grammar.Sentences

/-! Completions one at a time and all at once. A feed gives the completions of the list in their
order, and the duplicates that are left out of the list are the ones left out of the feed. When the
work ends in an error, the feed gives what was found before it and then the error. -/

namespace LineGrammar

namespace Feed

inductive Gives : Feed → List Completion → List Document → Prop
  | nil : Gives [] [] []
  | item (completion : Completion) {rest completions asked} (later : Gives rest completions asked) :
    Gives (.item (.ok completion) :: rest) (completion :: completions) asked
  | consult (document : Document) (cancels : Bool) {rest completions asked}
    (later : Gives rest completions asked) :
    Gives (.consult document cancels :: rest) completions (document :: asked)
  | check {rest completions asked} (later : Gives rest completions asked) :
    Gives (.check :: rest) completions asked

theorem gives_ofItems (completions : List Completion) :
    Gives (ofItems (completions.map .ok)) completions [] := by
  induction completions with
  | nil => exact .nil
  | cons completion rest ih => exact .item completion ih

namespace Gives

variable {feed : Feed} {completions : List Completion} {asked : List Document}

theorem items (gives : Gives feed completions asked) : feed.items = completions.map .ok := by
  induction gives with
  | nil => rfl
  | item completion later ih => rw [Feed.items, ih, List.map_cons]
  | consult document cancels later ih => exact ih
  | check later ih => exact ih

theorem consulted (gives : Gives feed completions asked) : feed.consulted = asked := by
  induction gives with
  | nil => rfl
  | item completion later ih => exact ih
  | consult document cancels later ih => rw [Feed.consulted, ih]
  | check later ih => exact ih

theorem append {second : Feed} {completions' : List Completion} {asked' : List Document}
    (gives : Gives feed completions asked) (gives' : Gives second completions' asked') :
    Gives (feed ++ second) (completions ++ completions') (asked ++ asked') := by
  induction gives with
  | nil => exact gives'
  | item completion later ih => exact .item completion ih
  | consult document cancels later ih => exact .consult document cancels ih
  | check later ih => exact .check ih

theorem map (f : Completion → Completion) (gives : Gives feed completions asked) :
    Gives (Feed.map f feed) (completions.map f) asked := by
  induction gives with
  | nil => exact .nil
  | item completion later ih => exact .item (f completion) ih
  | consult document cancels later ih => exact .consult document cancels ih
  | check later ih => exact .check ih

theorem uniqueBeyond (seen : List (String × Nat)) (gives : Gives feed completions asked) :
    Gives (Feed.uniqueBeyond seen feed) (Completion.uniqueBeyond seen completions) asked := by
  induction gives generalizing seen with
  | nil => exact .nil
  | item completion later ih =>
    rw [Feed.uniqueBeyond_item, Completion.uniqueBeyond]
    split
    · exact ih seen
    · exact .item completion (ih _)
  | consult document cancels later ih => exact .consult document cancels (ih seen)
  | check later ih => exact .check (ih seen)

theorem checkedAfter (gives : Gives feed completions asked) :
    Gives (Feed.checkedAfter feed) completions asked := by
  induction gives with
  | nil => exact .nil
  | item completion later ih => exact .item completion (.check ih)
  | consult document cancels later ih => exact .consult document cancels ih
  | check later ih => exact .check ih

theorem checkedAfter_append (gives : Gives feed completions asked) (second : Feed) :
    Feed.checkedAfter (feed ++ second) = Feed.checkedAfter feed ++ Feed.checkedAfter second := by
  induction gives with
  | nil => rfl
  | item completion later ih => simp [Feed.checkedAfter, ih]
  | consult document cancels later ih => simp [Feed.checkedAfter, ih]
  | check later ih => simp [Feed.checkedAfter, ih]

theorem exists_uniqueBeyond_append (gives : Gives feed completions asked)
    (seen : List (String × Nat)) (second : Feed) :
    ∃ later, Feed.uniqueBeyond seen (feed ++ second) =
      Feed.uniqueBeyond seen feed ++ Feed.uniqueBeyond later second := by
  induction gives generalizing seen with
  | nil => exact ⟨seen, rfl⟩
  | item completion later ih =>
    simp only [List.cons_append, Feed.uniqueBeyond_item]
    split
    · exact ih seen
    · obtain ⟨more, eq⟩ := ih (completion.key :: seen)
      exact ⟨more, congrArg (List.cons _) eq⟩
  | consult document cancels later ih =>
    obtain ⟨more, eq⟩ := ih seen
    exact ⟨more, congrArg (List.cons _) eq⟩
  | check later ih =>
    obtain ⟨more, eq⟩ := ih seen
    exact ⟨more, congrArg (List.cons _) eq⟩

end Gives

section Consultations

variable {feed : Feed} {asked : Document} {cancels : Bool}

theorem consult_mem_of_map {f : Completion → Completion}
    (mem : .consult asked cancels ∈ Feed.map f feed) : .consult asked cancels ∈ feed := by
  obtain ⟨step, mem', same⟩ := List.mem_map.mp mem
  cases step with
  | item item => cases item <;> simp at same
  | consult document cancels' => exact same ▸ mem'
  | check => simp at same

theorem mem_of_uniqueBeyond {step : FeedStep} {seen : List (String × Nat)}
    (mem : step ∈ Feed.uniqueBeyond seen feed) : step ∈ feed := by
  induction feed generalizing seen with
  | nil => exact mem
  | cons first rest ih =>
    have later {seen' : List (String × Nat)}
        (mem : step ∈ first :: Feed.uniqueBeyond seen' rest) : step ∈ first :: rest :=
      (List.mem_cons.mp mem).elim (fun same => same ▸ List.mem_cons_self)
        fun mem' => List.mem_cons_of_mem first (ih mem')
    cases first with
    | item item =>
      cases item with
      | error error => exact later mem
      | ok completion =>
        rw [uniqueBeyond_item] at mem
        split at mem
        · exact List.mem_cons_of_mem _ (ih mem)
        · exact later mem
    | consult document cancels' => exact later mem
    | check => exact later mem

theorem consult_mem_of_guarded (mem : .consult asked cancels ∈ guarded feed) :
    .consult asked cancels ∈ feed := by
  have checked : .consult asked cancels ∈ checkedAfter feed := by simpa [guarded] using mem
  clear mem
  induction feed with
  | nil => exact checked
  | cons first rest ih =>
    cases first with
    | item item =>
      cases item with
      | error error => simp [checkedAfter] at checked
      | ok completion => exact List.mem_cons_of_mem _ (ih (by simpa [checkedAfter] using checked))
    | consult document cancels' =>
      obtain same | later := List.mem_cons.mp checked
      · exact same ▸ List.mem_cons_self
      · exact List.mem_cons_of_mem _ (ih later)
    | check => exact List.mem_cons_of_mem _ (ih (by simpa [checkedAfter] using checked))

theorem not_consult_mem_ofResult (result : Except CompletionError (List Completion)) :
    .consult asked cancels ∉ ofResult result := by
  cases result <;> simp [ofResult, ofItems]

theorem cancelled_drain (never : ∀ asked, .consult asked true ∉ feed) {request : Request}
    (active : request.cancelled = false) : (drain feed request none).2.cancelled = false := by
  induction feed generalizing request with
  | nil => simpa using active
  | cons step rest ih =>
    have later : ∀ asked, .consult asked true ∉ rest :=
      fun asked mem => never asked (List.mem_cons_of_mem step mem)
    cases step with
    | item item =>
      rw [drain_item]
      exact ih later active
    | consult document cancels =>
      cases cancels with
      | true => exact absurd List.mem_cons_self (never document)
      | false =>
        rw [drain_consult]
        exact ih later (by simp [Request.note, active])
    | check =>
      rw [drain_check, Request.due_none, active, if_neg Bool.false_ne_true]
      exact ih later active

end Consultations

/-- The feed gives the result piece by piece. What it holds behind an error does not count. -/
inductive Tells : Feed → Except CompletionError (List Completion) → List Document → Prop
  | ok {feed completions asked} (gives : Gives feed completions asked) :
    Tells feed (.ok completions) asked
  | error {front completions asked} (gives : Gives front completions asked)
    (error : CompletionError) (back : Feed) :
    Tells (front ++ .item (.error error) :: back) (.error error) asked

namespace Tells

variable {feed second : Feed} {result result' : Except CompletionError (List Completion)}
  {asked asked' : List Document}

theorem map (f : Completion → Completion) (tells : Tells feed result asked) :
    Tells (Feed.map f feed) (result.map (·.map f)) asked := by
  cases tells with
  | ok gives => exact .ok (gives.map f)
  | error gives error back =>
    rw [Feed.map, List.map_append, List.map_cons]
    exact .error (gives.map f) error _

theorem unique (tells : Tells feed result asked) :
    Tells (Feed.unique feed) (result.map Completion.unique) asked := by
  cases tells with
  | ok gives => exact .ok (gives.uniqueBeyond [])
  | error gives error back =>
    obtain ⟨later, eq⟩ := gives.exists_uniqueBeyond_append [] (.item (.error error) :: back)
    rw [Feed.unique, eq]
    exact .error (gives.uniqueBeyond []) error _

theorem guarded (tells : Tells feed result asked) : Tells (Feed.guarded feed) result asked := by
  cases tells with
  | ok gives => exact .ok (.check gives.checkedAfter)
  | error gives error back =>
    rw [Feed.guarded, gives.checkedAfter_append]
    exact .error (.check gives.checkedAfter) error []

theorem append {completions : List Completion} (tells : Tells feed (.ok completions) asked)
    (tells' : Tells second result' asked') :
    Tells (feed ++ second) (result'.map (completions ++ ·)) (asked ++ asked') := by
  cases tells with
  | ok gives =>
    cases tells' with
    | ok gives' => exact .ok (gives.append gives')
    | error gives' error back =>
      rw [← List.append_assoc]
      exact .error (gives.append gives') error back

theorem append_of_error {error : CompletionError} (tells : Tells feed (.error error) asked)
    (second : Feed) : Tells (feed ++ second) (.error error) asked := by
  cases tells with
  | error gives error back =>
    rw [List.append_assoc, List.cons_append]
    exact .error gives error _

end Tells

theorem Watched.eq_nil {error : CompletionError} {front back : Feed}
    (watched : Watched (front ++ .item (.error error) :: back)) : back = [] := by
  induction front with
  | nil => exact watched.1
  | cons step rest ih =>
    cases step with
    | item item => exact ih watched.2
    | consult document cancels => exact ih watched
    | check => exact ih watched

/-- The items are all the completions, or some of them and then the error. -/
def Delivers (items : List FeedItem) : Except CompletionError (List Completion) → Prop
  | .ok completions => items = completions.map .ok
  | .error error => ∃ completions : List Completion,
    items = completions.map .ok ++ [.error error]

theorem Tells.delivers {feed : Feed} {result : Except CompletionError (List Completion)}
    {asked : List Document} (tells : Tells feed result asked) (watched : feed.Watched) :
    Delivers feed.items result ∧ feed.consulted = asked := by
  cases tells with
  | ok gives => exact ⟨gives.items, gives.consulted⟩
  | error gives error back =>
    obtain rfl := watched.eq_nil
    constructor
    · exact ⟨_, by rw [items_append, gives.items, items, items]⟩
    · rw [consulted_append, gives.consulted, consulted, consulted, List.append_nil]

def Streams (feed : Feed) (work : Consulting CompletionError (List Completion)) : Prop :=
  ∃ result asked, work.Yields result asked ∧ feed.Tells result asked

namespace Streams

variable {feed : Feed} {work : Consulting CompletionError (List Completion)}

theorem guarded (streams : Streams feed work) : Streams (Feed.guarded feed) work := by
  obtain ⟨result, asked, yields, tells⟩ := streams
  exact ⟨result, asked, yields, tells.guarded⟩

theorem map (f : Completion → Completion) (streams : Streams feed work) :
    Streams (Feed.map f feed) (do
      let found ← work
      return found.map f) := by
  obtain ⟨result, asked, yields, tells⟩ := streams
  exact ⟨_, asked, yields.map _, tells.map f⟩

theorem flatMap {α : Type} {f : α → Feed}
    {works : α → Consulting CompletionError (List Completion)} {list : List α}
    (each : ∀ a ∈ list, Streams (f a) (works a)) :
    ∃ result asked, (list.mapM works).Yields result asked ∧
      Tells (list.flatMap f) (result.map List.flatten) asked := by
  induction list with
  | nil =>
    rw [List.mapM_nil]
    exact ⟨_, _, Consulting.yields_pure _, .ok .nil⟩
  | cons a rest ih =>
    obtain ⟨result, asked, yields, tells⟩ := each a List.mem_cons_self
    obtain ⟨results, asked', yields', tells'⟩ := ih fun b mem => each b (List.mem_cons_of_mem a mem)
    rw [List.mapM_cons, List.flatMap_cons]
    cases result with
    | error error => exact ⟨.error error, asked, yields.bind_error, tells.append_of_error _⟩
    | ok completions =>
      refine ⟨_, _, yields.bind (yields'.map (completions :: ·)), ?_⟩
      have both := tells.append tells'
      cases results <;> exact both

end Streams

end Feed

namespace Completer

variable (document : Document) (event : CompletionEvent)

theorem streams_feed (completer : Completer) :
    Feed.Streams (completer.feed document event) (completer.complete document event) := by
  induction completer generalizing document with
  | words list =>
    rw [feed, complete]
    exact Feed.Streams.guarded ⟨_, _, Consulting.yields_pure _, .ok (Feed.gives_ofItems _)⟩
  | source respond =>
    rw [feed, complete]
    refine Feed.Streams.guarded ⟨_, _, Consulting.yields_consult _ _, ?_⟩
    cases (respond document event).result with
    | ok completions => exact .ok (.consult document _ (Feed.gives_ofItems completions))
    | error error => exact .error (.consult document _ .nil) error []
  | fields grammar completers ih =>
    rw [feed, complete]
    refine Feed.Streams.guarded ?_
    have each : ∀ field ∈ CompletionField.under grammar document,
        Feed.Streams (Feed.map (field.rewrap grammar)
            (feedNamed field.name field.document event completers))
          (do
            let inner ← completeNamed field.name field.document event completers
            return inner.map (field.rewrap grammar)) := by
      intro field _
      refine Feed.Streams.map _ ?_
      rw [feedNamed_eq, completeNamed_eq]
      cases found : Registry.find? completers field.name with
      | none => exact ⟨_, _, Consulting.yields_pure _, .ok .nil⟩
      | some inner =>
        obtain ⟨entry, mem, rfl⟩ := Registry.mem_of_find? found
        exact ih entry mem field.document
    obtain ⟨result, asked, yields, tells⟩ := Feed.Streams.flatMap each
    refine ⟨_, asked, yields.map fun found => Completion.unique found.flatten, ?_⟩
    have unique := tells.unique
    cases result <;> exact unique

/-- As long as the request is not cancelled, draining the feed gives the list of completions, or
some completions and then the error that there is instead of a list; the same documents are handed
out in the same order. -/
theorem delivers_drain_feed (completer : Completer)
    (active : ((completer.feed document event).drain .start none).2.cancelled = false) :
    Feed.Delivers ((completer.feed document event).drain .start none).1
        (completer.complete document event).outcome.1 ∧
      ((completer.feed document event).drain .start none).2.asked =
        (completer.complete document event).outcome.2 := by
  obtain ⟨result, asked, yields, tells⟩ := streams_feed document event completer
  obtain ⟨inner, guarded⟩ := exists_feed_eq_guarded document event completer
  have watched : (completer.feed document event).Watched := guarded ▸ Feed.watched_guarded inner
  obtain ⟨delivers, same⟩ := tells.delivers watched
  rw [Feed.drain_of_not_cancelled active, yields.outcome]
  exact ⟨delivers, by simp [same, Request.start]⟩

/-- No completer from outside cancels the request it answers. -/
inductive Calm : Completer → Prop
  | words (list : WordList) : Calm (.words list)
  | source {respond : Document → CompletionEvent → CompletionReply}
    (never : ∀ document event, (respond document event).cancels = false) : Calm (.source respond)
  | fields {grammar : Grammar} {completers : List (String × Completer)}
    (inner : ∀ entry ∈ completers, Calm entry.2) : Calm (.fields grammar completers)

theorem Calm.not_cancels {completer : Completer} (calm : completer.Calm) (asked : Document) :
    .consult asked true ∉ completer.feed document event := by
  induction calm generalizing document with
  | words list =>
    rw [feed]
    exact fun mem => Feed.not_consult_mem_ofResult _ (Feed.consult_mem_of_guarded mem)
  | @source respond never =>
    rw [feed, never document event]
    intro mem
    obtain same | later := List.mem_cons.mp (Feed.consult_mem_of_guarded mem)
    · cases same
    · exact Feed.not_consult_mem_ofResult _ later
  | @fields grammar completers inner ih =>
    rw [feed]
    intro mem
    obtain ⟨field, -, mem'⟩ := List.mem_flatMap.mp
      (Feed.mem_of_uniqueBeyond (Feed.consult_mem_of_guarded mem))
    have among := Feed.consult_mem_of_map mem'
    obtain nobody | ⟨entry, listed, same⟩ :=
      feedNamed_cases field.name field.document event completers
    · simp [nobody] at among
    · exact ih entry listed field.document (same ▸ among)

theorem Calm.cancelled_drain {completer : Completer} (calm : completer.Calm) :
    ((completer.feed document event).drain .start none).2.cancelled = false :=
  Feed.cancelled_drain (calm.not_cancels document event) rfl

def failing (grammar : Grammar) : Completer :=
  .fields grammar [("y", .fields grammar [("y", .words (.ofWords ["bc", "bc", "bd"]))]),
    ("x", .source fun _ _ => ⟨.error (.failed "no list"), false⟩)]

theorem calm_failing (grammar : Grammar) : (failing grammar).Calm := by
  refine .fields (List.forall_mem_cons.mpr ⟨?_, List.forall_mem_singleton.mpr ?_⟩)
  · exact .fields (List.forall_mem_singleton.mpr (.words _))
  · exact .source fun _ _ => rfl

theorem delivers_failing : ∃ grammar, Grammar.ofTree (.variable "y" .letters) [] [] = .ok grammar ∧
    let drained := ((failing grammar).feed (.atEnd "b") .request).drain .start none
    let listed := ((failing grammar).complete (.atEnd "b") .request).outcome
    drained.2.cancelled = false ∧
      listed = (.error (.failed "no list"), [.atEnd "b"]) ∧
      Feed.Delivers drained.1 listed.1 ∧ drained.2.asked = listed.2 := by
  have run : (Grammar.ofTree (.variable "y" .letters) [] [] >>= fun grammar =>
      .ok ((failing grammar).complete (.atEnd "b") .request).outcome) =
      .ok (.error (.failed "no list"), [.atEnd "b"]) := by cbv
  obtain ⟨grammar, compiles, result⟩ := bind_eq_ok.mp run
  have active := (calm_failing grammar).cancelled_drain (.atEnd "b") .request
  obtain ⟨delivers, asked⟩ := delivers_drain_feed _ _ (failing grammar) active
  exact ⟨grammar, compiles, active, Except.ok.inj result, delivers, asked⟩

end Completer

end LineGrammar
