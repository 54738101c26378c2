import LineGrammar.Completion.Completer

/-! Completions one at a time. A feed is the list of what happens as it is received: items come
out, completers from outside are consulted, and checks look whether the request was cancelled in
the meantime. A check that finds it cancelled reports that and ends the feed, so a feed that was
cut off is never taken for a complete one. -/

namespace LineGrammar

abbrev FeedItem := Except CompletionError Completion

inductive FeedStep
  | item (item : FeedItem)
  | consult (document : Document) (cancels : Bool)
  | check

abbrev Feed := List FeedStep

/-- The request that a feed answers: whether it has been cancelled, and the documents that
completers from outside were given. -/
structure Request where
  cancelled : Bool
  asked : List Document
  deriving DecidableEq, Repr

namespace Request

def start : Request := ⟨false, []⟩

def cancel (request : Request) : Request := { request with cancelled := true }

def note (request : Request) (document : Document) (cancels : Bool) : Request :=
  ⟨request.cancelled || cancels, request.asked ++ [document]⟩

end Request

namespace Feed

def ofItems (items : List FeedItem) : Feed := items.map .item

def ofResult : Except CompletionError (List Completion) → Feed
  | .ok completions => ofItems (completions.map .ok)
  | .error error => ofItems [.error error]

/-- With a check after every item, and without what follows the first error. -/
def checkedAfter : Feed → Feed
  | [] => []
  | .item (.ok completion) :: rest => .item (.ok completion) :: .check :: checkedAfter rest
  | .item (.error error) :: _ => [.item (.error error)]
  | step :: rest => step :: checkedAfter rest

def guarded (feed : Feed) : Feed := .check :: checkedAfter feed

def map (f : Completion → Completion) (feed : Feed) : Feed :=
  List.map (fun
    | .item (.ok completion) => .item (.ok (f completion))
    | step => step) feed

def uniqueBeyond (seen : List (String × Nat)) : Feed → Feed
  | [] => []
  | .item (.ok completion) :: rest =>
    if completion.key ∈ seen then uniqueBeyond seen rest
    else .item (.ok completion) :: uniqueBeyond (completion.key :: seen) rest
  | step :: rest => step :: uniqueBeyond seen rest

def unique (feed : Feed) : Feed := uniqueBeyond [] feed

/-- The next item, if there is one, what is left after it, and the request as it is then. -/
def next (feed : Feed) (request : Request) : Option FeedItem × Feed × Request :=
  match feed with
  | [] => (none, [], request)
  | .item item :: rest => (some item, rest, request)
  | .consult document cancels :: rest => next rest (request.note document cancels)
  | .check :: rest =>
    if request.cancelled then (some (.error .cancelled), [], request) else next rest request

theorem length_next_lt (feed : Feed) (request : Request) (item : FeedItem)
    (h : (next feed request).1 = some item) : (next feed request).2.1.length < feed.length := by
  induction feed generalizing request with
  | nil => simp [next] at h
  | cons step rest ih =>
    cases step with
    | item other => simp [next]
    | consult document cancels =>
      rw [next] at h ⊢
      exact Nat.lt_succ_of_lt (ih _ h)
    | check =>
      rw [next] at h ⊢
      split
      · simp
      · next active =>
        rw [if_neg active] at h
        exact Nat.lt_succ_of_lt (ih _ h)

/-- Receive everything. The request is cancelled as soon as `cancelAfter` more items have come. -/
def drain (feed : Feed) (request : Request) (cancelAfter : Option Nat) :
    List FeedItem × Request :=
  let request := if cancelAfter = some 0 then request.cancel else request
  match h : next feed request with
  | (none, _, request) => ([], request)
  | (some item, rest, after) =>
    have : rest.length < feed.length := by
      have shorter := length_next_lt feed request item (by rw [h])
      rwa [h] at shorter
    let (items, final) := drain rest after (cancelAfter.map (· - 1))
    (item :: items, final)
termination_by feed.length

end Feed

namespace Completer

mutual

/-- The completions as a feed; a completer from outside is consulted when its first completion is
due. -/
def feed (document : Document) (event : CompletionEvent) : Completer → Feed
  | .words list => Feed.guarded (Feed.ofResult (.ok (list.complete document)))
  | .source respond =>
    let reply := respond document event
    Feed.guarded (.consult document reply.cancels :: Feed.ofResult reply.result)
  | .fields grammar completers =>
    Feed.guarded <| Feed.unique <|
      (CompletionField.under grammar document).flatMap fun field =>
        Feed.map (field.rewrap grammar) (feedNamed field.name field.document event completers)

def feedNamed (name : String) (document : Document) (event : CompletionEvent) :
    List (String × Completer) → Feed
  | [] => []
  | (key, completer) :: rest =>
    if key = name then completer.feed document event else feedNamed name document event rest

end

end Completer

end LineGrammar
