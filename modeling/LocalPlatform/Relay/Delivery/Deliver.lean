/-
# LocalPlatform.Relay.Delivery.Deliver — one event to one subscriber.

`deliver` POSTs a record's payload until a 2xx, the end of the schedule, an error of the attempt history
or the end of the record's context.  Everything the world decides during one attempt, the clock, the
HTTP exchange, the database, and each of the places where the code asks the context whether it has
ended, is one `AttemptEnv`; what a subscriber and the history can see of it is the list of events.

An ended context may be observed at any of those places and not at another: nothing is assumed about the
order in which the answers come.
-/
import LocalPlatform.Relay.Delivery.DeadLetter
import LocalPlatform.Relay.Delivery.Sign
import LocalPlatform.Relay.History.Attempt
import LocalPlatform.Relay.Subscriptions

namespace LocalPlatform.Relay.Delivery

open Codec Subscriptions History

/-- The functions the program takes from libraries. -/
structure Runtime where
  hmac : Hmac
  sha256 : Bytes → Bytes
  lib : Library
  /-- `time.Duration.String`. -/
  duration : Int → Bytes

/-- Libraries for small inputs: the host is what stands between `//` and the next `/`, and nothing is
hashed but the empty string. -/
def plainRuntime : Runtime where
  hmac _ m := m
  sha256 _ := [0xe3, 0xb0, 0xc4, 0x42, 0x98, 0xfc, 0x1c, 0x14, 0x9a, 0xfb, 0xf4, 0xc8, 0x99, 0x6f, 0xb9, 0x24,
    0x27, 0xae, 0x41, 0xe4, 0x64, 0x9b, 0x93, 0x4c, 0xa4, 0x95, 0x99, 0x1b, 0x78, 0x52, 0xb8, 0x55]
  lib := ⟨fun rest => .ok ((rest.drop 2).takeWhile (· ≠ 0x2f)), fun s => 0x22 :: s ++ [0x22]⟩
  duration d := decInt d ++ ascii "s"

/-- The ordered waits between attempts.  Jitter, which only changes how long a wait is, is left out. -/
structure RetrySchedule where
  delays : List Nat
  deriving DecidableEq, Repr

/-- One attempt, then one after each delay. -/
def RetrySchedule.maxAttempts (s : RetrySchedule) : Nat := s.delays.length + 1

/-- **`s.delayFor retry`** — the wait before a retry, counted from 1; `none` once the budget is spent. -/
def RetrySchedule.delayFor (s : RetrySchedule) (retry : Nat) : Option Nat :=
  if retry < 1 ∨ s.delays.length < retry then none else s.delays[retry - 1]?

structure Deliverer where
  schedule : RetrySchedule
  interruptedWriteTimeout : Int
  /-- `recorder` is not nil. -/
  recorder : Bool
  deriving DecidableEq, Repr

/-- How one subscriber's delivery ended. -/
structure Outcome where
  subscription : Subscription
  attempts : Nat
  delivered : Bool
  lastStatus : Int
  reason : Bytes
  deriving DecidableEq, Repr

/-- A webhook request as it is sent. -/
structure Webhook where
  url : Bytes
  webhookID : Bytes
  webhookTimestamp : Bytes
  webhookSignature : Bytes
  body : Bytes
  deriving DecidableEq, Repr

/-- What happens where others can see it, in the order in which it happens. -/
inductive Event where
  /-- `ForTenant` returned these subscriptions. -/
  | looked (subs : List Subscription)
  | requested (sub : Subscription) (req : Webhook)
  | answered (sub : Subscription) (status : Int)
  /-- The attempt's row is durable. -/
  | recorded (eventID : Bytes) (attempt : Attempt)
  /-- The dead-letter topic acknowledged it. -/
  | parked (dl : DeadLetter) (msg : Kafka.Outgoing)
  deriving DecidableEq, Repr

/-! ## One attempt -/

/-- What becomes of an HTTP request: it could not be built, it was sent and failed (the client's error
names the URL), or it was answered. -/
inductive Exchange where
  | refused (e : Err)
  | failed (now : Time) (url : Bytes) (e : Err)
  | answered (now : Time) (status : Int)

/-- What the world answers during one attempt. -/
structure AttemptEnv where
  /-- `ctx.Err()` before the attempt. -/
  before : Option Err
  startedAt : Time
  exchange : Exchange
  finishedAt : Time
  /-- `ctx.Err() != nil`, asked after a failed request. -/
  interrupted : Bool
  /-- `ctx.Err() != nil`, asked when no retry is left. -/
  expired : Bool
  /-- How the history's transaction ended. -/
  stored : Option Err
  /-- `ctx.Err()` after the attempt was recorded. -/
  after : Option Err
  /-- `d.sleep`. -/
  slept : Option Err

/-- The request one attempt sends. -/
def webhook (rt : Runtime) (sub : Subscription) (rec : Record) (body : Bytes) (now : Time) : Webhook where
  url := sub.url
  webhookID := rec.id
  webhookTimestamp := timestamp now
  webhookSignature := sign rt.hmac sub.secret rec.id now body
  body := body

/-- **`(*Deliverer).attempt`** — the status or the error of one request, and what was seen of it. -/
def attempt (rt : Runtime) (sub : Subscription) (rec : Record) (body : Bytes) :
    Exchange → (Int × Option Err) × List Event
  | .refused e => ((0, some (e.wrap (ascii "build request: "))), [])
  | .failed now url e => ((0, some (e.wrap (ascii "Post " ++ rt.lib.quoted url ++ ascii ": "))),
      [.requested sub (webhook rt sub rec body now)])
  | .answered now status => ((status, none),
      [.requested sub (webhook rt sub rec body now), .answered sub status])

/-- The text of a refused attempt. -/
def invalidAttemptText (lib : Library) : InvalidAttempt → Bytes
  | .blankEventID => ascii "history: blank event id"
  | .subscriptionID n => ascii "history: subscription id " ++ decInt n ++ ascii " must be positive"
  | .blankSubscriptionURL => ascii "history: blank subscription url"
  | .timestamps => ascii "history: invalid attempt timestamps"
  | .result => ascii "history: attempt needs exactly one HTTP status or transport error"
  | .outcome o => ascii "history: invalid attempt outcome " ++ lib.quoted o

/-- `(*Store).RecordAttempt`, as its caller sees it: the check, then whatever the transaction came to. -/
def storeAttempt (lib : Library) (eventID : Bytes) (attempt : Attempt) (stored : Option Err) : Option Err :=
  match validateAttempt eventID attempt with
  | some e => some (.new (invalidAttemptText lib e))
  | none => stored

/-- The attempt `recordAttempt` builds: a transport error or a status, never both. -/
def builtAttempt (sub : Subscription) (number : Nat) (startedAt finishedAt : Time) (status : Int)
    (reqErr : Option Err) (outcome : Bytes) : Attempt where
  subscriptionID := sub.id
  subscriptionURL := sub.url
  attemptNumber := number
  startedAt := startedAt
  finishedAt := finishedAt
  httpStatus := match reqErr with
    | some _ => none
    | none => some status
  transportError := match reqErr with
    | some e => e.text
    | none => []
  outcome := outcome

/-- **`(*Deliverer).recordAttempt`**. -/
def recordAttempt (rt : Runtime) (d : Deliverer) (eventID : Bytes) (attempt : Attempt)
    (stored : Option Err) : Option Err × List Event :=
  if d.recorder = false then (none, [])
  else match storeAttempt rt.lib eventID attempt stored with
    | some e => (some (e.wrap (ascii "record attempt " ++ dec attempt.attemptNumber ++
        ascii " for event " ++ eventID ++ ascii " and subscription " ++ decInt attempt.subscriptionID ++
        ascii ": ")), [])
    | none => (none, [.recorded eventID attempt])

/-! ## The loop -/

/-- What `Deliver` returns, and what was seen meanwhile. -/
structure DeliverResult where
  outcome : Outcome
  err : Option Err
  events : List Event
  deriving DecidableEq, Repr

def DeliverResult.after (events : List Event) (r : DeliverResult) : DeliverResult :=
  { r with events := events ++ r.events }

def isSuccess (status : Int) : Bool := 200 ≤ status && status < 300

/-- The outcome after a request: the last status, whether it was delivered, and why not. -/
def afterRequest (out : Outcome) (number : Nat) (status : Int) (reqErr : Option Err) : Outcome :=
  let out := { out with attempts := number, lastStatus := status }
  match reqErr with
  | some e => { out with reason := ascii "attempt " ++ dec number ++ ascii ": " ++ e.text }
  | none =>
    if isSuccess status then { out with delivered := true, reason := [] }
    else { out with reason := ascii "attempt " ++ dec number ++ ascii ": HTTP " ++ decInt status }

/-- The outcome of the attempt for the history. -/
def attemptOutcome (env : AttemptEnv) (willRetry delivered : Bool) (reqErr : Option Err) : Bytes :=
  if delivered = false ∧ willRetry = false ∧ env.expired = false then outcomeExhausted
  else if reqErr.isSome then (if env.interrupted then outcomeInterrupted else outcomeRetrying)
  else if delivered then outcomeDelivered
  else outcomeRetrying

/-- The attempt one turn of the loop hands to the recorder. -/
def turnAttempt (sub : Subscription) (number : Nat) (env : AttemptEnv) (result : Int × Option Err)
    (willRetry delivered : Bool) : Attempt :=
  builtAttempt sub number env.startedAt.utc env.finishedAt.utc result.1 result.2
    (attemptOutcome env willRetry delivered result.2)

/-- The end of the loop with the budget spent. -/
def gaveUp (out : Outcome) : DeliverResult :=
  ⟨{ out with reason := ascii "gave up after " ++ dec out.attempts ++ ascii " attempts: " ++ out.reason },
    none, []⟩

/-- The attempts from number `number` on, of which at most `left` may be made. -/
def deliverFrom (rt : Runtime) (d : Deliverer) (sub : Subscription) (rec : Record) (body : Bytes)
    (envs : Nat → AttemptEnv) : Nat → Nat → Outcome → DeliverResult
  | 0, _, out => gaveUp out
  | left + 1, number, out =>
    let env := envs number
    match env.before with
    | some e => ⟨out, some e, []⟩
    | none =>
      let (result, seen) := attempt rt sub rec body env.exchange
      let out := afterRequest out number result.1 result.2
      let delay := d.schedule.delayFor number
      let built := turnAttempt sub number env result delay.isSome out.delivered
      let (recordErr, rows) := recordAttempt rt d rec.id built env.stored
      let seen := seen ++ rows
      match env.after, recordErr with
      | some e, some r => ⟨out, Err.join [e, r], seen⟩
      | some e, none => ⟨out, some e, seen⟩
      | none, some r => ⟨out, some r, seen⟩
      | none, none =>
        if out.delivered then ⟨out, none, seen⟩
        else match delay with
          | none => (gaveUp out).after seen
          | some _ =>
            match env.slept with
            | some e => ⟨out, some e, seen⟩
            | none => (deliverFrom rt d sub rec body envs left (number + 1) out).after seen

/-- **`(*Deliverer).Deliver`** — the event to one subscriber. -/
def deliver (rt : Runtime) (d : Deliverer) (sub : Subscription) (rec : Record) (envs : Nat → AttemptEnv) :
    DeliverResult :=
  if d.interruptedWriteTimeout ≤ 0 then
    ⟨⟨⟨0, [], [], []⟩, 0, false, 0, []⟩,
      some (.new (ascii "interrupted attempt write timeout " ++ rt.duration d.interruptedWriteTimeout ++
        ascii " must be positive")), []⟩
  else match encodePayload rec.payload with
    | .error e => ⟨⟨sub, 0, false, 0, ascii "encode payload: " ++ e⟩, none, []⟩
    | .ok body => deliverFrom rt d sub rec body envs d.schedule.maxAttempts 1 ⟨sub, 0, false, 0, []⟩

/-! ## What one attempt leaves -/

/-- What every attempt of one `Deliver` leaves to be seen: requests for this record under this
subscription's secret, its answers, and rows of this record and subscription. -/
def Own (rt : Runtime) (sub : Subscription) (rec : Record) (body : Bytes) : Event → Prop
  | .requested s req => s = sub ∧ ∃ now, req = webhook rt sub rec body now
  | .answered s _ => s = sub
  | .recorded eventID a => eventID = rec.id ∧ a.subscriptionID = sub.id ∧ a.subscriptionURL = sub.url
  | _ => False

theorem own_attempt {rt : Runtime} {sub : Subscription} {rec : Record} {body : Bytes} {ex : Exchange} :
    ∀ e ∈ (attempt rt sub rec body ex).2, Own rt sub rec body e := by
  cases ex with
  | refused e => simp [attempt]
  | failed now url e =>
      intro e he
      rw [List.mem_singleton.mp he]
      exact ⟨rfl, now, rfl⟩
  | answered now status =>
      intro e he
      simp only [attempt, List.mem_cons, List.not_mem_nil, or_false] at he
      rcases he with rfl | rfl
      · exact ⟨rfl, now, rfl⟩
      · exact rfl

theorem own_recordAttempt {rt : Runtime} {d : Deliverer} {sub : Subscription} {rec : Record} {body : Bytes}
    {a : Attempt} {stored : Option Err} (hid : a.subscriptionID = sub.id)
    (hurl : a.subscriptionURL = sub.url) :
    ∀ e ∈ (recordAttempt rt d rec.id a stored).2, Own rt sub rec body e := by
  intro e he
  unfold recordAttempt at he
  split at he
  · simp at he
  split at he
  · simp at he
  · rw [List.mem_singleton] at he
    rw [he]
    exact ⟨rfl, hid, hurl⟩

/-- Nil from the recorder means the row is durable, where there is a recorder. -/
theorem recorded_of_recordAttempt {rt : Runtime} {d : Deliverer} {eventID : Bytes} {a : Attempt}
    {stored : Option Err} (h : (recordAttempt rt d eventID a stored).1 = none)
    (hrecorder : d.recorder = true) : .recorded eventID a ∈ (recordAttempt rt d eventID a stored).2 := by
  unfold recordAttempt at h ⊢
  rw [if_neg (by simp [hrecorder])] at h ⊢
  split at h
  · exact absurd h (by simp)
  · exact List.mem_singleton_self _

/-- A delivered outcome was answered with a 2xx. -/
theorem answered_of_delivered {rt : Runtime} {sub : Subscription} {rec : Record} {body : Bytes}
    {ex : Exchange} {out : Outcome} {number : Nat} (hout : out.delivered = false)
    (h : (afterRequest out number (attempt rt sub rec body ex).1.1
      (attempt rt sub rec body ex).1.2).delivered = true) :
    isSuccess (attempt rt sub rec body ex).1.1 = true ∧ (attempt rt sub rec body ex).1.2 = none ∧
      .answered sub (attempt rt sub rec body ex).1.1 ∈ (attempt rt sub rec body ex).2 := by
  cases ex with
  | refused e => exact absurd h (by simp [attempt, afterRequest, hout])
  | failed now url e => exact absurd h (by simp [attempt, afterRequest, hout])
  | answered now status =>
      refine ⟨?_, rfl, by simp [attempt]⟩
      show isSuccess status = true
      by_contra hno
      simp [attempt, afterRequest, hno, hout] at h

theorem subscription_afterRequest (out : Outcome) (number : Nat) (status : Int) (reqErr : Option Err) :
    (afterRequest out number status reqErr).subscription = out.subscription := by
  unfold afterRequest
  split
  · rfl
  · split <;> rfl

/-! ## What `Deliver` leaves -/

/-- **A subscription answered 2xx to this record**, and the attempt's row is durable where attempts are
recorded. -/
def Acknowledged (d : Deliverer) (rec : Record) (sub : Subscription) (events : List Event) : Prop :=
  ∃ status, isSuccess status = true ∧ .answered sub status ∈ events ∧
    (d.recorder = true → ∃ a : Attempt, .recorded rec.id a ∈ events ∧ a.subscriptionID = sub.id ∧
      a.httpStatus = some status ∧ a.outcome = outcomeDelivered)

/-- **What `Deliver` returns**: always its own subscription; without an error either an acknowledged
delivery or a failure to be parked; and events of its own only. -/
structure DeliverSpec (rt : Runtime) (d : Deliverer) (sub : Subscription) (rec : Record) (body : Bytes)
    (r : DeliverResult) : Prop where
  subscription : r.outcome.subscription = sub
  delivered : r.outcome.delivered = true → r.err = none → Acknowledged d rec sub r.events
  own : ∀ e ∈ r.events, Own rt sub rec body e

theorem Acknowledged.mono {d : Deliverer} {rec : Record} {sub : Subscription} {events events' : List Event}
    (h : Acknowledged d rec sub events) (hsub : ∀ e ∈ events, e ∈ events') :
    Acknowledged d rec sub events' := by
  obtain ⟨status, hstatus, hans, hrec⟩ := h
  refine ⟨status, hstatus, hsub _ hans, fun hr => ?_⟩
  obtain ⟨a, ha, hrest⟩ := hrec hr
  exact ⟨a, hsub _ ha, hrest⟩

theorem DeliverSpec.after {rt : Runtime} {d : Deliverer} {sub : Subscription} {rec : Record} {body : Bytes}
    {r : DeliverResult} (h : DeliverSpec rt d sub rec body r) {seen : List Event}
    (hseen : ∀ e ∈ seen, Own rt sub rec body e) : DeliverSpec rt d sub rec body (r.after seen) where
  subscription := h.subscription
  delivered hd he := (h.delivered hd he).mono fun _ hm => List.mem_append_right _ hm
  own e he := (List.mem_append.mp he).elim (hseen e) (h.own e)

theorem gaveUp_spec {rt : Runtime} {d : Deliverer} {sub : Subscription} {rec : Record} {body : Bytes}
    {out : Outcome} (hsub : out.subscription = sub) (hd : out.delivered = false) :
    DeliverSpec rt d sub rec body (gaveUp out) :=
  ⟨hsub, fun h => absurd h (by simp [gaveUp, hd]), by simp [gaveUp]⟩

/-- The loop.  The induction is on the attempts left; nothing has been delivered so far. -/
theorem deliverFrom_spec (rt : Runtime) (d : Deliverer) (sub : Subscription) (rec : Record) (body : Bytes)
    (envs : Nat → AttemptEnv) (left : Nat) : ∀ (number : Nat) (out : Outcome), out.subscription = sub →
      out.delivered = false →
      DeliverSpec rt d sub rec body (deliverFrom rt d sub rec body envs left number out) := by
  induction left with
  | zero => exact fun number out hsub hd => gaveUp_spec hsub hd
  | succ left ih =>
      intro number out hsub hd
      rw [deliverFrom]
      simp only
      split
      · exact ⟨hsub, fun h => absurd h (by simp [hd]), by simp⟩
      generalize hout' : afterRequest out number _ _ = out'
      have hsub' : out'.subscription = sub := by
        rw [← hout', subscription_afterRequest, hsub]
      generalize hbuilt : turnAttempt sub number (envs number) _ _ _ = built
      generalize hseen : (attempt rt sub rec body (envs number).exchange).2 ++
        (recordAttempt rt d rec.id built (envs number).stored).2 = seen
      -- the request and the row of this attempt are about this event and this subscription
      have hown : ∀ e ∈ seen, Own rt sub rec body e := by
        intro e he
        rw [← hseen] at he
        rcases List.mem_append.mp he with he | he
        · exact own_attempt e he
        · exact own_recordAttempt (by rw [← hbuilt]; rfl) (by rw [← hbuilt]; rfl) e he
      split
      · exact ⟨hsub', fun _ he => absurd he (by simp [Err.join]), hown⟩
      · exact ⟨hsub', fun _ he => absurd he (by simp), hown⟩
      · exact ⟨hsub', fun _ he => absurd he (by simp), hown⟩
      -- the row is written and the context has not ended
      next hafter hrecord =>
      split
      · next hdelivered =>
        refine ⟨hsub', fun _ _ => ?_, hown⟩
        obtain ⟨hstatus, hnone, hans⟩ := answered_of_delivered hd (hout'.symm ▸ hdelivered)
        refine ⟨_, hstatus, by rw [← hseen]; exact List.mem_append_left _ hans, fun hr => ?_⟩
        refine ⟨built, ?_, by rw [← hbuilt]; rfl, by simp [← hbuilt, turnAttempt, builtAttempt, hnone], ?_⟩
        · rw [← hseen]
          exact List.mem_append_right _ (recorded_of_recordAttempt hrecord hr)
        · rw [← hbuilt]
          simp [turnAttempt, builtAttempt, attemptOutcome, hdelivered, hnone]
      · next hnot =>
        have hd' : out'.delivered = false := by simpa using hnot
        split
        · exact (gaveUp_spec hsub' hd').after hown
        · split
          · exact ⟨hsub', fun h => absurd h (by simp [hd']), hown⟩
          · exact (ih (number + 1) out' hsub' hd').after hown

/-- A delivery that starts makes its first attempt. -/
theorem attempt_subset_deliver {rt : Runtime} {d : Deliverer} {sub : Subscription} {rec : Record} {body : Bytes}
    {envs : Nat → AttemptEnv} (htimeout : 0 < d.interruptedWriteTimeout)
    (hbody : encodePayload rec.payload = .ok body) (hbefore : (envs 1).before = none) :
    ∀ e ∈ (attempt rt sub rec body (envs 1).exchange).2, e ∈ (deliver rt d sub rec envs).events := by
  intro e he
  rw [deliver, if_neg (by omega), hbody]
  show e ∈ (deliverFrom rt d sub rec body envs (d.schedule.delays.length + 1) 1 ⟨sub, 0, false, 0, []⟩).events
  rw [deliverFrom]
  simp only [hbefore]
  have hseen (rows : List Event) : e ∈ (attempt rt sub rec body (envs 1).exchange).2 ++ rows :=
    List.mem_append_left _ he
  split
  · exact hseen _
  · exact hseen _
  · exact hseen _
  · split
    · exact hseen _
    · split
      · exact List.mem_append_left _ (hseen _)
      · split
        · exact hseen _
        · exact List.mem_append_left _ (hseen _)

/-- **`Deliver` as its caller relies on it.**  Only the refusal to start names no subscription, and that
is no missing history. -/
structure Delivers (rt : Runtime) (d : Deliverer) (sub : Subscription) (rec : Record) (r : DeliverResult) :
    Prop where
  subscription : r.outcome.subscription = sub ∨ ∃ e, r.err = some e ∧ e.chain = []
  delivered : r.outcome.delivered = true → r.err = none → Acknowledged d rec sub r.events
  own : ∀ e ∈ r.events, ∃ body, encodePayload rec.payload = .ok body ∧ Own rt sub rec body e

theorem deliver_delivers (rt : Runtime) (d : Deliverer) (sub : Subscription) (rec : Record)
    (envs : Nat → AttemptEnv) : Delivers rt d sub rec (deliver rt d sub rec envs) := by
  unfold deliver
  split
  · exact ⟨Or.inr ⟨_, rfl, rfl⟩, fun h => absurd h (by simp), by simp⟩
  split
  · exact ⟨Or.inl rfl, fun h => absurd h (by simp), by simp⟩
  next body hbody =>
  have h := deliverFrom_spec rt d sub rec body envs d.schedule.maxAttempts 1 ⟨sub, 0, false, 0, []⟩ rfl rfl
  exact ⟨Or.inl h.subscription, h.delivered, fun e he => ⟨body, hbody, h.own e he⟩⟩

/-- A missing event row always names its subscription. -/
theorem Delivers.subscription_of_missing {rt : Runtime} {d : Deliverer} {sub : Subscription} {rec : Record}
    {r : DeliverResult} (h : Delivers rt d sub rec r) {e : Err} (he : r.err = some e)
    (hmissing : e.is .eventNotFound = true) : r.outcome.subscription = sub := by
  rcases h.subscription with hsub | ⟨e', he', hchain⟩
  · exact hsub
  · obtain rfl := Option.some.inj (he.symm.trans he')
    simp [Err.is, hchain] at hmissing

/-- Without an error the outcome names its subscription. -/
theorem Delivers.subscription_of_ok {rt : Runtime} {d : Deliverer} {sub : Subscription} {rec : Record}
    {r : DeliverResult} (h : Delivers rt d sub rec r) (he : r.err = none) :
    r.outcome.subscription = sub := by
  rcases h.subscription with hsub | ⟨e, he', _⟩
  · exact hsub
  · rw [he] at he'
    exact absurd he' (by simp)

end LocalPlatform.Relay.Delivery
