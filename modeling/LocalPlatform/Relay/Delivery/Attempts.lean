/-
# LocalPlatform.Relay.Delivery.Attempts — the retry loop, attempt by attempt.

`deliver` shows what a subscriber and the database see.  Here the loop is traced: every request it makes
and every write to the attempt history it asks for, with the answers, in order (`traced`).  Under a
context that stays ended once it has ended the trace is a list of turns, numbered from one, each a request
and a write of the same number (`deliver_turns`).
-/
import LocalPlatform.Relay.Delivery.Recordable

namespace LocalPlatform.Relay.Delivery

open Codec Subscriptions History

/-! ## The context -/

/-- The moments of one attempt at which it matters whether the context has ended, in the order of the
code. -/
inductive Place where
  /-- `ctx.Err()` at the top of the loop. -/
  | before
  | request
  /-- `ctx.Err()` in the classification of the result. -/
  | classified
  /-- `ctx.Err()` where the budget is found spent. -/
  | budget
  /-- The call to the recorder. -/
  | write
  /-- `ctx.Err()` behind the write. -/
  | after
  deriving DecidableEq, Repr

def Place.index : Place → Nat
  | .before => 0
  | .request => 1
  | .classified => 2
  | .budget => 3
  | .write => 4
  | .after => 5

/-- A moment of a delivery: a place of its attempt `n`. -/
def moment (n : Nat) (p : Place) : Nat := 6 * n + p.index

/-- The record's context: ended or not at every moment, and never live again once it has ended. -/
structure Context where
  gone : Nat → Bool
  stays : ∀ {m m' : Nat}, m ≤ m' → gone m = true → gone m' = true

/-- The answers of the context in the attempts are this context's. -/
structure Observes (ctx : Context) (envs : Nat → AttemptEnv) : Prop where
  before : ∀ n, (envs n).before.isSome = ctx.gone (moment n .before)
  interrupted : ∀ n, (envs n).interrupted = ctx.gone (moment n .classified)
  expired : ∀ n, (envs n).expired = ctx.gone (moment n .budget)
  after : ∀ n, (envs n).after.isSome = ctx.gone (moment n .after)

/-! ## The trace -/

/-- A call the loop makes, with its answer. -/
inductive Call where
  | attempted (number : Nat) (result : Int × Option Err)
  /-- `RecordAttempt`. -/
  | wrote (attempt : Attempt) (answer : Option Err)
  deriving DecidableEq, Repr

/-- `deliverFrom` with the calls it makes. -/
def tracedFrom (rt : Runtime) (d : Deliverer) (sub : Subscription) (rec : Record) (body : Bytes)
    (envs : Nat → AttemptEnv) : Nat → Nat → Outcome → DeliverResult × List Call
  | 0, _, out => (gaveUp out, [])
  | left + 1, number, out =>
    let env := envs number
    match env.before with
    | some e => (⟨out, some e, []⟩, [])
    | none =>
      let (result, seen) := attempt rt sub rec body env.exchange
      let out := afterRequest out number result.1 result.2
      let delay := d.schedule.delayFor number
      let built := turnAttempt sub number env result delay.isSome out.delivered
      let (recordErr, rows) := recordAttempt rt d rec.id built env.stored
      let seen := seen ++ rows
      let calls := .attempted number result :: (if d.recorder then [.wrote built recordErr] else [])
      match env.after, recordErr with
      | some e, some r => (⟨out, Err.join [e, r], seen⟩, calls)
      | some e, none => (⟨out, some e, seen⟩, calls)
      | none, some r => (⟨out, some r, seen⟩, calls)
      | none, none =>
        if out.delivered then (⟨out, none, seen⟩, calls)
        else match delay with
          | none => ((gaveUp out).after seen, calls)
          | some _ =>
            match env.slept with
            | some e => (⟨out, some e, seen⟩, calls)
            | none =>
              let rest := tracedFrom rt d sub rec body envs left (number + 1) out
              (rest.1.after seen, calls ++ rest.2)

/-- **The trace is of the loop.** -/
theorem tracedFrom_fst (rt : Runtime) (d : Deliverer) (sub : Subscription) (rec : Record) (body : Bytes)
    (envs : Nat → AttemptEnv) (left : Nat) : ∀ (number : Nat) (out : Outcome),
      (tracedFrom rt d sub rec body envs left number out).1 = deliverFrom rt d sub rec body envs left number out := by
  induction left with
  | zero => exact fun _ _ => rfl
  | succ left ih =>
      intro number out
      rw [tracedFrom, deliverFrom]
      simp only
      repeat' split
      all_goals first
        | rfl
        | simp_all

/-- `Deliver` with the calls it makes. -/
def traced (rt : Runtime) (d : Deliverer) (sub : Subscription) (rec : Record) (envs : Nat → AttemptEnv) :
    DeliverResult × List Call :=
  if d.interruptedWriteTimeout ≤ 0 then (deliver rt d sub rec envs, [])
  else match encodePayload rec.payload with
    | .error _ => (deliver rt d sub rec envs, [])
    | .ok body => tracedFrom rt d sub rec body envs d.schedule.maxAttempts 1 ⟨sub, 0, false, 0, []⟩

theorem traced_fst (rt : Runtime) (d : Deliverer) (sub : Subscription) (rec : Record) (envs : Nat → AttemptEnv) :
    (traced rt d sub rec envs).1 = deliver rt d sub rec envs := by
  unfold traced
  by_cases htimeout : d.interruptedWriteTimeout ≤ 0
  · rw [if_pos htimeout]
  · rw [if_neg htimeout, deliver, if_neg htimeout]
    cases encodePayload rec.payload with
    | error e => rfl
    | ok body => exact tracedFrom_fst rt d sub rec body envs _ _ _

/-! ## One turn -/

/-- A request and the write of its attempt. -/
structure Turn where
  number : Nat
  result : Int × Option Err
  attempt : Attempt
  recordErr : Option Err

namespace Turn

def calls (t : Turn) : List Call := [.attempted t.number t.result, .wrote t.attempt t.recordErr]

/-- The subscriber answered 2xx. -/
def Succeeded (t : Turn) : Prop := t.result.2 = none ∧ isSuccess t.result.1 = true

end Turn

theorem outcomes_ne : outcomeDelivered ≠ outcomeRetrying ∧ outcomeDelivered ≠ outcomeExhausted ∧
    outcomeDelivered ≠ outcomeInterrupted ∧ outcomeRetrying ≠ outcomeExhausted ∧
    outcomeRetrying ≠ outcomeInterrupted ∧ outcomeExhausted ≠ outcomeInterrupted := by decide

/-- What the history is told of a turn, and when. -/
theorem attemptOutcome_cases (env : AttemptEnv) (willRetry delivered : Bool) (reqErr : Option Err) :
    (attemptOutcome env willRetry delivered reqErr = outcomeExhausted ∧ delivered = false ∧ willRetry = false ∧
      env.expired = false) ∨
    (attemptOutcome env willRetry delivered reqErr = outcomeInterrupted ∧ reqErr.isSome = true ∧ env.interrupted = true) ∨
    (attemptOutcome env willRetry delivered reqErr = outcomeDelivered ∧ reqErr.isSome = false ∧ delivered = true) ∨
    (attemptOutcome env willRetry delivered reqErr = outcomeRetrying ∧ (reqErr.isSome = true ∨ delivered = false) ∧
      (reqErr.isSome = true → env.interrupted = false)) := by
  unfold attemptOutcome
  by_cases hspent : delivered = false ∧ willRetry = false ∧ env.expired = false
  · rw [if_pos hspent]
    exact Or.inl ⟨rfl, hspent⟩
  rw [if_neg hspent]
  by_cases herr : reqErr.isSome = true
  · rw [if_pos herr]
    by_cases hgone : env.interrupted = true
    · rw [if_pos hgone]
      exact Or.inr (Or.inl ⟨rfl, herr, hgone⟩)
    · rw [if_neg hgone]
      exact Or.inr (Or.inr (Or.inr ⟨rfl, Or.inl herr, fun _ => eq_false_of_ne_true hgone⟩))
  · rw [if_neg herr]
    by_cases hdelivered : delivered = true
    · rw [if_pos hdelivered]
      exact Or.inr (Or.inr (Or.inl ⟨rfl, eq_false_of_ne_true herr, hdelivered⟩))
    · rw [if_neg hdelivered]
      exact Or.inr (Or.inr (Or.inr ⟨rfl, Or.inr (eq_false_of_ne_true hdelivered), fun h => absurd h herr⟩))

/-- A request that was not delivered before is delivered by a 2xx and by nothing else, and then there is no
reason. -/
theorem delivered_afterRequest {out : Outcome} (hout : out.delivered = false) (number : Nat) (status : Int)
    (reqErr : Option Err) : ((afterRequest out number status reqErr).delivered = true ↔
      reqErr = none ∧ isSuccess status = true) ∧
      ((afterRequest out number status reqErr).delivered = true → (afterRequest out number status reqErr).reason = []) := by
  cases reqErr with
  | some e => exact ⟨by simp [afterRequest, hout], by simp [afterRequest, hout]⟩
  | none =>
      by_cases hstatus : isSuccess status = true
      · exact ⟨by simp [afterRequest, hstatus], by simp [afterRequest, hstatus]⟩
      · exact ⟨by simp [afterRequest, hstatus, hout], by simp [afterRequest, hstatus, hout]⟩

/-- A retry follows exactly the attempts that the schedule has a delay for. -/
theorem isSome_delayFor (s : RetrySchedule) {number : Nat} (h : 1 ≤ number) :
    (s.delayFor number).isSome = decide (number ≤ s.delays.length) := by
  unfold RetrySchedule.delayFor
  by_cases hle : number ≤ s.delays.length
  · rw [if_neg (by omega), List.getElem?_eq_getElem (by omega)]
    simp [hle]
  · rw [if_pos (by omega)]
    simp [hle]

/-- **What holds of one turn of a delivery**: its write has its number, the context was live when the
request was made, and the outcome recorded says what happened. -/
structure TurnSpec (d : Deliverer) (ctx : Context) (t : Turn) : Prop where
  number : t.attempt.attemptNumber = t.number
  live : ctx.gone (moment t.number .before) = false
  delivered : t.attempt.outcome = outcomeDelivered ↔ t.Succeeded
  exhausted : t.attempt.outcome = outcomeExhausted → t.number = d.schedule.maxAttempts ∧ ¬ t.Succeeded
  interrupted : t.attempt.outcome = outcomeInterrupted ↔
    t.result.2.isSome = true ∧ ctx.gone (moment t.number .classified) = true
  known : t.attempt.outcome ∈ outcomes

/-- **What holds of a turn behind which another is made.** -/
structure Continued (ctx : Context) (t : Turn) : Prop where
  unsuccessful : ¬ t.Succeeded
  recorded : t.recordErr = none
  live : ctx.gone (moment t.number .after) = false
  outcome : t.attempt.outcome = outcomeRetrying

section Loop

variable {rt : Runtime} {d : Deliverer} {sub : Subscription} {rec : Record} {body : Bytes} {envs : Nat → AttemptEnv}
  {ctx : Context}

/-- The turn of attempt `number`. -/
def turnOf (rt : Runtime) (d : Deliverer) (sub : Subscription) (rec : Record) (body : Bytes) (env : AttemptEnv)
    (number : Nat) (out : Outcome) : Turn :=
  let result := (attempt rt sub rec body env.exchange).1
  let built := turnAttempt sub number env result (d.schedule.delayFor number).isSome
    (afterRequest out number result.1 result.2).delivered
  ⟨number, result, built, (recordAttempt rt d rec.id built env.stored).1⟩

/-- The delivery's outcome behind that turn. -/
def outcomeAfter (rt : Runtime) (sub : Subscription) (rec : Record) (body : Bytes) (env : AttemptEnv) (number : Nat)
    (out : Outcome) : Outcome :=
  afterRequest out number (attempt rt sub rec body env.exchange).1.1 (attempt rt sub rec body env.exchange).1.2

/-- How the loop can go on from attempt `number`: the context has ended; the turn ends the delivery with an
error, with a 2xx or with the budget spent; or another one follows. -/
inductive Runs (rt : Runtime) (d : Deliverer) (sub : Subscription) (rec : Record) (body : Bytes)
    (envs : Nat → AttemptEnv) : Nat → Outcome → DeliverResult × List Call → Prop where
  | ended {number : Nat} {out : Outcome} {e : Err} (hbefore : (envs number).before = some e) :
      Runs rt d sub rec body envs number out (⟨out, some e, []⟩, [])
  | failed {number : Nat} {out : Outcome} {e : Err} {seen : List Event} (hbefore : (envs number).before = none) :
      Runs rt d sub rec body envs number out (⟨outcomeAfter rt sub rec body (envs number) number out, some e, seen⟩,
        (turnOf rt d sub rec body (envs number) number out).calls)
  | delivered {number : Nat} {out : Outcome} {seen : List Event} (hbefore : (envs number).before = none)
      (hafter : (envs number).after = none)
      (hrecord : (turnOf rt d sub rec body (envs number) number out).recordErr = none)
      (hdelivered : (outcomeAfter rt sub rec body (envs number) number out).delivered = true) :
      Runs rt d sub rec body envs number out (⟨outcomeAfter rt sub rec body (envs number) number out, none, seen⟩,
        (turnOf rt d sub rec body (envs number) number out).calls)
  | spent {number : Nat} {out : Outcome} {seen : List Event} (hbefore : (envs number).before = none)
      (hafter : (envs number).after = none)
      (hrecord : (turnOf rt d sub rec body (envs number) number out).recordErr = none)
      (hdelivered : (outcomeAfter rt sub rec body (envs number) number out).delivered = false)
      (hdelay : d.schedule.delayFor number = none) :
      Runs rt d sub rec body envs number out ((gaveUp (outcomeAfter rt sub rec body (envs number) number out)).after seen,
        (turnOf rt d sub rec body (envs number) number out).calls)
  | next {number : Nat} {out : Outcome} {seen : List Event} {rest : DeliverResult × List Call}
      (hbefore : (envs number).before = none) (hafter : (envs number).after = none)
      (hrecord : (turnOf rt d sub rec body (envs number) number out).recordErr = none)
      (hdelivered : (outcomeAfter rt sub rec body (envs number) number out).delivered = false)
      (hdelay : (d.schedule.delayFor number).isSome = true)
      (hrest : Runs rt d sub rec body envs (number + 1) (outcomeAfter rt sub rec body (envs number) number out) rest) :
      Runs rt d sub rec body envs number out
        (rest.1.after seen, (turnOf rt d sub rec body (envs number) number out).calls ++ rest.2)

/-- One turn of the loop is such a step, if what follows it is such a run. -/
theorem runs_step (hrecorder : d.recorder = true) {left number : Nat} {out : Outcome}
    (hnext : (d.schedule.delayFor number).isSome = true →
      Runs rt d sub rec body envs (number + 1) (outcomeAfter rt sub rec body (envs number) number out)
        (tracedFrom rt d sub rec body envs left (number + 1) (outcomeAfter rt sub rec body (envs number) number out))) :
    Runs rt d sub rec body envs number out (tracedFrom rt d sub rec body envs (left + 1) number out) := by
  cases hbefore : (envs number).before with
  | some e =>
      have hstop : tracedFrom rt d sub rec body envs (left + 1) number out = (⟨out, some e, []⟩, []) := by
        rw [tracedFrom, hbefore]
      rw [hstop]
      exact .ended hbefore
  | none =>
      rw [tracedFrom, hbefore]
      simp only [hrecorder, if_true]
      split
      · exact .failed hbefore
      · exact .failed hbefore
      · exact .failed hbefore
      next hafter hrecord =>
      split
      · next hdelivered => exact .delivered hbefore hafter hrecord hdelivered
      next hnot =>
      have hdelivered := eq_false_of_ne_true hnot
      split
      · next hdelay => exact .spent hbefore hafter hrecord hdelivered hdelay
      next hdelay =>
      have hsome : (d.schedule.delayFor number).isSome = true := by rw [hdelay]; rfl
      split
      · exact .failed hbefore
      · exact .next hbefore hafter hrecord hdelivered hsome (hnext hsome)

/-- **The loop is such a run**, as long as the attempts left are those the schedule has delays for. -/
theorem runs_tracedFrom (hrecorder : d.recorder = true) (left : Nat) : ∀ {number : Nat} (out : Outcome), 1 ≤ number →
    number + left = d.schedule.maxAttempts →
    Runs rt d sub rec body envs number out (tracedFrom rt d sub rec body envs (left + 1) number out) := by
  induction left with
  | zero =>
      intro number out hone hleft
      refine runs_step hrecorder fun hsome => ?_
      rw [isSome_delayFor _ hone, decide_eq_true_iff] at hsome
      unfold RetrySchedule.maxAttempts at hleft
      omega
  | succ left ih =>
      intro number out hone hleft
      exact runs_step hrecorder fun _ => ih _ (by omega) (by omega)

/-! ## Every turn, and every run -/

theorem delivered_outcomeAfter {env : AttemptEnv} {number : Nat} {out : Outcome} (hout : out.delivered = false) :
    ((outcomeAfter rt sub rec body env number out).delivered = true ↔
      (turnOf rt d sub rec body env number out).Succeeded) ∧
      ((outcomeAfter rt sub rec body env number out).delivered = true →
        (outcomeAfter rt sub rec body env number out).reason = []) :=
  delivered_afterRequest hout number _ _

/-- **The step lemma.** -/
theorem turnSpec (hctx : Observes ctx envs) {number : Nat} {out : Outcome} (hbefore : (envs number).before = none)
    (hout : out.delivered = false) (hone : 1 ≤ number) (hmax : number ≤ d.schedule.maxAttempts) :
    TurnSpec d ctx (turnOf rt d sub rec body (envs number) number out) := by
  have hdelivered := (@delivered_outcomeAfter rt d sub rec body (envs number) number out hout).1
  have houtcome : (turnOf rt d sub rec body (envs number) number out).attempt.outcome =
      attemptOutcome (envs number) (d.schedule.delayFor number).isSome
        (outcomeAfter rt sub rec body (envs number) number out).delivered
        (turnOf rt d sub rec body (envs number) number out).result.2 := rfl
  have hlast : (d.schedule.delayFor number).isSome = false → number = d.schedule.maxAttempts := by
    intro hnone
    rw [isSome_delayFor _ hone, decide_eq_false_iff_not] at hnone
    unfold RetrySchedule.maxAttempts at hmax ⊢
    omega
  -- an ended context stays ended, so an interrupted attempt is never taken for an exhausted one
  have hstays : (envs number).interrupted = true → (envs number).expired = true := by
    intro hgone
    rw [hctx.interrupted] at hgone
    rw [hctx.expired]
    exact ctx.stays (by simp [moment, Place.index]) hgone
  have hinterrupted := hctx.interrupted number
  have hne := outcomes_ne
  have hlive : ctx.gone (moment number .before) = false := by rw [← hctx.before, hbefore]; rfl
  have hcases := attemptOutcome_cases (envs number) (d.schedule.delayFor number).isSome
    (outcomeAfter rt sub rec body (envs number) number out).delivered
    (turnOf rt d sub rec body (envs number) number out).result.2
  rw [← houtcome] at hcases
  have hnumber : (turnOf rt d sub rec body (envs number) number out).number = number := rfl
  have hfailed : (turnOf rt d sub rec body (envs number) number out).result.2.isSome = true →
      ¬ (turnOf rt d sub rec body (envs number) number out).Succeeded := by
    rintro hsome ⟨hnone, _⟩
    rw [hnone] at hsome
    exact absurd hsome (by simp)
  refine ⟨rfl, hlive, ?_, ?_, ?_, ?_⟩ <;> rcases hcases with ⟨h, hd, hw, he⟩ | ⟨h, hr, hi⟩ | ⟨h, hr, hd⟩ | ⟨h, hr, hi⟩
  · exact iff_of_false (by rw [h]; exact hne.2.1.symm) (by rw [← hdelivered, hd]; simp)
  · exact iff_of_false (by rw [h]; exact hne.2.2.1.symm) (hfailed hr)
  · exact iff_of_true h (hdelivered.mp hd)
  · refine iff_of_false (by rw [h]; exact hne.1.symm) ?_
    rcases hr with hr | hd
    · exact hfailed hr
    · rw [← hdelivered, hd]
      simp
  · exact fun _ => ⟨hlast hw, by rw [← hdelivered, hd]; simp⟩
  · exact fun hx => absurd (h.symm.trans hx) hne.2.2.2.2.2.symm
  · exact fun hx => absurd (h.symm.trans hx) hne.2.1
  · exact fun hx => absurd (h.symm.trans hx) hne.2.2.2.1
  · refine iff_of_false (by rw [h]; exact hne.2.2.2.2.2) fun hx => ?_
    rw [hnumber, ← hinterrupted] at hx
    rw [hstays hx.2] at he
    exact absurd he (by simp)
  · exact iff_of_true h ⟨hr, by rw [hnumber, ← hinterrupted]; exact hi⟩
  · exact iff_of_false (by rw [h]; exact hne.2.2.1) (by rw [hr]; simp)
  · refine iff_of_false (by rw [h]; exact hne.2.2.2.2.1) fun hx => ?_
    rw [hnumber, ← hinterrupted, hi hx.1] at hx
    exact absurd hx.2 (by simp)
  · rw [h]; decide
  · rw [h]; decide
  · rw [h]; decide
  · rw [h]; decide

/-- A turn behind which another is made. -/
theorem continued (hctx : Observes ctx envs) {number : Nat} {out : Outcome} (hout : out.delivered = false)
    (hafter : (envs number).after = none)
    (hrecord : (turnOf rt d sub rec body (envs number) number out).recordErr = none)
    (hdelivered : (outcomeAfter rt sub rec body (envs number) number out).delivered = false)
    (hdelay : (d.schedule.delayFor number).isSome = true) :
    Continued ctx (turnOf rt d sub rec body (envs number) number out) := by
  have hlive : ctx.gone (moment number .after) = false := by rw [← hctx.after, hafter]; rfl
  have hearlier : (envs number).interrupted = false := by
    rw [hctx.interrupted]
    by_contra hgone
    have hle : moment number .classified ≤ moment number .after := by simp [moment, Place.index]
    have hlater := ctx.stays hle (by simpa using hgone)
    rw [hlive] at hlater
    exact absurd hlater (by simp)
  refine ⟨?_, hrecord, hlive, ?_⟩
  · rw [← (@delivered_outcomeAfter rt d sub rec body (envs number) number out hout).1, hdelivered]
    simp
  · show attemptOutcome (envs number) (d.schedule.delayFor number).isSome
      (outcomeAfter rt sub rec body (envs number) number out).delivered
      (turnOf rt d sub rec body (envs number) number out).result.2 = outcomeRetrying
    rcases attemptOutcome_cases (envs number) (d.schedule.delayFor number).isSome
      (outcomeAfter rt sub rec body (envs number) number out).delivered
      (turnOf rt d sub rec body (envs number) number out).result.2 with
      ⟨_, _, hw, _⟩ | ⟨_, _, hi⟩ | ⟨_, _, hd⟩ | ⟨h, _⟩
    · rw [hdelay] at hw
      exact absurd hw (by simp)
    · rw [hearlier] at hi
      exact absurd hi (by simp)
    · rw [hdelivered] at hd
      exact absurd hd (by simp)
    · exact h

/-- The attempt with which the budget is spent while the context is live. -/
theorem exhausted_outcome (hctx : Observes ctx envs) {number : Nat} {out : Outcome}
    (hafter : (envs number).after = none)
    (hdelivered : (outcomeAfter rt sub rec body (envs number) number out).delivered = false)
    (hdelay : d.schedule.delayFor number = none) :
    (turnOf rt d sub rec body (envs number) number out).attempt.outcome = outcomeExhausted := by
  have hlive : ctx.gone (moment number .after) = false := by rw [← hctx.after, hafter]; rfl
  have hexpired : (envs number).expired = false := by
    rw [hctx.expired]
    by_contra hgone
    have hle : moment number .budget ≤ moment number .after := by simp [moment, Place.index]
    have hlater := ctx.stays hle (by simpa using hgone)
    rw [hlive] at hlater
    exact absurd hlater (by simp)
  show attemptOutcome (envs number) (d.schedule.delayFor number).isSome
    (outcomeAfter rt sub rec body (envs number) number out).delivered _ = outcomeExhausted
  exact if_pos ⟨hdelivered, by rw [hdelay]; rfl, hexpired⟩

/-- How a delivery ends without an error: with a 2xx, or with the budget spent. -/
def Finish (r : DeliverResult) (ts : List Turn) (spent : Prop) : Prop :=
  (∃ t, ts.getLast? = some t ∧ t.Succeeded ∧ r.outcome.delivered = true ∧ r.outcome.reason = [] ∧
    t.attempt.outcome = outcomeDelivered) ∨
  (spent ∧ (∀ t ∈ ts, ¬ t.Succeeded) ∧ r.outcome.delivered = false ∧
    ∃ t, ts.getLast? = some t ∧ t.attempt.outcome = outcomeExhausted)

/-- **What holds of a delivery's turns** from attempt `number` on. -/
structure RunSpec (d : Deliverer) (ctx : Context) (number : Nat) (r : DeliverResult) (ts : List Turn) : Prop where
  numbers : ts.map Turn.number = List.range' number ts.length
  budget : number + ts.length ≤ d.schedule.maxAttempts + 1
  turns : ∀ t ∈ ts, TurnSpec d ctx t
  continued : ∀ t ∈ ts.dropLast, Continued ctx t
  finished : r.err = none → Finish r ts (number + ts.length = d.schedule.maxAttempts + 1)

/-- A run of one turn. -/
theorem runSpec_single {number : Nat} {r : DeliverResult} {t : Turn} (hnumber : t.number = number)
    (hmax : number ≤ d.schedule.maxAttempts) (ht : TurnSpec d ctx t)
    (hfinish : r.err = none → Finish r [t] (number + 1 = d.schedule.maxAttempts + 1)) : RunSpec d ctx number r [t] where
  numbers := by
    rw [← hnumber]
    rfl
  budget := Nat.add_le_add_right hmax 1
  turns u hu := by
    rw [List.mem_singleton.mp hu]
    exact ht
  continued := by simp
  finished := hfinish

/-- A turn in front of the others. -/
theorem RunSpec.cons {number : Nat} {r : DeliverResult} {ts : List Turn} {t : Turn}
    (h : RunSpec d ctx (number + 1) r ts) (hnumber : t.number = number) (ht : TurnSpec d ctx t)
    (hgoes : Continued ctx t) (seen : List Event) : RunSpec d ctx number (r.after seen) (t :: ts) := by
  -- the last attempt of the rest is the last of all
  have hlast : ∀ u, ts.getLast? = some u → (t :: ts).getLast? = some u := by
    intro u hu
    cases ts with
    | nil => exact absurd hu (by simp)
    | cons v vs =>
        rw [List.getLast?_cons_cons]
        exact hu
  refine ⟨?_, ?_, ?_, ?_, fun herr => ?_⟩
  · rw [List.map_cons, h.numbers, hnumber, List.length_cons, List.range'_succ]
  · have hbudget := h.budget
    rw [List.length_cons]
    omega
  · intro u hu
    rcases List.mem_cons.mp hu with rfl | hu
    · exact ht
    · exact h.turns u hu
  · intro u hu
    cases ts with
    | nil => simp at hu
    | cons v vs =>
        rw [List.dropLast_cons_cons] at hu
        rcases List.mem_cons.mp hu with rfl | hu
        · exact hgoes
        · exact h.continued u hu
  · rcases h.finished herr with ⟨u, hu, hrest⟩ | ⟨hspent, hnone, hnot, u, hu, houtcome⟩
    · exact Or.inl ⟨u, hlast u hu, hrest⟩
    · refine Or.inr ⟨by rw [List.length_cons]; omega, fun v hv => ?_, hnot, u, hlast u hu, houtcome⟩
      rcases List.mem_cons.mp hv with rfl | hv
      · exact hgoes.unsuccessful
      · exact hnone v hv

/-- **The run lemma**, by induction on the run. -/
theorem runSpec (hctx : Observes ctx envs) {number : Nat} {out : Outcome} {res : DeliverResult × List Call}
    (h : Runs rt d sub rec body envs number out res) : 1 ≤ number → number ≤ d.schedule.maxAttempts →
      out.delivered = false → ∃ ts, res.2 = ts.flatMap Turn.calls ∧ RunSpec d ctx number res.1 ts := by
  -- on the run: one case for each way an attempt can end it, and one for going on
  induction h with
  | ended hbefore =>
      intro hone hmax hout
      exact ⟨[], rfl, rfl, by simp; omega, by simp, by simp, fun h => absurd h (by simp)⟩
  | @failed number out e seen hbefore =>
      intro hone hmax hout
      exact ⟨[turnOf rt d sub rec body (envs number) number out], by simp,
        runSpec_single rfl hmax (turnSpec hctx hbefore hout hone hmax) fun h => absurd h (by simp)⟩
  | @delivered number out seen hbefore hafter hrecord hdelivered =>
      intro hone hmax hout
      have hsuccess := @delivered_outcomeAfter rt d sub rec body (envs number) number out hout
      have ht := @turnSpec rt d sub rec body envs ctx hctx number out hbefore hout hone hmax
      refine ⟨[turnOf rt d sub rec body (envs number) number out], by simp, runSpec_single rfl hmax ht fun _ => ?_⟩
      have hsucceeded := hsuccess.1.mp hdelivered
      exact Or.inl ⟨_, rfl, hsucceeded, hdelivered, hsuccess.2 hdelivered, ht.delivered.mpr hsucceeded⟩
  | @spent number out seen hbefore hafter hrecord hdelivered hdelay =>
      intro hone hmax hout
      have ht := @turnSpec rt d sub rec body envs ctx hctx number out hbefore hout hone hmax
      have houtcome := @exhausted_outcome rt d sub rec body envs ctx hctx number out hafter hdelivered hdelay
      refine ⟨[turnOf rt d sub rec body (envs number) number out], by simp, runSpec_single rfl hmax ht fun _ => ?_⟩
      obtain ⟨hlast, hfailed⟩ := ht.exhausted houtcome
      refine Or.inr ⟨congrArg (· + 1) hlast, fun t ht => ?_, hdelivered, _, rfl, houtcome⟩
      rw [List.mem_singleton.mp ht]
      exact hfailed
  | @next number out seen rest hbefore hafter hrecord hdelivered hdelay hrest ih =>
      intro hone hmax hout
      have ht := @turnSpec rt d sub rec body envs ctx hctx number out hbefore hout hone hmax
      have hgoes := @continued rt d sub rec body envs ctx hctx number out hout hafter hrecord hdelivered hdelay
      have hmore : number + 1 ≤ d.schedule.maxAttempts := by
        rw [isSome_delayFor _ hone, decide_eq_true_iff] at hdelay
        exact Nat.succ_le_succ hdelay
      obtain ⟨ts, hcalls, hspec⟩ := ih (Nat.le_add_left 1 number) hmore hdelivered
      refine ⟨turnOf rt d sub rec body (envs number) number out :: ts, ?_, hspec.cons rfl ht hgoes seen⟩
      rw [hcalls, List.flatMap_cons]

end Loop

/-- **`Deliver`'s retry state machine.**  What a delivery calls, in order, is a list of turns, each a request
and one write of the same number, and what it returns is decided by the last of them. -/
structure RetryMachine (d : Deliverer) (ctx : Context) (rec : Record) (r : DeliverResult) (calls : List Call)
    (ts : List Turn) : Prop where
  calls : calls = ts.flatMap Turn.calls
  /-- The requests are numbered from 1 without gaps, within the budget. -/
  numbers : ts.map Turn.number = List.range' 1 ts.length
  budget : ts.length ≤ d.schedule.delays.length + 1
  turns : ∀ t ∈ ts, TurnSpec d ctx t
  /-- Nothing follows a 2xx, a failed write or the end of the context. -/
  continued : ∀ t ∈ ts.dropLast, Continued ctx t
  finished : r.err = none → (∃ e, encodePayload rec.payload = .error e ∧ ts = []) ∨
    Finish r ts (ts.length = d.schedule.delays.length + 1)

/-- **What `Deliver` calls is such a run**, or nothing where the payload cannot be encoded. -/
theorem runSpec_traced {rt : Runtime} {d : Deliverer} {ctx : Context} {envs : Nat → AttemptEnv}
    (hctx : Observes ctx envs) (hrecorder : d.recorder = true) (htimeout : 0 < d.interruptedWriteTimeout)
    (sub : Subscription) (rec : Record) :
    (∃ e, encodePayload rec.payload = .error e ∧ (traced rt d sub rec envs).2 = []) ∨
      ∃ ts, (traced rt d sub rec envs).2 = ts.flatMap Turn.calls ∧ RunSpec d ctx 1 (traced rt d sub rec envs).1 ts := by
  rw [traced, if_neg (by omega)]
  cases hpayload : encodePayload rec.payload with
  | error e => exact Or.inl ⟨e, rfl, rfl⟩
  | ok body =>
      have hmax : 1 + d.schedule.delays.length = d.schedule.maxAttempts := Nat.add_comm _ _
      have hruns := @runs_tracedFrom rt d sub rec body envs hrecorder d.schedule.delays.length 1
        ⟨sub, 0, false, 0, []⟩ (Nat.le_refl 1) hmax
      exact Or.inr (runSpec hctx hruns (Nat.le_refl 1) (by omega) rfl)

theorem deliver_retryMachine {rt : Runtime} {d : Deliverer} {ctx : Context} {envs : Nat → AttemptEnv}
    (hctx : Observes ctx envs) (hrecorder : d.recorder = true) (htimeout : 0 < d.interruptedWriteTimeout)
    (sub : Subscription) (rec : Record) :
    ∃ ts, RetryMachine d ctx rec (deliver rt d sub rec envs) (traced rt d sub rec envs).2 ts := by
  rw [← traced_fst]
  rcases @runSpec_traced rt d ctx envs hctx hrecorder htimeout sub rec with ⟨e, he, hcalls⟩ | ⟨ts, hcalls, hspec⟩
  · exact ⟨[], hcalls, rfl, Nat.zero_le _, by simp, by simp, fun _ => Or.inl ⟨e, he, rfl⟩⟩
  · have hbudget := hspec.budget
    have hmax : d.schedule.maxAttempts = d.schedule.delays.length + 1 := rfl
    refine ⟨ts, hcalls, hspec.numbers, by omega, hspec.turns, hspec.continued, fun herr => Or.inr ?_⟩
    have hspent : (1 + ts.length = d.schedule.maxAttempts + 1) = (ts.length = d.schedule.delays.length + 1) :=
      propext (by omega)
    rw [← hspent]
    exact hspec.finished herr

/-- The first request is made under a live context. -/
theorem attempted_first {rt : Runtime} {d : Deliverer} {sub : Subscription} {rec : Record} {body : Bytes}
    {envs : Nat → AttemptEnv} (hrecorder : d.recorder = true) (htimeout : 0 < d.interruptedWriteTimeout)
    (hbody : encodePayload rec.payload = .ok body) (hbefore : (envs 1).before = none) :
    .attempted 1 (attempt rt sub rec body (envs 1).exchange).1 ∈ (traced rt d sub rec envs).2 := by
  rw [traced, if_neg (by omega), hbody]
  have hruns := @runs_tracedFrom rt d sub rec body envs hrecorder d.schedule.delays.length 1
    ⟨sub, 0, false, 0, []⟩ (Nat.le_refl 1) (Nat.add_comm _ _)
  show _ ∈ (tracedFrom rt d sub rec body envs (d.schedule.delays.length + 1) 1 ⟨sub, 0, false, 0, []⟩).2
  generalize tracedFrom rt d sub rec body envs (d.schedule.delays.length + 1) 1 ⟨sub, 0, false, 0, []⟩ = res at hruns ⊢
  cases hruns with
  | ended h =>
      rw [hbefore] at h
      exact absurd h (by simp)
  | failed _ => simp [Turn.calls, turnOf]
  | delivered _ _ _ _ => simp [Turn.calls, turnOf]
  | spent _ _ _ _ _ => simp [Turn.calls, turnOf]
  | next _ _ _ _ _ _ => simp [Turn.calls, turnOf]

/-- Five attempts, with a recorder. -/
def fiveAttempts : Deliverer := ⟨⟨[1, 2, 4, 8]⟩, 5, true⟩

/-- The row of a turn is stored, if the database takes it. -/
theorem recordErr_turnOf {rt : Runtime} {d : Deliverer} {sub : Subscription} {rec : Record} {body : Bytes} {env : AttemptEnv}
    {number : Nat} {out : Outcome} (hid : isBlank rec.id = false) (hurl : isBlank sub.url = false) (hsub : 0 < sub.id)
    (hstarted : env.startedAt.isZero = false) (hfinished : env.finishedAt.isZero = false)
    (hclock : env.finishedAt.before env.startedAt = false) (hstored : env.stored = none) :
    (turnOf rt d sub rec body env number out).recordErr = none := by
  have hbuilt := wellBuilt_turnAttempt rt sub rec body number hclock (d.schedule.delayFor number).isSome
    (outcomeAfter rt sub rec body env number out).delivered
  have hvalid := (hbuilt.validate hid hurl).mpr ⟨hsub, hstarted, hfinished⟩
  rw [turnOf, recordAttempt, storeAttempt, ← outcomeAfter, hvalid, hstored]
  split <;> rfl

/-- A turn with another behind it. -/
theorem tracedFrom_next {rt : Runtime} {d : Deliverer} {sub : Subscription} {rec : Record} {body : Bytes}
    {envs : Nat → AttemptEnv} {left number : Nat} {out : Outcome} (hrecorder : d.recorder = true)
    (hbefore : (envs number).before = none) (hafter : (envs number).after = none)
    (hrecord : (turnOf rt d sub rec body (envs number) number out).recordErr = none)
    (hdelivered : (outcomeAfter rt sub rec body (envs number) number out).delivered = false)
    (hdelay : (d.schedule.delayFor number).isSome = true) (hslept : (envs number).slept = none) :
    (tracedFrom rt d sub rec body envs (left + 1) number out).2 =
      (turnOf rt d sub rec body (envs number) number out).calls ++
        (tracedFrom rt d sub rec body envs left (number + 1) (outcomeAfter rt sub rec body (envs number) number out)).2 := by
  rw [tracedFrom, hbefore]
  simp only [hrecorder, if_true, hafter]
  split
  · next hsome _ => exact absurd hsome (by simp)
  · next hsome _ => exact absurd hsome (by simp)
  · next _ hsome => exact absurd (hrecord.symm.trans hsome) (by simp)
  split
  · next htrue => exact absurd (hdelivered.symm.trans htrue) (by simp)
  split
  · next hnone => exact absurd (hdelay.symm.trans (congrArg Option.isSome hnone)) (by simp)
  · rw [hslept]
    rfl

/-- A turn behind which the context has ended. -/
theorem tracedFrom_ended {rt : Runtime} {d : Deliverer} {sub : Subscription} {rec : Record} {body : Bytes}
    {envs : Nat → AttemptEnv} {left number : Nat} {out : Outcome} {e : Err} (hrecorder : d.recorder = true)
    (hbefore : (envs number).before = none) (hafter : (envs number).after = some e) :
    (tracedFrom rt d sub rec body envs (left + 1) number out).2 =
      (turnOf rt d sub rec body (envs number) number out).calls := by
  rw [tracedFrom, hbefore]
  simp only [hrecorder, if_true, hafter]
  split
  · rfl
  · rfl
  · next hnone _ => exact absurd hnone (by simp)
  · next hnone _ => exact absurd hnone (by simp)

/-- A context that ends while attempt `n` waits for its answer. -/
def endsDuring (n : Nat) : Context where
  gone m := decide (moment n .classified ≤ m)
  stays := by
    intro m m' hle h
    rw [decide_eq_true_iff] at h ⊢
    omega

theorem endsDuring_gone (n number : Nat) (p : Place) :
    (endsDuring n).gone (moment number p) = decide (6 * n + 2 ≤ 6 * number + p.index) := by
  rw [endsDuring]
  rfl

/-- The attempts under it. -/
def cutDuring (n : Nat) (exchange : Nat → Exchange) (number : Nat) : AttemptEnv where
  before := if number ≤ n then none else some (.new (ascii "context deadline exceeded"))
  startedAt := .ofUnix 100
  exchange := exchange number
  finishedAt := .ofUnix 101
  expired := decide (n ≤ number)
  interrupted := decide (n ≤ number)
  stored := none
  after := if number < n then none else some (.new (ascii "context deadline exceeded"))
  slept := none

theorem isSome_unless {p : Prop} [Decidable p] (e : Err) : (if p then none else some e).isSome = decide (¬ p) := by
  by_cases h : p
  · rw [if_pos h, Option.isSome_none, decide_eq_false (not_not_intro h)]
  · rw [if_neg h, Option.isSome_some, decide_eq_true h]

theorem observes_cutDuring (n : Nat) (exchange : Nat → Exchange) : Observes (endsDuring n) (cutDuring n exchange) := by
  refine ⟨fun number => ?_, fun number => ?_, fun number => ?_, fun number => ?_⟩
  · rw [endsDuring_gone, cutDuring, isSome_unless]
    apply decide_eq_decide.mpr
    simp only [Place.index]
    omega
  · rw [endsDuring_gone, cutDuring]
    apply decide_eq_decide.mpr
    simp only [Place.index]
    omega
  · rw [endsDuring_gone, cutDuring]
    apply decide_eq_decide.mpr
    simp only [Place.index]
    omega
  · rw [endsDuring_gone, cutDuring, isSome_unless]
    apply decide_eq_decide.mpr
    simp only [Place.index]
    omega

/-- The first request is answered with 500, the second not before the context ends. -/
def interruptedRetry : Nat → AttemptEnv := cutDuring 2 fun number =>
  if number = 1 then .answered (.ofUnix 100) 500 else .failed (.ofUnix 100) hook.url (.new (ascii "context deadline exceeded"))

theorem encodePayload_invoice : ∃ body, encodePayload invoice.payload = .ok body :=
  encodePayload_isOk (by decide)

/-- Two requests are made, and two attempts written. -/
theorem traced_interruptedRetry : ∃ (first second : Attempt) (e : Err),
    (traced plainRuntime fiveAttempts hook invoice interruptedRetry).2 =
      [.attempted 1 (500, none), .wrote first none, .attempted 2 (0, some e), .wrote second none] := by
  obtain ⟨body, hbody⟩ := encodePayload_invoice
  have hid : isBlank invoice.id = false := by decide
  have hurl : isBlank hook.url = false := by decide +kernel
  have hstored : ∀ number out, (turnOf plainRuntime fiveAttempts hook invoice body (interruptedRetry number) number
      out).recordErr = none :=
    fun _ _ => recordErr_turnOf hid hurl Int.one_pos rfl rfl rfl rfl
  have hfirst := @tracedFrom_next plainRuntime fiveAttempts hook invoice body interruptedRetry 4 1 ⟨hook, 0, false, 0, []⟩ rfl
    rfl rfl (hstored 1 _) rfl rfl rfl
  have hsecond := @tracedFrom_ended plainRuntime fiveAttempts hook invoice body interruptedRetry 3 2
    (outcomeAfter plainRuntime hook invoice body (interruptedRetry 1) 1 ⟨hook, 0, false, 0, []⟩)
    (.new (ascii "context deadline exceeded")) rfl rfl rfl
  rw [traced, if_neg (by decide), hbody]
  show ∃ first second e, (tracedFrom plainRuntime fiveAttempts hook invoice body interruptedRetry 5 1 ⟨hook, 0, false, 0, []⟩).2 = _
  rw [hfirst, hsecond, Turn.calls, Turn.calls, hstored, hstored]
  exact ⟨_, _, _, rfl⟩

theorem deliver_retryMachine_interrupted :
    ∃ ts, RetryMachine fiveAttempts (endsDuring 2) invoice (deliver plainRuntime fiveAttempts hook invoice interruptedRetry)
      (traced plainRuntime fiveAttempts hook invoice interruptedRetry).2 ts ∧
        ts.map (·.attempt.outcome) = [outcomeRetrying, outcomeInterrupted] := by
  obtain ⟨ts, h⟩ := @deliver_retryMachine plainRuntime fiveAttempts _ interruptedRetry (observes_cutDuring 2 _) rfl
    (by decide) hook invoice
  refine ⟨ts, h, ?_⟩
  obtain ⟨first, second, e, hcalls⟩ := traced_interruptedRetry
  have hturns := hcalls.symm.trans h.calls
  -- two turns, the first continued and the second interrupted
  match ts, hturns with
  | [t₁, t₂], hturns =>
    simp only [List.flatMap_cons, List.flatMap_nil, Turn.calls, List.cons_append, List.nil_append, List.cons.injEq,
      Call.attempted.injEq, Call.wrote.injEq, and_true] at hturns
    obtain ⟨-, -, ⟨hnumber, hresult⟩, -⟩ := hturns
    have hfirst := (h.continued t₁ (List.mem_cons_self ..)).outcome
    have hsecond := (h.turns t₂ (by simp)).interrupted.mpr
      ⟨by rw [← hresult]; rfl, by rw [← hnumber, endsDuring_gone]; rfl⟩
    rw [List.map_cons, List.map_cons, hfirst, hsecond, List.map_nil]
  | [], hturns => exact absurd hturns (by simp)
  | [_], hturns => exact absurd hturns (by simp [Turn.calls])
  | _ :: _ :: _ :: _, hturns => exact absurd hturns (by simp [Turn.calls])

/-! ## The context of the write -/

/-- The context `recordAttempt` hands to the store: the record's, or for an interrupted attempt one
detached from it with a time of its own. -/
inductive WriteContext where
  | record
  | detached (timeout : Int)
  deriving DecidableEq, Repr

/-- **`recordAttempt`**'s choice, from the outcome. -/
def writeContext (d : Deliverer) (a : Attempt) : WriteContext :=
  if a.outcome = outcomeInterrupted then .detached d.interruptedWriteTimeout else .record

/-- The context is live when the recorder is called at that moment. -/
def WriteContext.Live (ctx : Context) (m : Nat) : WriteContext → Prop
  | .record => ctx.gone m = false
  | .detached timeout => 0 < timeout

/-- **Every request is followed at once by a write of its attempt**, under a live context. -/
def WritesLive (d : Deliverer) (ctx : Context) : List Call → Prop
  | [] => True
  | .attempted number _ :: .wrote a _ :: rest =>
    a.attemptNumber = number ∧ (writeContext d a).Live ctx (moment number .write) ∧ WritesLive d ctx rest
  | _ => False

/-- Where the context has ended by the time of a request's write, the request had failed and the context had
ended before its result was looked at. -/
def Interruptible (ctx : Context) (calls : List Call) : Prop :=
  ∀ number result, .attempted number result ∈ calls → ctx.gone (moment number .write) = true →
    result.2.isSome = true ∧ ctx.gone (moment number .classified) = true

/-- One turn: only an interrupted attempt is written under a context of its own. -/
theorem live_iff {d : Deliverer} {ctx : Context} (htimeout : 0 < d.interruptedWriteTimeout) {t : Turn}
    (ht : TurnSpec d ctx t) : (writeContext d t.attempt).Live ctx (moment t.number .write) ↔
      (ctx.gone (moment t.number .write) = true →
        t.result.2.isSome = true ∧ ctx.gone (moment t.number .classified) = true) := by
  unfold writeContext
  split
  · next hinterrupted => exact iff_of_true htimeout fun _ => ht.interrupted.mp hinterrupted
  · next hnot =>
    show ctx.gone (moment t.number .write) = false ↔ _
    constructor
    · intro hlive hgone
      rw [hlive] at hgone
      exact absurd hgone (by simp)
    · intro hall
      by_contra hgone
      exact hnot (ht.interrupted.mpr (hall (by simpa using hgone)))

theorem interruptible_cons {ctx : Context} {t : Turn} {calls : List Call} :
    Interruptible ctx (t.calls ++ calls) ↔ (ctx.gone (moment t.number .write) = true →
      t.result.2.isSome = true ∧ ctx.gone (moment t.number .classified) = true) ∧ Interruptible ctx calls := by
  constructor
  · intro h
    exact ⟨h t.number t.result (by simp [Turn.calls]), fun number result hmem => h number result (List.mem_append_right _ hmem)⟩
  · rintro ⟨hone, hrest⟩ number result hmem
    rcases List.mem_append.mp hmem with hmem | hmem
    · obtain ⟨rfl, rfl⟩ : number = t.number ∧ result = t.result := by simpa [Turn.calls] using hmem
      exact hone
    · exact hrest number result hmem

/-- All turns, by induction on them. -/
theorem writesLive_flatMap {d : Deliverer} {ctx : Context} (htimeout : 0 < d.interruptedWriteTimeout) {ts : List Turn}
    (hts : ∀ t ∈ ts, TurnSpec d ctx t) :
    WritesLive d ctx (ts.flatMap Turn.calls) ↔ Interruptible ctx (ts.flatMap Turn.calls) := by
  induction ts with
  | nil => exact iff_of_true trivial (by simp [Interruptible])
  | cons t ts ih =>
      have ht := hts t (by simp)
      rw [List.flatMap_cons, interruptible_cons, ← live_iff htimeout ht,
        ← ih fun u hu => hts u (List.mem_cons_of_mem t hu)]
      exact and_iff_right ht.number

/-- A delivery makes turns and nothing else. -/
theorem traced_turns {rt : Runtime} {d : Deliverer} {ctx : Context} {envs : Nat → AttemptEnv}
    (hctx : Observes ctx envs) (hrecorder : d.recorder = true) (htimeout : 0 < d.interruptedWriteTimeout)
    (sub : Subscription) (rec : Record) :
    ∃ ts : List Turn, (traced rt d sub rec envs).2 = ts.flatMap Turn.calls ∧ ∀ t ∈ ts, TurnSpec d ctx t := by
  rcases @runSpec_traced rt d ctx envs hctx hrecorder htimeout sub rec with ⟨_, _, hcalls⟩ | ⟨ts, hcalls, hspec⟩
  · exact ⟨[], hcalls, fun t ht => absurd ht List.not_mem_nil⟩
  · exact ⟨ts, hcalls, hspec.turns⟩

/-- **Which deliveries lose no request to the end of the context.** -/
theorem writesLive_iff {rt : Runtime} {d : Deliverer} {ctx : Context} {envs : Nat → AttemptEnv}
    (hctx : Observes ctx envs) (hrecorder : d.recorder = true) (htimeout : 0 < d.interruptedWriteTimeout)
    (sub : Subscription) (rec : Record) :
    WritesLive d ctx (traced rt d sub rec envs).2 ↔ Interruptible ctx (traced rt d sub rec envs).2 := by
  obtain ⟨ts, hcalls, hts⟩ := @traced_turns rt d ctx envs hctx hrecorder htimeout sub rec
  rw [hcalls]
  exact writesLive_flatMap htimeout hts

theorem writesLive_iff_interrupted : ∃ e,
    .attempted 2 (0, some e) ∈ (traced plainRuntime fiveAttempts hook invoice interruptedRetry).2 ∧
    (endsDuring 2).gone (moment 2 .write) = true ∧
    WritesLive fiveAttempts (endsDuring 2) (traced plainRuntime fiveAttempts hook invoice interruptedRetry).2 := by
  have hiff := @writesLive_iff plainRuntime fiveAttempts _ interruptedRetry (observes_cutDuring 2 _) rfl (by decide) hook
    invoice
  rw [hiff]
  obtain ⟨first, second, e, hcalls⟩ := traced_interruptedRetry
  rw [hcalls]
  refine ⟨e, by simp, by rw [endsDuring_gone]; rfl, ?_⟩
  intro number result hmem hgone
  simp only [List.mem_cons, List.not_mem_nil, or_false, Call.attempted.injEq, reduceCtorEq, false_or] at hmem
  rw [endsDuring_gone] at hgone ⊢
  rcases hmem with ⟨rfl, rfl⟩ | ⟨rfl, rfl⟩
  · exact absurd hgone (by decide)
  · exact ⟨rfl, rfl⟩

/-- The first request is answered with 200 just as the deadline passes. -/
def answeredLate : Nat → AttemptEnv := cutDuring 1 fun _ => .answered (.ofUnix 100) 200

-- The linter would run the delivery to the end to see what kind of proposition the hypothesis is.
set_option linter.constructorNameAsVariable false in
/-- **A request answered as the deadline passes is written under the ended context.** -/
theorem not_writesLive_answeredLate : Observes (endsDuring 1) answeredLate ∧
    ¬ WritesLive fiveAttempts (endsDuring 1) (traced plainRuntime fiveAttempts hook invoice answeredLate).2 := by
  refine ⟨(observes_cutDuring 1 _), fun hlive => ?_⟩
  obtain ⟨body, hbody⟩ : ∃ body, encodePayload invoice.payload = .ok body := by
    have hjson : ¬ Codec.Json.valid Codec.Json.maxNestingDepth invoice.payload.data = false := by decide
    rw [encodePayload, if_neg hjson]
    exact ⟨_, rfl⟩
  have hbefore : (answeredLate 1).before = none := rfl
  have hfirst := @attempted_first plainRuntime fiveAttempts hook invoice body answeredLate rfl (by decide) hbody hbefore
  obtain ⟨ts, hcalls, hts⟩ := @traced_turns plainRuntime fiveAttempts (endsDuring 1) answeredLate (observes_cutDuring 1 _) rfl
    (by decide) hook invoice
  rw [hcalls] at hlive hfirst
  have hgone : (endsDuring 1).gone (moment 1 .write) = true := by
    rw [endsDuring_gone]
    rfl
  -- the request has no error, so the attempt is not interrupted and goes under the record's context
  have hinterruptible := (writesLive_flatMap (by decide) hts).mp hlive
  have hfailed := (hinterruptible 1 _ hfirst hgone).1
  have hanswered : (attempt plainRuntime hook invoice body (answeredLate 1).exchange).1.2 = none := by
    rw [answeredLate]
    rfl
  rw [hanswered] at hfailed
  exact absurd hfailed Bool.false_ne_true

end LocalPlatform.Relay.Delivery
