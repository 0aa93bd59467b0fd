/-
# LocalPlatform.Relay.Delivery.Poison — which records can block a partition.

A record whose own content makes `handle` fail comes back for ever.  With every dependency healthy, what
can fail is decided by relay's code from the record: the tenant check of the lookup, the event-id check
of the history, and the times and the depth of nesting that `json.Marshal` cannot write into a dead letter.
`commits_iff` says exactly which messages get past them.
-/
import LocalPlatform.Relay.Delivery.Group
import LocalPlatform.Relay.Delivery.Recordable

namespace LocalPlatform.Relay.Delivery

open Codec Codec.Json Subscriptions History Kafka

/-- The service as it is configured, with subscriptions it may deliver to. -/
structure Configured (rt : Runtime) (d : Deliverer) (subs : List Subscription) : Prop where
  timeout : 0 < d.interruptedWriteTimeout
  recorder : d.recorder = true
  urls : ∀ sub ∈ subs, validateURL rt.lib sub.url = none
  ids : ∀ sub ∈ subs, 0 < sub.id

/-- Nothing but the subscriber stands in the way of an attempt: the record's context lives, the clock is
set, and the history fails only for want of the event's row. -/
structure HealthyAttempt (env : AttemptEnv) : Prop where
  before : env.before = none
  after : env.after = none
  slept : env.slept = none
  started : env.startedAt.isZero = false
  finished : env.finishedAt.isZero = false
  clock : env.finishedAt.before env.startedAt = false
  stored : ∀ e, env.stored = some e → e.is .eventNotFound = true

/-- **Every dependency is healthy.**  What the subscribers answer is left open. -/
structure Healthy (subs : List Subscription) (w : Answers) : Prop where
  query : w.query = .rows subs none
  poison : w.poison.answer = none ∧ w.poison.failedAt.utc.encodable = true
  attempts : ∀ i n, HealthyAttempt ((w.subscribers i).attempts n)
  parks : ∀ i, (w.subscribers i).park.answer = none ∧ (w.subscribers i).park.failedAt.utc.encodable = true
  commit : w.commit = .acked

/-- The record is committed in every healthy world. -/
def Commits (rt : Runtime) (d : Deliverer) (msg : Message) (subs : List Subscription) : Prop :=
  ∀ w, Healthy subs w → (processRecord rt d msg w).1.committed = true

/-- **What a message must be like**: unreadable under a time that can be written, or a record with a
tenant that, if it has subscribers at all, has a time that can be written and, unless there is no data to send, an
id and data that a dead letter has the levels for. -/
def Digestible (msg : Message) (subs : List Subscription) : Prop :=
  match decodeMessage msg with
  | none => msg.time.encodable = true
  | some rec => isBlank rec.tenantID = false ∧ (subs = [] ∨
      (rec.occurredAt.encodable = true ∧ (rec.data = [] ∨ (isBlank rec.id = false ∧ valid maxDataDepth rec.data = true))))

/-! ## Dead letters -/

theorem deadLetter_eq_none {dl : DeadLetter} : (deadLetter dl none).1 = none ↔ Writable dl := by
  rw [← deadLetterMessage_isOk]
  unfold deadLetter
  cases deadLetterMessage dl with
  | error e => simp
  | ok msg => simp

theorem parkAll_eq_none {what : Bytes} {letters : List (DeadLetter × Option Err)} :
    (parkAll what letters).1 = none ↔ ∀ l ∈ letters, (deadLetter l.1 l.2).1 = none := by
  induction letters with
  | nil => simp [parkAll]
  | cons l rest ih =>
      obtain ⟨dl, answer⟩ := l
      rw [parkAll, List.forall_mem_cons, ← ih]
      cases hdl : deadLetter dl answer with
      | mk err seen =>
          cases err with
          | some e => simp
          | none => simp

/-- **When settling succeeds**: no error is left to retry, and every dead letter goes through. -/
theorem settle_eq_none {rec : Record} {results : List Result} : (settle rec results).1 = none ↔
    (∀ r ∈ results, retryError r = none) ∧
    (∀ r ∈ results, isMissing r = true → (deadLetter (missingLetter rec r).1 (missingLetter rec r).2).1 = none) ∧
    ∀ r ∈ results, isMissing r = false → r.1.outcome.delivered = false →
      (deadLetter (exhaustedLetter rec r).1 (exhaustedLetter rec r).2).1 = none := by
  have hretry : Err.join (results.filterMap retryError) = none ↔ ∀ r ∈ results, retryError r = none := by
    rw [Err.join_eq_none, List.filterMap_eq_nil_iff]
  have hmissing := @parkAll_eq_none (ascii "dead-letter missing history for " ++ rec.id ++ ascii ": ")
    ((results.filter isMissing).map (missingLetter rec))
  have hexhausted := @parkAll_eq_none (ascii "dead-letter " ++ rec.id ++ ascii ": ")
    ((results.filter fun r => !isMissing r && !r.1.outcome.delivered).map (exhaustedLetter rec))
  simp only [List.forall_mem_map, List.mem_filter, and_imp, Bool.and_eq_true, Bool.not_eq_true'] at hmissing hexhausted
  rw [← hretry, ← hmissing, ← hexhausted]
  unfold settle
  cases Err.join (results.filterMap retryError) with
  | some e => simp
  | none =>
      cases parkAll (ascii "dead-letter missing history for " ++ rec.id ++ ascii ": ")
          ((results.filter isMissing).map (missingLetter rec)) with
      | mk err seen =>
          cases err with
          | some e => simp
          | none => simp

/-- With the commit acknowledged, a record is committed exactly when `handle` returns nil. -/
theorem committed_iff {rt : Runtime} {d : Deliverer} {msg : Message} {w : Answers} (h : w.commit = .acked) :
    (processRecord rt d msg w).1.committed = true ↔ (handle rt d msg w).1 = none := by
  unfold processRecord
  cases handle rt d msg w with
  | mk err seen =>
      cases err with
      | some e => simp
      | none => simp [h]

/-! ## Healthy deliveries -/

/-- An attempt of an event with an id is only refused for want of the event's row. -/
theorem recordAttempt_healthy {rt : Runtime} {d : Deliverer} {sub : Subscription} {rec : Record} {body : Bytes}
    {number : Nat} {env : AttemptEnv} {willRetry delivered : Bool} (hid : isBlank rec.id = false)
    (hurl : validateURL rt.lib sub.url = none) (hsub : 0 < sub.id) (henv : HealthyAttempt env) :
    ∀ e, (recordAttempt rt d rec.id (turnAttempt sub number env (attempt rt sub rec body env.exchange).1
      willRetry delivered) env.stored).1 = some e → e.is .eventNotFound = true := by
  have hvalid := ((wellBuilt_turnAttempt rt sub rec body number henv.clock willRetry delivered).validate hid
    (not_blank_of_validateURL hurl)).mpr ⟨hsub, henv.started, henv.finished⟩
  intro e he
  unfold recordAttempt storeAttempt at he
  rw [hvalid] at he
  split at he
  · exact absurd he (by simp)
  · simp only at he
    split at he
    · next e' hstored =>
      rw [← Option.some.inj he, Err.is_wrap]
      exact henv.stored e' hstored
    · exact absurd he (by simp)

/-- A delivery in a healthy world ends without an error, or for want of the event's row. -/
theorem deliverFrom_healthy {rt : Runtime} {d : Deliverer} {sub : Subscription} {rec : Record} {body : Bytes}
    {envs : Nat → AttemptEnv} (hid : isBlank rec.id = false) (hurl : validateURL rt.lib sub.url = none)
    (hsub : 0 < sub.id) (henvs : ∀ n, HealthyAttempt (envs n)) (left : Nat) : ∀ number out,
      ∀ e, (deliverFrom rt d sub rec body envs left number out).err = some e → e.is .eventNotFound = true := by
  induction left with
  | zero => exact fun number out e he => absurd he (by simp [deliverFrom, gaveUp])
  | succ left ih =>
      intro number out e he
      have hrecord := fun willRetry delivered =>
        @recordAttempt_healthy rt d sub rec body number (envs number) willRetry delivered hid hurl hsub
          (henvs number)
      rw [deliverFrom] at he
      simp only [(henvs number).before, (henvs number).after, (henvs number).slept] at he
      split at he
      · next hafter _ => exact absurd hafter (by simp)
      · next hafter _ => exact absurd hafter (by simp)
      · next r _ hr => exact hrecord _ _ e (hr.trans he)
      · split at he
        · exact absurd he (by simp)
        · split at he
          · exact absurd he (by simp [DeliverResult.after, gaveUp])
          · exact ih _ _ e he

/-- **Deliveries of a digestible record need no retry**, and their dead letters can be written. -/
theorem settle_healthy {rt : Runtime} {d : Deliverer} {rec : Record} {answers : Nat → SubscriberAnswers}
    {subs : List Subscription} (hcfg : Configured rt d subs)
    (hattempts : ∀ i n, HealthyAttempt ((answers i).attempts n))
    (hparks : ∀ i, (answers i).park.answer = none ∧ (answers i).park.failedAt.utc.encodable = true)
    (htime : rec.occurredAt.encodable = true)
    (hsent : rec.data = [] ∨ (isBlank rec.id = false ∧ valid maxDataDepth rec.data = true)) (i : Nat) :
    (settle rec (fanOut rt d rec answers i subs)).1 = none := by
  -- every result is that of one subscription and its own answers
  have hresults : ∀ r ∈ fanOut rt d rec answers i subs, ∃ j sub, sub ∈ subs ∧
      r = (deliver rt d sub rec (answers j).attempts, (answers j).park) := by
    clear hcfg
    induction subs generalizing i with
    | nil => simp [fanOut]
    | cons sub rest ih =>
        intro r hr
        rcases List.mem_cons.mp hr with rfl | hr
        · exact ⟨i, sub, List.mem_cons_self, rfl⟩
        · obtain ⟨j, s, hs, hr⟩ := ih (i + 1) r hr
          exact ⟨j, s, List.mem_cons_of_mem _ hs, hr⟩
  have hwritable : ∀ r ∈ fanOut rt d rec answers i subs, ∀ reason,
      (deadLetter (failureLetter rec reason r).1 (failureLetter rec reason r).2).1 = none := by
    intro r hr reason
    obtain ⟨j, sub, _, rfl⟩ := hresults r hr
    have hanswer : (failureLetter rec reason
        (deliver rt d sub rec (answers j).attempts, (answers j).park)).2 = none := (hparks j).1
    rw [hanswer, deadLetter_eq_none]
    exact ⟨hsent.imp_right And.right, htime, fun s hs => absurd hs (by simp [failureLetter]), (hparks j).2⟩
  refine settle_eq_none.mpr ⟨fun r hr => ?_, fun r hr _ => hwritable r hr _, fun r hr _ _ => hwritable r hr _⟩
  obtain ⟨j, sub, hsub, rfl⟩ := hresults r hr
  unfold retryError isMissing
  cases herr : (deliver rt d sub rec (answers j).attempts).err with
  | none => rfl
  | some e =>
      -- where all answers are good the only error left is that the event is gone
      have hmissing : e.is .eventNotFound = true := by
        unfold deliver at herr
        rw [if_neg (by have := hcfg.timeout; omega)] at herr
        split at herr
        · exact absurd herr (by simp)
        · next body hbody =>
          have hne : rec.data ≠ [] := by
            intro hnil
            have hvalid : valid maxNestingDepth rec.data = true := (encodePayload_ok hbody).1
            rw [hnil] at hvalid
            exact absurd hvalid (by decide)
          exact deliverFrom_healthy (hsent.resolve_left hne).1 (hcfg.urls sub hsub) (hcfg.ids sub hsub)
            (hattempts j) _ _ _ e herr
      simp [hmissing]

/-! ## A world in which every subscriber fails -/

def failingAttempt : AttemptEnv :=
  ⟨none, .ofUnix 1, .answered (.ofUnix 1) 500, .ofUnix 2, false, false, none, none, none⟩

def failingWorld (subs : List Subscription) : Answers where
  decodeError := []
  poison := ⟨none, .ofUnix 2⟩
  query := .rows subs none
  subscribers _ := ⟨fun _ => failingAttempt, none, .ofUnix 2⟩
  schedule := []
  commit := .acked

theorem healthy_failingAttempt : HealthyAttempt failingAttempt :=
  ⟨rfl, rfl, rfl, by decide, by decide, by decide, by simp [failingAttempt]⟩

theorem healthy_failingWorld (subs : List Subscription) : Healthy subs (failingWorld subs) := by
  have hclock : (Time.ofUnix 2).utc.encodable = true := by decide
  exact ⟨rfl, ⟨rfl, hclock⟩, fun _ _ => healthy_failingAttempt, fun _ => ⟨rfl, hclock⟩, rfl⟩

/-- An event with an id is given up on. -/
theorem deliverFrom_failing {rt : Runtime} {d : Deliverer} {sub : Subscription} {rec : Record} {body : Bytes}
    (hid : isBlank rec.id = false) (hurl : validateURL rt.lib sub.url = none) (hsub : 0 < sub.id) (left : Nat) :
    ∀ number out, out.delivered = false →
      (deliverFrom rt d sub rec body (fun _ => failingAttempt) left number out).err = none ∧
      (deliverFrom rt d sub rec body (fun _ => failingAttempt) left number out).outcome.delivered = false := by
  induction left with
  | zero => exact fun number out hd => ⟨rfl, hd⟩
  | succ left ih =>
      intro number out hd
      have hvalid := fun willRetry => ((wellBuilt_turnAttempt rt sub rec body number
        healthy_failingAttempt.clock willRetry false).validate hid (not_blank_of_validateURL hurl)).mpr
        ⟨hsub, healthy_failingAttempt.started, healthy_failingAttempt.finished⟩
      have hout : (afterRequest out number 500 none).delivered = false := by
        simp [afterRequest, isSuccess, hd]
      have hrecord : ∀ willRetry, (recordAttempt rt d rec.id (turnAttempt sub number failingAttempt
          (attempt rt sub rec body failingAttempt.exchange).1 willRetry false) failingAttempt.stored).1 = none := by
        intro willRetry
        unfold recordAttempt storeAttempt
        rw [hvalid willRetry]
        split <;> rfl
      have hresult : (attempt rt sub rec body failingAttempt.exchange).1 = (500, none) := rfl
      rw [deliverFrom]
      simp only [healthy_failingAttempt.before, healthy_failingAttempt.after, healthy_failingAttempt.slept, hresult,
        hout]
      rw [hresult] at hrecord
      simp only [hrecord, Bool.false_eq_true, if_false]
      split
      · exact ⟨rfl, hout⟩
      · exact ih (number + 1) _ hout

/-- An event without an id is refused by the history, attempt after attempt. -/
theorem deliverFrom_blank {rt : Runtime} {d : Deliverer} {sub : Subscription} {rec : Record} {body : Bytes}
    (hrecorder : d.recorder = true) (hid : isBlank rec.id = true) (left number : Nat) (out : Outcome) :
    ∃ e, (deliverFrom rt d sub rec body (fun _ => failingAttempt) (left + 1) number out).err = some e ∧
      e.is .eventNotFound = false := by
  have hrecord : ∀ a, ∃ e, recordAttempt rt d rec.id a failingAttempt.stored = (some e, []) ∧
      e.is .eventNotFound = false := by
    intro a
    have hinvalid : validateAttempt rec.id a = some .blankEventID := if_pos hid
    unfold recordAttempt storeAttempt
    rw [if_neg (by simp [hrecorder]), hinvalid]
    exact ⟨_, rfl, rfl⟩
  rw [deliverFrom]
  simp only [healthy_failingAttempt.before, healthy_failingAttempt.after]
  obtain ⟨e, he, hnotMissing⟩ := hrecord (turnAttempt sub number failingAttempt
    (attempt rt sub rec body failingAttempt.exchange).1 (d.schedule.delayFor number).isSome
    (afterRequest out number (attempt rt sub rec body failingAttempt.exchange).1.1
      (attempt rt sub rec body failingAttempt.exchange).1.2).delivered)
  rw [he]
  exact ⟨e, rfl, hnotMissing⟩

/-! ## What can be committed -/

/-- With valid rows the lookup fails for a blank tenant only. -/
theorem forTenant_rows {rt : Runtime} {d : Deliverer} {subs : List Subscription} (hcfg : Configured rt d subs)
    {tenantID : Bytes} (h : isBlank tenantID = false) :
    forTenant rt.lib tenantID (.rows subs none) = .ok subs := by
  unfold forTenant
  rw [if_neg (by simp [h])]
  exact scan_of_valid hcfg.urls

theorem writable_undecodable {sha256 : Bytes → Bytes} {msg : Message} {decodeErr : Bytes} {now : Time} :
    Writable (undecodableDeadLetter sha256 msg decodeErr now) ↔
      msg.time.encodable = true ∧ now.utc.encodable = true := by
  have hzero : Record.zero.occurredAt.encodable = true := by decide
  have hrecord : (undecodableDeadLetter sha256 msg decodeErr now).record = Record.zero := rfl
  have hfailed : (undecodableDeadLetter sha256 msg decodeErr now).failedAt = now.utc := rfl
  obtain ⟨source, hsource, htime⟩ : ∃ s, (undecodableDeadLetter sha256 msg decodeErr now).source = some s ∧
      s.timestamp = msg.time := ⟨_, rfl, rfl⟩
  constructor
  · intro h
    have hencodable := h.source source hsource
    have hclock := h.failedAt
    rw [htime] at hencodable
    rw [hfailed] at hclock
    exact ⟨hencodable, hclock⟩
  · rintro ⟨hencodable, hclock⟩
    refine ⟨Or.inl (by rw [hrecord]; rfl), by rw [hrecord]; exact hzero, fun s hs => ?_, by rw [hfailed]; exact hclock⟩
    obtain rfl := Option.some.inj (hsource.symm.trans hs)
    rw [htime]
    exact hencodable

/-- The first subscriber's result, of a delivery that ended with nothing to retry and nothing delivered,
is parked with the record's own time and data. -/
theorem writable_of_settle {rec : Record} {r : Result} {rest : List Result}
    (h : (settle rec (r :: rest)).1 = none) (herr : r.1.err = none) (hd : r.1.outcome.delivered = false)
    (hanswer : r.2.answer = none) : Writable (exhaustedLetter rec r).1 := by
  have hpark := (settle_eq_none.mp h).2.2 r List.mem_cons_self (by simp [isMissing, herr]) hd
  have hnone : (exhaustedLetter rec r).2 = none := hanswer
  rwa [hnone, deadLetter_eq_none] at hpark

/-- **In the failing world a record that is finished has a time that can be written**, and an id and data of
few enough levels unless there is no data. -/
theorem digestible_of_settle {rt : Runtime} {d : Deliverer} {rec : Record} {sub : Subscription}
    {rest : List Subscription} (hcfg : Configured rt d (sub :: rest))
    (hdata : rec.data = [] ∨ IsValue 9999 rec.data)
    (h : (settle rec (fanOut rt d rec (failingWorld (sub :: rest)).subscribers 0 (sub :: rest))).1 = none) :
    rec.occurredAt.encodable = true ∧ (rec.data = [] ∨ (isBlank rec.id = false ∧ valid maxDataDepth rec.data = true)) := by
  have htimeout : ¬ d.interruptedWriteTimeout ≤ 0 := by
    have := hcfg.timeout
    omega
  rcases hdata with hnil | hvalue
  · -- without data there is no request: the payload cannot be built, and the failure is parked at once
    have hencode : ∃ e, encodePayload rec.payload = .error e := by
      have hvalid : valid maxNestingDepth rec.data = false := by
        rw [hnil]
        decide
      exact ⟨_, if_pos hvalid⟩
    obtain ⟨e, he⟩ := hencode
    have hdeliver : deliver rt d sub rec (fun _ => failingAttempt) =
        ⟨⟨sub, 0, false, 0, ascii "encode payload: " ++ e⟩, none, []⟩ := by
      unfold deliver
      rw [if_neg htimeout, he]
    refine ⟨(writable_of_settle h ?_ ?_ rfl).occurredAt, Or.inl hnil⟩
    · show (deliver rt d sub rec fun _ => failingAttempt).err = none
      rw [hdeliver]
    · show (deliver rt d sub rec fun _ => failingAttempt).outcome.delivered = false
      rw [hdeliver]
  -- with data every attempt is made, fails and is parked
  · obtain ⟨body, hbody⟩ := @encodePayload_isOk rec.payload (valid_mono (by decide) hvalue.valid)
    have hdeliver : deliver rt d sub rec (fun _ => failingAttempt) =
        deliverFrom rt d sub rec body (fun _ => failingAttempt) d.schedule.maxAttempts 1 ⟨sub, 0, false, 0, []⟩ := by
      unfold deliver
      rw [if_neg htimeout, hbody]
    have hid : isBlank rec.id = false := by
      by_contra hblank
      rw [Bool.not_eq_false] at hblank
      obtain ⟨e, he, hnotMissing⟩ := @deliverFrom_blank rt d sub rec body hcfg.recorder hblank
        d.schedule.delays.length 1 ⟨sub, 0, false, 0, []⟩
      have hretry := (settle_eq_none.mp h).1 _ List.mem_cons_self
      have herr : (deliver rt d sub rec fun _ => failingAttempt).err = some e := by
        rw [hdeliver]
        exact he
      have hsome : retryError (deliver rt d sub rec fun _ => failingAttempt,
          (failingWorld (sub :: rest)).subscribers 0 |>.park) = some e := by
        simp [retryError, isMissing, herr, hnotMissing]
      exact absurd (hsome.symm.trans hretry) (by simp)
    have hfailed := @deliverFrom_failing rt d sub rec body hid (hcfg.urls sub List.mem_cons_self)
      (hcfg.ids sub List.mem_cons_self) d.schedule.maxAttempts 1 ⟨sub, 0, false, 0, []⟩ rfl
    rw [← hdeliver] at hfailed
    have hwritable := writable_of_settle h hfailed.1 hfailed.2 rfl
    exact ⟨hwritable.occurredAt, Or.inr ⟨hid, hwritable.data.resolve_left hvalue.ne_nil⟩⟩

/-- **Which messages cannot block a partition.** -/
theorem commits_iff {rt : Runtime} {d : Deliverer} {msg : Message} {subs : List Subscription}
    (hcfg : Configured rt d subs) : Commits rt d msg subs ↔ Digestible msg subs := by
  have hworld : Commits rt d msg subs ↔ ∀ w, Healthy subs w → (handle rt d msg w).1 = none :=
    forall₂_congr fun w hw => committed_iff hw.commit
  rw [hworld]
  unfold Digestible
  -- a message that does not decode is parked whole, so only its time matters
  cases hdecode : decodeMessage msg with
  | none =>
      have hparked : ∀ w, Healthy subs w → ((handle rt d msg w).1 = none ↔ msg.time.encodable = true) := by
        intro w hw
        rw [handle_undecodable hdecode, hw.poison.1, deadLetter_eq_none, writable_undecodable]
        exact and_iff_left hw.poison.2
      exact ⟨fun h => (hparked _ (healthy_failingWorld subs)).mp (h _ (healthy_failingWorld subs)),
        fun h w hw => (hparked w hw).mpr h⟩
  | some rec =>
      have hdata : rec.data = [] ∨ IsValue 9999 rec.data := by
        obtain ⟨value, _, hvalue⟩ := Option.bind_eq_some_iff.mp hdecode
        exact data_of_decodeRecord hvalue
      constructor
      · intro h
        have hfinished := h _ (healthy_failingWorld subs)
        -- a blank tenant fails the lookup on every delivery, even where all else is well
        have htenant : isBlank rec.tenantID = false := by
          by_contra hblank
          rw [Bool.not_eq_false] at hblank
          have hlookup : forTenant rt.lib rec.tenantID (failingWorld subs).query =
              .error (.new (ascii "subscriptions: empty tenant id")) := if_pos hblank
          obtain ⟨e, he⟩ := handle_lookupFailed (d := d) hdecode hlookup
          rw [he] at hfinished
          exact absurd hfinished (by simp)
        rw [handle_decoded hdecode (forTenant_rows hcfg htenant)] at hfinished
        refine ⟨htenant, ?_⟩
        cases subs with
        | nil => exact Or.inl rfl
        | cons sub rest => exact Or.inr (digestible_of_settle hcfg hdata hfinished)
      · rintro ⟨htenant, hsubs⟩ w hw
        have hlookup : forTenant rt.lib rec.tenantID w.query = .ok subs := by
          rw [hw.query]
          exact forTenant_rows hcfg htenant
        rw [handle_decoded hdecode hlookup]
        rcases hsubs with rfl | ⟨htime, hsent⟩
        · simp [fanOut, settle, parkAll, Err.join]
        · exact settle_healthy hcfg (fun i n => hw.attempts i n) (fun i => hw.parks i) htime hsent 0

theorem configured_hook : Configured plainRuntime demoConsumer.deliverer [hook] :=
  ⟨by decide, rfl, by decide, by decide⟩

theorem commits_iff_nullMessage : Commits plainRuntime demoConsumer.deliverer (nullMessage 0) [hook] := by
  have hdecode : decodeMessage (nullMessage 0) = none := rfl
  have htime : (nullMessage 0).time.encodable = true := by decide
  refine (commits_iff configured_hook).mpr ?_
  rw [Digestible, hdecode]
  exact htime

/-- A record that decodes to nothing at all. -/
def emptyRecord : Message := ⟨ascii "deliveries", 0, 0, none, some (ascii "\x7b\x7d"), .ofUnix 0⟩

/-- **An empty object is never committed**: it decodes, and its tenant is blank. -/
theorem not_commits_emptyRecord : ¬ ∀ (rt : Runtime) (d : Deliverer) (msg : Message) (subs : List Subscription),
    Configured rt d subs → Commits rt d msg subs := by
  intro hall
  have hworld := healthy_failingWorld [hook]
  have h := hall plainRuntime demoConsumer.deliverer emptyRecord [hook] configured_hook _ hworld
  rw [committed_iff hworld.commit] at h
  have hdecode : decodeMessage emptyRecord = some Record.zero := by decide
  have hlookup : forTenant plainRuntime.lib Record.zero.tenantID (failingWorld [hook]).query =
      .error (.new (ascii "subscriptions: empty tenant id")) := if_pos rfl
  obtain ⟨e, he⟩ := handle_lookupFailed (d := demoConsumer.deliverer) hdecode hlookup
  rw [he] at h
  exact absurd h (by simp)

end LocalPlatform.Relay.Delivery
