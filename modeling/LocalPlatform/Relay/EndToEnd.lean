/-
# LocalPlatform.Relay.EndToEnd — from the request that created an event to the webhook requests it causes.

The service is the history store with its calls and, beside it, any number of consumers.  Only the
publisher of a call puts records on the delivery topic, and what is on it may be read any number of
times, in any order, by a consumer that may die after any of its events: redelivery, a rewound group and
a second consumer are all runs of this system.

An event's data is carried by five texts: the request's body, the row, the row read back under its lock,
the Kafka value and the webhook body.  `integrity` says that the last still holds the octets of the
first, whichever request did the publishing.
-/
import LocalPlatform.Relay.Delivery.Consumer
import LocalPlatform.Relay.Delivery.Recordable
import LocalPlatform.Relay.History.AcceptEvent
import LocalPlatform.Relay.Ingest
import LocalPlatform.Relay.RoundTrip

namespace LocalPlatform.Relay

open Codec Codec.Json History Subscriptions Delivery Ingest

/-- The world of the whole service: the store's, the requests behind its calls, and a consumer's. -/
structure Service (J : Type) where
  store : Setting J
  env : Nat → Ingest.Env
  body : Nat → Bytes
  /-- A call accepts what `postEvent` made of its request. -/
  asked : ∀ c rec, store.jobs c = .accept rec → candidate (env c) (body c) = .ok rec
  rt : Runtime
  deliverer : Deliverer

structure ServiceState (J : Type) where
  store : State J
  events : List Event

/-- **The message may be on the delivery topic**: some call handed its record to the publisher, and no
answer rules out that it got there. -/
def OnTopic {J : Type} (s : State J) (msg : Kafka.Message) : Prop :=
  ∃ p ∈ s.log, p.result ≠ .failed false ∧ ∃ value, encodeRecord p.record = .ok value ∧
    msg.key = some p.record.key ∧ msg.value = some value

section System

variable {J : Type} [DecidableEq J] (S : Service J)

/-- One step: of the store, or a consumer's life with one message, whole or cut short. -/
inductive ServiceStep (s : ServiceState J) : ServiceState J → Prop
  | store {c t} (step : Step S.store s.store c t) : ServiceStep s ⟨t, s.events⟩
  | consume {msg} (w : Answers) (seen : Nat) (here : OnTopic s.store msg) :
      ServiceStep s ⟨s.store, s.events ++ (processRecord S.rt S.deliverer msg w).1.events.take seen⟩

/-- **The service**, from an empty database on. -/
def service : Logic.System (ServiceState J) := ⟨fun s => s = ⟨unused, []⟩, ServiceStep S⟩

/-- **The webhook request is what the event's creator asked for**: the row it names was inserted for a
request whose type and data it carries, the data octet for octet, under a signature of its id, its own
timestamp header and its body. -/
def Intact (s : ServiceState J) (sub : Subscription) (req : Webhook) : Prop :=
  ∃ row ∈ s.store.events, row.id = req.webhookID ∧ ∃ c post, row.creator = some c ∧
    decodeRequest (S.env c).decodeError (S.body c) = .ok post ∧ row.eventType = post.type ∧
    row.tenantID = post.tenantID ∧
    req.body = ascii "\x7b\"type\":" ++ quote row.eventType ++ ascii ",\"data\":" ++ post.data ++ ascii "\x7d" ∧
    req.webhookSignature = v1 ++ 0x2c ::
      Base64.encode (S.rt.hmac sub.secret (signedContent req.webhookID req.webhookTimestamp req.body))

/-- **Payload integrity.** -/
structure Integrity (s : ServiceState J) : Prop where
  /-- What a 202 names is a row some request created. -/
  accepted : ∀ c a, (s.store.calls c).client = .done (.accepted a) →
    ∃ row ∈ s.store.events, row.id = a.record.id ∧ row.tenantID = a.record.tenantID ∧ ∃ c', row.creator = some c'
  requested : ∀ sub req, .requested sub req ∈ s.events → Intact S s sub req

end System

/-! ## What a consumer sends -/

/-- Whether the commit takes effect or not, what was seen is what `handle` left. -/
theorem events_processRecord (rt : Runtime) (d : Deliverer) (msg : Kafka.Message) (w : Answers) :
    (processRecord rt d msg w).1.events = (handle rt d msg w).2 := by
  unfold processRecord
  simp only
  split
  · next seen hhandle => rw [hhandle]
  · next seen hhandle =>
    rw [hhandle]
    split <;> rfl

/-- A webhook request comes from a record that was decoded. -/
theorem of_requested {rt : Runtime} {d : Deliverer} {msg : Kafka.Message} {w : Answers} {sub : Subscription}
    {req : Webhook} (h : .requested sub req ∈ (processRecord rt d msg w).1.events) :
    ∃ rec body now, decodeMessage msg = some rec ∧ encodePayload rec.payload = .ok body ∧
      req = webhook rt sub rec body now := by
  rw [events_processRecord] at h
  cases hdecode : decodeMessage msg with
  | none =>
      rw [handle_undecodable hdecode] at h
      obtain ⟨m, hm⟩ := of_mem_deadLetter h
      exact absurd hm (by simp)
  | some rec =>
      cases hlookup : forTenant rt.lib rec.tenantID w.query with
      | error e =>
          obtain ⟨e', he'⟩ := handle_lookupFailed (d := d) hdecode hlookup
          rw [he'] at h
          exact absurd h List.not_mem_nil
      | ok subs =>
          rw [handle_decoded hdecode hlookup] at h
          rcases List.mem_append.mp h with h | h
          · rcases List.mem_cons.mp h with h | h
            · exact absurd h (by simp)
            obtain ⟨events, hevents, he⟩ := (Logic.mem_interleave _ _).mp h
            obtain ⟨r, hr, rfl⟩ := List.mem_map.mp hevents
            obtain ⟨sub', _, hd⟩ := (fanOut_delivers subs 0).2 r hr
            obtain ⟨body, hbody, rfl, now, hreq⟩ := hd.own _ he
            exact ⟨rec, body, now, rfl, hbody, hreq⟩
          · obtain ⟨dl, m, hm⟩ := of_mem_settle h
            exact absurd hm (by simp)

/-! ## The invariant -/

section Invariant

variable {J : Type} [DecidableEq J] {S : Service J}

/-- The webhook request carries the record of a publication. -/
def Published (S : Service J) (s : State J) (sub : Subscription) (req : Webhook) : Prop :=
  ∃ p ∈ s.log, ∃ now, req.webhookID = p.record.id ∧
    req.body = ascii "\x7b\"type\":" ++ quote p.record.type ++ ascii ",\"data\":" ++ p.record.data ++ ascii "\x7d" ∧
    req.webhookTimestamp = timestamp now ∧
    req.webhookSignature = sign S.rt.hmac sub.secret p.record.id now req.body

/-- Everything in the store has a call behind it, and every webhook request a publication. -/
structure ServiceInv (S : Service J) (s : ServiceState J) : Prop where
  store : (system S.store).Reachable s.store
  creators : ∀ row ∈ s.store.events, ∃ c, row.creator = some c
  callers : ∀ p ∈ s.store.log, ∃ c, p.call = some c
  requested : ∀ sub req, .requested sub req ∈ s.events → Published S s.store sub req

/-- One step of the store keeps rows with creators, publications with callers. -/
theorem origins_of_step {s t : State J} {c : Nat} (h : Step S.store s c t)
    (hrows : ∀ row ∈ s.events, ∃ c, row.creator = some c) (hlog : ∀ p ∈ s.log, ∃ c, p.call = some c) :
    (∀ row ∈ t.events, ∃ c, row.creator = some c) ∧ ∀ p ∈ t.log, ∃ c, p.call = some c := by
  -- rows and messages come from the calls of the service only
  cases h with
  | call => exact ⟨hrows, hlog⟩
  | @insert rec data seen job client json =>
      refine ⟨fun row hrow => ?_, hlog⟩
      rcases of_mem_insertEvent hrow with hrow | rfl
      · exact hrows row hrow
      · exact ⟨c, rfl⟩
  | read => exact ⟨hrows, hlog⟩
  | lockEvent => exact ⟨hrows, hlog⟩
  | @publish row tx value result client unpublished encoded =>
      refine ⟨hrows, fun p hp => ?_⟩
      rcases List.mem_append.mp hp with hp | hp
      · exact hlog p hp
      · rw [List.mem_singleton.mp hp]
        exact ⟨c, rfl⟩
  | @commit client w call =>
      cases w with
      | nothing => exact ⟨hrows, hlog⟩
      | publish id =>
          refine ⟨fun row hrow => ?_, hlog⟩
          obtain ⟨r, hr, hcore, _⟩ := of_mem_markPublished hrow
          have hcreator : row.core.creator = r.core.creator := by rw [hcore]
          obtain ⟨c', hc'⟩ := hrows r hr
          exact ⟨c', hcreator.trans hc'⟩
      | attempt row => exact ⟨hrows, hlog⟩
  | abort => exact ⟨hrows, hlog⟩

/-- **The record of a publication is what its row's creator asked for.** -/
theorem record_of_publication {s : State J} (hs : AcceptInv S.store s)
    (hrows : ∀ row ∈ s.events, ∃ c, row.creator = some c) {p : Publication} {c : Nat} (hp : p ∈ s.log)
    (hcall : p.call = some c) : ∃ row ∈ s.events, row.id = p.record.id ∧ row.eventType = p.record.type ∧
      ∃ c' rec, row.creator = some c' ∧ S.store.jobs c' = .accept rec ∧ row.eventType = rec.type ∧
        row.tenantID = rec.tenantID ∧ p.record.data = rec.data ∧ p.record.Encodable := by
  obtain ⟨chosen, ⟨_, row, hrow, hcore⟩, hrecord⟩ := hs.tables.log p hp c hcall
  obtain ⟨c', hc'⟩ := hrows row hrow
  obtain ⟨rec, data, hjob, _, hnew⟩ := hs.tables.created row hrow c' hc'
  have hencodable := encodable_of_candidate (S.asked c' rec hjob)
  -- trimming changes the key only
  have htrim : (trimKey rec).id = rec.id ∧ (trimKey rec).tenantID = rec.tenantID ∧
      (trimKey rec).type = rec.type ∧ (trimKey rec).data = rec.data := by
    unfold trimKey
    split <;> exact ⟨rfl, rfl, rfl, rfl⟩
  -- the row that was published has the core its creator gave it
  have hchosen : chosen.core = newRow c' (trimKey rec) data := hcore.symm.trans hnew
  have hrowID : row.id = rec.id := (congrArg EventRow.id hnew).trans htrim.1
  have hrowTenant : row.tenantID = rec.tenantID := (congrArg EventRow.tenantID hnew).trans htrim.2.1
  have hrowType : row.eventType = rec.type := (congrArg EventRow.eventType hnew).trans htrim.2.2.1
  have hid : p.record.id = rec.id := by
    rw [hrecord]
    exact (congrArg EventRow.id hchosen).trans htrim.1
  have htenant : p.record.tenantID = rec.tenantID := by
    rw [hrecord]
    exact (congrArg EventRow.tenantID hchosen).trans htrim.2.1
  have htype : p.record.type = rec.type := by
    rw [hrecord]
    exact (congrArg EventRow.eventType hchosen).trans htrim.2.2.1
  have hdata : p.record.data = rec.data := by
    rw [hrecord]
    exact (congrArg EventRow.dataRaw hchosen).trans htrim.2.2.2
  have hkey : p.record.idempotencyKey = (trimKey rec).idempotencyKey := by
    rw [hrecord]
    exact congrArg EventRow.idempotencyKey hchosen
  have hkeyUtf8 : validUtf8 (trimKey rec).idempotencyKey = true := by
    unfold trimKey
    split
    · rfl
    · exact hencodable.idempotencyKey
  refine ⟨row, hrow, hrowID.trans hid.symm, hrowType.trans htype.symm, c', rec, hc', hjob, hrowType, hrowTenant,
    hdata, ?_⟩
  exact ⟨hid ▸ hencodable.id, htenant ▸ hencodable.tenantID, htype ▸ hencodable.type, hkey ▸ hkeyUtf8,
    hdata ▸ hencodable.data⟩

/-- **What a consumer sends of a message on the topic** is the record that was published. -/
theorem published_of_requested {s : State J} (hs : AcceptInv S.store s)
    (hrows : ∀ row ∈ s.events, ∃ c, row.creator = some c) (hcallers : ∀ p ∈ s.log, ∃ c, p.call = some c)
    {msg : Kafka.Message} (hmsg : OnTopic s msg) {w : Answers} {sub : Subscription} {req : Webhook}
    (h : .requested sub req ∈ (processRecord S.rt S.deliverer msg w).1.events) : Published S s sub req := by
  obtain ⟨p, hp, _, value, hvalue, _, hmsg⟩ := hmsg
  obtain ⟨rec, body, now, hdecode, hbody, rfl⟩ := of_requested h
  obtain ⟨c, hc⟩ := hcallers p hp
  obtain ⟨_, _, _, _, _, _, _, _, _, _, _, hencodable⟩ := record_of_publication hs hrows hp hc
  obtain ⟨text, _, hround⟩ := decodeRecord_encodeRecord hencodable hvalue
  have hrec : decodeRecord value = some rec := by
    rw [decodeMessage, hmsg] at hdecode
    exact hdecode
  rw [hrec] at hround
  obtain ⟨t, _, hrec⟩ := Option.map_eq_some_iff.mp hround.symm
  refine ⟨p, hp, now, by rw [← hrec]; rfl, ?_, rfl, by rw [← hrec]; rfl⟩
  have hbody := (encodePayload_ok hbody).2
  rw [← hrec] at hbody
  exact hbody

theorem serviceInv_of_reachable {s : ServiceState J} (hs : (service S).Reachable s) : ServiceInv S s := by
  refine Logic.System.invariant (fun s hs => ?_) (fun s t _ h hstep => ?_) hs
  · rw [hs]
    exact ⟨⟨unused, initial_unused, .refl⟩, fun row hrow => absurd hrow List.not_mem_nil,
      fun p hp => absurd hp List.not_mem_nil, fun sub req hreq => absurd hreq List.not_mem_nil⟩
  · have haccept := acceptInv_of_reachable h.store
    cases hstep with
    | @store c t step =>
        obtain ⟨hrows, hcallers⟩ := origins_of_step step h.creators h.callers
        obtain ⟨new, hlog⟩ := step.permanent.log
        refine ⟨h.store.step ⟨c, step⟩, hrows, hcallers, fun sub req hreq => ?_⟩
        obtain ⟨p, hp, rest⟩ := h.requested sub req hreq
        exact ⟨p, by rw [hlog]; exact List.mem_append_left _ hp, rest⟩
    | @consume msg w seen here =>
        refine ⟨h.store, h.creators, h.callers, fun sub req hreq => ?_⟩
        rcases List.mem_append.mp hreq with hreq | hreq
        · exact h.requested sub req hreq
        · exact published_of_requested haccept h.creators h.callers here (List.mem_of_mem_take hreq)

/-- **Every webhook request carries its event's payload as it was first sent in**, in every run of the
service. -/
theorem integrity {s : ServiceState J} (hs : (service S).Reachable s) : Integrity S s := by
  have h := serviceInv_of_reachable hs
  have haccept := acceptInv_of_reachable h.store
  constructor
  · intro c a ha
    have hclient := haccept.client c
    rw [ha] at hclient
    -- the row the answer was read from is still in the table, its core unchanged
    obtain ⟨row, ⟨_, r, hr, hcore⟩, hrecord, _⟩ := hclient
    obtain ⟨c', hc'⟩ := h.creators r hr
    have hid : r.core.id = row.core.id := by rw [hcore]
    have htenant : r.core.tenantID = row.core.tenantID := by rw [hcore]
    rw [hrecord]
    exact ⟨r, hr, hid, htenant, c', hc'⟩
  · intro sub req hreq
    obtain ⟨p, hp, now, hid, hbody, htimestamp, hsign⟩ := h.requested sub req hreq
    obtain ⟨c, hc⟩ := h.callers p hp
    obtain ⟨row, hrow, hrowID, hrowType, c', rec, hcreator, hjob, htype, htenant, hdata, _⟩ :=
      record_of_publication haccept h.creators hp hc
    -- the request that created the row is what was signed
    obtain ⟨post, b, hpost, _, rfl, _⟩ := candidate_ok (S.asked c' rec hjob)
    refine ⟨row, hrow, hrowID.trans hid.symm, c', post, hcreator, hpost, htype, htenant, ?_, ?_⟩
    · rw [hbody, hrowType, hdata]
      rfl
    · rw [hsign, Delivery.sign, htimestamp, hid]

end Invariant

/-! ## A service in use -/

/-- The request every call of it makes. -/
def greeting : PostEventRequest := ⟨ascii "acme", ascii "greeting", ascii "[]", []⟩

def greetingEnv : Ingest.Env := ⟨[], some ⟨List.replicate 16 7, length_sevens⟩, .ofUnix 100⟩

def greetingRecord : Record := greeting.record (newID (List.replicate 16 7)) greetingEnv.now

theorem candidate_greeting : candidate greetingEnv (requestBody greeting) = .ok greetingRecord := by
  decide +kernel

/-- A service whose only request is the greeting. -/
def greetings : Service Bytes where
  store := ⟨some, fun _ => 0, fun _ => .accept greetingRecord⟩
  env _ := greetingEnv
  body _ := requestBody greeting
  asked _ rec h := by
    rw [← Job.accept.inj h]
    exact candidate_greeting
  rt := plainRuntime
  deliverer := ⟨⟨[1]⟩, 5, true⟩

/-- What the store does alone, the service does. -/
theorem reachable_of_store {J : Type} [DecidableEq J] {S : Service J} {t : State J}
    (h : (system S.store).Later unused t) : (service S).Reachable ⟨t, []⟩ := by
  refine ⟨⟨unused, []⟩, rfl, ?_⟩
  induction h with
  | refl => exact .refl
  | tail _ hstep ih =>
      obtain ⟨c, hstep⟩ := hstep
      exact ih.tail (.store hstep)

/-- One subscriber, which answers 200. -/
def greeted : Answers where
  decodeError := []
  poison := ⟨none, .ofUnix 200⟩
  query := .rows [hook] none
  subscribers _ := ⟨fun _ => answering 200, none, .ofUnix 200⟩
  schedule := []
  commit := .acked

/-- The subscriber is sent the greeting. -/
theorem requested_greeting {msg : Kafka.Message} (h : decodeMessage msg = some greetingRecord) :
    ∃ req, .requested hook req ∈ (processRecord greetings.rt greetings.deliverer msg greeted).1.events ∧
      req.webhookID = greetingRecord.id := by
  have hlookup : forTenant greetings.rt.lib greetingRecord.tenantID greeted.query = .ok [hook] := by decide
  have hvalid : valid maxNestingDepth greetingRecord.payload.data = true := rfl
  obtain ⟨body, hbody⟩ := encodePayload_isOk hvalid
  have hsent : ∃ req, .requested hook req ∈
      (deliver greetings.rt greetings.deliverer hook greetingRecord fun _ => answering 200).events ∧
        req.webhookID = greetingRecord.id :=
    ⟨_, attempt_subset_deliver (by decide) hbody rfl _ List.mem_cons_self, rfl⟩
  obtain ⟨req, hreq, hid⟩ := hsent
  refine ⟨req, ?_, hid⟩
  rw [events_processRecord, handle_decoded h hlookup]
  refine List.mem_append_left _ (List.mem_cons_of_mem _ ((Logic.mem_interleave _ _).mpr ⟨_, ?_, hreq⟩))
  rw [fanOut, List.map_cons]
  exact List.mem_cons_self

/-- The greeting is accepted, published, read from the topic and sent to a subscriber. -/
theorem integrity_greeting : ∃ (t : State Bytes) (events : List Event) (req : Webhook),
    (t.calls 0).client = .done (.accepted ⟨greetingRecord, false⟩) ∧ .requested hook req ∈ events ∧
      req.webhookID = greetingRecord.id ∧ Integrity greetings ⟨t, events⟩ := by
  have hrecord : ((newRow 0 (trimKey greetingRecord) greetingRecord.data).record greetings.store.zone) =
      greetingRecord := by decide
  have hdata : IsValue 9999 greetingRecord.data :=
    ⟨rfl, fun c hc => by obtain rfl : 0x5b = c := Option.some.inj hc; rfl⟩
  have hsound : greetingRecord.Sound := ⟨by decide +kernel, by decide +kernel, rfl, hdata, rfl, by decide⟩
  obtain ⟨value, hencoded⟩ := @encodeRecord_isOk greetingRecord (by decide) hsound.year
  obtain ⟨t, ht, hdone, hpublished⟩ := @accept_undisturbed Bytes greetings.store _ unused 0 greetingRecord
    greetingRecord.data value rfl rfl rfl (fun _ h => absurd h List.not_mem_nil) rfl (hrecord ▸ hencoded)
  rw [hrecord] at hdone hpublished
  let msg : Kafka.Message := ⟨ascii "relay.deliveries", 0, 0, some greetingRecord.key, some value, .ofUnix 100⟩
  have htopic : OnTopic t msg := ⟨_, hpublished, by simp, value, hencoded, rfl, rfl⟩
  obtain ⟨req, hreq, hid⟩ := @requested_greeting msg (decodeRecord_eq hsound.encodable hsound.wholeMinutes hencoded)
  have hreach := (reachable_of_store ht).step (ServiceStep.consume greeted
    (processRecord greetings.rt greetings.deliverer msg greeted).1.events.length htopic)
  rw [List.take_length, List.nil_append] at hreach
  exact ⟨t, _, req, hdone, hreq, hid, integrity hreach⟩

end LocalPlatform.Relay
