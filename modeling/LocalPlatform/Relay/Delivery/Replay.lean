/-
# LocalPlatform.Relay.Delivery.Replay — can a dead-lettered event be sent again.

The dead letter carries the decoded record so that the event can be replayed.  The record was put on the
log with its data spliced in, but the dead letter is written by `json.Marshal`, which compacts raw data
and escapes markup inside it, and it nests the record one level deeper, where there may be no level left.
`replays_iff` says which data survive that.
-/
import LocalPlatform.Relay.Delivery.Consumer
import LocalPlatform.Relay.Delivery.Reading
import LocalPlatform.Relay.Delivery.Recordable
import LocalPlatform.Relay.RoundTrip

namespace LocalPlatform.Relay.Delivery

open Codec Codec.Json Kafka

/-- Data that `json.Marshal` leaves as they are, and that stand one level deeper without harm. -/
structure Carried (data : Bytes) : Prop where
  spaces : insignificants maxDataDepth Scan.init data = 0
  markup : data.countP isHtml = 0
  separators : separators data = 0
  depth : IsValue 9998 data

theorem reencoded_eq_self {data : Bytes} (hne : data ≠ []) : reencoded data = data ↔
    insignificants maxDataDepth Scan.init data = 0 ∧ data.countP isHtml = 0 ∧ separators data = 0 := by
  rw [reencoded, if_neg hne]
  exact compactFrom_eq_self

/-- Data with a level to spare are still a value once they are re-encoded. -/
theorem isValue_reencoded {lim : Nat} (hle : lim ≤ maxDataDepth) {data : Bytes}
    (h : data = [] ∨ IsValue lim data) : IsValue lim (reencoded data) := by
  unfold reencoded
  split
  · exact isValue_null lim
  · next hne => exact isValue_compactFrom hle (h.resolve_left hne)

/-- A decoded time is a whole number of minutes from UTC. -/
theorem wholeMinutes_of_decodeRecord {value : Bytes} {r : Record} (h : decodeRecord value = some r) :
    r.occurredAt.wholeMinutes := by
  refine @decodeRecord_induction (fun r => r.occurredAt.wholeMinutes) rfl (fun f hf z raw z' hz _ hset => ?_) value r h
  simp only [recordFields, List.mem_cons, List.not_mem_nil, or_false] at hf
  rcases hf with rfl | rfl | rfl | rfl | rfl | rfl
  · obtain ⟨s, _, rfl⟩ := Option.map_eq_some_iff.mp hset
    exact hz
  · obtain ⟨s, _, rfl⟩ := Option.map_eq_some_iff.mp hset
    exact hz
  · obtain ⟨s, _, rfl⟩ := Option.map_eq_some_iff.mp hset
    exact hz
  · rw [← Option.some.inj hset]
    exact hz
  · obtain ⟨t, ht, rfl⟩ := Option.map_eq_some_iff.mp hset
    show t.wholeMinutes
    unfold Time.unmarshal at ht
    split at ht
    · exact Option.some.inj ht ▸ hz
    split at ht
    · exact absurd ht (by simp)
    · exact Time.wholeMinutes_of_parse ht
  · obtain ⟨s, _, rfl⟩ := Option.map_eq_some_iff.mp hset
    exact hz

/-- **The dead letter replays the event**: decoding it gives the consumed record, its data byte for byte,
so the webhook's body is the one of the original attempts; and the record goes back on the log as the
value it was consumed from, if that value was made of text, bare data and a time of whole minutes. -/
def Replays (r rec : Record) (value letter : Bytes) : Prop :=
  ∃ dl', decodeDeadLetter letter = some dl' ∧ dl'.record = rec ∧ dl'.record.data = rec.data ∧
    encodePayload dl'.record.payload = encodePayload rec.payload ∧
    (r.Encodable → r.occurredAt.wholeMinutes → encodeRecord dl'.record = .ok value)

section Replaying

variable {r rec : Record} {value reason : Bytes} {res : Result} {msg : Outgoing}

/-- A dead letter whose data leave the decoder a level is read back, its data re-encoded. -/
theorem decode_deadLetterMessage (hrec : decodeRecord value = some rec)
    (hrange : (failureLetter rec reason res).1.InRange)
    (hmsg : deadLetterMessage (failureLetter rec reason res).1 = .ok msg) (hdata : IsValue 9998 (reencoded rec.data)) :
    ∃ dl', decodeDeadLetter msg.value = some dl' ∧ dl'.record = { rec with data := reencoded rec.data } := by
  refine ⟨_, decode_marshal (textual_of_decodeRecord hrec) hdata hrange (marshal_of_message hmsg), ?_⟩
  show rereadRecord rec = _
  rw [rereadRecord, Time.inMinutes_of_wholeMinutes (wholeMinutes_of_decodeRecord hrec)]

/-- What is replayed unchanged was carried unchanged. -/
theorem carried_of_replays (hrec : decodeRecord value = some rec)
    (hrange : (failureLetter rec reason res).1.InRange)
    (hmsg : deadLetterMessage (failureLetter rec reason res).1 = .ok msg) (h : Replays r rec value msg.value) :
    Carried rec.data := by
  obtain ⟨dl', hdl', hsame, _⟩ := h
  -- nothing deeper than this is ever read back from inside a dead letter
  have hdata : rec.data = [] ∨ IsValue 9998 rec.data := hsame ▸ data_of_decodeDeadLetter hdl'
  obtain ⟨dl, hdl, hrecord⟩ := decode_deadLetterMessage hrec hrange hmsg (isValue_reencoded (by decide) hdata)
  obtain rfl := Option.some.inj (hdl.symm.trans hdl')
  have hkept : reencoded rec.data = rec.data := congrArg Record.data (hrecord.symm.trans hsame)
  rcases hdata with hnil | hvalue
  · rw [hnil] at hkept
    exact absurd hkept (by simp [reencoded, literalNull])
  · obtain ⟨hspaces, hmarkup, hseparators⟩ := (reencoded_eq_self hvalue.ne_nil).mp hkept
    exact ⟨hspaces, hmarkup, hseparators, hvalue⟩

theorem replays_of_carried (hvalue : encodeRecord r = .ok value) (hrec : decodeRecord value = some rec)
    (hrange : (failureLetter rec reason res).1.InRange)
    (hmsg : deadLetterMessage (failureLetter rec reason res).1 = .ok msg) (h : Carried rec.data) :
    Replays r rec value msg.value := by
  have hkept : reencoded rec.data = rec.data := (reencoded_eq_self h.depth.ne_nil).mpr ⟨h.spaces, h.markup, h.separators⟩
  obtain ⟨dl, hdl, hrecord⟩ := decode_deadLetterMessage hrec hrange hmsg (by rw [hkept]; exact h.depth)
  have hsame : dl.record = rec := by rw [hrecord, hkept]
  refine ⟨dl, hdl, hsame, congrArg Record.data hsame, by rw [hsame], fun hr hz => ?_⟩
  -- a record made of text and bare data is the one the consumer decoded
  obtain rfl := Option.some.inj (hrec.symm.trans (decodeRecord_eq hr hz hvalue))
  rw [hsame]
  exact hvalue

/-- The dead letter of a delivery failure has a message exactly when its data leave the encoder two levels. -/
theorem message_isOk_iff (htime : rec.occurredAt.encodable = true) (hfailed : res.2.failedAt.utc.encodable = true) :
    (∃ msg, deadLetterMessage (failureLetter rec reason res).1 = .ok msg) ↔
      rec.data = [] ∨ valid maxDataDepth rec.data = true := by
  rw [deadLetterMessage_isOk]
  exact ⟨fun h => h.data, fun hdata => ⟨hdata, htime, fun s hs => absurd hs (by simp [failureLetter]), hfailed⟩⟩

/-- **Which events get a dead letter they can be replayed from unchanged.** -/
theorem replays_iff (hvalue : encodeRecord r = .ok value) (hrec : decodeRecord value = some rec)
    (hrange : (failureLetter rec reason res).1.InRange) (htime : rec.occurredAt.encodable = true)
    (hfailed : res.2.failedAt.utc.encodable = true) :
    (∃ msg, deadLetterMessage (failureLetter rec reason res).1 = .ok msg ∧ Replays r rec value msg.value) ↔
      Carried rec.data := by
  constructor
  · rintro ⟨msg, hmsg, hreplays⟩
    exact carried_of_replays hrec hrange hmsg hreplays
  · intro hcarried
    obtain ⟨msg, hmsg⟩ := (message_isOk_iff htime hfailed).mpr (.inr hcarried.depth.valid)
    exact ⟨msg, hmsg, replays_of_carried hvalue hrec hrange hmsg hcarried⟩

end Replaying

/-- A delivery given up on after five attempts. -/
def abandoned : Result :=
  (⟨⟨hook, 5, false, 500, ascii "gave up after 5 attempts: attempt 5: HTTP 500"⟩, none, []⟩, ⟨none, .ofUnix 200⟩)

/-- A record relay makes is encoded, decoded, and dead-lettered when its delivery is given up on, if its data leave a
level for that. -/
theorem exists_deadLetter {r : Record} (hr : r.Sound) (hdepth : valid maxDataDepth r.data = true) (reason : Bytes) :
    ∃ value msg, encodeRecord r = .ok value ∧ decodeRecord value = some r ∧
      deadLetterMessage (failureLetter r reason abandoned).1 = .ok msg := by
  obtain ⟨value, hvalue⟩ := encodeRecord_isOk (Record.validate_eq_none.mp hr.valid).json hr.year
  have hclock : abandoned.2.failedAt.utc.encodable = true := by decide
  obtain ⟨msg, hmsg⟩ := (@message_isOk_iff r reason abandoned hr.year hclock).mpr (.inr hdepth)
  exact ⟨value, msg, hvalue, decodeRecord_eq hr.encodable hr.wholeMinutes hvalue, hmsg⟩

theorem inRange_abandoned (r : Record) (reason : Bytes) : (failureLetter r reason abandoned).1.InRange := by
  refine ⟨?_, ?_, ?_, ?_, ?_, fun s hs => absurd hs (by simp [failureLetter])⟩
  · show (-2 ^ 63 : Int) ≤ 1
    decide
  · show (1 : Int) < 2 ^ 63
    decide
  · show 5 < 2 ^ 63
    decide
  · show (-2 ^ 63 : Int) ≤ 500
    decide
  · show (500 : Int) < 2 ^ 63
    decide

theorem replays_iff_invoice : ∃ value, encodeRecord invoice = .ok value ∧ decodeRecord value = some invoice ∧
    ∃ msg, deadLetterMessage (failureLetter invoice [] abandoned).1 = .ok msg ∧ Replays invoice invoice value msg.value := by
  have hdata : ∀ lim, 0 < lim → IsValue lim invoice.data := by
    intro lim hlim
    obtain ⟨lim, rfl⟩ : ∃ k, lim = k + 1 := ⟨lim - 1, by omega⟩
    exact ⟨rfl, fun c hc => by obtain rfl : 0x5b = c := Option.some.inj hc; rfl⟩
  have hsound : invoice.Sound := ⟨by decide +kernel, by decide +kernel, rfl, hdata _ (by decide), rfl, by decide⟩
  obtain ⟨value, msg, hvalue, hrec, hmsg⟩ := exists_deadLetter hsound (hdata _ (by decide)).valid []
  exact ⟨value, hvalue, hrec, (replays_iff hvalue hrec (inRange_abandoned invoice []) hsound.year (by decide)).mpr
    ⟨rfl, rfl, rfl, hdata _ (by decide)⟩⟩

/-- **Data with markup in them do not survive the dead letter.** -/
theorem not_replays_spaced : ∃ value msg, encodeRecord spaced = .ok value ∧ decodeRecord value = some spaced ∧
    deadLetterMessage (failureLetter spaced [] abandoned).1 = .ok msg ∧ ¬ Replays spaced spaced value msg.value := by
  obtain ⟨value, msg, hvalue, hrec, hmsg⟩ := exists_deadLetter sound_spaced (by decide) []
  refine ⟨value, msg, hvalue, hrec, hmsg, fun h => ?_⟩
  have hcarried := carried_of_replays hrec (inRange_abandoned spaced []) hmsg h
  exact absurd hcarried.markup (by decide)

end LocalPlatform.Relay.Delivery
