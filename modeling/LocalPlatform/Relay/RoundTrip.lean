/-
# LocalPlatform.Relay.RoundTrip — the log and the webhook lose nothing of a record.

Both encoders put a caller's JSON between fragments of their own.  What comes out is one object whose
members are the ones that went in, so the decoder hands back the record that was encoded, its data byte
for byte, and no two records share an encoding.
-/
import LocalPlatform.Codec.TimeText
import LocalPlatform.Relay.Event

namespace LocalPlatform.Relay

open Codec Codec.Json

/-- **A record as relay makes one**: it passes `validate`, its id and idempotency key are text, its data
is one JSON value that fits inside an object, and its time is a UTC instant of the years `0..9999`. -/
structure Record.Sound (r : Record) : Prop where
  valid : r.validate = none
  id : validUtf8 r.id = true
  idempotencyKey : validUtf8 r.idempotencyKey = true
  data : IsValue 9999 r.data
  utc : r.occurredAt.offset = 0
  year : r.occurredAt.encodable = true

theorem Record.Sound.encodable {r : Record} (h : r.Sound) : r.Encodable := by
  have hvalid := Record.validate_eq_none.mp h.valid
  exact ⟨h.id, hvalid.tenantUtf8, hvalid.typeUtf8, h.idempotencyKey, h.data⟩

theorem Record.Sound.wholeMinutes {r : Record} (h : r.Sound) : r.occurredAt.wholeMinutes := by
  show r.occurredAt.offset % 60 = 0
  rw [h.utc]
  rfl

/-- **What was encoded is decoded again**, given times that survive their text. -/
theorem decodeRecord_eq {r : Record} {value : Bytes} (hr : r.Encodable) (hz : r.occurredAt.wholeMinutes)
    (h : encodeRecord r = .ok value) : decodeRecord value = some r := by
  obtain ⟨text, htext, hdecode⟩ := decodeRecord_encodeRecord hr h
  obtain ⟨hyear, rfl⟩ := Time.encodable_of_marshal htext
  rw [hdecode, Time.unmarshal_rfc3339Nano Time.zero hyear hz, Option.map_some]

/-- The members of a webhook's body. -/
def payloadMembers (p : Payload) : List Member := [(keyLiteral "type", quote p.type), (keyLiteral "data", p.data)]

/-- A webhook's body is one object, of the type and the data. -/
theorem whole_encodePayload {p : Payload} {body : Bytes} (hdata : IsValue 9999 p.data)
    (h : encodePayload p = .ok body) : whole maxNestingDepth body = some (.object (payloadMembers p)) := by
  have hbody : body = writeObject (payloadMembers p) := by
    rw [(encodePayload_ok h).2]
    simp only [payloadMembers, writeObject, joinMembers, List.append_assoc, List.cons_append]
    rfl
  rw [hbody]
  refine whole_writeObject _ (by simp [payloadMembers]) fun m hm => ?_
  simp only [payloadMembers, List.mem_cons, List.not_mem_nil, or_false] at hm
  rcases hm with rfl | rfl
  · exact isMember_quote rfl _
  · exact ⟨isValue_plain 9999 rfl, rfl, hdata⟩

/-- What a webhook's body says of a record: its type and its data, and nothing else. -/
def Tells (body : Bytes) (r : Record) : Prop :=
  ∃ typeKey typeText dataKey, whole maxNestingDepth body = some (.object [(typeKey, typeText), (dataKey, r.data)]) ∧
    unquote typeKey = ascii "type" ∧ unquote dataKey = ascii "data" ∧ unquote typeText = r.type

/-- **Encoding loses nothing.** -/
theorem encode_faithful {r : Record} (hr : r.Sound) :
    (∃ value, encodeRecord r = .ok value ∧ ∃ r', decodeRecord value = some r' ∧ r' = r ∧ r'.data = r.data ∧
      r'.key = r.key) ∧
    (∃ body, encodePayload r.payload = .ok body ∧ Tells body r) ∧
    ∀ r' : Record, r'.Sound → encodeRecord r' = encodeRecord r → r' = r := by
  have hvalid := Record.validate_eq_none.mp hr.valid
  obtain ⟨value, hvalue⟩ := encodeRecord_isOk hvalid.json hr.year
  have hdecode := decodeRecord_eq hr.encodable hr.wholeMinutes hvalue
  refine ⟨⟨value, hvalue, r, hdecode, rfl, rfl, rfl⟩, ?_, fun r' hr' heq => ?_⟩
  · have hjson : ¬ valid maxNestingDepth r.payload.data = false := by simp [Record.payload, hvalid.json]
    have hbody : ∃ body, encodePayload r.payload = .ok body := by
      rw [encodePayload, if_neg hjson]
      exact ⟨_, rfl⟩
    obtain ⟨body, hbody⟩ := hbody
    have hsafe : (ascii "type").all safe = true ∧ (ascii "data").all safe = true := by decide
    exact ⟨body, hbody, _, _, _, whole_encodePayload hr.data hbody, unquote_safe hsafe.1, unquote_safe hsafe.2,
      unquote_quote hvalid.typeUtf8⟩
  · have hdecode' := decodeRecord_eq hr'.encodable hr'.wholeMinutes (heq.trans hvalue)
    exact Option.some.inj (hdecode'.symm.trans hdecode)

/-- A record whose data has white space, a markup character and a key given twice. -/
def spaced : Record :=
  ⟨ascii "evt_1", ascii "acme", ascii "note", ascii "\x7b \"a\" : \"<\",\"a\":1 \x7d", .ofUnix 100, ascii "k"⟩

theorem sound_spaced : spaced.Sound := by
  have hvalid : spaced.validate = none := by decide +kernel
  have htaken : takeValue 9999 Scan.init spaced.data = some (spaced.data, []) := by decide +kernel
  exact ⟨hvalid, rfl, rfl, ⟨htaken, fun c hc => by obtain rfl := Option.some.inj hc; rfl⟩, rfl, by decide⟩

theorem encode_faithful_spaced :
    (∃ value, encodeRecord spaced = .ok value ∧ ∃ r', decodeRecord value = some r' ∧ r' = spaced ∧
      r'.data = spaced.data ∧ r'.key = spaced.key) ∧
    (∃ body, encodePayload spaced.payload = .ok body ∧ Tells body spaced) ∧
    ∀ r' : Record, r'.Sound → encodeRecord r' = encodeRecord spaced → r' = spaced :=
  encode_faithful sound_spaced

end LocalPlatform.Relay
