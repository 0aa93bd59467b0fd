/-
# LocalPlatform.Relay.Ingest — events accepted over HTTP.

`postEvent` reads one JSON value from a bounded body into a request, makes a record of it, checks the
record and hands it to the store.  `candidate` is all of that up to the store, so a record reaches
`AcceptEvent` exactly when `candidate` returns it; `candidate_ok` says what such a record is like.
-/
import LocalPlatform.Relay.History.Store

namespace LocalPlatform.Relay.Ingest

open Codec Codec.Json History

/-- The bound on a request before it is parsed, slightly above `maxDataBytes`. -/
def maxBodyBytes : Nat := maxDataBytes + 8 * 1024

structure PostEventRequest where
  tenantID : Bytes
  type : Bytes
  data : Bytes
  idempotencyKey : Bytes
  deriving DecidableEq, Repr

/-- An HTTP answer. -/
structure Response where
  status : Nat
  body : Bytes
  deriving DecidableEq, Repr

/-- **`writeJSON status v`** of an object: the encoder ends it with a newline. -/
def writeJSON (status : Nat) (ms : List Member) : Response := ⟨status, writeObject ms ++ [0x0a]⟩

/-- **`writeError`**. -/
def writeError (status : Nat) (text : Bytes) : Response := writeJSON status [(keyLiteral "error", quote text)]

/-! ## Reading the body -/

/-- What `Decoder` makes of a body behind `MaxBytesReader`. -/
inductive Reading where
  | value (t : Text) (rest : Bytes)
  | tooLarge
  | malformed
  deriving DecidableEq, Repr

/-- The value's last octet says that it ends: it is an object or an array. -/
def delimited : Text → Bool
  | .object _ => true
  | .null => false
  | .scalar raw => raw.head? == some 0x5b

/-- **`readValue body`** — the first value of the body and what the reader has seen behind it.  A body
over the bound is cut off there, and the reader's error comes out only where the value has not ended. -/
def readValue (body : Bytes) : Reading :=
  let seen := body.take maxBodyBytes
  match first maxNestingDepth seen with
  | some (t, rest) =>
    if maxBodyBytes < body.length ∧ rest = [] ∧ delimited t = false then .tooLarge else .value t rest
  | none =>
    if maxBodyBytes < body.length ∧ (Scan.run maxNestingDepth Scan.init seen).mode ≠ .error then .tooLarge
    else .malformed

/-- **`dec.More()`** — another value seems to follow: the next octet closes nothing. -/
def more (rest : Bytes) : Bool :=
  match skipSpace rest with
  | [] => false
  | c :: _ => c != 0x5d && c != 0x7d

/-- The fields of `postEventRequest`, by their JSON names. -/
def postEventFields : List (StructField PostEventRequest) :=
  [stringField "tenant_id" PostEventRequest.tenantID fun r s => { r with tenantID := s },
   stringField "type" PostEventRequest.type fun r s => { r with type := s },
   ⟨ascii "data", fun r raw => some { r with data := raw }⟩,
   stringField "idempotency_key" PostEventRequest.idempotencyKey fun r s => { r with idempotencyKey := s }]

/-- **The request in a body**, or the answer to one that holds none.  A member nobody knows is refused,
and so is anything behind the first value but white space. -/
def decodeRequest (decodeError body : Bytes) : Except Response PostEventRequest :=
  match readValue body with
  | .tooLarge => .error (writeError 413 (ascii "request body exceeds 270336 bytes"))
  | .malformed => .error (writeError 400 (ascii "malformed JSON: " ++ decodeError))
  | .value t rest =>
    match decodeInto true postEventFields ⟨[], [], [], []⟩ t with
    | none => .error (writeError 400 (ascii "malformed JSON: " ++ decodeError))
    | some req =>
      if more rest then
        .error (writeError 400 (ascii "malformed JSON: unexpected content after the first JSON value"))
      else .ok req

/-! ## The record -/

/-- What the process adds to a request: the text of a decoding error, sixteen random octets unless their
source failed, and the clock. -/
structure Env where
  decodeError : Bytes
  random : Option { b : Bytes // b.length = 16 }
  now : Time

/-- Sixteen octets. -/
theorem length_sevens : (List.replicate 16 (7 : UInt8)).length = 16 := rfl

/-- The record of a request.  A blank idempotency key is none. -/
def PostEventRequest.record (req : PostEventRequest) (id : Bytes) (now : Time) : Record where
  id := id
  tenantID := req.tenantID
  type := req.type
  data := req.data
  occurredAt := now.utc
  idempotencyKey := if isBlank req.idempotencyKey then [] else req.idempotencyKey

/-- **`postEvent` up to the store**: the record it hands over, or the answer it gives instead. -/
def candidate (env : Env) (body : Bytes) : Except Response Record :=
  match decodeRequest env.decodeError body with
  | .error answer => .error answer
  | .ok req =>
    match env.random with
    | none => .error (writeError 500 (ascii "could not generate an event id"))
    | some ⟨b, _⟩ =>
      match (req.record (newID b) env.now).validate with
      | some e => .error (writeError 400 e.text)
      | none => .ok (req.record (newID b) env.now)

/-- The answer to what `AcceptEvent` came to. -/
def answer : Except Failure Acceptance → Response
  | .ok a => writeJSON 202 [(keyLiteral "id", quote a.record.id)]
  | .error .idempotencyConflict =>
    writeError 409 (ascii "idempotency key was already used with different type or data")
  | .error _ => writeError 503 (ascii "could not durably accept the event, retry")

/-- **`(*Server).postEvent`** — `events` is nil on a server without a store. -/
def postEvent (env : Env) (events : Option (Record → Except Failure Acceptance)) (body : Bytes) : Response :=
  match candidate env body with
  | .error answer => answer
  | .ok rec =>
    match events with
    | none => writeError 503 (ascii "event history is unavailable, retry")
    | some accept => answer (accept rec)

/-! ## What reaches the store -/

/-- The one inversion of `decodeRequest`. -/
theorem decodeRequest_ok {decodeError body : Bytes} {req : PostEventRequest}
    (h : decodeRequest decodeError body = .ok req) :
    ∃ t rest, first maxNestingDepth (body.take maxBodyBytes) = some (t, rest) ∧ more rest = false ∧
      decodeInto true postEventFields ⟨[], [], [], []⟩ t = some req := by
  unfold decodeRequest at h
  split at h
  · exact absurd h (by simp)
  · exact absurd h (by simp)
  next t rest hread =>
  split at h
  · exact absurd h (by simp)
  next req' hdecode =>
  split at h
  · exact absurd h (by simp)
  next hmore =>
  obtain rfl := Except.ok.inj h
  refine ⟨t, rest, ?_, by simpa using hmore, hdecode⟩
  unfold readValue at hread
  simp only at hread
  split at hread
  · next t' rest' hfirst =>
    split at hread
    · exact absurd hread (by simp)
    · injection hread with ht hrest
      rw [hfirst, ht, hrest]
  · split at hread <;> exact absurd hread (by simp)

/-- **What every field keeps, a decoded request has.**  The raw values are JSON. -/
theorem decodeRequest_induction {P : PostEventRequest → Prop} (hzero : P ⟨[], [], [], []⟩)
    (hset : ∀ f ∈ postEventFields, ∀ z raw z', P z → IsValue 9999 raw → f.set z raw = some z' → P z')
    {decodeError body : Bytes} {req : PostEventRequest} (h : decodeRequest decodeError body = .ok req) :
    P req := by
  obtain ⟨t, rest, hfirst, _, hdecode⟩ := decodeRequest_ok h
  cases t with
  | object ms => exact decodeMembers_induction hset (fun m hm => isValue_of_first hfirst hm) hzero hdecode
  | null => exact Option.some.inj hdecode ▸ hzero
  | scalar raw => exact absurd hdecode (by simp [decodeInto])

/-- What a decoded request is like: its strings are well-formed UTF-8, its data JSON or missing. -/
structure PostEventRequest.Decoded (req : PostEventRequest) : Prop where
  tenantID : validUtf8 req.tenantID = true
  type : validUtf8 req.type = true
  idempotencyKey : validUtf8 req.idempotencyKey = true
  data : req.data = [] ∨ IsValue 9999 req.data

theorem decoded_of_decodeRequest {decodeError body : Bytes} {req : PostEventRequest}
    (h : decodeRequest decodeError body = .ok req) : req.Decoded := by
  refine decodeRequest_induction (P := PostEventRequest.Decoded) ⟨rfl, rfl, rfl, Or.inl rfl⟩
    (fun f hf z raw z' hz hraw hset => ?_) h
  simp only [postEventFields, List.mem_cons, List.not_mem_nil, or_false] at hf
  rcases hf with rfl | rfl | rfl | rfl
  · obtain ⟨s, hs, rfl⟩ := Option.map_eq_some_iff.mp hset
    exact { hz with tenantID := validUtf8_of_setString hs hz.tenantID }
  · obtain ⟨s, hs, rfl⟩ := Option.map_eq_some_iff.mp hset
    exact { hz with type := validUtf8_of_setString hs hz.type }
  · rw [← Option.some.inj hset]
    exact { hz with data := Or.inr hraw }
  · obtain ⟨s, hs, rfl⟩ := Option.map_eq_some_iff.mp hset
    exact { hz with idempotencyKey := validUtf8_of_setString hs hz.idempotencyKey }

/-- **The record of a request**: what it takes over, what is made for it, and that it is valid. -/
theorem candidate_ok {env : Env} {body : Bytes} {rec : Record} (h : candidate env body = .ok rec) :
    ∃ req b, decodeRequest env.decodeError body = .ok req ∧ b.length = 16 ∧
      rec = req.record (newID b) env.now ∧ rec.Valid := by
  unfold candidate at h
  split at h
  · exact absurd h (by simp)
  next req hreq =>
  split at h
  · exact absurd h (by simp)
  next b hlength _ =>
  split at h
  · exact absurd h (by simp)
  next hvalid =>
  obtain rfl := Except.ok.inj h
  exact ⟨req, b, hreq, hlength, rfl, Record.validate_eq_none.mp hvalid⟩

/-- An id is hexadecimal digits behind a fixed front. -/
theorem graphic_newID (b : Bytes) : ∀ c ∈ newID b, 0x21 ≤ c ∧ c < 0x80 := by
  have hfront : (ascii "evt_").all (fun c => 0x21 ≤ c && c < 0x80) = true := by decide
  intro c hc
  rcases List.mem_append.mp hc with hc | hc
  · show 0x21 ≤ c ∧ c < 0x80
    simpa using List.all_eq_true.mp hfront c hc
  · exact graphic_of_mem_hex hc

theorem validUtf8_newID (b : Bytes) : validUtf8 (newID b) = true :=
  validUtf8_of_ascii fun c hc => (graphic_newID b c hc).2

/-- **A record that reaches the store crosses the log unchanged.** -/
theorem encodable_of_candidate {env : Env} {body : Bytes} {rec : Record} (h : candidate env body = .ok rec) :
    rec.Encodable := by
  obtain ⟨req, b, hreq, _, rfl, hvalid⟩ := candidate_ok h
  have hdecoded := decoded_of_decodeRequest hreq
  have hdata : req.data ≠ [] := hvalid.data_ne_nil
  refine ⟨validUtf8_newID b, hdecoded.tenantID, hdecoded.type, ?_, hdecoded.data.resolve_left hdata⟩
  show validUtf8 (if isBlank req.idempotencyKey then [] else req.idempotencyKey) = true
  split
  · rfl
  · exact hdecoded.idempotencyKey

/-! ## A request that is read -/

/-- The body of a request as a caller's JSON library writes it. -/
def requestBody (req : PostEventRequest) : Bytes :=
  writeObject ([(keyLiteral "tenant_id", quote req.tenantID), (keyLiteral "type", quote req.type),
    (keyLiteral "data", req.data)] ++
    if req.idempotencyKey = [] then [] else [(keyLiteral "idempotency_key", quote req.idempotencyKey)])

/-- **A request within the bound is read as it was written**, its data byte for byte. -/
theorem decodeRequest_requestBody {decodeError : Bytes} {req : PostEventRequest} (h : req.Decoded)
    (hdata : req.data ≠ []) (hsize : (requestBody req).length ≤ maxBodyBytes) :
    decodeRequest decodeError (requestBody req) = .ok req := by
  have hvalue := h.data.resolve_left hdata
  have hnames : (postEventFields.map StructField.name).Nodup := by decide
  have hfirst : ∃ ms, first maxNestingDepth (requestBody req) = some (.object ms, []) ∧
      decodeMembers true postEventFields ⟨[], [], [], []⟩ ms = some req := by
    refine ⟨_, first_writeObject _ (by simp) fun m hm => ?_, ?_⟩
    · rcases List.mem_append.mp hm with hm | hm
      · simp only [List.mem_cons, List.not_mem_nil, or_false] at hm
        rcases hm with rfl | rfl | rfl
        · exact isMember_quote rfl _
        · exact isMember_quote rfl _
        · exact ⟨isValue_plain 9999 rfl, rfl, hvalue⟩
      · split at hm
        · simp at hm
        · rw [List.mem_singleton.mp hm]
          exact isMember_quote rfl _
    -- one member after the other, each into its own field
    · have htenant := decode_stringField true hnames "tenant_id" PostEventRequest.tenantID
        (fun z s => { z with tenantID := s }) (by simp [postEventFields]) rfl h.tenantID
      have htype := decode_stringField true hnames "type" PostEventRequest.type
        (fun z s => { z with type := s }) (by simp [postEventFields]) rfl h.type
      have hkey := decode_stringField true hnames "idempotency_key" PostEventRequest.idempotencyKey
        (fun z s => { z with idempotencyKey := s }) (by simp [postEventFields]) rfl h.idempotencyKey
      have hraw := @decodeMembers_cons PostEventRequest true postEventFields (keyLiteral "data")
        ⟨ascii "data", fun r raw => some { r with data := raw }⟩
        (fieldFor_keyLiteral hnames (by simp [postEventFields]) rfl rfl)
      simp only [List.cons_append, List.nil_append, htenant, htype, hraw, Option.bind_some]
      -- the key is written only when there is one
      by_cases hempty : req.idempotencyKey = []
      · rw [if_pos hempty]
        simp [decodeMembers, ← hempty]
      · rw [if_neg hempty, hkey]
        rfl
  obtain ⟨ms, hfirst, hdecode⟩ := hfirst
  have hread : readValue (requestBody req) = .value (.object ms) [] := by
    rw [readValue, List.take_of_length_le hsize, hfirst]
    exact if_neg (by simp [delimited])
  rw [decodeRequest, hread]
  simp only [decodeInto, hdecode]
  rfl

/-- A body that decodes to a request with nothing wrong in it is a candidate. -/
theorem candidate_of_decodeRequest {env : Env} {body : Bytes} {req : PostEventRequest} {b : Bytes}
    (hdecode : decodeRequest env.decodeError body = .ok req) (hb : b.length = 16)
    (hrandom : env.random = some ⟨b, hb⟩) (hvalid : (req.record (newID b) env.now).Valid) :
    candidate env body = .ok (req.record (newID b) env.now) := by
  rw [candidate, hdecode, hrandom]
  simp only [Record.validate_eq_none.mpr hvalid]

/-- A valid request with sixteen octets to name it reaches the store. -/
theorem candidate_requestBody {env : Env} {req : PostEventRequest} {b : Bytes} (hb : b.length = 16)
    (hrandom : env.random = some ⟨b, hb⟩) (h : req.Decoded) (hvalid : (req.record (newID b) env.now).Valid)
    (hsize : (requestBody req).length ≤ maxBodyBytes) :
    candidate env (requestBody req) = .ok (req.record (newID b) env.now) := by
  have hdata : req.data ≠ [] := hvalid.data_ne_nil
  exact candidate_of_decodeRequest (decodeRequest_requestBody h hdata hsize) hb hrandom hvalid

end LocalPlatform.Relay.Ingest
