/-
# LocalPlatform.Relay.Delivery.DeadLetter — what lands on the dead-letter topic.

A delivery failure carries the decoded record and names the subscription; a record that does not decode
carries its source coordinates and bounded raw bytes.  Both are written by `json.Marshal`, which
re-encodes what it is given: a raw value is compacted and escaped again, a time must have a year of four
digits.  The encoder counts levels as the decoder does, and the data of a record stand two levels deep in a
dead letter.  `deadLetterMessage_isOk` says when there is a value.
-/
import LocalPlatform.Codec.Cut
import LocalPlatform.Relay.Error
import LocalPlatform.Relay.Event
import LocalPlatform.Relay.Kafka

namespace LocalPlatform.Relay.Delivery

open Codec Codec.Json Kafka

/-- The kafka-go writer limit for one dead-letter message. -/
def maxDLQBatchBytes : Nat := 2 ^ 20

def maxUndecodableKeyBytes : Nat := 256 * 1024
def maxUndecodableValueBytes : Nat := 256 * 1024
def maxDecodeReasonBytes : Nat := 4 * 1024
def decodeReasonSuffix : Bytes := ascii " (reason truncated)"

/-- The Kafka record that could not be decoded. -/
structure DeadLetterSource where
  topic : Bytes
  partition : Nat
  offset : Nat
  timestamp : Time
  key : Option Bytes
  keySHA256 : Bytes
  originalKeyBytes : Nat
  keyTruncated : Bool
  rawValue : Option Bytes
  originalValueBytes : Nat
  rawValueTruncated : Bool
  deriving DecidableEq, Repr

/-- A dead letter. -/
structure DeadLetter where
  record : Record
  source : Option DeadLetterSource
  subscriptionID : Int
  url : Bytes
  attempts : Nat
  lastStatus : Int
  reason : Bytes
  failedAt : Time
  deriving DecidableEq, Repr

/-! ## Building one -/

/-- **`boundedCopy value limit`** — at most `limit` octets, and whether any were cut off. -/
def boundedCopy (value : Option Bytes) (limit : Nat) : Option Bytes × Bool :=
  match value with
  | none => (none, false)
  | some bs => (some (bs.take limit), decide (limit < bs.length))

/-- **`boundedDecodeReason`**, from the text of the decoder's error. -/
def boundedDecodeReason (decodeErr : Bytes) : Bytes :=
  let reason := toValidUtf8 (ascii "undecodable Kafka record: " ++ decodeErr)
  if reason.length ≤ maxDecodeReasonBytes then reason
  else toValidUtf8 (reason.take (maxDecodeReasonBytes - decodeReasonSuffix.length)) ++ decodeReasonSuffix

/-- **`undecodableDeadLetter msg err`**, given the clock. -/
def undecodableDeadLetter (sha256 : Bytes → Bytes) (msg : Message) (decodeErr : Bytes) (now : Time) :
    DeadLetter where
  record := Record.zero
  source := some
    { topic := msg.topic
      partition := msg.partition
      offset := msg.offset
      timestamp := msg.time
      key := (boundedCopy msg.key maxUndecodableKeyBytes).1
      keySHA256 := hex (sha256 (msg.key.getD []))
      originalKeyBytes := (msg.key.getD []).length
      keyTruncated := (boundedCopy msg.key maxUndecodableKeyBytes).2
      rawValue := (boundedCopy msg.value maxUndecodableValueBytes).1
      originalValueBytes := (msg.value.getD []).length
      rawValueTruncated := (boundedCopy msg.value maxUndecodableValueBytes).2 }
  subscriptionID := 0
  url := []
  attempts := 0
  lastStatus := 0
  reason := boundedDecodeReason decodeErr
  failedAt := now.utc

/-- **`deadLetterKey dl`** — the tenant, or the source coordinates of a record that has none. -/
def deadLetterKey (dl : DeadLetter) : Bytes :=
  match dl.source with
  | some source => ascii "poison:" ++ source.topic ++ ascii ":" ++ dec source.partition ++ ascii ":" ++
      dec source.offset
  | none => dl.record.tenantID

/-! ## `json.Marshal` -/

/-- A `time.Time`. -/
def marshalTime (t : Time) : Except Bytes Bytes :=
  match t.marshal with
  | .error e => .error (marshalerError "*time.Time" e)
  | .ok text => .ok text

/-- A `json.RawMessage` inside `depth` objects: nil is `null`, everything else is JSON and compacted, if the levels it adds
are left. -/
def marshalRaw (depth : Nat) (raw : Bytes) : Except Bytes Bytes :=
  if raw = [] then .ok literalNull
  else match compact (maxNestingDepth - depth) raw with
    | none => .error (marshalerError "*jsontext.Value" (ascii "exceeded max depth"))
    | some text => .ok text

/-- A `[]byte`. -/
def marshalBytes : Option Bytes → Bytes
  | none => literalNull
  | some bs => 0x22 :: Base64.encode bs ++ [0x22]

def marshalBool (b : Bool) : Bytes := if b then ascii "true" else ascii "false"

/-- A member that an empty value leaves out. -/
def omitEmpty (name : String) (empty : Prop) [Decidable empty] (value : Bytes) : List Member :=
  if empty then [] else [(keyLiteral name, value)]

/-- A record inside `depth` objects. -/
def marshalRecord (depth : Nat) (r : Record) : Except Bytes Bytes := do
  let data ← marshalRaw (depth + 1) r.data
  let occurredAt ← marshalTime r.occurredAt
  return writeObject ([(keyLiteral "id", quote r.id), (keyLiteral "tenant_id", quote r.tenantID),
    (keyLiteral "type", quote r.type), (keyLiteral "data", data), (keyLiteral "occurred_at", occurredAt)] ++
    omitEmpty "idempotency_key" (r.idempotencyKey = []) (quote r.idempotencyKey))

def DeadLetterSource.marshal (s : DeadLetterSource) : Except Bytes Bytes := do
  let timestamp ← marshalTime s.timestamp
  return writeObject [(keyLiteral "topic", quote s.topic), (keyLiteral "partition", dec s.partition),
    (keyLiteral "offset", dec s.offset), (keyLiteral "timestamp", timestamp),
    (keyLiteral "key", marshalBytes s.key), (keyLiteral "key_sha256", quote s.keySHA256),
    (keyLiteral "original_key_bytes", dec s.originalKeyBytes),
    (keyLiteral "key_truncated", marshalBool s.keyTruncated),
    (keyLiteral "raw_value", marshalBytes s.rawValue),
    (keyLiteral "original_value_bytes", dec s.originalValueBytes),
    (keyLiteral "raw_value_truncated", marshalBool s.rawValueTruncated)]

/-- The source, of a dead letter that has one. -/
def marshalSource : Option DeadLetterSource → Except Bytes (Option Bytes)
  | none => .ok none
  | some s => s.marshal.map some

/-- **`json.Marshal(dl)`**. -/
def DeadLetter.marshal (dl : DeadLetter) : Except Bytes Bytes := do
  let record ← marshalRecord 1 dl.record
  let source ← marshalSource dl.source
  let failedAt ← marshalTime dl.failedAt
  return writeObject ([(keyLiteral "record", record)] ++
    omitEmpty "source" (source = none) (source.getD []) ++
    [(keyLiteral "subscription_id", decInt dl.subscriptionID), (keyLiteral "url", quote dl.url),
     (keyLiteral "attempts", dec dl.attempts)] ++
    omitEmpty "last_status" (dl.lastStatus = 0) (decInt dl.lastStatus) ++
    [(keyLiteral "reason", quote dl.reason), (keyLiteral "failed_at", failedAt)])

/-- **`(*Consumer).deadLetter`** up to the write: the message it hands to the writer. -/
def deadLetterMessage (dl : DeadLetter) : Except Err Outgoing :=
  match dl.marshal with
  | .error e => .error (.new (ascii "encode dead letter: " ++ e))
  | .ok value => .ok ⟨deadLetterKey dl, value⟩

/-! ## When there is a value -/

theorem bind_eq_ok {ε α β : Type} {x : Except ε α} {f : α → Except ε β} {b : β} :
    (x >>= f) = .ok b ↔ ∃ a, x = .ok a ∧ f a = .ok b := by
  cases x with
  | error e => exact iff_of_false (by simp [bind, Except.bind]) (by simp)
  | ok a => simp [bind, Except.bind]

theorem marshalTime_ok {t : Time} {text : Bytes} :
    marshalTime t = .ok text ↔ t.encodable = true ∧ text = 0x22 :: t.rfc3339Nano ++ [0x22] := by
  unfold marshalTime
  by_cases h : t.encodable = true
  · rw [Time.marshal_of_encodable h]
    simp [h, eq_comm]
  · obtain ⟨e, he⟩ := Time.marshal_of_not_encodable h
    rw [he]
    simp [h]

theorem marshalRaw_ok {depth : Nat} {raw text : Bytes} : marshalRaw depth raw = .ok text ↔
    (raw = [] ∧ text = literalNull) ∨ (raw ≠ [] ∧ compact (maxNestingDepth - depth) raw = some text) := by
  unfold marshalRaw
  by_cases h : raw = []
  · simp [h, eq_comm]
  · rw [if_neg h]
    cases compact (maxNestingDepth - depth) raw with
    | none => simp [h]
    | some out => simp [h]

/-- The levels left for the data of a record in a dead letter. -/
def maxDataDepth : Nat := maxNestingDepth - 2

/-- **What `json.Marshal` asks of a dead letter**: raw data that is JSON with two levels to spare, and times with a
year of four digits. -/
structure Writable (dl : DeadLetter) : Prop where
  data : dl.record.data = [] ∨ valid maxDataDepth dl.record.data = true
  occurredAt : dl.record.occurredAt.encodable = true
  source : ∀ s, dl.source = some s → s.timestamp.encodable = true
  failedAt : dl.failedAt.encodable = true

theorem marshalRecord_isOk {r : Record} : (∃ text, marshalRecord 1 r = .ok text) ↔
    (r.data = [] ∨ valid maxDataDepth r.data = true) ∧ r.occurredAt.encodable = true := by
  constructor
  · rintro ⟨text, h⟩
    obtain ⟨data, hdata, h⟩ := bind_eq_ok.mp h
    obtain ⟨time, htime, _⟩ := bind_eq_ok.mp h
    refine ⟨?_, (marshalTime_ok.mp htime).1⟩
    rcases marshalRaw_ok.mp hdata with ⟨hnil, _⟩ | ⟨_, hcompact⟩
    · exact Or.inl hnil
    · unfold compact at hcompact
      split at hcompact
      · next hvalid => exact Or.inr hvalid
      · exact absurd hcompact (by simp)
  · rintro ⟨hdata, htime⟩
    obtain ⟨data, hdata⟩ : ∃ data, marshalRaw 2 r.data = .ok data := by
      by_cases hnil : r.data = []
      · exact ⟨_, marshalRaw_ok.mpr (Or.inl ⟨hnil, rfl⟩)⟩
      · exact ⟨_, marshalRaw_ok.mpr (Or.inr ⟨hnil, compact_isSome (hdata.resolve_left hnil)⟩)⟩
    exact ⟨_, bind_eq_ok.mpr ⟨data, hdata, bind_eq_ok.mpr ⟨_, marshalTime_ok.mpr ⟨htime, rfl⟩, rfl⟩⟩⟩

theorem marshalSource_isOk {source : Option DeadLetterSource} :
    (∃ text, marshalSource source = .ok text) ↔ ∀ s, source = some s → s.timestamp.encodable = true := by
  cases source with
  | none => simp [marshalSource]
  | some s =>
      have hmap : (∃ text, marshalSource (some s) = .ok text) ↔ ∃ text, s.marshal = .ok text := by
        cases hm : s.marshal with
        | error e => simp [marshalSource, hm, Except.map]
        | ok text => simp [marshalSource, hm, Except.map]
      rw [hmap]
      constructor
      · rintro ⟨text, h⟩ s' hs
        obtain rfl := Option.some.inj hs
        obtain ⟨time, htime, _⟩ := bind_eq_ok.mp h
        exact (marshalTime_ok.mp htime).1
      · exact fun h => ⟨_, bind_eq_ok.mpr ⟨_, marshalTime_ok.mpr ⟨h s rfl, rfl⟩, rfl⟩⟩

/-- **A dead letter has a message exactly when it is writable.** -/
theorem deadLetterMessage_isOk {dl : DeadLetter} :
    (∃ msg, deadLetterMessage dl = .ok msg) ↔ Writable dl := by
  have hmarshal : (∃ msg, deadLetterMessage dl = .ok msg) ↔ ∃ value, dl.marshal = .ok value := by
    unfold deadLetterMessage
    cases dl.marshal with
    | error e => simp
    | ok value => simp
  rw [hmarshal]
  constructor
  · rintro ⟨value, h⟩
    obtain ⟨record, hrecord, h⟩ := bind_eq_ok.mp h
    obtain ⟨source, hsource, h⟩ := bind_eq_ok.mp h
    obtain ⟨failedAt, hfailed, _⟩ := bind_eq_ok.mp h
    obtain ⟨hdata, htime⟩ := marshalRecord_isOk.mp ⟨record, hrecord⟩
    exact ⟨hdata, htime, marshalSource_isOk.mp ⟨source, hsource⟩, (marshalTime_ok.mp hfailed).1⟩
  · rintro ⟨hdata, htime, hsource, hfailed⟩
    obtain ⟨record, hrecord⟩ := marshalRecord_isOk.mpr ⟨hdata, htime⟩
    obtain ⟨source, hsource⟩ := marshalSource_isOk.mpr hsource
    exact ⟨_, bind_eq_ok.mpr ⟨record, hrecord, bind_eq_ok.mpr ⟨source, hsource,
      bind_eq_ok.mpr ⟨_, marshalTime_ok.mpr ⟨hfailed, rfl⟩, rfl⟩⟩⟩⟩

end LocalPlatform.Relay.Delivery
