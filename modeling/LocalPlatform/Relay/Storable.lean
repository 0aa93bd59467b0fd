/-
# LocalPlatform.Relay.Storable — what the edge accepts against what the store and the log can hold.

`postEvent` accepts a record by `Record.validate`; Postgres and the Kafka writer then refuse some contents
whatever the weather.  The row's texts, its indexed columns, its `jsonb` column and the size of its
message are checked in four places, and `holdable_iff` compares them with what was accepted: what is left
over is named, octet by octet, in terms of the request.
-/
import LocalPlatform.Relay.Ingest
import LocalPlatform.Relay.Kafka

namespace LocalPlatform.Relay

open Codec Codec.Json History Ingest

/-! ## What Postgres refuses -/

/-- What of Postgres is not spelled out: which number texts are within the range of `numeric`, and the
size of an index entry against the largest a page takes.  An entry of a kilobyte always fits. -/
structure Postgres where
  numeric : Bytes → Bool
  entry : List Bytes → Nat
  maxEntry : Nat
  short : ∀ texts, (texts.map List.length).sum ≤ 1000 → entry texts ≤ maxEntry

/-- A `text` value: well-formed UTF-8 without `U+0000`. -/
def isText (s : Bytes) : Bool := validUtf8 s && !s.contains 0

/-- What `jsonb` converts: the strings, keys included, by what is between their quotes, and the numbers. -/
inductive Lexeme where
  | string (body : Bytes)
  | number (text : Bytes)
  deriving DecidableEq, Repr

/-- Where a lexer is in a JSON text. -/
inductive Lexing where
  | outside
  | inString (body : Bytes)
  | escaped (body : Bytes)
  | inNumber (text : Bytes)

def beginsNumber (c : UInt8) : Bool := isDigit c || c == 0x2d

def Lexing.begin (c : UInt8) : Lexing :=
  if c = 0x22 then .inString [] else if beginsNumber c then .inNumber [c] else .outside

def numberOctet (c : UInt8) : Bool := beginsNumber c || c == 0x2b || c == 0x2e || c == 0x65 || c == 0x45

/-- The lexemes of a JSON text. -/
def lexemes : Lexing → Bytes → List Lexeme
  | .inNumber text, [] => [.number text]
  | _, [] => []
  | .outside, c :: cs => lexemes (.begin c) cs
  | .inString body, c :: cs =>
    if c = 0x22 then .string body :: lexemes .outside cs
    else if c = 0x5c then lexemes (.escaped body) cs
    else lexemes (.inString (body ++ [c])) cs
  | .escaped body, c :: cs => lexemes (.inString (body ++ [0x5c, c])) cs
  | .inNumber text, c :: cs =>
    if numberOctet c then lexemes (.inNumber (text ++ [c])) cs else .number text :: lexemes (.begin c) cs

/-- The escapes of a string: none is `\u0000`, and surrogates come in pairs. -/
def pairedUnits : List Token → Bool
  | [] => true
  | .plain _ :: t => pairedUnits t
  | .unit n :: t =>
    if n = 0 ∨ isLowSurrogate n then false
    else if isHighSurrogate n then
      match t with
      | .unit m :: t' => isLowSurrogate m && pairedUnits t'
      | _ => false
    else pairedUnits t

def Lexeme.converts (pg : Postgres) : Lexeme → Bool
  | .string body => pairedUnits (tokens (runes body))
  | .number text => pg.numeric text

/-- **`jsonb` input.** -/
def Postgres.isJsonb (pg : Postgres) (s : Bytes) : Bool :=
  isText s && (lexemes .outside s).all (Lexeme.converts pg)

/-- **Postgres holds the row**: every text column takes its text, the `jsonb` column the data, and each
index its entry. -/
structure Storable {J : Type} (pg : Postgres) (row : EventRow J) : Prop where
  id : isText row.id = true
  tenantID : isText row.tenantID = true
  eventType : isText row.eventType = true
  data : pg.isJsonb row.dataRaw = true
  dataRaw : isText row.dataRaw = true
  idempotencyKey : isText row.idempotencyKey = true
  primaryKey : pg.entry [row.id] ≤ pg.maxEntry
  tenantAccepted : pg.entry [row.tenantID] ≤ pg.maxEntry
  claimed : row.claimed = true → pg.entry [row.tenantID, row.idempotencyKey] ≤ pg.maxEntry

/-! ## What the writer refuses -/

/-- The limit of a writer that sets none. -/
def defaultBatchBytes : Nat := 2 ^ 20

/-- **The record of a row can be published**, with `headers` octets of tracing headers. -/
def Publishable (headers : Nat) (rec : Record) : Prop :=
  ∃ value, encodeRecord rec = .ok value ∧
    (⟨rec.key, value⟩ : Kafka.Outgoing).fits (defaultBatchBytes - headers) = true

/-! ## The gap -/

/-- **What a request must be like for its record to be held**, beyond what validation asks. -/
structure Holdable (pg : Postgres) (headers : Nat) (occurredAt : Time) (rec : Record) : Prop where
  /-- No string holds `U+0000`. -/
  noNul : 0 ∉ rec.tenantID ∧ 0 ∉ rec.type ∧ 0 ∉ rec.idempotencyKey
  utf8 : validUtf8 rec.data = true
  /-- No `\u0000`, no unpaired surrogate, no number out of range. -/
  json : ∀ l ∈ lexemes .outside rec.data, l.converts pg = true
  tenant : pg.entry [rec.tenantID] ≤ pg.maxEntry
  key : rec.idempotencyKey ≠ [] → pg.entry [rec.tenantID, rec.idempotencyKey] ≤ pg.maxEntry
  size : rec.tenantID.length + recordSize { rec with occurredAt := occurredAt } rec.data.length +
    Kafka.framing ≤ defaultBatchBytes - headers

theorem isText_iff {s : Bytes} : isText s = true ↔ validUtf8 s = true ∧ 0 ∉ s := by
  simp [isText]

theorem isText_newID (b : Bytes) : isText (newID b) = true := by
  refine isText_iff.mpr ⟨validUtf8_newID b, fun h0 => ?_⟩
  exact absurd (graphic_newID b 0 h0).1 (by decide)

theorem length_newID {b : Bytes} (h : b.length = 16) : (newID b).length = 36 := by
  have hfront : (ascii "evt_").length = 4 := rfl
  rw [newID, List.length_append, hfront, length_hex, h]

/-- The store trims a key that has been trimmed already. -/
theorem trimKey_record {req : PostEventRequest} {id : Bytes} {now : Time} :
    trimKey (req.record id now) = req.record id now := by
  unfold trimKey PostEventRequest.record
  by_cases h : isBlank req.idempotencyKey = true
  · simp [h]
  · simp [h]

/-- **Which accepted requests can be held**: the row that is inserted is storable and its record can be
published exactly for these. -/
theorem holdable_iff {J : Type} {pg : Postgres} {env : Env} {body : Bytes} {rec : Record} {c headers : Nat}
    {data : J} {zone : Int → Int} (h : candidate env body = .ok rec)
    (hclock : ((newRow c (trimKey rec) data).record zone).occurredAt.encodable = true) :
    (Storable pg (newRow c (trimKey rec) data) ∧
        Publishable headers ((newRow c (trimKey rec) data).record zone)) ↔
      Holdable pg headers ((newRow c (trimKey rec) data).record zone).occurredAt rec := by
  have hutf8 := encodable_of_candidate h
  obtain ⟨req, b, _, hb, rfl, hvalid⟩ := candidate_ok h
  rw [trimKey_record] at hclock ⊢
  generalize hrec : req.record (newID b) env.now = rec at *
  have hid : rec.id = newID b := by rw [← hrec]; rfl
  -- JSON text has no NUL, so that PostgreSQL takes the raw column as it is
  have hnul : (0 : UInt8) ∉ rec.data := nul_notMem_of_valid hvalid.json
  -- the size of the message is that of the record as the row gives it back
  have hencode : ∀ value, encodeRecord ((newRow c rec data).record zone) = .ok value →
      value.length = recordSize { rec with occurredAt := ((newRow c rec data).record zone).occurredAt }
        rec.data.length := fun value hvalue => length_encodeRecord hvalue
  constructor
  · rintro ⟨hstored, value, hvalue, hfits⟩
    have hjson := Bool.and_eq_true_iff.mp hstored.data
    refine ⟨⟨(isText_iff.mp hstored.tenantID).2, (isText_iff.mp hstored.eventType).2,
      (isText_iff.mp hstored.idempotencyKey).2⟩, (isText_iff.mp hstored.dataRaw).1, List.all_eq_true.mp hjson.2,
      hstored.tenantAccepted, fun hkey => hstored.claimed (by simpa [newRow] using hkey), ?_⟩
    rw [Kafka.Outgoing.fits, decide_eq_true_iff, Kafka.Outgoing.size, hencode value hvalue] at hfits
    exact hfits
  · rintro ⟨⟨htenant, htype, hkey⟩, hdata, hjson, hentry, hclaimed, hsize⟩
    have hraw : isText rec.data = true := isText_iff.mpr ⟨hdata, hnul⟩
    have hshort : pg.entry [rec.id] ≤ pg.maxEntry := pg.short _ (by
      rw [hid]
      simp [length_newID hb])
    refine ⟨⟨?_, isText_iff.mpr ⟨hutf8.tenantID, htenant⟩, isText_iff.mpr ⟨hutf8.type, htype⟩, ?_, hraw,
      isText_iff.mpr ⟨hutf8.idempotencyKey, hkey⟩, hshort, hentry, fun hc => hclaimed (by simpa [newRow] using hc)⟩, ?_⟩
    · show isText rec.id = true
      rw [hid]
      exact isText_newID b
    · exact Bool.and_eq_true_iff.mpr ⟨hraw, List.all_eq_true.mpr hjson⟩
    · obtain ⟨value, hvalue⟩ := encodeRecord_isOk (r := (newRow c rec data).record zone) hvalid.json hclock
      refine ⟨value, hvalue, ?_⟩
      rw [Kafka.Outgoing.fits, decide_eq_true_iff, Kafka.Outgoing.size, hencode value hvalue]
      exact hsize

/-! ## A request in the gap -/

/-- A database whose `numeric` takes every number and whose entries are as long as their texts. -/
def plainPostgres : Postgres where
  numeric _ := true
  entry texts := (texts.map List.length).sum
  maxEntry := 2704
  short texts h := by omega

def ingestEnv : Env := ⟨[], some ⟨List.replicate 16 7, length_sevens⟩, .ofUnix 100⟩

/-- A request with this data. -/
def requestWith (data : Bytes) : PostEventRequest := ⟨ascii "acme", ascii "note.saved", data, []⟩

/-- The record of the request. -/
def recordWith (data : Bytes) : Record := (requestWith data).record (newID (List.replicate 16 7)) ingestEnv.now

theorem holdable_iff_empty : Storable plainPostgres (newRow 0 (trimKey (recordWith (ascii "[]"))) ()) ∧
    Publishable 100 ((newRow 0 (trimKey (recordWith (ascii "[]"))) ()).record fun _ => 0) := by
  have hcandidate : candidate ingestEnv (requestBody (requestWith (ascii "[]"))) = .ok (recordWith (ascii "[]")) := by
    decide +kernel
  have hclock : ((newRow 0 (trimKey (recordWith (ascii "[]"))) ()).record fun _ => 0).occurredAt.encodable = true := by
    decide
  refine (holdable_iff hcandidate hclock).mpr ⟨by decide, by decide, by decide,
    by decide, fun _ => by decide +kernel, by decide +kernel⟩

/-- An object with an escaped NUL in a string. -/
def nulData : Bytes := ascii "\x7b\"a\":\"\\u0000\"\x7d"

/-- **An escaped NUL is accepted and can never be stored.** -/
theorem not_storable_nulData : ¬ ∀ (pg : Postgres) (env : Env) (body : Bytes) (rec : Record) (c headers : Nat)
    (zone : Int → Int), headers ≤ 1000 → candidate env body = .ok rec →
      ((newRow c (trimKey rec) ()).record zone).occurredAt.encodable = true →
      Storable pg (newRow c (trimKey rec) ()) ∧ Publishable headers ((newRow c (trimKey rec) ()).record zone) := by
  intro hall
  have hcandidate : candidate ingestEnv (requestBody (requestWith nulData)) = .ok (recordWith nulData) := by
    decide +kernel
  have hclock : ((newRow 0 (trimKey (recordWith nulData)) ()).record fun _ => 0).occurredAt.encodable = true := by
    decide
  have hstored := (hall plainPostgres ingestEnv _ _ 0 0 _ (by omega) hcandidate hclock).1.data
  have hjson : plainPostgres.isJsonb nulData = false := by decide +kernel
  exact absurd (hstored.symm.trans hjson) (by decide)

end LocalPlatform.Relay
