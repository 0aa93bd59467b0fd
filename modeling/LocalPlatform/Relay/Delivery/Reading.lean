/-
# LocalPlatform.Relay.Delivery.Reading — a dead letter, read back.

`json.Unmarshal` of what `json.Marshal` wrote for a dead letter.  Every field comes back as it was except
where the encoder changes what it is given: a string that is not UTF-8, and the raw data of a record,
which is compacted.  The record and the source stand one level deeper than they would alone, so data
nested to the decoder's last level is not read back at all.
-/
import LocalPlatform.Codec.Json.Nest
import LocalPlatform.Codec.TimeText
import LocalPlatform.Relay.Delivery.DeadLetter

namespace LocalPlatform.Relay.Delivery

open Codec Codec.Json Kafka

/-! ## The fields -/

section Fields

variable {σ : Type}

def intField (name : String) (get : σ → Int) (put : σ → Int → σ) : StructField σ :=
  ⟨ascii name, fun z raw => (setInt (get z) raw).map (put z)⟩

def boolField (name : String) (get : σ → Bool) (put : σ → Bool → σ) : StructField σ :=
  ⟨ascii name, fun z raw => (setBool (get z) raw).map (put z)⟩

def bytesField (name : String) (put : σ → Option Bytes → σ) : StructField σ :=
  ⟨ascii name, fun z raw => (setBytes raw).map (put z)⟩

def timeField (name : String) (get : σ → Time) (put : σ → Time → σ) : StructField σ :=
  ⟨ascii name, fun z raw => ((get z).unmarshal raw).map (put z)⟩

end Fields

/-- The zero `DeadLetterSource`. -/
def DeadLetterSource.zero : DeadLetterSource := ⟨[], 0, 0, Time.zero, none, [], 0, false, none, 0, false⟩

/-- The zero `DeadLetter`. -/
def DeadLetter.zero : DeadLetter := ⟨Record.zero, none, 0, [], 0, 0, [], Time.zero⟩

/-- The fields of `DeadLetterSource`, by their JSON names. -/
def sourceFields : List (StructField DeadLetterSource) :=
  [stringField "topic" (·.topic) fun z s => { z with topic := s },
   intField "partition" (·.partition) fun z n => { z with partition := n.toNat },
   intField "offset" (·.offset) fun z n => { z with offset := n.toNat },
   timeField "timestamp" (·.timestamp) fun z t => { z with timestamp := t },
   bytesField "key" fun z bs => { z with key := bs },
   stringField "key_sha256" (·.keySHA256) fun z s => { z with keySHA256 := s },
   intField "original_key_bytes" (·.originalKeyBytes) fun z n => { z with originalKeyBytes := n.toNat },
   boolField "key_truncated" (·.keyTruncated) fun z b => { z with keyTruncated := b },
   bytesField "raw_value" fun z bs => { z with rawValue := bs },
   intField "original_value_bytes" (·.originalValueBytes) fun z n => { z with originalValueBytes := n.toNat },
   boolField "raw_value_truncated" (·.rawValueTruncated) fun z b => { z with rawValueTruncated := b }]

/-- A record inside a dead letter. -/
def setRecord (old : Record) (raw : Bytes) : Option Record := (whole 9999 raw).bind (decodeInto false recordFields old)

/-- A source inside a dead letter: `null` takes the pointer away, anything else fills what it points to. -/
def setSource (old : Option DeadLetterSource) (raw : Bytes) : Option (Option DeadLetterSource) :=
  match whole 9999 raw with
  | none => none
  | some .null => some none
  | some text => (decodeInto false sourceFields (old.getD .zero) text).map some

/-- The fields of `DeadLetter`, by their JSON names. -/
def deadLetterFields : List (StructField DeadLetter) :=
  [⟨ascii "record", fun z raw => (setRecord z.record raw).map fun r => { z with record := r }⟩,
   ⟨ascii "source", fun z raw => (setSource z.source raw).map fun s => { z with source := s }⟩,
   intField "subscription_id" (·.subscriptionID) fun z n => { z with subscriptionID := n },
   stringField "url" (·.url) fun z s => { z with url := s },
   intField "attempts" (·.attempts) fun z n => { z with attempts := n.toNat },
   intField "last_status" (·.lastStatus) fun z n => { z with lastStatus := n },
   stringField "reason" (·.reason) fun z s => { z with reason := s },
   timeField "failed_at" (·.failedAt) fun z t => { z with failedAt := t }]

/-- **`decodeDeadLetter value`** — `json.Unmarshal(value, &dl)`. -/
def decodeDeadLetter (value : Bytes) : Option DeadLetter :=
  (whole maxNestingDepth value).bind (decodeInto false deadLetterFields DeadLetter.zero)

theorem nodup_sourceFields : (sourceFields.map StructField.name).Nodup := by decide

theorem nodup_deadLetterFields : (deadLetterFields.map StructField.name).Nodup := by decide

/-! ## What was written is read back -/

theorem isValue_null (lim : Nat) : IsValue lim literalNull :=
  ⟨rfl, fun c hc => by obtain rfl : 0x6e = c := Option.some.inj hc; rfl⟩

theorem isValue_marshalBool (lim : Nat) (b : Bool) : IsValue lim (marshalBool b) := by
  cases b with
  | true => exact ⟨rfl, fun c hc => by obtain rfl : 0x74 = c := Option.some.inj hc; rfl⟩
  | false => exact ⟨rfl, fun c hc => by obtain rfl : 0x66 = c := Option.some.inj hc; rfl⟩

/-- Base64 needs no escapes. -/
theorem safe_of_mem_encode {bs : Bytes} {c : UInt8} (h : c ∈ Base64.encode bs) : safe c = true := by
  refine @Base64.of_mem_encode (fun c => safe c = true) (fun n hn => ?_) rfl bs c h
  interval_cases n <;> rfl

theorem isValue_marshalBytes (lim : Nat) (bs : Option Bytes) : IsValue lim (marshalBytes bs) := by
  cases bs with
  | none => exact isValue_null lim
  | some bs =>
      refine isValue_plain lim (List.all_eq_true.mpr fun c hc => ?_)
      have hsafe := safe_of_mem_encode hc
      simp only [safe, Bool.and_eq_true] at hsafe
      exact hsafe.1.1

theorem setBool_marshalBool (old b : Bool) : setBool old (marshalBool b) = some b := by cases b <;> rfl

/-- **Octets are read back**, nil apart from empty. -/
theorem setBytes_marshalBytes (bs : Option Bytes) : setBytes (marshalBytes bs) = some bs := by
  cases bs with
  | none => rfl
  | some bs =>
      have hsafe : (Base64.encode bs).all safe = true := List.all_eq_true.mpr fun c hc => safe_of_mem_encode hc
      have hnull : marshalBytes (some bs) ≠ literalNull := by
        intro h
        have hhead := congrArg List.head? h
        simp [marshalBytes, literalNull] at hhead
      have hhead : (marshalBytes (some bs)).head? = some 0x22 := rfl
      rw [setBytes, if_neg hnull, if_pos hhead, marshalBytes, unquote_safe hsafe, Base64.decode_encode]
      rfl

/-- A source with its numbers in the range of a Go `int64`. -/
structure DeadLetterSource.InRange (s : DeadLetterSource) : Prop where
  partition : s.partition < 2 ^ 63
  offset : s.offset < 2 ^ 63
  originalKeyBytes : s.originalKeyBytes < 2 ^ 63
  originalValueBytes : s.originalValueBytes < 2 ^ 63

/-- What comes back of a source. -/
def DeadLetterSource.reread (s : DeadLetterSource) : DeadLetterSource :=
  { s with
    topic := unquote (quote s.topic)
    timestamp := s.timestamp.inMinutes
    keySHA256 := unquote (quote s.keySHA256) }

/-- The members `json.Marshal` writes for a source. -/
def sourceMembers (s : DeadLetterSource) : List Member :=
  [(keyLiteral "topic", quote s.topic), (keyLiteral "partition", dec s.partition),
   (keyLiteral "offset", dec s.offset), (keyLiteral "timestamp", 0x22 :: s.timestamp.rfc3339Nano ++ [0x22]),
   (keyLiteral "key", marshalBytes s.key), (keyLiteral "key_sha256", quote s.keySHA256),
   (keyLiteral "original_key_bytes", dec s.originalKeyBytes),
   (keyLiteral "key_truncated", marshalBool s.keyTruncated),
   (keyLiteral "raw_value", marshalBytes s.rawValue),
   (keyLiteral "original_value_bytes", dec s.originalValueBytes),
   (keyLiteral "raw_value_truncated", marshalBool s.rawValueTruncated)]

theorem source_marshal_ok {s : DeadLetterSource} {text : Bytes} (h : s.marshal = .ok text) :
    s.timestamp.encodable = true ∧ text = writeObject (sourceMembers s) := by
  obtain ⟨time, htime, h⟩ := bind_eq_ok.mp h
  obtain ⟨hyear, rfl⟩ := marshalTime_ok.mp htime
  exact ⟨hyear, (Except.ok.inj h).symm⟩

theorem isMember_sourceMembers {lim : Nat} (s : DeadLetterSource) : ∀ m ∈ sourceMembers s, IsMember lim m := by
  intro m hm
  simp only [sourceMembers, List.mem_cons, List.not_mem_nil, or_false] at hm
  rcases hm with rfl | rfl | rfl | rfl | rfl | rfl | rfl | rfl | rfl | rfl | rfl
  · exact isMember_quote rfl _
  · exact ⟨isValue_plain lim rfl, rfl, isValue_dec lim _⟩
  · exact ⟨isValue_plain lim rfl, rfl, isValue_dec lim _⟩
  · exact ⟨isValue_plain lim rfl, rfl, isValue_time lim _⟩
  · exact ⟨isValue_plain lim rfl, rfl, isValue_marshalBytes lim _⟩
  · exact isMember_quote rfl _
  · exact ⟨isValue_plain lim rfl, rfl, isValue_dec lim _⟩
  · exact ⟨isValue_plain lim rfl, rfl, isValue_marshalBool lim _⟩
  · exact ⟨isValue_plain lim rfl, rfl, isValue_marshalBytes lim _⟩
  · exact ⟨isValue_plain lim rfl, rfl, isValue_dec lim _⟩
  · exact ⟨isValue_plain lim rfl, rfl, isValue_marshalBool lim _⟩

/-- **A source is read back.** -/
theorem decode_sourceMembers {s : DeadLetterSource} (hs : s.InRange) (htime : s.timestamp.encodable = true) :
    decodeInto false sourceFields .zero (.object (sourceMembers s)) = some s.reread := by
  have hfield : ∀ {i : Nat} {f : StructField DeadLetterSource} {name : String}, sourceFields[i]? = some f →
      f.name = ascii name → (ascii name).all safe = true → ∀ z value ms,
      decodeMembers false sourceFields z ((keyLiteral name, value) :: ms) =
        (f.set z value).bind fun z' => decodeMembers false sourceFields z' ms :=
    fun hf hname hsafe => decode_field false nodup_sourceFields (List.mem_of_getElem? hf) hname hsafe
  have htopic := @hfield 0 _ "topic" rfl rfl rfl
  have hpartition := @hfield 1 _ "partition" rfl rfl rfl
  have hoffset := @hfield 2 _ "offset" rfl rfl rfl
  have htimestamp := @hfield 3 _ "timestamp" rfl rfl rfl
  have hkey := @hfield 4 _ "key" rfl rfl rfl
  have hhash := @hfield 5 _ "key_sha256" rfl rfl rfl
  have hkeyBytes := @hfield 6 _ "original_key_bytes" rfl rfl rfl
  have hkeyCut := @hfield 7 _ "key_truncated" rfl rfl rfl
  have hvalue := @hfield 8 _ "raw_value" rfl rfl rfl
  have hvalueBytes := @hfield 9 _ "original_value_bytes" rfl rfl rfl
  have hvalueCut := @hfield 10 _ "raw_value_truncated" rfl rfl rfl
  simp only [decodeInto, sourceMembers, htopic, hpartition, hoffset, htimestamp, hkey, hhash, hkeyBytes, hkeyCut, hvalue,
    hvalueBytes, hvalueCut]
  simp only [stringField, intField, boolField, bytesField, timeField, setString_quote_unquote,
    setInt_dec _ hs.partition, setInt_dec _ hs.offset, setInt_dec _ hs.originalKeyBytes, setInt_dec _ hs.originalValueBytes,
    Time.unmarshal_text _ htime, setBool_marshalBool, setBytes_marshalBytes, Option.map_some, Option.bind_some]
  rfl

/-- The text of a source fills an empty pointer. -/
theorem setSource_marshal {s : DeadLetterSource} {text : Bytes} (hs : s.InRange) (h : s.marshal = .ok text) :
    setSource none text = some (some s.reread) := by
  obtain ⟨htime, rfl⟩ := source_marshal_ok h
  have hwhole : whole 9999 (writeObject (sourceMembers s)) = some (.object (sourceMembers s)) :=
    whole_writeObject _ (by simp [sourceMembers]) (isMember_sourceMembers s)
  rw [setSource, hwhole]
  show (decodeInto false sourceFields .zero (.object (sourceMembers s))).map some = _
  rw [decode_sourceMembers hs htime]
  rfl

/-! ## Records -/

/-- What `json.Marshal` makes of the data of a record in a dead letter. -/
def reencoded (data : Bytes) : Bytes :=
  if data = [] then literalNull else compactFrom maxDataDepth Scan.init 0 data

theorem marshalRaw_reencoded {data text : Bytes} (h : marshalRaw 2 data = .ok text) : text = reencoded data := by
  unfold reencoded
  rcases marshalRaw_ok.mp h with ⟨hnil, rfl⟩ | ⟨hne, hcompact⟩
  · rw [if_pos hnil]
  · rw [if_neg hne]
    unfold compact at hcompact
    split at hcompact
    · exact (Option.some.inj hcompact).symm
    · exact absurd hcompact (by simp)

theorem marshalRecord_ok {r : Record} {text : Bytes} (h : marshalRecord 1 r = .ok text) :
    r.occurredAt.encodable = true ∧
      text = writeObject (recordMembers { r with data := reencoded r.data } (0x22 :: r.occurredAt.rfc3339Nano ++ [0x22])) := by
  obtain ⟨data, hraw, h⟩ := bind_eq_ok.mp h
  obtain ⟨time, htime, h⟩ := bind_eq_ok.mp h
  obtain ⟨hyear, rfl⟩ := marshalTime_ok.mp htime
  obtain rfl := marshalRaw_reencoded hraw
  refine ⟨hyear, ?_⟩
  rw [← Except.ok.inj h, recordMembers, omitEmpty, ite_not]

/-- What comes back of a record: everything but the data as it was, the data re-encoded. -/
def rereadRecord (r : Record) : Record := { r with data := reencoded r.data, occurredAt := r.occurredAt.inMinutes }

theorem isMember_rereadRecord {lim : Nat} {r : Record} (htime : r.occurredAt.encodable = true)
    (hdata : IsValue lim (reencoded r.data)) :
    ∀ m ∈ recordMembers { r with data := reencoded r.data } (0x22 :: r.occurredAt.rfc3339Nano ++ [0x22]), IsMember lim m :=
  isMember_recordMembers (Time.marshal_of_encodable htime) hdata

/-- **A record is read back from inside a dead letter**, if its data leaves the decoder a level. -/
theorem setRecord_marshal {r : Record} {text : Bytes} (hr : Textual r) (hdata : IsValue 9998 (reencoded r.data))
    (h : marshalRecord 1 r = .ok text) : setRecord Record.zero text = some (rereadRecord r) := by
  obtain ⟨htime, rfl⟩ := marshalRecord_ok h
  have hwhole := @whole_writeObject 9999 _ (by simp [recordMembers]) (isMember_rereadRecord htime hdata)
  have hread := @decode_recordMembers { r with data := reencoded r.data } ⟨hr.id, hr.tenantID, hr.type, hr.idempotencyKey⟩
    (0x22 :: r.occurredAt.rfc3339Nano ++ [0x22])
  rw [setRecord, hwhole, Option.bind_some, hread, Time.unmarshal_text _ htime]
  rfl

/-! ## The whole dead letter -/

/-- A dead letter with its numbers in the range of a Go `int64`. -/
structure DeadLetter.InRange (dl : DeadLetter) : Prop where
  subscriptionLo : -2 ^ 63 ≤ dl.subscriptionID
  subscriptionHi : dl.subscriptionID < 2 ^ 63
  attempts : dl.attempts < 2 ^ 63
  statusLo : -2 ^ 63 ≤ dl.lastStatus
  statusHi : dl.lastStatus < 2 ^ 63
  source : ∀ s, dl.source = some s → s.InRange

/-- What comes back of a dead letter. -/
def DeadLetter.reread (dl : DeadLetter) : DeadLetter :=
  { dl with
    record := rereadRecord dl.record
    source := dl.source.map DeadLetterSource.reread
    url := unquote (quote dl.url)
    reason := unquote (quote dl.reason)
    failedAt := dl.failedAt.inMinutes }

theorem DeadLetter.reread_source (dl : DeadLetter) : dl.reread.source = dl.source.map DeadLetterSource.reread := rfl

theorem DeadLetter.reread_reason (dl : DeadLetter) : dl.reread.reason = unquote (quote dl.reason) := rfl

/-- The members `json.Marshal` writes for a dead letter, given the texts of its record and its source. -/
def deadLetterMembers (dl : DeadLetter) (record : Bytes) (source : Option Bytes) : List Member :=
  [(keyLiteral "record", record)] ++ omitEmpty "source" (source = none) (source.getD []) ++
    [(keyLiteral "subscription_id", decInt dl.subscriptionID), (keyLiteral "url", quote dl.url),
     (keyLiteral "attempts", dec dl.attempts)] ++
    omitEmpty "last_status" (dl.lastStatus = 0) (decInt dl.lastStatus) ++
    [(keyLiteral "reason", quote dl.reason), (keyLiteral "failed_at", 0x22 :: dl.failedAt.rfc3339Nano ++ [0x22])]

/-- The one inversion of `json.Marshal` on a dead letter. -/
theorem marshal_ok {dl : DeadLetter} {value : Bytes} (h : dl.marshal = .ok value) :
    ∃ record source, marshalRecord 1 dl.record = .ok record ∧ marshalSource dl.source = .ok source ∧
      dl.failedAt.encodable = true ∧ value = writeObject (deadLetterMembers dl record source) := by
  obtain ⟨record, hrecord, h⟩ := bind_eq_ok.mp h
  obtain ⟨source, hsource, h⟩ := bind_eq_ok.mp h
  obtain ⟨time, htime, h⟩ := bind_eq_ok.mp h
  obtain ⟨hyear, rfl⟩ := marshalTime_ok.mp htime
  exact ⟨record, source, hrecord, hsource, hyear, (Except.ok.inj h).symm⟩

/-- The message's value is the marshalled dead letter. -/
theorem marshal_of_message {dl : DeadLetter} {msg : Outgoing} (h : deadLetterMessage dl = .ok msg) :
    dl.marshal = .ok msg.value := by
  unfold deadLetterMessage at h
  split at h
  · exact absurd h (by simp)
  · next value hmarshal =>
    rw [← Except.ok.inj h]
    exact hmarshal

theorem marshalSource_ok {source : Option DeadLetterSource} {text : Option Bytes} (h : marshalSource source = .ok text) :
    (source = none ∧ text = none) ∨ ∃ s t, source = some s ∧ text = some t ∧ s.marshal = .ok t := by
  cases source with
  | none => exact Or.inl ⟨rfl, (Except.ok.inj h).symm⟩
  | some s =>
      cases hs : s.marshal with
      | error e =>
          rw [marshalSource, hs] at h
          exact absurd h (by simp [Except.map])
      | ok t =>
          rw [marshalSource, hs] at h
          exact Or.inr ⟨s, t, rfl, (Except.ok.inj h).symm, hs⟩

/-- Whatever is written for a dead letter is an object, as long as its record is a value. -/
theorem isMember_deadLetterMembers {dl : DeadLetter} {record : Bytes} {source : Option Bytes}
    (hrecord : IsValue 9999 record) (hsource : marshalSource dl.source = .ok source) :
    ∀ m ∈ deadLetterMembers dl record source, IsMember 9999 m := by
  have hmember : ∀ {name : String} {v : Bytes}, (ascii name).all plain = true → IsValue 9999 v →
      IsMember 9999 (keyLiteral name, v) := fun hname hv => ⟨isValue_plain 9999 hname, rfl, hv⟩
  intro m hm
  simp only [deadLetterMembers, omitEmpty, List.mem_append, List.mem_cons, List.not_mem_nil, or_false] at hm
  rcases hm with (((rfl | hm) | rfl | rfl | rfl) | hm) | rfl | rfl
  · exact hmember rfl hrecord
  · rcases marshalSource_ok hsource with ⟨_, rfl⟩ | ⟨s, text, _, rfl, hs⟩
    · simp at hm
    · obtain rfl : m = (keyLiteral "source", text) := by simpa using hm
      obtain ⟨_, rfl⟩ := source_marshal_ok hs
      exact hmember rfl (isValue_writeObject (by simp [sourceMembers]) (isMember_sourceMembers s))
  · exact hmember rfl (isValue_decInt _ _)
  · exact isMember_quote rfl _
  · exact hmember rfl (isValue_dec _ _)
  · split at hm
    · simp at hm
    · rw [List.mem_singleton.mp hm]
      exact hmember rfl (isValue_decInt _ _)
  · exact isMember_quote rfl _
  · exact hmember rfl (isValue_time _ _)

theorem isValue_marshalRecord {r : Record} {text : Bytes} (hdata : IsValue 9998 (reencoded r.data))
    (h : marshalRecord 1 r = .ok text) : IsValue 9999 text := by
  obtain ⟨htime, rfl⟩ := marshalRecord_ok h
  exact isValue_writeObject (by simp [recordMembers]) (isMember_rereadRecord htime hdata)

/-- **A dead letter is read back.** -/
theorem decode_marshal {dl : DeadLetter} {value : Bytes} (hr : Textual dl.record)
    (hdata : IsValue 9998 (reencoded dl.record.data)) (hdl : dl.InRange) (h : dl.marshal = .ok value) :
    decodeDeadLetter value = some dl.reread := by
  obtain ⟨record, source, hrecord, hsource, hfailed, rfl⟩ := marshal_ok h
  have hwhole := @whole_writeObject maxNestingDepth (deadLetterMembers dl record source) (by simp [deadLetterMembers])
    (isMember_deadLetterMembers (isValue_marshalRecord hdata hrecord) hsource)
  have hfield : ∀ {i : Nat} {f : StructField DeadLetter} {name : String}, deadLetterFields[i]? = some f →
      f.name = ascii name → (ascii name).all safe = true → ∀ z value ms,
      decodeMembers false deadLetterFields z ((keyLiteral name, value) :: ms) =
        (f.set z value).bind fun z' => decodeMembers false deadLetterFields z' ms :=
    fun hf hname hsafe => decode_field false nodup_deadLetterFields (List.mem_of_getElem? hf) hname hsafe
  have hrecordField := @hfield 0 _ "record" rfl rfl rfl
  have hsourceField := @hfield 1 _ "source" rfl rfl rfl
  have hid := @hfield 2 _ "subscription_id" rfl rfl rfl
  have hurl := @hfield 3 _ "url" rfl rfl rfl
  have hattempts := @hfield 4 _ "attempts" rfl rfl rfl
  have hstatus := @hfield 5 _ "last_status" rfl rfl rfl
  have hreason := @hfield 6 _ "reason" rfl rfl rfl
  have htime := @hfield 7 _ "failed_at" rfl rfl rfl
  have hread : ∀ old : Time, old.unmarshal (0x22 :: dl.failedAt.rfc3339Nano ++ [0x22]) = some dl.failedAt.inMinutes :=
    fun old => Time.unmarshal_text old hfailed
  rw [decodeDeadLetter, hwhole, Option.bind_some, decodeInto, deadLetterMembers]
  generalize 0x22 :: dl.failedAt.rfc3339Nano ++ [0x22] = failedAt at hread ⊢
  -- behind the record and the source every field is a scalar
  have hrest : ∀ z : DeadLetter, z.lastStatus = 0 →
      decodeMembers false deadLetterFields z
        ((keyLiteral "subscription_id", decInt dl.subscriptionID) :: (keyLiteral "url", quote dl.url) ::
          (keyLiteral "attempts", dec dl.attempts) :: (omitEmpty "last_status" (dl.lastStatus = 0) (decInt dl.lastStatus) ++
            [(keyLiteral "reason", quote dl.reason), (keyLiteral "failed_at", failedAt)])) =
        some { dl.reread with record := z.record, source := z.source } := by
    intro z hz
    have hsubscription := setInt_decInt z.subscriptionID hdl.subscriptionLo hdl.subscriptionHi
    simp only [hid, hurl, hattempts, stringField, intField, setString_quote_unquote, hsubscription,
      setInt_dec _ hdl.attempts, Option.map_some, Option.bind_some]
    by_cases hnone : dl.lastStatus = 0
    · simp only [omitEmpty, hnone, if_true, List.nil_append, hreason, htime, stringField, timeField,
        setString_quote_unquote, hread, Option.map_some, Option.bind_some]
      rw [hz]
      show some _ = some (DeadLetter.mk _ _ _ _ _ dl.lastStatus _ _)
      rw [hnone]
      rfl
    · have hset := setInt_decInt z.lastStatus hdl.statusLo hdl.statusHi
      simp only [omitEmpty, hnone, if_false, List.cons_append, List.nil_append, hstatus, hreason, htime, stringField,
        intField, timeField, hset, setString_quote_unquote, hread, Option.map_some, Option.bind_some]
      rfl
  have hzero : DeadLetter.zero.record = Record.zero ∧ DeadLetter.zero.source = none := ⟨rfl, rfl⟩
  simp only [List.cons_append, List.nil_append, List.append_assoc, hrecordField, hzero,
    setRecord_marshal hr hdata hrecord, Option.map_some, Option.bind_some]
  rcases marshalSource_ok hsource with ⟨hnone, rfl⟩ | ⟨s, text, hsome, rfl, hs⟩
  · have hempty : omitEmpty "source" ((none : Option Bytes) = none) (Option.getD none []) = [] := rfl
    rw [hempty, List.nil_append, hrest _ rfl, DeadLetter.reread, hnone]
    rfl
  · have hfull : omitEmpty "source" (some text = none) ((some text).getD []) = [(keyLiteral "source", text)] := rfl
    rw [hfull, List.singleton_append, hsourceField]
    simp only [setSource_marshal (hdl.source s hsome) hs, Option.map_some, Option.bind_some]
    rw [hrest _ rfl, DeadLetter.reread, hsome]
    rfl

/-- **What was read from inside a dead letter leaves a level of nesting**, or was missing. -/
theorem data_of_setRecord {old r : Record} {raw : Bytes} (hold : old.data = [] ∨ IsValue 9998 old.data)
    (h : setRecord old raw = some r) : r.data = [] ∨ IsValue 9998 r.data := by
  obtain ⟨text, hwhole, h⟩ := Option.bind_eq_some_iff.mp h
  cases text with
  | object ms =>
      have hset : ∀ f ∈ recordFields, ∀ z raw z', (z.data = [] ∨ IsValue 9998 z.data) → IsValue 9998 raw →
          f.set z raw = some z' → (z'.data = [] ∨ IsValue 9998 z'.data) := by
        intro f hf z raw z' hz hraw hset
        rcases data_of_set hf hset with heq | heq
        · rw [heq]
          exact hz
        · rw [heq]
          exact Or.inr hraw
      exact decodeMembers_induction hset (fun m hm => isValue_of_whole hwhole hm) hold h
  | null => exact Option.some.inj h ▸ hold
  | scalar raw => exact absurd h (by simp [decodeInto])

theorem data_of_decodeDeadLetter {value : Bytes} {dl : DeadLetter} (h : decodeDeadLetter value = some dl) :
    dl.record.data = [] ∨ IsValue 9998 dl.record.data := by
  obtain ⟨text, hwhole, h⟩ := Option.bind_eq_some_iff.mp h
  cases text with
  | object ms =>
      have hset : ∀ f ∈ deadLetterFields, ∀ z raw z', (z.record.data = [] ∨ IsValue 9998 z.record.data) → True →
          f.set z raw = some z' → (z'.record.data = [] ∨ IsValue 9998 z'.record.data) := by
        intro f hf z raw z' hz _ hset
        simp only [deadLetterFields, List.mem_cons, List.not_mem_nil, or_false] at hf
        rcases hf with rfl | rfl | rfl | rfl | rfl | rfl | rfl | rfl
        all_goals obtain ⟨x, hx, rfl⟩ := Option.map_eq_some_iff.mp hset
        · exact data_of_setRecord hz hx
        all_goals exact hz
      have hzero : DeadLetter.zero.record.data = [] ∨ IsValue 9998 DeadLetter.zero.record.data := Or.inl rfl
      exact @decodeMembers_induction _ _ _ (fun dl : DeadLetter => dl.record.data = [] ∨ IsValue 9998 dl.record.data)
        (fun _ => True) hset ms _ _ (fun _ _ => trivial) hzero h
  | null => exact Option.some.inj h ▸ Or.inl rfl
  | scalar raw => exact absurd h (by simp [decodeInto])

end LocalPlatform.Relay.Delivery
