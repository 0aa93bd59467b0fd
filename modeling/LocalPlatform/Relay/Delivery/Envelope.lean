/-
# LocalPlatform.Relay.Delivery.Envelope — the dead letter of a record that does not decode.

Key and value are cut to 256 KiB and grow by a third in base64; the reason is cut to 4 KiB and grows at
most sixfold as a string literal; the rest is short.  So the message always fits the writer's limit,
whatever was on the topic, and decoding it gives back what was kept of the record
(`undecodable_bounded_faithful`).
-/
import LocalPlatform.Relay.Delivery.Poison
import LocalPlatform.Relay.Delivery.Reading
import LocalPlatform.Relay.Delivery.Size
import Mathlib.Tactic.Ring

namespace LocalPlatform.Relay.Delivery

open Codec Codec.Json Kafka

/-! ## Sizes -/

theorem quoteCost_le (r : Rune) : quoteCost r ≤ 6 * r.bytes.length := by
  cases r with
  | one c =>
      show (if _ then 2 else if _ then 6 else 1) ≤ 6 * 1
      split
      · omega
      · split <;> omega
  | two a b => exact (by decide : 2 ≤ 6 * 2)
  | three a b c =>
      show (if _ then 6 else 3) ≤ 6 * 3
      split <;> omega
  | four a b c d => exact (by decide : 4 ≤ 6 * 4)
  | bad a => exact (by decide : 3 ≤ 6 * 1)

/-- A string literal is at most six times its text, and two quotes. -/
theorem quoteSize_le (s : Bytes) : quoteSize s ≤ 2 + 6 * s.length := by
  have hsum : ∀ rs : List Rune, (rs.map quoteCost).sum ≤ 6 * (rs.flatMap Rune.bytes).length := by
    intro rs
    induction rs with
    | nil => simp
    | cons r rs ih =>
        have hr := quoteCost_le r
        rw [List.map_cons, List.sum_cons, List.flatMap_cons, List.length_append]
        omega
  have htotal := hsum (runes s)
  rw [flatMap_bytes_runes] at htotal
  rw [quoteSize]
  omega

theorem length_dec_le {n : Nat} : ∀ {k : Nat}, 0 < k → n < 10 ^ k → (dec n).length ≤ k := by
  induction n using Nat.strong_induction_on with
  | _ n ih =>
      intro k hk hn
      by_cases hlt : n < 10
      · rw [dec_digit hlt]
        exact hk
      · obtain ⟨j, rfl⟩ : ∃ j, k = j + 1 := ⟨k - 1, by omega⟩
        have hj : 0 < j := by
          rcases Nat.eq_zero_or_pos j with rfl | hj
          · omega
          · exact hj
        have hquot := ih (n / 10) (by omega) hj (by rw [pow_succ] at hn; omega)
        rw [dec_snoc (by omega), List.length_append, List.length_singleton]
        omega

theorem length_fraction_le (ns : Nat) : (Time.fraction ns).length ≤ 10 := by
  unfold Time.fraction
  split
  · exact Nat.zero_le _
  · have hdrop := (List.dropWhile_suffix (· == digit 0) (l := ((List.range 9).map fun i =>
      digit (ns / 10 ^ (8 - i) % 10)).reverse)).length_le
    simp only [List.length_cons, List.length_reverse, List.length_map, List.length_range] at hdrop ⊢
    omega

/-- A time takes at most 35 octets. -/
theorem length_rfc3339Nano_le (t : Time) : t.rfc3339Nano.length ≤ 35 := by
  have hfraction := length_fraction_le (t.nanos % 1000000000).toNat
  have hzone : t.zone.length ≤ 6 := by
    unfold Time.zone
    split
    · exact (by decide : 1 ≤ 6)
    · exact (by decide : 6 ≤ 6)
  unfold Time.rfc3339Nano
  simp only [List.length_append, List.length_cons, Time.pad4, Time.pad2, List.length_nil]
  omega

theorem length_marshalBytes_le {bs : Option Bytes} {n : Nat} (h : (bs.getD []).length ≤ n) :
    (marshalBytes bs).length ≤ (n + 2) / 3 * 4 + 4 := by
  cases bs with
  | none => exact Nat.le_add_left 4 _
  | some bs =>
      have hquot : (bs.length + 2) / 3 ≤ (n + 2) / 3 := Nat.div_le_div_right (Nat.add_le_add_right h 2)
      simp only [marshalBytes, List.cons_append, List.length_cons, List.length_append, List.length_nil,
        Base64.length_encode]
      omega

/-! ## The reason -/

/-- **The reason is text, bounded, and the front of the full one**, marked exactly when it was cut. -/
structure Excerpt (full reason : Bytes) : Prop where
  text : validUtf8 reason = true
  bounded : reason.length ≤ maxDecodeReasonBytes
  cut : (full.length ≤ maxDecodeReasonBytes ∧ reason = full) ∨
    (maxDecodeReasonBytes < full.length ∧ ∃ p, p <+: full ∧ reason = p ++ decodeReasonSuffix)

/-- The whole reason of a record that does not decode, from the text of the decoder's error. -/
def fullReason (decodeErr : Bytes) : Bytes := toValidUtf8 (ascii "undecodable Kafka record: " ++ decodeErr)

theorem excerpt_boundedDecodeReason (decodeErr : Bytes) :
    Excerpt (fullReason decodeErr) (boundedDecodeReason decodeErr) := by
  have hfull : validUtf8 (fullReason decodeErr) = true := validUtf8_toValidUtf8 _
  have htext : validUtf8 decodeReasonSuffix = true := validUtf8_of_ascii (by decide +kernel)
  have hlength : decodeReasonSuffix.length = 19 := rfl
  have hmax : maxDecodeReasonBytes = 4096 := rfl
  simp only [boundedDecodeReason]
  rw [← fullReason]
  split
  · next hle => exact ⟨hfull, hle, Or.inl ⟨hle, rfl⟩⟩
  · next hlt =>
    have hprefix := toValidUtf8_take hfull (maxDecodeReasonBytes - decodeReasonSuffix.length)
    have hpart := length_toValidUtf8_le ((fullReason decodeErr).take (maxDecodeReasonBytes - decodeReasonSuffix.length))
    have htake := List.length_take_le (maxDecodeReasonBytes - decodeReasonSuffix.length) (fullReason decodeErr)
    refine ⟨validUtf8_append (validUtf8_toValidUtf8 _) htext, ?_, Or.inr ⟨by omega, _, hprefix, rfl⟩⟩
    rw [List.length_append]
    omega

/-! ## The message -/

/-- What the types of a Kafka message and its broker promise: a topic name of at most 249 octets, numbers
and lengths in the range of a Go `int64`, and a time that can be written. -/
structure Plausible (msg : Message) : Prop where
  topic : msg.topic.length ≤ 249
  partition : msg.partition < 2 ^ 63
  offset : msg.offset < 2 ^ 63
  keyBytes : (msg.key.getD []).length < 2 ^ 63
  valueBytes : (msg.value.getD []).length < 2 ^ 63
  time : msg.time.encodable = true

theorem getD_boundedCopy (value : Option Bytes) (limit : Nat) :
    ((boundedCopy value limit).1.getD []).length ≤ limit := by
  cases value with
  | none => exact Nat.zero_le _
  | some bs => exact List.length_take_le limit bs

theorem length_marshalBool_le (b : Bool) : (marshalBool b).length ≤ 5 := by
  cases b <;> decide

/-- The size of a source, in its own parts. -/
theorem length_source {s : DeadLetterSource} {text : Bytes} (h : s.marshal = .ok text) :
    text.length = 168 + quoteSize s.topic + (dec s.partition).length + (dec s.offset).length +
      s.timestamp.rfc3339Nano.length + (marshalBytes s.key).length + quoteSize s.keySHA256 +
      (dec s.originalKeyBytes).length + (marshalBool s.keyTruncated).length + (marshalBytes s.rawValue).length +
      (dec s.originalValueBytes).length + (marshalBool s.rawValueTruncated).length := by
  obtain ⟨_, rfl⟩ := source_marshal_ok h
  have hnames : (ascii "topic").length = 5 ∧ (ascii "partition").length = 9 ∧ (ascii "offset").length = 6 ∧
      (ascii "timestamp").length = 9 ∧ (ascii "key").length = 3 ∧ (ascii "key_sha256").length = 10 ∧
      (ascii "original_key_bytes").length = 18 ∧ (ascii "key_truncated").length = 13 ∧
      (ascii "raw_value").length = 9 ∧ (ascii "original_value_bytes").length = 20 ∧
      (ascii "raw_value_truncated").length = 19 := by
    decide
  obtain ⟨h1, h2, h3, h4, h5, h6, h7, h8, h9, h10, h11⟩ := hnames
  rw [length_writeObject (by simp [sourceMembers])]
  simp only [sourceMembers, List.map_cons, List.map_nil, List.sum_cons, List.sum_nil, memberSize, length_keyLiteral,
    length_quote, List.cons_append, List.length_append, List.length_cons, List.length_nil, h1, h2, h3, h4, h5, h6, h7, h8,
    h9, h10, h11]
  ring

theorem length_zeroRecord {text : Bytes} (h : marshalRecord 1 Record.zero = .ok text) : text.length = 83 := by
  obtain ⟨_, rfl⟩ := marshalRecord_ok h
  decide +kernel

theorem length_dec_int64 {n : Nat} (h : n < 2 ^ 63) : (dec n).length ≤ 19 :=
  length_dec_le (by decide) (h.trans (by decide))

section Undecodable

variable {sha256 : Bytes → Bytes} {msg : Message} {decodeErr : Bytes} {now : Time}

theorem length_undecodableKey_le (hmsg : Plausible msg) :
    (deadLetterKey (undecodableDeadLetter sha256 msg decodeErr now)).length ≤ 296 := by
  have htopic := hmsg.topic
  have hpartition := length_dec_int64 hmsg.partition
  have hoffset := length_dec_int64 hmsg.offset
  have hkey : deadLetterKey (undecodableDeadLetter sha256 msg decodeErr now) = ascii "poison:" ++ msg.topic ++ ascii ":" ++
      dec msg.partition ++ ascii ":" ++ dec msg.offset := rfl
  have hnames : (ascii "poison:").length = 7 ∧ (ascii ":").length = 1 := by decide
  rw [hkey]
  simp only [List.length_append, hnames]
  omega

theorem length_undecodableSource_le (hsha : ∀ bs, (sha256 bs).length = 32) (hmsg : Plausible msg) {text : Bytes}
    {s : DeadLetterSource} (hs : (undecodableDeadLetter sha256 msg decodeErr now).source = some s)
    (h : s.marshal = .ok text) : text.length ≤ 702000 := by
  obtain rfl := Option.some.inj hs
  have hsize := length_source h
  have htopic := quoteSize_le msg.topic
  have htopicSize := hmsg.topic
  have hpartition := length_dec_int64 hmsg.partition
  have hoffset := length_dec_int64 hmsg.offset
  have htimestamp := length_rfc3339Nano_le msg.time
  have hkey := length_marshalBytes_le (getD_boundedCopy msg.key maxUndecodableKeyBytes)
  have hkeyMax : (maxUndecodableKeyBytes + 2) / 3 * 4 + 4 = 349532 := rfl
  have hhash := quoteSize_le (hex (sha256 (msg.key.getD [])))
  rw [length_hex, hsha] at hhash
  have hkeyBytes := length_dec_int64 hmsg.keyBytes
  have hkeyCut := length_marshalBool_le (boundedCopy msg.key maxUndecodableKeyBytes).2
  have hvalue := length_marshalBytes_le (getD_boundedCopy msg.value maxUndecodableValueBytes)
  have hvalueMax : (maxUndecodableValueBytes + 2) / 3 * 4 + 4 = 349532 := rfl
  have hvalueBytes := length_dec_int64 hmsg.valueBytes
  have hvalueCut := length_marshalBool_le (boundedCopy msg.value maxUndecodableValueBytes).2
  rw [hkeyMax] at hkey
  rw [hvalueMax] at hvalue
  simp only at hsize
  omega

/-- **The message fits the writer's limit.** -/
theorem size_undecodable_le (hsha : ∀ bs, (sha256 bs).length = 32) (hmsg : Plausible msg) {out : Outgoing}
    (h : deadLetterMessage (undecodableDeadLetter sha256 msg decodeErr now) = .ok out) : out.size ≤ maxDLQBatchBytes := by
  have hkey := @length_undecodableKey_le sha256 msg decodeErr now hmsg
  unfold deadLetterMessage at h
  split at h
  · exact absurd h (by simp)
  next value hmarshal =>
  obtain rfl := Except.ok.inj h
  obtain ⟨record, source, hrecord, hsource, _, rfl⟩ := marshal_ok hmarshal
  rcases marshalSource_ok hsource with ⟨hnone, _⟩ | ⟨s, text, hsome, rfl, hs⟩
  · exact absurd hnone (by simp [undecodableDeadLetter])
  have hrecordSize := length_zeroRecord hrecord
  have hsourceSize := length_undecodableSource_le hsha hmsg hsome hs
  have hreason := quoteSize_le (boundedDecodeReason decodeErr)
  have hreasonSize := (excerpt_boundedDecodeReason decodeErr).bounded
  have hreasonMax : maxDecodeReasonBytes = 4096 := rfl
  have hfailedAt := length_rfc3339Nano_le now.utc
  -- an undecodable record parks the source, and the rest of the letter is fixed or bounded
  have hmembers : deadLetterMembers (undecodableDeadLetter sha256 msg decodeErr now) record (some text) =
      [(keyLiteral "record", record), (keyLiteral "source", text), (keyLiteral "subscription_id", [0x30]),
       (keyLiteral "url", quote []), (keyLiteral "attempts", [0x30]), (keyLiteral "reason", quote (boundedDecodeReason decodeErr)),
       (keyLiteral "failed_at", 0x22 :: now.utc.rfc3339Nano ++ [0x22])] := by
    have hzero : decInt 0 = [0x30] ∧ dec 0 = [0x30] := ⟨rfl, rfl⟩
    simp only [deadLetterMembers, undecodableDeadLetter, omitEmpty, hzero, reduceCtorEq, if_true, if_false,
      Option.getD_some, List.cons_append, List.nil_append]
  have hnames : (ascii "record").length = 6 ∧ (ascii "source").length = 6 ∧ (ascii "subscription_id").length = 15 ∧
      (ascii "url").length = 3 ∧ (ascii "attempts").length = 8 ∧ (ascii "reason").length = 6 ∧
      (ascii "failed_at").length = 9 ∧ quoteSize [] = 2 := by
    decide
  obtain ⟨h1, h2, h3, h4, h5, h6, h7, h8⟩ := hnames
  -- the size is a sum, each part of it bounded above
  have hvalue : (writeObject (deadLetterMembers (undecodableDeadLetter sha256 msg decodeErr now) record (some text))).length ≤
      727000 := by
    rw [hmembers, length_writeObject (by simp)]
    simp only [List.map_cons, List.map_nil, List.sum_cons, List.sum_nil, memberSize, length_keyLiteral, length_quote,
      List.cons_append, List.length_append, List.length_cons, List.length_nil, h1, h2, h3, h4, h5, h6, h7, h8]
    omega
  have hsize : ∀ k v : Bytes, (Outgoing.mk k v).size = k.length + v.length + 23 := fun _ _ => rfl
  have hlimit : maxDLQBatchBytes = 1048576 := rfl
  rw [hsize, hlimit]
  omega

theorem inRange_undecodable (hmsg : Plausible msg) : (undecodableDeadLetter sha256 msg decodeErr now).InRange := by
  refine ⟨?_, ?_, ?_, ?_, ?_, fun s hs => ?_⟩
  · show (-2 ^ 63 : Int) ≤ 0
    decide
  · show (0 : Int) < 2 ^ 63
    decide
  · show 0 < 2 ^ 63
    decide
  · show (-2 ^ 63 : Int) ≤ 0
    decide
  · show (0 : Int) < 2 ^ 63
    decide
  · obtain rfl := Option.some.inj hs
    exact ⟨hmsg.partition, hmsg.offset, hmsg.keyBytes, hmsg.valueBytes⟩

/-- What a bounded field says of the octets it was made from. -/
structure Kept (original kept : Option Bytes) (length : Nat) (truncated : Bool) (limit : Nat) : Prop where
  front : kept = original.map fun bs => bs.take (min bs.length limit)
  length : length = (original.getD []).length
  truncated : truncated = true ↔ limit < (original.getD []).length

theorem kept_boundedCopy (value : Option Bytes) (limit : Nat) :
    Kept value (boundedCopy value limit).1 (value.getD []).length (boundedCopy value limit).2 limit := by
  cases value with
  | none => exact ⟨rfl, rfl, by simp [boundedCopy]⟩
  | some bs =>
      refine ⟨?_, rfl, by simp [boundedCopy]⟩
      show some (bs.take limit) = some (bs.take (min bs.length limit))
      rw [List.take_eq_take_min, Nat.min_comm]

/-- What is kept of a record that does not decode. -/
structure KeptSource (sha256 : Bytes → Bytes) (msg : Message) (s : DeadLetterSource) : Prop where
  key : Kept msg.key s.key s.originalKeyBytes s.keyTruncated maxUndecodableKeyBytes
  rawValue : Kept msg.value s.rawValue s.originalValueBytes s.rawValueTruncated maxUndecodableValueBytes
  keySHA256 : s.keySHA256 = hex (sha256 (msg.key.getD []))

theorem keptSource_undecodable :
    ∃ s, (undecodableDeadLetter sha256 msg decodeErr now).source = some s ∧ KeptSource sha256 msg s :=
  ⟨_, rfl, kept_boundedCopy _ _, kept_boundedCopy _ _, rfl⟩

/-- Reading a source back keeps all of it. -/
theorem KeptSource.reread {s : DeadLetterSource} (h : KeptSource sha256 msg s) : KeptSource sha256 msg s.reread := by
  have hhash : validUtf8 s.keySHA256 = true := by
    rw [h.keySHA256]
    exact validUtf8_of_ascii fun c hc => (graphic_of_mem_hex hc).2
  exact ⟨h.key, h.rawValue, (unquote_quote hhash).trans h.keySHA256⟩

/-- **The envelope of a record that does not decode**: it can be written, it fits, and it decodes to what was
kept of the record and to an excerpt of the reason. -/
theorem undecodable_bounded_faithful (hsha : ∀ bs, (sha256 bs).length = 32) (hmsg : Plausible msg)
    (hnow : now.utc.encodable = true) :
    ∃ out, deadLetterMessage (undecodableDeadLetter sha256 msg decodeErr now) = .ok out ∧ out.size ≤ maxDLQBatchBytes ∧
      ∃ dl source, decodeDeadLetter out.value = some dl ∧ dl.source = some source ∧ KeptSource sha256 msg source ∧
        Excerpt (fullReason decodeErr) dl.reason := by
  obtain ⟨s, hs, hkept⟩ := @keptSource_undecodable sha256 msg decodeErr now
  obtain ⟨out, hout⟩ := deadLetterMessage_isOk.mpr
    (@writable_undecodable sha256 msg decodeErr now |>.mpr ⟨hmsg.time, hnow⟩)
  have hdecode := @decode_marshal (undecodableDeadLetter sha256 msg decodeErr now) _ ⟨rfl, rfl, rfl, rfl⟩
    (isValue_null 9998) (inRange_undecodable hmsg) (marshal_of_message hout)
  have hexcerpt := excerpt_boundedDecodeReason decodeErr
  refine ⟨out, hout, size_undecodable_le hsha hmsg hout, _, s.reread, hdecode, ?_, hkept.reread, ?_⟩
  · rw [DeadLetter.reread_source, hs, Option.map_some]
  · have hreason : (undecodableDeadLetter sha256 msg decodeErr now).reason = boundedDecodeReason decodeErr := by
      simp only [undecodableDeadLetter]
    rw [DeadLetter.reread_reason, hreason, unquote_quote hexcerpt.text]
    exact hexcerpt

end Undecodable

/-- A record with an empty key whose value is no JSON. -/
def unreadable : Message := ⟨ascii "deliveries", 3, 41, some [], some (ascii "not json"), .ofUnix 0⟩

theorem undecodable_bounded_faithful_unreadable :
    ∃ out, deadLetterMessage (undecodableDeadLetter plainRuntime.sha256 unreadable (ascii "invalid character") (.ofUnix 100)) =
        .ok out ∧ out.size ≤ maxDLQBatchBytes ∧
      ∃ dl source, decodeDeadLetter out.value = some dl ∧ dl.source = some source ∧
        KeptSource plainRuntime.sha256 unreadable source ∧ Excerpt (fullReason (ascii "invalid character")) dl.reason := by
  have hplausible : Plausible unreadable :=
    ⟨by decide, by decide, by decide, by decide, by decide, by decide⟩
  exact undecodable_bounded_faithful (fun _ => rfl) hplausible (by decide)

end LocalPlatform.Relay.Delivery
