/-
# LocalPlatform.Relay.Delivery.Size — dead letters the writer takes.

`validate` bounds the raw data of a record and the dead letter re-encodes it, so what decides whether
the dead letter fits its topic is how much its contents grow.  `deadLetter_fits_iff` says it exactly, in
octets of the record, the URL and the reason.
-/
import LocalPlatform.Relay.Delivery.Consumer
import LocalPlatform.Relay.Delivery.Recordable
import LocalPlatform.Relay.Ingest

namespace LocalPlatform.Relay.Delivery

open Codec Codec.Json Kafka

theorem length_marshalRecord {r : Record} {text : Bytes} (h : marshalRecord 1 r = .ok text) (hdata : r.data ≠ []) :
    text.length = recordSize r (compactSize maxDataDepth r.data) := by
  obtain ⟨data, hraw, h⟩ := bind_eq_ok.mp h
  obtain ⟨time, htime, h⟩ := bind_eq_ok.mp h
  obtain ⟨_, rfl⟩ := marshalTime_ok.mp htime
  have hcompact : data.length = compactSize maxDataDepth r.data := by
    rcases marshalRaw_ok.mp hraw with ⟨hnil, _⟩ | ⟨_, hcompact⟩
    · exact absurd hnil hdata
    · exact length_compact hcompact
  have hmembers : text = writeObject (recordMembers { r with data := data } (0x22 :: r.occurredAt.rfc3339Nano ++ [0x22])) := by
    rw [← Except.ok.inj h, recordMembers, omitEmpty, ite_not]
  rw [hmembers, length_writeRecord { r with data := data }, ← hcompact]
  rfl

/-- The octets of a delivery failure's message as the writer counts them, all but the record's data. -/
def envelopeSize (dl : DeadLetter) : Nat :=
  dl.record.tenantID.length + 97 + recordSize dl.record 0 + (decInt dl.subscriptionID).length + quoteSize dl.url +
    (dec dl.attempts).length + (if dl.lastStatus = 0 then 0 else 15 + (decInt dl.lastStatus).length) +
    quoteSize dl.reason + dl.failedAt.rfc3339Nano.length

/-- **The size of a delivery failure's message.** -/
theorem size_deadLetterMessage {dl : DeadLetter} {msg : Outgoing} (hsource : dl.source = none)
    (hdata : dl.record.data ≠ []) (h : deadLetterMessage dl = .ok msg) :
    msg.size = envelopeSize dl + compactSize maxDataDepth dl.record.data := by
  unfold deadLetterMessage at h
  split at h
  · exact absurd h (by simp)
  next value hmarshal =>
  obtain rfl := Except.ok.inj h
  obtain ⟨record, hrecord, hmarshal⟩ := bind_eq_ok.mp hmarshal
  obtain ⟨source, hnone, hmarshal⟩ := bind_eq_ok.mp hmarshal
  obtain ⟨failedAt, hfailed, hmarshal⟩ := bind_eq_ok.mp hmarshal
  obtain ⟨_, rfl⟩ := marshalTime_ok.mp hfailed
  obtain rfl : source = none := by
    rw [hsource] at hnone
    exact (Except.ok.inj hnone).symm
  have hsize := length_marshalRecord hrecord hdata
  have hkey : deadLetterKey dl = dl.record.tenantID := by rw [deadLetterKey, hsource]
  have hnames : (ascii "record").length = 6 ∧ (ascii "subscription_id").length = 15 ∧ (ascii "url").length = 3 ∧
      (ascii "attempts").length = 8 ∧ (ascii "last_status").length = 11 ∧ (ascii "reason").length = 6 ∧
      (ascii "failed_at").length = 9 := by
    decide
  obtain ⟨h1, h2, h3, h4, h5, h6, h7⟩ := hnames
  rw [Outgoing.size, hkey, ← Except.ok.inj hmarshal, length_writeObject (by simp), framing]
  -- a status of 0 is left out of the letter
  by_cases hstatus : dl.lastStatus = 0
  · simp only [omitEmpty, hstatus, if_true, List.append_nil, List.cons_append, List.nil_append, List.map_cons,
      List.map_nil, List.sum_cons, List.sum_nil, memberSize, length_keyLiteral, length_quote, List.length_append,
      List.length_cons, List.length_nil, hsize, envelopeSize, recordSize, h1, h2, h3, h4, h6, h7]
    omega
  · simp only [omitEmpty, hstatus, if_true, if_false, List.cons_append, List.nil_append, List.map_cons,
      List.map_nil, List.sum_cons, List.sum_nil, memberSize, length_keyLiteral, length_quote, List.length_append,
      List.length_cons, List.length_nil, hsize, envelopeSize, recordSize, h1, h2, h3, h4, h5, h6, h7]
    omega

/-- **Which delivery failures fit the dead-letter topic**: those whose data is nested at most 9998 deep and, each
of `<`, `>` and `&` counted six times, each of `U+2028` and `U+2029` twice and the white space between tokens not
at all, leaves room for the rest. -/
theorem deadLetter_fits_iff {dl : DeadLetter} (hsource : dl.source = none) (hrec : dl.record.Valid)
    (htime : dl.record.occurredAt.encodable = true) (hfailed : dl.failedAt.encodable = true) :
    (∃ msg, deadLetterMessage dl = .ok msg ∧ msg.fits maxDLQBatchBytes = true) ↔
      valid maxDataDepth dl.record.data = true ∧
      envelopeSize dl + dl.record.data.length + 5 * dl.record.data.countP isHtml + 3 * separators dl.record.data ≤
        maxDLQBatchBytes + insignificants maxDataDepth Scan.init dl.record.data := by
  -- the white space that is dropped is part of the data, so the subtraction is exact
  have hle := insignificants_le maxDataDepth Scan.init dl.record.data
  have hfits : ∀ {msg}, deadLetterMessage dl = .ok msg → (msg.fits maxDLQBatchBytes = true ↔
      envelopeSize dl + compactSize maxDataDepth dl.record.data ≤ maxDLQBatchBytes) := by
    intro msg hmsg
    rw [Outgoing.fits, decide_eq_true_iff, size_deadLetterMessage hsource hrec.data_ne_nil hmsg]
  simp only [compactSize] at hfits
  constructor
  · rintro ⟨msg, hmsg, hfit⟩
    have hdepth := (deadLetterMessage_isOk.mp ⟨msg, hmsg⟩).data.resolve_left hrec.data_ne_nil
    have hroom := (hfits hmsg).mp hfit
    exact ⟨hdepth, by omega⟩
  · rintro ⟨hdepth, hroom⟩
    obtain ⟨msg, hmsg⟩ := deadLetterMessage_isOk.mpr
      ⟨Or.inr hdepth, htime, fun s hs => absurd (hsource.symm.trans hs) (by simp), hfailed⟩
    exact ⟨msg, hmsg, (hfits hmsg).mpr (by omega)⟩

/-- The dead letter of an event given up on after five attempts. -/
def exhausted (rec : Record) : DeadLetter :=
  ⟨rec, none, hook.id, hook.url, 5, 500, ascii "gave up after 5 attempts: attempt 5: HTTP 500", .ofUnix 200⟩

theorem deadLetter_fits_iff_invoice :
    ∃ msg, deadLetterMessage (exhausted invoice) = .ok msg ∧ msg.fits maxDLQBatchBytes = true := by
  have hvalid : invoice.validate = none := by decide +kernel
  have htime : invoice.occurredAt.encodable = true := by decide
  have hfailed : (exhausted invoice).failedAt.encodable = true := by decide
  have hroom : envelopeSize (exhausted invoice) + (exhausted invoice).record.data.length +
      5 * (exhausted invoice).record.data.countP isHtml + 3 * separators (exhausted invoice).record.data ≤ 1000 := by
    decide +kernel
  refine (@deadLetter_fits_iff (exhausted invoice) rfl (Record.validate_eq_none.mp hvalid) htime hfailed).mpr ⟨rfl, ?_⟩
  exact Nat.le_add_right_of_le (hroom.trans (by decide))

/-! ## Data that does not fit -/

/-- An array of one string of opening angle brackets. -/
def markup (n : Nat) : Bytes := 0x5b :: 0x22 :: (List.replicate n 0x3c ++ [0x22, 0x5d])

theorem isValue_markup (n : Nat) : IsValue 9999 (markup n) := by
  have hclosed : ∀ stk, Scan.closed ⟨.inString, stk⟩ = false := by simp [Scan.closed, Mode.numberEnd]
  have hplain : (List.replicate n (0x3c : UInt8)).all plain = true :=
    List.all_eq_true.mpr fun c hc => List.eq_of_mem_replicate hc ▸ rfl
  have hend : takeValue 9999 ⟨.endValue, []⟩ [] = some ([], []) := rfl
  refine ⟨?_, fun c hc => ?_⟩
  · rw [markup, takeValue_inside 9999 ⟨.beginValueOrEmpty, [.array]⟩ rfl rfl (by simp),
      takeValue_inside 9999 ⟨.inString, [.array]⟩ rfl rfl (by simp), takeValue_plain 9999 [.array] hplain,
      takeValue_inside 9999 ⟨.endValue, [.array]⟩ (hclosed _) rfl (by simp),
      takeValue_inside 9999 ⟨.endValue, []⟩ rfl rfl (by simp), hend]
    simp [prepend]
  · obtain rfl : 0x5b = c := by simpa [markup] using hc
    rfl

theorem length_markup (n : Nat) : (markup n).length = n + 4 := by simp [markup]

theorem countP_markup (n : Nat) : (markup n).countP isHtml = n := by
  have hrest : [(0x22 : UInt8), 0x5d].countP isHtml = 0 := rfl
  have hopen : isHtml 0x5b = false ∧ isHtml 0x22 = false ∧ isHtml 0x3c = true := by decide
  rw [markup, List.countP_cons_of_neg (by simp [hopen]), List.countP_cons_of_neg (by simp [hopen]),
    List.countP_append, List.countP_replicate, hrest, if_pos hopen.2.2, Nat.add_zero]

/-- A page of that markup. -/
def page (n : Nat) : Ingest.PostEventRequest := ⟨ascii "acme", ascii "page.published", markup n, []⟩

def pageEnv : Ingest.Env := ⟨[], some ⟨List.replicate 16 7, Ingest.length_sevens⟩, .ofUnix 100⟩

/-- The record of the page, as it reaches the store. -/
def pageRecord (n : Nat) : Record := (page n).record (newID (List.replicate 16 7)) pageEnv.now

theorem text_page : isBlank (ascii "page.published") = false ∧ validUtf8 (ascii "page.published") = true ∧
    quoteSize (ascii "page.published") = 16 := by
  decide +kernel

theorem length_pageBody {n : Nat} (hn : n ≤ 262000) :
    (Ingest.requestBody (page n)).length ≤ Ingest.maxBodyBytes := by
  have htenant : quoteSize (ascii "acme") = 6 := by decide
  have htype : quoteSize (ascii "page.published") = 16 := text_page.2.2
  have h1 : (ascii "tenant_id").length = 9 := by decide
  have h2 : (ascii "type").length = 4 := by decide
  have h3 : (ascii "data").length = 4 := by decide
  have hlength : (Ingest.requestBody (page n)).length = n + 56 := by
    rw [Ingest.requestBody, length_writeObject (by simp)]
    simp only [page, if_true, List.append_nil, List.map_cons, List.map_nil, List.sum_cons, List.sum_nil, memberSize,
      length_keyLiteral, length_quote, htenant, htype, h1, h2, h3, length_markup]
    omega
  have hmax : Ingest.maxBodyBytes = 270336 := by decide
  omega

theorem valid_pageRecord {n : Nat} (hn : n ≤ 262000) : (pageRecord n).Valid := by
  have htenant : isBlank (ascii "acme") = false ∧ validUtf8 (ascii "acme") = true := by decide
  have hdata : (pageRecord n).data = markup n := rfl
  refine ⟨htenant.1, htenant.2, text_page.2.1, text_page.1, ?_, ?_, ?_⟩
  · rw [hdata, length_markup, maxDataBytes]
    omega
  · rw [hdata]
    exact Or.inr rfl
  · rw [hdata]
    exact valid_mono (by decide) (isValue_markup n).valid

theorem candidate_page {n : Nat} (hn : n ≤ 262000) :
    Ingest.candidate pageEnv (Ingest.requestBody (page n)) = .ok (pageRecord n) := by
  have htenant : validUtf8 (ascii "acme") = true := by decide
  exact Ingest.candidate_requestBody rfl rfl ⟨htenant, text_page.2.1, rfl, Or.inr (isValue_markup n)⟩ (valid_pageRecord hn)
    (length_pageBody hn)

/-- Six octets for each bracket. -/
theorem size_page {n : Nat} {msg : Outgoing} (h : deadLetterMessage (exhausted (pageRecord n)) = .ok msg) :
    5 * n ≤ msg.size := by
  have hdata : (exhausted (pageRecord n)).record.data = markup n := rfl
  have hne : (exhausted (pageRecord n)).record.data ≠ [] := by
    rw [hdata, markup]
    exact List.cons_ne_nil _ _
  have hsize := size_deadLetterMessage rfl hne h
  rw [hdata, compactSize, countP_markup] at hsize
  omega

/-- **A page of markup is accepted and cannot be dead-lettered.** -/
theorem not_fits_page : ¬ ∀ (env : Ingest.Env) (body : Bytes) (rec : Record) (dl : DeadLetter),
    Ingest.candidate env body = .ok rec → dl.source = none → dl.record = rec → dl.reason.length ≤ 4096 →
      dl.failedAt.encodable = true →
      ∃ msg, deadLetterMessage dl = .ok msg ∧ msg.fits maxDLQBatchBytes = true := by
  intro hall
  have hpage : ∀ n, n ≤ 262000 → 5 * n ≤ maxDLQBatchBytes := by
    intro n hn
    have hreason : (ascii "gave up after 5 attempts: attempt 5: HTTP 500").length ≤ 4096 := by decide
    have hfailed : (Time.ofUnix 200).encodable = true := by decide
    obtain ⟨msg, hmsg, hfits⟩ := hall pageEnv _ (pageRecord n) (exhausted (pageRecord n)) (candidate_page hn) rfl rfl
      hreason hfailed
    rw [Outgoing.fits, decide_eq_true_iff] at hfits
    exact (size_page hmsg).trans hfits
  exact absurd (hpage 240000 (by omega)) (by decide)

end LocalPlatform.Relay.Delivery
