/-
# LocalPlatform.Relay.Identifiers — which identifiers keep apart at the edge.

`Validate` refuses a tenant or a type that is not UTF-8, but what it is given has been through the decoder,
which repairs every string; the key is not looked at.  A body with a malformed identifier is therefore
stored under a repaired one, like every other body that is repaired to the same (`identifiersKept_iff`).
-/
import LocalPlatform.Codec.Json.Denote
import LocalPlatform.Relay.RequestBody

namespace LocalPlatform.Relay.Ingest

open Codec Codec.Json History

/-! ## What a body denotes -/

/-- A request before its strings are repaired. -/
structure DenotedRequest where
  tenantID : List Rune
  type : List Rune
  data : Bytes
  idempotencyKey : List Rune
  deriving DecidableEq, Repr

def denotedFields : List (StructField DenotedRequest) :=
  [denotedField "tenant_id" DenotedRequest.tenantID fun r s => { r with tenantID := s },
   denotedField "type" DenotedRequest.type fun r s => { r with type := s },
   ⟨ascii "data", fun r raw => some { r with data := raw }⟩,
   denotedField "idempotency_key" DenotedRequest.idempotencyKey fun r s => { r with idempotencyKey := s }]

/-- The request in the value the decoder reads. -/
def denotedRequest (body : Bytes) : Option DenotedRequest :=
  match readValue body with
  | .value t _ => decodeInto true denotedFields ⟨[], [], [], []⟩ t
  | _ => none

/-- No identifier needs repair. -/
def DenotedRequest.Sound (d : DenotedRequest) : Prop :=
  Json.Sound d.tenantID ∧ Json.Sound d.type ∧ Json.Sound d.idempotencyKey

/-- **An identifier of the request holds malformed UTF-8 or an unpaired surrogate.** -/
def Garbled (body : Bytes) : Prop := ∃ d, denotedRequest body = some d ∧ ¬ d.Sound

/-- The request is what is denoted, as far as that is sound. -/
structure Reads (req : PostEventRequest) (d : DenotedRequest) : Prop where
  tenantID : Json.Sound d.tenantID → req.tenantID = d.tenantID.flatMap Rune.bytes
  type : Json.Sound d.type → req.type = d.type.flatMap Rune.bytes
  data : req.data = d.data
  idempotencyKey : Json.Sound d.idempotencyKey → req.idempotencyKey = d.idempotencyKey.flatMap Rune.bytes

/-- One string field: a literal is repaired on one side and kept on the other. -/
theorem sameField_string {name : String} {get : PostEventRequest → Bytes} {put : PostEventRequest → Bytes → PostEventRequest}
    {get' : DenotedRequest → List Rune} {put' : DenotedRequest → List Rune → DenotedRequest}
    (hold : ∀ z w, Reads z w → Reads (put z (get z)) (put' w (get' w)))
    (hnew : ∀ z w s rs, Reads z w → (Json.Sound rs → s = rs.flatMap Rune.bytes) → Reads (put z s) (put' w rs)) :
    SameField Reads (stringField name get put) (denotedField name get' put') := by
  refine ⟨rfl, fun z w raw hzw => ?_⟩
  unfold stringField denotedField
  simp only [setString]
  by_cases hnull : raw = literalNull
  · rw [if_pos hnull, if_pos hnull]
    exact .some (hold z w hzw)
  rw [if_neg hnull, if_neg hnull]
  by_cases hquote : raw.head? = some 0x22
  · rw [if_pos hquote, if_pos hquote]
    exact .some (hnew z w _ _ hzw unquote_of_sound)
  · rw [if_neg hquote, if_neg hquote]
    exact .none

theorem sameFields : List.Forall₂ (SameField Reads) postEventFields denotedFields := by
  refine .cons (sameField_string (fun _ _ h => h) fun z w s rs h hs => { h with tenantID := hs }) (.cons
    (sameField_string (fun _ _ h => h) fun z w s rs h hs => { h with type := hs }) (.cons ⟨rfl, fun z w raw h => ?_⟩ (.cons
    (sameField_string (fun _ _ h => h) fun z w s rs h hs => { h with idempotencyKey := hs }) .nil)))
  exact .some { h with data := rfl }

/-- **What is decoded is what is denoted, where nothing needs repair.** -/
theorem reads_of_decodeRequest {decodeError body : Bytes} {req : PostEventRequest}
    (h : decodeRequest decodeError body = .ok req) : ∃ d, denotedRequest body = some d ∧ Reads req d := by
  have hzero : Reads ⟨[], [], [], []⟩ ⟨[], [], [], []⟩ := ⟨fun _ => rfl, fun _ => rfl, rfl, fun _ => rfl⟩
  unfold decodeRequest at h
  unfold denotedRequest
  cases hread : readValue body with
  | tooLarge => rw [hread] at h; cases h
  | malformed => rw [hread] at h; cases h
  | value t rest =>
      -- both readings take the same members, and differ in how they read a string
      have hrel := decodeInto_rel sameFields true t hzero
      rw [hread] at h
      simp only at h ⊢
      cases hreq : decodeInto true postEventFields ⟨[], [], [], []⟩ t with
      | none => rw [hreq] at h; cases h
      | some req' =>
          rw [hreq] at h hrel
          simp only at h
          split at h
          · cases h
          · obtain rfl := Except.ok.inj h
            cases hd : decodeInto true denotedFields ⟨[], [], [], []⟩ t with
            | none => rw [hd] at hrel; cases hrel
            | some d =>
                rw [hd] at hrel
                cases hrel with
                | some hreads => exact ⟨d, rfl, hreads⟩

/-! ## What is answered and stored -/

/-- A request to the server, with what the process and its store add. -/
structure Request where
  env : Env
  events : Option (Record → Except Failure Acceptance)
  body : Bytes

def Request.answer (r : Request) : Response := postEvent r.env r.events r.body

/-- The request is answered 202 for this record. -/
def Request.Stores (r : Request) (rec : Record) : Prop := candidate r.env r.body = .ok rec ∧ r.answer.status = 202

/-- The key column of a row: a blank key is no key. -/
def storedKey (rec : Record) : Option Bytes := if rec.idempotencyKey = [] then none else some rec.idempotencyKey

/-- `Validate` without its question for UTF-8. -/
def PostEventRequest.Unfit (req : PostEventRequest) : Prop :=
  isBlank req.tenantID = true ∨ isBlank req.type = true ∨ req.data.length = 0 ∨ maxDataBytes < req.data.length ∨
    (req.data.head? ≠ some 0x7b ∧ req.data.head? ≠ some 0x5b) ∨ ¬ valid maxNestingDepth req.data = true

/-- **The body is refused with 400 for another reason**: it is malformed, or the record is unfit even with its
strings repaired. -/
def Request.Refused (r : Request) : Prop :=
  match decodeRequest r.env.decodeError r.body with
  | .error a => a.status = 400
  | .ok req => r.env.random.isSome = true ∧ req.Unfit

/-- A decoded request is unfit for another reason than its strings. -/
theorem validate_isSome_iff {req : PostEventRequest} (h : req.Decoded) (id : Bytes) (now : Time) :
    (req.record id now).validate.isSome = true ↔ req.Unfit := by
  constructor
  · intro hsome
    by_contra hfit
    simp only [PostEventRequest.Unfit, not_or, not_and_or, not_not, not_lt] at hfit
    obtain ⟨htenant, htype, _, hsize, hopens, hjson⟩ := hfit
    rw [Bool.not_eq_true] at htenant htype
    have hnone : (req.record id now).validate = none :=
      Record.validate_eq_none.mpr ⟨htenant, h.tenantID, h.type, htype, hsize, hopens, hjson⟩
    rw [hnone] at hsome
    cases hsome
  · intro hunfit
    by_contra hnone
    have hvalid := Record.validate_eq_none.mp (Option.not_isSome_iff_eq_none.mp hnone)
    rcases hunfit with htenant | htype | hempty | hsize | hopens | hjson
    · exact absurd (htenant.symm.trans hvalid.tenant) (by decide)
    · exact absurd (htype.symm.trans hvalid.type) (by decide)
    · exact hvalid.data_ne_nil (List.length_eq_zero_iff.mp hempty)
    · exact absurd hvalid.size (not_le.mpr hsize)
    · exact hvalid.opens.elim hopens.1 hopens.2
    · exact hjson hvalid.json

/-- **400 has no other reason.** -/
theorem answer_400_iff (r : Request) : r.answer.status = 400 ↔ r.Refused := by
  unfold Request.answer postEvent candidate Request.Refused
  -- the body is refused, or the record is; nothing else is answered with 400
  cases hreq : decodeRequest r.env.decodeError r.body with
  | error a => exact Iff.rfl
  | ok req =>
      have hvalidate := fun b => validate_isSome_iff (decoded_of_decodeRequest hreq) (newID b) r.env.now
      simp only
      cases hrandom : r.env.random with
      | none => exact iff_of_false (show ¬ (500 = 400) by decide) (by simp)
      | some random =>
          obtain ⟨b, hb⟩ := random
          simp only [Option.isSome_some, true_and]
          rw [← hvalidate b]
          cases hbad : (req.record (newID b) r.env.now).validate with
          | some e => exact iff_of_true rfl rfl
          | none =>
              refine iff_of_false ?_ (by simp)
              simp only
              cases r.events with
              | none => exact show ¬ (503 = 400) by decide
              | some accept =>
                  simp only
                  unfold Ingest.answer
                  split
                  · exact show ¬ (202 = 400) by decide
                  · exact show ¬ (409 = 400) by decide
                  · exact show ¬ (503 = 400) by decide

/-! ## Identifiers -/

/-- **Identifiers are kept**: two bodies answered 202 whose tenants or keys denote different octets are not
stored under one, and a body with a garbled identifier is answered 400. -/
structure IdentifiersKept (r s : Request) : Prop where
  apart : ∀ rec rec' d d', r.Stores rec → s.Stores rec' → denotedRequest r.body = some d → denotedRequest s.body = some d' →
    (d.tenantID.flatMap Rune.bytes ≠ d'.tenantID.flatMap Rune.bytes → rec.tenantID ≠ rec'.tenantID) ∧
    (d.idempotencyKey.flatMap Rune.bytes ≠ d'.idempotencyKey.flatMap Rune.bytes →
      ∀ key, storedKey rec = some key → storedKey rec' ≠ some key)
  refused : ∀ q, q = r ∨ q = s → Garbled q.body → q.answer.status = 400

/-- What is stored for a body that is not garbled is what it denotes. -/
theorem stored_of_sound {r : Request} {rec : Record} {d : DenotedRequest} (h : r.Stores rec)
    (hd : denotedRequest r.body = some d) (hsound : d.Sound) :
    rec.tenantID = d.tenantID.flatMap Rune.bytes ∧
      ∀ key, storedKey rec = some key → key = d.idempotencyKey.flatMap Rune.bytes := by
  obtain ⟨req, b, hreq, _, rfl, _⟩ := candidate_ok h.1
  obtain ⟨d', hd', hreads⟩ := reads_of_decodeRequest hreq
  obtain rfl := Option.some.inj (hd.symm.trans hd')
  refine ⟨hreads.tenantID hsound.1, fun key hkey => ?_⟩
  have hblank : isBlank req.idempotencyKey = false := by
    by_contra hblank
    rw [storedKey, PostEventRequest.record] at hkey
    simp only [hblank, if_true] at hkey
    cases hkey
  simp only [storedKey, PostEventRequest.record, hblank, Bool.false_eq_true, if_false] at hkey
  split at hkey
  · cases hkey
  · rw [← Option.some.inj hkey]
    exact hreads.idempotencyKey hsound.2.2

/-- **Identifiers are kept exactly where no garbled one comes through.** -/
theorem identifiersKept_iff (r s : Request) :
    IdentifiersKept r s ↔ ∀ q, q = r ∨ q = s → Garbled q.body → q.Refused := by
  constructor
  · exact fun h q hq hgarbled => (answer_400_iff q).mp (h.refused q hq hgarbled)
  · intro h
    have hsound : ∀ q, q = r ∨ q = s → ∀ rec d, q.Stores rec → denotedRequest q.body = some d → d.Sound := by
      intro q hq rec d hstores hd
      by_contra hgarbled
      have h400 := (answer_400_iff q).mpr (h q hq ⟨d, hd, hgarbled⟩)
      exact absurd (hstores.2.symm.trans h400) (by decide)
    refine ⟨fun rec rec' d d' hr hs hd hd' => ?_, fun q hq hgarbled => (answer_400_iff q).mpr (h q hq hgarbled)⟩
    obtain ⟨htenant, hkey⟩ := stored_of_sound hr hd (hsound r (Or.inl rfl) rec d hr hd)
    obtain ⟨htenant', hkey'⟩ := stored_of_sound hs hd' (hsound s (Or.inr rfl) rec' d' hs hd')
    refine ⟨fun hne heq => hne ?_, fun hne key hk hk' => hne ?_⟩
    · rw [← htenant, ← htenant', heq]
    · rw [← hkey key hk, ← hkey' key hk']

/-! ## Two tenants stored as one -/

/-- The members of a body whose tenant is the one octet `b`. -/
def tenantMembers (b : UInt8) : List Member :=
  [(keyLiteral "tenant_id", [0x22, b, 0x22]), (keyLiteral "type", ascii "\"t\""), (keyLiteral "data", ascii "\x7b\x7d")]

/-- The body of tenant `b`, sent to a store that takes it. -/
def tenantRequest (b : UInt8) : Request where
  env := ⟨[], some ⟨List.replicate 16 0, rfl⟩, Time.ofUnix 0⟩
  events := some fun rec => .ok ⟨rec, false⟩
  body := writeObject (tenantMembers b)

/-- Any octet but a quote, a backslash or a control character may stand in a literal. -/
theorem readValue_tenant {b : UInt8} (h : plain b = true) :
    readValue (tenantRequest b).body = .value (.object (tenantMembers b)) [] := by
  have hle : (tenantRequest b).body.length ≤ maxBodyBytes := show 38 ≤ maxBodyBytes by decide
  refine (readValue_of_le hle).mpr (first_writeObject _ (by simp [tenantMembers]) fun m hm => ?_)
  simp only [tenantMembers, List.mem_cons, List.not_mem_nil, or_false] at hm
  rcases hm with rfl | rfl | rfl
  · exact ⟨isValue_plain _ (by decide), rfl, @isValue_plain _ [b] (by simp [h])⟩
  · exact ⟨isValue_plain _ (by decide), rfl, @isValue_plain _ (ascii "t") (by decide)⟩
  · exact ⟨isValue_plain _ (by decide +kernel), rfl, by decide +kernel, by decide +kernel⟩

theorem denotedRequest_tenant {b : UInt8} (h : plain b = true) :
    denotedRequest (tenantRequest b).body =
      some ⟨denoted [0x22, b, 0x22], denoted (ascii "\"t\""), ascii "\x7b\x7d", []⟩ := by
  have hquote : ([0x22, b, 0x22] : Bytes).head? = some 0x22 := rfl
  have hnames : (denotedFields.map StructField.name).Nodup := by decide
  rw [denotedRequest, readValue_tenant h]
  simp only [decodeInto, tenantMembers]
  rw [decode_field true hnames (.head _) rfl (by decide)]
  simp only [denotedField]
  rw [if_neg (by simp [literalNull]), if_pos hquote, Option.bind_some]
  rw [decode_field true hnames (.tail _ (.head _)) rfl (by decide)]
  simp only [denotedField]
  rw [if_neg (by decide), if_pos (by decide), Option.bind_some]
  rw [decode_field true hnames (.tail _ (.tail _ (.head _))) rfl (by decide)]
  rfl

theorem decodeRequest_tenant {b : UInt8} (h : plain b = true) :
    decodeRequest [] (tenantRequest b).body =
      .ok ⟨unquote [0x22, b, 0x22], unquote (ascii "\"t\""), ascii "\x7b\x7d", []⟩ := by
  have hquote : ([0x22, b, 0x22] : Bytes).head? = some 0x22 := rfl
  have hnames : (postEventFields.map StructField.name).Nodup := by decide
  rw [decodeRequest, readValue_tenant h]
  simp only [decodeInto, tenantMembers]
  rw [decode_field true hnames (.head _) rfl (by decide)]
  simp only [stringField, setString]
  rw [if_neg (by simp [literalNull]), if_pos hquote, Option.map_some, Option.bind_some]
  rw [decode_field true hnames (.tail _ (.head _)) rfl (by decide)]
  simp only [stringField, setString]
  rw [if_neg (by decide), if_pos (by decide), Option.map_some, Option.bind_some]
  rw [decode_field true hnames (.tail _ (.tail _ (.head _))) rfl (by decide)]
  rfl

/-- The record both bodies come to. -/
def repairedTenant : Record := PostEventRequest.record
  ⟨[0xef, 0xbf, 0xbd], ascii "t", ascii "\x7b\x7d", []⟩ (newID (List.replicate 16 0)) (Time.ofUnix 0)

theorem stores_repairedTenant {b : UInt8} (h : plain b = true) (hrepair : unquote [0x22, b, 0x22] = [0xef, 0xbf, 0xbd]) :
    (tenantRequest b).Stores repairedTenant := by
  have hvalid : repairedTenant.Valid :=
    ⟨by decide, by decide, by decide, by decide, by decide, by decide, by decide⟩
  have htype : unquote (ascii "\"t\"") = ascii "t" := by decide
  have hdecode := decodeRequest_tenant h
  rw [hrepair, htype] at hdecode
  have hcandidate : candidate (tenantRequest b).env (tenantRequest b).body = .ok repairedTenant :=
    candidate_of_decodeRequest hdecode (List.length_replicate ..) rfl hvalid
  refine ⟨hcandidate, ?_⟩
  rw [Request.answer, postEvent, hcandidate]
  rfl

/-- **Two tenants are stored as one**: what each calls itself is no UTF-8, and both come out as `U+FFFD`. -/
theorem not_identifiersKept_tenants : ¬ ∀ r s : Request, IdentifiersKept r s := by
  intro hall
  have hapart := (hall (tenantRequest 0xff) (tenantRequest 0xfe)).apart repairedTenant repairedTenant _ _
    (stores_repairedTenant (by decide) (by decide)) (stores_repairedTenant (by decide) (by decide))
    (denotedRequest_tenant (by decide)) (denotedRequest_tenant (by decide))
  exact hapart.1 (by decide) rfl

end LocalPlatform.Relay.Ingest
