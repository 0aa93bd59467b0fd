/-
# LocalPlatform.Relay.Delivery.Sign — the webhook signature.

The signed content is `{id}.{timestamp}.{body}` and the header value is `v1,` and the base64 of its
HMAC-SHA256.  The tag function is a parameter: everything said about signatures here rests on which
byte strings are tagged, never on how the tag is computed.
-/
import LocalPlatform.Relay.Event

namespace LocalPlatform.Relay.Delivery

open Codec

/-- A tag function, `hmac secret message`: HMAC-SHA256 in the program. -/
abbrev Hmac := Bytes → Bytes → Bytes

/-- **`timestamp ts`** — the value of the `webhook-timestamp` header: seconds since the epoch. -/
def timestamp (ts : Time) : Bytes := decInt ts.unix

/-- The content a signature covers. -/
def signedContent (id ts body : Bytes) : Bytes := id ++ 0x2e :: (ts ++ 0x2e :: body)

/-- The version in front of every signature. -/
def v1 : Bytes := [0x76, 0x31]

/-- **`sign hmac secret id ts body`** — the value of the `webhook-signature` header. -/
def sign (hmac : Hmac) (secret id : Bytes) (ts : Time) (body : Bytes) : Bytes :=
  v1 ++ 0x2c :: Base64.encode (hmac secret (signedContent id (timestamp ts) body))

/-! ## The shape of a signature -/

theorem cut_sign (hmac : Hmac) (secret id : Bytes) (ts : Time) (body : Bytes) :
    cut 0x2c (sign hmac secret id ts body) =
      some (v1, Base64.encode (hmac secret (signedContent id (timestamp ts) body))) :=
  cut_append (by decide) _

/-- A signature is graphic ASCII, so it is one entry of a header value. -/
theorem fields_sign (hmac : Hmac) (secret id : Bytes) (ts : Time) (body : Bytes) :
    fields (sign hmac secret id ts body) = [sign hmac secret id ts body] := by
  refine fields_graphic (by simp [sign, v1]) fun c hc => ?_
  simp only [sign, v1, List.cons_append, List.nil_append, List.mem_cons] at hc
  rcases hc with rfl | rfl | rfl | hc
  · decide
  · decide
  · decide
  · exact ⟨(Base64.graphic_of_mem_encode hc).1, (Base64.graphic_of_mem_encode hc).2.1⟩

/-! ## Reading the content back -/

/-- The segments of a signed content: those of the id, the timestamp, those of the body. -/
theorem splitOn_signedContent {id ts body : Bytes} (hts : (0x2e : UInt8) ∉ ts) :
    (signedContent id ts body).splitOn 0x2e = id.splitOn 0x2e ++ ts :: body.splitOn 0x2e := by
  rw [signedContent, List.splitOn_append_cons_self, List.splitOn_append_cons_self_of_not_mem hts]

/-- **An id without a full stop is read back**: two contents with such ids and dot-free timestamps are
equal only field by field. -/
theorem signedContent_injective {id ts body id' ts' body' : Bytes} (hid : (0x2e : UInt8) ∉ id)
    (hts : (0x2e : UInt8) ∉ ts) (hid' : (0x2e : UInt8) ∉ id') (hts' : (0x2e : UInt8) ∉ ts')
    (h : signedContent id ts body = signedContent id' ts' body') :
    id = id' ∧ ts = ts' ∧ body = body' := by
  have hcut : ∀ {i t : Bytes} (b : Bytes), (0x2e : UInt8) ∉ i →
      cut 0x2e (signedContent i t b) = some (i, t ++ 0x2e :: b) := fun b hi => cut_append hi _
  have h1 := congrArg (cut 0x2e) h
  rw [hcut body hid, hcut body' hid'] at h1
  obtain ⟨rfl, hrest⟩ := Prod.mk.injEq .. ▸ Option.some.injEq .. ▸ h1
  have h2 := congrArg (cut 0x2e) hrest
  rw [cut_append hts, cut_append hts'] at h2
  obtain ⟨rfl, rfl⟩ := Prod.mk.injEq .. ▸ Option.some.injEq .. ▸ h2
  exact ⟨rfl, rfl, rfl⟩

/-- An event id holds no full stop. -/
theorem dot_notMem_newID (b : Bytes) : (0x2e : UInt8) ∉ newID b := by
  intro h
  rcases List.mem_append.mp h with h | h
  · exact absurd h (by decide)
  · exact absurd (isHex_of_mem_hex h) (by decide)

theorem newID_ne_nil (b : Bytes) : newID b ≠ [] := by
  intro h
  have hnil := (List.append_eq_nil_iff.mp h).1
  exact absurd hnil (by decide)

end LocalPlatform.Relay.Delivery
