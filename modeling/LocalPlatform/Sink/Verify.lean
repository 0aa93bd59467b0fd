/-
# LocalPlatform.Sink.Verify — the receiver's check of a webhook request.

`verify` is written from the specification alone, not from relay's signer, so that agreement of the two
means something.  The question of this module is what an accepted request tells the receiver.

The signed content joins its three fields with full stops, and the receiver restricts only the middle
one.  An accepted request therefore names a triple that relay signed exactly when no signed body can be
cut again: when none has a segment, ended by a full stop, that reads as a timestamp
(`authenticates_iff`).
-/
import LocalPlatform.Relay.Delivery.Sign

namespace LocalPlatform.Sink

open Codec Relay Relay.Delivery

/-- The three headers `verify` reads, and the body. -/
structure Request where
  webhookID : Bytes
  webhookTimestamp : Bytes
  webhookSignature : Bytes
  body : Bytes
  deriving DecidableEq, Repr

/-- The replay window in nanoseconds: five minutes. -/
def toleranceWindow : Int := 300 * 1000000000

/-- Why a request is refused. -/
inductive Refusal where
  | missing
  | notTimestamp (ts : Bytes)
  | outside (delta : Int)
  | noSignature
  deriving DecidableEq, Repr

/-- An entry of the signature header that carries the wanted tag. -/
def entryMatches (want entry : Bytes) : Bool :=
  match cut 0x2c entry with
  | none => false
  | some (version, encoded) => version == v1 && encoded == want

/-- **`verify hmac secret req now`** — `none` when the request is accepted. -/
def verify (hmac : Hmac) (secret : Bytes) (req : Request) (now : Time) : Option Refusal :=
  if req.webhookID = [] ∨ req.webhookTimestamp = [] ∨ req.webhookSignature = [] then some .missing
  else match parseInt req.webhookTimestamp with
    | none => some (.notTimestamp req.webhookTimestamp)
    | some secs =>
      let delta := now.sub (Time.ofUnix secs)
      if toleranceWindow < delta ∨ delta < -toleranceWindow then some (.outside delta)
      else
        let want := Base64.encode
          (hmac secret (signedContent req.webhookID req.webhookTimestamp req.body))
        if (fields req.webhookSignature).any (entryMatches want) then none else some .noSignature

/-! ## What acceptance means -/

/-- A message relay signed: the event id, the clock reading, the body. -/
structure Signed where
  id : Bytes
  ts : Time
  body : Bytes

/-- The content the signature of a message covers. -/
def Signed.content (t : Signed) : Bytes := signedContent t.id (timestamp t.ts) t.body

/-- The `v1` entries of the request are signatures relay issued for messages of `signed`: the sender
holds signatures, not the secret. -/
def Issued (hmac : Hmac) (secret : Bytes) (signed : Set Signed) (req : Request) : Prop :=
  ∀ entry ∈ fields req.webhookSignature, ∀ encoded, cut 0x2c entry = some (v1, encoded) →
    ∃ t ∈ signed, entry = sign hmac secret t.id t.ts t.body

/-- **Every accepted request is a message relay signed**: same id, same timestamp value, same body. -/
def Authenticates (hmac : Hmac) (secret : Bytes) (signed : Set Signed) : Prop :=
  ∀ (req : Request) (now : Time), Issued hmac secret signed req → verify hmac secret req now = none →
    ∃ t ∈ signed, req.webhookID = t.id ∧ req.webhookTimestamp = timestamp t.ts ∧ req.body = t.body

/-- No signed body can be cut again: no segment that a full stop ends reads as a timestamp. -/
def Unambiguous (signed : Set Signed) : Prop :=
  ∀ t ∈ signed, ∀ segment ∈ (t.body.splitOn 0x2e).dropLast, parseInt segment = none

/-- The one inversion of `verify`: what every accepted request has. -/
theorem verify_none {hmac : Hmac} {secret : Bytes} {req : Request} {now : Time}
    (h : verify hmac secret req now = none) :
    (∃ secs, parseInt req.webhookTimestamp = some secs) ∧
      ∃ entry ∈ fields req.webhookSignature, cut 0x2c entry = some (v1, Base64.encode
        (hmac secret (signedContent req.webhookID req.webhookTimestamp req.body))) := by
  unfold verify at h
  split at h
  · exact absurd h (by simp)
  split at h
  · exact absurd h (by simp)
  next secs hsecs =>
  simp only at h
  split at h
  · exact absurd h (by simp)
  split at h
  · next hany =>
    obtain ⟨entry, hentry, hm⟩ := List.any_eq_true.mp hany
    refine ⟨⟨secs, hsecs⟩, entry, hentry, ?_⟩
    unfold entryMatches at hm
    split at hm
    · exact absurd hm (by simp)
    · next version encoded hcut =>
      rw [Bool.and_eq_true, beq_iff_eq, beq_iff_eq] at hm
      rw [hcut, hm.1, hm.2]
  · exact absurd h (by simp)

/-- An accepted request carries the tag of a signed message, so it has that message's content. -/
theorem content_of_verify {hmac : Hmac} {secret : Bytes} (hinj : Function.Injective (hmac secret))
    {signed : Set Signed} {req : Request} {now : Time} (hissued : Issued hmac secret signed req)
    (h : verify hmac secret req now = none) :
    ∃ t ∈ signed, t.content = signedContent req.webhookID req.webhookTimestamp req.body := by
  obtain ⟨_, entry, hentry, hcut⟩ := verify_none h
  obtain ⟨t, ht, hsign⟩ := hissued entry hentry _ hcut
  refine ⟨t, ht, ?_⟩
  rw [hsign, cut_sign] at hcut
  have htag := (Prod.mk.injEq .. ▸ Option.some.injEq .. ▸ hcut).2
  exact hinj (Base64.encode_injective htag)

/-- A request is accepted with the signature of any message of its content, by a receiver whose clock
shows the request's timestamp. -/
theorem verify_resigned {hmac : Hmac} {secret : Bytes} {req : Request} {t : Signed} {secs : Int}
    (hid : req.webhookID ≠ []) (hsecs : parseInt req.webhookTimestamp = some secs)
    (hsig : req.webhookSignature = sign hmac secret t.id t.ts t.body)
    (hcontent : t.content = signedContent req.webhookID req.webhookTimestamp req.body) :
    verify hmac secret req (Time.ofUnix secs) = none := by
  have hts : req.webhookTimestamp ≠ [] := by
    intro hnil
    rw [hnil] at hsecs
    exact absurd hsecs (by simp [parseInt])
  have hsub : (Time.ofUnix secs).sub (Time.ofUnix secs) = 0 := by simp [Time.sub]
  have hmatch : entryMatches (Base64.encode
      (hmac secret (signedContent req.webhookID req.webhookTimestamp req.body)))
      (sign hmac secret t.id t.ts t.body) = true := by
    rw [entryMatches, cut_sign, ← hcontent, Signed.content]
    simp
  rw [verify, if_neg (by simp [hid, hts, hsig, Delivery.sign, v1]), hsecs]
  simp only [hsub]
  rw [if_neg (by decide), hsig, fields_sign, List.any_cons, hmatch, Bool.true_or, if_pos rfl]

/-- Two ways to cut one content, the first with an id and a timestamp without a full stop: the second
is the same, or its timestamp is a segment of the first body that a full stop ends. -/
theorem segment_of_content {t : Signed} {id ts body : Bytes} (hid : (0x2e : UInt8) ∉ t.id)
    (hts : (0x2e : UInt8) ∉ ts) (h : t.content = signedContent id ts body) :
    (id = t.id ∧ ts = timestamp t.ts ∧ body = t.body) ∨ ts ∈ (t.body.splitOn 0x2e).dropLast := by
  have hts₀ : (0x2e : UInt8) ∉ timestamp t.ts := dot_notMem_decInt _
  by_cases hdot : (0x2e : UInt8) ∈ id
  · right
    have hseg := congrArg (List.splitOn 0x2e) h
    rw [Signed.content, splitOn_signedContent hts₀, splitOn_signedContent hts,
      List.splitOn_eq_singleton hid] at hseg
    -- an id with a full stop has two segments at least, and they are the signed id and timestamp
    obtain ⟨a, b, rfl⟩ := List.append_of_mem hdot
    rw [List.splitOn_append_cons_self] at hseg
    obtain ⟨x, xs, hx⟩ := List.exists_cons_of_ne_nil (List.splitOn_ne_nil (0x2e : UInt8) a)
    obtain ⟨y, ys, hy⟩ := List.exists_cons_of_ne_nil (List.splitOn_ne_nil (0x2e : UInt8) b)
    have hne : body.splitOn (0x2e : UInt8) ≠ [] := List.splitOn_ne_nil _ _
    rw [hx, hy] at hseg
    have hbody : ∃ pre, t.body.splitOn (0x2e : UInt8) = pre ++ ts :: body.splitOn (0x2e : UInt8) := by
      cases xs with
      | nil =>
          simp only [List.cons_append, List.nil_append, List.cons.injEq] at hseg
          exact ⟨ys, hseg.2.2⟩
      | cons x' xs =>
          simp only [List.cons_append, List.nil_append, List.cons.injEq] at hseg
          exact ⟨xs ++ y :: ys, by rw [hseg.2.2]⟩
    obtain ⟨pre, hpre⟩ := hbody
    rw [hpre, List.dropLast_append_of_ne_nil (by simp), List.dropLast_cons_of_ne_nil hne]
    simp
  · left
    obtain ⟨h1, h2, h3⟩ := signedContent_injective hid hts₀ hdot hts h
    exact ⟨h1.symm, h2.symm, h3.symm⟩

/-- A segment of a signed body that reads as a timestamp gives a request that is accepted and was never
signed: everything in front of the segment is its id. -/
theorem exists_resigned {hmac : Hmac} {secret : Bytes} {signed : Set Signed} {t : Signed}
    (ht : t ∈ signed) {segment : Bytes} (hsegment : segment ∈ (t.body.splitOn 0x2e).dropLast)
    {secs : Int} (hsecs : parseInt segment = some secs) :
    ∃ req : Request, (0x2e : UInt8) ∈ req.webhookID ∧ Issued hmac secret signed req ∧
      verify hmac secret req (Time.ofUnix secs) = none := by
  obtain ⟨pre, post, hdrop⟩ := List.append_of_mem hsegment
  obtain ⟨rest, hrest, hne⟩ : ∃ rest, t.body.splitOn (0x2e : UInt8) = pre ++ segment :: rest ∧
      rest ≠ [] := by
    have hsplit := List.dropLast_append_getLast (List.splitOn_ne_nil (0x2e : UInt8) t.body)
    rw [hdrop] at hsplit
    refine ⟨post ++ [(t.body.splitOn 0x2e).getLast (List.splitOn_ne_nil 0x2e t.body)], ?_, by simp⟩
    rw [← List.cons_append, ← List.append_assoc]
    exact hsplit.symm
  have hfront : t.id :: timestamp t.ts :: pre = [t.id] ++ (timestamp t.ts :: pre) := rfl
  -- what was signed, with the dot one segment further to the right
  let req : Request :=
    { webhookID := [(0x2e : UInt8)].intercalate (t.id :: timestamp t.ts :: pre)
      webhookTimestamp := segment
      webhookSignature := sign hmac secret t.id t.ts t.body
      body := [(0x2e : UInt8)].intercalate rest }
  have hdot : (0x2e : UInt8) ∈ req.webhookID := by
    show (0x2e : UInt8) ∈ [(0x2e : UInt8)].intercalate (t.id :: timestamp t.ts :: pre)
    rw [hfront, intercalate_append (by simp) (by simp)]
    simp
  -- both requests put the same octets under the signature
  have hcontent : t.content = signedContent req.webhookID req.webhookTimestamp req.body := by
    have hbody : t.body = [(0x2e : UInt8)].intercalate (pre ++ segment :: rest) := by
      rw [← hrest, List.intercalate_splitOn]
    have hparts : t.content =
        [(0x2e : UInt8)].intercalate (t.id :: timestamp t.ts :: (pre ++ segment :: rest)) := by
      rw [Signed.content, signedContent, hbody, List.intercalate_cons_cons,
        List.intercalate_cons_of_ne_nil (by simp)]
      simp
    have hcut : t.id :: timestamp t.ts :: (pre ++ segment :: rest) =
        (t.id :: timestamp t.ts :: pre) ++ (segment :: rest) := rfl
    rw [hparts, hcut, intercalate_append (by simp) (by simp), List.intercalate_cons_of_ne_nil hne]
    simp [signedContent, req]
  refine ⟨req, hdot, ?_, verify_resigned (fun hnil => ?_) hsecs rfl hcontent⟩
  · intro entry hentry encoded _
    rw [fields_sign, List.mem_singleton] at hentry
    exact ⟨t, ht, hentry⟩
  · rw [hnil] at hdot
    simp at hdot

/-- **What the receiver can conclude.**  Over the ids relay mints and a collision-free tag, every
accepted request is a message relay signed if and only if no signed body has a segment, ended by a full
stop, that reads as a timestamp. -/
theorem authenticates_iff {hmac : Hmac} {secret : Bytes} (hinj : Function.Injective (hmac secret))
    {signed : Set Signed} (hids : ∀ t ∈ signed, ∃ b, b.length = 16 ∧ t.id = newID b) :
    Authenticates hmac secret signed ↔ Unambiguous signed := by
  constructor
  · intro hauth t ht segment hsegment
    by_contra hsome
    obtain ⟨secs, hsecs⟩ := Option.ne_none_iff_exists'.mp hsome
    -- a segment that reads as a number could be taken for the timestamp, behind an identifier with a dot
    obtain ⟨req, hdot, hissued, hverify⟩ := exists_resigned ht hsegment hsecs
    obtain ⟨t', ht', hid, _⟩ := hauth req (Time.ofUnix secs) hissued hverify
    obtain ⟨b, _, hb⟩ := hids t' ht'
    rw [hid, hb] at hdot
    exact dot_notMem_newID b hdot
  · intro hunamb req now hissued hverify
    obtain ⟨t, ht, hcontent⟩ := content_of_verify hinj hissued hverify
    obtain ⟨⟨secs, hsecs⟩, _⟩ := verify_none hverify
    obtain ⟨b, _, hb⟩ := hids t ht
    have hdot : (0x2e : UInt8) ∉ t.id := by
      rw [hb]
      exact dot_notMem_newID b
    -- the identifier that was signed has no dot, so the content splits where it was joined or further on
    rcases segment_of_content hdot (dot_notMem_of_parseInt hsecs) hcontent with hsame | hsegment
    · exact ⟨t, ht, hsame⟩
    · rw [hunamb t ht _ hsegment] at hsecs
      exact absurd hsecs (by simp)

/-- One message of a type with one full stop, whose segments are no numbers. -/
theorem authenticates_iff_invoice_paid :
    Authenticates (fun _ m => m) [] {⟨newID (List.replicate 16 7), Time.ofUnix 100,
      ascii "\x7b\"type\":\"invoice.paid\",\"data\":[]\x7d"⟩} :=
  (authenticates_iff (fun _ _ h => h) (fun t ht =>
    ⟨List.replicate 16 7, rfl, by rw [Set.mem_singleton_iff.mp ht]⟩)).mpr
    fun t ht => by
      rw [Set.mem_singleton_iff.mp ht]
      decide

/-- **A type with a number between full stops is enough**: the signature of an event of type
`a.200.b` is accepted, at time 200, for a request of another id, timestamp and body. -/
theorem not_authenticates_dotted_type :
    ¬ ∀ (hmac : Hmac) (secret : Bytes) (signed : Set Signed), Function.Injective (hmac secret) →
      (∀ t ∈ signed, ∃ b, b.length = 16 ∧ t.id = newID b) → Authenticates hmac secret signed := by
  intro hall
  let hmac : Hmac := fun _ m => m
  let t : Signed := ⟨newID (List.replicate 16 7), Time.ofUnix 100,
    ascii "\x7b\"type\":\"a.200.b\",\"data\":[]\x7d"⟩
  let req : Request :=
    { webhookID := newID (List.replicate 16 7) ++ ascii ".100.\x7b\"type\":\"a"
      webhookTimestamp := ascii "200"
      webhookSignature := sign hmac [] t.id t.ts t.body
      body := ascii "b\",\"data\":[]\x7d" }
  have hids : ∀ u ∈ ({t} : Set Signed), ∃ b, b.length = 16 ∧ u.id = newID b := fun u hu =>
    ⟨List.replicate 16 7, rfl, by rw [Set.mem_singleton_iff.mp hu]⟩
  have hissued : Issued hmac [] {t} req := fun entry hentry _ _ =>
    ⟨t, rfl, by rw [fields_sign] at hentry; exact List.mem_singleton.mp hentry⟩
  have hverify : verify hmac [] req (Time.ofUnix 200) = none := by decide +kernel
  obtain ⟨u, hu, hid, _⟩ := hall hmac [] {t} (fun _ _ h => h) hids req (Time.ofUnix 200) hissued hverify
  rw [Set.mem_singleton_iff.mp hu] at hid
  exact absurd hid (by decide)

end LocalPlatform.Sink
