/-
# LocalPlatform.Sink.Agreement — the signer and the verifier agree.

The two share no code.  For the ids relay mints and clocks of this age, the receiver accepts a request of the
sender's shape exactly when the whole second of its timestamp is within the window and one entry of the header
is the sender's own signature (`verify_eq_none_iff`).  So what relay sends is accepted, a second of the
window being lost to the timestamp, and more entries in the header never do harm.
-/
import LocalPlatform.Relay.Delivery.Deliver
import LocalPlatform.Sink.Verify

namespace LocalPlatform.Sink

open Codec Relay Relay.Delivery Subscriptions

/-- The years 1970 to 9999. -/
def Current (t : Time) : Prop := 0 ≤ t.nanos ∧ t.nanos < 253402300800 * 1000000000

instance (t : Time) : Decidable (Current t) := inferInstanceAs (Decidable (_ ∧ _))

/-- The whole second a clock reading is signed with. -/
def wholeSecond (t : Time) : Int := t.unix * 1000000000

/-- A request as it arrives. -/
def received (w : Webhook) : Request := ⟨w.webhookID, w.webhookTimestamp, w.webhookSignature, w.body⟩

theorem parseInt_timestamp {ts : Time} (h : Current ts) : parseInt (timestamp ts) = some ts.unix := by
  obtain ⟨hlo, hhi⟩ := h
  apply parseInt_decInt
  · rw [Time.unix]
    omega
  · rw [Time.unix]
    omega

/-- A difference that saturates is outside the window on the side it saturates to. -/
theorem window_iff (now : Time) (secs : Int) :
    ¬ (toleranceWindow < now.sub (Time.ofUnix secs) ∨ now.sub (Time.ofUnix secs) < -toleranceWindow) ↔
      |now.nanos - secs * 1000000000| ≤ toleranceWindow := by
  rw [abs_le]
  unfold Time.sub Time.ofUnix toleranceWindow
  simp only
  omega

/-- An entry carries the wanted tag exactly when it is the signature of that tag. -/
theorem entryMatches_iff {want entry : Bytes} : entryMatches want entry = true ↔ entry = v1 ++ 0x2c :: want := by
  unfold entryMatches
  constructor
  · intro h
    cases hcut : cut 0x2c entry with
    | none => rw [hcut] at h; cases h
    | some p =>
        obtain ⟨version, encoded⟩ := p
        rw [hcut] at h
        obtain ⟨hversion, hencoded⟩ := Bool.and_eq_true_iff.mp h
        rw [eq_append_of_cut hcut, beq_iff_eq.mp hversion, beq_iff_eq.mp hencoded]
  · rintro rfl
    have hcut : cut 0x2c (v1 ++ 0x2c :: want) = some (v1, want) := cut_append (by decide) want
    rw [hcut]
    simp

/-- **The receiver accepts what the sender would have signed**, and nothing else. -/
theorem verify_eq_none_iff {hmac : Hmac} {secret id body list : Bytes} {ts now : Time} (hid : id ≠ [])
    (hts : Current ts) : verify hmac secret ⟨id, timestamp ts, list, body⟩ now = none ↔
      |now.nanos - wholeSecond ts| ≤ toleranceWindow ∧ sign hmac secret id ts body ∈ fields list := by
  have hparse := parseInt_timestamp hts
  have htimestamp : timestamp ts ≠ [] := decInt_ne_nil _
  unfold verify
  by_cases hlist : list = []
  · subst hlist
    rw [if_pos (Or.inr (Or.inr rfl))]
    exact iff_of_false nofun fun h => absurd (show sign hmac secret id ts body ∈ [] from h.2) List.not_mem_nil
  rw [if_neg (by simp [hid, htimestamp, hlist])]
  simp only [hparse]
  by_cases hwindow : |now.nanos - wholeSecond ts| ≤ toleranceWindow
  · rw [if_neg ((window_iff now ts.unix).mpr hwindow), and_iff_right hwindow]
    -- an entry of the list matches when it is the signature itself
    have hany : (fields list).any (entryMatches (Base64.encode (hmac secret (signedContent id (timestamp ts) body)))) = true ↔
        sign hmac secret id ts body ∈ fields list := by
      rw [List.any_eq_true]
      constructor
      · rintro ⟨entry, hentry, hmatches⟩
        rwa [entryMatches_iff.mp hmatches] at hentry
      · exact fun hentry => ⟨_, hentry, entryMatches_iff.mpr rfl⟩
    by_cases hentry : sign hmac secret id ts body ∈ fields list
    · rw [if_pos (hany.mpr hentry)]
      exact iff_of_true rfl hentry
    · rw [if_neg (mt hany.mp hentry)]
      exact iff_of_false nofun hentry
  · rw [if_pos (not_not.mp (mt (window_iff now ts.unix).mp hwindow))]
    exact iff_of_false nofun fun h => hwindow h.1

/-- Cutting to the second takes less than a second off. -/
theorem wholeSecond_le (t : Time) : wholeSecond t ≤ t.nanos ∧ t.nanos < wholeSecond t + 1000000000 := by
  unfold wholeSecond Time.unix
  omega

/-! ## Agreement -/

/-- The clock reading of an exchange that got as far as a request. -/
def clock : Exchange → Option Time
  | .refused _ => none
  | .failed now _ _ => some now
  | .answered now _ => some now

/-- **Sender and receiver agree** on an id, a body, a signing time, a receiving time and a signature header. -/
structure Agrees (hmac : Hmac) (secret id body list : Bytes) (ts now : Time) : Prop where
  /-- Acceptance, exactly. -/
  accepts : verify hmac secret ⟨id, timestamp ts, list, body⟩ now = none ↔
    |now.nanos - wholeSecond ts| ≤ toleranceWindow ∧ sign hmac secret id ts body ∈ fields list
  /-- What an attempt sends is accepted by a clock that is a second closer than the window. -/
  relay : ∀ (rt : Runtime) (sub sub' : Subscription) (rec : Record) (ex : Exchange) (w : Webhook),
    rt.hmac = hmac → sub.secret = secret → rec.id = id → clock ex = some ts →
    .requested sub' w ∈ (attempt rt sub rec body ex).2 → |now.nanos - ts.nanos| ≤ toleranceWindow - 1000000000 →
    verify hmac secret (received w) now = none
  /-- A header with more entries is accepted where one with fewer is. -/
  more : ∀ list', (∀ entry ∈ fields list, entry ∈ fields list') →
    verify hmac secret ⟨id, timestamp ts, list, body⟩ now = none →
    verify hmac secret ⟨id, timestamp ts, list', body⟩ now = none
  /-- Entries may be added on either side of the header. -/
  added : ∀ others, verify hmac secret ⟨id, timestamp ts, list, body⟩ now = none →
    verify hmac secret ⟨id, timestamp ts, list ++ 0x20 :: others, body⟩ now = none ∧
      verify hmac secret ⟨id, timestamp ts, others ++ 0x20 :: list, body⟩ now = none

/-- What an attempt sends is the webhook of its clock reading. -/
theorem webhook_of_requested {rt : Runtime} {sub sub' : Subscription} {rec : Record} {body : Bytes} {ex : Exchange}
    {w : Webhook} {ts : Time} (hclock : clock ex = some ts) (h : .requested sub' w ∈ (attempt rt sub rec body ex).2) :
    w = webhook rt sub rec body ts := by
  cases ex with
  | refused e => cases hclock
  | failed now url e =>
      obtain rfl := Option.some.inj hclock
      injection List.mem_singleton.mp h
  | answered now status =>
      obtain rfl := Option.some.inj hclock
      rcases List.mem_cons.mp h with heq | hrest
      · injection heq
      · exact absurd (List.mem_singleton.mp hrest) nofun

/-- **Two independent signers agree.** -/
theorem agrees {hmac : Hmac} {secret id body list : Bytes} {ts now : Time}
    (hid : ∃ b, b.length = 16 ∧ id = newID b) (hts : Current ts) : Agrees hmac secret id body list ts now := by
  have hne : id ≠ [] := by
    obtain ⟨b, _, rfl⟩ := hid
    exact newID_ne_nil b
  -- an entry that is added to the list takes no match away
  have hmore : ∀ list', (∀ entry ∈ fields list, entry ∈ fields list') →
      verify hmac secret ⟨id, timestamp ts, list, body⟩ now = none →
      verify hmac secret ⟨id, timestamp ts, list', body⟩ now = none := by
    intro list' hsub h
    obtain ⟨hwindow, hentry⟩ := (verify_eq_none_iff hne hts).mp h
    exact (verify_eq_none_iff hne hts).mpr ⟨hwindow, hsub _ hentry⟩
  refine ⟨verify_eq_none_iff hne hts, ?_, hmore, fun others h => ⟨hmore _ ?_ h, hmore _ ?_ h⟩⟩
  · rintro rt sub sub' rec ex w rfl rfl rfl hclock hsent hclose
    rw [webhook_of_requested hclock hsent]
    show verify rt.hmac sub.secret ⟨rec.id, timestamp ts, sign rt.hmac sub.secret rec.id ts body, body⟩ now = none
    rw [verify_eq_none_iff hne hts, fields_sign]
    refine ⟨?_, List.mem_singleton_self _⟩
    -- the timestamp is cut to a second, which costs less than one second of the window
    have hsecond := wholeSecond_le ts
    rw [abs_le] at hclose ⊢
    omega
  · rw [fields_append_space]
    exact fun entry hentry => List.mem_append_left _ hentry
  · rw [fields_append_space]
    exact fun entry hentry => List.mem_append_right _ hentry

/-- A header with a stale signature in front, received nearly five minutes later. -/
theorem agrees_rotated : Agrees (fun _ m => m.take 3) (ascii "s") (newID (List.replicate 16 7)) (ascii "\x7b\x7d")
    (ascii "v1,c3RhbGU= v1,ZXZ0") ⟨1700000000500000000, 0⟩ ⟨1700000300000000000, 0⟩ :=
  agrees ⟨List.replicate 16 7, rfl, rfl⟩ (by decide)

end LocalPlatform.Sink
