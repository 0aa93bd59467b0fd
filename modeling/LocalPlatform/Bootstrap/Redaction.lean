/-
# LocalPlatform.Bootstrap.Redaction — what may leave the bootstrap of the logs of its job.

`redacted` keeps three lines of the logs and no others, and then replaces every form of every credential in what it kept.
The forms of a credential come out of a map, in any order; a replacement could in principle put together what an earlier
one had taken apart.  It cannot for a form without brackets (`notInfix_redacted`), and whatever is in the result comes from
one of the three lines or is the mark (`infix_of_redacted`).
-/
import LocalPlatform.Bootstrap.Representations
import LocalPlatform.Codec.Replace

namespace LocalPlatform.Bootstrap

open Codec Codec.Json

/-- `strings.Split(s, "\n")`: one line more than there are line ends. -/
def lines : Bytes → List Bytes
  | [] => [[]]
  | c :: cs =>
    if c = 0x0a then [] :: lines cs
    else match lines cs with
      | line :: rest => (c :: line) :: rest
      | [] => [[c]]

/-- The success records of the job. -/
def successLines : List Bytes :=
  [ascii "topic mlp.relay.deliveries partitions=12 ready", ascii "topic mlp.relay.deliveries.dlq partitions=1 ready",
    ascii "relay database ready active_subscriptions=19"]

/-- The lines that are kept. -/
def allowed (value : Bytes) : Bytes := ((lines value).filter fun line => successLines.contains line).flatMap (· ++ [0x0a])

/-- What stands for a credential. -/
def redaction : Bytes := ascii "[REDACTED]"

/-- The forms of one credential replaced, in the order the map gives them in. -/
def redactSecret (text : Bytes) (secret : Bytes × List Form) : Bytes :=
  if secret.1 = [] then text else secret.2.foldl (fun text form => replaceAll text (form.text secret.1) redaction) text

/-- **`redacted(value, sensitive...)`** -/
def redacted (value : Bytes) (sensitive : List (Bytes × List Form)) : Bytes := sensitive.foldl redactSecret (allowed value)

/-- A text without brackets. -/
def Unbracketed (w : Bytes) : Prop := 0x5b ∉ w ∧ 0x5d ∉ w

theorem redaction_eq : redaction = 0x5b :: ascii "REDACTED" ++ [0x5d] := by decide

theorem text_ne_nil {form : Form} {secret : Bytes} (h : secret ≠ []) : form.text secret ≠ [] := by
  intro hempty
  have hlen := (length_text form secret).1
  rw [hempty, List.length_nil, Nat.le_zero, List.length_eq_zero_iff] at hlen
  exact h hlen

/-! ## Brackets -/

/-- The two brackets. -/
def brackets : Bytes := [0x5b, 0x5d]

theorem notMem_hexDigit : ∀ d ∈ brackets, ∀ n < 16, d ≠ hexDigit n := by decide +kernel

/-- No bracket is a letter of an escape or an octet of `U+FFFD`, and all are escaped in a URL. -/
theorem escaped_brackets : ∀ d ∈ brackets, (d ≠ 0x5c ∧ d ≠ 0x75 ∧ d ≠ 0x32 ∧ d ≠ 0x30 ∧ d ∉ replacement.bytes) ∧
    (d ≠ 0x25 ∧ d ≠ 0x2b ∧ hexVal d = none) ∧ Escape.shouldEscape d .userPassword = true ∧
    Escape.shouldEscape d .queryComponent = true := by decide +kernel

theorem mem_quoteRune_one : ∀ d ∈ brackets, ∀ n < 256, d ∈ quoteRune (.one (UInt8.ofNat n)) → d = UInt8.ofNat n := by decide +kernel

theorem notMem_units {d : UInt8} (hd : d ∈ brackets) (ns : List Nat) : d ∉ ns.flatMap unit4 := by
  intro h
  obtain ⟨n, -, h⟩ := List.mem_flatMap.mp h
  simp [unit4, (escaped_brackets d hd).1, notMem_hexDigit d hd _ (Nat.mod_lt _ (by decide : 0 < 16))] at h

/-- A bracket in what is written for a rune is in the rune. -/
theorem mem_quoteRune {d : UInt8} (hd : d ∈ brackets) {r : Rune} (h : d ∈ quoteRune r) : d ∈ r.bytes := by
  cases r with
  | one c =>
    have hone := mem_quoteRune_one d hd c.toNat c.toNat_lt
    rw [UInt8.ofNat_toNat] at hone
    exact List.mem_singleton.mpr (hone h)
  | two a b => exact h
  | three a b c =>
    rw [quoteRune] at h
    split at h
    · simp [(escaped_brackets d hd).1, notMem_hexDigit d hd _ (Nat.mod_lt _ (by decide : 0 < 16))] at h
    · exact h
  | four a b c d => exact h
  | bad a =>
    exact absurd h (escaped_brackets d hd).1.2.2.2.2

theorem mem_asciiRune {d : UInt8} (hd : d ∈ brackets) {r : Rune} (h : d ∈ asciiRune r) : d ∈ r.bytes := by
  unfold asciiRune at h
  split at h
  · exact absurd h (notMem_units hd _)
  · split at h
    · split at h
      · exact h
      · exact mem_quoteRune hd h
    · exact mem_quoteRune hd h

theorem mem_of_mem_runes {d : UInt8} {f : Rune → Bytes} (hf : ∀ r, d ∈ f r → d ∈ r.bytes) {s : Bytes} (h : d ∈ (runes s).flatMap f) :
    d ∈ s := by
  obtain ⟨r, hr, h⟩ := List.mem_flatMap.mp h
  rw [← flatMap_bytes_runes s]
  exact List.mem_flatMap.mpr ⟨r, hr, hf r h⟩

theorem notMem_base64 : ∀ d ∈ brackets, (∀ n < 64, d ≠ Base64.letter n ∧ d ≠ Base64.urlLetter (Base64.letter n)) ∧
    d ≠ Base64.pad ∧ d ≠ Base64.urlLetter Base64.pad := by
  decide +kernel

/-- The forms in which every octet but a few is written otherwise. -/
def Form.encodes : Form → Bool
  | .userinfo | .urlQuery | .base64 | .base64url => true
  | .raw | .jsonGo | .jsonAscii => false

/-- **A bracket in a form is one of the credential's**, and in four of the forms there is none. -/
theorem mem_of_mem_text {d : UInt8} (hd : d ∈ brackets) {form : Form} {value : Bytes} (h : d ∈ form.text value) :
    form.encodes = false ∧ d ∈ value := by
  have hescaped := (escaped_brackets d hd).2
  obtain ⟨hpercent, hplus, hhex⟩ := hescaped.1
  cases form with
  | raw => exact ⟨rfl, h⟩
  | jsonGo => exact ⟨rfl, mem_of_mem_runes (fun _ => mem_quoteRune hd) h⟩
  | jsonAscii => exact ⟨rfl, mem_of_mem_runes (fun _ => mem_asciiRune hd) h⟩
  | userinfo =>
    rw [Form.text, encodedPassword_eq] at h
    exact absurd h (Escape.notMem_escape hescaped.2.1 hpercent hplus hhex value)
  | urlQuery => exact absurd h (Escape.notMem_escape hescaped.2.2 hpercent hplus hhex value)
  | base64 =>
    exact absurd rfl (@Base64.of_mem_encode (fun c => d ≠ c) (fun n hn => ((notMem_base64 d hd).1 n hn).1)
      (notMem_base64 d hd).2.1 _ _ h)
  | base64url =>
    obtain ⟨c, hc, heq⟩ := List.mem_map.mp h
    exact absurd heq.symm (@Base64.of_mem_encode (fun c => d ≠ Base64.urlLetter c) (fun n hn => ((notMem_base64 d hd).1 n hn).2)
      (notMem_base64 d hd).2.2 _ _ (List.mem_filter.mp hc).1)

theorem unbracketed_text {form : Form} {value : Bytes} (h : form.encodes = true ∨ Unbracketed value) : Unbracketed (form.text value) := by
  have hplain : ∀ d ∈ brackets, d ∉ form.text value := by
    intro d hd hmem
    obtain ⟨hform, hvalue⟩ := mem_of_mem_text hd hmem
    rcases h with h | h
    · exact absurd (hform.symm.trans h) (by decide)
    · rcases List.mem_cons.mp hd with rfl | hd
      · exact h.1 hvalue
      · exact h.2 (List.mem_singleton.mp hd ▸ hvalue)
  exact ⟨hplain 0x5b (by decide), hplain 0x5d (by decide)⟩

/-! ## Nothing new -/

theorem infix_of_redactSecret {w text : Bytes} (hw : Unbracketed w) {secret : Bytes × List Form}
    (h : w <:+: redactSecret text secret) : w <:+: text ∨ w <:+: ascii "REDACTED" := by
  unfold redactSecret at h
  split at h
  · exact .inl h
  · next hsecret =>
    generalize secret.2 = forms at h
    induction forms generalizing text with
    | nil => exact .inl h
    | cons form forms ih =>
      rcases ih h with h | h
      · rw [redaction_eq] at h
        exact infix_of_replaceAll (text_ne_nil hsecret) hw.1 hw.2 h
      · exact .inr h

/-- **Whatever leaves was one of the lines**, or is the mark. -/
theorem infix_of_redacted {w value : Bytes} (hw : Unbracketed w) {sensitive : List (Bytes × List Form)}
    (h : w <:+: redacted value sensitive) : w <:+: allowed value ∨ w <:+: ascii "REDACTED" := by
  unfold redacted at h
  generalize allowed value = text at h ⊢
  induction sensitive generalizing text with
  | nil => exact .inl h
  | cons secret sensitive ih =>
    rcases ih (redactSecret text secret) h with h | h
    · exact infix_of_redactSecret hw h
    · exact .inr h

/-! ## Nothing of a credential -/

theorem not_infix_of_long {w inner : Bytes} (h : inner.length < w.length) : ¬ w <:+: inner := fun hoccurs =>
  absurd hoccurs.length_le (Nat.not_le_of_lt h)

/-- A text that is not there is not put together by the credentials that follow. -/
theorem notInfix_redactSecret {w text : Bytes} (hw : Unbracketed w) (hlong : 8 < w.length) (h : ¬ w <:+: text)
    (secret : Bytes × List Form) : ¬ w <:+: redactSecret text secret := fun hoccurs =>
  (infix_of_redactSecret hw hoccurs).elim h (not_infix_of_long hlong)

/-- The forms of a credential are gone when it was redacted. -/
theorem notInfix_of_mem_forms {secret : Bytes} {forms : List Form} {form : Form} (hform : form ∈ forms)
    (hw : Unbracketed (form.text secret)) (hlong : 8 < secret.length) (text : Bytes) :
    ¬ form.text secret <:+: redactSecret text (secret, forms) := by
  have hsecret : secret ≠ [] := by
    rintro rfl
    cases hlong
  have hwide : (ascii "REDACTED").length < (form.text secret).length := Nat.lt_of_lt_of_le hlong (length_text form secret).1
  unfold redactSecret
  rw [if_neg hsecret]
  induction forms generalizing text with
  | nil => cases hform
  | cons f forms ih =>
    rcases List.mem_cons.mp hform with rfl | hform
    · have hgone : ¬ form.text secret <:+: replaceAll text (form.text secret) redaction := by
        rw [redaction_eq]
        exact notInfix_replaceAll hw.1 hw.2 (not_infix_of_long hwide) text
      -- the forms behind it do not bring it back
      have hrest := notInfix_redactSecret hw hwide hgone (secret, forms)
      unfold redactSecret at hrest
      rwa [if_neg hsecret] at hrest
    · exact ih hform _

/-- **No form of a credential leaves**, in whatever order the credentials and their forms are replaced. -/
theorem notInfix_redacted {sensitive : List (Bytes × List Form)} (horder : ∀ secret ∈ sensitive, ∀ form, form ∈ secret.2)
    {secret : Bytes × List Form} (hmem : secret ∈ sensitive) (hlong : 8 < secret.1.length) {form : Form}
    (hw : Unbracketed (form.text secret.1)) (value : Bytes) : ¬ form.text secret.1 <:+: redacted value sensitive := by
  have hwide : (ascii "REDACTED").length < (form.text secret.1).length := Nat.lt_of_lt_of_le hlong (length_text form secret.1).1
  unfold redacted
  generalize allowed value = text
  induction sensitive generalizing text with
  | nil => cases hmem
  | cons first sensitive ih =>
    rw [List.foldl_cons]
    rcases List.mem_cons.mp hmem with rfl | hmem
    · have hgone := notInfix_of_mem_forms (horder _ List.mem_cons_self form) hw hlong text
      -- nor do the credentials behind it
      clear ih horder hmem
      generalize redactSecret text secret = text at hgone
      induction sensitive generalizing text with
      | nil => exact hgone
      | cons next sensitive ih => exact ih _ (notInfix_redactSecret hw hwide hgone next)
    · exact ih (fun s hs => horder s (List.mem_cons_of_mem first hs)) hmem _

/-- A log line with the credential in it is not kept, and what is kept holds no form of it. -/
example :
    ¬ Form.base64url.text (ascii "signing-secret-0") <:+:
      redacted (ascii "signing-secret-0\nrelay database ready active_subscriptions=19\n") [(ascii "signing-secret-0", Form.all)] :=
  notInfix_redacted (by intro s hs form; obtain rfl := List.mem_singleton.mp hs; exact Form.mem_all form)
    (List.mem_singleton_self (ascii "signing-secret-0", Form.all))
    (by decide) (by unfold Unbracketed; decide) _

end LocalPlatform.Bootstrap
