/-
# LocalPlatform.Bootstrap.Representations — the forms a credential may leak in.

`secretRepresentations` writes a credential in seven forms; a receipt keeps the length and the digest of each.  Whatever
the octets of the credential, none of the forms is shorter than it is and none more than six times as long, so the forms
of a credential of 16 to 4096 octets have the lengths the evidence script takes (`recordable_representations`).

One of the forms is a second writing of what Python's `json.dumps` does with a text; on well-formed text the two agree
(`jsonAscii_eq_dumps`).
-/
import LocalPlatform.Codec.Escape
import LocalPlatform.Codec.Json.Quote
import LocalPlatform.Python.Files
import LocalPlatform.Python.Json

namespace LocalPlatform.Bootstrap

open Codec Codec.Json Python

/-- `\u%04x` -/
def unit4 (n : Nat) : Bytes :=
  [0x5c, 0x75, hexDigit (n / 4096 % 16), hexDigit (n / 256 % 16), hexDigit (n / 16 % 16), hexDigit (n % 16)]

/-- `utf16.Encode` of one rune. -/
def utf16 (n : Nat) : List Nat :=
  if n < 0x10000 then [n] else [0xd800 + (n - 0x10000) / 0x400, 0xdc00 + (n - 0x10000) % 0x400]

/-- What `secretRepresentations` writes for one rune of its ASCII form. -/
def asciiRune (r : Rune) : Bytes :=
  if 127 ≤ codePoint r then (utf16 (codePoint r)).flatMap unit4
  else match r with
    | .one c => if isHtml c = true then [c] else quoteRune (.one c)
    | r => quoteRune r

/-- The inside of a JSON string, all ASCII and without the escapes for HTML. -/
def jsonAscii (value : Bytes) : Bytes := (runes value).flatMap asciiRune

/-- `encodedPassword`: what stands behind the first colon of the user information. -/
def encodedPassword (password : Bytes) : Bytes :=
  match cut 0x3a (Escape.userPassword (ascii "user") password) with
  | some (_, encoded) => encoded
  | none => []

/-- The forms, each under its name. -/
inductive Form where
  | raw
  | jsonGo
  | jsonAscii
  | userinfo
  | urlQuery
  | base64
  | base64url
  deriving DecidableEq

namespace Form

def all : List Form := [.raw, .jsonGo, .jsonAscii, .userinfo, .urlQuery, .base64, .base64url]

def name : Form → Bytes
  | .raw => Codec.ascii "raw"
  | .jsonGo => Codec.ascii "json-go"
  | .jsonAscii => Codec.ascii "json-ascii"
  | .userinfo => Codec.ascii "userinfo"
  | .urlQuery => Codec.ascii "url-query"
  | .base64 => Codec.ascii "base64"
  | .base64url => Codec.ascii "base64url"

/-- The text of a credential in the form. -/
def text : Form → Bytes → Bytes
  | .raw, value => value
  | .jsonGo, value => quoteBody value
  | .jsonAscii, value => Bootstrap.jsonAscii value
  | .userinfo, value => encodedPassword value
  | .urlQuery, value => Escape.queryEscape value
  | .base64, value => Base64.encode value
  | .base64url, value => Base64.encodeRawURL value

theorem mem_all (form : Form) : form ∈ all := by cases form <;> decide

end Form

/-- **`secretRepresentations`**, a map of which the order is any. -/
def secretRepresentations (value : Bytes) : List (Form × Bytes) := Form.all.map fun form => (form, form.text value)

/-! ## How long they are -/

/-- The user information of the user is cut at its only colon. -/
theorem encodedPassword_eq (password : Bytes) : encodedPassword password = Escape.escape password .userPassword := by
  have huser : Escape.escape (ascii "user") .userPassword = ascii "user" := by decide
  unfold encodedPassword Escape.userPassword
  rw [huser, cut_append (by decide)]

theorem length_bytes (s : Bytes) : s.length = ((runes s).map fun r => r.bytes.length).sum := by
  conv_lhs => rw [← flatMap_bytes_runes s]
  rw [List.length_flatMap]

/-- Texts written rune by rune, between the width of each rune and six times that. -/
theorem length_flatMap_runes {f : Rune → Bytes} (hf : ∀ r, r.bytes.length ≤ (f r).length ∧ (f r).length ≤ 6 * r.bytes.length)
    (s : Bytes) : s.length ≤ ((runes s).flatMap f).length ∧ ((runes s).flatMap f).length ≤ 6 * s.length := by
  rw [length_bytes s]
  induction runes s with
  | nil => exact ⟨le_refl 0, le_refl 0⟩
  | cons r rs ih =>
    have hr := hf r
    rw [List.map_cons, List.sum_cons, List.flatMap_cons, List.length_append]
    omega

theorem width_quoteRune (r : Rune) : r.bytes.length ≤ (quoteRune r).length ∧ (quoteRune r).length ≤ 6 * r.bytes.length := by
  rw [length_quoteRune]
  cases r with
  | one c =>
    simp only [Rune.bytes, List.length_singleton, quoteCost]
    split
    · exact ⟨by decide, by decide⟩
    · split <;> exact ⟨by decide, by decide⟩
  | two a b => exact ⟨Nat.le_refl 2, by simp [quoteCost, Rune.bytes]⟩
  | three a b c =>
    simp only [Rune.bytes, List.length_cons, List.length_nil, quoteCost]
    split <;> exact ⟨by decide, by decide⟩
  | four a b c d => exact ⟨Nat.le_refl 4, by simp [quoteCost, Rune.bytes]⟩
  | bad a => exact ⟨by simp [quoteCost, Rune.bytes], by simp [quoteCost, Rune.bytes]⟩

theorem length_units (n : Nat) : ((utf16 n).flatMap unit4).length = if n < 0x10000 then 6 else 12 := by
  unfold utf16
  split
  · simp [unit4]
  · simp [unit4]

/-- A rune of up to three octets has one code unit, a rune of four has two. -/
theorem length_units_le (r : Rune) : ((utf16 (codePoint r)).flatMap unit4).length ≤ 6 * r.bytes.length := by
  rw [length_units]
  cases r with
  | one a =>
    have ha : codePoint (.one a) < 0x10000 := Nat.lt_of_lt_of_le a.toNat_lt (by norm_num)
    rw [if_pos ha]
    exact Nat.le_of_eq (Nat.mul_one 6).symm
  | bad a =>
    have ha : codePoint (.bad a) < 0x10000 := by
      show (0xfffd : Nat) < 0x10000
      norm_num
    rw [if_pos ha]
    exact Nat.le_of_eq (Nat.mul_one 6).symm
  | two a b => split <;> exact (by simp [Rune.bytes])
  | three a b c => split <;> exact (by simp [Rune.bytes])
  | four a b c d => split <;> exact (by simp [Rune.bytes])

theorem width_asciiRune (r : Rune) :
    r.bytes.length ≤ (asciiRune r).length ∧ (asciiRune r).length ≤ 6 * r.bytes.length := by
  unfold asciiRune
  split
  · refine ⟨?_, length_units_le r⟩
    have hunits : 6 ≤ ((utf16 (codePoint r)).flatMap unit4).length := by
      rw [length_units]
      split <;> decide
    have hbytes : r.bytes.length ≤ 6 := by cases r <;> simp [Rune.bytes]
    exact hbytes.trans hunits
  · split
    · split
      · exact ⟨Nat.le_refl 1, by simp [Rune.bytes]⟩
      · exact width_quoteRune _
    · exact width_quoteRune _

/-- **No form is shorter than the credential, and none more than six times as long.** -/
theorem length_text (form : Form) (value : Bytes) :
    value.length ≤ (form.text value).length ∧ (form.text value).length ≤ 6 * value.length := by
  cases form with
  | raw => exact ⟨Nat.le_refl _, Nat.le_mul_of_pos_left _ (by decide)⟩
  | jsonGo => exact length_flatMap_runes width_quoteRune value
  | jsonAscii => exact length_flatMap_runes width_asciiRune value
  | userinfo =>
    have h := Escape.length_escape value .userPassword
    simp only [Form.text, encodedPassword_eq]
    omega
  | urlQuery =>
    have h := Escape.length_escape value .queryComponent
    simp only [Form.text, Escape.queryEscape]
    omega
  | base64 =>
    simp only [Form.text, Base64.length_encode]
    omega
  | base64url =>
    simp only [Form.text, Base64.length_encodeRawURL]
    omega

/-- What `record` takes has forms of the lengths the evidence script takes. -/
theorem recordable_representations {value : Bytes} (h : 16 ≤ value.length ∧ value.length ≤ 4096) (form : Form) :
    16 ≤ (form.text value).length ∧ (form.text value).length ≤ 24576 := by
  have hlen := length_text form value
  omega

/-! ## The ASCII form and `json.dumps` -/

theorem map_unit4 (n : Nat) : (unit4 n).map UInt8.toNat = Python.Json.unitEscape n := by
  have hdigit : ∀ k, (hexDigit (k % 16)).toNat = Value.hexDigit (k % 16) := by
    intro k
    have hlt := Nat.mod_lt k (by decide : 0 < 16)
    generalize k % 16 = j at hlt ⊢
    interval_cases j <;> rfl
  have hunit : Python.Json.unitEscape n =
      [0x5c, 0x75, Value.hexDigit (n / 4096 % 16), Value.hexDigit (n / 256 % 16), Value.hexDigit (n / 16 % 16), Value.hexDigit (n % 16)] := by
    simp [Python.Json.unitEscape, Value.hexOf, lit, List.range_succ]
  rw [hunit, unit4]
  simp only [List.map_cons, List.map_nil, hdigit]
  rfl

/-- An ASCII rune but the last is written by its own escape, or as it is. -/
theorem map_asciiRune_one : ∀ n < 127, (asciiRune (.one (UInt8.ofNat n))).map UInt8.toNat = Python.Json.escape n := by
  decide +kernel

/-- A rune past the printable ones is written by its code units. -/
theorem map_asciiRune_high {r : Rune} (h : 127 ≤ codePoint r) :
    (asciiRune r).map UInt8.toNat = Python.Json.escape (codePoint r) := by
  unfold asciiRune
  rw [if_pos h]
  generalize codePoint r = n at h ⊢
  have hletters : ¬ (n = 0x22) ∧ ¬ (n = 0x5c) ∧ ¬ (n = 0x0a) ∧ ¬ (n = 0x0d) ∧ ¬ (n = 0x09) ∧ ¬ (n = 0x0c) ∧ ¬ (n = 0x08) ∧
      ¬ (0x20 ≤ n ∧ n ≤ 0x7e) := by omega
  unfold Python.Json.escape utf16
  simp only [hletters, if_false]
  split
  · simp only [List.flatMap_cons, List.flatMap_nil, List.append_nil, map_unit4]
  · simp only [List.flatMap_cons, List.flatMap_nil, List.append_nil, List.map_append, map_unit4]

/-- A rune of more than one octet is past ASCII. -/
theorem high_of_wellFormed {r : Rune} (h : r.wellFormed = true) (hone : ∀ a, r ≠ .one a) : 127 ≤ codePoint r := by
  cases r with
  | one a => exact absurd rfl (hone a)
  | bad a => exact absurd h (by simp [Rune.wellFormed])
  | two a b =>
    have hab : Rune.isTwo a b = true := h
    simp only [Rune.isTwo, Bool.and_eq_true, decide_eq_true_eq, UInt8.le_iff_toNat_le] at hab
    have ha : 0xC2 ≤ a.toNat := hab.1.1
    show 127 ≤ (a.toNat - 0xc0) * 64 + (b.toNat - 0x80)
    omega
  | three a b c =>
    have habc : Rune.isThree a b c = true := h
    simp only [Rune.isThree, Bool.and_eq_true, Bool.or_eq_true, decide_eq_true_eq, beq_iff_eq, UInt8.le_iff_toNat_le] at habc
    show 127 ≤ (a.toNat - 0xe0) * 4096 + (b.toNat - 0x80) * 64 + (c.toNat - 0x80)
    -- the first of the lead octets leaves only its upper half to the second octet
    rcases habc.2 with ((⟨⟨-, hb⟩, -⟩ | ⟨⟨ha, -⟩, -⟩) | ⟨⟨rfl, -⟩, -⟩) | ⟨⟨ha, -⟩, -⟩
    · have hb : 0xA0 ≤ b.toNat := hb
      omega
    · have ha : 0xE1 ≤ a.toNat := ha
      omega
    · have ha : (0xED : UInt8).toNat = 237 := rfl
      omega
    · have ha : 0xEE ≤ a.toNat := ha
      omega
  | four a b c d =>
    have habcd : Rune.isFour a b c d = true := h
    simp only [Rune.isFour, Bool.and_eq_true, Bool.or_eq_true, decide_eq_true_eq, beq_iff_eq, UInt8.le_iff_toNat_le] at habcd
    show 127 ≤ (a.toNat - 0xf0) * 262144 + (b.toNat - 0x80) * 4096 + (c.toNat - 0x80) * 64 + (d.toNat - 0x80)
    rcases habcd.2 with (⟨⟨-, hb⟩, -⟩ | ⟨⟨ha, -⟩, -⟩) | ⟨⟨rfl, -⟩, -⟩
    · have hb : 0x90 ≤ b.toNat := hb
      omega
    · have ha : 0xF1 ≤ a.toNat := ha
      omega
    · have ha : (0xF4 : UInt8).toNat = 244 := rfl
      omega

theorem map_asciiRune {r : Rune} (h : r.wellFormed = true) : (asciiRune r).map UInt8.toNat = Python.Json.escape (codePoint r) := by
  by_cases hhigh : 127 ≤ codePoint r
  · exact map_asciiRune_high hhigh
  · cases r with
    | one a =>
      have hlt : a.toNat < 127 := Nat.lt_of_not_le hhigh
      have hmap := map_asciiRune_one a.toNat hlt
      rwa [UInt8.ofNat_toNat] at hmap
    | _ => exact absurd (high_of_wellFormed h (by simp)) hhigh

/-- **On well-formed text the ASCII form is the inside of what `json.dumps` writes for the text.** -/
theorem jsonAscii_eq_dumps {value : Bytes} {s : Str} (h : decode value = .ok s) :
    Python.Json.dumps (.str s) = [0x22] ++ (jsonAscii value).map UInt8.toNat ++ [0x22] := by
  have hvalid : validUtf8 value = true := by
    by_contra hbad
    rw [decode, if_neg hbad] at h
    cases h
  rw [decode, if_pos hvalid] at h
  obtain rfl := Except.ok.inj h
  have hrunes : ∀ r ∈ runes value, (asciiRune r).map UInt8.toNat = Python.Json.escape (codePoint r) := fun r hr =>
    map_asciiRune (List.all_eq_true.mp hvalid r hr)
  have hbody : (jsonAscii value).map UInt8.toNat = ((runes value).map codePoint).flatMap Python.Json.escape := by
    rw [jsonAscii, List.map_flatMap, List.flatMap_map]
    exact List.flatMap_congr hrunes
  rw [hbody]
  rfl

/-- A letter with an accent. -/
theorem jsonAscii_eq_dumps_accent :
    Python.Json.dumps (.str [0xe9]) = [0x22] ++ (jsonAscii [0xc3, 0xa9]).map UInt8.toNat ++ [0x22] := jsonAscii_eq_dumps (by decide)

end LocalPlatform.Bootstrap
