/-
# LocalPlatform.Codec.Base64 — `base64.StdEncoding`.

Three octets are written as four letters of the standard alphabet, a last group of one or two octets
with padding.  The reader is the inverse on what the writer produces (`decode_encode`), so the writer
is injective: two tags with one encoding are one tag.  No letter is a separator of the texts an
encoded value is put into.
-/
import LocalPlatform.Codec.Bytes

namespace LocalPlatform.Codec.Base64

/-- The letter of a sextet. -/
def letter (n : Nat) : UInt8 :=
  if n < 26 then UInt8.ofNat (65 + n)
  else if n < 52 then UInt8.ofNat (71 + n)
  else if n < 62 then UInt8.ofNat (n - 4)
  else if n = 62 then 0x2b
  else 0x2f

def pad : UInt8 := 0x3d

/-- The sextet of a letter. -/
def sextet (c : UInt8) : Option Nat :=
  if 65 ≤ c ∧ c ≤ 90 then some (c.toNat - 65)
  else if 97 ≤ c ∧ c ≤ 122 then some (c.toNat - 71)
  else if 48 ≤ c ∧ c ≤ 57 then some (c.toNat + 4)
  else if c = 0x2b then some 62
  else if c = 0x2f then some 63
  else none

/-- **`encode bs`** — `base64.StdEncoding.EncodeToString`. -/
def encode : Bytes → Bytes
  | [] => []
  | [a] => [letter (a.toNat / 4), letter (a.toNat % 4 * 16), pad, pad]
  | [a, b] =>
    [letter (a.toNat / 4), letter (a.toNat % 4 * 16 + b.toNat / 16), letter (b.toNat % 16 * 4), pad]
  | a :: b :: c :: rest =>
    letter (a.toNat / 4) :: letter (a.toNat % 4 * 16 + b.toNat / 16) ::
      letter (b.toNat % 16 * 4 + c.toNat / 64) :: letter (c.toNat % 64) :: encode rest

/-- **`decode cs`** — the octets of a padded text; `none` for a letter outside the alphabet or a group
that is not whole. -/
def decode : Bytes → Option Bytes
  | [] => some []
  | w :: x :: y :: z :: rest =>
    match sextet w, sextet x with
    | some i, some j =>
      if y = pad then
        if z = pad ∧ rest = [] then some [UInt8.ofNat (i * 4 + j / 16)] else none
      else match sextet y with
        | none => none
        | some k =>
          if z = pad then
            if rest = [] then
              some [UInt8.ofNat (i * 4 + j / 16), UInt8.ofNat (j % 16 * 16 + k / 4)]
            else none
          else match sextet z with
            | none => none
            | some l =>
              (decode rest).map fun bs =>
                UInt8.ofNat (i * 4 + j / 16) :: UInt8.ofNat (j % 16 * 16 + k / 4) ::
                  UInt8.ofNat (k % 4 * 64 + l) :: bs
    | _, _ => none
  | _ => none

theorem sextet_letter {n : Nat} (h : n < 64) : sextet (letter n) = some n := by
  interval_cases n <;> rfl

theorem letter_ne_pad {n : Nat} (h : n < 64) : letter n ≠ pad := by
  interval_cases n <;> decide

/-- An octet is put together again from the two parts its sextets carry. -/
theorem ofNat_parts {a : UInt8} {n : Nat} (h : n = a.toNat) : UInt8.ofNat n = a := by
  rw [h, UInt8.ofNat_toNat]

/-- **Decoding undoes encoding.** -/
theorem decode_encode (bs : Bytes) : decode (encode bs) = some bs := by
  induction bs using encode.induct with
  | case1 => rfl
  | case2 a =>
      have ha := a.toNat_lt
      rw [encode, decode, sextet_letter (by omega), sextet_letter (by omega)]
      simp only [if_true, and_self]
      rw [ofNat_parts (a := a) (by omega)]
  | case3 a b =>
      have ha := a.toNat_lt
      have hb := b.toNat_lt
      rw [encode, decode, sextet_letter (by omega), sextet_letter (by omega)]
      simp only [letter_ne_pad (show b.toNat % 16 * 4 < 64 by omega),
        sextet_letter (show b.toNat % 16 * 4 < 64 by omega), if_true, if_false]
      rw [ofNat_parts (a := a) (by omega), ofNat_parts (a := b) (by omega)]
  | case4 a b c rest ih =>
      have ha := a.toNat_lt
      have hb := b.toNat_lt
      have hc := c.toNat_lt
      have hy : b.toNat % 16 * 4 + c.toNat / 64 < 64 := by omega
      have hz : c.toNat % 64 < 64 := by omega
      rw [encode, decode, sextet_letter (by omega), sextet_letter (by omega)]
      simp only [letter_ne_pad hy, sextet_letter hy, letter_ne_pad hz, sextet_letter hz, if_false, ih,
        Option.map_some]
      rw [ofNat_parts (a := a) (by omega), ofNat_parts (a := b) (by omega),
        ofNat_parts (a := c) (by omega)]

/-- **One encoding, one text.** -/
theorem encode_injective : Function.Injective encode := by
  intro a b h
  have hdec := congrArg decode h
  rw [decode_encode, decode_encode] at hdec
  exact Option.some.inj hdec

/-- Every letter written is a graphic ASCII octet, and no comma. -/
theorem letter_graphic {n : Nat} (h : n < 64) :
    0x21 ≤ letter n ∧ letter n < 0x80 ∧ letter n ≠ 0x2c := by
  interval_cases n <;> decide

/-- **An encoded text is made of letters**, with padding behind them. -/
theorem of_mem_encode {P : UInt8 → Prop} (hletter : ∀ n < 64, P (letter n)) (hpad : P pad) {bs : Bytes} {c : UInt8}
    (h : c ∈ encode bs) : P c := by
  induction bs using encode.induct with
  | case1 => simp [encode] at h
  | case2 a =>
      have ha := a.toNat_lt
      rw [encode] at h
      simp only [List.mem_cons, List.not_mem_nil, or_false] at h
      rcases h with rfl | rfl | rfl | rfl
      · exact hletter _ (by omega)
      · exact hletter _ (by omega)
      · exact hpad
      · exact hpad
  | case3 a b =>
      have ha := a.toNat_lt
      have hb := b.toNat_lt
      rw [encode] at h
      simp only [List.mem_cons, List.not_mem_nil, or_false] at h
      rcases h with rfl | rfl | rfl | rfl
      · exact hletter _ (by omega)
      · exact hletter _ (by omega)
      · exact hletter _ (by omega)
      · exact hpad
  | case4 a b c' rest ih =>
      have ha := a.toNat_lt
      have hb := b.toNat_lt
      have hc := c'.toNat_lt
      rw [encode] at h
      simp only [List.mem_cons] at h
      rcases h with rfl | rfl | rfl | rfl | h
      · exact hletter _ (by omega)
      · exact hletter _ (by omega)
      · exact hletter _ (by omega)
      · exact hletter _ (by omega)
      · exact ih h

theorem graphic_of_mem_encode {bs : Bytes} {c : UInt8} (h : c ∈ encode bs) :
    0x21 ≤ c ∧ c < 0x80 ∧ c ≠ 0x2c :=
  @of_mem_encode (fun c => 0x21 ≤ c ∧ c < 0x80 ∧ c ≠ 0x2c) (fun _ hn => letter_graphic hn) (by decide) bs c h

/-- Four letters for three octets, the last group filled up. -/
theorem length_encode (bs : Bytes) : (encode bs).length = (bs.length + 2) / 3 * 4 := by
  induction bs using encode.induct with
  | case1 => rfl
  | case2 a => simp [encode]
  | case3 a b => simp [encode]
  | case4 a b c rest ih =>
      rw [encode]
      simp only [List.length_cons, ih]
      omega

end LocalPlatform.Codec.Base64
