/-
# LocalPlatform.Codec.Bytes — byte strings, their decimal and hexadecimal renderings.

A Go `string` and a Go `[]byte` are both an arbitrary byte sequence; neither promises UTF-8.  Every
codec of this development therefore works on `Bytes`, a plain list of octets, and what a particular
text promises beyond that (well-formed UTF-8, a JSON value, a run of decimal digits) is a predicate
proved of it, never part of its type.

The decimal rendering is `strconv.FormatInt(n, 10)` and the decimal reading `strconv.ParseInt(s, 10,
64)`; the facts proved here are the ones a delimiter argument needs: a rendered number and a text that
is read as one are digits behind at most a sign, so no separator occurs in them.
-/
import Mathlib.Data.Nat.Digits.Defs
import Mathlib.Data.List.Basic
import Mathlib.Tactic.IntervalCases

namespace LocalPlatform.Codec

/-- A Go `string` or `[]byte`: any octets at all. -/
abbrev Bytes := List UInt8

/-- The octets of an ASCII literal. -/
def ascii (s : String) : Bytes := s.toList.map fun c => UInt8.ofNat c.toNat

/-! ## Decimal digits -/

/-- The octet of a decimal digit. -/
def digit (d : Nat) : UInt8 := UInt8.ofNat (48 + d)

/-- **`dec n`** — the decimal rendering of a natural number, no sign, no leading zero. -/
def dec (n : Nat) : Bytes :=
  if n = 0 then [digit 0] else ((Nat.digits 10 n).map digit).reverse

/-- **`decInt n`** — `strconv.FormatInt(n, 10)`. -/
def decInt (n : Int) : Bytes :=
  if n < 0 then 0x2d :: dec n.natAbs else dec n.natAbs

/-- `c` is one of `0`..`9`. -/
def isDigit (c : UInt8) : Bool := 0x30 ≤ c && c ≤ 0x39

theorem isDigit_digit {d : Nat} (h : d < 10) : isDigit (digit d) = true := by
  interval_cases d <;> rfl

theorem isDigit_of_mem_dec {n : Nat} {c : UInt8} (h : c ∈ dec n) : isDigit c = true := by
  unfold dec at h
  split at h
  · rw [List.mem_singleton.mp h]
    rfl
  · obtain ⟨d, hd, rfl⟩ := List.mem_map.mp (List.mem_reverse.mp h)
    exact isDigit_digit (Nat.digits_lt_base (by decide) hd)

theorem dec_ne_nil (n : Nat) : dec n ≠ [] := by
  unfold dec
  split
  · simp
  · next hn => simpa [Nat.digits_eq_nil_iff_eq_zero] using hn

theorem decInt_ne_nil (n : Int) : decInt n ≠ [] := by
  unfold decInt
  split
  · simp
  · exact dec_ne_nil _

/-- A rendered integer is made of digits and, in front, a minus sign: no delimiter occurs in it. -/
theorem mem_decInt {n : Int} {c : UInt8} (h : c ∈ decInt n) : isDigit c = true ∨ c = 0x2d := by
  unfold decInt at h
  split at h
  · rcases List.mem_cons.mp h with rfl | h
    · exact Or.inr rfl
    · exact Or.inl (isDigit_of_mem_dec h)
  · exact Or.inl (isDigit_of_mem_dec h)

theorem dot_notMem_decInt (n : Int) : (0x2e : UInt8) ∉ decInt n := by
  intro h
  rcases mem_decInt h with hd | hd
  · exact absurd hd (by decide)
  · exact absurd hd (by decide)

/-- The digits of a rendered number, read back. -/
theorem ofDigits_dec (n : Nat) : Nat.ofDigits 10 ((dec n).reverse.map fun c => c.toNat - 48) = n := by
  have hdigit : ∀ d, d < 10 → (digit d).toNat - 48 = d := by
    intro d hd
    interval_cases d <;> rfl
  unfold dec
  split
  · next hn =>
    subst hn
    rfl
  · rw [List.reverse_reverse, List.map_map]
    have hback : (Nat.digits 10 n).map ((fun c => c.toNat - 48) ∘ digit) = (Nat.digits 10 n).map id :=
      List.map_congr_left fun d hd => hdigit d (Nat.digits_lt_base (by decide) hd)
    rw [hback, List.map_id, Nat.ofDigits_digits]

theorem dec_injective : Function.Injective dec := by
  intro m n h
  rw [← ofDigits_dec m, h, ofDigits_dec]

/-- Two numbers have one rendering only when they are the same. -/
theorem decInt_injective : Function.Injective decInt := by
  have hsign : ∀ m n : Nat, 0x2d :: dec m ≠ dec n := by
    intro m n h
    have hmem : (0x2d : UInt8) ∈ dec n := h ▸ List.mem_cons_self
    exact absurd (isDigit_of_mem_dec hmem) (by decide)
  intro m n h
  unfold decInt at h
  split at h <;> split at h
  · have := dec_injective (List.cons.inj h).2
    omega
  · exact absurd h (hsign _ _)
  · exact absurd h.symm (hsign _ _)
  · have := dec_injective h
    omega

theorem dec_digit {n : Nat} (h : n < 10) : dec n = [digit n] := by
  interval_cases n <;> rfl

/-- The last digit, behind the others. -/
theorem dec_snoc {n : Nat} (h : 10 ≤ n) : dec n = dec (n / 10) ++ [digit (n % 10)] := by
  have hn : n ≠ 0 := by omega
  have hq : n / 10 ≠ 0 := by omega
  rw [dec, if_neg hn, dec, if_neg hq, Nat.digits_def' (by decide) (by omega), List.map_cons, List.reverse_cons]

/-- A positive number is rendered with a digit other than `0` in front. -/
theorem dec_cons (n : Nat) (hn : n ≠ 0) :
    ∃ d ds, dec n = digit d :: ds ∧ 1 ≤ d ∧ d ≤ 9 ∧ ∀ c ∈ ds, isDigit c = true := by
  induction n using Nat.strong_induction_on with
  | _ n ih =>
      by_cases hlt : n < 10
      · exact ⟨n, [], dec_digit hlt, by omega, by omega, by simp⟩
      · obtain ⟨d, ds, hd, hlo, hhi, hds⟩ := ih (n / 10) (by omega) (by omega)
        refine ⟨d, ds ++ [digit (n % 10)], ?_, hlo, hhi, fun c hc => ?_⟩
        · rw [dec_snoc (by omega), hd, List.cons_append]
        · rcases List.mem_append.mp hc with hc | hc
          · exact hds c hc
          · rw [List.mem_singleton.mp hc]
            exact isDigit_digit (Nat.mod_lt n (by decide))

/-! ## Reading an integer -/

/-- The value of a run of digits; `none` when another octet occurs. -/
def parseDigits : Nat → Bytes → Option Nat
  | acc, [] => some acc
  | acc, c :: cs => if isDigit c then parseDigits (acc * 10 + (c.toNat - 48)) cs else none

/-- **`parseInt s`** — `strconv.ParseInt(s, 10, 64)`: an optional sign and digits, in the range of a
signed 64-bit integer. -/
def parseInt : Bytes → Option Int
  | [] => none
  | c :: cs =>
    if c = 0x2b ∨ c = 0x2d then
      if cs = [] then none
      else (parseDigits 0 cs).bind fun n =>
        if c = 0x2d then (if n ≤ 2 ^ 63 then some (-n) else none)
        else if n < 2 ^ 63 then some n else none
    else (parseDigits 0 (c :: cs)).bind fun n => if n < 2 ^ 63 then some (n : Int) else none

theorem isDigit_of_parseDigits {acc n : Nat} {s : Bytes} (h : parseDigits acc s = some n) {c : UInt8}
    (hc : c ∈ s) : isDigit c = true := by
  induction s generalizing acc with
  | nil => simp at hc
  | cons d ds ih =>
      rw [parseDigits] at h
      split at h
      · next hd =>
        rcases List.mem_cons.mp hc with rfl | hc
        · exact hd
        · exact ih h hc
      · exact absurd h (by simp)

/-- A text read as an integer contains no full stop. -/
theorem dot_notMem_of_parseInt {s : Bytes} {n : Int} (h : parseInt s = some n) :
    (0x2e : UInt8) ∉ s := by
  intro hdot
  have hdigit : isDigit 0x2e = false := rfl
  cases s with
  | nil => simp at hdot
  | cons c cs =>
      rw [parseInt] at h
      split at h
      · next hsign =>
        split at h
        · exact absurd h (by simp)
        · obtain ⟨m, hm, _⟩ := Option.bind_eq_some_iff.mp h
          rcases List.mem_cons.mp hdot with rfl | hdot
          · exact absurd hsign (by decide)
          · exact absurd (isDigit_of_parseDigits hm hdot) (by simp [hdigit])
      · obtain ⟨m, hm, _⟩ := Option.bind_eq_some_iff.mp h
        exact absurd (isDigit_of_parseDigits hm hdot) (by simp [hdigit])

theorem parseDigits_snoc {s : Bytes} {acc n d : Nat} (h : parseDigits acc s = some n) (hd : d < 10) :
    parseDigits acc (s ++ [digit d]) = some (n * 10 + d) := by
  induction s generalizing acc with
  | nil =>
      obtain rfl := Option.some.inj h
      have hval : (digit d).toNat - 48 = d := by interval_cases d <;> rfl
      rw [List.nil_append, parseDigits, if_pos (isDigit_digit hd), parseDigits, hval]
  | cons c cs ih =>
      rw [parseDigits] at h
      split at h
      · next hc =>
        rw [List.cons_append, parseDigits, if_pos hc]
        exact ih h
      · exact absurd h (by simp)

theorem parseDigits_dec (n : Nat) : parseDigits 0 (dec n) = some n := by
  induction n using Nat.strong_induction_on with
  | _ n ih =>
      by_cases hlt : n < 10
      · have hone := @parseDigits_snoc [] 0 0 n rfl hlt
        rw [dec_digit hlt]
        simpa using hone
      · have hquot := parseDigits_snoc (ih (n / 10) (by omega)) (Nat.mod_lt n (by decide : 0 < 10))
        rw [dec_snoc (by omega), hquot]
        congr 1
        omega

/-- **A rendered 64-bit integer is read back.** -/
theorem parseInt_decInt {n : Int} (hlo : -2 ^ 63 ≤ n) (hhi : n < 2 ^ 63) : parseInt (decInt n) = some n := by
  unfold decInt
  split
  · next hneg =>
    rw [parseInt, if_pos (Or.inr rfl), if_neg (dec_ne_nil _), parseDigits_dec, Option.bind_some, if_pos rfl,
      if_pos (by omega)]
    congr 1
    omega
  · next hpos =>
    obtain ⟨c, cs, hc⟩ := List.exists_cons_of_ne_nil (dec_ne_nil n.natAbs)
    have hdigit : isDigit c = true := isDigit_of_mem_dec (hc ▸ List.mem_cons_self)
    have hsign : ¬ (c = 0x2b ∨ c = 0x2d) := by
      rintro (rfl | rfl)
      · exact absurd hdigit (by decide)
      · exact absurd hdigit (by decide)
    rw [hc, parseInt, if_neg hsign, ← hc, parseDigits_dec, Option.bind_some, if_pos (by omega)]
    congr 1
    omega

theorem decInt_natCast (n : Nat) : decInt n = dec n := if_neg (by omega)

/-! ## Hexadecimal -/

/-- The lower-case hexadecimal digit of a nibble. -/
def hexDigit (n : Nat) : UInt8 := if n < 10 then UInt8.ofNat (48 + n) else UInt8.ofNat (87 + n)

/-- The value of a hexadecimal digit of either case; `none` for any other octet. -/
def hexVal (c : UInt8) : Option Nat :=
  if 0x30 ≤ c ∧ c ≤ 0x39 then some (c.toNat - 48)
  else if 0x61 ≤ c ∧ c ≤ 0x66 then some (c.toNat - 87)
  else if 0x41 ≤ c ∧ c ≤ 0x46 then some (c.toNat - 55)
  else none

/-- `hex.EncodeToString`: two lower-case digits an octet. -/
def hex (bs : Bytes) : Bytes := bs.flatMap fun b => [hexDigit (b.toNat / 16), hexDigit (b.toNat % 16)]

theorem hexVal_hexDigit {n : Nat} (h : n < 16) : hexVal (hexDigit n) = some n := by
  interval_cases n <;> rfl

/-- A hexadecimal digit is an ASCII letter or digit. -/
def isHex (c : UInt8) : Bool := (hexVal c).isSome

theorem isHex_hexDigit {n : Nat} (h : n < 16) : isHex (hexDigit n) = true := by
  simp [isHex, hexVal_hexDigit h]

theorem length_hex (bs : Bytes) : (hex bs).length = 2 * bs.length := by
  induction bs with
  | nil => rfl
  | cons b bs ih =>
      have hcons : hex (b :: bs) = [hexDigit (b.toNat / 16), hexDigit (b.toNat % 16)] ++ hex bs := rfl
      rw [hcons, List.length_append, ih, List.length_cons]
      simp only [List.length_cons, List.length_nil]
      omega

theorem exists_of_mem_hex {bs : Bytes} {c : UInt8} (h : c ∈ hex bs) : ∃ n < 16, c = hexDigit n := by
  obtain ⟨b, _, hc⟩ := List.mem_flatMap.mp h
  have hb : b.toNat < 256 := b.toNat_lt
  rcases List.mem_cons.mp hc with rfl | hc
  · exact ⟨b.toNat / 16, by omega, rfl⟩
  · exact ⟨b.toNat % 16, by omega, List.mem_singleton.mp hc⟩

theorem isHex_of_mem_hex {bs : Bytes} {c : UInt8} (h : c ∈ hex bs) : isHex c = true := by
  obtain ⟨n, hn, rfl⟩ := exists_of_mem_hex h
  exact isHex_hexDigit hn

/-- Hexadecimal text is graphic ASCII. -/
theorem graphic_of_mem_hex {bs : Bytes} {c : UInt8} (h : c ∈ hex bs) : 0x21 ≤ c ∧ c < 0x80 := by
  obtain ⟨n, hn, rfl⟩ := exists_of_mem_hex h
  interval_cases n <;> decide

/-! ## Cutting at a delimiter -/

/-- `strings.Cut`: what stands in front of the first `d` and what stands behind it. -/
def cut (d : UInt8) : Bytes → Option (Bytes × Bytes)
  | [] => none
  | c :: cs => if c = d then some ([], cs) else (cut d cs).map fun p => (c :: p.1, p.2)

theorem cut_append {d : UInt8} {a : Bytes} (ha : d ∉ a) (b : Bytes) :
    cut d (a ++ d :: b) = some (a, b) := by
  induction a with
  | nil => simp [cut]
  | cons c cs ih =>
      have hc : c ≠ d := fun h => ha (by simp [h])
      have hcs : d ∉ cs := fun h => ha (List.mem_cons_of_mem c h)
      rw [List.cons_append, cut, if_neg hc, ih hcs]
      rfl

theorem eq_append_of_cut {d : UInt8} {s a b : Bytes} (h : cut d s = some (a, b)) :
    s = a ++ d :: b := by
  induction s generalizing a with
  | nil => simp [cut] at h
  | cons c cs ih =>
      rw [cut] at h
      split at h
      · next hc =>
        obtain ⟨rfl, rfl⟩ := Prod.mk.injEq .. ▸ Option.some.injEq .. ▸ h
        rw [hc]
        rfl
      · obtain ⟨⟨a', b'⟩, hp, hab⟩ := Option.map_eq_some_iff.mp h
        obtain ⟨rfl, rfl⟩ := Prod.mk.injEq .. ▸ hab
        rw [ih hp]
        rfl

/-- Joining two groups of segments puts one delimiter between them. -/
theorem intercalate_append {d : UInt8} {a b : List Bytes} (ha : a ≠ []) (hb : b ≠ []) :
    [d].intercalate (a ++ b) = [d].intercalate a ++ d :: [d].intercalate b := by
  induction a with
  | nil => exact absurd rfl ha
  | cons x xs ih =>
      rw [List.cons_append]
      cases xs with
      | nil =>
          rw [List.nil_append, List.intercalate_cons_of_ne_nil hb, List.intercalate_singleton]
          simp
      | cons y ys =>
          rw [List.intercalate_cons_of_ne_nil (by simp), ih (by simp), List.intercalate_cons_cons]
          simp

end LocalPlatform.Codec
