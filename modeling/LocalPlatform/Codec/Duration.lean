/-
# LocalPlatform.Codec.Duration — durations as text.

`time.ParseDuration`: decimal numbers, each with a unit, added up in unsigned 64-bit arithmetic.  Fractions
go through floating point numbers of 53 digits, whose exponents need no bound here: what is beyond them
comes to no whole nanosecond.
-/
import LocalPlatform.Codec.Bytes
import LocalPlatform.Numeric.Rounding

namespace LocalPlatform.Codec

open Numeric

/-- Why a text is no duration. -/
inductive DurationErr where
  | invalid (orig : Bytes)
  | missingUnit (orig : Bytes)
  | unknownUnit (unit orig : Bytes)
  deriving DecidableEq, Repr

/-- A float64 product, sum or conversion. -/
def float64 (q : ℚ) : ℚ := Numeric.round 53 q

/-- **`leadingInt s`** behind the value `x`; `none` on overflow. -/
def leadingInt : Nat → Bytes → Option (Nat × Bytes)
  | x, [] => some (x, [])
  | x, c :: rest =>
    if isDigit c then
      if 2 ^ 63 / 10 < x then none
      else
        let x := x * 10 + (c.toNat - 48)
        if 2 ^ 63 < x then none else leadingInt x rest
    else some (x, c :: rest)

/-- **`leadingFraction s`** behind the value `x`: digits that do not fit are passed over. -/
def leadingFraction : Nat → ℚ → Bool → Bytes → Nat × ℚ × Bytes
  | x, scale, _, [] => (x, scale, [])
  | x, scale, overflow, c :: rest =>
    if isDigit c then
      if overflow then leadingFraction x scale true rest
      else if (2 ^ 63 - 1) / 10 < x then leadingFraction x scale true rest
      else
        let y := x * 10 + (c.toNat - 48)
        if 2 ^ 63 < y then leadingFraction x scale true rest
        else leadingFraction y (float64 (scale * 10)) false rest
    else (x, scale, c :: rest)

/-- `unitMap`, in nanoseconds. -/
def unitMap : List (Bytes × Nat) :=
  [(ascii "ns", 1), (ascii "us", 1000), ([0xC2, 0xB5, 0x73], 1000), ([0xCE, 0xBC, 0x73], 1000),
    (ascii "ms", 1000000), (ascii "s", 1000000000), (ascii "m", 60000000000), (ascii "h", 3600000000000)]

/-- What ends a unit. -/
def isNumeric (c : UInt8) : Bool := c == 0x2e || isDigit c

/-- The optional fraction: its value, its scale, whether it has digits, and what follows. -/
def fraction : Bytes → Nat × ℚ × Bool × Bytes
  | 0x2e :: digits =>
    let (f, scale, rest) := leadingFraction 0 1 false digits
    (f, scale, decide (digits.length ≠ rest.length), rest)
  | rest => (0, 1, false, rest)

/-- `v + f / scale` units. -/
def inNanoseconds (v f : Nat) (scale : ℚ) (unit : Nat) : Nat :=
  if 0 < f then v * unit + ⌊float64 (float64 f * float64 (unit / scale))⌋.toNat else v * unit

/-- The unit of `v + f / scale`, and what follows it. -/
def inUnit (orig : Bytes) (v f : Nat) (scale : ℚ) (s : Bytes) : Except DurationErr (Nat × Bytes) :=
  let u := s.takeWhile fun c => !isNumeric c
  if u = [] then .error (.missingUnit orig)
  else match unitMap.lookup u with
    | none => .error (.unknownUnit u orig)
    | some unit =>
      if 2 ^ 63 / unit < v then .error (.invalid orig)
      else if 2 ^ 63 < inNanoseconds v f scale unit then .error (.invalid orig)
      else .ok (inNanoseconds v f scale unit, s.dropWhile fun c => !isNumeric c)

/-- One number with its unit, and what follows it. -/
def segment (orig s : Bytes) : Except DurationErr (Nat × Bytes) :=
  if s.head?.any isNumeric = false then .error (.invalid orig)
  else match leadingInt 0 s with
    | none => .error (.invalid orig)
    | some (v, rest) =>
      let pre := decide (s.length ≠ rest.length)
      let (f, scale, post, rest) := fraction rest
      if pre = false ∧ post = false then .error (.invalid orig)
      else inUnit orig v f scale rest

theorem length_leadingInt {x v : Nat} {s rest : Bytes} (h : leadingInt x s = some (v, rest)) : rest.length ≤ s.length := by
  induction s generalizing x with
  | nil =>
      obtain ⟨_, rfl⟩ := Prod.mk.inj (Option.some.inj h)
      exact Nat.le_refl _
  | cons c s ih =>
      rw [leadingInt] at h
      split at h
      · split at h
        · cases h
        · simp only at h
          split at h
          · cases h
          · exact Nat.le_succ_of_le (ih h)
      · obtain ⟨_, rfl⟩ := Prod.mk.inj (Option.some.inj h)
        exact Nat.le_refl _

theorem length_leadingFraction (s : Bytes) : ∀ (x : Nat) (scale : ℚ) (overflow : Bool),
    (leadingFraction x scale overflow s).2.2.length ≤ s.length := by
  induction s with
  | nil => exact fun _ _ _ => Nat.le_refl _
  | cons c s ih =>
      intro x scale overflow
      rw [leadingFraction]
      simp only
      repeat' split
      all_goals first
        | exact Nat.le_refl _
        | exact Nat.le_succ_of_le (ih _ _ _)

theorem length_fraction (s : Bytes) : (fraction s).2.2.2.length ≤ s.length := by
  unfold fraction
  split
  · next digits => exact Nat.le_succ_of_le (length_leadingFraction digits 0 1 false)
  · exact Nat.le_refl _

/-- A unit is not empty. -/
theorem length_inUnit {orig s rest : Bytes} {v f w : Nat} {scale : ℚ} (h : inUnit orig v f scale s = .ok (w, rest)) :
    rest.length < s.length := by
  unfold inUnit at h
  simp only at h
  split at h
  · cases h
  next hunit =>
  split at h
  · cases h
  split at h
  · cases h
  split at h
  · cases h
  · obtain ⟨_, rfl⟩ := Prod.mk.inj (Except.ok.inj h)
    cases s with
    | nil => exact absurd rfl hunit
    | cons c s =>
        by_cases hc : isNumeric c = true
        · exact absurd (List.takeWhile_cons_of_neg (by simp [hc])) hunit
        · rw [List.dropWhile_cons_of_pos (by simp [hc])]
          exact Nat.lt_succ_of_le (List.dropWhile_sublist _).length_le

theorem length_segment {orig s rest : Bytes} {v : Nat} (h : segment orig s = .ok (v, rest)) : rest.length < s.length := by
  unfold segment at h
  split at h
  · cases h
  split at h
  · cases h
  next v₀ rest₀ hint =>
  simp only at h
  split at h
  · cases h
  · calc rest.length < (fraction rest₀).2.2.2.length := length_inUnit h
      _ ≤ rest₀.length := length_fraction rest₀
      _ ≤ s.length := length_leadingInt hint

/-- The numbers of a duration, added to `d` in 64 bits. -/
def durationFrom (orig : Bytes) (d : Nat) (s : Bytes) : Except DurationErr Nat :=
  if s = [] then .ok d
  else match hsegment : segment orig s with
    | .error e => .error e
    | .ok (v, rest) =>
      let d := (d + v) % 2 ^ 64
      if 2 ^ 63 < d then .error (.invalid orig) else durationFrom orig d rest
termination_by s.length
decreasing_by exact length_segment hsegment

/-- The sign in front, and what it stands before. -/
def sign : Bytes → Bool × Bytes
  | 0x2d :: rest => (true, rest)
  | 0x2b :: rest => (false, rest)
  | rest => (false, rest)

/-- **`time.ParseDuration s`**, in nanoseconds. -/
def parseDuration (s : Bytes) : Except DurationErr Int :=
  let neg := (sign s).1
  let rest := (sign s).2
  if rest = ascii "0" then .ok 0
  else if rest = [] then .error (.invalid s)
  else match durationFrom s 0 rest with
    | .error e => .error e
    | .ok d =>
      if neg then .ok (-(d : Int))
      else if 2 ^ 63 - 1 < d then .error (.invalid s)
      else .ok d

/-- A duration is a signed 64-bit integer. -/
theorem parseDuration_lt {s : Bytes} {d : Int} (h : parseDuration s = .ok d) : d < 2 ^ 63 := by
  unfold parseDuration at h
  simp only at h
  split at h
  · rw [← Except.ok.inj h]
    decide
  split at h
  · cases h
  split at h
  · cases h
  split at h
  · rw [← Except.ok.inj h]
    omega
  split at h
  · cases h
  · rw [← Except.ok.inj h]
    omega

/-! ## Whole nanoseconds -/

theorem le_parseDigits {acc n : Nat} {s : Bytes} (h : parseDigits acc s = some n) : acc ≤ n := by
  induction s generalizing acc with
  | nil =>
      obtain rfl := Option.some.inj h
      exact Nat.le_refl _
  | cons c s ih =>
      rw [parseDigits] at h
      split at h
      · have hle := ih h
        omega
      · cases h

/-- Digits whose value fits are read as they stand. -/
theorem leadingInt_append {s rest : Bytes} {acc n : Nat} (h : parseDigits acc s = some n) (hn : n ≤ 2 ^ 63)
    (hrest : rest.head?.any isDigit = false) : leadingInt acc (s ++ rest) = some (n, rest) := by
  induction s generalizing acc with
  | nil =>
      obtain rfl := Option.some.inj h
      cases rest with
      | nil => rfl
      | cons c rest =>
          have hc : ¬ isDigit c = true := by simpa using hrest
          rw [List.nil_append, leadingInt, if_neg hc]
  | cons c s ih =>
      rw [parseDigits] at h
      split at h
      · next hc =>
        have hle := le_parseDigits h
        rw [List.cons_append, leadingInt, if_pos hc, if_neg (by omega)]
        simp only
        rw [if_neg (by omega)]
        exact ih h
      · cases h

theorem dec_eq_cons (n : Nat) : ∃ c cs, dec n = c :: cs ∧ isDigit c = true := by
  obtain ⟨c, cs, hcons⟩ := List.exists_cons_of_ne_nil (dec_ne_nil n)
  exact ⟨c, cs, hcons, isDigit_of_mem_dec (n := n) (by simp [hcons])⟩

theorem inUnit_ns (orig : Bytes) {n : Nat} (hn : n ≤ 2 ^ 63) : inUnit orig n 0 1 (ascii "ns") = .ok (n, []) := by
  have hunit : (ascii "ns").takeWhile (fun c => !isNumeric c) = ascii "ns" := by decide
  have hrest : (ascii "ns").dropWhile (fun c => !isNumeric c) = [] := by decide
  have hlookup : unitMap.lookup (ascii "ns") = some 1 := by decide
  have hvalue : inNanoseconds n 0 1 1 = n := by
    rw [inNanoseconds, if_neg (Nat.lt_irrefl 0), Nat.mul_one]
  unfold inUnit
  simp only [hunit, hrest, hlookup, hvalue]
  rw [if_neg (by decide), if_neg (by omega), if_neg (by omega)]

/-- Digits and a unit are one number. -/
theorem segment_ns (orig : Bytes) {n : Nat} (hn : n ≤ 2 ^ 63) : segment orig (dec n ++ ascii "ns") = .ok (n, []) := by
  obtain ⟨c, cs, hcons, hc⟩ := dec_eq_cons n
  have hint : leadingInt 0 (dec n ++ ascii "ns") = some (n, ascii "ns") :=
    leadingInt_append (parseDigits_dec n) hn rfl
  have hhead : (dec n ++ ascii "ns").head?.any isNumeric = true := by
    rw [hcons]
    simp [isNumeric, hc]
  have hpre : decide ((dec n ++ ascii "ns").length ≠ (ascii "ns").length) = true := by
    rw [hcons, decide_eq_true_iff, List.length_append, List.length_cons]
    omega
  have hfraction : fraction (ascii "ns") = (0, 1, false, ascii "ns") := rfl
  rw [segment, hhead, if_neg (by simp), hint]
  simp only [hpre, hfraction]
  rw [if_neg (by simp)]
  exact inUnit_ns orig hn

theorem sign_digit {c : UInt8} (hc : isDigit c = true) (s : Bytes) : sign (c :: s) = (false, c :: s) := by
  unfold sign
  split
  · next heq =>
    obtain ⟨rfl, _⟩ := List.cons.inj heq
    exact absurd hc (by decide)
  · next heq =>
    obtain ⟨rfl, _⟩ := List.cons.inj heq
    exact absurd hc (by decide)
  · rfl

/-- **Every number of nanoseconds can be written as a duration.** -/
theorem parseDuration_ns {n : Nat} (hn : n < 2 ^ 63) : parseDuration (dec n ++ ascii "ns") = .ok (n : Int) := by
  obtain ⟨c, cs, hcons, hc⟩ := dec_eq_cons n
  have hsign : sign (dec n ++ ascii "ns") = (false, dec n ++ ascii "ns") := by
    rw [hcons, List.cons_append, sign_digit hc]
  have hne : dec n ++ ascii "ns" ≠ [] := by simp [hcons]
  have hzero : dec n ++ ascii "ns" ≠ ascii "0" := by
    intro h
    have hlen := congrArg List.length h
    rw [hcons] at hlen
    simp [ascii] at hlen
  -- one segment, in the smallest unit
  have hfrom : durationFrom (dec n ++ ascii "ns") 0 (dec n ++ ascii "ns") = .ok n := by
    rw [durationFrom, if_neg hne]
    split
    · next h =>
      rw [segment_ns _ hn.le] at h
      cases h
    · next v rest h =>
      rw [segment_ns _ hn.le] at h
      obtain ⟨rfl, rfl⟩ := Prod.mk.inj (Except.ok.inj h)
      simp only
      rw [Nat.zero_add, Nat.mod_eq_of_lt (by omega), if_neg (by omega), durationFrom, if_pos rfl]
  unfold parseDuration
  simp only [hsign]
  rw [if_neg hzero, if_neg hne, hfrom]
  simp only
  rw [if_neg (by simp), if_neg (by omega)]

end LocalPlatform.Codec
