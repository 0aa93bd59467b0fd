/-
# LocalPlatform.Numeric.Rounding — rounding to a number of binary digits.

Numbers of `p` significant binary digits, with no bound on their exponents, and rounding to the nearest
of them, ties to the even one (`round`).  Behind it stands one fact about products: a factor below one is
small enough to undo what rounding the other factor may have added (`round_mul_le`).
-/
import Mathlib.Algebra.Order.Field.Power
import Mathlib.Data.Int.Log
import Mathlib.Data.Rat.Floor
import Mathlib.Tactic.Linarith
import Mathlib.Tactic.Positivity
import Mathlib.Tactic.Ring

namespace LocalPlatform.Numeric

/-! ## The nearest integer -/

/-- The nearest integer, and of two nearest ones the even one. -/
def toEven (q : ℚ) : ℤ :=
  if q - ⌊q⌋ < 1 / 2 then ⌊q⌋
  else if 1 / 2 < q - ⌊q⌋ then ⌊q⌋ + 1
  else if ⌊q⌋ % 2 = 0 then ⌊q⌋
  else ⌊q⌋ + 1

theorem toEven_cases (q : ℚ) : toEven q = ⌊q⌋ ∨ toEven q = ⌊q⌋ + 1 ∧ 1 / 2 ≤ q - ⌊q⌋ := by
  unfold toEven
  split
  · exact Or.inl rfl
  · next hhalf =>
    split
    · exact Or.inr ⟨rfl, not_lt.mp hhalf⟩
    · split
      · exact Or.inl rfl
      · exact Or.inr ⟨rfl, not_lt.mp hhalf⟩

theorem toEven_le_add (q : ℚ) : (toEven q : ℚ) ≤ q + 1 / 2 := by
  rcases toEven_cases q with h | ⟨h, hhalf⟩
  · rw [h]
    linarith [Int.floor_le q]
  · rw [h]
    push_cast
    linarith

theorem toEven_le {q : ℚ} {n : ℤ} (h : q < n + 1 / 2) : toEven q ≤ n := by
  have hfloor : ⌊q⌋ ≤ n := by
    have hlt : (⌊q⌋ : ℚ) < (n + 1 : ℤ) := by
      push_cast
      linarith [Int.floor_le q]
    exact Int.lt_add_one_iff.mp (Int.cast_lt.mp hlt)
  rcases toEven_cases q with hq | ⟨hq, hhalf⟩
  · rw [hq]
    exact hfloor
  · rw [hq]
    have hne : ⌊q⌋ ≠ n := by
      intro heq
      rw [heq] at hhalf
      linarith
    omega

theorem toEven_le_of_le {q : ℚ} {n : ℤ} (h : q ≤ n) : toEven q ≤ n :=
  toEven_le (by linarith)

theorem le_toEven {q : ℚ} {n : ℤ} (h : (n : ℚ) ≤ q) : n ≤ toEven q := by
  have hfloor : n ≤ ⌊q⌋ := Int.le_floor.mpr h
  rcases toEven_cases q with hq | ⟨hq, _⟩ <;> omega

/-! ## Numbers of `p` digits -/

/-- A number with `p` significant binary digits. -/
def Representable (p : ℕ) (q : ℚ) : Prop := ∃ (m : ℕ) (e : ℤ), m < 2 ^ p ∧ q = m * 2 ^ e

theorem Representable.nonneg {p : ℕ} {q : ℚ} (h : Representable p q) : 0 ≤ q := by
  obtain ⟨m, e, _, rfl⟩ := h
  positivity

/-- Two to the `p` needs only one digit. -/
theorem representable_of_le {p m : ℕ} (hp : 0 < p) (h : m ≤ 2 ^ p) (e : ℤ) : Representable p (m * 2 ^ e) := by
  rcases Nat.lt_or_eq_of_le h with hlt | rfl
  · exact ⟨m, e, hlt, rfl⟩
  · refine ⟨1, p + e, Nat.one_lt_two_pow (by omega), ?_⟩
    rw [zpow_add₀ two_ne_zero, zpow_natCast]
    push_cast
    ring

/-- Below one the largest number of `p` digits is `2⁻ᵖ` away. -/
theorem Representable.le_of_lt_one {p : ℕ} {q : ℚ} (hp : 0 < p) (h : Representable p q) (hq : q < 1) :
    q ≤ 1 - 2 ^ (-p : ℤ) := by
  obtain ⟨m, e, hm, rfl⟩ := h
  rcases Nat.eq_zero_or_pos m with rfl | hpos
  · have hle : (2 : ℚ) ^ (-p : ℤ) ≤ 2 ^ (0 : ℤ) := zpow_le_zpow_right₀ one_le_two (by omega)
    rw [zpow_zero] at hle
    simpa using hle
  have he : e < 0 := by
    by_contra hnot
    have hpow : (1 : ℚ) ≤ 2 ^ e := one_le_zpow₀ one_le_two (by omega)
    have hone : (1 : ℚ) ≤ m := by exact_mod_cast hpos
    nlinarith
  rcases le_or_gt (-p : ℤ) e with hge | hlt
  · -- `m` is a whole number below `2⁻ᵉ`, so at most `2⁻ᵉ - 1`
    obtain ⟨k, rfl⟩ : ∃ k : ℕ, e = -(k : ℤ) := ⟨e.natAbs, by omega⟩
    have hk : (0 : ℚ) < 2 ^ k := by positivity
    have hmk : m < 2 ^ k := by
      rw [zpow_neg, zpow_natCast, ← div_eq_mul_inv, div_lt_one hk] at hq
      exact_mod_cast hq
    have hone : (m : ℚ) + 1 ≤ 2 ^ k := by exact_mod_cast hmk
    have hle : (2 : ℚ) ^ (-p : ℤ) ≤ 2 ^ (-(k : ℤ)) := zpow_le_zpow_right₀ one_le_two (by omega)
    have hinv : (2 : ℚ) ^ k * 2 ^ (-(k : ℤ)) = 1 := by
      rw [zpow_neg, zpow_natCast]
      exact mul_inv_cancel₀ hk.ne'
    have hpos' : (0 : ℚ) < 2 ^ (-(k : ℤ)) := by positivity
    nlinarith
  · -- far below: not even a half
    have hm' : (m : ℚ) ≤ 2 ^ p := by exact_mod_cast hm.le
    have hpow : (2 : ℚ) ^ (p : ℤ) * 2 ^ e ≤ 2 ^ (-1 : ℤ) := by
      rw [← zpow_add₀ two_ne_zero]
      exact zpow_le_zpow_right₀ one_le_two (by omega)
    have hp' : (2 : ℚ) ^ (-p : ℤ) ≤ 2 ^ (-1 : ℤ) := zpow_le_zpow_right₀ one_le_two (by omega)
    have hmul : (m : ℚ) * 2 ^ e ≤ 2 ^ (p : ℤ) * 2 ^ e := by
      rw [zpow_natCast]
      exact mul_le_mul_of_nonneg_right hm' (by positivity)
    have hhalf : (2 : ℚ) ^ (-1 : ℤ) = 1 / 2 := by norm_num
    rw [hhalf] at hpow hp'
    linarith

/-! ## Rounding -/

/-- The distance between two numbers of `p` digits at `q`. -/
def ulp (p : ℕ) (q : ℚ) : ℚ := 2 ^ (Int.log 2 q - p + 1)

theorem ulp_pos (p : ℕ) (q : ℚ) : 0 < ulp p q := by
  unfold ulp
  positivity

/-- **Rounding to `p` digits**, to the nearest number and of two nearest ones to the even one. -/
def round (p : ℕ) (q : ℚ) : ℚ := toEven (q / ulp p q) * ulp p q

theorem round_zero (p : ℕ) : round p 0 = 0 := by
  have htoEven : toEven 0 = 0 := le_antisymm (toEven_le_of_le (by simp)) (le_toEven (by simp))
  rw [round, zero_div, htoEven, Int.cast_zero, zero_mul]

section Positive

variable {p : ℕ} {x : ℚ}

/-- What lies in the binade of a positive number, in its ulps. -/
theorem binade (hp : 0 < p) (hx : 0 < x) : (2 : ℚ) ^ (p - 1) * ulp p x ≤ x ∧ x < 2 ^ p * ulp p x := by
  have hlow : ((2 : ℕ) : ℚ) ^ Int.log 2 x ≤ x := Int.zpow_log_le_self one_lt_two hx
  have hhigh : x < ((2 : ℕ) : ℚ) ^ (Int.log 2 x + 1) := Int.lt_zpow_succ_log_self one_lt_two x
  rw [Nat.cast_ofNat] at hlow hhigh
  have hp1 : ((p - 1 : ℕ) : ℤ) = p - 1 := by omega
  unfold ulp
  constructor
  · rw [← zpow_natCast, ← zpow_add₀ two_ne_zero, hp1, show (p - 1 + (Int.log 2 x - p + 1) : ℤ) = Int.log 2 x by ring]
    exact hlow
  · rw [← zpow_natCast, ← zpow_add₀ two_ne_zero, show (p + (Int.log 2 x - p + 1) : ℤ) = Int.log 2 x + 1 by ring]
    exact hhigh

/-- A number of `p` digits in that binade or above it is a whole number of those ulps, or beyond the
binade. -/
theorem Representable.whole {y : ℚ} (hp : 0 < p) (hx : 0 < x) (hxy : x ≤ y) (hy : Representable p y) :
    ∃ n : ℤ, y = n * ulp p x := by
  obtain ⟨m, e, hm, rfl⟩ := hy
  have hlow := (binade hp hx).1
  have he : Int.log 2 x - p + 1 ≤ e := by
    by_contra hnot
    have hm' : (m : ℚ) < 2 ^ p := by exact_mod_cast hm
    have hpe : (0 : ℚ) < 2 ^ e := by positivity
    have hle : (2 : ℚ) ^ p * 2 ^ e ≤ 2 ^ (p - 1) * ulp p x := by
      unfold ulp
      rw [← zpow_natCast, ← zpow_natCast, ← zpow_add₀ two_ne_zero, ← zpow_add₀ two_ne_zero]
      exact zpow_le_zpow_right₀ one_le_two (by omega)
    nlinarith
  obtain ⟨k, hk⟩ := Int.le.dest he
  refine ⟨m * 2 ^ k, ?_⟩
  unfold ulp
  rw [← hk, zpow_add₀ two_ne_zero, zpow_natCast]
  push_cast
  ring

/-- **Rounding does not pass a number of `p` digits.** -/
theorem round_le {y : ℚ} (hp : 0 < p) (hx : 0 < x) (hxy : x ≤ y) (hy : Representable p y) : round p x ≤ y := by
  obtain ⟨n, rfl⟩ := hy.whole hp hx hxy
  have hulp := ulp_pos p x
  unfold round
  apply mul_le_mul_of_nonneg_right _ hulp.le
  have hle : x / ulp p x ≤ n := (div_le_iff₀ hulp).mpr hxy
  exact_mod_cast toEven_le_of_le hle

/-- The digits of a rounded number. -/
theorem digits (hp : 0 < p) (hx : 0 < x) :
    (2 : ℤ) ^ (p - 1) ≤ toEven (x / ulp p x) ∧ toEven (x / ulp p x) ≤ 2 ^ p := by
  have hulp := ulp_pos p x
  obtain ⟨hlow, hhigh⟩ := binade hp hx
  constructor
  · apply le_toEven
    push_cast
    exact (le_div_iff₀ hulp).mpr hlow
  · apply toEven_le_of_le
    push_cast
    exact (div_le_iff₀ hulp).mpr hhigh.le

theorem representable_whole {n : ℤ} (hp : 0 < p) (hn : 0 ≤ n) (hle : n ≤ 2 ^ p) : Representable p (n * ulp p x) := by
  obtain ⟨m, rfl⟩ := Int.eq_ofNat_of_zero_le hn
  exact representable_of_le hp (by exact_mod_cast hle) _

theorem representable_round (hp : 0 < p) (hx : 0 < x) : Representable p (round p x) := by
  obtain ⟨hlow, hhigh⟩ := digits hp hx
  exact representable_whole hp (le_trans (by positivity) hlow) hhigh

/-- The ulps of a binade are all the same. -/
theorem ulp_eq {z : ℚ} (hp : 0 < p) (hlow : (2 : ℚ) ^ (p - 1) * ulp p x ≤ z) (hhigh : z < 2 ^ p * ulp p x) :
    ulp p z = ulp p x := by
  have hz : 0 < z := lt_of_lt_of_le (mul_pos (by positivity) (ulp_pos p x)) hlow
  have hp1 : ((p - 1 : ℕ) : ℤ) = p - 1 := by omega
  have hle : Int.log 2 x ≤ Int.log 2 z := by
    apply (Int.zpow_le_iff_le_log one_lt_two hz).mp
    rw [ulp, ← zpow_natCast, ← zpow_add₀ two_ne_zero, hp1] at hlow
    rw [Nat.cast_ofNat, show Int.log 2 x = (p - 1 + (Int.log 2 x - p + 1) : ℤ) by ring]
    exact hlow
  have hlt : Int.log 2 z < Int.log 2 x + 1 := by
    apply (Int.lt_zpow_iff_log_lt one_lt_two hz).mp
    rw [ulp, ← zpow_natCast, ← zpow_add₀ two_ne_zero] at hhigh
    rw [Nat.cast_ofNat, show Int.log 2 x + 1 = (p + (Int.log 2 x - p + 1) : ℤ) by ring]
    exact hhigh
  have hlog : Int.log 2 z = Int.log 2 x := by omega
  unfold ulp
  rw [hlog]

/-- **A factor below one makes up for the rounding of the other.** -/
theorem round_mul_le {a : ℚ} (hp : 0 < p) (hx : 0 < x) (ha : Representable p a) (hpos : 0 < a) (hone : a < 1) :
    round p (a * round p x) ≤ x := by
  have hulp := ulp_pos p x
  obtain ⟨hlow, hhigh⟩ := binade hp hx
  have hrep := representable_round hp hx
  have hrpos : 0 < round p x := by
    have hdigits := (digits hp hx).1
    have htwo : (0 : ℤ) < 2 ^ (p - 1) := by positivity
    have hn : (0 : ℚ) < toEven (x / ulp p x) := by exact_mod_cast lt_of_lt_of_le htwo hdigits
    exact mul_pos hn hulp
  have hapos : 0 < a * round p x := mul_pos hpos hrpos
  rcases le_or_gt (round p x) x with hle | hgt
  · -- rounded down: the product is below a number of `p` digits that is not above `x`
    exact le_trans (round_le hp hapos (by nlinarith) hrep) hle
  · -- rounded up, by at most half an ulp, and not to the bottom of the binade
    obtain ⟨hdlow, hdhigh⟩ := digits hp hx
    have hhalf : (toEven (x / ulp p x) : ℚ) ≤ x / ulp p x + 1 / 2 := toEven_le_add _
    have hup : x / ulp p x < toEven (x / ulp p x) := (div_lt_iff₀ hulp).mpr hgt
    have hbottom : (2 : ℚ) ^ (p - 1) ≤ x / ulp p x := (le_div_iff₀ hulp).mpr hlow
    have hxulp : x / ulp p x * ulp p x = x := div_mul_cancel₀ x hulp.ne'
    have hn : (2 : ℤ) ^ (p - 1) + 1 ≤ toEven (x / ulp p x) := by
      have hlt : ((2 ^ (p - 1) : ℤ) : ℚ) < toEven (x / ulp p x) := by
        push_cast
        exact lt_of_le_of_lt hbottom hup
      exact Int.add_one_le_iff.mpr (Int.cast_lt.mp hlt)
    have hround : round p x = toEven (x / ulp p x) * ulp p x := rfl
    rw [hround] at hapos ⊢
    generalize toEven (x / ulp p x) = n at *
    have hbelow : ((n - 1 : ℤ) : ℚ) * ulp p x ≤ x := by
      have hle : ((n - 1 : ℤ) : ℚ) ≤ x / ulp p x := by
        push_cast
        linarith
      exact (le_div_iff₀ hulp).mp hle
    refine le_trans ?_ hbelow
    -- the product loses more than the half ulp that the rounding had gained
    have hprod : a * (n * ulp p x) < (n - 1 / 2) * ulp p x := by
      have hfactor := ha.le_of_lt_one hp hone
      have hn' : (2 : ℚ) ^ (p - 1) + 1 ≤ n := by exact_mod_cast hn
      have hinv : (2 : ℚ) ^ (p - 1) * 2 ^ (-p : ℤ) = 1 / 2 := by
        have hp1 : ((p - 1 : ℕ) : ℤ) = p - 1 := by omega
        rw [← zpow_natCast, ← zpow_add₀ two_ne_zero, hp1, show (p - 1 + -p : ℤ) = -1 by ring]
        norm_num
      have hsmall : (0 : ℚ) < 2 ^ (-p : ℤ) := by positivity
      have hnn : (0 : ℚ) < n := lt_of_lt_of_le (by positivity) hn'
      have han : a * n < n - 1 / 2 := by nlinarith
      nlinarith
    rcases le_or_gt (a * (n * ulp p x)) (((n - 1 : ℤ) : ℚ) * ulp p x) with hle | hgt
    · exact round_le hp hapos hle (representable_whole hp (by linarith [show (0 : ℤ) < 2 ^ (p - 1) by positivity]) (by omega))
    -- above the number before, the product is still in the binade of `x`
    · have hsame : ulp p (a * (n * ulp p x)) = ulp p x := by
        apply ulp_eq hp
        · have hn' : (2 : ℚ) ^ (p - 1) ≤ ((n - 1 : ℤ) : ℚ) := by exact_mod_cast (show (2 : ℤ) ^ (p - 1) ≤ n - 1 by omega)
          nlinarith
        · have hn' : (n : ℚ) ≤ 2 ^ p := by exact_mod_cast hdhigh
          nlinarith
      unfold round
      rw [hsame]
      apply mul_le_mul_of_nonneg_right _ hulp.le
      have hlt : a * (n * ulp p x) / ulp p x < (n - 1 : ℤ) + 1 / 2 := by
        rw [div_lt_iff₀ hulp]
        push_cast
        linarith
      exact_mod_cast toEven_le hlt

end Positive

end LocalPlatform.Numeric
