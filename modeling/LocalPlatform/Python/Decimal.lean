/-
# LocalPlatform.Python.Decimal — decimal numbers, and the text of one.

A finite `decimal.Decimal` that is not negative: a coefficient and a power of ten.  The coefficient and
the exponent are kept as they come, so that `0.10` and `0.1` are equal numbers and different decimals.
Reading a text is exact; multiplication, division and addition are exact and then rounded to the 28
digits of the default context, ties to even, in its range of exponents; a number above that range is an
error the context raises.

`str` writes an exponent for a number below a millionth, for a zero of more than six places and for a
positive exponent (`plain` says when it does not); what it writes is read back as the same decimal.
-/
import LocalPlatform.Python.Value
import Mathlib.Algebra.Order.Field.Power

namespace LocalPlatform.Python

/-- A finite decimal that is not negative. -/
structure Decimal where
  coefficient : Nat
  exponent : ℤ
  deriving DecidableEq

namespace Decimal

/-- What the decimal is worth. -/
def value (d : Decimal) : ℚ := d.coefficient * 10 ^ d.exponent

/-! ## Reading -/

/-- The value of a run of digits. -/
def digitsValue (s : Str) : Nat := s.foldl (fun n c => 10 * n + (c - 0x30)) 0

/-- The exponent part: `E` or `e`, a sign or none, and digits. -/
def readExponent : Str → Option ℤ
  | [] => some 0
  | e :: r =>
    if e = 0x45 ∨ e = 0x65 then
      let (negative, digits) := match r with
        | 0x2d :: ds => (true, ds)
        | 0x2b :: ds => (false, ds)
        | ds => (false, ds)
      if digits ≠ [] ∧ digits.all isDigit = true then
        some (if negative then -(digitsValue digits : ℤ) else digitsValue digits)
      else none
    else none

/-- The digits behind a point, if there is one, and what is left. -/
def readFraction : Str → Str × Str
  | 0x2e :: r => (r.takeWhile isDigit, r.dropWhile isDigit)
  | r => ([], r)

/-- `Decimal(s)`, for a text of ASCII digits without a sign in front. -/
def ofStr (s : Str) : Option Decimal :=
  let whole := s.takeWhile isDigit
  let (fraction, r) := readFraction (s.dropWhile isDigit)
  if whole ++ fraction = [] then none
  else (readExponent r).map fun e => ⟨digitsValue (whole ++ fraction), e - fraction.length⟩

/-! ## Writing -/

/-- How many digits stand left of the point when no exponent is written. -/
def leftDigits (d : Decimal) : ℤ := d.exponent + (decimal d.coefficient).length

/-- `str(d)` writes no exponent. -/
def plain (d : Decimal) : Bool := decide (d.exponent ≤ 0 ∧ -6 < d.leftDigits)

/-- `n` zeros -/
def zeros (n : ℤ) : Str := List.replicate n.toNat 0x30

/-- `"%+d" % n` -/
def signed (n : ℤ) : Str := lit (if n < 0 then "-" else "+") ++ decimal n.natAbs

/-- `str(d)` -/
def text (d : Decimal) : Str :=
  let digits := decimal d.coefficient
  let point := if d.plain then d.leftDigits else 1
  let mantissa :=
    if point ≤ 0 then lit "0." ++ zeros (-point) ++ digits
    else if digits.length ≤ point then digits ++ zeros (point - digits.length)
    else digits.take point.toNat ++ lit "." ++ digits.drop point.toNat
  mantissa ++ if d.leftDigits = point then [] else lit "E" ++ signed (d.leftDigits - point)

/-! ## Computing in the default context -/

/-- `context.prec` -/
def prec : ℤ := 28

/-- `context.Emax` -/
def emax : ℤ := 999999

/-- `context.Etiny()` -/
def etiny : ℤ := -999999 - prec + 1

/-- `context.Etop()` -/
def etop : ℤ := emax - prec + 1

/-- The digits of a coefficient. -/
def width (n : Nat) : ℤ := (decimal n).length

/-- Rounds an exact result to the context, which traps what is above its range. -/
def fix (d : Decimal) : Py Decimal :=
  if d.coefficient = 0 then .ok ⟨0, min (max d.exponent etiny) emax⟩
  else
    let least := width d.coefficient + d.exponent - prec
    if etop < least then .error .arithmeticError
    else
      let e := max least etiny
      if e ≤ d.exponent then .ok d
      else
        let m := (Numeric.toEven (d.coefficient / 10 ^ (e - d.exponent))).toNat
        -- rounding up to the next power of ten takes a digit more
        let r : Decimal := if prec < width m then ⟨m / 10, e + 1⟩ else ⟨m, e⟩
        if etop < r.exponent then .error .arithmeticError else .ok r

/-- `a * b` -/
def mul (a b : Decimal) : Py Decimal := fix ⟨a.coefficient * b.coefficient, a.exponent + b.exponent⟩

/-- Trailing zeros go while the exponent is below the ideal one. -/
def towards (n : Nat) (e : ℤ) : Nat → Decimal
  | 0 => ⟨n, e⟩
  | k + 1 => if n % 10 = 0 then towards (n / 10) (e + 1) k else ⟨n, e⟩

/-- `a / b` -/
def div (a b : Decimal) : Py Decimal :=
  if b.coefficient = 0 then .error .arithmeticError
  else if a.coefficient = 0 then fix ⟨0, a.exponent - b.exponent⟩
  else
    let shift := width b.coefficient - width a.coefficient + prec + 1
    let e := a.exponent - b.exponent - shift
    let n := a.coefficient * 10 ^ shift.toNat
    let m := b.coefficient * 10 ^ (-shift).toNat
    -- an inexact quotient must not look like a tie or like an exact one
    if n % m ≠ 0 then fix ⟨if n / m % 5 = 0 then n / m + 1 else n / m, e⟩
    else fix (towards (n / m) e shift.toNat)

/-- The coefficient of the decimal at a smaller exponent. -/
def scaled (d : Decimal) (e : ℤ) : Nat := d.coefficient * 10 ^ (d.exponent - e).toNat

/-- `a + b` -/
def add (a b : Decimal) : Py Decimal :=
  let e := min a.exponent b.exponent
  fix ⟨a.scaled e + b.scaled e, e⟩

/-- `a > b` -/
def gt (a b : Decimal) : Bool :=
  let e := min a.exponent b.exponent
  b.scaled e < a.scaled e

/-- `sum(ds, d)` -/
def sum : Decimal → List Decimal → Py Decimal
  | acc, [] => .ok acc
  | acc, d :: ds => do sum (← acc.add d) ds

/-! ## Digits -/

theorem decimal_of_lt {n : Nat} (h : n < 10) : decimal n = [0x30 + n] := by
  unfold decimal
  rw [Codec.dec_digit h, List.map_singleton]
  interval_cases n <;> rfl

theorem decimal_snoc {n : Nat} (h : 10 ≤ n) : decimal n = decimal (n / 10) ++ [0x30 + n % 10] := by
  unfold decimal
  rw [Codec.dec_snoc h, List.map_append, List.map_singleton]
  have hd : n % 10 < 10 := Nat.mod_lt _ (by decide)
  generalize n % 10 = d at hd
  interval_cases d <;> rfl

theorem digitsValue_snoc (s : Str) (c : Nat) : digitsValue (s ++ [c]) = 10 * digitsValue s + (c - 0x30) := by
  unfold digitsValue
  rw [List.foldl_append]
  rfl

/-- The digits of a number are read back. -/
theorem digitsValue_decimal (n : Nat) : digitsValue (decimal n) = n := by
  induction n using Nat.strong_induction_on with
  | _ n ih =>
    by_cases h : n < 10
    · rw [decimal_of_lt h]
      show 10 * 0 + (0x30 + n - 0x30) = n
      omega
    · rw [decimal_snoc (by omega), digitsValue_snoc, ih (n / 10) (by omega)]
      omega

/-- Zeros in front change nothing. -/
theorem digitsValue_zeros (k : Nat) (s : Str) : digitsValue (List.replicate k 0x30 ++ s) = digitsValue s := by
  induction k with
  | zero => rfl
  | succ k ih =>
    rw [List.replicate_succ, List.cons_append]
    exact ih

theorem decimal_length_bounds {n : Nat} (h : n ≠ 0) :
    10 ^ ((decimal n).length - 1) ≤ n ∧ n < 10 ^ (decimal n).length := by
  induction n using Nat.strong_induction_on with
  | _ n ih =>
    by_cases hlt : n < 10
    · rw [decimal_of_lt hlt]
      simp
      omega
    · obtain ⟨hlo, hhi⟩ := ih (n / 10) (by omega) (by omega)
      rw [decimal_snoc (by omega), List.length_append, List.length_singleton]
      have hpos : 1 ≤ (decimal (n / 10)).length := List.length_pos_of_ne_nil (decimal_ne_nil _)
      rw [Nat.add_sub_cancel, pow_succ]
      obtain ⟨k, hk⟩ : ∃ k, (decimal (n / 10)).length = k + 1 := ⟨_, (Nat.sub_add_cancel hpos).symm⟩
      rw [hk] at hlo hhi ⊢
      rw [Nat.add_sub_cancel] at hlo
      rw [pow_succ] at hhi ⊢
      omega

/-! ## The text of a decimal is read back -/

/-- What follows a run of digits when the run ends there. -/
def Stops (r : Str) : Prop := ∀ c ∈ r.head?, isDigit c = false

theorem takeWhile_digits {w r : Str} (hw : ∀ c ∈ w, isDigit c = true) (hr : Stops r) :
    (w ++ r).takeWhile isDigit = w ∧ (w ++ r).dropWhile isDigit = r := by
  have hnone : r.takeWhile isDigit = [] := by
    cases r with
    | nil => rfl
    | cons c r => exact List.takeWhile_cons_of_neg (by simp [hr c rfl])
  rw [List.takeWhile_append_of_pos hw, hnone, List.append_nil, List.dropWhile_append_of_pos hw]
  exact ⟨rfl, Str.dropWhile_eq_self_of_head hr⟩

/-- A text without a point. -/
theorem ofStr_whole {w r : Str} (hne : w ≠ []) (hw : ∀ c ∈ w, isDigit c = true) (hr : Stops r)
    (hpoint : ∀ c ∈ r.head?, c ≠ 0x2e) :
    ofStr (w ++ r) = (readExponent r).map fun e => ⟨digitsValue w, e⟩ := by
  obtain ⟨htake, hdrop⟩ := takeWhile_digits hw hr
  unfold ofStr
  rw [htake, hdrop]
  have hsplit : readFraction r = ([], r) := by
    unfold readFraction
    split
    · exact absurd rfl (hpoint 0x2e rfl)
    · rfl
  rw [hsplit]
  simp [hne]

/-- A text with a point. -/
theorem ofStr_point {w f r : Str} (hne : w ≠ []) (hw : ∀ c ∈ w, isDigit c = true)
    (hf : ∀ c ∈ f, isDigit c = true) (hr : Stops r) :
    ofStr (w ++ lit "." ++ (f ++ r)) = (readExponent r).map fun e => ⟨digitsValue (w ++ f), e - f.length⟩ := by
  have hdot : Stops (lit "." ++ (f ++ r)) := by
    intro c hc
    cases hc
    rfl
  obtain ⟨htake, hdrop⟩ := takeWhile_digits hw hdot
  obtain ⟨hfront, hback⟩ := takeWhile_digits hf hr
  unfold ofStr
  rw [List.append_assoc, htake, hdrop]
  show (if w ++ (f ++ r).takeWhile isDigit = [] then none else
    (readExponent ((f ++ r).dropWhile isDigit)).map fun e =>
      (⟨digitsValue (w ++ (f ++ r).takeWhile isDigit), e - ((f ++ r).takeWhile isDigit).length⟩ : Decimal)) = _
  rw [hfront, hback, if_neg (by simp [hne])]

theorem all_decimal (n : Nat) : (decimal n).all isDigit = true :=
  List.all_eq_true.mpr fun _ hc => isDigit_of_mem_decimal hc

/-- A written exponent is read back. -/
theorem readExponent_signed (n : ℤ) : readExponent (lit "E" ++ signed n) = some n := by
  by_cases hneg : n < 0
  · have hs : signed n = 0x2d :: decimal n.natAbs := by
      rw [signed, if_pos hneg]
      rfl
    rw [hs]
    show (if decimal n.natAbs ≠ [] ∧ (decimal n.natAbs).all isDigit = true then
      some (-(digitsValue (decimal n.natAbs) : ℤ)) else none) = _
    rw [if_pos ⟨decimal_ne_nil _, all_decimal _⟩, digitsValue_decimal]
    congr 1
    omega
  · have hs : signed n = 0x2b :: decimal n.natAbs := by
      rw [signed, if_neg hneg]
      rfl
    rw [hs]
    show (if decimal n.natAbs ≠ [] ∧ (decimal n.natAbs).all isDigit = true then
      some (digitsValue (decimal n.natAbs) : ℤ) else none) = _
    rw [if_pos ⟨decimal_ne_nil _, all_decimal _⟩, digitsValue_decimal]
    congr 1
    omega

theorem isDigit_zeros {n : ℤ} {c : Nat} (h : c ∈ zeros n) : isDigit c = true := by
  rw [List.eq_of_mem_replicate h]
  rfl

theorem stops_exponent (n : ℤ) : Stops (lit "E" ++ signed n) := by
  intro c hc
  cases hc
  rfl

/-- Without an exponent the text is a run of digits, or two of them around a point, whose value is the
coefficient and whose second one is as long as the exponent says. -/
theorem text_of_plain {d : Decimal} (h : d.plain = true) :
    (∃ w, d.text = w ∧ w ≠ [] ∧ (∀ c ∈ w, isDigit c = true) ∧ digitsValue w = d.coefficient ∧ d.exponent = 0) ∨
    ∃ w f, d.text = w ++ lit "." ++ f ∧ w ≠ [] ∧ f ≠ [] ∧ (∀ c ∈ w, isDigit c = true) ∧ (∀ c ∈ f, isDigit c = true) ∧
      digitsValue (w ++ f) = d.coefficient ∧ d.exponent = -f.length := by
  have hplain := of_decide_eq_true h
  have hdigits : ∀ c ∈ decimal d.coefficient, isDigit c = true := fun _ => isDigit_of_mem_decimal
  have hne := decimal_ne_nil d.coefficient
  unfold text
  simp only [h, if_true, List.append_nil]
  have hleft : d.leftDigits = d.exponent + (decimal d.coefficient).length := rfl
  by_cases hzero : d.leftDigits ≤ 0
  · -- every digit is behind the point, and zeros before it
    refine Or.inr ⟨lit "0", zeros (-d.leftDigits) ++ decimal d.coefficient, ?_, by decide, by simp [hne],
      by decide, ?_, ?_, ?_⟩
    · rw [if_pos hzero, List.append_assoc]
      rfl
    · intro c hc
      rcases List.mem_append.mp hc with hc | hc
      · exact isDigit_zeros hc
      · exact hdigits c hc
    · show digitsValue (List.replicate 1 0x30 ++ (zeros (-d.leftDigits) ++ decimal d.coefficient)) = _
      rw [digitsValue_zeros, zeros, digitsValue_zeros, digitsValue_decimal]
    · rw [List.length_append, zeros, List.length_replicate]
      omega
  · rw [if_neg hzero]
    by_cases hall : (decimal d.coefficient).length ≤ d.leftDigits
    · have hexp : d.exponent = 0 := by omega
      refine Or.inl ⟨_, rfl, ?_, ?_, ?_, hexp⟩
      · rw [if_pos hall]
        simp [hne]
      · rw [if_pos hall]
        intro c hc
        rcases List.mem_append.mp hc with hc | hc
        · exact hdigits c hc
        · exact isDigit_zeros hc
      · rw [if_pos hall, zeros, show (d.leftDigits - (decimal d.coefficient).length).toNat = 0 by omega,
          List.replicate_zero, List.append_nil, digitsValue_decimal]
    · rw [if_neg hall]
      have hk : d.leftDigits.toNat < (decimal d.coefficient).length := by omega
      refine Or.inr ⟨_, _, rfl, ?_, ?_, fun c hc => hdigits c (List.mem_of_mem_take hc),
        fun c hc => hdigits c (List.mem_of_mem_drop hc), ?_, ?_⟩
      · intro hnil
        have := congrArg List.length hnil
        rw [List.length_take, List.length_nil] at this
        omega
      · intro hnil
        have := congrArg List.length hnil
        rw [List.length_drop, List.length_nil] at this
        omega
      · rw [List.take_append_drop, digitsValue_decimal]
      · rw [List.length_drop]
        omega

/-- With an exponent one digit stands left of the point. -/
theorem ofStr_text_of_not_plain {d : Decimal} (h : d.plain = false) : ofStr d.text = some d := by
  have hdigits : ∀ c ∈ decimal d.coefficient, isDigit c = true := fun _ => isDigit_of_mem_decimal
  have hlen : 1 ≤ (decimal d.coefficient).length := List.length_pos_of_ne_nil (decimal_ne_nil _)
  have hleft : d.leftDigits = d.exponent + (decimal d.coefficient).length := rfl
  have hpower : d.leftDigits ≠ 1 := by
    intro hone
    have := of_decide_eq_false h
    omega
  unfold text
  simp only [h, Bool.false_eq_true, if_false]
  rw [if_neg (show ¬ (1 : ℤ) ≤ 0 by decide), if_neg hpower]
  by_cases hone : (decimal d.coefficient).length = 1
  · rw [if_pos (by omega), hone]
    show ofStr (decimal d.coefficient ++ [] ++ _) = _
    rw [List.append_nil, ofStr_whole (decimal_ne_nil _) hdigits (stops_exponent _) (by
      intro c hc
      cases hc
      decide), readExponent_signed, digitsValue_decimal, Option.map_some]
    congr 1
    cases d
    simp only [Decimal.mk.injEq, true_and]
    simp only at hleft hone ⊢
    omega
  · rw [if_neg (by omega), List.append_assoc, ofStr_point
      (by
        intro hnil
        have := congrArg List.length hnil
        rw [List.length_take, List.length_nil] at this
        omega)
      (fun c hc => hdigits c (List.mem_of_mem_take hc)) (fun c hc => hdigits c (List.mem_of_mem_drop hc))
      (stops_exponent _), readExponent_signed, List.take_append_drop, digitsValue_decimal, Option.map_some,
      List.length_drop]
    congr 1
    cases d
    simp only [Decimal.mk.injEq, true_and]
    simp only at hleft hlen ⊢
    omega

/-- **The text of a decimal is read back as the decimal.** -/
theorem ofStr_text (d : Decimal) : ofStr d.text = some d := by
  cases h : d.plain with
  | false => exact ofStr_text_of_not_plain h
  | true =>
    have hstops : Stops [] := fun c hc => by cases hc
    rcases text_of_plain h with ⟨w, htext, hne, hw, hvalue, hexp⟩ | ⟨w, f, htext, hne, -, hw, hf, hvalue, hexp⟩
    · have := ofStr_whole (r := []) hne hw hstops (fun c hc => by cases hc)
      rw [List.append_nil] at this
      rw [htext, this, hvalue]
      show some (⟨d.coefficient, 0⟩ : Decimal) = _
      rw [← hexp]
    · have := ofStr_point (r := []) hne hw hf hstops
      rw [List.append_nil] at this
      rw [htext, this, hvalue]
      show some (⟨d.coefficient, 0 - f.length⟩ : Decimal) = _
      rw [Int.zero_sub, ← hexp]

/-! ## What the text is made of -/

theorem lt_of_isDigit {c : Nat} (h : isDigit c = true) : c < 0x80 := by
  unfold isDigit at h
  simp only [Bool.and_eq_true, decide_eq_true_eq] at h
  omega

theorem ascii_decimal {n c : Nat} (h : c ∈ decimal n) : c < 0x80 := lt_of_isDigit (isDigit_of_mem_decimal h)

theorem ascii_signed {n : ℤ} {c : Nat} (h : c ∈ lit "E" ++ signed n) : c < 0x80 := by
  unfold signed at h
  rcases List.mem_append.mp h with hc | hc
  · obtain rfl : c = 0x45 := List.mem_singleton.mp hc
    decide
  · rcases List.mem_append.mp hc with hc | hc
    · split at hc
      · obtain rfl : c = 0x2d := List.mem_singleton.mp hc
        decide
      · obtain rfl : c = 0x2b := List.mem_singleton.mp hc
        decide
    · exact ascii_decimal hc

theorem ascii_text {d : Decimal} {c : Nat} (h : c ∈ d.text) : c < 0x80 := by
  have hpoint : ∀ x, x ∈ lit "." → x < 0x80 := by decide
  have hzero : ∀ x, x ∈ lit "0." → x < 0x80 := by decide
  unfold text at h
  dsimp only at h
  generalize (if d.plain = true then d.leftDigits else 1) = point at h
  rcases List.mem_append.mp h with hc | hc
  · split at hc
    · -- zeros, and the digits behind them
      rcases List.mem_append.mp hc with hc | hc
      · rcases List.mem_append.mp hc with hc | hc
        · exact hzero c hc
        · exact lt_of_isDigit (isDigit_zeros hc)
      · exact ascii_decimal hc
    · split at hc
      · rcases List.mem_append.mp hc with hc | hc
        · exact ascii_decimal hc
        · exact lt_of_isDigit (isDigit_zeros hc)
      · rcases List.mem_append.mp hc with hc | hc
        · rcases List.mem_append.mp hc with hc | hc
          · exact ascii_decimal (List.mem_of_mem_take hc)
          · exact hpoint c hc
        · exact ascii_decimal (List.mem_of_mem_drop hc)
  · split at hc
    · cases hc
    · exact ascii_signed hc

/-- Where the text is not plain, an `E` stands in it. -/
theorem exponent_mem_text {d : Decimal} (h : d.plain = false) : 0x45 ∈ d.text := by
  have hlen : 1 ≤ (decimal d.coefficient).length := List.length_pos_of_ne_nil (decimal_ne_nil _)
  have hleft : d.leftDigits = d.exponent + (decimal d.coefficient).length := rfl
  have hpower : d.leftDigits ≠ 1 := by
    intro hone
    have := of_decide_eq_false h
    omega
  unfold text
  simp only [h, Bool.false_eq_true, if_false]
  rw [if_neg hpower]
  exact List.mem_append_right _ (List.mem_append_left _ List.mem_cons_self)

/-! ## When no exponent is written -/

/-- At least a millionth, or a zero of at most six places. -/
def Ordinary (d : Decimal) : Prop := 10 ^ (-6 : ℤ) ≤ d.value ∨ d.coefficient = 0 ∧ -6 ≤ d.exponent

theorem plain_iff {d : Decimal} (h : d.exponent ≤ 0) : d.plain = true ↔ d.Ordinary := by
  have hplain : d.plain = true ↔ -6 < d.leftDigits := by
    rw [plain, decide_eq_true_iff]
    exact and_iff_right h
  have hleft : d.leftDigits = d.exponent + (decimal d.coefficient).length := rfl
  rw [hplain]
  by_cases hzero : d.coefficient = 0
  · have hlen : (decimal d.coefficient).length = 1 := by
      rw [hzero, decimal_of_lt (by decide)]
      rfl
    rw [hleft, hlen]
    constructor
    · intro hd
      exact Or.inr ⟨hzero, by omega⟩
    · rintro (hvalue | ⟨-, hd⟩)
      · rw [value, hzero, Nat.cast_zero, zero_mul] at hvalue
        have : (0 : ℚ) < 10 ^ (-6 : ℤ) := zpow_pos (by norm_num) _
        exact absurd hvalue (not_le.mpr this)
      · omega
  · obtain ⟨hlo, hhi⟩ := decimal_length_bounds hzero
    have hlen : 1 ≤ (decimal d.coefficient).length := List.length_pos_of_ne_nil (decimal_ne_nil _)
    have hten : (1 : ℚ) < 10 := by norm_num
    have hpow : (0 : ℚ) < 10 ^ d.exponent := zpow_pos (by norm_num) _
    -- the value lies between two powers of ten, one place apart
    have hupper : d.value < 10 ^ d.leftDigits := by
      rw [hleft, add_comm, zpow_add₀ (by norm_num), zpow_natCast]
      exact mul_lt_mul_of_pos_right (by exact_mod_cast hhi) hpow
    have hlower : (10 : ℚ) ^ (d.leftDigits - 1) ≤ d.value := by
      have hsplit : d.leftDigits - 1 = ((decimal d.coefficient).length - 1 : ℕ) + d.exponent := by omega
      rw [hsplit, zpow_add₀ (by norm_num), zpow_natCast]
      exact mul_le_mul_of_nonneg_right (by exact_mod_cast hlo) hpow.le
    constructor
    · intro hd
      exact Or.inl (le_trans (zpow_le_zpow_right₀ hten.le (by omega)) hlower)
    · rintro (hvalue | ⟨hc, -⟩)
      · exact (zpow_lt_zpow_iff_right₀ hten).mp (lt_of_le_of_lt hvalue hupper)
      · exact absurd hc hzero

end Decimal

end LocalPlatform.Python
