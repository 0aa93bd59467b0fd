/-
# LocalPlatform.Python.Double — Python floats.

A `float` is an IEEE 754 double.  It is kept by its value: a rational number, the negative zero, an
infinity, or no number at all.  Reading a decimal text rounds it to the nearest double, ties to even;
`repr` shows the shortest decimal that rounds back to the float, and the nearest of the shortest.
-/
import LocalPlatform.Codec.Bytes
import LocalPlatform.Numeric.Rounding
import LocalPlatform.Python.Text

namespace LocalPlatform.Python

/-- A Python `float`. -/
inductive Double where
  | finite (q : ℚ)
  | negativeZero
  | infinite (negative : Bool)
  | nan
  deriving DecidableEq

/-- The decimal digits of a natural number. -/
def decimal (n : Nat) : Str := (Codec.dec n).map UInt8.toNat

/-- The code point of a decimal digit. -/
def isDigit (c : Nat) : Bool := 0x30 ≤ c && c ≤ 0x39

theorem decimal_ne_nil (n : Nat) : decimal n ≠ [] := by
  intro h
  exact Codec.dec_ne_nil n (List.map_eq_nil_iff.mp h)

theorem isDigit_of_mem_decimal {n c : Nat} (h : c ∈ decimal n) : isDigit c = true := by
  obtain ⟨b, hb, rfl⟩ := List.mem_map.mp h
  have hdigit := Codec.isDigit_of_mem_dec hb
  simp only [Codec.isDigit, Bool.and_eq_true, decide_eq_true_eq] at hdigit
  simp only [isDigit, Bool.and_eq_true, decide_eq_true_eq]
  exact ⟨UInt8.le_iff_toNat_le.mp hdigit.1, UInt8.le_iff_toNat_le.mp hdigit.2⟩

namespace Double

/-! ## Reading -/

/-- The distance of neighbouring doubles around a positive number. -/
def ulp (q : ℚ) : ℚ := max (2 ^ (Int.log 2 q - 52)) (2 ^ (-1074 : ℤ))

/-- The double nearest to a number with the sign `negative`. -/
def ofMagnitude (negative : Bool) (q : ℚ) : Double :=
  let m := Numeric.toEven (q / ulp q) * ulp q
  if q = 0 ∨ m = 0 then if negative then .negativeZero else .finite 0
  else if 2 ^ 1024 ≤ m then .infinite negative
  else .finite (if negative then -m else m)

/-! ## Showing -/

/-- Coefficient and exponent of the shortest decimal that reads back as the positive double `q`, if one
of `n` digits does. -/
def shortestOf (q : ℚ) (n : Nat) : Option (Nat × ℤ) :=
  let e := Int.log 10 q - n + 1
  let x := q / 10 ^ e
  let back := fun m : Nat => ofMagnitude false (m * 10 ^ e) = .finite q
  let low := ⌊x⌋.toNat
  let near := if x - low ≤ 1 / 2 then low else low + 1
  let far := if x - low ≤ 1 / 2 then low + 1 else low
  -- rounding up to the next power of ten leaves a digit too many
  let digits := fun m => if m = 10 ^ n then (10 ^ (n - 1), e + 1) else (m, e)
  if back near then some (digits near) else if back far then some (digits far) else none

/-- The shortest decimal that reads back as the positive double `q`: seventeen digits always do. -/
def shortest (q : ℚ) : Nat × ℤ :=
  ((List.range 17).findSome? fun n => shortestOf q (n + 1)).getD (0, 0)

/-- Digits with the point behind `point` of them, or with an exponent where that would be too long. -/
def layout (digits : Str) (point : ℤ) : Str :=
  if -4 < point ∧ point ≤ 16 then
    if point ≤ 0 then lit "0." ++ List.replicate (-point).toNat 0x30 ++ digits
    else if digits.length ≤ point then
      digits ++ List.replicate (point.toNat - digits.length) 0x30 ++ lit ".0"
    else digits.take point.toNat ++ lit "." ++ digits.drop point.toNat
  else
    let power := (point - 1).natAbs
    digits.take 1 ++ (if digits.length = 1 then [] else lit "." ++ digits.drop 1)
      ++ lit (if point < 1 then "e-" else "e+") ++ (if power < 10 then lit "0" else []) ++ decimal power

/-- `repr` of a positive number. -/
def reprPositive (q : ℚ) : Str :=
  let (m, e) := shortest q
  layout (decimal m) ((decimal m).length + e)

/-- `repr` -/
def repr : Double → Str
  | .finite q => if q = 0 then lit "0.0" else if q < 0 then lit "-" ++ reprPositive (-q) else reprPositive q
  | .negativeZero => lit "-0.0"
  | .infinite negative => if negative then lit "-inf" else lit "inf"
  | .nan => lit "nan"

/-! ## Order -/

/-- `x < y`; a `nan` is in no order. -/
def lt : Double → Double → Bool
  | .nan, _ => false
  | _, .nan => false
  | .infinite a, .infinite b => a && !b
  | .infinite a, _ => a
  | _, .infinite b => !b
  | .finite p, .finite q => p < q
  | .finite p, .negativeZero => p < 0
  | .negativeZero, .finite q => 0 < q
  | .negativeZero, .negativeZero => false

end Double

end LocalPlatform.Python
