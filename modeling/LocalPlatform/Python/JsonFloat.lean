/-
# LocalPlatform.Python.JsonFloat — a float that was written is read.

`json.dump` writes a float as `repr` shows it: digits, and behind them a point with digits, an exponent, or both.  Whatever
float it is, `scan_once` reads all of that text, and as a float (`scanNumber_repr`).  Which float it is does not matter here.
-/
import LocalPlatform.Python.Json

namespace LocalPlatform.Python.Json

open Decimal (Stops takeWhile_digits)

/-! ## Parts of a number -/

/-- Digits, one at least. -/
structure Digits (s : Str) : Prop where
  ne_nil : s ≠ []
  digits : ∀ c ∈ s, isDigit c = true

/-- The digits in front of a point: no zero but one alone begins them. -/
structure Whole (s : Str) : Prop extends Digits s where
  head : s = [0x30] ∨ ∀ c ∈ s.head?, c ≠ 0x30

/-- The text of a number with a fraction, an exponent, or both. -/
inductive IsFloat : Str → Prop
  | fraction {whole digits : Str} (hwhole : Whole whole) (hdigits : Digits digits) : IsFloat (whole ++ 0x2e :: digits)
  | exponent {whole digits : Str} {sign : Nat} (hwhole : Whole whole) (hsign : sign = 0x2b ∨ sign = 0x2d) (hdigits : Digits digits) :
      IsFloat (whole ++ 0x65 :: sign :: digits)
  | both {whole fraction digits : Str} {sign : Nat} (hwhole : Whole whole) (hfraction : Digits fraction)
      (hsign : sign = 0x2b ∨ sign = 0x2d) (hdigits : Digits digits) :
      IsFloat (whole ++ 0x2e :: (fraction ++ 0x65 :: sign :: digits))

theorem Digits.decimal (n : Nat) : Digits (decimal n) := ⟨decimal_ne_nil n, fun _ => isDigit_of_mem_decimal⟩

theorem Digits.append {s t : Str} (hs : Digits s) (ht : ∀ c ∈ t, isDigit c = true) : Digits (s ++ t) :=
  ⟨fun h => hs.ne_nil (List.append_eq_nil_iff.mp h).1, fun c hc => (List.mem_append.mp hc).elim (hs.digits c) (ht c)⟩

/-- Digits behind zeros. -/
theorem Digits.zeros (n : Nat) {s : Str} (hs : Digits s) : Digits (List.replicate n 0x30 ++ s) := by
  refine ⟨fun h => hs.ne_nil (List.append_eq_nil_iff.mp h).2, fun c hc => (List.mem_append.mp hc).elim (fun hc => ?_) (hs.digits c)⟩
  rw [List.eq_of_mem_replicate hc]
  rfl

theorem stops_of_ends {r : Str} (h : Ends r) : Stops r := fun c hc => (h c hc).1

theorem stops_cons {c : Nat} (h : isDigit c = false) (r : Str) : Stops (c :: r) := fun d hd => by
  obtain rfl := Option.some.inj hd
  exact h

/-! ## Reading them -/

theorem scanFraction_digits {digits r : Str} (hdigits : Digits digits) (hr : Stops r) :
    scanFraction (0x2e :: (digits ++ r)) = (digits, r) := by
  obtain ⟨c, ds, rfl⟩ := List.exists_cons_of_ne_nil hdigits.ne_nil
  obtain ⟨htake, hdrop⟩ := takeWhile_digits hdigits.digits hr
  rw [List.cons_append] at htake hdrop ⊢
  rw [scanFraction, if_pos (hdigits.digits c List.mem_cons_self), htake, hdrop]

/-- No fraction begins with the letter of an exponent. -/
theorem scanFraction_exponent (r : Str) : scanFraction (0x65 :: r) = ([], 0x65 :: r) := rfl

theorem scanExponent_digits {sign : Nat} (hsign : sign = 0x2b ∨ sign = 0x2d) {digits : Str} (hdigits : Digits digits) :
    ∃ n, ∀ r, Stops r → scanExponent (0x65 :: sign :: (digits ++ r)) = (some n, r) := by
  rcases hsign with rfl | rfl
  · refine ⟨Decimal.digitsValue digits, fun r hr => ?_⟩
    obtain ⟨htake, hdrop⟩ := takeWhile_digits hdigits.digits hr
    simp [scanExponent, htake, hdrop, hdigits.ne_nil]
  · refine ⟨-(Decimal.digitsValue digits : ℤ), fun r hr => ?_⟩
    obtain ⟨htake, hdrop⟩ := takeWhile_digits hdigits.digits hr
    simp [scanExponent, htake, hdrop, hdigits.ne_nil]

/-- The digits in front are read to their end. -/
theorem Whole.scanned {whole : Str} (h : Whole whole) {r : Str} (hr : Stops r) :
    (if (whole ++ r).head? = some 0x30 then [0x30] else (whole ++ r).takeWhile isDigit) = whole := by
  rcases h.head with rfl | hhead
  · exact if_pos rfl
  · rw [if_neg]
    · exact (takeWhile_digits h.digits hr).1
    · obtain ⟨c, s, rfl⟩ := List.exists_cons_of_ne_nil h.ne_nil
      intro hzero
      exact hhead c rfl (Option.some.inj hzero)

/-- The float that the parts of a number make. -/
def floatOf (negative : Bool) (whole fraction : Str) (exponent : Option ℤ) : Double :=
  Double.ofMagnitude negative (Decimal.digitsValue (whole ++ fraction) * 10 ^ (exponent.getD 0 - fraction.length))

/-- A number is a float if it has a fraction or an exponent. -/
theorem scanNumber_parts {negative : Bool} {whole t fraction behind r : Str} {exponent : Option ℤ} (hwhole : Whole whole) (ht : Stops t)
    (hfraction : scanFraction t = (fraction, behind)) (hexponent : scanExponent behind = (exponent, r))
    (hpart : ¬ (fraction = [] ∧ exponent = none)) :
    scanNumber negative (whole ++ t) = .ok (.float (floatOf negative whole fraction exponent), r) := by
  unfold scanNumber
  simp only [hwhole.scanned ht, List.drop_left, hfraction, hexponent]
  rw [if_neg hwhole.ne_nil, if_neg hpart]
  rfl

/-- **Such a text is read to its end, as a float.** -/
theorem scanNumber_float (negative : Bool) {s : Str} (h : IsFloat s) :
    ∃ y, ∀ r, Ends r → scanNumber negative (s ++ r) = .ok (.float y, r) := by
  cases h with
  | @fraction whole digits hwhole hdigits =>
    refine ⟨floatOf negative whole digits none, fun r hr => ?_⟩
    rw [List.append_assoc, List.cons_append]
    exact scanNumber_parts hwhole (stops_cons rfl _) (scanFraction_digits hdigits (stops_of_ends hr)) (scanExponent_ends hr)
      fun hpart => hdigits.ne_nil hpart.1
  | @exponent whole digits sign hwhole hsign hdigits =>
    obtain ⟨n, hn⟩ := scanExponent_digits hsign hdigits
    refine ⟨floatOf negative whole [] (some n), fun r hr => ?_⟩
    rw [List.append_assoc, List.cons_append, List.cons_append]
    exact scanNumber_parts hwhole (stops_cons rfl _) (scanFraction_exponent _) (hn r (stops_of_ends hr))
      fun hpart => Option.some_ne_none n hpart.2
  | @both whole fraction digits sign hwhole hfraction hsign hdigits =>
    obtain ⟨n, hn⟩ := scanExponent_digits hsign hdigits
    refine ⟨floatOf negative whole fraction (some n), fun r hr => ?_⟩
    rw [List.append_assoc, List.cons_append, List.append_assoc, List.cons_append, List.cons_append]
    exact scanNumber_parts hwhole (stops_cons rfl _) (scanFraction_digits hfraction (stops_cons rfl _)) (hn r (stops_of_ends hr))
      fun hpart => hfraction.ne_nil hpart.1

/-- It begins with a digit. -/
theorem IsFloat.head {s : Str} (h : IsFloat s) : ∃ c r, s = c :: r ∧ isDigit c = true := by
  have hfront : ∀ {whole : Str}, Whole whole → ∀ t, ∃ c r, whole ++ t = c :: r ∧ isDigit c = true := by
    intro whole hwhole t
    obtain ⟨c, r, rfl⟩ := List.exists_cons_of_ne_nil hwhole.ne_nil
    exact ⟨c, r ++ t, rfl, hwhole.digits c List.mem_cons_self⟩
  cases h with
  | fraction hwhole _ => exact hfront hwhole _
  | exponent hwhole _ _ => exact hfront hwhole _
  | both hwhole _ _ _ => exact hfront hwhole _

/-! ## What `repr` shows -/

/-- Digits in which a zero begins nothing. -/
theorem whole_of_head {s : Str} (h : Digits s) (hhead : ∀ c ∈ s.head?, c ≠ 0x30) : Whole s := ⟨h, .inr hhead⟩

/-- **Digits laid out** with a point or an exponent. -/
theorem isFloat_layout {digits : Str} (hdigits : Digits digits) (hhead : ∀ c ∈ digits.head?, c ≠ 0x30) (point : ℤ) :
    IsFloat (Double.layout digits point) := by
  obtain ⟨d, ds, rfl⟩ := List.exists_cons_of_ne_nil hdigits.ne_nil
  have hd : isDigit d = true := hdigits.digits d List.mem_cons_self
  -- the first digit is not 0, so that what begins with it is a whole part
  have hfront : ∀ t : Str, (∀ c ∈ t, isDigit c = true) → Whole (d :: t) := fun t ht =>
    whole_of_head ⟨List.cons_ne_nil d t, fun c hc => (List.mem_cons.mp hc).elim (fun h => h ▸ hd) (ht c)⟩ fun c hc => hhead c hc
  have htail : ∀ c ∈ ds, isDigit c = true := fun c hc => hdigits.digits c (List.mem_cons_of_mem d hc)
  unfold Double.layout
  split
  · split
    · -- zeros between the point and the digits
      have hzero : Whole [0x30] := ⟨⟨List.cons_ne_nil _ _, fun c hc => by rw [List.mem_singleton.mp hc]; rfl⟩, .inl rfl⟩
      rw [List.append_assoc]
      exact .fraction hzero (hdigits.zeros _)
    · next hpos =>
      split
      · -- zeros between the digits and the point
        exact .fraction (hfront _ fun c hc => (List.mem_append.mp hc).elim (htail c) fun hc => by
          rw [List.eq_of_mem_replicate hc]
          rfl) (Digits.decimal 0)
      · next hlen =>
        obtain ⟨k, hk⟩ : ∃ k, point.toNat = k + 1 := ⟨point.toNat - 1, by omega⟩
        rw [hk, List.take_succ_cons, List.drop_succ_cons, List.append_assoc]
        refine .fraction (hfront _ fun c hc => htail c (List.mem_of_mem_take hc)) ⟨fun hnil => ?_, fun c hc =>
          htail c (List.mem_of_mem_drop hc)⟩
        have hdrop := List.drop_eq_nil_iff.mp hnil
        simp only [List.length_cons] at hlen
        omega
  · -- an exponent of two digits at least
    have hpower : Digits ((if (point - 1).natAbs < 10 then lit "0" else []) ++ decimal (point - 1).natAbs) := by
      split
      · exact (Digits.decimal _).zeros 1
      · exact Digits.decimal _
    have hone : Whole [d] := hfront [] fun c hc => absurd hc List.not_mem_nil
    obtain ⟨sign, hsign, hletter⟩ : ∃ sign : Nat, (sign = 0x2b ∨ sign = 0x2d) ∧ lit (if point < 1 then "e-" else "e+") = [0x65, sign] := by
      split
      · exact ⟨0x2d, .inr rfl, rfl⟩
      · exact ⟨0x2b, .inl rfl, rfl⟩
    dsimp only
    rw [hletter, List.append_assoc (_ ++ [0x65, sign])]
    cases ds with
    | nil => exact .exponent hone hsign hpower
    | cons e ds =>
      have hlong : ¬ (d :: e :: ds).length = 1 := by simp
      rw [if_neg hlong]
      have hboth := IsFloat.both hone ⟨List.cons_ne_nil e ds, htail⟩ hsign hpower
      show IsFloat ([d] ++ 0x2e :: (e :: ds) ++ [0x65, sign] ++ _)
      simpa only [List.append_assoc, List.cons_append, List.nil_append] using hboth

/-- The coefficient is not zero, but where no decimal was found. -/
theorem shortest_ne_zero {q : ℚ} (hq : q ≠ 0) : (Double.shortest q).1 ≠ 0 ∨ Double.shortest q = (0, 0) := by
  unfold Double.shortest
  cases hfound : (List.range 17).findSome? fun n => Double.shortestOf q (n + 1) with
  | none => exact .inr rfl
  | some p =>
    left
    obtain ⟨n, -, hn⟩ := List.exists_of_findSome?_eq_some hfound
    -- zero reads back as zero
    have hback : ∀ m : Nat, ∀ e : ℤ, Double.ofMagnitude false (m * 10 ^ e) = .finite q → m ≠ 0 := by
      rintro m e hm rfl
      have hzero : Double.ofMagnitude false (((0 : Nat) : ℚ) * 10 ^ e) = .finite 0 := by
        unfold Double.ofMagnitude
        rw [if_pos (.inl (by simp)), if_neg Bool.false_ne_true]
      rw [hzero] at hm
      exact hq (Double.finite.inj hm).symm
    have hdigits : ∀ m : Nat, ∀ e : ℤ, m ≠ 0 → (if m = 10 ^ (n + 1) then (10 ^ (n + 1 - 1), e + 1) else (m, e)).1 ≠ 0 := by
      intro m e hm
      split
      · exact (Nat.pow_pos (by decide)).ne'
      · exact hm
    -- whichever of the two neighbours it is
    have hneighbour : ∀ near far : Nat, ∀ e : ℤ,
        (if Double.ofMagnitude false (near * 10 ^ e) = .finite q then some (if near = 10 ^ (n + 1) then (10 ^ (n + 1 - 1), e + 1) else (near, e))
          else if Double.ofMagnitude false (far * 10 ^ e) = .finite q then
            some (if far = 10 ^ (n + 1) then (10 ^ (n + 1 - 1), e + 1) else (far, e))
          else none) = some p → p.1 ≠ 0 := by
      intro near far e h
      split at h
      · next hnear =>
        rw [← Option.some.inj h]
        exact hdigits _ _ (hback _ _ hnear)
      · split at h
        · next hfar =>
          rw [← Option.some.inj h]
          exact hdigits _ _ (hback _ _ hfar)
        · cases h
    exact hneighbour _ _ _ hn

theorem isFloat_zero : IsFloat (lit "0.0") := @IsFloat.fraction (decimal 0) (decimal 0) ⟨Digits.decimal 0, .inl rfl⟩ (Digits.decimal 0)

/-- What is shown of a number that is not zero, its sign apart. -/
theorem isFloat_reprPositive {q : ℚ} (hq : q ≠ 0) : IsFloat (Double.reprPositive q) := by
  unfold Double.reprPositive
  rcases shortest_ne_zero hq with hpos | hzero
  · refine isFloat_layout (Digits.decimal (Double.shortest q).1) (fun c hc => ?_) _
    obtain ⟨d, r, heq, -, hne⟩ := decimal_head hpos
    rw [heq] at hc
    obtain rfl := Option.some.inj hc
    exact hne
  · rw [hzero]
    exact isFloat_zero

/-- **What is written for a float**: a constant, or such a text, with a sign in front or none. -/
theorem floatText_cases (x : Double) : (x = .nan ∨ ∃ negative, x = .infinite negative) ∨
    ∃ t, IsFloat t ∧ (floatText x = t ∨ floatText x = 0x2d :: t) := by
  cases x with
  | nan => exact .inl (.inl rfl)
  | infinite negative => exact .inl (.inr ⟨negative, rfl⟩)
  | negativeZero => exact .inr ⟨_, isFloat_zero, .inr rfl⟩
  | finite q =>
    have htext : floatText (.finite q) =
        if q = 0 then lit "0.0" else if q < 0 then lit "-" ++ Double.reprPositive (-q) else Double.reprPositive q := rfl
    right
    by_cases hq : q = 0
    · exact ⟨_, isFloat_zero, .inl (htext.trans (if_pos hq))⟩
    · by_cases hneg : q < 0
      · exact ⟨_, isFloat_reprPositive (neg_ne_zero.mpr hq), .inr (htext.trans ((if_neg hq).trans (if_pos hneg)))⟩
      · exact ⟨_, isFloat_reprPositive hq, .inl (htext.trans ((if_neg hq).trans (if_neg hneg)))⟩

end LocalPlatform.Python.Json
