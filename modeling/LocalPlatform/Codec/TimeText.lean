/-
# LocalPlatform.Codec.TimeText — a written time is read back.

The calendar in both directions: every day of the years `0..9999` has a year, a month and a day of the
month, and these have its number (`date_of_day`).  With it the text of a time denotes that time
(`parse_rfc3339Nano`), nanoseconds included, provided its offset is a whole number of minutes; seconds
of an offset have no place in the text.
-/
import LocalPlatform.Codec.Time
import Mathlib.Data.List.TakeWhile

namespace LocalPlatform.Codec.Time

/-! ## Days, months and years -/

/-- A year takes 365.2425 days, give or take two. -/
theorem daysBeforeYear_bounds (y : Nat) :
    146097 * y ≤ 400 * daysBeforeYear y + 396 ∧ 400 * daysBeforeYear y ≤ 146097 * y + 699 := by
  unfold daysBeforeYear
  omega

theorem calendarDays_le {y : Nat} (h : 10000 ≤ y) : calendarDays ≤ daysBeforeYear y := by
  unfold daysBeforeYear calendarDays
  omega

/-- **`yearOf`** finds the year of a day: its estimate is off by at most one. -/
theorem year_of_day {n : Nat} (h : n < calendarDays) :
    daysBeforeYear (yearOf n) ≤ n ∧ n < daysBeforeYear (yearOf n + 1) ∧ yearOf n ≤ 9999 := by
  -- the estimate is off by a year at most
  have hestimate : 146097 * (n * 400 / 146097) ≤ n * 400 ∧
      n * 400 < 146097 * (n * 400 / 146097) + 146097 := by omega
  unfold yearOf
  dsimp only
  generalize n * 400 / 146097 = y at hestimate ⊢
  have hbefore := daysBeforeYear_bounds (y - 1)
  have hafter := daysBeforeYear_bounds (y + 1 + 1)
  by_cases h1 : daysBeforeYear (y + 1) ≤ n
  · rw [if_pos h1]
    have hy : ¬ 10000 ≤ y + 1 := fun hy => by have := calendarDays_le hy; omega
    exact ⟨h1, by omega, by omega⟩
  · rw [if_neg h1]
    by_cases h2 : daysBeforeYear y ≤ n
    · rw [if_pos h2]
      have hy : ¬ 10000 ≤ y := fun hy => by have := calendarDays_le hy; omega
      exact ⟨h2, by omega, by omega⟩
    · rw [if_neg h2]
      have hpos : y ≠ 0 := by
        rintro rfl
        exact h2 (by simp [daysBeforeYear])
      have hy : ¬ 10000 ≤ y - 1 := fun hy => by have := calendarDays_le hy; omega
      have hsucc : y - 1 + 1 = y := by omega
      exact ⟨by omega, by rw [hsucc]; omega, by omega⟩

theorem daysBeforeYear_succ (y : Nat) : daysBeforeYear (y + 1) = daysBeforeYear y + 365 + (leap y).toNat := by
  have h4 : (y + 1 + 3) / 4 = (y + 3) / 4 + (if y % 4 = 0 then 1 else 0) := by split <;> omega
  have h100 : (y + 1 + 99) / 100 = (y + 99) / 100 + (if y % 100 = 0 then 1 else 0) := by split <;> omega
  have h400 : (y + 1 + 399) / 400 = (y + 399) / 400 + (if y % 400 = 0 then 1 else 0) := by split <;> omega
  have hle : (y + 99) / 100 ≤ 365 * y + (y + 3) / 4 := by omega
  have hleap : (leap y).toNat + (if y % 100 = 0 then 1 else 0) =
      (if y % 4 = 0 then 1 else 0) + (if y % 400 = 0 then 1 else 0) := by
    have h1 : y % 100 = 0 → y % 4 = 0 := by omega
    have h2 : y % 400 = 0 → y % 100 = 0 := by omega
    unfold leap
    by_cases a : y % 4 = 0 <;> by_cases b : y % 100 = 0 <;> by_cases c : y % 400 = 0 <;> simp [a, b, c] <;> omega
  unfold daysBeforeYear
  rw [h4, h100, h400]
  omega

/-- The day of the year on which a month starts, from 0. -/
def monthStart (y m : Nat) : Nat := daysBeforeMonth m + (if 2 < m then (leap y).toNat else 0)

theorem monthStart_succ {y m : Nat} (h1 : 1 ≤ m) (h2 : m ≤ 12) :
    monthStart y (m + 1) = monthStart y m + daysIn m y := by
  interval_cases m <;> simp [monthStart, daysIn, daysBeforeMonth] <;> omega

theorem monthStart_le {y i j : Nat} (hi : 1 ≤ i) (hij : i ≤ j) (hj : j ≤ 13) : monthStart y i ≤ monthStart y j := by
  induction j, hij using Nat.le_induction with
  | base => exact Nat.le_refl _
  | succ j hj' ih =>
      have hnext := @monthStart_succ y j (by omega) (by omega)
      have := ih (by omega)
      omega

/-- Some month holds the day: the last one that has started. -/
theorem exists_month {y k : Nat} (h : k < 365 + (leap y).toNat) :
    ∃ m, 1 ≤ m ∧ m ≤ 12 ∧ monthStart y m ≤ k ∧ k < monthStart y (m + 1) := by
  have hend : monthStart y 13 = 365 + (leap y).toNat := rfl
  by_contra hno
  have hall : ∀ m, 1 ≤ m → m ≤ 13 → monthStart y m ≤ k := by
    intro m hm
    induction m, hm using Nat.le_induction with
    | base => exact fun _ => Nat.zero_le k
    | succ m hm ih =>
        intro hle
        by_contra hgt
        exact hno ⟨m, hm, by omega, ih (by omega), by omega⟩
  have := hall 13 (by omega) (by omega)
  omega

/-- **`monthDay`** finds it. -/
theorem monthDay_eq {y k m : Nat} (h1 : 1 ≤ m) (h2 : m ≤ 12) (hlo : monthStart y m ≤ k)
    (hhi : k < monthStart y (m + 1)) : monthDay y k = (m, k - monthStart y m + 1) := by
  have hstart : ∀ j ∈ List.range' 1 12, decide (monthStart y j ≤ k) = decide (j ≤ m) := by
    intro j hj
    rw [List.mem_range'_1] at hj
    rw [decide_eq_decide]
    constructor
    · intro hle
      by_contra hgt
      have hm := @monthStart_le y (m + 1) j (by omega) (by omega) (by omega)
      omega
    · intro hle
      exact (monthStart_le hj.1 hle (by omega)).trans hlo
  have hlast : ((List.range' 1 12).filter fun j => monthStart y j ≤ k).getLastD 1 = m := by
    rw [List.filter_congr hstart]
    interval_cases m <;> rfl
  show (((List.range' 1 12).filter fun j => monthStart y j ≤ k).getLastD 1,
    k - monthStart y (((List.range' 1 12).filter fun j => monthStart y j ≤ k).getLastD 1) + 1) = _
  rw [hlast]

/-- **The date of a day has the day's number.** -/
theorem date_of_day {n : Nat} (h : n < calendarDays) :
    ∃ m d, monthDay (yearOf n) (n - daysBeforeYear (yearOf n)) = (m, d) ∧ (1 ≤ m ∧ m ≤ 12) ∧
      (1 ≤ d ∧ d ≤ daysIn m (yearOf n)) ∧ dayNumber (yearOf n) m d = n := by
  obtain ⟨hlo, hhi, _⟩ := year_of_day h
  rw [daysBeforeYear_succ] at hhi
  obtain ⟨m, h1, h2, hstart, hend⟩ := @exists_month (yearOf n) (n - daysBeforeYear (yearOf n)) (by omega)
  refine ⟨m, _, monthDay_eq h1 h2 hstart hend, ⟨h1, h2⟩, ⟨by omega, ?_⟩, ?_⟩
  · rw [monthStart_succ h1 h2] at hend
    omega
  · rw [dayNumber, Nat.add_assoc (daysBeforeYear (yearOf n)), ← monthStart]
    omega

/-! ## The pieces of the text -/

theorem digitVal_digit {d : Nat} (h : d < 10) : digitVal (digit d) = d := by
  interval_cases d <;> rfl

theorem digits_digit (n d : Nat) (r : Bytes) :
    digits (n + 1) (digit (d % 10) :: r) = (digits n r).map fun p => (d % 10 * 10 ^ n + p.1, p.2) := by
  have hd : d % 10 < 10 := Nat.mod_lt d (by decide)
  rw [digits, if_pos (isDigit_digit hd), digitVal_digit hd]

theorem digits_pad2 (n : Nat) (r : Bytes) : digits 2 (pad2 n ++ r) = some (n % 100, r) := by
  show digits 2 (digit (n / 10 % 10) :: digit (n % 10) :: r) = _
  rw [digits_digit, digits_digit, digits]
  simp only [Option.map_some]
  congr 2
  omega

theorem digits_pad4 (n : Nat) (r : Bytes) : digits 4 (pad4 n ++ r) = some (n % 10000, r) := by
  show digits 4 (digit (n / 100 / 10 % 10) :: digit (n / 100 % 10) :: digit (n % 100 / 10 % 10) ::
    digit (n % 100 % 10) :: r) = _
  rw [digits_digit, digits_digit, digits_digit, digits_digit, digits]
  simp only [Option.map_some]
  congr 2
  omega

theorem hour_pad2 (n : Nat) (r : Bytes) : hour (pad2 n ++ r) = some (n % 100, r) := by
  rw [hour, digits_pad2]

@[simp] theorem char_cons (c : UInt8) (r : Bytes) : char c (c :: r) = some r := if_pos rfl

/-- The nine digits of a fraction, trailing zeros and all. -/
def nineDigits (ns : Nat) : Bytes := (List.range 9).map fun i => digit (ns / 10 ^ (8 - i) % 10)

theorem isDigit_nineDigits {ns : Nat} : ∀ c ∈ nineDigits ns, isDigit c = true := by
  intro c hc
  obtain ⟨i, _, rfl⟩ := List.mem_map.mp hc
  exact isDigit_digit (Nat.mod_lt _ (by decide))

/-- Reading on through the digits divides by one power of ten less. -/
theorem foldl_nineDigits_take (ns : Nat) {k : Nat} (hk : k ≤ 9) :
    ((List.range k).map fun i => digit (ns / 10 ^ (8 - i) % 10)).foldl (fun n x => n * 10 + digitVal x) 0 =
      ns / 10 ^ (9 - k) % 10 ^ k := by
  induction k with
  | zero => simp [Nat.mod_one]
  | succ k ih =>
      have hd : ns / 10 ^ (8 - k) % 10 < 10 := Nat.mod_lt _ (by decide)
      have hstep : ns / 10 ^ (9 - k) = ns / 10 ^ (8 - k) / 10 := by
        rw [Nat.div_div_eq_div_mul, ← Nat.pow_succ, show (8 - k).succ = 9 - k by omega]
      have hmod : ns / 10 ^ (8 - k) % 10 ^ (k + 1) =
          ns / 10 ^ (8 - k) / 10 % 10 ^ k * 10 + ns / 10 ^ (8 - k) % 10 := by
        rw [Nat.pow_succ', Nat.mod_mul]
        ring
      rw [List.range_succ, List.map_append, List.foldl_append, ih (by omega), List.map_singleton, List.foldl_cons,
        List.foldl_nil, digitVal_digit hd, show 9 - (k + 1) = 8 - k by omega, hmod, hstep]

theorem foldl_nineDigits {ns : Nat} (h : ns < 1000000000) :
    (nineDigits ns).foldl (fun n x => n * 10 + digitVal x) 0 = ns := by
  rw [nineDigits, foldl_nineDigits_take ns (Nat.le_refl 9), Nat.sub_self, Nat.pow_zero, Nat.div_one]
  exact Nat.mod_eq_of_lt h

theorem foldl_zeros (k acc : Nat) :
    (List.replicate k (digit 0)).foldl (fun n x => n * 10 + digitVal x) acc = acc * 10 ^ k := by
  induction k generalizing acc with
  | zero => simp
  | succ k ih =>
      rw [List.replicate_succ, List.foldl_cons, ih, digitVal_digit (by decide), Nat.pow_succ]
      ring

/-- The digits a fraction keeps, and the zeros it drops. -/
theorem nineDigits_split (ns : Nat) : ∃ kept k, nineDigits ns = kept ++ List.replicate k (digit 0) ∧
    ((nineDigits ns).reverse.dropWhile (· == digit 0)).reverse = kept := by
  refine ⟨_, ((nineDigits ns).reverse.takeWhile (· == digit 0)).length, ?_, rfl⟩
  have hzeros : (nineDigits ns).reverse.takeWhile (· == digit 0) =
      List.replicate ((nineDigits ns).reverse.takeWhile (· == digit 0)).length (digit 0) := by
    refine List.eq_replicate_of_mem fun c hc => ?_
    simpa using List.mem_takeWhile_imp hc
  have hsplit := List.takeWhile_append_dropWhile (p := (· == digit 0)) (l := (nineDigits ns).reverse)
  calc nineDigits ns = (nineDigits ns).reverse.reverse := (List.reverse_reverse _).symm
    _ = ((nineDigits ns).reverse.dropWhile (· == digit 0)).reverse ++
          ((nineDigits ns).reverse.takeWhile (· == digit 0)).reverse := by
        rw [← List.reverse_append, hsplit]
    _ = _ := by
        rw [hzeros, List.reverse_replicate, List.length_replicate]

/-- **A fraction is read back**, in front of anything a fraction does not go on with. -/
theorem readFraction_fraction {ns : Nat} (h : ns < 1000000000) {c : UInt8} (hdigit : isDigit c = false)
    (hpoint : c ≠ 0x2e ∧ c ≠ 0x2c) (r : Bytes) : readFraction (fraction ns ++ c :: r) = (ns, c :: r) := by
  obtain ⟨kept, k, hsplit, hkept⟩ := nineDigits_split ns
  unfold fraction
  by_cases hzero : ns = 0
  · rw [if_pos hzero, hzero]
    cases r with
    | nil => rfl
    | cons d ds => exact if_neg fun hc => hc.1.elim hpoint.1 hpoint.2
  rw [if_neg hzero]
  show readFraction (0x2e :: ((nineDigits ns).reverse.dropWhile (· == digit 0)).reverse ++ c :: r) = _
  rw [hkept]
  have hdigits : ∀ x ∈ kept, isDigit x = true := fun x hx =>
    @isDigit_nineDigits ns x (by rw [hsplit]; exact List.mem_append_left _ hx)
  -- the zeros that were cut are put back by the scale
  have hvalue : kept.foldl (fun n x => n * 10 + digitVal x) 0 * 10 ^ k = ns := by
    have hall := foldl_nineDigits h
    rw [hsplit, List.foldl_append, foldl_zeros] at hall
    exact hall
  have hlength : kept.length + k = 9 := by
    have hnine : (nineDigits ns).length = 9 := rfl
    rw [hsplit, List.length_append, List.length_replicate] at hnine
    exact hnine
  cases kept with
  | nil => exact absurd hvalue.symm (by simpa using hzero)
  | cons d ds =>
      have hstop : ∀ x ∈ (c :: r).head?, ¬ isDigit x = true := by
        intro x hx
        obtain rfl : c = x := by simpa using hx
        simp [hdigit]
      show (if (0x2e = (0x2e : UInt8) ∨ 0x2e = (0x2c : UInt8)) ∧ isDigit d = true then
        (nanoseconds (((d :: ds ++ c :: r).takeWhile isDigit).take 9), (d :: ds ++ c :: r).dropWhile isDigit)
        else _) = _
      rw [if_pos ⟨Or.inl rfl, hdigits d (by simp)⟩, List.takeWhile_append_of_pos hdigits,
        List.dropWhile_append_of_pos hdigits, List.takeWhile_cons_of_neg (hstop c (by simp)),
        List.dropWhile_cons_of_neg (hstop c (by simp)), List.append_nil, List.take_of_length_le (by omega), nanoseconds,
        show 9 - (d :: ds).length = k by omega, hvalue]

/-- An offset of whole minutes below a day. -/
def wholeMinutes (t : Time) : Prop := t.offset % 60 = 0

/-- The offset a text carries: the seconds are cut off. -/
def textOffset (t : Time) : Int := if t.offset ≤ -60 then -(t.zoneMinutes * 60 : Nat) else (t.zoneMinutes * 60 : Nat)

/-- **What the text of a time denotes**: the same wall clock at the offset the text carries. -/
def inMinutes (t : Time) : Time := ⟨t.nanos + (t.offset - t.textOffset) * 1000000000, t.textOffset⟩

theorem inMinutes_of_wholeMinutes {t : Time} (h : t.wholeMinutes) : t.inMinutes = t := by
  have hoffset : t.textOffset = t.offset := by
    unfold wholeMinutes at h
    unfold textOffset zoneMinutes
    split <;> omega
  show Time.mk _ _ = Time.mk t.nanos t.offset
  rw [hoffset, Int.sub_self, Int.zero_mul, Int.add_zero]

theorem readZone_zone {t : Time} (hday : t.zoneMinutes / 60 < 24) : readZone (zone t) = some (t.textOffset, []) := by
  unfold zone
  split
  · next h =>
    have hoffset : t.textOffset = 0 := by
      unfold textOffset zoneMinutes
      rw [h]
      rfl
    rw [hoffset]
    rfl
  next hne =>
  -- the offset reads back the same with either sign
  have hsign : ∀ c : UInt8, c = 0x2b ∨ c = 0x2d →
      readZone (c :: pad2 (t.zoneMinutes / 60) ++ 0x3a :: pad2 (t.zoneMinutes % 60)) =
        some ((if c = 0x2b then 1 else -1) * ((t.zoneMinutes * 60 : Nat) : Int), []) := by
    intro c hc
    have hnotZ : ¬ c = 0x5a := by rcases hc with rfl | rfl <;> decide
    have hmm := digits_pad2 (t.zoneMinutes % 60) []
    rw [List.append_nil] at hmm
    rw [List.cons_append]
    show (if c = 0x5a then _ else _) = _
    rw [if_neg hnotZ, if_pos hc, digits_pad2]
    simp only [Option.bind_eq_bind, Option.bind_some, char_cons, hmm]
    rw [if_pos (by omega)]
    congr 3
    omega
  unfold textOffset
  by_cases hneg : t.offset ≤ -60
  · rw [if_pos hneg, if_pos hneg, hsign 0x2d (Or.inr rfl), if_neg (by decide)]
    congr 2
    omega
  · rw [if_neg hneg, if_neg hneg, hsign 0x2b (Or.inl rfl), if_pos rfl]
    congr 2
    omega

theorem zone_cons (t : Time) : ∃ c r, zone t = c :: r ∧ isDigit c = false ∧ c ≠ 0x2e ∧ c ≠ 0x2c := by
  unfold zone
  split
  · exact ⟨_, _, rfl, rfl, by decide, by decide⟩
  · refine ⟨_, _, rfl, ?_⟩
    split <;> exact ⟨rfl, by decide, by decide⟩

/-! ## The whole text -/

/-- **The text of a time denotes its wall clock.** -/
theorem parse_rfc3339Nano {t : Time} (h : t.encodable = true) : parse (rfc3339Nano t) = some t.inMinutes := by
  simp only [encodable, Bool.and_eq_true, decide_eq_true_eq] at h
  obtain ⟨⟨hlo, hhi⟩, hday⟩ := h
  obtain ⟨m, d, hmd, hm, hd, hnumber⟩ := @date_of_day t.localDay.toNat (by omega)
  obtain ⟨_, _, hyear⟩ := @year_of_day t.localDay.toNat (by omega)
  obtain ⟨c, r, hzone, hdigit, hpoint⟩ := zone_cons t
  -- no month has more than 31 days, so two digits hold the day
  have hdays : daysIn m (yearOf t.localDay.toNat) ≤ 31 := by
    obtain ⟨hm1, hm2⟩ := hm
    have hleap : (leap (yearOf t.localDay.toNat)).toNat ≤ 1 := Bool.toNat_le _
    interval_cases m <;> simp [daysIn, daysBeforeMonth]
    omega
  have hfraction := @readFraction_fraction (t.nanos % 1000000000).toNat (by omega) c hdigit hpoint r
  have hoffset := readZone_zone hday
  rw [hzone] at hoffset
  unfold rfc3339Nano
  simp only [hmd, hzone]
  simp only [parse, List.append_assoc, List.cons_append, digits_pad4, digits_pad2, hour_pad2, char_cons,
    Option.bind_eq_bind, Option.bind_some, hfraction, hoffset]
  generalize hn : t.localDay.toNat = n at *
  have hlocal : t.localDay = n := by omega
  unfold localDay at hlocal
  generalize hs : (t.localSeconds % 86400).toNat = s
  have hseconds : t.localSeconds = (n - epochDay) * 86400 + s := by omega
  unfold localSeconds at hseconds
  rw [Nat.mod_eq_of_lt (by omega : yearOf n < 10000), Nat.mod_eq_of_lt (by omega : m < 100),
    Nat.mod_eq_of_lt (by omega : d < 100), if_pos ⟨trivial, hm, hd, by omega, by omega, by omega⟩, hnumber]
  congr 1
  have hsec : s < 86400 := by omega
  show Time.mk _ t.textOffset = Time.mk _ t.textOffset
  congr 1
  push_cast
  omega

/-- **A marshalled time is unmarshalled**, whatever stood in the field. -/
theorem unmarshal_text (old : Time) {t : Time} (h : t.encodable = true) :
    old.unmarshal (0x22 :: rfc3339Nano t ++ [0x22]) = some t.inMinutes := by
  have hlast : (0x22 :: (rfc3339Nano t ++ [0x22])).getLast? = some 0x22 := by
    rw [← List.cons_append, List.getLast?_concat]
  unfold unmarshal
  rw [if_neg (by simp), if_neg (by simp [hlast]), Json.unquote_safe (safe_rfc3339Nano t)]
  exact parse_rfc3339Nano h

/-- **A time of whole minutes from UTC is unmarshalled as it was.** -/
theorem unmarshal_rfc3339Nano (old : Time) {t : Time} (h : t.encodable = true) (hz : t.wholeMinutes) :
    old.unmarshal (0x22 :: rfc3339Nano t ++ [0x22]) = some t := by
  rw [unmarshal_text old h, inMinutes_of_wholeMinutes hz]

/-- A time that was read has an offset of whole minutes. -/
theorem wholeMinutes_of_parse {bs : Bytes} {t : Time} (h : parse bs = some t) : t.wholeMinutes := by
  obtain ⟨_, _, _, _, _, _, _, _, _, _, hoffset, _⟩ := parse_cases h
  exact hoffset

end LocalPlatform.Codec.Time
