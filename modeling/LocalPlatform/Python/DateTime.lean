/-
# LocalPlatform.Python.DateTime — instants in UTC, and the text of one.

A `datetime` of the UTC zone is its distance from the start of the proleptic year 0 in microseconds, in
the years 1 to 9999; arithmetic that leaves them overflows.  `strptime` and `strftime` are those of the
one format the scripts use, `%Y-%m-%dT%H:%M:%SZ`.

What `strptime` accepts is wider than what `strftime` writes: a month, a day or a time of one digit, a
day behind a blank, the digits of any script where the format's expression has `\d`, and the letters in
either case.  A field ends where a literal follows that no field contains, so the first alternative that
matches is the one a search with backtracking ends with.
-/
import LocalPlatform.Codec.TimeText
import LocalPlatform.Python.Value

namespace LocalPlatform.Python

open Codec.Time (daysIn dayNumber yearOf monthDay daysBeforeYear calendarDays)

/-! ## Instants -/

/-- The microseconds of a day. -/
def dayMicros : Nat := 86400000000

/-- A `datetime` in UTC. -/
structure DateTime where
  micros : Nat
  from_year_one : 366 * dayMicros ≤ micros
  in_calendar : micros < calendarDays * dayMicros

namespace DateTime

theorem ext_micros {t u : DateTime} (h : t.micros = u.micros) : t = u := by
  cases t
  cases u
  cases h
  rfl

/-- The instant of a count of microseconds. -/
def ofMicros (n : ℤ) : Py DateTime :=
  if h : 366 * dayMicros ≤ n.toNat ∧ n.toNat < calendarDays * dayMicros then .ok ⟨n.toNat, h.1, h.2⟩
  else .error .overflowError

/-- `t + timedelta(microseconds=d)` -/
def add (t : DateTime) (d : ℤ) : Py DateTime := ofMicros (t.micros + d)

/-- `t - u` -/
def sub (t u : DateTime) : ℤ := t.micros - u.micros

/-- `timedelta(minutes=n)` -/
def minutes (n : ℤ) : ℤ := n * 60000000

/-- `timedelta(hours=n)` -/
def hours (n : ℤ) : ℤ := n * 3600000000

theorem add_eq_ok_iff {t u : DateTime} {d : ℤ} : t.add d = .ok u ↔ (u.micros : ℤ) = t.micros + d := by
  unfold add ofMicros
  constructor
  · intro h
    split at h
    · next hrange =>
      rw [← Except.ok.inj h]
      show (((t.micros + d).toNat : ℕ) : ℤ) = _
      have := hrange.1
      unfold dayMicros at this
      omega
    · cases h
  · intro h
    have h1 := u.from_year_one
    have h2 := u.in_calendar
    rw [dif_pos (by omega)]
    congr 1
    apply ext_micros
    show (t.micros + d).toNat = u.micros
    omega

/-- The sum is an instant unless it leaves the calendar. -/
theorem exists_add_iff {t : DateTime} {d : ℤ} (hd : 0 ≤ d) :
    (∃ u, t.add d = .ok u) ↔ t.micros + d < calendarDays * dayMicros := by
  constructor
  · rintro ⟨u, hu⟩
    have := add_eq_ok_iff.mp hu
    have := u.in_calendar
    omega
  · intro h
    have := t.from_year_one
    refine ⟨⟨(t.micros + d).toNat, by omega, by omega⟩, add_eq_ok_iff.mpr ?_⟩
    show (((t.micros + d).toNat : ℕ) : ℤ) = _
    omega

end DateTime

/-! ## Reading a text -/

/-- The zeros of the decimal digits of Unicode; the nine other digits follow each. -/
def decimalZeros : List Nat :=
  [0x30, 0x660, 0x6f0, 0x7c0, 0x966, 0x9e6, 0xa66, 0xae6, 0xb66, 0xbe6, 0xc66, 0xce6, 0xd66, 0xde6, 0xe50, 0xed0,
    0xf20, 0x1040, 0x1090, 0x17e0, 0x1810, 0x1946, 0x19d0, 0x1a80, 0x1a90, 0x1b50, 0x1bb0, 0x1c40, 0x1c50, 0xa620,
    0xa8d0, 0xa900, 0xa9d0, 0xa9f0, 0xaa50, 0xabf0, 0xff10, 0x104a0, 0x10d30, 0x11066, 0x110f0, 0x11136, 0x111d0,
    0x112f0, 0x11450, 0x114d0, 0x11650, 0x116c0, 0x11730, 0x118e0, 0x11950, 0x11c50, 0x11d50, 0x11da0, 0x11f50,
    0x16a60, 0x16ac0, 0x16b50, 0x1d7ce, 0x1d7d8, 0x1d7e2, 0x1d7ec, 0x1d7f6, 0x1e140, 0x1e2f0, 0x1e4f0, 0x1e950,
    0x1fbf0]

/-- `\d`, with the value `int` gives it. -/
def anyDigit (c : Nat) : Option Nat :=
  decimalZeros.findSome? fun z => if z ≤ c ∧ c < z + 10 then some (c - z) else none

/-- One of the ASCII digits from `lo` to `hi`. -/
def digitIn (lo hi c : Nat) : Option Nat := if 0x30 + lo ≤ c ∧ c ≤ 0x30 + hi then some (c - 0x30) else none

/-- A reader of a field: its value and what follows it. -/
abbrev Field := Str → Option (Nat × Str)

/-- A field of one character. -/
def one (a : Nat → Option Nat) : Field
  | c :: r => (a c).map fun n => (n, r)
  | [] => none

/-- A field of two characters. -/
def two (a b : Nat → Option Nat) : Field
  | c :: d :: r => (a c).bind fun m => (b d).map fun n => (10 * m + n, r)
  | _ => none

/-- `%Y` -/
def readYear : Field
  | a :: b :: c :: d :: r =>
    (anyDigit a).bind fun i => (anyDigit b).bind fun j => (anyDigit c).bind fun k => (anyDigit d).map fun l =>
      (1000 * i + 100 * j + 10 * k + l, r)
  | _ => none

/-- `%m`: `1[0-2]|0[1-9]|[1-9]` -/
def readMonth : Field := fun s =>
  two (digitIn 1 1) (digitIn 0 2) s <|> two (digitIn 0 0) (digitIn 1 9) s <|> one (digitIn 1 9) s

/-- `%d`: `3[0-1]|[1-2]\d|0[1-9]|[1-9]| [1-9]` -/
def readDay : Field := fun s =>
  two (digitIn 3 3) (digitIn 0 1) s <|> two (digitIn 1 2) anyDigit s <|> two (digitIn 0 0) (digitIn 1 9) s
    <|> one (digitIn 1 9) s <|> two (fun c => if c = 0x20 then some 0 else none) (digitIn 1 9) s

/-- `%H`: `2[0-3]|[0-1]\d|\d` -/
def readHour : Field := fun s =>
  two (digitIn 2 2) (digitIn 0 3) s <|> two (digitIn 0 1) anyDigit s <|> one anyDigit s

/-- `%M`: `[0-5]\d|\d` -/
def readMinute : Field := fun s => two (digitIn 0 5) anyDigit s <|> one anyDigit s

/-- `%S`: `6[0-1]|[0-5]\d|\d` -/
def readSecond : Field := fun s =>
  two (digitIn 6 6) (digitIn 0 1) s <|> two (digitIn 0 5) anyDigit s <|> one anyDigit s

/-- A literal of the format, in either case. -/
def literal (upper lower : Nat) : Str → Option Str
  | c :: r => if c = upper ∨ c = lower then some r else none
  | [] => none

/-- The fields of a text. -/
def fields (s : Str) : Option (Nat × Nat × Nat × Nat × Nat × Nat) := do
  let (y, s) ← readYear s
  let s ← literal 0x2d 0x2d s
  let (m, s) ← readMonth s
  let s ← literal 0x2d 0x2d s
  let (d, s) ← readDay s
  let s ← literal 0x54 0x74 s
  let (hh, s) ← readHour s
  let s ← literal 0x3a 0x3a s
  let (mm, s) ← readMinute s
  let s ← literal 0x3a 0x3a s
  let (ss, s) ← readSecond s
  let s ← literal 0x5a 0x7a s
  if s = [] then some (y, m, d, hh, mm, ss) else none

/-- The microseconds at which a date and a time of the day begin. -/
def microsOf (y m d hh mm ss : Nat) : Nat := dayNumber y m d * dayMicros + (hh * 3600 + mm * 60 + ss) * 1000000

/-- `datetime.strptime(s, "%Y-%m-%dT%H:%M:%SZ")` in UTC: the date must exist and the second be below 60. -/
def strptime (s : Str) : Py DateTime :=
  match fields s with
  | some (y, m, d, hh, mm, ss) =>
    if 1 ≤ y ∧ d ≤ daysIn m y ∧ ss ≤ 59 then
      match DateTime.ofMicros (microsOf y m d hh mm ss) with
      | .ok t => .ok t
      | .error _ => .error .valueError
    else .error .valueError
  | none => .error .valueError

/-! ## Writing a text -/

/-- Two digits. -/
def pad2 (n : Nat) : Str := [0x30 + n / 10 % 10, 0x30 + n % 10]

/-- Four digits. -/
def pad4 (n : Nat) : Str := pad2 (n / 100) ++ pad2 n

namespace DateTime

/-- The number of the date. -/
def day (t : DateTime) : Nat := t.micros / dayMicros

/-- The second of the day. -/
def daySecond (t : DateTime) : Nat := t.micros % dayMicros / 1000000

/-- `t.strftime("%Y-%m-%dT%H:%M:%SZ")` -/
def strftime (t : DateTime) : Str :=
  let y := yearOf t.day
  let (m, d) := monthDay y (t.day - daysBeforeYear y)
  pad4 y ++ lit "-" ++ pad2 m ++ lit "-" ++ pad2 d ++ lit "T" ++ pad2 (t.daySecond / 3600) ++ lit ":"
    ++ pad2 (t.daySecond / 60 % 60) ++ lit ":" ++ pad2 (t.daySecond % 60) ++ lit "Z"

end DateTime

/-! ## The text of an instant is read back -/

theorem anyDigit_ascii {n : Nat} (h : n < 10) : anyDigit (0x30 + n) = some n := by
  unfold anyDigit decimalZeros
  rw [List.findSome?_cons, if_pos (by omega)]
  simp

theorem digitIn_ascii {lo hi n : Nat} (h : lo ≤ n ∧ n ≤ hi) : digitIn lo hi (0x30 + n) = some n := by
  rw [digitIn, if_pos (by omega)]
  simp

theorem digitIn_out {lo hi n : Nat} (h : ¬ (lo ≤ n ∧ n ≤ hi)) : digitIn lo hi (0x30 + n) = none := by
  rw [digitIn, if_neg (by omega)]

theorem readYear_pad4 {n : Nat} (h : n < 10000) (r : Str) : readYear (pad4 n ++ r) = some (n, r) := by
  show readYear ((0x30 + n / 100 / 10 % 10) :: (0x30 + n / 100 % 10) :: (0x30 + n / 10 % 10) :: (0x30 + n % 10) :: r) = _
  rw [readYear, anyDigit_ascii (Nat.mod_lt _ (by decide)), anyDigit_ascii (Nat.mod_lt _ (by decide)),
    anyDigit_ascii (Nat.mod_lt _ (by decide)), anyDigit_ascii (Nat.mod_lt _ (by decide))]
  simp only [Option.bind_some, Option.map_some]
  congr 2
  omega

/-- Two ASCII digits, the one in front among those the alternative takes. -/
theorem two_pad2 {lo hi : Nat} {b : Nat → Option Nat} {n : Nat} (ha : lo ≤ n / 10 % 10 ∧ n / 10 % 10 ≤ hi)
    (hb : b (0x30 + n % 10) = some (n % 10)) (h : n < 100) (r : Str) :
    two (digitIn lo hi) b (pad2 n ++ r) = some (n, r) := by
  show two (digitIn lo hi) b ((0x30 + n / 10 % 10) :: (0x30 + n % 10) :: r) = _
  rw [two, digitIn_ascii ha, Option.bind_some, hb, Option.map_some]
  congr 2
  omega

/-- An alternative that does not take the digit in front is passed over. -/
theorem two_pad2_none {lo hi : Nat} {b : Nat → Option Nat} {n : Nat} (ha : ¬ (lo ≤ n / 10 % 10 ∧ n / 10 % 10 ≤ hi))
    (r : Str) : two (digitIn lo hi) b (pad2 n ++ r) = none := by
  show two (digitIn lo hi) b ((0x30 + n / 10 % 10) :: (0x30 + n % 10) :: r) = _
  rw [two, digitIn_out ha]
  rfl

theorem readMonth_pad2 {n : Nat} (h : 1 ≤ n ∧ n ≤ 12) (r : Str) : readMonth (pad2 n ++ r) = some (n, r) := by
  unfold readMonth
  by_cases hten : 10 ≤ n
  · rw [two_pad2 (by omega) (digitIn_ascii (by omega)) (by omega)]
    rfl
  · rw [two_pad2_none (by omega), two_pad2 (by omega) (digitIn_ascii (by omega)) (by omega)]
    rfl

theorem readDay_pad2 {n : Nat} (h : 1 ≤ n ∧ n ≤ 31) (r : Str) : readDay (pad2 n ++ r) = some (n, r) := by
  unfold readDay
  by_cases hthirty : 30 ≤ n
  · rw [two_pad2 (by omega) (digitIn_ascii (by omega)) (by omega)]
    rfl
  · rw [two_pad2_none (by omega)]
    by_cases hten : 10 ≤ n
    · rw [two_pad2 (by omega) (anyDigit_ascii (by omega)) (by omega)]
      rfl
    · rw [two_pad2_none (by omega), two_pad2 (by omega) (digitIn_ascii (by omega)) (by omega)]
      rfl

theorem readHour_pad2 {n : Nat} (h : n < 24) (r : Str) : readHour (pad2 n ++ r) = some (n, r) := by
  unfold readHour
  by_cases htwenty : 20 ≤ n
  · rw [two_pad2 (by omega) (digitIn_ascii (by omega)) (by omega)]
    rfl
  · rw [two_pad2_none (by omega), two_pad2 (by omega) (anyDigit_ascii (by omega)) (by omega)]
    rfl

theorem readMinute_pad2 {n : Nat} (h : n < 60) (r : Str) : readMinute (pad2 n ++ r) = some (n, r) := by
  unfold readMinute
  rw [two_pad2 (by omega) (anyDigit_ascii (by omega)) (by omega)]
  rfl

theorem readSecond_pad2 {n : Nat} (h : n < 60) (r : Str) : readSecond (pad2 n ++ r) = some (n, r) := by
  unfold readSecond
  rw [two_pad2_none (by omega), two_pad2 (by omega) (anyDigit_ascii (by omega)) (by omega)]
  rfl

@[simp] theorem literal_upper (upper lower : Nat) (r : Str) : literal upper lower (upper :: r) = some r :=
  if_pos (Or.inl rfl)

namespace DateTime

/-- A whole second. -/
def whole (t : DateTime) : Prop := t.micros % 1000000 = 0

theorem day_lt (t : DateTime) : t.day < calendarDays :=
  Nat.div_lt_of_lt_mul (by rw [Nat.mul_comm]; exact t.in_calendar)

theorem daySecond_lt (t : DateTime) : t.daySecond < 86400 := by
  have : t.micros % dayMicros < 86400000000 := Nat.mod_lt _ (by decide)
  unfold daySecond
  omega

/-- The first day of the year 1 is the 366th. -/
theorem year_pos {t : DateTime} : 1 ≤ yearOf t.day := by
  have hday : 366 ≤ t.day := (Nat.le_div_iff_mul_le (by decide)).mpr t.from_year_one
  obtain ⟨-, hhi, -⟩ := Codec.Time.year_of_day t.day_lt
  by_contra hzero
  have : yearOf t.day = 0 := by omega
  rw [this] at hhi
  have : daysBeforeYear (0 + 1) = 366 := by decide
  omega

theorem micros_eq {t : DateTime} (h : t.whole) : t.micros = t.day * dayMicros + t.daySecond * 1000000 := by
  unfold whole at h
  unfold day daySecond dayMicros
  omega

/-- The fields of the text of an instant. -/
theorem fields_strftime (t : DateTime) : ∃ m d, fields t.strftime =
    some (yearOf t.day, m, d, t.daySecond / 3600, t.daySecond / 60 % 60, t.daySecond % 60) ∧
      d ≤ daysIn m (yearOf t.day) ∧ dayNumber (yearOf t.day) m d = t.day := by
  obtain ⟨m, d, hdate, hm, hd, hnumber⟩ := Codec.Time.date_of_day t.day_lt
  obtain ⟨-, -, hyear⟩ := Codec.Time.year_of_day t.day_lt
  have hsecond := t.daySecond_lt
  have hd31 : d ≤ 31 := by
    refine le_trans hd.2 ?_
    obtain ⟨hm1, hm2⟩ := hm
    have hleap : (Codec.Time.leap (yearOf t.day)).toNat ≤ 1 := Bool.toNat_le _
    unfold daysIn
    split
    · omega
    · interval_cases m <;> decide
  -- each field is read from the digits that were written for it
  refine ⟨m, d, ?_, hd.2, hnumber⟩
  unfold strftime
  simp only [hdate, List.append_assoc]
  unfold fields
  rw [readYear_pad4 (by omega)]
  show (readMonth (pad2 m ++ _) >>= _) = _
  rw [readMonth_pad2 hm]
  show (readDay (pad2 d ++ _) >>= _) = _
  rw [readDay_pad2 ⟨hd.1, hd31⟩]
  show (readHour (pad2 _ ++ _) >>= _) = _
  rw [readHour_pad2 (by omega)]
  show (readMinute (pad2 _ ++ _) >>= _) = _
  rw [readMinute_pad2 (by omega)]
  show (readSecond (pad2 _ ++ _) >>= _) = _
  rw [readSecond_pad2 (by omega)]
  rfl

/-- **A whole second is read back from its text.** -/
theorem strptime_strftime {t : DateTime} (h : t.whole) : strptime t.strftime = .ok t := by
  obtain ⟨m, d, hfields, hd, hnumber⟩ := t.fields_strftime
  have hmicros : microsOf (yearOf t.day) m d (t.daySecond / 3600) (t.daySecond / 60 % 60) (t.daySecond % 60)
      = t.micros := by
    have hsecond := t.daySecond_lt
    rw [microsOf, hnumber, micros_eq h]
    congr 2
    omega
  have hof : ofMicros (t.micros : ℤ) = .ok t := by
    have := add_eq_ok_iff (t := t) (u := t) (d := 0)
    rw [add, Int.add_zero] at this
    exact this.mpr (by omega)
  rw [strptime, hfields]
  show (if 1 ≤ yearOf t.day ∧ d ≤ daysIn m (yearOf t.day) ∧ t.daySecond % 60 ≤ 59 then _ else _) = _
  rw [if_pos ⟨year_pos, hd, by omega⟩, hmicros, hof]

/-- What is read from a text is a whole second. -/
theorem whole_of_strptime {s : Str} {t : DateTime} (h : strptime s = .ok t) : t.whole := by
  unfold strptime at h
  split at h
  · next y m d hh mm ss _ =>
    split at h
    · cases hof : ofMicros (microsOf y m d hh mm ss) with
      | error e =>
        rw [hof] at h
        cases h
      | ok u =>
        rw [hof] at h
        rw [← Except.ok.inj h]
        unfold ofMicros at hof
        split at hof
        · rw [← Except.ok.inj hof]
          show (((microsOf y m d hh mm ss : ℕ) : ℤ)).toNat % 1000000 = 0
          rw [Int.toNat_natCast, microsOf, dayMicros]
          omega
        · cases hof
    · cases h
  · cases h

/-- The text of an instant that was read is read as the same instant. -/
theorem strptime_strftime_of_strptime {s : Str} {t : DateTime} (h : strptime s = .ok t) :
    strptime t.strftime = .ok t := strptime_strftime (whole_of_strptime h)

theorem ascii_pad2 {n c : Nat} (h : c ∈ pad2 n) : c < 0x80 := by
  unfold pad2 at h
  simp only [List.mem_cons, List.not_mem_nil, or_false] at h
  omega

/-- The text of an instant is ASCII. -/
theorem ascii_strftime (t : DateTime) : ∀ c ∈ t.strftime, c < 0x80 := by
  unfold strftime pad4
  simp only [List.forall_mem_append]
  have hpad : ∀ n, ∀ c ∈ pad2 n, c < 0x80 := fun _ _ => ascii_pad2
  and_intros <;> first | exact hpad _ | decide

end DateTime

end LocalPlatform.Python
