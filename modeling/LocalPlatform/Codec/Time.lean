/-
# LocalPlatform.Codec.Time — instants, and their RFC 3339 text in JSON.

A `time.Time` is an instant and the zone it is shown in.  The instant is a count of nanoseconds from
the Unix epoch; of the zone only the offset in force at that instant can be observed here.

Writing and reading are not symmetric, and the gap matters: the writer refuses a local year outside
`0..9999` and an offset of a day or more, while the reader takes offsets up to `+24:60`.  What the
reader returns can therefore be refused by the writer, exactly when the offset says so
(`encodable_of_parse`).
-/
import LocalPlatform.Codec.Json.Quote

namespace LocalPlatform.Codec

/-- A `time.Time`: nanoseconds from the Unix epoch, and seconds east of UTC. -/
structure Time where
  nanos : Int
  offset : Int
  deriving DecidableEq, Repr

namespace Time

/-- `time.Unix(s, 0).UTC()`. -/
def ofUnix (s : Int) : Time := ⟨s * 1000000000, 0⟩

/-- The zero `time.Time`: midnight of 1 January of year 1, UTC. -/
def zero : Time := ofUnix (-62135596800)

/-- `t.Unix()`. -/
def unix (t : Time) : Int := t.nanos / 1000000000

/-- `t.IsZero()`: the instant alone decides. -/
def isZero (t : Time) : Bool := t.nanos == zero.nanos

/-- `t.Before(u)`. -/
def before (t u : Time) : Bool := t.nanos < u.nanos

/-- `t.Sub(u)`, a 64-bit count of nanoseconds that saturates. -/
def sub (t u : Time) : Int := max (-2 ^ 63) (min (2 ^ 63 - 1) (t.nanos - u.nanos))

/-- `t.UTC()`. -/
def utc (t : Time) : Time := { t with offset := 0 }

/-! ## The calendar -/

/-- Leap years of the proleptic Gregorian calendar. -/
def leap (y : Nat) : Bool := y % 4 == 0 && (y % 100 != 0 || y % 400 == 0)

/-- The days of the years `0..y-1`. -/
def daysBeforeYear (y : Nat) : Nat := 365 * y + (y + 3) / 4 - (y + 99) / 100 + (y + 399) / 400

/-- The days of the months before month `m` in a year that is no leap year. -/
def daysBeforeMonth (m : Nat) : Nat :=
  [0, 31, 59, 90, 120, 151, 181, 212, 243, 273, 304, 334, 365].getD (m - 1) 365

/-- `daysIn`. -/
def daysIn (m y : Nat) : Nat :=
  if m = 2 then 28 + (leap y).toNat else daysBeforeMonth (m + 1) - daysBeforeMonth m

/-- The number of a date, counted from 1 January of year 0. -/
def dayNumber (y m d : Nat) : Nat :=
  daysBeforeYear y + daysBeforeMonth m + (if 2 < m then (leap y).toNat else 0) + (d - 1)

/-- The number of 1 January 1970. -/
def epochDay : Nat := 719528

/-- The days of the years `0..9999`. -/
def calendarDays : Nat := 3652425

/-- The year of a day: the estimate is off by at most one. -/
def yearOf (n : Nat) : Nat :=
  let y := n * 400 / 146097
  if daysBeforeYear (y + 1) ≤ n then y + 1 else if daysBeforeYear y ≤ n then y else y - 1

/-- The month and the day of the month of the `k`-th day of a year, from 0. -/
def monthDay (y k : Nat) : Nat × Nat :=
  let start := fun m => daysBeforeMonth m + (if 2 < m then (leap y).toNat else 0)
  let m := ((List.range' 1 12).filter fun m => start m ≤ k).getLastD 1
  (m, k - start m + 1)

theorem daysBeforeMonth_add_daysIn {m y d : Nat} (hm : 1 ≤ m ∧ m ≤ 12) (hd : 1 ≤ d ∧ d ≤ daysIn m y) :
    daysBeforeMonth m + (if 2 < m then (leap y).toNat else 0) + (d - 1) ≤ 364 + (leap y).toNat := by
  obtain ⟨hm1, hm2⟩ := hm
  obtain ⟨hd1, hd2⟩ := hd
  have hleap : (leap y).toNat ≤ 1 := Bool.toNat_le _
  interval_cases m <;> simp [daysIn, daysBeforeMonth] at hd2 ⊢ <;> omega

/-- A date of the years `0..9999` has a number below `calendarDays`. -/
theorem dayNumber_lt {y m d : Nat} (hy : y ≤ 9999) (hm : 1 ≤ m ∧ m ≤ 12)
    (hd : 1 ≤ d ∧ d ≤ daysIn m y) : dayNumber y m d < calendarDays := by
  have hday := daysBeforeMonth_add_daysIn hm hd
  have hleap : (leap y).toNat ≤ 1 := Bool.toNat_le _
  have hlast : y = 9999 → (leap y).toNat = 0 := by
    rintro rfl
    rfl
  unfold dayNumber daysBeforeYear calendarDays
  omega

/-! ## Writing -/

/-- The local wall clock in seconds from the epoch. -/
def localSeconds (t : Time) : Int := t.nanos / 1000000000 + t.offset

/-- The number of the local date. -/
def localDay (t : Time) : Int := t.localSeconds / 86400 + epochDay

def pad2 (n : Nat) : Bytes := [digit (n / 10 % 10), digit (n % 10)]

def pad4 (n : Nat) : Bytes := pad2 (n / 100) ++ pad2 (n % 100)

/-- The fraction of a second, trailing zeros and an empty fraction left out. -/
def fraction (ns : Nat) : Bytes :=
  if ns = 0 then []
  else 0x2e :: (((List.range 9).map fun i => digit (ns / 10 ^ (8 - i) % 10)).reverse.dropWhile
    (· == digit 0)).reverse

/-- The distance from UTC in whole minutes, seconds cut off. -/
def zoneMinutes (t : Time) : Nat := t.offset.natAbs / 60

def zone (t : Time) : Bytes :=
  if t.offset = 0 then [0x5a]
  else (if t.offset ≤ -60 then 0x2d else 0x2b) ::
    pad2 (t.zoneMinutes / 60) ++ 0x3a :: pad2 (t.zoneMinutes % 60)

/-- `t.Format(time.RFC3339Nano)`, for a local year of four digits. -/
def rfc3339Nano (t : Time) : Bytes :=
  let n := t.localDay.toNat
  let y := yearOf n
  let (m, d) := monthDay y (n - daysBeforeYear y)
  let s := (t.localSeconds % 86400).toNat
  pad4 y ++ 0x2d :: pad2 m ++ 0x2d :: pad2 d ++ 0x54 :: pad2 (s / 3600) ++ 0x3a :: pad2 (s / 60 % 60) ++
    0x3a :: pad2 (s % 60) ++ fraction (t.nanos % 1000000000).toNat ++ zone t

/-- What `encoding/json` can write: a year of four digits, an offset below a day. -/
def encodable (t : Time) : Bool :=
  0 ≤ t.localDay && t.localDay < calendarDays && t.zoneMinutes / 60 < 24

/-- **`marshal t`** — a time as `encoding/json` writes it, or what keeps it from doing so. -/
def marshal (t : Time) : Except Bytes Bytes :=
  if t.localDay < 0 ∨ calendarDays ≤ t.localDay then
    .error (ascii "year outside of range [0,9999]")
  else if 24 ≤ t.zoneMinutes / 60 then
    .error (ascii "timezone hour outside of range [0,23]")
  else .ok (0x22 :: rfc3339Nano t ++ [0x22])

theorem marshal_of_encodable {t : Time} (h : t.encodable = true) :
    t.marshal = .ok (0x22 :: rfc3339Nano t ++ [0x22]) := by
  simp only [encodable, Bool.and_eq_true, decide_eq_true_eq] at h
  rw [marshal, if_neg (by omega), if_neg (by omega)]

theorem marshal_of_not_encodable {t : Time} (h : ¬ t.encodable = true) :
    ∃ e, t.marshal = .error e := by
  simp only [encodable, Bool.and_eq_true, decide_eq_true_eq, not_and] at h
  unfold marshal
  split
  · exact ⟨_, rfl⟩
  · next hday =>
    rw [if_pos (by have := h ⟨by omega, by omega⟩; omega)]
    exact ⟨_, rfl⟩

theorem encodable_of_marshal {t : Time} {text : Bytes} (h : t.marshal = .ok text) :
    t.encodable = true ∧ text = 0x22 :: rfc3339Nano t ++ [0x22] := by
  by_cases he : t.encodable = true
  · rw [marshal_of_encodable he] at h
    exact ⟨he, (Except.ok.inj h).symm⟩
  · obtain ⟨e, hm⟩ := marshal_of_not_encodable he
    rw [hm] at h
    exact absurd h (by simp)

/-! A rendered time needs no escapes. -/

theorem safe_digit (d : Nat) : Json.safe (digit (d % 10)) = true := by
  have hlt := Nat.mod_lt d (show 10 > 0 by decide)
  interval_cases d % 10 <;> rfl

theorem safe_pad2 (n : Nat) : (pad2 n).all Json.safe = true := by
  simp [pad2, safe_digit]

theorem safe_fraction (ns : Nat) : (fraction ns).all Json.safe = true := by
  unfold fraction
  split
  · rfl
  · rw [List.all_cons, Bool.and_eq_true]
    refine ⟨rfl, List.all_eq_true.mpr fun c hc => ?_⟩
    have hmem := (List.dropWhile_sublist _).subset (List.mem_reverse.mp hc)
    obtain ⟨i, _, rfl⟩ := List.mem_map.mp (List.mem_reverse.mp hmem)
    exact safe_digit _

theorem safe_zone (t : Time) : (zone t).all Json.safe = true := by
  unfold zone
  split
  · rfl
  · have hsign : Json.safe (if t.offset ≤ -60 then 0x2d else 0x2b) = true := by split <;> rfl
    rw [List.cons_append, List.all_cons, List.all_append, List.all_cons, hsign, safe_pad2, safe_pad2]
    rfl

theorem safe_rfc3339Nano (t : Time) : (rfc3339Nano t).all Json.safe = true := by
  have h4 : ∀ n, (pad4 n).all Json.safe = true := fun n => by
    rw [pad4, List.all_append, safe_pad2, safe_pad2]
    rfl
  simp only [rfc3339Nano, List.cons_append, List.append_assoc, List.all_append, List.all_cons,
    safe_pad2, h4, safe_fraction, safe_zone]
  rfl

/-! ## Reading -/

def digitVal (c : UInt8) : Nat := c.toNat - 48

/-- Read one given octet. -/
def char (c : UInt8) : Bytes → Option Bytes
  | [] => none
  | d :: ds => if d = c then some ds else none

/-- Read exactly `n` digits. -/
def digits : Nat → Bytes → Option (Nat × Bytes)
  | 0, bs => some (0, bs)
  | _ + 1, [] => none
  | n + 1, c :: cs =>
    if isDigit c then (digits n cs).map fun p => (digitVal c * 10 ^ n + p.1, p.2) else none

/-- The hour may be written with one digit. -/
def hour (bs : Bytes) : Option (Nat × Bytes) :=
  match digits 2 bs with
  | some p => some p
  | none => digits 1 bs

/-- Up to nine digits as nanoseconds. -/
def nanoseconds (ds : Bytes) : Nat :=
  ds.foldl (fun n x => n * 10 + digitVal x) 0 * 10 ^ (9 - ds.length)

/-- A fraction after a full stop or a comma, when a digit follows; digits past the ninth are cut off. -/
def readFraction : Bytes → Nat × Bytes
  | c :: d :: cs =>
    if (c = 0x2e ∨ c = 0x2c) ∧ isDigit d then
      (nanoseconds (((d :: cs).takeWhile isDigit).take 9), (d :: cs).dropWhile isDigit)
    else (0, c :: d :: cs)
  | bs => (0, bs)

/-- `Z`, or a sign and `hh:mm` with hours up to 24 and minutes up to 60. -/
def readZone (bs : Bytes) : Option (Int × Bytes) :=
  match bs with
  | [] => none
  | c :: cs =>
    if c = 0x5a then some (0, cs)
    else if c = 0x2b ∨ c = 0x2d then do
      let (hh, r) ← digits 2 cs
      let r ← char 0x3a r
      let (mm, r) ← digits 2 r
      if hh ≤ 24 ∧ mm ≤ 60 then
        some ((if c = 0x2b then 1 else -1) * ((hh * 60 + mm) * 60 : Nat), r)
      else none
    else none

/-- **`parse bs`** — `time.Parse(time.RFC3339, bs)`. -/
def parse (bs : Bytes) : Option Time := do
  let (y, r) ← digits 4 bs
  let r ← char 0x2d r
  let (m, r) ← digits 2 r
  let r ← char 0x2d r
  let (d, r) ← digits 2 r
  let r ← char 0x54 r
  let (hh, r) ← hour r
  let r ← char 0x3a r
  let (mm, r) ← digits 2 r
  let r ← char 0x3a r
  let (ss, r) ← digits 2 r
  let (ns, r) := readFraction r
  let (offset, r) ← readZone r
  if r = [] ∧ (1 ≤ m ∧ m ≤ 12) ∧ (1 ≤ d ∧ d ≤ daysIn m y) ∧ hh < 24 ∧ mm < 60 ∧ ss < 60 then
    some ⟨((((dayNumber y m d : Int) - epochDay) * 86400 + hh * 3600 + mm * 60 + ss) - offset)
      * 1000000000 + ns, offset⟩
  else none

/-- **`unmarshal old raw`** — `json.Unmarshal(raw, &t)` over a field that holds `old`: `null` leaves it
alone, anything but a string literal is refused, and the text is the one the literal denotes. -/
def unmarshal (old : Time) (raw : Bytes) : Option Time :=
  if raw = [0x6e, 0x75, 0x6c, 0x6c] then some old
  else if raw.length < 2 ∨ raw.head? ≠ some 0x22 ∨ raw.getLast? ≠ some 0x22 then none
  else parse (Json.unquote raw)

/-! ## What is read and what can be written again -/

theorem digits_lt {n : Nat} {bs r : Bytes} {v : Nat} (h : digits n bs = some (v, r)) : v < 10 ^ n := by
  induction n generalizing bs v r with
  | zero =>
      obtain ⟨rfl, _⟩ := Prod.mk.injEq .. ▸ Option.some.injEq .. ▸ h
      simp
  | succ n ih =>
      cases bs with
      | nil => simp [digits] at h
      | cons c cs =>
          rw [digits] at h
          split at h
          · next hc =>
            obtain ⟨⟨w, r'⟩, hw, hv⟩ := Option.map_eq_some_iff.mp h
            have hlt := ih hw
            obtain ⟨rfl, _⟩ := Prod.mk.injEq .. ▸ hv
            have hdigit : digitVal c ≤ 9 := by
              simp only [isDigit, Bool.and_eq_true, decide_eq_true_eq, UInt8.le_iff_toNat_le] at hc
              have h57 : (0x39 : UInt8).toNat = 57 := rfl
              unfold digitVal
              omega
            calc digitVal c * 10 ^ n + w < 9 * 10 ^ n + 10 ^ n := by
                  have := Nat.mul_le_mul_right (10 ^ n) hdigit
                  omega
              _ = 10 ^ (n + 1) := by ring
          · exact absurd h (by simp)

theorem foldl_digits_lt (ds : Bytes) (h : ds.all isDigit = true) (acc : Nat) :
    ds.foldl (fun n x => n * 10 + digitVal x) acc < (acc + 1) * 10 ^ ds.length := by
  induction ds generalizing acc with
  | nil => simp
  | cons c cs ih =>
      rw [List.all_cons, Bool.and_eq_true] at h
      have hdigit : digitVal c ≤ 9 := by
        have hc := h.1
        simp only [isDigit, Bool.and_eq_true, decide_eq_true_eq, UInt8.le_iff_toNat_le] at hc
        have h57 : (0x39 : UInt8).toNat = 57 := rfl
        unfold digitVal
        omega
      calc (c :: cs).foldl (fun n x => n * 10 + digitVal x) acc
          = cs.foldl (fun n x => n * 10 + digitVal x) (acc * 10 + digitVal c) := rfl
        _ < (acc * 10 + digitVal c + 1) * 10 ^ cs.length := ih h.2 _
        _ ≤ ((acc + 1) * 10) * 10 ^ cs.length := Nat.mul_le_mul_right _ (by omega)
        _ = (acc + 1) * 10 ^ (c :: cs).length := by rw [List.length_cons, Nat.pow_succ]; ring

theorem nanoseconds_lt {ds : Bytes} (h : ds.all isDigit = true) (hlen : ds.length ≤ 9) :
    nanoseconds ds < 1000000000 := by
  have hlt := foldl_digits_lt ds h 0
  calc nanoseconds ds < (0 + 1) * 10 ^ ds.length * 10 ^ (9 - ds.length) :=
        Nat.mul_lt_mul_of_pos_right hlt (Nat.pow_pos (by decide))
    _ = 10 ^ (ds.length + (9 - ds.length)) := by rw [Nat.pow_add]; ring
    _ = 1000000000 := by rw [Nat.add_sub_cancel' hlen]; rfl

/-- A fraction read is less than a second. -/
theorem readFraction_lt (bs : Bytes) : (readFraction bs).1 < 1000000000 := by
  unfold readFraction
  split
  · next c d cs =>
    split
    · refine nanoseconds_lt (List.all_eq_true.mpr fun x hx => ?_) (List.length_take_le _ _)
      exact List.all_eq_true.mp List.all_takeWhile x (List.mem_of_mem_take hx)
    · simp
  · simp

/-- An offset is read in whole minutes. -/
theorem readZone_minutes {bs r : Bytes} {offset : Int} (h : readZone bs = some (offset, r)) : offset % 60 = 0 := by
  unfold readZone at h
  split at h
  · exact absurd h (by simp)
  split at h
  · obtain ⟨rfl, _⟩ := Prod.mk.injEq .. ▸ Option.some.injEq .. ▸ h
    rfl
  split at h
  · simp only [Option.bind_eq_bind, Option.bind_eq_some_iff, Prod.exists] at h
    obtain ⟨hh, r₁, _, r₂, _, mm, r₃, _, h⟩ := h
    split at h
    · obtain ⟨rfl, _⟩ := Prod.mk.injEq .. ▸ Option.some.injEq .. ▸ h
      push_cast
      split <;> omega
    · exact absurd h (by simp)
  · exact absurd h (by simp)

/-- The one inversion of `parse`: the date, the time of day and the offset a text stands for. -/
theorem parse_cases {bs : Bytes} {t : Time} (h : parse bs = some t) :
    ∃ y m d s ns : Nat, y ≤ 9999 ∧ (1 ≤ m ∧ m ≤ 12) ∧ (1 ≤ d ∧ d ≤ daysIn m y) ∧ s < 86400 ∧
      ns < 1000000000 ∧ t.offset % 60 = 0 ∧
      t.nanos = (((dayNumber y m d : Int) - epochDay) * 86400 + s - t.offset) * 1000000000 + ns := by
  simp only [parse, Option.bind_eq_bind, Option.bind_eq_some_iff, Prod.exists] at h
  obtain ⟨y, r₁, hy, r₂, _, m, r₃, _, r₄, _, d, r₅, _, r₆, _, hh, r₇, _, r₈, _, mm, r₉, _, r₁₀, _,
    ss, r₁₁, _, offset, r₁₂, hoffset, h⟩ := h
  have hy' := digits_lt hy
  have hns := readFraction_lt r₁₁
  split at h
  · next hc =>
    obtain ⟨_, hm, hd, h1, h2, h3⟩ := hc
    obtain rfl := Option.some.inj h
    refine ⟨y, m, d, hh * 3600 + mm * 60 + ss, (readFraction r₁₁).1, by omega, hm, hd, by omega, hns,
      readZone_minutes hoffset, ?_⟩
    push_cast
    ring
  · exact absurd h (by simp)

/-- **A time that was read can be written again exactly when its offset is below a day.** -/
theorem encodable_of_parse {bs : Bytes} {t : Time} (h : parse bs = some t) :
    t.encodable = true ↔ t.offset.natAbs < 86400 := by
  obtain ⟨y, m, d, s, ns, hy, hm, hd, hs, hns, _, ht⟩ := parse_cases h
  have hday := dayNumber_lt hy hm hd
  have hlocal : t.localDay = dayNumber y m d := by
    unfold localDay localSeconds
    rw [ht]
    omega
  have hzone : t.zoneMinutes / 60 < 24 ↔ t.offset.natAbs < 86400 := by
    unfold zoneMinutes
    omega
  simp only [encodable, Bool.and_eq_true, decide_eq_true_eq, hlocal, hzone]
  constructor
  · exact fun hc => hc.2
  · exact fun hc => ⟨⟨by omega, by exact_mod_cast hday⟩, hc⟩

end Time

end LocalPlatform.Codec
