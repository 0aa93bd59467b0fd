/-
# LocalPlatform.Relay.Delivery.Schedule — how long one record can hold its consumer.

A retry schedule is read from a preset's name or a list of durations, and refused when its worst case,
every delay waited in full and every attempt run to its timeout, is not under the stall budget.  The worst
case is computed in 64 bits.  Where its exact value fits, what passes is safe in every run of `Deliver`,
whatever the jitter; where it does not, a schedule of centuries can pass (`stallSound_iff`).
-/
import Mathlib.Algebra.BigOperators.Group.List.Basic
import LocalPlatform.Codec.Duration
import LocalPlatform.Relay.Delivery.Attempts

namespace LocalPlatform.Relay.Delivery

open Codec Numeric Subscriptions History

/-! ## Reading a schedule -/

/-- **`RetrySchedule`** with the name it came from and its jitter. -/
structure NamedSchedule extends RetrySchedule where
  name : Bytes
  jitter : Bool
  deriving DecidableEq, Repr

def second : Nat := 1000000000

/-- `presets`. -/
def presets : List (Bytes × List Nat) :=
  [(ascii "standard", [5 * second, 300 * second, 1800 * second, 7200 * second, 18000 * second, 36000 * second,
      36000 * second]),
    (ascii "demo", [1 * second, 2 * second, 4 * second, 8 * second])]

/-- Why a schedule is refused.  Delays are numbered from one. -/
inductive ScheduleErr where
  /-- `ErrEmptySchedule`. -/
  | empty
  | unknownPreset (spec : Bytes)
  | emptyDelay (number : Nat) (spec : Bytes)
  | badDelay (number : Nat) (field : Bytes) (err : DurationErr)
  | negativeDelay (number : Nat) (field : Bytes)
  deriving DecidableEq, Repr

/-- One field of a list of delays. -/
def parseDelay (spec : Bytes) (number : Nat) (field : Bytes) : Except ScheduleErr Nat :=
  let f := trimSpace field
  if f = [] then .error (.emptyDelay number spec)
  else match parseDuration f with
    | .error e => .error (.badDelay number f e)
    | .ok d => if d < 0 then .error (.negativeDelay number f) else .ok d.toNat

/-- The fields from `number` on. -/
def parseDelays (spec : Bytes) : Nat → List Bytes → Except ScheduleErr (List Nat)
  | _, [] => .ok []
  | number, field :: fields => do
    let d ← parseDelay spec number field
    let ds ← parseDelays spec (number + 1) fields
    return d :: ds

/-- **`ParseRetrySchedule spec jitter`**. -/
def parseRetrySchedule (spec : Bytes) (jitter : Bool) : Except ScheduleErr NamedSchedule :=
  let spec := trimSpace spec
  if spec = [] then .error .empty
  else match presets.lookup spec with
    | some delays => .ok ⟨⟨delays⟩, spec, jitter⟩
    | none =>
      if spec.any (fun c => c == 0x2c || isDigit c) = false then .error (.unknownPreset spec)
      else do
        let delays ← parseDelays spec 1 (spec.splitOn 0x2c)
        if delays.length = 0 then .error .empty else return ⟨⟨delays⟩, ascii "custom", jitter⟩

/-- A delay is a signed 64-bit integer that is not negative. -/
theorem parseDelay_lt {spec field : Bytes} {number d : Nat} (h : parseDelay spec number field = .ok d) : d < 2 ^ 63 := by
  unfold parseDelay at h
  simp only at h
  split at h
  · cases h
  split at h
  · cases h
  next ns hns =>
  split at h
  · cases h
  · rw [← Except.ok.inj h]
    have hlt := parseDuration_lt hns
    omega

theorem parseDelays_lt {spec : Bytes} {fields : List Bytes} : ∀ {number : Nat} {ds : List Nat},
    parseDelays spec number fields = .ok ds → ∀ d ∈ ds, d < 2 ^ 63 := by
  induction fields with
  | nil =>
      intro number ds h d hd
      rw [← Except.ok.inj h] at hd
      exact absurd hd List.not_mem_nil
  | cons field fields ih =>
      intro number ds h d hd
      rw [parseDelays] at h
      cases hfield : parseDelay spec number field with
      | error e => rw [hfield] at h; cases h
      | ok d₀ =>
          cases hfields : parseDelays spec (number + 1) fields with
          | error e => rw [hfield, hfields] at h; cases h
          | ok ds₀ =>
              rw [hfield, hfields] at h
              obtain rfl := Except.ok.inj h
              rcases List.mem_cons.mp hd with rfl | hd
              · exact parseDelay_lt hfield
              · exact ih hfields d hd

/-- **A schedule that is read has delays**, all of 64 bits. -/
theorem parseRetrySchedule_ok {spec : Bytes} {jitter : Bool} {s : NamedSchedule}
    (h : parseRetrySchedule spec jitter = .ok s) : s.jitter = jitter ∧ s.delays ≠ [] ∧ ∀ d ∈ s.delays, d < 2 ^ 63 := by
  unfold parseRetrySchedule at h
  simp only at h
  split at h
  · cases h
  split at h
  · next delays hpreset =>
    obtain rfl := Except.ok.inj h
    -- the presets are in range, and the parser of the delays keeps to the range itself
    have hpresets : ∀ preset ∈ presets, preset.2 ≠ [] ∧ ∀ d ∈ preset.2, d < 2 ^ 63 := by decide
    obtain ⟨before, behind, hmem, _⟩ := List.lookup_eq_some_iff.mp hpreset
    exact ⟨rfl, hpresets (trimSpace spec, delays) (by rw [hmem]; simp)⟩
  split at h
  · cases h
  cases hdelays : parseDelays (trimSpace spec) 1 ((trimSpace spec).splitOn 0x2c) with
  | error e => rw [hdelays] at h; cases h
  | ok delays =>
      rw [hdelays] at h
      change (if delays.length = 0 then _ else _) = _ at h
      split at h
      · cases h
      · next hlen =>
        obtain rfl := Except.ok.inj h
        refine ⟨rfl, ?_, parseDelays_lt hdelays⟩
        rintro rfl
        exact hlen rfl

/-! ## Its worst case -/

/-- The 64 bits of a result. -/
def int64 (n : Int) : Int := n.bmod (2 ^ 64)

namespace NamedSchedule

/-- **`s.Total()`**. -/
def total (s : NamedSchedule) : Int := s.delays.foldl (fun (total : Int) (d : Nat) => int64 (total + d)) 0

/-- **`s.WorstCase(attemptTimeout)`**. -/
def worstCase (s : NamedSchedule) (attemptTimeout : Int) : Int :=
  int64 (s.total + int64 (int64 s.maxAttempts * attemptTimeout))

/-- **`s.jittered(d, frac)`**. -/
def jittered (s : NamedSchedule) (d : Nat) (frac : ℚ) : Nat :=
  if s.jitter = false ∨ d = 0 then d
  else
    let half := d / 2
    half + ⌊float64 (frac * float64 half)⌋.toNat

/-- **`s.DelayFor(retry)`** with the fraction that `rand.Float64()` returns. -/
def delayOf (s : NamedSchedule) (retry : Nat) (frac : ℚ) : Option Nat := (s.delayFor retry).map fun d => s.jittered d frac

end NamedSchedule

/-- Why a schedule does not fit its budget. -/
inductive BudgetErr where
  | empty
  | timeout (attemptTimeout : Int)
  | stalls (name : Bytes) (worst total : Int) (attempts : Nat) (attemptTimeout budget : Int)
  deriving DecidableEq, Repr

/-- **`s.ValidateStallBudget(budget, attemptTimeout)`**. -/
def validateStallBudget (s : NamedSchedule) (budget attemptTimeout : Int) : Except BudgetErr Unit :=
  if s.delays.length = 0 then .error .empty
  else if attemptTimeout ≤ 0 then .error (.timeout attemptTimeout)
  else if budget ≤ s.worstCase attemptTimeout then
    .error (.stalls s.name (s.worstCase attemptTimeout) s.total s.maxAttempts attemptTimeout budget)
  else .ok ()

/-! ## The worst case in 64 bits -/

/-- The exact worst case. -/
def NamedSchedule.exactCase (s : NamedSchedule) (attemptTimeout : Int) : Int :=
  (s.delays.sum : Nat) + (s.delays.length + 1 : Nat) * attemptTimeout

theorem int64_add_int64 (a b : Int) : int64 (a + int64 b) = int64 (a + b) := by
  unfold int64
  exact Int.add_bmod_bmod

theorem int64_add (a b : Int) : int64 (int64 a + b) = int64 (a + b) := by
  unfold int64
  exact Int.bmod_add_bmod

theorem int64_mul (a b : Int) : int64 (int64 a * b) = int64 (a * b) := by
  unfold int64
  exact Int.bmod_mul_bmod

/-- The running total, by induction on the delays. -/
theorem foldl_int64 (ds : List Nat) : ∀ a : Int,
    ds.foldl (fun (total : Int) (d : Nat) => int64 (total + d)) (int64 a) = int64 (a + (ds.sum : Nat)) := by
  induction ds with
  | nil =>
      intro a
      rw [List.foldl_nil, List.sum_nil, Int.natCast_zero, Int.add_zero]
  | cons d ds ih =>
      intro a
      rw [List.foldl_cons, int64_add, ih, List.sum_cons]
      congr 1
      push_cast
      ring

theorem NamedSchedule.worstCase_eq (s : NamedSchedule) (attemptTimeout : Int) :
    s.worstCase attemptTimeout = int64 (s.exactCase attemptTimeout) := by
  have htotal : s.total = int64 (s.delays.sum : Nat) := by
    have h := foldl_int64 s.delays 0
    rw [Int.zero_add] at h
    exact h
  rw [worstCase, htotal, int64_mul, int64_add_int64, int64_add]
  rfl

/-- What fits in 64 bits is unchanged, and what does not is its residue, or negative. -/
theorem int64_lt_iff {n b : Int} (hn : 0 ≤ n) (hb : 0 < b) (hb' : b < 2 ^ 63) :
    int64 n < b ∧ b ≤ n ↔ 2 ^ 63 ≤ n ∧ ¬ (b ≤ n % 2 ^ 64 ∧ n % 2 ^ 64 < 2 ^ 63) := by
  unfold int64
  rw [Int.bmod_def]
  have hcast : ((2 ^ 64 : Nat) : Int) = 2 ^ 64 := by norm_num
  rw [hcast]
  split <;> omega

/-! ## The time a delivery takes -/

/-- A value of `rand.Float64()`: a float64 below one. -/
structure Fraction where
  value : ℚ
  representable : Representable 53 value
  lt_one : value < 1

/-- What a fraction takes of a whole number, computed in float64, is no more than the number. -/
theorem Fraction.mul_le (frac : Fraction) (n : Nat) : ⌊float64 (frac.value * float64 n)⌋.toNat ≤ n := by
  have hle : float64 (frac.value * float64 n) ≤ n := by
    unfold float64
    rcases Nat.eq_zero_or_pos n with rfl | hn
    · rw [Nat.cast_zero, round_zero, mul_zero, round_zero]
    rcases eq_or_lt_of_le frac.representable.nonneg with hzero | hpos
    · rw [← hzero, zero_mul, round_zero]
      exact Nat.cast_nonneg n
    · exact round_mul_le (by decide) (by exact_mod_cast hn) frac.representable hpos frac.lt_one
  have hfloor : ⌊float64 (frac.value * float64 n)⌋ ≤ (n : Int) := by
    rw [← Int.floor_natCast (R := ℚ) n]
    exact Int.floor_le_floor hle
  omega

/-- **Jitter never lengthens a delay.** -/
theorem NamedSchedule.jittered_le (s : NamedSchedule) (d : Nat) (frac : Fraction) : s.jittered d frac.value ≤ d := by
  unfold jittered
  split
  · exact Nat.le_refl d
  · have hhalf := frac.mul_le (d / 2)
    show d / 2 + ⌊float64 (frac.value * float64 (d / 2 : Nat))⌋.toNat ≤ d
    omega

/-- The numbers of the requests among the calls. -/
def requests : List Call → List Nat
  | [] => []
  | .attempted number _ :: calls => number :: requests calls
  | .wrote _ _ :: calls => requests calls

theorem requests_append (a b : List Call) : requests (a ++ b) = requests a ++ requests b := by
  induction a with
  | nil => rfl
  | cons c a ih => cases c <;> simp [requests, ih]

/-- The clock of a delivery: how long each request takes and how long the wait behind it is, with the
fraction it was jittered with.  A wait that is cut short or not made at all is shorter. -/
structure Clock (s : NamedSchedule) (attemptTimeout : Int) where
  request : Nat → Int
  request_le : ∀ n, request n ≤ attemptTimeout
  frac : Nat → Fraction
  waited : Nat → Int
  waited_le : ∀ n, waited n ≤ ((s.delayOf n (frac n).value).getD 0 : Nat)

/-- The time that passes over these requests. -/
def Clock.occupied {s : NamedSchedule} {attemptTimeout : Int} (clock : Clock s attemptTimeout) (numbers : List Nat) : Int :=
  (numbers.map fun n => clock.request n + clock.waited n).sum

/-- **No record holds its consumer as long as the budget**: not in the exact worst case, and not in any run
of `Deliver` with this schedule. -/
structure StallSound (s : NamedSchedule) (budget attemptTimeout : Int) : Prop where
  exact : s.exactCase attemptTimeout < budget
  runs : ∀ (rt : Runtime) (d : Deliverer) (sub : Subscription) (rec : Record) (envs : Nat → AttemptEnv),
    d.schedule = s.toRetrySchedule → ∀ clock : Clock s attemptTimeout,
      clock.occupied (requests (traced rt d sub rec envs).2) < budget

/-- The requests of the loop are numbered without a gap and no more than the attempts left. -/
theorem requests_tracedFrom {rt : Runtime} {d : Deliverer} {sub : Subscription} {rec : Record} {body : Bytes}
    {envs : Nat → AttemptEnv} (left : Nat) : ∀ (number : Nat) (out : Outcome),
      ∃ k ≤ left, requests (tracedFrom rt d sub rec body envs left number out).2 = List.range' number k := by
  induction left with
  | zero => exact fun _ _ => ⟨0, Nat.le_refl 0, rfl⟩
  | succ left ih =>
      intro number out
      have hone : ∀ (result : Int × Option Err) (built : Attempt) (recordErr : Option Err),
          requests (.attempted number result :: if d.recorder then [.wrote built recordErr] else []) = [number] := by
        intro result built recordErr
        cases d.recorder <;> rfl
      rw [tracedFrom]
      split
      · exact ⟨0, Nat.zero_le _, rfl⟩
      simp only
      split
      · exact ⟨1, Nat.le_add_left 1 left, hone _ _ _⟩
      · exact ⟨1, Nat.le_add_left 1 left, hone _ _ _⟩
      · exact ⟨1, Nat.le_add_left 1 left, hone _ _ _⟩
      split
      · exact ⟨1, Nat.le_add_left 1 left, hone _ _ _⟩
      split
      · exact ⟨1, Nat.le_add_left 1 left, hone _ _ _⟩
      split
      · exact ⟨1, Nat.le_add_left 1 left, hone _ _ _⟩
      · -- another attempt follows
        obtain ⟨k, hk, hrest⟩ := ih (number + 1) (afterRequest out number
          (attempt rt sub rec body (envs number).exchange).1.1 (attempt rt sub rec body (envs number).exchange).1.2)
        refine ⟨k + 1, Nat.succ_le_succ hk, ?_⟩
        rw [requests_append, hone, hrest, List.range'_succ, List.singleton_append]

theorem requests_traced {rt : Runtime} {d : Deliverer} (sub : Subscription) (rec : Record) (envs : Nat → AttemptEnv) :
    ∃ k ≤ d.schedule.maxAttempts, requests (traced rt d sub rec envs).2 = List.range' 1 k := by
  unfold traced
  split
  · exact ⟨0, Nat.zero_le _, rfl⟩
  · split
    · exact ⟨0, Nat.zero_le _, rfl⟩
    · exact requests_tracedFrom _ 1 _

/-- The delays behind the first requests are among the delays. -/
theorem sum_delays (ds : List Nat) (k : Nat) :
    ((List.range' 1 k).map fun n => (RetrySchedule.delayFor ⟨ds⟩ n).getD 0).sum ≤ ds.sum := by
  have htake : ((List.range' 1 k).map fun n => (RetrySchedule.delayFor ⟨ds⟩ n).getD 0).sum = (ds.take k).sum := by
    induction k with
    | zero => rfl
    | succ k ih =>
        have hdelay : (RetrySchedule.delayFor ⟨ds⟩ (1 + k)).getD 0 = (ds[k]?).getD 0 := by
          unfold RetrySchedule.delayFor
          split
          · next h =>
            rw [List.getElem?_eq_none (by simp at h; omega)]
          · rw [Nat.add_sub_cancel_left]
        rw [List.range'_1_concat, List.map_append, List.sum_append, ih, List.take_add_one, List.sum_append]
        congr 1
        rw [List.map_singleton, List.sum_singleton, hdelay]
        cases ds[k]? <;> rfl
  rw [htake]
  calc (ds.take k).sum ≤ (ds.take k).sum + (ds.drop k).sum := Nat.le_add_right _ _
    _ = ds.sum := by rw [← List.sum_append, List.take_append_drop]

/-- **A run takes no longer than the exact worst case.** -/
theorem Clock.occupied_le {s : NamedSchedule} {attemptTimeout : Int} (htimeout : 0 < attemptTimeout)
    (clock : Clock s attemptTimeout) {k : Nat} (hk : k ≤ s.delays.length + 1) :
    clock.occupied (List.range' 1 k) ≤ s.exactCase attemptTimeout := by
  have hwaited : ∀ n, clock.waited n ≤ ((s.delayFor n).getD 0 : Nat) := by
    intro n
    refine le_trans (clock.waited_le n) ?_
    unfold NamedSchedule.delayOf
    cases s.delayFor n with
    | none => exact le_refl _
    | some d => exact_mod_cast s.jittered_le d (clock.frac n)
  -- each request stays within the timeout, each wait within its delay
  have hsum : ∀ numbers : List Nat, clock.occupied numbers ≤
      numbers.length * attemptTimeout + ((numbers.map fun n => (s.delayFor n).getD 0).sum : Nat) := by
    intro numbers
    induction numbers with
    | nil => simp [Clock.occupied]
    | cons n numbers ih =>
        unfold Clock.occupied at ih ⊢
        rw [List.map_cons, List.sum_cons, List.map_cons, List.sum_cons, List.length_cons]
        have hrequest := clock.request_le n
        have hwait := hwaited n
        simp only [Nat.cast_add, Nat.cast_one]
        linarith
  have hdelays := sum_delays s.delays k
  have hcount : (k : Int) * attemptTimeout ≤ (s.delays.length + 1 : Nat) * attemptTimeout :=
    mul_le_mul_of_nonneg_right (by exact_mod_cast hk) htimeout.le
  have hall := hsum (List.range' 1 k)
  rw [List.length_range'] at hall
  have hdelays' : (((List.range' 1 k).map fun n => (s.delayFor n).getD 0).sum : Int) ≤ (s.delays.sum : Nat) := by
    exact_mod_cast hdelays
  unfold NamedSchedule.exactCase
  omega

/-- A schedule under the budget in exact arithmetic is under it in every run. -/
theorem stallSound_iff_exact {s : NamedSchedule} {budget attemptTimeout : Int} (htimeout : 0 < attemptTimeout) :
    StallSound s budget attemptTimeout ↔ s.exactCase attemptTimeout < budget := by
  refine ⟨fun h => h.exact, fun hexact => ⟨hexact, fun rt d sub rec envs hschedule clock => ?_⟩⟩
  obtain ⟨k, hk, hrequests⟩ := @requests_traced rt d sub rec envs
  rw [hrequests]
  apply lt_of_le_of_lt (clock.occupied_le htimeout _) hexact
  rw [hschedule] at hk
  exact hk

/-- **What the check promises of a spec**: a schedule that it lets pass does not hold a consumer as long as
the budget. -/
def StallBudgetSound (spec : Bytes) (jitter : Bool) (budget attemptTimeout : Int) : Prop :=
  ∀ s, parseRetrySchedule spec jitter = .ok s → validateStallBudget s budget attemptTimeout = .ok () →
    StallSound s budget attemptTimeout

/-- The exact worst case fits in 64 bits, or what is left of it there is still not under the budget. -/
def CaseFits (spec : Bytes) (jitter : Bool) (budget attemptTimeout : Int) : Prop :=
  ∀ s, parseRetrySchedule spec jitter = .ok s → s.exactCase attemptTimeout < 2 ^ 63 ∨
    budget ≤ s.exactCase attemptTimeout % 2 ^ 64 ∧ s.exactCase attemptTimeout % 2 ^ 64 < 2 ^ 63

theorem exactCase_pos (s : NamedSchedule) {attemptTimeout : Int} (htimeout : 0 < attemptTimeout) :
    0 ≤ s.exactCase attemptTimeout := by
  unfold NamedSchedule.exactCase
  positivity

/-- **Which specs the stall budget is sound for.** -/
theorem stallBudgetSound_iff (spec : Bytes) (jitter : Bool) {budget attemptTimeout : Int} (hbudget : 0 < budget)
    (hbudget' : budget < 2 ^ 63) (htimeout : 0 < attemptTimeout) :
    StallBudgetSound spec jitter budget attemptTimeout ↔ CaseFits spec jitter budget attemptTimeout := by
  refine forall_congr' fun s => imp_congr_right fun hparse => ?_
  have hdelays : s.delays.length ≠ 0 := by
    intro hlen
    exact (parseRetrySchedule_ok hparse).2.1 (List.length_eq_zero_iff.mp hlen)
  -- a schedule that parses passes exactly when the wrapped sum is below the budget
  have hpasses : validateStallBudget s budget attemptTimeout = .ok () ↔ int64 (s.exactCase attemptTimeout) < budget := by
    rw [validateStallBudget, if_neg hdelays, if_neg (by omega), s.worstCase_eq]
    split
    · next h => exact iff_of_false (fun heq => by cases heq) (by omega)
    · next h => exact iff_of_true rfl (by omega)
  rw [hpasses, stallSound_iff_exact htimeout]
  have hfits := @int64_lt_iff _ budget (exactCase_pos s htimeout) hbudget hbudget'
  constructor
  · intro hsound
    by_contra hnot
    obtain ⟨hbig, hresidue⟩ := not_or.mp hnot
    obtain ⟨hlt, hle⟩ := hfits.mpr ⟨by omega, hresidue⟩
    have hexact := hsound hlt
    omega
  · intro hcase hlt
    by_contra hnot
    obtain ⟨hbig, hresidue⟩ := hfits.mp ⟨hlt, by omega⟩
    rcases hcase with hsmall | hcase
    · omega
    · exact hresidue hcase

theorem stallBudgetSound_iff_demo :
    StallBudgetSound (ascii "demo") true (30 * second) (2 * second) ↔ CaseFits (ascii "demo") true (30 * second) (2 * second) :=
  stallBudgetSound_iff _ _ (by decide) (by decide) (by decide)

/-- A field that is a number of nanoseconds. -/
theorem parseDelay_ns (spec : Bytes) (number : Nat) {n : Nat} (hn : n < 2 ^ 63) :
    parseDelay spec number (dec n ++ ascii "ns") = .ok n := by
  have hgraphic : ∀ c ∈ dec n ++ ascii "ns", 0x21 ≤ c ∧ c < 0x80 := by
    intro c hc
    rcases List.mem_append.mp hc with hc | hc
    · have hdigit := isDigit_of_mem_dec hc
      simp only [isDigit, Bool.and_eq_true, decide_eq_true_eq] at hdigit
      rw [UInt8.le_iff_toNat_le, UInt8.le_iff_toNat_le] at hdigit
      rw [UInt8.le_iff_toNat_le, UInt8.lt_iff_toNat_lt]
      simp at hdigit ⊢
      omega
    · have hunit : ∀ c ∈ ascii "ns", 0x21 ≤ c ∧ c < 0x80 := by decide +kernel
      exact hunit c hc
  have hne : dec n ++ ascii "ns" ≠ [] := by simp [dec_ne_nil]
  rw [parseDelay, trimSpace_graphic hgraphic, if_neg hne, parseDuration_ns hn]
  simp only
  rw [if_neg (by omega), Int.toNat_natCast]

/-- Two delays of 292 years. -/
def centuries : Bytes := ascii "9223372036854775807ns,9223372036854775807ns"

theorem parse_centuries (jitter : Bool) :
    parseRetrySchedule centuries jitter = .ok ⟨⟨[2 ^ 63 - 1, 2 ^ 63 - 1]⟩, ascii "custom", jitter⟩ := by
  have htrim : trimSpace centuries = centuries := trimSpace_graphic (by decide +kernel)
  have hsplit : centuries.splitOn 0x2c = [dec (2 ^ 63 - 1) ++ ascii "ns", dec (2 ^ 63 - 1) ++ ascii "ns"] := by decide
  have hdelays : parseDelays centuries 1 (centuries.splitOn 0x2c) = .ok [2 ^ 63 - 1, 2 ^ 63 - 1] := by
    rw [hsplit, parseDelays, parseDelay_ns _ _ (by decide), parseDelays, parseDelay_ns _ _ (by decide)]
    rfl
  unfold parseRetrySchedule
  simp only [htrim, hdelays]
  rfl

/-- **A schedule of centuries passes the default budget.** -/
theorem not_stallBudgetSound_centuries : ¬ StallBudgetSound centuries false (30 * second) second := by
  intro hsound
  have hexact := (hsound _ (parse_centuries false) (by decide)).exact
  exact absurd hexact (by decide)

end LocalPlatform.Relay.Delivery
