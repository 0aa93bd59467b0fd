/-
# LocalPlatform.Metrics.Gauge — gauges, and the numbers they hold.

A gauge vector exports one series for each choice of label values it was ever set for, and a series
stays until the process ends.  Its value is a `float64`; the values set here are integers, so a value
is kept as the integer it is, and a conversion or an addition rounds to the nearest integer of 53
significant bits.
-/
import Mathlib.Algebra.Order.BigOperators.Group.List
import Mathlib.Data.List.AList
import LocalPlatform.Codec.Bytes

namespace LocalPlatform.Metrics

open Codec

/-! ## Numbers -/

/-- A `float64` without a fractional part. -/
abbrev Float64 := Int

namespace Float64

/-- The nearest natural number of at most 53 significant bits, the even one where two are as near. -/
def roundNat (n : Nat) : Nat :=
  let ulp := 2 ^ (n.log2 - 52)
  if ulp < 2 * (n % ulp) ∨ (ulp = 2 * (n % ulp) ∧ n / ulp % 2 = 1) then (n / ulp + 1) * ulp
  else n / ulp * ulp

/-- The conversion `float64(n)`. -/
def ofInt (n : Int) : Float64 := n.sign * roundNat n.natAbs

/-- `x + y`. -/
def add (x y : Float64) : Float64 := ofInt (x + y)

/-- A running total that starts at zero. -/
def total (xs : List Float64) : Float64 := xs.foldl add 0

theorem roundNat_of_le {n : Nat} (h : n ≤ 2 ^ 53) : roundNat n = n := by
  rcases Nat.lt_or_eq_of_le h with hlt | rfl
  · -- below 2^53 the last place is a unit
    have hulp : n.log2 - 52 = 0 := by
      by_cases hn : n = 0
      · subst hn
        rfl
      · have := (Nat.log2_lt hn).mpr hlt
        omega
    unfold roundNat
    rw [hulp]
    simp [Nat.mod_one]
  · decide

theorem ofInt_of_le {n : Int} (h : n.natAbs ≤ 2 ^ 53) : ofInt n = n := by
  rw [ofInt, roundNat_of_le h]
  exact Int.sign_mul_natAbs n

theorem ofInt_nonneg {n : Int} (h : 0 ≤ n) : 0 ≤ ofInt n := by
  rcases h.eq_or_lt with rfl | hpos
  · simp [ofInt]
  · rw [ofInt, Int.sign_eq_one_of_pos hpos, one_mul]
    exact Int.natCast_nonneg _

/-- A running total loses nothing while it stays within 53 bits. -/
theorem total_of_le {xs : List Int} (hnonneg : ∀ x ∈ xs, 0 ≤ x) (hle : xs.sum ≤ 2 ^ 53) :
    total xs = xs.sum := by
  have hgo : ∀ (ys : List Int) (acc : Int), 0 ≤ acc → (∀ y ∈ ys, 0 ≤ y) → acc + ys.sum ≤ 2 ^ 53 →
      ys.foldl add acc = acc + ys.sum := by
    intro ys
    induction ys with
    | nil => simp
    | cons y ys ih =>
        intro acc hacc hys hsum
        have hy : 0 ≤ y := hys y (by simp)
        have hrest : 0 ≤ ys.sum := List.sum_nonneg fun z hz => hys z (List.mem_cons_of_mem _ hz)
        rw [List.sum_cons] at hsum ⊢
        have hexact : add acc y = acc + y := ofInt_of_le (by omega)
        have htail := ih (acc + y) (by omega) (fun z hz => hys z (List.mem_cons_of_mem _ hz)) (by omega)
        rw [List.foldl_cons, hexact, htail, Int.add_assoc]
  rw [total, hgo xs 0 (by decide) hnonneg (by omega), Int.zero_add]

end Float64

/-! ## Gauge vectors -/

/-- The series of one gauge vector, by label values. -/
abbrev GaugeVec := AList fun _ : List Bytes => Float64

namespace GaugeVec

/-- The values of the exported series whose labels are chosen, added up. -/
def exported (v : GaugeVec) (chosen : List Bytes → Bool) : Int :=
  ((v.entries.filter fun s => chosen s.1).map Sigma.snd).sum

theorem exported_split (v : GaugeVec) (p q : List Bytes → Bool) :
    exported v p = exported v (fun k => p k && q k) + exported v (fun k => p k && !q k) := by
  unfold exported
  induction v.entries with
  | nil => rfl
  | cons s es ih =>
      cases hp : p s.1 <;> cases hq : q s.1 <;> simp [hp, hq, ih] <;> omega

/-- A series that is not chosen does not count. -/
theorem exported_insert {v : GaugeVec} {chosen : List Bytes → Bool} {k : List Bytes} (hk : chosen k = false)
    (x : Float64) : exported (v.insert k x) chosen = exported v chosen := by
  unfold exported
  rw [AList.entries_insert, List.filter_cons_of_neg (by simp [hk])]
  congr 2
  induction v.entries with
  | nil => rfl
  | cons s es ih =>
      by_cases hs : k = s.1
      · rw [List.kerase_cons_eq hs, List.filter_cons_of_neg (by simp [← hs, hk])]
      · rw [List.kerase_cons_ne hs, List.filter_cons, List.filter_cons, ih]

/-- The series of a list of label values that are all exported. -/
theorem exported_of_lookup {v : GaugeVec} {ks : List (List Bytes)} {f : List Bytes → Float64} (hks : ks.Nodup)
    (h : ∀ k ∈ ks, v.lookup k = some (f k)) : exported v (fun k => decide (k ∈ ks)) = (ks.map f).sum := by
  have hperm : (v.entries.filter fun s => decide (s.1 ∈ ks)).Perm (ks.map fun k => ⟨k, f k⟩) := by
    have hleft : v.entries.Nodup := v.nodupKeys.nodup
    have hright : (ks.map fun k => (⟨k, f k⟩ : Sigma fun _ : List Bytes => Float64)).Nodup :=
      hks.map fun a b hab => congrArg Sigma.fst hab
    apply (List.perm_ext_iff_of_nodup (hleft.filter _) hright).mpr
    intro s
    constructor
    · intro hs
      obtain ⟨hmem, hkey⟩ := List.mem_filter.mp hs
      have hkey : s.1 ∈ ks := of_decide_eq_true hkey
      have hvalue := (AList.mem_lookup_iff.mpr hmem).symm.trans (h s.1 hkey)
      refine List.mem_map.mpr ⟨s.1, hkey, ?_⟩
      rw [← Option.some.inj hvalue]
    · intro hs
      obtain ⟨k, hk, rfl⟩ := List.mem_map.mp hs
      exact List.mem_filter.mpr ⟨AList.mem_lookup_iff.mp (h k hk), decide_eq_true hk⟩
  rw [exported, (hperm.map Sigma.snd).sum_eq, List.map_map]
  rfl

theorem exported_congr {v : GaugeVec} {p q : List Bytes → Bool} (h : ∀ k, p k = q k) :
    exported v p = exported v q := congrArg (exported v) (funext h)

/-- Values that are not negative add up to zero when each of them is zero. -/
theorem exported_eq_zero {v : GaugeVec} {chosen : List Bytes → Bool} (hnonneg : ∀ k x, v.lookup k = some x → 0 ≤ x) :
    exported v chosen = 0 ↔ ∀ k x, v.lookup k = some x → chosen k = true → x = 0 := by
  have hmem : ∀ x ∈ (v.entries.filter fun s => chosen s.1).map Sigma.snd, 0 ≤ x := by
    intro x hx
    obtain ⟨s, hs, rfl⟩ := List.mem_map.mp hx
    exact hnonneg s.1 s.2 (AList.mem_lookup_iff.mpr (List.mem_filter.mp hs).1)
  unfold exported
  constructor
  · intro hsum k x hlookup hchosen
    exact List.all_zero_of_le_zero_le_of_sum_eq_zero hmem hsum (List.mem_map.mpr ⟨⟨k, x⟩, List.mem_filter.mpr ⟨AList.mem_lookup_iff.mp hlookup, hchosen⟩, rfl⟩)
  · intro hall
    apply List.sum_eq_zero
    intro x hx
    obtain ⟨s, hs, rfl⟩ := List.mem_map.mp hx
    obtain ⟨hentry, hchosen⟩ := List.mem_filter.mp hs
    exact hall s.1 s.2 (AList.mem_lookup_iff.mpr hentry) hchosen

end GaugeVec

/-! ## Registries -/

variable {G : Type*} [DecidableEq G]

/-- Every gauge vector of a process. -/
abbrev Registry (G : Type*) := G → GaugeVec

/-- `gauge.WithLabelValues(labels...).Set(value)`. -/
structure Write (G : Type*) where
  gauge : G
  labels : List Bytes
  value : Float64
  deriving DecidableEq, Repr

/-- One write. -/
def set (r : Registry G) (w : Write G) : Registry G :=
  Function.update r w.gauge ((r w.gauge).insert w.labels w.value)

/-- Writes, in order. -/
def setAll (r : Registry G) (ws : List (Write G)) : Registry G := ws.foldl set r

/-- What a series was last set to. -/
def read (r : Registry G) (g : G) (labels : List Bytes) : Option Float64 := (r g).lookup labels

theorem setAll_append (r : Registry G) (ws vs : List (Write G)) :
    setAll r (ws ++ vs) = setAll (setAll r ws) vs := List.foldl_append

theorem setAll_cons (r : Registry G) (w : Write G) (ws : List (Write G)) :
    setAll r (w :: ws) = setAll (set r w) ws := rfl

theorem read_set_self (r : Registry G) (w : Write G) : read (set r w) w.gauge w.labels = some w.value := by
  unfold read set
  rw [Function.update_self]
  exact AList.lookup_insert _

theorem read_set_of_ne {r : Registry G} {w : Write G} {g : G} {labels : List Bytes}
    (h : ¬ (w.gauge = g ∧ w.labels = labels)) : read (set r w) g labels = read r g labels := by
  unfold read set
  by_cases hg : w.gauge = g
  · subst hg
    rw [Function.update_self]
    exact AList.lookup_insert_ne fun hl => h ⟨rfl, hl.symm⟩
  · rw [Function.update_of_ne (Ne.symm hg)]

/-- A series that no write names keeps its value. -/
theorem read_setAll_of_notMem {ws : List (Write G)} {g : G} {labels : List Bytes} (r : Registry G)
    (h : ∀ w ∈ ws, ¬ (w.gauge = g ∧ w.labels = labels)) : read (setAll r ws) g labels = read r g labels := by
  induction ws generalizing r with
  | nil => rfl
  | cons w ws ih =>
      rw [setAll_cons, ih _ fun v hv => h v (List.mem_cons_of_mem _ hv), read_set_of_ne (h w (by simp))]

/-- Writes that agree on a series leave it at the value they agree on. -/
theorem read_setAll_of_forall {ws : List (Write G)} {g : G} {labels : List Bytes} {x : Float64}
    (hall : ∀ w ∈ ws, w.gauge = g → w.labels = labels → w.value = x) {r : Registry G}
    (h : (∃ w ∈ ws, w.gauge = g ∧ w.labels = labels) ∨ read r g labels = some x) :
    read (setAll r ws) g labels = some x := by
  induction ws generalizing r with
  | nil =>
      rcases h with ⟨w, hw, _⟩ | h
      · exact absurd hw (by simp)
      · exact h
  | cons w ws ih =>
      rw [setAll_cons]
      apply ih fun v hv => hall v (List.mem_cons_of_mem _ hv)
      by_cases hw : w.gauge = g ∧ w.labels = labels
      · right
        obtain ⟨rfl, rfl⟩ := hw
        rw [read_set_self, hall w (by simp) rfl rfl]
      · rw [read_set_of_ne hw]
        rcases h with ⟨v, hv, hvg⟩ | h
        · rcases List.mem_cons.mp hv with rfl | hv
          · exact absurd hvg hw
          · exact Or.inl ⟨v, hv, hvg⟩
        · exact Or.inr h

/-- Writes to series that are not chosen do not change the sum of those that are. -/
theorem exported_setAll {ws : List (Write G)} {g : G} {chosen : List Bytes → Bool} (r : Registry G)
    (h : ∀ w ∈ ws, w.gauge = g → chosen w.labels = false) :
    GaugeVec.exported (setAll r ws g) chosen = GaugeVec.exported (r g) chosen := by
  induction ws generalizing r with
  | nil => rfl
  | cons w ws ih =>
      rw [setAll_cons, ih _ fun v hv => h v (List.mem_cons_of_mem _ hv)]
      by_cases hg : w.gauge = g
      · subst hg
        rw [set, Function.update_self]
        exact GaugeVec.exported_insert (h w (by simp) rfl) _
      · rw [set, Function.update_of_ne (Ne.symm hg)]

end LocalPlatform.Metrics
