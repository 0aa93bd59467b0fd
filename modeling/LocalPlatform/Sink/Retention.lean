/-
# LocalPlatform.Sink.Retention — the deliveries the sink keeps.

`received` grows to `retain` and is then overwritten in place; `ringNext` is where the next delivery goes.  A
snapshot puts the two ends in order.  The counters are kept apart, because eviction and `DELETE /received` both
shorten the list and a counter that goes backwards is not a counter.

What the component is for is said by `sinceReset` and `newest`: the deliveries since the last reset, and the last so many
of them.  The ring meets it in every state a sequence of calls can reach (`snapshot_newest`).
-/
import LocalPlatform.Codec.Time
import LocalPlatform.Logic.Window
import Mathlib.Data.ENat.Lattice

namespace LocalPlatform.Sink

open Codec Window

structure Delivery where
  receivedAt : Time
  path : Bytes
  webhookID : Bytes
  type : Bytes
  data : Bytes
  status : Int
  deriving DecidableEq, Repr

/-- The label set of `sink_deliveries_total`. -/
structure Outcome where
  path : Bytes
  status : Int
  deriving DecidableEq, Repr

/-- What the mutex guards, and the total beside it.  A count that is not in the map reads as zero. -/
structure Retained where
  received : List Delivery
  ringNext : Nat
  retain : Int
  outcomes : Outcome → Nat
  receivedTotal : Nat

def defaultRetain : Int := 10000

namespace Retained

/-- A sink that has received nothing. -/
def fresh (retain : Int) : Retained := ⟨[], 0, retain, fun _ => 0, 0⟩

/-- **`record`** — `none` where the index of the ring is out of range. -/
def record (s : Retained) (d : Delivery) (status : Int) : Option Retained :=
  let retain := if s.retain = 0 then defaultRetain else s.retain
  let counted : Retained :=
    { s with
      retain := retain
      ringNext := if retain > 0 then (s.ringNext + 1) % retain.toNat else s.ringNext
      outcomes := fun o => if o = ⟨d.path, status⟩ then s.outcomes o + 1 else s.outcomes o
      receivedTotal := s.receivedTotal + 1 }
  if retain < 0 ∨ (s.received.length : Int) < retain then some { counted with received := s.received ++ [d] }
  else if s.ringNext < s.received.length then some { counted with received := s.received.set s.ringNext d }
  else none

/-- The retained deliveries in order; wrapped, the oldest sits at `ringNext`.  `none` where the bounds of a slice are out of
range. -/
def inOrder (s : Retained) : Option (List Delivery) :=
  if s.retain < 0 ∨ (s.received.length : Int) < s.retain then some s.received
  else if s.ringNext ≤ s.received.length then some (s.received.drop s.ringNext ++ s.received.take s.ringNext)
  else none

/-- **`snapshot`** -/
def snapshot (s : Retained) (limit : Int) : Option (List Delivery) :=
  s.inOrder.map fun out => if limit > 0 ∧ limit < out.length then out.drop (out.length - limit.toNat) else out

def reset (s : Retained) : Retained := { s with received := [], ringNext := 0 }

/-- `count` -/
def count (s : Retained) : Nat := s.received.length

end Retained

/-- The calls that take the mutex. -/
inductive Call where
  | record (d : Delivery) (status : Int)
  | reset
  | snapshot (limit : Int)
  deriving DecidableEq, Repr

def Retained.step (s : Retained) : Call → Option Retained
  | .record d status => s.record d status
  | .reset => some s.reset
  | .snapshot limit => (s.snapshot limit).map fun _ => s

def Retained.run (s : Retained) (calls : List Call) : Option Retained := calls.foldlM Retained.step s

/-! ## What it is for -/

/-- The deliveries recorded since the last reset, in the order they came. -/
def sinceReset (history : List Delivery) : Call → List Delivery
  | .record d _ => history ++ [d]
  | .reset => []
  | .snapshot _ => history

/-- The outcome a call is counted under. -/
def Call.outcome : Call → Option Outcome
  | .record d status => some ⟨d.path, status⟩
  | _ => none

/-- How many deliveries a setting keeps: zero is the default, a negative one keeps everything. -/
def bound (retain : Int) : ℕ∞ :=
  if retain < 0 then ⊤ else if retain = 0 then defaultRetain.toNat else retain.toNat

/-- How many a snapshot asks for. -/
def asked (limit : Int) : ℕ∞ := if limit > 0 then limit.toNat else ⊤

/-- The last so many, in order. -/
def newest {α : Type*} (n : ℕ∞) (l : List α) : List α :=
  match n with
  | none => l
  | some n => l.rtake n

section Newest

variable {α : Type*} (l : List α)

theorem newest_top : newest ⊤ l = l := rfl

theorem newest_coe (n : Nat) : newest n l = l.rtake n := rfl

theorem newest_newest (m n : ℕ∞) : newest m (newest n l) = newest (min m n) l := by
  cases m with
  | top => rw [newest_top, min_eq_right le_top]
  | coe m =>
    cases n with
    | top => rw [newest_top, min_eq_left le_top]
    | coe n =>
      rw [newest_coe, newest_coe, rtake_rtake, ← newest_coe]
      rfl

/-- The cut of `snapshot`, which leaves a list shorter than the limit as it is. -/
theorem newest_asked (limit : Int) :
    (if limit > 0 ∧ limit < l.length then l.drop (l.length - limit.toNat) else l) = newest (asked limit) l := by
  unfold asked
  by_cases hpos : limit > 0
  · rw [if_pos hpos, newest_coe]
    by_cases hlt : limit < l.length
    · rw [if_pos ⟨hpos, hlt⟩]
      rfl
    · rw [if_neg (fun h => hlt h.2), rtake_of_length_le (by omega)]
  · rw [if_neg hpos, if_neg (fun h => hpos h.1), newest_top]

end Newest

/-! ## The invariant -/

/-- **The state after a history** — the setting is the one given, or its default once something was recorded. -/
structure Retained.Recalls (s : Retained) (retain : Int) (history : List Delivery) (counted : List Outcome) : Prop where
  unused : s.retain = 0 → s.received = [] ∧ s.ringNext = 0
  setting : bound s.retain = bound retain
  unbounded : s.retain < 0 → s.received = history
  window : ∀ n : Nat, bound s.retain = n → IsWindow n history s.received s.ringNext
  outcomes : ∀ o, s.outcomes o = counted.count o
  total : s.receivedTotal = counted.length

section Recalls

variable {s : Retained} {retain : Int} {history : List Delivery} {counted : List Outcome}

theorem bound_of_neg {retain : Int} (h : retain < 0) : bound retain = ⊤ := if_pos h

theorem bound_of_pos {retain : Int} (h : 0 < retain) : bound retain = retain.toNat := by
  unfold bound
  rw [if_neg (by omega), if_neg (by omega)]

theorem bound_default (retain : Int) : bound (if retain = 0 then defaultRetain else retain) = bound retain := by
  by_cases h : retain = 0
  · subst h
    rfl
  · rw [if_neg h]

/-- No setting keeps nothing. -/
theorem pos_of_bound {retain : Int} {n : Nat} (h : bound retain = n) : 0 < n := by
  unfold bound at h
  split at h
  · exact absurd h.symm (ENat.natCast_ne_top n)
  · split at h
    · rw [← (Nat.cast_injective h : _ = n)]
      decide
    · rw [← (Nat.cast_injective h : _ = n)]
      omega

theorem Retained.Recalls.fresh (retain : Int) : (Retained.fresh retain).Recalls retain [] [] where
  unused _ := ⟨rfl, rfl⟩
  setting := rfl
  unbounded _ := rfl
  window _ hn := IsWindow.nil (pos_of_bound hn)
  outcomes _ := rfl
  total := rfl

theorem Retained.Recalls.reset (h : s.Recalls retain history counted) : s.reset.Recalls retain [] counted where
  unused _ := ⟨rfl, rfl⟩
  setting := h.setting
  unbounded _ := rfl
  window _ hn := IsWindow.nil (pos_of_bound hn)
  outcomes := h.outcomes
  total := h.total

theorem Retained.Recalls.inOrder (h : s.Recalls retain history counted) :
    s.inOrder = some (newest (bound retain) history) := by
  unfold Retained.inOrder
  rcases lt_trichotomy s.retain 0 with hneg | hzero | hpos
  · rw [if_pos (Or.inl hneg), h.unbounded hneg, ← h.setting, bound_of_neg hneg, newest_top]
  · -- nothing was recorded yet, so the default is not in place and the empty list counts as full
    have hread := (h.window defaultRetain.toNat (by rw [hzero]; rfl)).read
    obtain ⟨hreceived, hnext⟩ := h.unused hzero
    rw [hreceived, if_pos (by decide)] at hread
    rw [hreceived, hnext, hzero, if_neg (by simp), ← h.setting, hzero]
    show some [] = some (history.rtake defaultRetain.toNat)
    rw [← hread]
  · have hbound := bound_of_pos hpos
    have hwindow := h.window _ hbound
    rw [← h.setting, hbound, newest_coe, ← hwindow.read]
    by_cases hfull : (s.received.length : Int) < s.retain
    · rw [if_pos (Or.inr hfull), if_pos (by omega)]
    · have hnext := hwindow.next_lt (by omega)
      rw [if_neg (by omega), if_pos (Nat.le_of_lt hnext), if_neg (by omega)]
      rfl

/-- **What a snapshot answers** — no slice is out of range, and the ring is read in order. -/
theorem Retained.Recalls.snapshot (h : s.Recalls retain history counted) (limit : Int) :
    s.snapshot limit = some (newest (min (asked limit) (bound retain)) history) := by
  unfold Retained.snapshot
  rw [h.inOrder, Option.map_some, newest_asked, newest_newest]

/-- A delivery is kept and counted, and the index of the ring is in range. -/
theorem Retained.Recalls.record (h : s.Recalls retain history counted) (d : Delivery) (status : Int) :
    ∃ s', s.record d status = some s' ∧ s'.Recalls retain (history ++ [d]) (counted ++ [⟨d.path, status⟩]) := by
  -- the counters count every delivery, whether it is retained or not
  have houtcomes : ∀ o : Outcome, (if o = ⟨d.path, status⟩ then s.outcomes o + 1 else s.outcomes o) =
      (counted ++ [(⟨d.path, status⟩ : Outcome)]).count o := by
    intro o
    rw [List.count_append, h.outcomes o, List.count_singleton]
    by_cases ho : o = ⟨d.path, status⟩
    · rw [if_pos ho, ho, if_pos (beq_self_eq_true _)]
    · rw [if_neg ho, if_neg (fun hs => ho (beq_iff_eq.mp hs).symm), Nat.add_zero]
  have htotal : s.receivedTotal + 1 = (counted ++ [(⟨d.path, status⟩ : Outcome)]).length := by
    rw [List.length_append, List.length_singleton, h.total]
  have hbound : bound (if s.retain = 0 then defaultRetain else s.retain) = bound retain :=
    (bound_default s.retain).trans h.setting
  unfold Retained.record
  generalize hsetting : (if s.retain = 0 then defaultRetain else s.retain) = setting at hbound ⊢
  have hnonzero : setting ≠ 0 := by
    rw [← hsetting]
    split
    · decide
    · assumption
  -- a negative setting keeps everything, a positive one a window
  rcases lt_or_gt_of_ne hnonzero with hneg | hpos
  · have hs : s.retain < 0 := by
      split at hsetting
      · rw [← hsetting] at hneg
        exact absurd hneg (by decide)
      · omega
    refine ⟨_, if_pos (Or.inl hneg), ?_, hbound, ?_, ?_, houtcomes, htotal⟩
    · intro hzero
      exact absurd hzero hnonzero
    · intro _
      show s.received ++ [d] = history ++ [d]
      rw [h.unbounded hs]
    · intro n hn
      rw [show bound _ = ⊤ from bound_of_neg hneg] at hn
      exact absurd hn.symm (ENat.natCast_ne_top n)
  · have hwindow := h.window setting.toNat (by rw [h.setting, ← hbound, bound_of_pos hpos])
    have hfields : ∀ received : List Delivery,
        IsWindow setting.toNat (history ++ [d]) received ((s.ringNext + 1) % setting.toNat) →
        Retained.Recalls ⟨received, if setting > 0 then (s.ringNext + 1) % setting.toNat else s.ringNext, setting,
          fun o => if o = ⟨d.path, status⟩ then s.outcomes o + 1 else s.outcomes o, s.receivedTotal + 1⟩
          retain (history ++ [d]) (counted ++ [⟨d.path, status⟩]) := by
      intro received hreceived
      rw [if_pos hpos]
      refine ⟨fun hzero => absurd hzero hnonzero, hbound, fun hneg => ?_, fun n hn => ?_, houtcomes, htotal⟩
      · exact absurd hneg (not_lt.mpr (le_of_lt hpos))
      · rw [show bound setting = _ from bound_of_pos hpos] at hn
        rw [← (Nat.cast_injective hn : _ = n)]
        exact hreceived
    -- the ring is filled first, and then written over from its oldest place
    by_cases hfull : (s.received.length : Int) < setting
    · exact ⟨_, if_pos (Or.inr hfull), hfields _ (hwindow.append (by omega) d)⟩
    · have hlt : ¬s.received.length < setting.toNat := by omega
      refine ⟨_, (if_neg ?_).trans (if_pos (hwindow.next_lt hlt)), hfields _ (hwindow.overwrite hlt d)⟩
      exact not_or.mpr ⟨by omega, hfull⟩

/-! ## Runs -/

/-- One call. -/
theorem Retained.Recalls.step (h : s.Recalls retain history counted) (call : Call) :
    ∃ s', s.step call = some s' ∧ s'.Recalls retain (sinceReset history call) (counted ++ call.outcome.toList) := by
  cases call with
  | record d status => exact h.record d status
  | reset =>
    refine ⟨s.reset, rfl, ?_⟩
    show s.reset.Recalls retain [] (counted ++ [])
    rw [List.append_nil]
    exact h.reset
  | snapshot limit =>
    refine ⟨s, ?_, ?_⟩
    · show (s.snapshot limit).map _ = _
      rw [h.snapshot, Option.map_some]
    · show s.Recalls retain history (counted ++ [])
      rwa [List.append_nil]

/-- Every call of a run, from the left. -/
theorem Retained.Recalls.run (h : s.Recalls retain history counted) (calls : List Call) :
    ∃ s', s.run calls = some s' ∧
      s'.Recalls retain (calls.foldl sinceReset history) (counted ++ calls.filterMap Call.outcome) := by
  induction calls generalizing s history counted with
  | nil => exact ⟨s, rfl, by simpa using h⟩
  | cons call calls ih =>
    obtain ⟨s₁, hstep, h₁⟩ := h.step call
    obtain ⟨s₂, hrun, h₂⟩ := ih h₁
    refine ⟨s₂, ?_, ?_⟩
    · show (s.step call >>= fun s => Retained.run s calls) = some s₂
      rw [hstep]
      exact hrun
    · rw [List.append_assoc] at h₂
      rw [List.filterMap_cons]
      cases hcall : call.outcome with
      | none => simpa [hcall] using h₂
      | some o => simpa [hcall] using h₂

end Recalls

/-- **The ring is a sliding window** — whatever was called before, a snapshot is the last deliveries since the last
reset, a positive setting bounds what is kept, and the counters are of every record ever made. -/
theorem snapshot_newest (retain : Int) (calls : List Call) :
    ∃ s, (Retained.fresh retain).run calls = some s ∧
      (∀ limit, s.snapshot limit = some (newest (min (asked limit) (bound retain)) (calls.foldl sinceReset []))) ∧
      (s.count : ℕ∞) ≤ bound retain ∧
      s.receivedTotal = (calls.filterMap Call.outcome).length ∧
      ∀ o, s.outcomes o = (calls.filterMap Call.outcome).count o := by
  obtain ⟨s, hrun, h⟩ := (Retained.Recalls.fresh retain).run calls
  refine ⟨s, hrun, h.snapshot, ?_, h.total, h.outcomes⟩
  rw [← h.setting]
  cases hbound : bound s.retain with
  | top => exact le_top
  | coe n => exact Nat.cast_le.mpr (h.window n hbound).length_le

/-- Ten deliveries at a bound of three, the last three in order. -/
example : ((Retained.fresh 3).run ((List.range 10).map fun i =>
    .record ⟨⟨i, 0⟩, ascii "/hooks/ok", [], [], [], 200⟩ 200)).bind (fun s => s.snapshot 0) =
      some ([7, 8, 9].map fun i => ⟨⟨i, 0⟩, ascii "/hooks/ok", [], [], [], 200⟩) := by decide

end LocalPlatform.Sink
