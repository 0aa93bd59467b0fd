/-
# LocalPlatform.Logic.Steady — computations that fail at some times and succeed at others.

A validation reads a clock: what it accepts now it may refuse later.  A computation that depends on a time
is steady when, between two times at which it succeeds, it succeeds with the result of both.  What
does not look at the time is steady, and so is a condition on the time that holds between any two times
at which it holds; sequences and loops of steady steps are.  The times at which a steady computation
succeeds are an interval.
-/
import LocalPlatform.Logic.Guards
import Mathlib.Order.Interval.Set.OrdConnected

namespace LocalPlatform.Logic

variable {ε α β τ : Type} [Preorder τ]

/-- Between two times at which it succeeds, a steady computation succeeds with their result. -/
def Steady (f : τ → Except ε α) : Prop :=
  ∀ ⦃a b x : τ⦄ ⦃v w : α⦄, f a = .ok v → f b = .ok w → a ≤ x → x ≤ b → f x = .ok v

namespace Steady

/-- What does not look at the time. -/
theorem const (m : Except ε α) : Steady fun _ : τ => m := fun _ _ _ _ _ hv _ _ _ => hv

/-- The result is the same at both ends. -/
theorem result_eq {f : τ → Except ε α} (hf : Steady f) {a b : τ} {v w : α} (hv : f a = .ok v) (hw : f b = .ok w)
    (hab : a ≤ b) : v = w := by
  have hb := hf hv hw hab (le_refl b)
  rw [hw] at hb
  exact (Except.ok.inj hb).symm

theorem bind {f : τ → Except ε α} {g : α → τ → Except ε β} (hf : Steady f) (hg : ∀ a, Steady (g a)) :
    Steady fun t => f t >>= fun a => g a t := by
  intro a b x v w hv hw hax hxb
  obtain ⟨u, hu, hv⟩ := bind_eq_ok_iff.mp hv
  obtain ⟨u', hu', hw⟩ := bind_eq_ok_iff.mp hw
  have heq : u = u' := hf.result_eq hu hu' (le_trans hax hxb)
  subst heq
  exact bind_eq_ok_iff.mpr ⟨u, hf hu hu' hax hxb, hg u hv hw hax hxb⟩

/-- A condition that holds at the times of an interval. -/
theorem require {p : τ → Prop} [∀ t, Decidable (p t)] (hp : Set.OrdConnected {t | p t}) (e : ε) :
    Steady fun t => Logic.require (p t) e := by
  intro a b x v w hv hw hax hxb
  have hx : p x := hp.out (require_eq_ok_iff.mp hv) (require_eq_ok_iff.mp hw) ⟨hax, hxb⟩
  exact require_eq_ok_iff.mpr hx

/-- A loop. -/
theorem forM {f : α → τ → Except ε PUnit} (hf : ∀ a, Steady (f a)) (l : List α) :
    Steady fun t => l.forM fun a => f a t := by
  induction l with
  | nil => exact const (Except.ok PUnit.unit)
  | cons a l ih =>
    show Steady fun t => f a t >>= fun _ => l.forM fun a => f a t
    exact bind (hf a) fun _ => ih

/-- The times at which a steady computation succeeds are an interval. -/
theorem ordConnected {f : τ → Except ε α} (hf : Steady f) : Set.OrdConnected {t | ∃ v, f t = .ok v} := by
  constructor
  rintro a ⟨v, hv⟩ b ⟨w, hw⟩ x ⟨hax, hxb⟩
  exact ⟨v, hf hv hw hax hxb⟩

end Steady

end LocalPlatform.Logic
