/-
# LocalPlatform.Logic.Waiting — who waits for whom.

A wait-for relation along which a rank falls has no cycle, and among finitely many parties somebody waits
for none of them.
-/
import Mathlib.Data.Finset.Max
import Mathlib.Logic.Relation

namespace LocalPlatform.Logic

open Relation

variable {α : Type*}

/-- Nobody waits for himself, through any number of others. -/
def Acyclic (r : α → α → Prop) : Prop := ∀ a, ¬ TransGen r a a

variable {r : α → α → Prop} {rank : α → ℕ}

theorem rank_lt_of_transGen (h : ∀ a b, r a b → rank b < rank a) {a b : α} (hab : TransGen r a b) : rank b < rank a := by
  induction hab with
  | single hone => exact h _ _ hone
  | tail _ hlast ih => exact lt_trans (h _ _ hlast) ih

theorem acyclic_of_rank (h : ∀ a b, r a b → rank b < rank a) : Acyclic r :=
  fun _ hcycle => lt_irrefl _ (rank_lt_of_transGen h hcycle)

/-- **The one of the lowest rank waits for nobody.** -/
theorem exists_not_waiting (h : ∀ a b, r a b → rank b < rank a) {s : Finset α} (hs : s.Nonempty) :
    ∃ a ∈ s, ∀ b ∈ s, ¬ r a b := by
  obtain ⟨a, ha, hmin⟩ := s.exists_min_image rank hs
  exact ⟨a, ha, fun b hb hab => absurd (h a b hab) (not_lt.mpr (hmin b hb))⟩

end LocalPlatform.Logic
