/-
# LocalPlatform.Logic.Transition — transition systems, and what holds along every run.

A system is a set of initial states and a step relation; a run is any finite sequence of steps.  Two
rules are used throughout: what the initial states have and every step keeps holds of every reachable
state (`System.invariant`), and a relation that is reflexive and extended by every step relates a state
to every later one (`System.later`).
-/
import Mathlib.Logic.Relation

namespace LocalPlatform.Logic

open Relation

/-- A transition system. -/
structure System (σ : Type*) where
  init : σ → Prop
  step : σ → σ → Prop

namespace System

variable {σ : Type*} (T : System σ)

/-- `t` is reached from `s` by some run. -/
def Later (s t : σ) : Prop := ReflTransGen T.step s t

/-- Some run from an initial state reaches `s`. -/
def Reachable (s : σ) : Prop := ∃ s₀, T.init s₀ ∧ T.Later s₀ s

variable {T}

theorem Reachable.later {s t : σ} (hs : T.Reachable s) (h : T.Later s t) : T.Reachable t := by
  obtain ⟨s₀, h₀, hr⟩ := hs
  exact ⟨s₀, h₀, hr.trans h⟩

theorem Reachable.step {s t : σ} (hs : T.Reachable s) (h : T.step s t) : T.Reachable t :=
  hs.later (.single h)

/-- **The invariant rule.**  The step may use that its first state is reachable. -/
theorem invariant {I : σ → Prop} (hinit : ∀ s, T.init s → I s)
    (hstep : ∀ s t, T.Reachable s → I s → T.step s t → I t) {s : σ} (hs : T.Reachable s) : I s := by
  obtain ⟨s₀, h₀, hr⟩ := hs
  induction hr with
  | refl => exact hinit s₀ h₀
  | tail hprev hnext ih => exact hstep _ _ ⟨s₀, h₀, hprev⟩ ih hnext

/-- **The history rule.**  A relation every state has with itself and every step extends holds between
a reachable state and all that come later. -/
theorem later {R : σ → σ → Prop} {s t : σ} (hs : T.Reachable s) (hrefl : R s s)
    (hstep : ∀ u v, T.Reachable u → R s u → T.step u v → R s v) (h : T.Later s t) : R s t := by
  induction h with
  | refl => exact hrefl
  | tail hprev hnext ih => exact hstep _ _ (hs.later hprev) ih hnext

/-- The system whose steps are the moves of a partial function. -/
def ofMoves {M : Type*} (init : σ → Prop) (f : σ → M → Option σ) : System σ where
  init := init
  step s t := ∃ m, f s m = some t

/-- Moves played one after another. -/
def play {M : Type*} (f : σ → M → Option σ) (s : σ) (ms : List M) : Option σ := ms.foldlM f s

/-- A list of moves that can be played is a run. -/
theorem later_of_play {M : Type*} {init : σ → Prop} {f : σ → M → Option σ} {ms : List M} {s t : σ}
    (h : play f s ms = some t) : (ofMoves init f).Later s t := by
  induction ms generalizing s with
  | nil =>
      cases h
      exact .refl
  | cons m ms ih =>
      rw [play, List.foldlM_cons] at h
      obtain ⟨u, hu, hrest⟩ := Option.bind_eq_some_iff.mp h
      exact .head ⟨m, hu⟩ (ih hrest)

end System

end LocalPlatform.Logic
