/-
# LocalPlatform.Logic.Findings — checks that collect what they find.

A check returns the list of its findings, or fails before it is done.  What matters of a gate made of
such checks is when it finds nothing: when each check in it finds nothing.
-/
import Mathlib.Data.List.Basic

namespace LocalPlatform.Logic

variable {ε φ α : Type}

/-- A check: its findings, unless it fails. -/
abbrev Check (ε φ : Type) := Except ε (List φ)

namespace Check

/-- A check that finds `x` where the condition does not hold. -/
def ensure (p : Prop) [Decidable p] (x : φ) : Check ε φ := .ok (if p then [] else [x])

/-- One check, then another. -/
def both (c d : Check ε φ) : Check ε φ := Except.bind c fun xs => Except.map (xs ++ ·) d

/-- A check of each element in turn. -/
def each (f : α → Check ε φ) : List α → Check ε φ
  | [] => .ok []
  | a :: l => both (f a) (each f l)

/-- A check behind a computation. -/
def after (m : Except ε α) (f : α → Check ε φ) : Check ε φ := Except.bind m f

@[simp] theorem after_ok (a : α) (f : α → Check ε φ) : after (.ok a) f = f a := rfl

@[simp] theorem ensure_eq_nil_iff {p : Prop} [Decidable p] {x : φ} :
    (ensure p x : Check ε φ) = .ok [] ↔ p := by
  unfold ensure
  by_cases hp : p
  · simp [hp]
  · simp [hp]

theorem both_eq_nil_iff {c d : Check ε φ} : both c d = .ok [] ↔ c = .ok [] ∧ d = .ok [] := by
  constructor
  · intro h
    cases hc : c with
    | error e =>
      rw [hc] at h
      cases h
    | ok xs =>
      cases hd : d with
      | error e =>
        rw [hc, hd] at h
        cases h
      | ok ys =>
        rw [hc, hd] at h
        have happend : xs ++ ys = [] := Except.ok.inj h
        rw [(List.append_eq_nil_iff.mp happend).1, (List.append_eq_nil_iff.mp happend).2]
        exact ⟨rfl, rfl⟩
  · rintro ⟨rfl, rfl⟩
    rfl

theorem each_eq_nil_iff {f : α → Check ε φ} {l : List α} : each f l = .ok [] ↔ ∀ a ∈ l, f a = .ok [] := by
  induction l with
  | nil => exact ⟨fun _ _ h => absurd h List.not_mem_nil, fun _ => rfl⟩
  | cons a l ih =>
    show both (f a) (each f l) = .ok [] ↔ _
    rw [both_eq_nil_iff, ih, List.forall_mem_cons]

theorem after_eq_nil_iff {m : Except ε α} {f : α → Check ε φ} :
    after m f = .ok [] ↔ ∃ a, m = .ok a ∧ f a = .ok [] := by
  cases m with
  | error e => exact ⟨nofun, fun ⟨_, h, _⟩ => by cases h⟩
  | ok a =>
    constructor
    · intro h
      exact ⟨a, rfl, h⟩
    · rintro ⟨b, hb, h⟩
      cases hb
      exact h

end Check

/-! ## Loops -/

/-- A computation of each element, where one element comes to `g a` exactly when `P a` holds. -/
theorem mapM_eq_ok_iff {β : Type} {f : α → Except ε β} {P : α → Prop} {g : α → β}
    (hf : ∀ a b, f a = .ok b ↔ P a ∧ b = g a) {l : List α} {bs : List β} :
    l.mapM f = .ok bs ↔ (∀ a ∈ l, P a) ∧ bs = l.map g := by
  induction l generalizing bs with
  | nil =>
    rw [List.mapM_nil]
    constructor
    · intro h
      exact ⟨fun _ h => absurd h List.not_mem_nil, (Except.ok.inj h).symm⟩
    · rintro ⟨-, rfl⟩
      rfl
  | cons a l ih =>
    rw [List.mapM_cons, List.forall_mem_cons, List.map_cons]
    constructor
    · intro h
      cases ha : f a with
      | error e =>
        rw [ha] at h
        cases h
      | ok b =>
        cases hl : l.mapM f with
        | error e =>
          rw [ha, hl] at h
          cases h
        | ok rest =>
          rw [ha, hl] at h
          obtain ⟨hp, rfl⟩ := (hf a b).mp ha
          obtain ⟨hall, rfl⟩ := ih.mp hl
          exact ⟨⟨hp, hall⟩, (Except.ok.inj h).symm⟩
    · rintro ⟨⟨hp, hall⟩, rfl⟩
      rw [(hf a (g a)).mpr ⟨hp, rfl⟩, ih.mpr ⟨hall, rfl⟩]
      rfl

/-- What a loop gathers when each turn adds one item or none. -/
theorem foldl_gathers {σ β : Type} {step : σ → α → σ} {get : σ → List β} {c : α → Bool} {g : α → β}
    (hstep : ∀ s a, get (step s a) = get s ++ if c a = true then [g a] else []) (l : List α) (s : σ) :
    get (l.foldl step s) = get s ++ (l.filter c).map g := by
  induction l generalizing s with
  | nil => simp
  | cons a l ih =>
    rw [List.foldl_cons, ih, hstep, List.append_assoc]
    congr 1
    cases hc : c a with
    | true => rw [List.filter_cons_of_pos hc, if_pos rfl, List.map_cons, List.singleton_append]
    | false => rw [List.filter_cons_of_neg (by simp [hc]), if_neg (by simp), List.nil_append]

end LocalPlatform.Logic
