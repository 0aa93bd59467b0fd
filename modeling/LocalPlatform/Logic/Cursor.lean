/-
# LocalPlatform.Logic.Cursor — reading ordered logs from a committed position.

Any number of logs hold records at some of their offsets.  A reader visits the first record at or after
a log's position; a visit that is done moves the position behind the record, any other leaves it where
it is, to be visited again.  Nothing else moves a position.

Such a reader skips nothing: what lies before a position has a visit that was done (`covered`), and when
a record is visited at all, everything before it was done first (`preceded`).  It also never goes back:
the offsets visited in one log never decrease (`ordered`).
-/
import LocalPlatform.Logic.Transition
import Mathlib.Data.List.Basic
import Mathlib.Logic.Function.Basic

namespace LocalPlatform.Logic

variable {ε π : Type*}

/-- What a visit says: which log, which offset, and whether it was done. -/
structure Reading (ε π : Type*) where
  place : ε → π
  offset : ε → Nat
  done : ε → Bool

/-- The positions, and all visits so far. -/
structure Progress (ε π : Type*) where
  next : π → Nat
  log : List ε

/-- Offset `q` is the first held one at or after a position. -/
structure First (held : Nat → Prop) (position q : Nat) : Prop where
  here : held q
  le : position ≤ q
  skipped : ∀ q', position ≤ q' → q' < q → ¬ held q'

section

variable [DecidableEq π] (R : Reading ε π) (held : π → Nat → Prop)

/-- The progress after a visit. -/
def Progress.visit (s : Progress ε π) (e : ε) : Progress ε π :=
  ⟨if R.done e then Function.update s.next (R.place e) (R.offset e + 1) else s.next, s.log ++ [e]⟩

/-- A reader that starts at given positions. -/
def reader (start : π → Nat) : System (Progress ε π) where
  init s := s = ⟨start, []⟩
  step s t := ∃ e, First (held (R.place e)) (s.next (R.place e)) (R.offset e) ∧ t = s.visit R e

/-- **What a reader guarantees.** -/
structure InOrder (start : π → Nat) (s : Progress ε π) : Prop where
  covered : ∀ p q, held p q → start p ≤ q → q < s.next p →
    ∃ e ∈ s.log, R.place e = p ∧ R.offset e = q ∧ R.done e = true
  behind : ∀ e ∈ s.log, ∀ q, held (R.place e) q → s.next (R.place e) ≤ q → R.offset e ≤ q
  ordered : s.log.Pairwise fun e e' => R.place e = R.place e' → R.offset e ≤ R.offset e'
  preceded : ∀ pre e post, s.log = pre ++ e :: post → ∀ q, held (R.place e) q → start (R.place e) ≤ q →
    q < R.offset e → ∃ e' ∈ pre, R.place e' = R.place e ∧ R.offset e' = q ∧ R.done e' = true

end

variable [DecidableEq π] {R : Reading ε π} {held : π → Nat → Prop}

/-- A held offset before the one visited lies before the position. -/
theorem First.lt_position {P : Nat → Prop} {position q q' : Nat} (h : First P position q) (hq' : P q')
    (hlt : q' < q) : q' < position := by
  by_contra hle
  exact h.skipped q' (Nat.le_of_not_lt hle) hlt hq'

theorem next_visit (s : Progress ε π) (e : ε) (p : π) : (s.visit R e).next p =
    if R.done e = true ∧ p = R.place e then R.offset e + 1 else s.next p := by
  unfold Progress.visit
  by_cases hdone : R.done e = true
  · by_cases hp : p = R.place e
    · simp [hdone, hp]
    · simp [hdone, hp]
  · simp [hdone]

theorem next_le_visit {s : Progress ε π} {e : ε}
    (h : First (held (R.place e)) (s.next (R.place e)) (R.offset e)) (p : π) :
    s.next p ≤ (s.visit R e).next p := by
  rw [next_visit]
  split
  · next hp =>
    have hle := h.le
    rw [← hp.2] at hle
    omega
  · exact Nat.le_refl _

/-- What a visit has before its new position: what was there, and the record itself when done. -/
theorem lt_next_visit {s : Progress ε π} {e : ε}
    (h : First (held (R.place e)) (s.next (R.place e)) (R.offset e)) {p : π} {q : Nat} (hq : held p q)
    (hlt : q < (s.visit R e).next p) :
    q < s.next p ∨ (R.place e = p ∧ R.offset e = q ∧ R.done e = true) := by
  rw [next_visit] at hlt
  split at hlt
  · next hp =>
    rcases Nat.lt_or_ge q (R.offset e) with hbefore | hat
    · rw [hp.2] at hq ⊢
      exact Or.inl (h.lt_position hq hbefore)
    · exact Or.inr ⟨hp.2.symm, by omega, hp.1⟩
  · exact Or.inl hlt

theorem InOrder.visit {start : π → Nat} {s : Progress ε π} {e : ε} (hs : InOrder R held start s)
    (h : First (held (R.place e)) (s.next (R.place e)) (R.offset e)) :
    InOrder R held start (s.visit R e) where
  covered p q hq hstart hlt := by
    rcases lt_next_visit h hq hlt with hold | ⟨hp, hoff, hdone⟩
    · obtain ⟨e', he', hrest⟩ := hs.covered p q hq hstart hold
      exact ⟨e', List.mem_append_left _ he', hrest⟩
    · exact ⟨e, List.mem_append_right _ (List.mem_singleton_self e), hp, hoff, hdone⟩
  behind e' he' q hq hle := by
    have hnext := Nat.le_trans (next_le_visit h (R.place e')) hle
    rcases List.mem_append.mp he' with hold | hnew
    · exact hs.behind e' hold q hq hnext
    · obtain rfl := List.mem_singleton.mp hnew
      by_contra hlt
      exact h.skipped q hnext (Nat.lt_of_not_le hlt) hq
  ordered := by
    refine List.pairwise_append.mpr ⟨hs.ordered, List.pairwise_singleton _ _, fun e' he' e'' he'' hp => ?_⟩
    obtain rfl := List.mem_singleton.mp he''
    rw [← hp] at h
    exact hs.behind e' he' _ h.here h.le
  preceded pre e' post hsplit q hq hstart hlt := by
    rcases List.eq_nil_or_concat post with rfl | ⟨post', last, rfl⟩
    · -- the last visit is this one, and everything before it is covered
      obtain ⟨rfl, he⟩ := List.append_inj' hsplit rfl
      obtain rfl : e = e' := by simpa using he
      exact hs.covered _ q hq hstart (h.lt_position hq hlt)
    · have hlog : s.log = pre ++ e' :: post' := by
        have hassoc : pre ++ e' :: (post' ++ [last]) = (pre ++ e' :: post') ++ [last] := by simp
        rw [List.concat_eq_append, hassoc] at hsplit
        exact (List.append_inj' hsplit rfl).1
      exact hs.preceded pre e' post' hlog q hq hstart hlt

/-- **A reader reads in order**, in every reachable state. -/
theorem inOrder_of_reachable {start : π → Nat} {s : Progress ε π}
    (h : (reader R held start).Reachable s) : InOrder R held start s := by
  refine System.invariant (fun s hs => ?_) (fun s t _ hs hstep => ?_) h
  · rw [hs]
    refine ⟨fun p q _ hstart hlt => ?_, by simp, List.Pairwise.nil, by simp⟩
    exact absurd hlt (Nat.not_lt_of_le hstart)
  · obtain ⟨e, hfirst, rfl⟩ := hstep
    exact hs.visit hfirst

end LocalPlatform.Logic
