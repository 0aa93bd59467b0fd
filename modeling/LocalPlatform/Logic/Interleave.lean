/-
# LocalPlatform.Logic.Interleave — what several threads leave in one history.

A schedule names, event by event, the thread that goes next; when it runs out, or names a thread that
has nothing left, the remaining events follow.  Every schedule gives an interleaving, and whatever the
schedule, the history holds exactly the threads' events.
-/
import Mathlib.Data.List.Basic

namespace LocalPlatform.Logic

variable {α : Type*}

/-- **`interleave schedule threads`** — one history of all threads. -/
def interleave : List Nat → List (List α) → List α
  | [], threads => threads.flatten
  | i :: schedule, threads =>
    match threads[i]? with
    | some (e :: rest) => e :: interleave schedule (threads.set i rest)
    | _ => interleave schedule threads

theorem interleave_nil (schedule : List Nat) : interleave schedule ([] : List (List α)) = [] := by
  induction schedule with
  | nil => rfl
  | cons i schedule ih => exact ih

/-- Taking the head off one thread takes one event out of all. -/
theorem mem_set_tail {threads : List (List α)} {i : Nat} {a : α} {rest : List α}
    (h : threads[i]? = some (a :: rest)) (e : α) :
    (∃ t ∈ threads, e ∈ t) ↔ e = a ∨ ∃ t ∈ threads.set i rest, e ∈ t := by
  induction threads generalizing i with
  | nil => simp at h
  | cons t ts ih =>
      cases i with
      | zero =>
          obtain rfl : t = a :: rest := by simpa using h
          simp [or_assoc]
      | succ i =>
          have hts := ih (by simpa using h)
          simp only [List.mem_cons, exists_eq_or_imp, List.set_cons_succ, hts]
          exact or_left_comm

/-- **A history holds exactly the threads' events.** -/
theorem mem_interleave {e : α} (schedule : List Nat) : ∀ threads : List (List α),
    e ∈ interleave schedule threads ↔ ∃ t ∈ threads, e ∈ t := by
  induction schedule with
  | nil => exact fun threads => List.mem_flatten
  | cons i schedule ih =>
      intro threads
      rw [interleave]
      split
      · next a rest h => rw [List.mem_cons, ih, ← mem_set_tail h]
      · exact ih threads

end LocalPlatform.Logic
