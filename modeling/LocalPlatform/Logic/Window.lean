/-
# LocalPlatform.Logic.Window — a ring of entries as a sliding window.

A list that grows to a bound and is then overwritten in place, oldest entry first, together with the position the
next entry goes to.  `IsWindow` says that such a list holds the last entries of a history, and that the position is
the one the next entry belongs at, whether or not the list has filled.
-/
import Mathlib.Data.List.DropRight

namespace LocalPlatform.Window

variable {α : Type*}

/-- The entries of a full ring in order of arrival, the oldest standing at `i`. -/
def unroll (l : List α) (i : Nat) : List α := l.drop i ++ l.take i

/-! ## The end of a list -/

theorem rtake_of_length_le {l : List α} {n : Nat} (h : l.length ≤ n) : l.rtake n = l := by
  unfold List.rtake
  rw [Nat.sub_eq_zero_of_le h, List.drop_zero]

theorem rtake_rtake (l : List α) (m n : Nat) : (l.rtake m).rtake n = l.rtake (min n m) := by
  unfold List.rtake
  rw [List.drop_drop, List.length_drop]
  congr 1
  omega

/-- What a full window loses at the front when an entry joins at the end. -/
theorem rtake_append_singleton {l : List α} {n : Nat} (hpos : 0 < n) (h : n ≤ l.length) (x : α) :
    (l ++ [x]).rtake n = (l.rtake n).tail ++ [x] := by
  obtain ⟨k, rfl⟩ : ∃ k, n = k + 1 := ⟨n - 1, by omega⟩
  rw [List.rtake_concat_succ]
  unfold List.rtake
  rw [List.tail_drop]
  congr 3
  omega

/-! ## Overwriting the oldest -/

theorem unroll_set {l : List α} {i : Nat} (h : i < l.length) (x : α) :
    unroll (l.set i x) ((i + 1) % l.length) = (unroll l i).tail ++ [x] := by
  have hfront : (l.set i x).take (i + 1) = l.take i ++ [x] := by
    rw [List.take_add_one, List.take_set_of_le (le_refl i), List.getElem?_set_self h]
    rfl
  have hback : (l.set i x).drop (i + 1) = l.drop (i + 1) := List.drop_set_of_lt (Nat.lt_succ_self i)
  have htail : (unroll l i).tail = l.drop (i + 1) ++ l.take i := by
    show (l.drop i ++ l.take i).tail = _
    rw [List.drop_eq_getElem_cons h]
    rfl
  rw [htail, List.append_assoc, ← hfront, ← hback]
  by_cases hlast : i + 1 = l.length
  · -- the position wraps to the start, where the whole list is in order
    rw [hlast, Nat.mod_self]
    have hlen : (l.set i x).length = l.length := List.length_set
    unfold unroll
    rw [List.drop_zero, List.take_zero, List.append_nil, ← hlen, List.drop_length, List.take_length,
      List.nil_append]
  · rw [Nat.mod_eq_of_lt (by omega)]
    rfl

/-! ## The window -/

/-- The entries, and where the next one goes, after a history: still filling, or full. -/
def IsWindow (n : Nat) (history entries : List α) (next : Nat) : Prop :=
  (entries.length < n ∧ entries = history ∧ next = entries.length) ∨
    (entries.length = n ∧ next < n ∧ n ≤ history.length ∧ unroll entries next = history.rtake n)

section IsWindow

variable {n : Nat} {history entries : List α} {next : Nat}

theorem IsWindow.nil (hpos : 0 < n) : IsWindow n ([] : List α) [] 0 := Or.inl ⟨hpos, rfl, rfl⟩

theorem IsWindow.length_le (h : IsWindow n history entries next) : entries.length ≤ n := by
  rcases h with ⟨hlt, -⟩ | ⟨heq, -⟩
  · exact Nat.le_of_lt hlt
  · exact Nat.le_of_eq heq

/-- What is read off a window: the list as it stands while it fills, unrolled once it is full. -/
theorem IsWindow.read (h : IsWindow n history entries next) :
    (if entries.length < n then entries else unroll entries next) = history.rtake n := by
  rcases h with ⟨hlt, rfl, -⟩ | ⟨heq, -, -, hunroll⟩
  · rw [if_pos hlt, rtake_of_length_le (Nat.le_of_lt hlt)]
  · rw [if_neg (by omega), hunroll]

/-- A filling window takes the entry at its end; the entry that fills it sends the position back to the start. -/
theorem IsWindow.append (h : IsWindow n history entries next) (hlt : entries.length < n) (x : α) :
    IsWindow n (history ++ [x]) (entries ++ [x]) ((next + 1) % n) := by
  rcases h with ⟨-, rfl, rfl⟩ | ⟨heq, -⟩
  · by_cases hfull : entries.length + 1 = n
    · right
      subst hfull
      refine ⟨by simp, ?_, by simp, ?_⟩
      · exact Nat.mod_lt _ (Nat.succ_pos _)
      · rw [Nat.mod_self, rtake_of_length_le (by simp)]
        unfold unroll
        rw [List.drop_zero, List.take_zero, List.append_nil]
    · left
      rw [Nat.mod_eq_of_lt (by omega)]
      exact ⟨by rw [List.length_append, List.length_singleton]; omega, rfl, by simp⟩
  · omega

/-- The position of a full window is one of its entries. -/
theorem IsWindow.next_lt (h : IsWindow n history entries next) (hfull : ¬entries.length < n) :
    next < entries.length := by
  rcases h with ⟨hlt, -⟩ | ⟨heq, hnext, -⟩
  · exact absurd hlt hfull
  · omega

/-- A full window takes the entry over its oldest. -/
theorem IsWindow.overwrite (h : IsWindow n history entries next) (hfull : ¬entries.length < n) (x : α) :
    IsWindow n (history ++ [x]) (entries.set next x) ((next + 1) % n) := by
  have hlt := h.next_lt hfull
  rcases h with ⟨hfilling, -⟩ | ⟨heq, hnext, hle, hunroll⟩
  · exact absurd hfilling hfull
  · have hpos : 0 < n := by omega
    refine Or.inr ⟨?_, Nat.mod_lt _ hpos, ?_, ?_⟩
    · rw [List.length_set, heq]
    · rw [List.length_append]
      omega
    · have hset := unroll_set hlt x
      rw [heq] at hset
      rw [hset, hunroll, rtake_append_singleton hpos hle]

end IsWindow

end LocalPlatform.Window
