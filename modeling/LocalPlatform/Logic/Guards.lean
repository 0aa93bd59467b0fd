/-
# LocalPlatform.Logic.Guards — computations that stop at the first failure.

A guard goes on where its condition holds; a sequence succeeds when its parts do, and a loop when each of
its turns does.
-/
import Mathlib.Data.List.Basic

namespace LocalPlatform.Logic

variable {ε α β : Type}

/-- Goes on where a condition holds, and fails where it does not. -/
def require (p : Prop) [Decidable p] (e : ε) : Except ε Unit := if p then .ok () else .error e

@[simp] theorem require_eq_ok_iff {p : Prop} [Decidable p] {e : ε} {u : Unit} : require p e = .ok u ↔ p := by
  unfold require
  by_cases hp : p
  · simp [hp]
  · simp [hp]

theorem require_pos {p : Prop} [Decidable p] {e : ε} (h : p) : require p e = .ok () := if_pos h

/-- A sequence succeeds when its parts do, one behind the other. -/
theorem bind_eq_ok_iff {m : Except ε α} {f : α → Except ε β} {b : β} :
    (m >>= f) = .ok b ↔ ∃ a, m = .ok a ∧ f a = .ok b := by
  cases m with
  | error e => exact ⟨nofun, fun ⟨_, h, _⟩ => by cases h⟩
  | ok a =>
    constructor
    · intro h
      exact ⟨a, rfl, h⟩
    · rintro ⟨c, hc, h⟩
      cases hc
      exact h

/-- A sequence whose first part succeeds is the rest. -/
theorem bind_of_eq_ok {m : Except ε α} {f : α → Except ε β} {a : α} (hm : m = .ok a) : (m >>= f) = f a := by
  rw [hm]
  rfl

/-- A sequence whose first part succeeds does what the rest does. -/
theorem exists_bind_ok {m : Except ε α} {f : α → Except ε β} {a : α} {P : β → Prop} (hm : m = .ok a)
    (h : ∃ b, f a = .ok b ∧ P b) : ∃ b, (m >>= f) = .ok b ∧ P b := by
  obtain ⟨b, hb, hP⟩ := h
  exact ⟨b, bind_eq_ok_iff.mpr ⟨a, hm, hb⟩, hP⟩

/-! ## Loops -/

/-- A loop succeeds, with what its turns come to. -/
theorem mapM_ok {f : α → Except ε β} {g : α → β} {l : List α} (h : ∀ a ∈ l, f a = .ok (g a)) :
    l.mapM f = .ok (l.map g) := by
  induction l with
  | nil => rfl
  | cons a l ih =>
    rw [List.mapM_cons, h a List.mem_cons_self, ih fun b hb => h b (List.mem_cons_of_mem _ hb)]
    rfl

/-- In a loop that succeeds each turn does. -/
theorem mapM_ok_of_mem {f : α → Except ε β} {l : List α} {bs : List β} (h : l.mapM f = .ok bs) {a : α} (ha : a ∈ l) :
    ∃ b, f a = .ok b := by
  induction l generalizing bs with
  | nil => cases ha
  | cons c l ih =>
    rw [List.mapM_cons] at h
    obtain ⟨b, hb, hrest⟩ := bind_eq_ok_iff.mp h
    obtain ⟨bs', hbs, -⟩ := bind_eq_ok_iff.mp hrest
    rcases List.mem_cons.mp ha with rfl | ha
    · exact ⟨b, hb⟩
    · exact ih hbs ha

/-- What each turn comes to is in what the loop comes to. -/
theorem exists_mem_of_mapM {f : α → Except ε β} {l : List α} {bs : List β} (h : l.mapM f = .ok bs) {a : α} (ha : a ∈ l) :
    ∃ b ∈ bs, f a = .ok b := by
  induction l generalizing bs with
  | nil => cases ha
  | cons c l ih =>
    rw [List.mapM_cons] at h
    obtain ⟨b, hb, hrest⟩ := bind_eq_ok_iff.mp h
    obtain ⟨bs', hbs, heq⟩ := bind_eq_ok_iff.mp hrest
    rw [← Except.ok.inj heq]
    rcases List.mem_cons.mp ha with rfl | ha
    · exact ⟨b, List.mem_cons_self, hb⟩
    · obtain ⟨b', hb', hf⟩ := ih hbs ha
      exact ⟨b', List.mem_cons_of_mem _ hb', hf⟩

/-- What a loop comes to comes from its turns. -/
theorem exists_of_mem_mapM {f : α → Except ε β} {l : List α} {bs : List β} (h : l.mapM f = .ok bs) {b : β} (hb : b ∈ bs) :
    ∃ a ∈ l, f a = .ok b := by
  induction l generalizing bs with
  | nil =>
    obtain rfl : bs = [] := (Except.ok.inj h).symm
    cases hb
  | cons c l ih =>
    rw [List.mapM_cons] at h
    obtain ⟨b', hb', hrest⟩ := bind_eq_ok_iff.mp h
    obtain ⟨bs', hbs, heq⟩ := bind_eq_ok_iff.mp hrest
    rw [← Except.ok.inj heq] at hb
    rcases List.mem_cons.mp hb with rfl | hb
    · exact ⟨c, List.mem_cons_self, hb'⟩
    · obtain ⟨a, ha, hf⟩ := ih hbs hb
      exact ⟨a, List.mem_cons_of_mem _ ha, hf⟩

/-- What the turns of a loop come to, all together. -/
theorem mem_flatten_of_mapM {f : α → Except ε (List β)} {l : List α} {bs : List (List β)} (h : l.mapM f = .ok bs) {b : β} :
    b ∈ bs.flatten ↔ ∃ a ∈ l, ∃ xs, f a = .ok xs ∧ b ∈ xs := by
  constructor
  · intro hb
    obtain ⟨xs, hxs, hmem⟩ := List.mem_flatten.mp hb
    obtain ⟨a, ha, hf⟩ := exists_of_mem_mapM h hxs
    exact ⟨a, ha, xs, hf, hmem⟩
  · rintro ⟨a, ha, xs, hf, hmem⟩
    obtain ⟨ys, hys, hf'⟩ := exists_mem_of_mapM h ha
    rw [hf] at hf'
    obtain rfl := Except.ok.inj hf'
    exact List.mem_flatten.mpr ⟨xs, hys, hmem⟩

/-- Loops with equal turns are equal. -/
theorem mapM_congr {f g : α → Except ε β} {l : List α} (h : ∀ a ∈ l, f a = g a) : l.mapM f = l.mapM g := by
  induction l with
  | nil => rfl
  | cons a l ih =>
    rw [List.mapM_cons, List.mapM_cons, h a List.mem_cons_self, ih fun b hb => h b (List.mem_cons_of_mem _ hb)]

/-! ## Loops that accumulate -/

theorem foldlM_cons_eq_ok {f : β → α → Except ε β} {a : α} {l : List α} {b b' : β} :
    (a :: l).foldlM f b = .ok b' ↔ ∃ c, f b a = .ok c ∧ l.foldlM f c = .ok b' := by
  rw [List.foldlM_cons]
  exact bind_eq_ok_iff

theorem foldlM_append_eq_ok {f : β → α → Except ε β} {l l' : List α} {b b' : β} :
    (l ++ l').foldlM f b = .ok b' ↔ ∃ c, l.foldlM f b = .ok c ∧ l'.foldlM f c = .ok b' := by
  rw [List.foldlM_append]
  exact bind_eq_ok_iff

/-- **What every turn keeps, the loop keeps.** -/
theorem foldlM_keeps {f : β → α → Except ε β} {P : β → Prop} {l : List α} {b b' : β}
    (hstep : ∀ a ∈ l, ∀ c c', f c a = .ok c' → P c → P c') (h : l.foldlM f b = .ok b') (hb : P b) : P b' := by
  induction l generalizing b with
  | nil =>
    obtain rfl := Except.ok.inj h
    exact hb
  | cons a l ih =>
    obtain ⟨c, hc, hrest⟩ := foldlM_cons_eq_ok.mp h
    exact ih (fun a' ha' => hstep a' (List.mem_cons_of_mem a ha')) hrest (hstep a List.mem_cons_self b c hc hb)

/-- What one turn brings about and every turn keeps, the loop brings about. -/
theorem foldlM_reaches {f : β → α → Except ε β} {P : β → Prop} {l : List α} {a : α} (ha : a ∈ l) {b b' : β}
    (hhit : ∀ c c', f c a = .ok c' → P c') (hstep : ∀ a ∈ l, ∀ c c', f c a = .ok c' → P c → P c')
    (h : l.foldlM f b = .ok b') : P b' := by
  obtain ⟨before, after, rfl⟩ := List.append_of_mem ha
  obtain ⟨c, -, hrest⟩ := foldlM_append_eq_ok.mp h
  obtain ⟨d, hd, hafter⟩ := foldlM_cons_eq_ok.mp hrest
  refine foldlM_keeps (fun a' ha' => hstep a' ?_) hafter (hhit c d hd)
  exact List.mem_append_right before (List.mem_cons_of_mem a ha')

end LocalPlatform.Logic
