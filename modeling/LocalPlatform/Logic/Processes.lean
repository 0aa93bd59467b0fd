/-
# LocalPlatform.Logic.Processes — programs side by side.

Several programs run at once, and their questions come in any order.  The history has the questions of all of them, each with
the program that asked it.  What they share is in a `World`: it moves on with every answered question, whosever it was, and
says which answers can be given.

What a program did in such a history is a run of it (`reaches_of_together`), so whatever holds of every run on its own holds
here.  And where the world grants something once, and a program acts only when it was granted it, all who act are one
(`one_acts`).
-/
import LocalPlatform.Logic.Interaction
import Mathlib.Logic.Function.Basic

namespace LocalPlatform.Logic

variable {ι Q ω : Type} {A : Q → Type} {α : Type}

/-- What can be answered in a state, and how an answered question moves the state on. -/
structure World (A : Q → Type) (ω : Type) where
  permits : ω → (q : Q) → A q → Prop
  next : ω → (q : Q) → A q → ω

namespace World

/-- The world after these answers. -/
def after (W : World A ω) (w : ω) (es : List (Event A)) : ω := es.foldl (fun w e => W.next w e.ask e.answer) w

/-- These answers can be given one after another. -/
def PermitsAll (W : World A ω) : ω → List (Event A) → Prop
  | _, [] => True
  | w, e :: es => W.permits w e.ask e.answer ∧ W.PermitsAll (W.next w e.ask e.answer) es

end World

namespace Prog

variable [DecidableEq ι] {W : World A ω}

/-- **Programs side by side**: with this history they get as far as `p'`, and the world as far as `w'`. -/
inductive Together (W : World A ω) : (ι → Prog Q A α) → ω → List (ι × Event A) → (ι → Prog Q A α) → ω → Prop
  | refl (p : ι → Prog Q A α) (w : ω) : Together W p w [] p w
  | step {p p' : ι → Prog Q A α} {w w' : ω} {i : ι} {e : Event A} {next : Prog Q A α} {es : List (ι × Event A)}
      (hanswers : Answers (p i) e next) (hpermits : W.permits w e.ask e.answer)
      (hrest : Together W (Function.update p i next) (W.next w e.ask e.answer) es p' w') : Together W p w ((i, e) :: es) p' w'

/-- One history behind another. -/
theorem Together.append {p p' p'' : ι → Prog Q A α} {w w' w'' : ω} {es es' : List (ι × Event A)} (h : Together W p w es p' w')
    (h' : Together W p' w' es' p'' w'') : Together W p w (es ++ es') p'' w'' := by
  induction h with
  | refl p w => exact h'
  | step hanswers hpermits _ ih => exact .step hanswers hpermits (ih h')

/-- **A run of one program is a history**, if its answers can be given; the others do nothing in it. -/
theorem together_of_reaches {p : ι → Prog Q A α} {i : ι} {es : List (Event A)} {q : Prog Q A α} {w : ω} (h : Reaches (p i) es q)
    (hpermits : W.PermitsAll w es) : Together W p w (es.map fun e => (i, e)) (Function.update p i q) (W.after w es) := by
  generalize hp : p i = first at h
  induction h generalizing p w with
  | refl first =>
    rw [← hp, Function.update_eq_self]
    exact .refl p w
  | @step first next _ e es hanswers _ ih =>
    have hrest := ih hpermits.2 (Function.update_self i next p)
    rw [Function.update_idem] at hrest
    exact .step (hp ▸ hanswers) hpermits.1 hrest

/-- What one program did. -/
def own (i : ι) (es : List (ι × Event A)) : List (Event A) := es.filterMap fun e => if e.1 = i then some e.2 else none

theorem mem_own {i : ι} {e : Event A} {es : List (ι × Event A)} : e ∈ own i es ↔ (i, e) ∈ es := by
  simp only [own, List.mem_filterMap, Option.ite_none_right_eq_some, Option.some.injEq]
  constructor
  · rintro ⟨⟨j, e'⟩, hmem, rfl, rfl⟩
    exact hmem
  · intro hmem
    exact ⟨(i, e), hmem, rfl, rfl⟩

/-- **What one program did is a run of it.** -/
theorem reaches_of_together {p p' : ι → Prog Q A α} {w w' : ω} {es : List (ι × Event A)} (h : Together W p w es p' w') (i : ι) :
    Reaches (p i) (own i es) (p' i) := by
  induction h with
  | refl p w => exact .refl _
  | @step p p' w w' j e next es hanswers _ _ ih =>
    by_cases hji : j = i
    · subst hji
      rw [Function.update_self] at ih
      have hown : own j ((j, e) :: es) = e :: own j es := by simp [own]
      rw [hown]
      exact .step hanswers ih
    · rw [Function.update_of_ne (Ne.symm hji)] at ih
      have hown : own i ((j, e) :: es) = own i es := by simp [own, hji]
      rw [hown]
      exact ih

/-- Something that can be granted only while it was not, and once it was, was for good. -/
structure Once (W : World A ω) (grants : Event A → Prop) (granted : ω → Prop) : Prop where
  free : ∀ w q r, W.permits w q r → grants ⟨q, r⟩ → ¬ granted w
  taken : ∀ w q r, grants ⟨q, r⟩ → granted (W.next w q r)
  kept : ∀ w q r, granted w → granted (W.next w q r)

/-- What was granted is not granted again. -/
theorem Once.none_of_granted {grants : Event A → Prop} {granted : ω → Prop} (honce : Once W grants granted) {p p' : ι → Prog Q A α}
    {w w' : ω} {es : List (ι × Event A)} (h : Together W p w es p' w') (hw : granted w) : ∀ e ∈ es, ¬ grants e.2 := by
  induction h with
  | refl p w => exact fun e he => absurd he List.not_mem_nil
  | step hanswers hpermits _ ih =>
    intro e he
    rcases List.mem_cons.mp he with rfl | he
    · exact fun hgrants => honce.free _ _ _ hpermits hgrants hw
    · exact ih (honce.kept _ _ _ hw) e he

/-- One program is granted it, and no other. -/
theorem Once.granted_to_one {grants : Event A → Prop} {granted : ω → Prop} (honce : Once W grants granted) {p p' : ι → Prog Q A α}
    {w w' : ω} {es : List (ι × Event A)} (h : Together W p w es p' w') {d e : ι × Event A} (hd : d ∈ es) (he : e ∈ es)
    (hgd : grants d.2) (hge : grants e.2) : d.1 = e.1 := by
  induction h with
  | refl p w => cases hd
  | @step p p' w w' i g next es hanswers hpermits hrest ih =>
    -- behind a grant there is none
    have hlast : grants g → ∀ x ∈ es, ¬ grants x.2 := fun hg => honce.none_of_granted hrest (honce.taken _ _ _ hg)
    rcases List.mem_cons.mp hd with rfl | hd <;> rcases List.mem_cons.mp he with rfl | he
    · rfl
    · exact absurd hge (hlast hgd e he)
    · exact absurd hgd (hlast hge d hd)
    · exact ih hd he

/-- **All who act are one**, where each acts only when it was granted what can be granted once. -/
theorem Once.one_acts {grants : Event A → Prop} {granted : ω → Prop} (honce : Once W grants granted) {p p' : ι → Prog Q A α}
    {w w' : ω} {es : List (ι × Event A)} (h : Together W p w es p' w') {acts : ι → Event A → Prop}
    (hgranted : ∀ i before e after p', Reaches (p i) (before ++ e :: after) p' → acts i e → ∃ g ∈ before, grants g)
    {i j : ι} {d e : Event A} (hd : (i, d) ∈ es) (he : (j, e) ∈ es) (hacts : acts i d) (hacts' : acts j e) : i = j := by
  have hgrant : ∀ k x, (k, x) ∈ es → acts k x → ∃ g, (k, g) ∈ es ∧ grants g := by
    intro k x hx hact
    obtain ⟨before, after, hown⟩ := List.append_of_mem (mem_own.mpr hx)
    obtain ⟨g, hg, hgrants⟩ := hgranted k before x after (p' k) (hown ▸ reaches_of_together h k) hact
    exact ⟨g, mem_own.mp (hown ▸ List.mem_append_left _ hg), hgrants⟩
  obtain ⟨g, hg, hgrants⟩ := hgrant i d hd hacts
  obtain ⟨g', hg', hgrants'⟩ := hgrant j e he hacts'
  exact honce.granted_to_one h hg hg' hgrants hgrants'

end Prog

end LocalPlatform.Logic
