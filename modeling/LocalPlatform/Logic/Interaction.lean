/-
# LocalPlatform.Logic.Interaction — programs that ask their environment, and what they may ask.

A program either returns, asks a question and goes on with the answer, or loops.  A run is the list of
its questions with the answers it got, in order; nothing is said of the answers.

A `Monitor` watches a run: it keeps a state of its own, which every answered question moves on, and says
in each state which questions are allowed.  `wp` is the weakest precondition for "no question asked is
forbidden, and what is returned satisfies the postcondition"; it is defined along the program, with an
invariant for every loop, and `wp_reaches` carries it along every run.
-/
import Mathlib.Data.List.Basic

namespace LocalPlatform.Logic

/-- A program that asks questions `Q`, the answer to `q` being one of `A q`. -/
inductive Prog (Q : Type) (A : Q → Type) : Type → Type 1 where
  | pure {α : Type} (a : α) : Prog Q A α
  | ask {α : Type} (q : Q) (k : A q → Prog Q A α) : Prog Q A α
  | loop {σ α β : Type} (body : σ → Prog Q A (σ ⊕ α)) (x : σ) (k : α → Prog Q A β) : Prog Q A β

/-- A question and the answer it got. -/
structure Event {Q : Type} (A : Q → Type) where
  ask : Q
  answer : A ask

namespace Prog

variable {Q : Type} {A : Q → Type} {α β : Type}

/-- One program after another. -/
def bind : {α : Type} → Prog Q A α → (α → Prog Q A β) → Prog Q A β
  | _, .pure a, f => f a
  | _, .ask q k, f => .ask q fun r => (k r).bind f
  | _, .loop body x k, f => .loop body x fun a => (k a).bind f

instance : Monad (Prog Q A) where
  pure := .pure
  bind := .bind

/-- A question on its own. -/
def question (q : Q) : Prog Q A (A q) := .ask q .pure

/-- A loop on its own: `inl` goes round again, `inr` leaves. -/
def forever {σ : Type} (body : σ → Prog Q A (σ ⊕ α)) (x : σ) : Prog Q A α := .loop body x .pure

/-- The loop after its test. -/
def rest {σ : Type} (body : σ → Prog Q A (σ ⊕ α)) (k : α → Prog Q A β) : σ ⊕ α → Prog Q A β
  | .inl x => .loop body x k
  | .inr a => k a

/-- What a loop does first. -/
def unroll {σ : Type} (body : σ → Prog Q A (σ ⊕ α)) (x : σ) (k : α → Prog Q A β) : Prog Q A β :=
  (body x).bind (rest body k)

@[simp] theorem pure_eq (a : α) : (Pure.pure a : Prog Q A α) = .pure a := rfl

@[simp] theorem bind_eq (p : Prog Q A α) (f : α → Prog Q A β) : p >>= f = p.bind f := rfl

@[simp] theorem pure_bind (a : α) (f : α → Prog Q A β) : (Prog.pure a).bind f = f a := rfl

@[simp] theorem question_bind (q : Q) (f : A q → Prog Q A β) : (question q).bind f = .ask q f := rfl

end Prog

/-! ## Runs -/

namespace Prog

variable {Q : Type} {A : Q → Type} {α : Type}

/-- The program asks, gets this answer, and goes on. -/
inductive Answers : Prog Q A α → Event A → Prog Q A α → Prop where
  | ask {q : Q} {k : A q → Prog Q A α} (r : A q) : Answers (.ask q k) ⟨q, r⟩ (k r)
  | loop {σ β : Type} {body : σ → Prog Q A (σ ⊕ β)} {x : σ} {k : β → Prog Q A α} {e : Event A} {p : Prog Q A α} :
      Answers (unroll body x k) e p → Answers (.loop body x k) e p

/-- The program returns without asking anything more. -/
inductive Returns : Prog Q A α → α → Prop where
  | pure (a : α) : Returns (.pure a) a
  | loop {σ β : Type} {body : σ → Prog Q A (σ ⊕ β)} {x : σ} {k : β → Prog Q A α} {a : α} :
      Returns (unroll body x k) a → Returns (.loop body x k) a

/-- The program gets as far as `p'` with these questions and answers. -/
inductive Reaches : Prog Q A α → List (Event A) → Prog Q A α → Prop where
  | refl (p : Prog Q A α) : Reaches p [] p
  | step {p p' p'' : Prog Q A α} {e : Event A} {es : List (Event A)} :
      Answers p e p' → Reaches p' es p'' → Reaches p (e :: es) p''

theorem Reaches.snoc {p p' p'' : Prog Q A α} {es : List (Event A)} {e : Event A} (h : Reaches p es p')
    (he : Answers p' e p'') : Reaches p (es ++ [e]) p'' := by
  induction h with
  | refl p => exact .step he (.refl p'')
  | step h _ ih => exact .step h (ih he)

/-- A run may be cut anywhere. -/
theorem Reaches.split {es₁ es₂ : List (Event A)} {p p'' : Prog Q A α} (h : Reaches p (es₁ ++ es₂) p'') :
    ∃ p', Reaches p es₁ p' ∧ Reaches p' es₂ p'' := by
  induction es₁ generalizing p with
  | nil => exact ⟨p, .refl p, h⟩
  | cons e es₁ ih =>
      cases h with
      | step he hrest =>
          obtain ⟨p', h₁, h₂⟩ := ih hrest
          exact ⟨p', .step he h₁, h₂⟩

/-- **A run against an oracle**, which sees the events so far; `none` where the fuel does not suffice. -/
def exec (oracle : List (Event A) → (q : Q) → A q) : Nat → Prog Q A α → List (Event A) → Option (List (Event A) × α)
  | 0, _, _ => none
  | _ + 1, .pure a, past => some (past, a)
  | n + 1, .ask q k, past => exec oracle n (k (oracle past q)) (past ++ [⟨q, oracle past q⟩])
  | n + 1, .loop body x k, past => exec oracle n (unroll body x k) past

/-- What `exec` returns is a run. -/
theorem exec_reaches {oracle : List (Event A) → (q : Q) → A q} {n : Nat} {p : Prog Q A α} {past all : List (Event A)}
    {a : α} (h : exec oracle n p past = some (all, a)) : ∃ es p', all = past ++ es ∧ Reaches p es p' ∧ Returns p' a := by
  induction n generalizing p past with
  | zero => cases h
  | succ n ih =>
      cases p with
      | pure b =>
          cases h
          exact ⟨[], .pure a, by simp, .refl _, .pure a⟩
      | ask q k =>
          obtain ⟨es, p', hall, hrun, hends⟩ := ih h
          refine ⟨⟨q, oracle past q⟩ :: es, p', ?_, .step (.ask _) hrun, hends⟩
          rw [hall, List.append_assoc]
          rfl
      | loop body x k =>
          obtain ⟨es, p', hall, hrun, hends⟩ := ih h
          cases hrun with
          | refl => exact ⟨[], .loop body x k, hall, .refl _, .loop hends⟩
          | step he hrest => exact ⟨_, p', hall, .step (.loop he) hrest, hends⟩

/-! ## Monitors -/

end Prog

/-- What may be asked in a state, and how an answered question moves the state on. -/
structure Monitor {Q : Type} (A : Q → Type) (σ : Type) where
  allowed : σ → Q → Prop
  next : σ → (q : Q) → A q → σ

namespace Monitor

variable {Q : Type} {A : Q → Type} {σ : Type}

/-- The state after a run. -/
def after (M : Monitor A σ) (s : σ) (es : List (Event A)) : σ := es.foldl (fun t e => M.next t e.ask e.answer) s

@[simp] theorem after_nil (M : Monitor A σ) (s : σ) : M.after s [] = s := rfl

@[simp] theorem after_cons (M : Monitor A σ) (s : σ) (e : Event A) (es : List (Event A)) :
    M.after s (e :: es) = M.after (M.next s e.ask e.answer) es := rfl

theorem after_append (M : Monitor A σ) (s : σ) (es es' : List (Event A)) :
    M.after s (es ++ es') = M.after (M.after s es) es' := List.foldl_append

end Monitor

namespace Prog

variable {Q : Type} {A : Q → Type} {α β σ : Type} {M : Monitor A σ}

/-- **The weakest precondition** of a program under a monitor. -/
def wp (M : Monitor A σ) : {α : Type} → Prog Q A α → (α → σ → Prop) → σ → Prop
  | _, .pure a, post, s => post a s
  | _, .ask q k, post, s => M.allowed s q ∧ ∀ r, (k r).wp M post (M.next s q r)
  | _, .loop body x k, post, s =>
    ∃ inv : _ → σ → Prop, inv x s ∧ ∀ y t, inv y t →
      (body y).wp M (fun | .inl z, u => inv z u | .inr a, u => (k a).wp M post u) t

@[simp] theorem wp_pure (a : α) (post : α → σ → Prop) (s : σ) : (Prog.pure a : Prog Q A α).wp M post s ↔ post a s :=
  Iff.rfl

@[simp] theorem wp_ask (q : Q) (k : A q → Prog Q A α) (post : α → σ → Prop) (s : σ) :
    (Prog.ask q k).wp M post s ↔ M.allowed s q ∧ ∀ r, (k r).wp M post (M.next s q r) := Iff.rfl

@[simp] theorem wp_question (q : Q) (post : A q → σ → Prop) (s : σ) :
    (question q : Prog Q A (A q)).wp M post s ↔ M.allowed s q ∧ ∀ r, post r (M.next s q r) := Iff.rfl

theorem wp_mono {p : Prog Q A α} {post post' : α → σ → Prop} {s : σ} (hpost : ∀ a t, post a t → post' a t)
    (h : p.wp M post s) : p.wp M post' s := by
  induction p generalizing s with
  | pure a => exact hpost a s h
  | ask q k ih => exact ⟨h.1, fun r => ih r hpost (h.2 r)⟩
  | loop body x k ihbody ihk =>
      obtain ⟨inv, hinit, hround⟩ := h
      refine ⟨inv, hinit, fun y t hy => ihbody y ?_ (hround y t hy)⟩
      rintro (z | a) u hu
      · exact hu
      · exact ihk a hpost hu

/-- What is shown twice holds together. -/
theorem wp_and {p : Prog Q A α} {post post' : α → σ → Prop} {s : σ} (h : p.wp M post s) (h' : p.wp M post' s) :
    p.wp M (fun a t => post a t ∧ post' a t) s := by
  induction p generalizing s with
  | pure a => exact ⟨h, h'⟩
  | ask q k ih => exact ⟨h.1, fun r => ih r (h.2 r) (h'.2 r)⟩
  | loop body x k ihbody ihk =>
      obtain ⟨inv, hinit, hround⟩ := h
      obtain ⟨inv', hinit', hround'⟩ := h'
      refine ⟨fun y t => inv y t ∧ inv' y t, ⟨hinit, hinit'⟩, fun y t hy => wp_mono ?_ (ihbody y (hround y t hy.1) (hround' y t hy.2))⟩
      rintro (z | a) u hu
      · exact hu
      · exact ihk a hu.1 hu.2

/-- A property that every answered question keeps is kept besides. -/
theorem wp_stable {I : σ → Prop} (hstep : ∀ s q r, I s → I (M.next s q r)) {p : Prog Q A α} {post : α → σ → Prop} {s : σ}
    (h : p.wp M post s) (hs : I s) : p.wp M (fun a t => post a t ∧ I t) s := by
  induction p generalizing s with
  | pure a => exact ⟨h, hs⟩
  | ask q k ih => exact ⟨h.1, fun r => ih r (h.2 r) (hstep s q r hs)⟩
  | loop body x k ihbody ihk =>
      obtain ⟨inv, hinit, hround⟩ := h
      refine ⟨fun y t => inv y t ∧ I t, ⟨hinit, hs⟩, fun y t hy => wp_mono ?_ (ihbody y (hround y t hy.1) hy.2)⟩
      rintro (z | a) u hu
      · exact hu
      · exact ihk a hu.1 hu.2

/-- **Sequence.** -/
theorem wp_bind (p : Prog Q A α) (f : α → Prog Q A β) (post : β → σ → Prop) (s : σ) :
    (p.bind f).wp M post s ↔ p.wp M (fun a t => (f a).wp M post t) s := by
  induction p generalizing s with
  | pure a => exact Iff.rfl
  | ask q k ih => exact and_congr_right fun _ => forall_congr' fun r => ih r f _
  | loop body x k ihbody ihk =>
      simp only [bind, wp, ihk]

/-- The sequence rule, for programs written with `do`. -/
theorem wp_seq {p : Prog Q A α} {f : α → Prog Q A β} {post : β → σ → Prop} {s : σ}
    (h : p.wp M (fun a t => (f a).wp M post t) s) : (p >>= f).wp M post s := (wp_bind p f post s).mpr h

/-- A question, and then the rest. -/
theorem wp_question_seq {q : Q} {f : A q → Prog Q A β} {post : β → σ → Prop} {s : σ} (hq : M.allowed s q)
    (h : ∀ r, (f r).wp M post (M.next s q r)) : (question q >>= f).wp M post s := ⟨hq, h⟩

/-- **The loop rule.** -/
theorem wp_forever {ρ : Type} {body : ρ → Prog Q A (ρ ⊕ α)} {x : ρ} {post : α → σ → Prop} {s : σ} (inv : ρ → σ → Prop)
    (hinit : inv x s)
    (hround : ∀ y t, inv y t → (body y).wp M (fun | .inl z, u => inv z u | .inr a, u => post a u) t) :
    (forever body x).wp M post s := by
  refine ⟨inv, hinit, fun y t hy => wp_mono ?_ (hround y t hy)⟩
  rintro (z | a) u hu <;> exact hu

/-- A loop's precondition is that of the loop unrolled once. -/
theorem wp_unroll {ρ : Type} {body : ρ → Prog Q A (ρ ⊕ β)} {x : ρ} {k : β → Prog Q A α} {post : α → σ → Prop} {s : σ}
    (h : (Prog.loop body x k).wp M post s) : (unroll body x k).wp M post s := by
  obtain ⟨inv, hinit, hround⟩ := h
  apply (wp_bind _ _ _ _).mpr
  apply wp_mono _ (hround x s hinit)
  rintro (z | a) u hu
  · exact ⟨inv, hu, hround⟩
  · exact hu

/-- Every question the program may come to has the property. -/
def Asks (P : Q → Prop) : {α : Type} → Prog Q A α → Prop
  | _, .pure _ => True
  | _, .ask q k => P q ∧ ∀ r, (k r).Asks P
  | _, .loop body _ k => (∀ y, (body y).Asks P) ∧ ∀ a, (k a).Asks P

theorem Asks.bind {P : Q → Prop} {p : Prog Q A α} {f : α → Prog Q A β} (hp : p.Asks P) (hf : ∀ a, (f a).Asks P) :
    (p.bind f).Asks P := by
  induction p with
  | pure a => exact hf a
  | ask q k ih => exact ⟨hp.1, fun r => ih r (hp.2 r) hf⟩
  | loop body x k _ ih => exact ⟨hp.1, fun a => ih a (hp.2 a) hf⟩

theorem Asks.mono {P P' : Q → Prop} {p : Prog Q A α} (hp : p.Asks P) (h : ∀ q, P q → P' q) : p.Asks P' := by
  induction p with
  | pure a => exact trivial
  | ask q k ih => exact ⟨h q hp.1, fun r => ih r (hp.2 r)⟩
  | loop body x k ihbody ihk => exact ⟨fun y => ihbody y (hp.1 y), fun a => ihk a (hp.2 a)⟩

/-- A program all of whose questions are allowed and leave the monitor where it is. -/
theorem Asks.wp {P : Q → Prop} {p : Prog Q A α} {post : α → σ → Prop} {s : σ} (hp : p.Asks P)
    (hquiet : ∀ q, P q → M.allowed s q ∧ ∀ r, M.next s q r = s) (hpost : ∀ a, post a s) : p.wp M post s := by
  induction p with
  | pure a => exact hpost a
  | ask q k ih =>
      refine ⟨(hquiet q hp.1).1, fun r => ?_⟩
      rw [(hquiet q hp.1).2 r]
      exact ih r (hp.2 r) hpost
  | loop body x k ihbody ihk =>
      refine ⟨fun _ t => t = s, rfl, ?_⟩
      rintro y t rfl
      apply ihbody y (hp.1 y)
      rintro (z | a)
      · rfl
      · exact ihk a (hp.2 a) hpost

/-! ## Soundness -/

/-- One answered question: it was allowed, and what is left keeps its precondition. -/
theorem wp_answers {p p' : Prog Q A α} {e : Event A} {post : α → σ → Prop} {s : σ} (h : Answers p e p')
    (hp : p.wp M post s) : M.allowed s e.ask ∧ p'.wp M post (M.next s e.ask e.answer) := by
  induction h generalizing s with
  | ask r => exact ⟨hp.1, hp.2 r⟩
  | loop _ ih => exact ih (wp_unroll hp)

theorem wp_returns {p : Prog Q A α} {a : α} {post : α → σ → Prop} {s : σ} (h : Returns p a) (hp : p.wp M post s) :
    post a s := by
  induction h generalizing s with
  | pure a => exact hp
  | loop _ ih => exact ih (wp_unroll hp)

/-- **Along every run** the precondition is kept. -/
theorem wp_reaches {p p' : Prog Q A α} {es : List (Event A)} {post : α → σ → Prop} {s : σ} (h : Reaches p es p')
    (hp : p.wp M post s) : p'.wp M post (M.after s es) := by
  induction h generalizing s with
  | refl p => exact hp
  | step he _ ih => exact ih (wp_answers he hp).2

/-- **No forbidden question** is asked in any run. -/
theorem allowed_of_reaches {p p' : Prog Q A α} {es es' : List (Event A)} {e : Event A} {post : α → σ → Prop} {s : σ}
    (h : Reaches p (es ++ e :: es') p') (hp : p.wp M post s) : M.allowed (M.after s es) e.ask := by
  obtain ⟨p₁, h₁, h₂⟩ := h.split
  cases h₂ with
  | step he _ => exact (wp_answers he (wp_reaches h₁ hp)).1

end Prog

end LocalPlatform.Logic
