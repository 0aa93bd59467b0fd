/-
# LocalPlatform.Logic.Failing — programs that fail, and what a program did.

A program that may fail is one that returns a result or an error.  The rules for its steps are those of the programs below
it, an error going past everything behind it.

A program without loops all of whose questions are allowed everywhere needs no rule of its own: what it leaves behind is a
run of it (`wp_runs`).  So a monitor may ask for *a run of this program that returned that* and be told so by the program
itself.
-/
import LocalPlatform.Logic.Interaction

namespace LocalPlatform.Logic.Prog

variable {Q : Type} {A : Q → Type} {ε α β σ : Type} {M : Monitor A σ}

/-! ## Failing -/

/-- An error goes past what is behind it. -/
def Past (post : Except ε β → σ → Prop) (f : α → σ → Prop) : Except ε α → σ → Prop
  | .ok a, s => f a s
  | .error e, s => post (.error e) s

theorem wp_bindE (p : ExceptT ε (Prog Q A) α) (f : α → ExceptT ε (Prog Q A) β) (post : Except ε β → σ → Prop) (s : σ) :
    wp M ((p >>= f : ExceptT ε (Prog Q A) β) : Prog Q A (Except ε β)) post s ↔
      wp M (p : Prog Q A (Except ε α)) (Past post fun a t => wp M (f a : Prog Q A (Except ε β)) post t) s := by
  refine (wp_bind (p : Prog Q A (Except ε α)) _ post s).trans (iff_of_eq (congrArg (fun g => wp M p g s) ?_))
  funext r t
  cases r with
  | ok a => rfl
  | error e => rfl

theorem wp_liftE (p : Prog Q A α) (post : Except ε α → σ → Prop) (s : σ) :
    wp M ((ExceptT.lift p : ExceptT ε (Prog Q A) α) : Prog Q A (Except ε α)) post s ↔ wp M p (fun a t => post (.ok a) t) s := by
  refine (wp_bind p _ post s).trans Iff.rfl

theorem wp_tryE (p : ExceptT ε (Prog Q A) α) (handle : ε → ExceptT ε (Prog Q A) α) (post : Except ε α → σ → Prop) (s : σ) :
    wp M ((tryCatch p handle : ExceptT ε (Prog Q A) α) : Prog Q A (Except ε α)) post s ↔
      wp M (p : Prog Q A (Except ε α)) (fun r t => match r with
        | .ok a => post (.ok a) t
        | .error e => wp M (handle e : Prog Q A (Except ε α)) post t) s := by
  refine (wp_bind (p : Prog Q A (Except ε α)) _ post s).trans (iff_of_eq (congrArg (fun g => wp M p g s) ?_))
  funext r t
  cases r with
  | ok a => rfl
  | error e => rfl

/-! ## What a program did -/

/-- A whole run, and what it returned. -/
def Runs (p : Prog Q A α) (es : List (Event A)) (a : α) : Prop := ∃ p', Reaches p es p' ∧ Returns p' a

/-- There is no loop in it. -/
def Straight : {α : Type} → Prog Q A α → Prop
  | _, .pure _ => True
  | _, .ask _ k => ∀ r, (k r).Straight
  | _, .loop _ _ _ => False

theorem Straight.bind {p : Prog Q A α} {f : α → Prog Q A β} (hp : p.Straight) (hf : ∀ a, (f a).Straight) : (p.bind f).Straight := by
  induction p with
  | pure a => exact hf a
  | ask q k ih => exact fun r => ih r (hp r) hf
  | loop body x k => exact hp.elim

/-- A program whose questions are allowed everywhere. -/
theorem wp_of_asks {P : Q → Prop} {p : Prog Q A α} (hasks : p.Asks P) (hallowed : ∀ q, P q → ∀ s, M.allowed s q) (s : σ) :
    p.wp M (fun _ _ => True) s := by
  induction p generalizing s with
  | pure a => trivial
  | ask q k ih => exact ⟨hallowed q hasks.1 s, fun r => ih r (hasks.2 r) _⟩
  | loop body x k ihbody ihk =>
    refine ⟨fun _ _ => True, trivial, fun y t _ => wp_mono ?_ (ihbody y (hasks.1 y) t)⟩
    rintro (z | a) u -
    · trivial
    · exact ihk a (hasks.2 a) u

/-- Any program, in a state that is kept and in which everything is allowed. -/
theorem wp_of_stable {I : σ → Prop} (hallowed : ∀ s q, I s → M.allowed s q) (hstep : ∀ s q r, I s → I (M.next s q r))
    (p : Prog Q A α) {s : σ} (hs : I s) : p.wp M (fun _ t => I t) s := by
  induction p generalizing s with
  | pure a => exact hs
  | ask q k ih => exact ⟨hallowed s q hs, fun r => ih r (hstep s q r hs)⟩
  | loop body x k ihbody ihk =>
    refine ⟨fun _ => I, hs, fun y t ht => wp_mono ?_ (ihbody y ht)⟩
    rintro (z | a) u hu
    · exact hu
    · exact ihk a hu

/-- **A program without loops leaves a run of it behind**, where its questions are allowed. -/
theorem wp_runs {P : Q → Prop} {p : Prog Q A α} (hstraight : p.Straight) (hasks : p.Asks P)
    (hallowed : ∀ q, P q → ∀ s, M.allowed s q) (s : σ) : p.wp M (fun a t => ∃ es, Runs p es a ∧ t = M.after s es) s := by
  induction p generalizing s with
  | pure a => exact ⟨[], ⟨.pure a, .refl _, .pure a⟩, rfl⟩
  | ask q k ih =>
    refine ⟨hallowed q hasks.1 s, fun r => wp_mono ?_ (ih r (hstraight r) (hasks.2 r) (M.next s q r))⟩
    rintro a t ⟨es, ⟨p', hreach, hret⟩, rfl⟩
    exact ⟨⟨q, r⟩ :: es, ⟨p', .step (.ask r) hreach, hret⟩, rfl⟩
  | loop body x k => exact hstraight.elim

/-- The questions of a run are those the program may come to. -/
theorem asks_of_runs {P : Q → Prop} {p : Prog Q A α} (hstraight : p.Straight) (hasks : p.Asks P) {es : List (Event A)} {a : α}
    (h : Runs p es a) : ∀ e ∈ es, P e.ask := by
  obtain ⟨p', hreach, -⟩ := h
  induction hreach with
  | refl p => exact fun e he => absurd he List.not_mem_nil
  | @step p p₁ p₂ e es hanswers _ ih =>
    cases hanswers with
    | ask r =>
      intro e' he'
      rcases List.mem_cons.mp he' with rfl | he'
      · exact hasks.1
      · exact ih (hstraight r) (hasks.2 r) e' he'
    | loop _ => exact hstraight.elim

/-- A run of a sequence is a run of each of its parts. -/
theorem runs_bind {p : Prog Q A α} (hstraight : p.Straight) {f : α → Prog Q A β} {es : List (Event A)} {b : β}
    (h : Runs (p.bind f) es b) : ∃ es₁ a es₂, es = es₁ ++ es₂ ∧ Runs p es₁ a ∧ Runs (f a) es₂ b := by
  induction p generalizing es with
  | pure a => exact ⟨[], a, es, rfl, ⟨.pure a, .refl _, .pure a⟩, h⟩
  | ask q k ih =>
    obtain ⟨p', hreach, hret⟩ := h
    cases hreach with
    | refl => cases hret
    | step he hrest =>
      cases he with
      | ask r =>
        obtain ⟨es₁, a, es₂, rfl, ⟨p₁, hreach₁, hret₁⟩, hf⟩ := ih r (hstraight r) ⟨p', hrest, hret⟩
        exact ⟨⟨q, r⟩ :: es₁, a, es₂, rfl, ⟨p₁, .step (.ask r) hreach₁, hret₁⟩, hf⟩
  | loop body x k => exact hstraight.elim

theorem runs_pure {a b : α} {es : List (Event A)} (h : Runs (.pure a : Prog Q A α) es b) : es = [] ∧ b = a := by
  obtain ⟨p', hreach, hret⟩ := h
  cases hreach with
  | refl =>
    cases hret
    exact ⟨rfl, rfl⟩
  | step he _ => cases he

/-- A run that fails nowhere is a run of each of its parts that fails nowhere. -/
theorem runs_bindE {p : ExceptT ε (Prog Q A) α} (hstraight : Straight (p : Prog Q A (Except ε α))) {f : α → ExceptT ε (Prog Q A) β}
    {es : List (Event A)} {b : β} (h : Runs ((p >>= f : ExceptT ε (Prog Q A) β) : Prog Q A (Except ε β)) es (.ok b)) :
    ∃ es₁ a es₂, es = es₁ ++ es₂ ∧ Runs (p : Prog Q A (Except ε α)) es₁ (.ok a) ∧ Runs (f a : Prog Q A (Except ε β)) es₂ (.ok b) := by
  obtain ⟨es₁, r, es₂, rfl, hp, hf⟩ := runs_bind (p := (p : Prog Q A (Except ε α))) hstraight h
  cases r with
  | ok a => exact ⟨es₁, a, es₂, rfl, hp, hf⟩
  | error e =>
    obtain ⟨-, heq⟩ := runs_pure hf
    cases heq

/-- A program without loops whose questions have the property. -/
structure Simple (P : Q → Prop) (p : Prog Q A α) : Prop where
  straight : p.Straight
  asks : p.Asks P

namespace Simple

variable {P : Q → Prop}

theorem pure (a : α) : Simple P (.pure a : Prog Q A α) := ⟨trivial, trivial⟩

theorem question {q : Q} (h : P q) : Simple P (Prog.question q : Prog Q A (A q)) := ⟨fun _ => trivial, h, fun _ => trivial⟩

theorem bind {p : Prog Q A α} {f : α → Prog Q A β} (hp : Simple P p) (hf : ∀ a, Simple P (f a)) : Simple P (p.bind f) :=
  ⟨hp.straight.bind fun a => (hf a).straight, hp.asks.bind fun a => (hf a).asks⟩

theorem lift {p : Prog Q A α} (hp : Simple P p) : Simple P ((ExceptT.lift p : ExceptT ε (Prog Q A) α) : Prog Q A (Except ε α)) :=
  hp.bind fun _ => .pure _

theorem throw (e : ε) : Simple P ((MonadExcept.throw e : ExceptT ε (Prog Q A) α) : Prog Q A (Except ε α)) := .pure _

theorem bindE {p : ExceptT ε (Prog Q A) α} {f : α → ExceptT ε (Prog Q A) β} (hp : Simple P (p : Prog Q A (Except ε α)))
    (hf : ∀ a, Simple P (f a : Prog Q A (Except ε β))) : Simple P ((p >>= f : ExceptT ε (Prog Q A) β) : Prog Q A (Except ε β)) := by
  refine Simple.bind (p := (p : Prog Q A (Except ε α))) hp fun r => ?_
  cases r with
  | ok a => exact hf a
  | error e => exact .pure _

theorem tryE {p : ExceptT ε (Prog Q A) α} {handle : ε → ExceptT ε (Prog Q A) α} (hp : Simple P (p : Prog Q A (Except ε α)))
    (hhandle : ∀ e, Simple P (handle e : Prog Q A (Except ε α))) :
    Simple P ((tryCatch p handle : ExceptT ε (Prog Q A) α) : Prog Q A (Except ε α)) := by
  refine Simple.bind (p := (p : Prog Q A (Except ε α))) hp fun r => ?_
  cases r with
  | ok a => exact .pure _
  | error e => exact hhandle e

end Simple

/-- **What every allowed question keeps, every run keeps.** -/
theorem invariant_of_wp {I : σ → Prop} (hstep : ∀ s q r, I s → M.allowed s q → I (M.next s q r)) {p p' : Prog Q A α}
    {es : List (Event A)} {post : α → σ → Prop} {s : σ} (h : Reaches p es p') (hp : p.wp M post s) (hs : I s) : I (M.after s es) := by
  induction h generalizing s with
  | refl p => exact hs
  | step he _ ih =>
    obtain ⟨hallowed, hrest⟩ := wp_answers he hp
    exact ih hrest (hstep s _ _ hs hallowed)

end LocalPlatform.Logic.Prog
