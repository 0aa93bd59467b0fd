/-
# LocalPlatform.LiveRun.Session — controllers of one run directory, up to the apply.

Any number of controllers are started for one run.  Each reads the staged receipts, looks for a session
receipt, takes the lock, has the staging inputs verified and lets a child process create the session
receipt; a controller whose child reports success starts `aws-up`.  Everything goes one file-system
operation at a time, in any interleaving, every operation may fail, and a controller or a child may stop
for good at any point, a child outliving its controller.

The child installs a receipt by an exclusive create of a temporary file and a link, and a link is refused
where the name exists (`Slot.step`); the receipt is never removed, so one child at most gets past it.
-/
import LocalPlatform.Logic.Transition
import Mathlib.Logic.Function.Basic
import Mathlib.Data.List.Nodup

namespace LocalPlatform.LiveRun

open Logic

/-! ## Installing a receipt -/

/-- The two names `write_json_exclusive` uses, each with the process that created the entry. -/
structure Slot (I : Type) where
  path : Option I
  temporary : Option I

/-- Where a process is inside `write_json_exclusive`. -/
inductive Writer where
  | create
  | dump
  | link
  | unlink
  | chmod
  | cleanup
  | done
  | raised
  deriving DecidableEq, Repr

namespace Slot

variable {I : Type}

/-- **`write_json_exclusive`**, one operation of process `i`; `ok` is false where the operation fails for
a reason other than the state of the two names. -/
def step (i : I) (ok : Bool) : Writer → Slot I → Option (Writer × Slot I)
  | .create, f =>
    -- the exclusive create stands before the `try`: where it fails nothing is unlinked
    if f.temporary.isSome || !ok then some (.raised, f) else some (.dump, { f with temporary := some i })
  | .dump, f => some (if ok then .link else .cleanup, f)
  | .link, f =>
    if f.temporary.isSome && f.path.isNone && ok then some (.unlink, { f with path := some i })
    else some (.cleanup, f)
  | .unlink, f =>
    if f.temporary.isSome && ok then some (.chmod, { f with temporary := none }) else some (.cleanup, f)
  | .chmod, f => some (if ok then .done else .cleanup, f)
  | .cleanup, f => some (.raised, if ok then { f with temporary := none } else f)
  | .done, _ => none
  | .raised, _ => none

/-- Past the link, with no exception since. -/
def linked : Writer → Bool
  | .unlink | .chmod | .done => true
  | _ => false

/-- **One operation on a slot** leaves the name as it is and is past the link only if it was before, or
creates the name where there was none. -/
theorem step_cases {i : I} {ok : Bool} {w w' : Writer} {f f' : Slot I} (h : step i ok w f = some (w', f')) :
    (f'.path = f.path ∧ (linked w' = true → linked w = true)) ∨ (f.path = none ∧ f'.path = some i) := by
  -- only the link names an owner, and only where there is none
  cases w with
  | create =>
      left
      simp only [step] at h
      split at h <;> cases h <;> exact ⟨rfl, id⟩
  | dump =>
      left
      cases h
      cases ok <;> exact ⟨rfl, id⟩
  | link =>
      simp only [step] at h
      split at h
      · next hfree =>
        cases h
        simp only [Bool.and_eq_true, Option.isNone_iff_eq_none] at hfree
        exact Or.inr ⟨hfree.1.2, rfl⟩
      · cases h
        exact Or.inl ⟨rfl, id⟩
  | unlink =>
      left
      simp only [step] at h
      split at h <;> cases h <;> exact ⟨rfl, fun _ => rfl⟩
  | chmod =>
      left
      cases h
      exact ⟨rfl, fun _ => rfl⟩
  | cleanup =>
      left
      cases h
      cases ok <;> exact ⟨rfl, id⟩
  | done => cases h
  | raised => cases h

end Slot

/-! ## The session child -/

/-- `m4-evidence.py start-session`. -/
inductive Child where
  | absent
  | validate
  | scanCheck
  | sessionCheck
  | session (w : Writer)
  | scan (w : Writer)
  | exited (status : Nat)
  deriving DecidableEq, Repr

/-- **`controller.run`**, up to the apply and from its end. -/
inductive Phase where
  | preflight
  | plan
  | packet
  | stat
  | source
  | lock
  | goNoGo
  | startSession
  | waitSession
  | readSession
  | writeState
  | up
  | applying
  | unlock
  | exited
  | crashed
  deriving DecidableEq, Repr

/-- The run directory, and every controller with its child. -/
structure State (I : Type) where
  lock : Option I
  session : Slot I
  scan : Slot I
  controller : I → Phase
  child : I → Child
  /-- The controllers that started `aws-up`, in order. -/
  ups : List I

variable {I : Type} [DecidableEq I]

namespace State

/-- Controller `i` goes to a phase. -/
def goto (s : State I) (i : I) (p : Phase) : State I := { s with controller := Function.update s.controller i p }

/-- The child of `i` goes to a phase. -/
def become (s : State I) (i : I) (c : Child) : State I := { s with child := Function.update s.child i c }

end State

/-- One operation of the child of `i`. -/
def childStep (i : I) (ok : Bool) (s : State I) : Option (State I) :=
  match s.child i with
  | .absent => none
  | .validate => some (s.become i (if ok then .scanCheck else .exited 1))
  | .scanCheck => some (s.become i (if s.scan.path.isSome || !ok then .exited 1 else .sessionCheck))
  | .sessionCheck => some (s.become i (if s.session.path.isSome || !ok then .exited 1 else .session .create))
  | .session .done => some (s.become i (.scan .create))
  | .session .raised => some (s.become i (.exited 1))
  | .session w => (Slot.step i ok w s.session).map fun r => { s with session := r.2 }.become i (.session r.1)
  | .scan .done => some (s.become i (.exited 0))
  | .scan .raised => some (s.become i (.exited 1))
  | .scan w => (Slot.step i ok w s.scan).map fun r => { s with scan := r.2 }.become i (.scan r.1)
  | .exited _ => none

/-- One operation of controller `i`. -/
def controllerStep (i : I) (ok : Bool) (s : State I) : Option (State I) :=
  match s.controller i with
  | .preflight => some (s.goto i (if ok then .plan else .exited))
  | .plan => some (s.goto i (if ok then .packet else .exited))
  | .packet => some (s.goto i (if ok then .stat else .exited))
  | .stat => some (s.goto i (if s.session.path.isSome || !ok then .exited else .source))
  | .source => some (s.goto i (if ok then .lock else .exited))
  | .lock =>
    if s.lock.isSome || !ok then some (s.goto i .exited) else some ({ s with lock := some i }.goto i .goNoGo)
  | .goNoGo => some (s.goto i (if ok then .startSession else .unlock))
  | .startSession =>
    if ok then some ((s.become i .validate).goto i .waitSession) else some (s.goto i .unlock)
  | .waitSession =>
    -- `Run` returns the child's status once its process group is gone, or an error without one
    if ok then match s.child i with
      | .exited 0 => some (s.goto i .readSession)
      | .exited _ => some (s.goto i .unlock)
      | _ => none
    else some (s.goto i .unlock)
  | .readSession => some (s.goto i (if s.session.path.isSome && ok then .writeState else .unlock))
  | .writeState => some (s.goto i (if ok then .up else .unlock))
  | .up => some ({ s with ups := s.ups ++ [i] }.goto i .applying)
  | .applying => some (s.goto i .unlock)
  | .unlock => some ({ s with lock := if ok then none else s.lock }.goto i .exited)
  | .exited => none
  | .crashed => none

/-- What can happen next. -/
inductive Move (I : Type) where
  | controller (i : I) (ok : Bool)
  | child (i : I) (ok : Bool)
  | crash (i : I)
  | kill (i : I)

/-- **One step** of the whole system.  A crashed controller leaves its lock and its child; a killed child
reports the signal. -/
def step (s : State I) : Move I → Option (State I)
  | .controller i ok => controllerStep i ok s
  | .child i ok => childStep i ok s
  | .crash i => some (s.goto i .crashed)
  | .kill i => match s.child i with
    | .absent => none
    | .exited _ => none
    | _ => some (s.become i (.exited 137))

/-- The directory as staging left it, and controllers not started. -/
def initial : State I := ⟨none, ⟨none, none⟩, ⟨none, none⟩, fun _ => .preflight, fun _ => .absent, []⟩

/-- The controllers of one run directory. -/
def controllers (I : Type) [DecidableEq I] : System (State I) := .ofMoves (· = initial) step

/-! ## What one step does -/

/-- The child has created the session receipt itself. -/
def Child.created : Child → Bool
  | .session w => Slot.linked w
  | .scan _ => true
  | .exited status => status == 0
  | _ => false

/-- The controller has its child's word for it. -/
def Phase.ready : Phase → Bool
  | .readSession | .writeState | .up => true
  | _ => false

/-- `aws-up` is behind the controller, or it will not come to it. -/
def Phase.over : Phase → Bool
  | .applying | .unlock | .exited | .crashed => true
  | _ => false

variable {i : I} {ok : Bool} {s t : State I}

theorem childStep_cases (h : childStep i ok s = some t) :
    t.controller = s.controller ∧ t.ups = s.ups ∧ ∃ c, t.child = Function.update s.child i c ∧
      ((t.session.path = s.session.path ∧ (c.created = true → (s.child i).created = true)) ∨
        (s.session.path = none ∧ t.session.path = some i)) := by
  -- a step that only moves the child on
  have hmove : ∀ c : Child, (c.created = true → (s.child i).created = true) → s.become i c = t →
      t.controller = s.controller ∧ t.ups = s.ups ∧ ∃ c, t.child = Function.update s.child i c ∧
        ((t.session.path = s.session.path ∧ (c.created = true → (s.child i).created = true)) ∨
          (s.session.path = none ∧ t.session.path = some i)) := by
    rintro c hc rfl
    exact ⟨rfl, rfl, c, rfl, Or.inl ⟨rfl, hc⟩⟩
  unfold childStep at h
  split at h
  · cases h
  · exact hmove _ (by cases ok <;> exact fun hc => absurd hc (by decide)) (Option.some.inj h)
  · apply hmove _ _ (Option.some.inj h)
    split <;> exact fun hc => absurd hc (by decide)
  · apply hmove _ _ (Option.some.inj h)
    split <;> exact fun hc => absurd hc (by decide)
  · next hdone => exact hmove _ (fun _ => by rw [hdone]; rfl) (Option.some.inj h)
  · exact hmove _ (fun hc => absurd hc (by decide)) (Option.some.inj h)
  · next w _ _ hw =>
    obtain ⟨⟨w', f'⟩, hslot, rfl⟩ := Option.map_eq_some_iff.mp h
    refine ⟨rfl, rfl, .session w', rfl, ?_⟩
    rcases Slot.step_cases hslot with ⟨hpath, hlinked⟩ | hnew
    · left
      refine ⟨hpath, fun hc => ?_⟩
      rw [hw]
      exact hlinked hc
    · exact Or.inr hnew
  · next hdone => exact hmove _ (fun _ => by rw [hdone]; rfl) (Option.some.inj h)
  · exact hmove _ (fun hc => absurd hc (by decide)) (Option.some.inj h)
  · next w _ _ hw =>
    obtain ⟨⟨w', f'⟩, hslot, rfl⟩ := Option.map_eq_some_iff.mp h
    exact ⟨rfl, rfl, .scan w', rfl, Or.inl ⟨rfl, fun _ => by rw [hw]; rfl⟩⟩
  · cases h

/-- What a controller's step does to everything but the lock. -/
def Advances (i : I) (s t : State I) (p : Phase) : Prop :=
  t.session = s.session ∧ (t.child = s.child ∨ t.child = Function.update s.child i .validate) ∧
    t.controller = Function.update s.controller i p ∧
    (p.ready = true → (s.controller i).ready = true ∨ s.child i = .exited 0) ∧
    ((s.controller i).over = true → p.over = true) ∧
    (t.ups = s.ups ∨ (t.ups = s.ups ++ [i] ∧ s.controller i = .up ∧ p = .applying))

theorem controllerStep_cases (h : controllerStep i ok s = some t) : ∃ p, Advances i s t p := by
  -- a step that only moves the controller on, and not to one of the last phases before the apply
  have hmove : ∀ (p : Phase) (lock : Option I), (p.ready = true → (s.controller i).ready = true ∨ s.child i = .exited 0) →
      ((s.controller i).over = true → p.over = true) → { s with lock := lock }.goto i p = t → ∃ p, Advances i s t p := by
    rintro p lock hready hover rfl
    exact ⟨p, rfl, Or.inl rfl, rfl, hready, hover, Or.inl rfl⟩
  have hexit : ∀ (p : Phase) (lock : Option I), p.ready = false → p.over = true → { s with lock := lock }.goto i p = t →
      ∃ p, Advances i s t p := fun p lock hready hover =>
    hmove p lock (fun hp => absurd (hready.symm.trans hp) (by decide)) fun _ => hover
  have hearly : ∀ (p : Phase) (lock : Option I), p.ready = false → (s.controller i).over = false →
      { s with lock := lock }.goto i p = t → ∃ p, Advances i s t p := fun p lock hready hover =>
    hmove p lock (fun hp => absurd (hready.symm.trans hp) (by decide)) fun ho => absurd (hover.symm.trans ho) (by decide)
  unfold controllerStep at h
  cases hphase : s.controller i with
  | preflight | plan | packet | source | goNoGo =>
      simp only [hphase] at h
      apply hearly _ s.lock _ (by rw [hphase]; rfl) (Option.some.inj h)
      cases ok <;> rfl
  | stat =>
      simp only [hphase] at h
      apply hearly _ s.lock _ (by rw [hphase]; rfl) (Option.some.inj h)
      split <;> rfl
  | lock =>
      simp only [hphase] at h
      split at h
      · exact hexit .exited s.lock rfl rfl (Option.some.inj h)
      · exact hearly .goNoGo (some i) rfl (by rw [hphase]; rfl) (Option.some.inj h)
  | startSession =>
      simp only [hphase] at h
      split at h
      · cases h
        exact ⟨.waitSession, rfl, Or.inr rfl, rfl, fun hp => absurd hp (by decide),
          fun ho => absurd (hphase ▸ ho) (by decide), Or.inl rfl⟩
      · exact hexit .unlock s.lock rfl rfl (Option.some.inj h)
  | waitSession =>
      simp only [hphase] at h
      split at h
      · split at h
        · next hchild =>
          exact hmove .readSession s.lock (fun _ => Or.inr hchild) (fun ho => absurd (hphase ▸ ho) (by decide))
            (Option.some.inj h)
        · exact hexit .unlock s.lock rfl rfl (Option.some.inj h)
        · cases h
      · exact hexit .unlock s.lock rfl rfl (Option.some.inj h)
  | readSession =>
      simp only [hphase] at h
      exact hmove _ s.lock (fun _ => Or.inl (by rw [hphase]; rfl)) (fun ho => absurd (hphase ▸ ho) (by decide))
        (Option.some.inj h)
  | writeState =>
      simp only [hphase] at h
      exact hmove _ s.lock (fun _ => Or.inl (by rw [hphase]; rfl)) (fun ho => absurd (hphase ▸ ho) (by decide))
        (Option.some.inj h)
  | up =>
      simp only [hphase] at h
      cases h
      exact ⟨.applying, rfl, Or.inl rfl, rfl, fun hp => absurd hp (by decide), fun _ => rfl,
        Or.inr ⟨rfl, hphase, rfl⟩⟩
  | applying =>
      simp only [hphase] at h
      exact hexit .unlock s.lock rfl rfl (Option.some.inj h)
  | unlock =>
      simp only [hphase] at h
      exact hexit .exited _ rfl rfl (Option.some.inj h)
  | exited | crashed =>
      simp only [hphase] at h
      cases h

/-! ## Who may start the apply -/

/-- **The invariant**: whoever is past the link owns the receipt, a controller goes on only behind such a
child, and what started `aws-up` has the receipt and does not come back to it. -/
structure OneOwner (s : State I) : Prop where
  created : ∀ i, (s.child i).created = true → s.session.path = some i
  ready : ∀ i, (s.controller i).ready = true → s.session.path = some i
  ups : ∀ i ∈ s.ups, s.session.path = some i ∧ (s.controller i).over = true
  nodup : s.ups.Nodup

omit [DecidableEq I] in
theorem OneOwner.initial : OneOwner (initial : State I) where
  created i h := absurd (show false = true from h) (by decide)
  ready i h := absurd (show false = true from h) (by decide)
  ups i h := absurd h (by simp [LiveRun.initial])
  nodup := List.nodup_nil

theorem OneOwner.childStep (hs : OneOwner s) (h : childStep i ok s = some t) : OneOwner t := by
  obtain ⟨hcontroller, hups, c, hchild, hpath⟩ := childStep_cases h
  -- a receipt that exists stays as it is
  have hkeep : ∀ j, s.session.path = some j → t.session.path = some j := by
    intro j hj
    rcases hpath with ⟨hsame, _⟩ | ⟨hnone, _⟩
    · exact hsame.trans hj
    · exact absurd (hnone.symm.trans hj) (by simp)
  constructor
  · intro j hj
    rw [hchild] at hj
    by_cases hij : j = i
    · subst hij
      rw [Function.update_self] at hj
      rcases hpath with ⟨_, hcreated⟩ | ⟨_, hnew⟩
      · exact hkeep j (hs.created j (hcreated hj))
      · exact hnew
    · rw [Function.update_of_ne hij] at hj
      exact hkeep j (hs.created j hj)
  · intro j hj
    rw [hcontroller] at hj
    exact hkeep j (hs.ready j hj)
  · intro j hj
    rw [hups] at hj
    rw [hcontroller]
    exact ⟨hkeep j (hs.ups j hj).1, (hs.ups j hj).2⟩
  · rw [hups]
    exact hs.nodup

theorem OneOwner.advances (hs : OneOwner s) {p : Phase} (h : Advances i s t p) : OneOwner t := by
  obtain ⟨hsession, hchild, hcontroller, hready, hover, hups⟩ := h
  have hphase : ∀ j, j ≠ i → t.controller j = s.controller j := by
    intro j hj
    rw [hcontroller, Function.update_of_ne hj]
  have hself : t.controller i = p := by rw [hcontroller, Function.update_self]
  -- only `i` has moved, and past the file only if the file is its own
  constructor
  · intro j hj
    rw [hsession]
    rcases hchild with hchild | hchild
    · exact hs.created j (hchild ▸ hj)
    · by_cases hij : j = i
      · subst hij
        rw [hchild, Function.update_self] at hj
        exact absurd hj (by decide)
      · rw [hchild, Function.update_of_ne hij] at hj
        exact hs.created j hj
  · intro j hj
    rw [hsession]
    by_cases hij : j = i
    · subst hij
      rcases hready (hself ▸ hj) with hbefore | hexited
      · exact hs.ready j hbefore
      · exact hs.created j (by rw [hexited]; rfl)
    · exact hs.ready j (hphase j hij ▸ hj)
  · intro j hj
    rw [hsession]
    rcases hups with hsame | ⟨happend, hup, hp⟩
    · have hold := hs.ups j (hsame ▸ hj)
      refine ⟨hold.1, ?_⟩
      by_cases hij : j = i
      · subst hij
        rw [hself]
        exact hover hold.2
      · rw [hphase j hij]
        exact hold.2
    · rw [happend, List.mem_append, List.mem_singleton] at hj
      by_cases hij : j = i
      · subst hij
        rw [hself, hp]
        exact ⟨hs.ready j (by rw [hup]; rfl), rfl⟩
      · rw [hphase j hij]
        exact hs.ups j (hj.resolve_right hij)
  · rcases hups with hsame | ⟨happend, hup, _⟩
    · rw [hsame]
      exact hs.nodup
    · rw [happend]
      -- a controller that has run the apply once is past the phase in which it may
      apply List.nodup_append.mpr
      refine ⟨hs.nodup, List.nodup_singleton i, ?_⟩
      intro j hj k hk hjk
      have hki : k = i := List.mem_singleton.mp hk
      have hover := (hs.ups j hj).2
      rw [hjk, hki, hup] at hover
      exact absurd hover (by decide)

theorem OneOwner.step {m : Move I} (hs : OneOwner s) (h : step s m = some t) : OneOwner t := by
  cases m with
  | controller i ok =>
      obtain ⟨p, hp⟩ := controllerStep_cases h
      exact hs.advances hp
  | child i ok => exact hs.childStep h
  | crash i =>
      cases h
      exact hs.advances ⟨rfl, Or.inl rfl, rfl, fun hp => absurd hp (by decide), fun _ => rfl, Or.inl rfl⟩
  | kill i =>
      have hkilled : s.become i (.exited 137) = t → OneOwner t := by
        rintro rfl
        refine ⟨fun j hj => ?_, hs.ready, hs.ups, hs.nodup⟩
        by_cases hij : j = i
        · subst hij
          simp only [State.become, Function.update_self] at hj
          exact absurd hj (by decide)
        · simp only [State.become, Function.update_of_ne hij] at hj
          exact hs.created j hj
      simp only [LiveRun.step] at h
      split at h
      · cases h
      · cases h
      · exact hkilled (Option.some.inj h)

/-- **One paid apply per run id.**  Over the whole life of the run directory, however the controllers and
their children interleave, fail, crash or are killed, `aws-up` is started at most once. -/
theorem one_apply {s : State I} (hs : (controllers I).Reachable s) : s.ups.length ≤ 1 := by
  have hone : OneOwner s := by
    apply System.invariant _ _ hs
    · rintro s rfl
      exact OneOwner.initial
    · rintro s t _ hi ⟨m, hm⟩
      exact hi.step hm
  match hups : s.ups with
  | [] => exact Nat.zero_le 1
  | [_] => exact Nat.le_refl 1
  | i :: j :: rest =>
      -- two controllers would both have created the receipt
      have hi := (hone.ups i (by rw [hups]; simp)).1
      have hj := (hone.ups j (by rw [hups]; simp)).1
      have hij : i = j := Option.some.inj (hi.symm.trans hj)
      have hnodup := hone.nodup
      rw [hups, hij] at hnodup
      exact absurd hnodup (by simp)

/-- Controller 0 comes to the apply and stops for good there; controller 1 looked for the receipt before. -/
def overtaken : List (Move Nat) :=
  List.replicate 4 (.controller 1 true) ++ List.replicate 8 (.controller 0 true) ++
    List.replicate 15 (.child 0 true) ++ List.replicate 4 (.controller 0 true) ++ [.crash 0] ++
    List.replicate 2 (.controller 1 true)

theorem one_apply_overtaken : ∃ s, (controllers Nat).Reachable s ∧ s.ups = [0] ∧ s.controller 1 = .exited ∧
    s.ups.length ≤ 1 := by
  have hrun : ((System.play step initial overtaken).map fun s => (s.ups, s.controller 1)) = some ([0], .exited) := by
    decide
  obtain ⟨s, hs, hends⟩ := Option.map_eq_some_iff.mp hrun
  have hreach : (controllers Nat).Reachable s := ⟨initial, rfl, System.later_of_play hs⟩
  obtain ⟨hups, hexited⟩ := Prod.mk.inj hends
  exact ⟨s, hreach, hups, hexited, one_apply hreach⟩

end LocalPlatform.LiveRun
