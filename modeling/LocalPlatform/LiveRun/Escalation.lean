/-
# LocalPlatform.LiveRun.Escalation — stopping the apply, with its channels and timers.

`stopApply` selects among four channels: the apply's result, the timer of the last signal, the operator's
signals and the heartbeat.  Each signal arms a timer of its own; the timers of earlier signals stay where they
are and may fire later, but nobody reads them.  Any channel that is ready may be taken, and between two
selects the apply may end, timers fire and signals arrive.

The machine starts in `runApply`, which hands over to `stopApply` for three causes, always with SIGINT.
-/
import LocalPlatform.LiveRun.Controller
import LocalPlatform.Logic.Transition
import Mathlib.Data.List.Chain

namespace LocalPlatform.LiveRun.Escalation

open Codec Logic

/-! ## The parties -/

/-- The grace period of a signal, in nanoseconds. -/
def grace : Sig → Int
  | .interrupt => 30 * 1000000000
  | .terminate => 10 * 1000000000
  | .kill => 5 * 1000000000

/-- What `afterDelay` returned: whose grace period it is, how long, and whether it is over. -/
structure Timer where
  owner : Sig
  wait : Int
  fired : Bool
  deriving DecidableEq, Repr

/-- Why a signal was handed to the executor. -/
inductive Cause where
  /-- The first one. -/
  | stop
  /-- This timer was read. -/
  | expired (timer : Timer)
  /-- The operator's signal with this number was read. -/
  | operator (read : Nat)
  deriving DecidableEq, Repr

structure Step where
  signal : Sig
  cause : Cause
  deriving DecidableEq, Repr

/-- What `runApply` returns. -/
inductive Return where
  /-- The apply's own status and error. -/
  | own (outcome : ExecutionResult)
  /-- `errProcessExitUnconfirmed`, with the group the executor still has. -/
  | unconfirmed (group : Bytes)
  deriving DecidableEq, Repr

/-- The status and the error. -/
def Return.result : Return → ExecutionResult
  | .own outcome => outcome
  | .unconfirmed group =>
    ⟨124, some (ascii "process exit could not be confirmed: apply did not exit after SIGKILL" ++ group)⟩

inductive Phase where
  /-- In the loop of `runApply`. -/
  | applying
  /-- In the loop of `stopApply`, behind this signal. -/
  | stopping (current : Sig)
  | returned (r : Return)
  deriving DecidableEq, Repr

structure State where
  phase : Phase
  /-- The apply's result, which stays in its channel until it is read. -/
  result : Option ExecutionResult
  /-- How many of the operator's signals wait in their channel, and how many `stopApply` has read. -/
  pending : Nat
  reads : Nat
  /-- Every timer that was armed, and the one the variable `escalate` holds. -/
  timers : List Timer
  escalate : Nat
  /-- What was handed to the executor, in order. -/
  steps : List Step
  stopReason : Bytes
  deriving DecidableEq, Repr

/-- The apply was started. -/
def initial : State := ⟨.applying, none, 0, 0, [], 0, [], []⟩

namespace State

/-- `c.executor.Signal(signal)`, and the timer of its grace period. -/
def signal (s : State) (signal : Sig) (cause : Cause) : State :=
  { s with phase := .stopping signal, steps := s.steps ++ [⟨signal, cause⟩],
           timers := s.timers ++ [⟨signal, grace signal, false⟩], escalate := s.timers.length }

/-- **`stopApply` begins.** -/
def stop (s : State) (reason : Bytes) : State := { s with stopReason := reason }.signal .interrupt .stop

end State

/-! ## Moves -/

inductive Move where
  /-- `executor.Run` returns. -/
  | finish (outcome : ExecutionResult)
  /-- A signal of the operator arrives. -/
  | arrive
  /-- A timer fires, whichever. -/
  | fire (timer : Nat)
  /-- `runApply` finds the deadline reached. -/
  | deadline
  /-- The select takes the result. -/
  | takeResult
  /-- The select takes a signal; the reason is what `stopRequestReason` makes of it. -/
  | takeSignal (reason : Bytes)
  /-- The select takes the timer; `group` is what the executor says of its group. -/
  | takeTimer (group : Bytes)
  /-- The select takes the ticker, and the state is written or not. -/
  | tick (ok : Bool)
  deriving DecidableEq, Repr

/-- `case <-signalChannel` of `stopApply`. -/
def State.readSignal (s : State) (current : Sig) : State :=
  let s := { s with pending := s.pending - 1, reads := s.reads + 1 }
  match Controller.escalationAfter current with
  | some next => s.signal next (.operator (s.reads - 1))
  | none => s

/-- `case <-escalate` of `stopApply`; a result that has arrived goes first. -/
def State.readTimer (s : State) (timer : Timer) (current : Sig) (group : Bytes) : State :=
  match Controller.escalationAfter current with
  | some next => s.signal next (.expired timer)
  | none =>
    match s.result with
    | some outcome => { s with phase := .returned (.own outcome) }
    | none => { s with phase := .returned (.unconfirmed group) }

/-- **One step.** -/
def step (s : State) : Move → Option State
  | .finish outcome => if s.result = none then some { s with result := some outcome } else none
  | .arrive => some { s with pending := s.pending + 1 }
  | .fire i => some { s with timers := s.timers.modify i fun t => { t with fired := true } }
  | .deadline => match s.phase with
    | .applying => some (s.stop (ascii "destroy_deadline"))
    | _ => none
  | .takeResult => match s.phase, s.result with
    | .returned _, _ => none
    | _, none => none
    | _, some outcome => some { s with phase := .returned (.own outcome) }
  | .takeSignal reason =>
    if s.pending = 0 then none
    else match s.phase with
      | .applying => some ({ s with pending := s.pending - 1 }.stop reason)
      | .stopping current => some (s.readSignal current)
      | .returned _ => none
  | .takeTimer group => match s.phase, s.timers[s.escalate]? with
    | .stopping current, some timer => if timer.fired then some (s.readTimer timer current group) else none
    | _, _ => none
  | .tick ok => match s.phase with
    | .applying => some (if ok then s else s.stop (ascii "state_write_failed"))
    -- a heartbeat that cannot be written is only reported
    | .stopping _ => some s
    | .returned _ => none

/-- **`runApply`**, with everything around it. -/
def machine : System State := .ofMoves (· = initial) step

/-! ## Orderly escalation -/

/-- The order of the signals. -/
def ladder : List Sig := [.interrupt, .terminate, .kill]

/-- The timer of a signal, when its grace period is over. -/
def elapsed (signal : Sig) : Timer := ⟨signal, grace signal, true⟩

/-- **Every step after the first has its cause**: the end of the grace period of the step before it, or one signal
of the operator. -/
def Caused (steps : List Step) : Prop :=
  steps.IsChain fun prev next => next.cause = .expired (elapsed prev.signal) ∨ ∃ k, next.cause = .operator k

/-- The operator's signals that were acted on, by number. -/
def operators (steps : List Step) : List Nat :=
  steps.filterMap fun step => match step.cause with
    | .operator k => some k
    | _ => none

/-- **The escalation is an orderly prefix.** -/
structure Orderly (s : State) : Prop where
  ladder : s.steps.map Step.signal <+: ladder
  caused : Caused s.steps
  /-- One step for a signal that was read. -/
  once : (operators s.steps).Nodup ∧ ∀ k ∈ operators s.steps, k < s.reads
  /-- What is returned is the apply's own, or an exit that could not be confirmed. -/
  returned : ∀ r, s.phase = .returned r → (∃ outcome, s.result = some outcome ∧ r = .own outcome) ∨ ∃ group, r = .unconfirmed group

/-- **The exit is given up in time**: SIGKILL was sent, its grace period is over, and no result is there. -/
def GivesUp (s : State) : Prop :=
  .kill ∈ s.steps.map Step.signal ∧ s.timers[s.escalate]? = some (elapsed .kill) ∧ s.result = none

/-! ## What every step keeps -/

/-- The signals up to one. -/
def upTo : Sig → List Sig
  | .interrupt => [.interrupt]
  | .terminate => [.interrupt, .terminate]
  | .kill => [.interrupt, .terminate, .kill]

theorem upTo_prefix (c : Sig) : upTo c <+: ladder := by
  cases c with
  | interrupt => exact ⟨[.terminate, .kill], rfl⟩
  | terminate => exact ⟨[.kill], rfl⟩
  | kill => exact ⟨[], rfl⟩

theorem upTo_next {c next : Sig} (h : Controller.escalationAfter c = some next) : upTo next = upTo c ++ [next] := by
  cases c with
  | interrupt => cases h; rfl
  | terminate => cases h; rfl
  | kill => cases h

theorem eq_kill {c : Sig} (h : Controller.escalationAfter c = none) : c = .kill := by
  cases c with
  | interrupt => cases h
  | terminate => cases h
  | kill => rfl

/-- While `stopApply` runs: the signals so far are those up to the current one, which was the last, and `escalate` is
its timer. -/
structure At (s : State) (c : Sig) : Prop where
  signals : s.steps.map Step.signal = upTo c
  last : ∀ step ∈ s.steps.getLast?, step.signal = c
  timer : ∃ fired, s.timers[s.escalate]? = some ⟨c, grace c, fired⟩

structure Inv (s : State) : Prop extends Orderly s where
  applying : s.phase = .applying → s.steps = []
  stopping : ∀ c, s.phase = .stopping c → At s c

theorem inv_initial : Inv initial where
  ladder := List.nil_prefix
  caused := .nil
  once := ⟨.nil, nofun⟩
  returned := nofun
  applying := fun _ => rfl
  stopping := nofun

theorem operators_append (steps : List Step) (step : Step) :
    operators (steps ++ [step]) = operators steps ++ operators [step] := List.filterMap_append

/-- **A signal is sent**: the first, or the next with its cause. -/
theorem Inv.signal {s : State} (h : Inv s) {next : Sig} {cause : Cause}
    (hsignals : s.steps.map Step.signal ++ [next] = upTo next)
    (hcaused : ∀ prev ∈ s.steps.getLast?, cause = .expired (elapsed prev.signal) ∨ ∃ k, cause = .operator k)
    (hfresh : ∀ k, cause = .operator k → k ∉ operators s.steps ∧ k < s.reads) : Inv (s.signal next cause) := by
  have hmap : (s.steps ++ [(⟨next, cause⟩ : Step)]).map Step.signal = upTo next := by
    rw [List.map_append, ← hsignals]
    rfl
  refine ⟨⟨?_, ?_, ?_, nofun⟩, nofun, fun c hc => ?_⟩
  -- the signals so far are a front part of the ladder
  · show (s.steps ++ [(⟨next, cause⟩ : Step)]).map Step.signal <+: _
    rw [hmap]
    exact upTo_prefix next
  · show Caused (s.steps ++ [⟨next, cause⟩])
    refine h.caused.append (.singleton _) fun prev hprev step hstep => ?_
    obtain rfl : ⟨next, cause⟩ = step := by simpa using hstep
    exact hcaused prev hprev
  · show (operators (s.steps ++ [⟨next, cause⟩])).Nodup ∧ ∀ k ∈ operators (s.steps ++ [⟨next, cause⟩]), k < s.reads
    rw [operators_append]
    cases cause with
    | stop => simpa [operators] using h.once
    | expired timer => simpa [operators] using h.once
    | operator k =>
        obtain ⟨hnew, hlt⟩ := hfresh k rfl
        refine ⟨List.nodup_append.mpr ⟨h.once.1, List.nodup_singleton k, ?_⟩, fun j hj => ?_⟩
        · rintro a ha b hb rfl
          obtain rfl := List.mem_singleton.mp hb
          exact hnew ha
        · rcases List.mem_append.mp hj with hj | hj
          · exact h.once.2 j hj
          · exact List.mem_singleton.mp hj ▸ hlt
  -- the timer that now counts is the new one, and it has not fired
  · obtain rfl : next = c := by injection hc
    refine ⟨hmap, fun step hstep => ?_, false, ?_⟩
    · obtain rfl : ⟨next, cause⟩ = step := by simpa [State.signal] using hstep
      rfl
    · simp [State.signal]

/-- `stopApply` begins with SIGINT. -/
theorem Inv.stop {s : State} (h : Inv s) (hphase : s.phase = .applying) (reason : Bytes) : Inv (s.stop reason) := by
  have hnil := h.applying hphase
  have hreason : Inv { s with stopReason := reason } :=
    { h with stopping := fun c hc => ⟨(h.stopping c hc).1, (h.stopping c hc).2, (h.stopping c hc).3⟩ }
  refine hreason.signal ?_ (fun prev hprev => ?_) nofun
  · show s.steps.map Step.signal ++ _ = _
    rw [hnil]
    rfl
  · have hprev : prev ∈ s.steps.getLast? := hprev
    rw [hnil] at hprev
    cases hprev

theorem Inv.readSignal {s : State} (h : Inv s) {current : Sig} (hphase : s.phase = .stopping current) :
    Inv (s.readSignal current) := by
  have hat := h.stopping current hphase
  have hread : Inv { s with pending := s.pending - 1, reads := s.reads + 1 } :=
    { h with once := ⟨h.once.1, fun k hk => Nat.lt_succ_of_lt (h.once.2 k hk)⟩
             stopping := fun c hc => ⟨(h.stopping c hc).1, (h.stopping c hc).2, (h.stopping c hc).3⟩ }
  unfold State.readSignal
  simp only
  cases hnext : Controller.escalationAfter current with
  | none => exact hread
  | some next =>
      refine hread.signal ?_ (fun _ _ => Or.inr ⟨_, rfl⟩) fun k hk => ?_
      · rw [upTo_next hnext, ← hat.signals]
      · -- the number of this signal is above all before it
        obtain rfl : s.reads = k := by injection hk
        exact ⟨fun hmem => absurd (h.once.2 _ hmem) (Nat.lt_irrefl _), Nat.lt_succ_self _⟩

/-- The timer that is read has fired, and it is that of the current signal. -/
theorem At.over {s : State} {current : Sig} (h : At s current) {timer : Timer} (htimer : s.timers[s.escalate]? = some timer)
    (hfired : timer.fired = true) : timer = elapsed current := by
  obtain ⟨fired, heq⟩ := h.timer
  obtain rfl := Option.some.inj (htimer.symm.trans heq)
  obtain rfl : fired = true := hfired
  rfl

theorem Inv.readTimer {s : State} (h : Inv s) {current : Sig} (hphase : s.phase = .stopping current) {timer : Timer}
    (htimer : s.timers[s.escalate]? = some timer) (hfired : timer.fired = true) (group : Bytes) :
    Inv (s.readTimer timer current group) := by
  have hat := h.stopping current hphase
  unfold State.readTimer
  cases hnext : Controller.escalationAfter current with
  | some next =>
      refine h.signal ?_ (fun prev hprev => Or.inl ?_) nofun
      · rw [upTo_next hnext, ← hat.signals]
      · rw [hat.last prev hprev, hat.over htimer hfired]
  | none =>
      simp only
      cases hresult : s.result with
      | some outcome =>
          refine { h with returned := fun r hr => Or.inl ⟨outcome, rfl, ?_⟩, applying := nofun, stopping := nofun }
          injection hr with hr
          exact hr.symm
      | none =>
          refine { h with returned := fun r hr => Or.inr ⟨group, ?_⟩, applying := nofun, stopping := nofun }
          injection hr with hr
          exact hr.symm

/-- **Every step keeps the invariant.** -/
theorem Inv.step {s s' : State} (h : Inv s) {move : Move} (hstep : step s move = some s') : Inv s' := by
  cases move with
  | finish outcome =>
      obtain ⟨hnone, heq⟩ := Option.ite_none_right_eq_some.mp hstep
      obtain rfl := Option.some.inj heq
      refine { h with returned := fun r hr => ?_, stopping := fun c hc => ⟨(h.stopping c hc).1, (h.stopping c hc).2, (h.stopping c hc).3⟩ }
      rcases h.returned r hr with ⟨old, hold, _⟩ | hgroup
      · exact absurd (hnone.symm.trans hold) nofun
      · exact Or.inr hgroup
  | arrive =>
      obtain rfl := Option.some.inj hstep
      exact { h with stopping := fun c hc => ⟨(h.stopping c hc).1, (h.stopping c hc).2, (h.stopping c hc).3⟩ }
  | fire i =>
      obtain rfl := Option.some.inj hstep
      refine { h with stopping := fun c hc => ⟨(h.stopping c hc).1, (h.stopping c hc).2, ?_⟩ }
      -- the timer of the last signal stays what it was started as
      obtain ⟨fired, htimer⟩ := (h.stopping c hc).timer
      show ∃ fired, (s.timers.modify i _)[s.escalate]? = some ⟨c, grace c, fired⟩
      rw [List.getElem?_modify, htimer]
      by_cases hi : i = s.escalate
      · exact ⟨true, by simp [hi]⟩
      · exact ⟨fired, by simp [hi]⟩
  | deadline =>
      simp only [Escalation.step] at hstep
      split at hstep
      · next hphase => exact Option.some.inj hstep ▸ h.stop hphase _
      · cases hstep
  | takeResult =>
      simp only [Escalation.step] at hstep
      split at hstep
      · cases hstep
      · cases hstep
      · next outcome hresult _ =>
        obtain rfl := Option.some.inj hstep
        refine { h with returned := fun r hr => Or.inl ⟨outcome, hresult, ?_⟩, applying := nofun, stopping := nofun }
        injection hr with hr
        exact hr.symm
  | takeSignal reason =>
      obtain ⟨_, heq⟩ := Option.ite_none_left_eq_some.mp hstep
      split at heq
      · next hphase =>
        -- the signal is off the channel before the stop begins
        have hread : Inv { s with pending := s.pending - 1 } :=
          { h with stopping := fun c hc => ⟨(h.stopping c hc).1, (h.stopping c hc).2, (h.stopping c hc).3⟩ }
        exact Option.some.inj heq ▸ hread.stop hphase reason
      · next hphase => exact Option.some.inj heq ▸ h.readSignal hphase
      · cases heq
  | takeTimer group =>
      simp only [Escalation.step] at hstep
      split at hstep
      · next hphase htimer =>
        obtain ⟨hfired, heq⟩ := Option.ite_none_right_eq_some.mp hstep
        exact Option.some.inj heq ▸ h.readTimer hphase htimer hfired group
      · cases hstep
  | tick ok =>
      simp only [Escalation.step] at hstep
      split at hstep
      · next hphase =>
        obtain rfl := Option.some.inj hstep
        split
        · exact h
        · exact h.stop hphase _
      · exact Option.some.inj hstep ▸ h
      · cases hstep

theorem inv_of_reachable {s : State} (hs : machine.Reachable s) : Inv s := by
  refine System.invariant (fun s₀ h₀ => ?_) (fun u v _ h hstep => ?_) hs
  · obtain rfl : s₀ = initial := h₀
    exact inv_initial
  · obtain ⟨move, hmove⟩ := hstep
    exact h.step hmove

/-! ## Giving up -/

/-- A state that goes on as it was returned. -/
theorem phase_signal (s : State) (next : Sig) (cause : Cause) (r : Return) : (s.signal next cause).phase ≠ .returned r :=
  nofun

/-- Only the timer behind the last signal gives up. -/
theorem givesUp_of_step {s s' : State} (h : Inv s) {move : Move} (hstep : step s move = some s') {group : Bytes}
    (hgroup : s'.phase = .returned (.unconfirmed group)) (hrunning : s.phase ≠ s'.phase) : GivesUp s := by
  -- only the timer behind the last signal gives up; the other moves go on or hand on a result
  cases move with
  | finish outcome =>
      obtain ⟨_, heq⟩ := Option.ite_none_right_eq_some.mp hstep
      exact absurd (Option.some.inj heq ▸ rfl) hrunning
  | arrive => exact absurd (Option.some.inj hstep ▸ rfl) hrunning
  | fire i => exact absurd (Option.some.inj hstep ▸ rfl) hrunning
  | deadline =>
      simp only [step] at hstep
      split at hstep
      · exact absurd (Option.some.inj hstep ▸ hgroup) (phase_signal _ _ _ _)
      · cases hstep
  | takeResult =>
      simp only [step] at hstep
      split at hstep
      · cases hstep
      · cases hstep
      · obtain rfl := Option.some.inj hstep
        injection hgroup with hgroup
        cases hgroup
  | takeSignal reason =>
      obtain ⟨_, heq⟩ := Option.ite_none_left_eq_some.mp hstep
      split at heq
      · exact absurd (Option.some.inj heq ▸ hgroup) (phase_signal _ _ _ _)
      · next current hphase =>
        obtain rfl := Option.some.inj heq
        unfold State.readSignal at hgroup hrunning
        simp only at hgroup hrunning
        split at hgroup
        · exact absurd hgroup (phase_signal _ _ _ _)
        · exact absurd (hphase.symm.trans hgroup) nofun
      · cases heq
  | takeTimer group' =>
      simp only [step] at hstep
      split at hstep
      · next current timer hphase htimer =>
        obtain ⟨hfired, heq⟩ := Option.ite_none_right_eq_some.mp hstep
        obtain rfl := Option.some.inj heq
        have hat := h.stopping current hphase
        unfold State.readTimer at hgroup
        cases hnext : Controller.escalationAfter current with
        | some next =>
            rw [hnext] at hgroup
            exact absurd hgroup (phase_signal _ _ _ _)
        | none =>
            rw [hnext] at hgroup
            -- no signal comes after SIGKILL, and it is the timer of SIGKILL that fired
            obtain rfl := eq_kill hnext
            refine ⟨?_, ?_, ?_⟩
            · rw [hat.signals]
              exact List.mem_cons_of_mem _ (List.mem_cons_of_mem _ (List.mem_cons_self ..))
            · rw [htimer, hat.over htimer hfired]
            · simp only at hgroup
              split at hgroup
              · injection hgroup with hgroup
                cases hgroup
              · assumption
      · cases hstep
  | tick ok =>
      simp only [step] at hstep
      split at hstep
      · obtain rfl := Option.some.inj hstep
        split at hrunning
        · exact absurd rfl hrunning
        · next hok =>
          rw [if_neg hok] at hgroup
          exact absurd hgroup (phase_signal _ _ _ _)
      · exact absurd (Option.some.inj hstep ▸ rfl) hrunning
      · cases hstep

/-- **Stopping the apply is orderly at every moment of every run**, and the exit is given up only in time. -/
theorem orderly_of_reachable {s : State} (hs : machine.Reachable s) : Orderly s ∧
    ∀ s' group, machine.step s s' → s'.phase = .returned (.unconfirmed group) → s.phase ≠ s'.phase → GivesUp s := by
  have h := inv_of_reachable hs
  refine ⟨h.toOrderly, fun s' group hstep hgroup hrunning => ?_⟩
  obtain ⟨move, hmove⟩ := hstep
  exact givesUp_of_step h hmove hgroup hrunning

/-- A run: the operator stops the apply and signals once more; the timer of the first signal fires late and is not
read; the two after it are. -/
def stubborn : List Move :=
  [.arrive, .arrive, .takeSignal (ascii "interrupt"), .takeSignal (ascii "interrupt"), .fire 0, .fire 1,
   .takeTimer [], .tick false, .fire 2, .takeTimer (ascii " (process group 7)")]

theorem orderly_of_reachable_stubborn : ∃ s, System.play step initial stubborn = some s ∧
    s.phase = .returned (.unconfirmed (ascii " (process group 7)")) ∧ Orderly s := by
  obtain ⟨s, hplay, hphase⟩ : ∃ s, System.play step initial stubborn = some s ∧
      s.phase = .returned (.unconfirmed (ascii " (process group 7)")) := ⟨_, rfl, rfl⟩
  exact ⟨s, hplay, hphase, (orderly_of_reachable ⟨initial, rfl, System.later_of_play hplay⟩).1⟩

/-! ## The machine and the program

The controller's own `stopApply` asks for the next case of its select and knows nothing of timers.  What the
machine does it does as well: the same signals, the same result. -/

/-- What `stopApply` does with one case of its select. -/
def respond (x : Controller × Sig) : Stopping → Live ((Controller × Sig) ⊕ (Controller × ExecutionResult))
  | .result outcome => pure (.inr (x.1, outcome))
  | .escalate =>
    if (Controller.escalationAfter x.2).isSome then Controller.escalate x.1 x.2
    else do
      match ← ask .ready with
      | some outcome => pure (.inr (x.1, outcome))
      | none =>
        let group ← ask .activeGroup
        pure (.inr (x.1, ⟨124, some (ascii "process exit could not be confirmed: apply did not exit after SIGKILL" ++ group)⟩))
  | .signal => Controller.escalate x.1 x.2
  | .tick => do
    let (c, _) ← x.1.updateState .applying
    pure (.inl (c, x.2))

/-- One round of it. -/
def round (x : Controller × Sig) : Live ((Controller × Sig) ⊕ (Controller × ExecutionResult)) := do
  let what ← ask .stopping
  respond x what

theorem stopApply_eq (c : Controller) (first : Sig) :
    c.stopApply first = (do ask (.signal first); .forever round (c, first)) := rfl

/-- The signals handed to the executor in a run. -/
def signals (es : List (Logic.Event Ask.Answer)) : List Sig :=
  es.filterMap fun e => match e.ask with
    | .signal s => some s
    | _ => none

section Runs

variable {α : Type}

theorem reaches_ask {q : Ask} {k : q.Answer → Live α} (r : q.Answer) {es : List (Logic.Event Ask.Answer)} {p : Live α}
    (h : Prog.Reaches (k r) es p) : Prog.Reaches (.ask q k) (⟨q, r⟩ :: es) p := .step (.ask r) h

/-- A round begins with the select. -/
theorem reaches_round {x : Controller × Sig} (what : Stopping) {es : List (Logic.Event Ask.Answer)}
    {p : Live (Controller × ExecutionResult)} (h : Prog.Reaches ((respond x what).bind (Prog.rest round .pure)) es p) :
    Prog.Reaches (.forever round x) (⟨.stopping, what⟩ :: es) p := by
  have hunroll : Prog.unroll round x .pure =
      .ask .stopping fun what => (respond x what).bind (Prog.rest (A := Ask.Answer) round .pure) := rfl
  refine .step (.loop ?_) h
  rw [hunroll]
  exact @Prog.Answers.ask Ask Ask.Answer _ .stopping _ what

end Runs

/-- A round that ends with a signal sent. -/
theorem reaches_signal {c : Controller} {current next : Sig} (hnext : Controller.escalationAfter current = some next)
    {what : Stopping} (hwhat : what = .escalate ∨ what = .signal) :
    Prog.Reaches (.forever round (c, current)) [⟨.stopping, what⟩, ⟨.signal next, ()⟩] (.forever round (c, next)) := by
  apply reaches_round what
  have hrespond : respond (c, current) what = Controller.escalate c current := by
    rcases hwhat with rfl | rfl
    · show (if (Controller.escalationAfter current).isSome then _ else _) = _
      rw [hnext]
      rfl
    · rfl
  rw [hrespond, Controller.escalate, hnext]
  exact @reaches_ask _ (.signal next) _ () _ _ (.refl _)

/-- Where the program stands when the machine is in a phase. -/
def Stands (c : Controller) : Phase → Live (Controller × ExecutionResult) → Prop
  | .applying, _ => False
  | .stopping current, p => p = .forever round (c, current)
  | .returned r, p => p = .pure (c, r.result)

/-- One step of the machine in `stopApply` is a piece of a run of the program, with the same signals. -/
theorem stands_of_step {c : Controller} {s s' : State} {move : Move} (hstep : step s move = some s')
    {current : Sig} (hphase : s.phase = .stopping current) :
    ∃ es c' p, Prog.Reaches (.forever round (c, current)) es p ∧ Stands c' s'.phase p ∧
      s'.steps.map Step.signal = s.steps.map Step.signal ++ signals es := by
  -- steps beside the select leave the program where it is
  have hstay : s'.phase = s.phase → s'.steps = s.steps → ∃ es c' p, Prog.Reaches (.forever round (c, current)) es p ∧
      Stands c' s'.phase p ∧ s'.steps.map Step.signal = s.steps.map Step.signal ++ signals es := by
    intro hsame hsteps
    refine ⟨[], c, .forever round (c, current), .refl _, ?_, by rw [hsteps]; simp [signals]⟩
    rw [hsame, hphase]
    rfl
  have hsend : ∀ (u : State) next cause what, u.steps = s.steps → Controller.escalationAfter current = some next →
      what = Stopping.escalate ∨ what = .signal → s' = u.signal next cause →
      ∃ es c' p, Prog.Reaches (.forever round (c, current)) es p ∧ Stands c' s'.phase p ∧
        s'.steps.map Step.signal = s.steps.map Step.signal ++ signals es := by
    rintro u next cause what hsteps hnext hwhat rfl
    refine ⟨_, c, _, reaches_signal hnext hwhat, rfl, ?_⟩
    show (u.steps ++ _).map Step.signal = _
    rw [hsteps, List.map_append]
    rfl
  cases move with
  | finish outcome =>
      obtain ⟨_, heq⟩ := Option.ite_none_right_eq_some.mp hstep
      obtain rfl := Option.some.inj heq
      exact hstay rfl rfl
  | arrive =>
      obtain rfl := Option.some.inj hstep
      exact hstay rfl rfl
  | fire i =>
      obtain rfl := Option.some.inj hstep
      exact hstay rfl rfl
  | deadline =>
      simp only [step, hphase] at hstep
      cases hstep
  | takeResult =>
      simp only [step, hphase] at hstep
      split at hstep
      · cases hstep
      · cases hstep
      · next outcome _ _ =>
        obtain rfl := Option.some.inj hstep
        refine ⟨_, c, _, reaches_round (.result outcome) (.refl _), rfl, ?_⟩
        simp [signals]
  | takeSignal reason =>
      obtain ⟨_, heq⟩ := Option.ite_none_left_eq_some.mp hstep
      simp only [hphase] at heq
      obtain rfl := Option.some.inj heq
      cases hnext : Controller.escalationAfter current with
      | some next =>
          refine hsend { s with pending := s.pending - 1, reads := s.reads + 1 } next (.operator s.reads) .signal rfl hnext
            (Or.inr rfl) ?_
          simp only [State.readSignal, hnext]
          rfl
      | none =>
          -- behind SIGKILL a signal is read and nothing is done
          have hread : s.readSignal current = { s with pending := s.pending - 1, reads := s.reads + 1 } := by
            simp only [State.readSignal, hnext]
          rw [hread]
          refine ⟨[⟨.stopping, Stopping.signal⟩], c, .forever round (c, current), reaches_round .signal ?_, ?_,
            by simp [signals]⟩
          · show Prog.Reaches ((Controller.escalate c current).bind _) [] _
            rw [Controller.escalate, hnext]
            exact .refl _
          · show Stands c s.phase _
            rw [hphase]
            rfl
  | takeTimer group =>
      simp only [step, hphase] at hstep
      split at hstep
      · next current' timer hphase' htimer =>
        obtain ⟨_, heq⟩ := Option.ite_none_right_eq_some.mp hstep
        obtain rfl := Option.some.inj heq
        obtain rfl : current = current' := by injection hphase'
        cases hnext : Controller.escalationAfter current with
        | some next =>
            refine hsend s next (.expired timer) .escalate rfl hnext (Or.inl rfl) ?_
            simp only [State.readTimer, hnext]
        | none =>
            have hrespond : respond (c, current) .escalate = (do
                match ← ask .ready with
                | some outcome => pure (.inr (c, outcome))
                | none =>
                  let group ← ask .activeGroup
                  pure (.inr (c, (Return.unconfirmed group).result))) := by
              show (if (Controller.escalationAfter current).isSome then _ else _) = _
              rw [hnext]
              rfl
            cases hresult : s.result with
            | some outcome =>
                have hread : s.readTimer timer current group = { s with phase := .returned (.own outcome) } := by
                  simp only [State.readTimer, hnext, hresult]
                rw [hread]
                refine ⟨[⟨.stopping, Stopping.escalate⟩, ⟨.ready, some outcome⟩], c, .pure (c, outcome),
                  reaches_round .escalate ?_, rfl, by simp [signals]⟩
                rw [hrespond]
                exact @reaches_ask _ .ready _ (some outcome) _ _ (.refl _)
            | none =>
                have hread : s.readTimer timer current group = { s with phase := .returned (.unconfirmed group) } := by
                  simp only [State.readTimer, hnext, hresult]
                rw [hread]
                refine ⟨[⟨.stopping, Stopping.escalate⟩, ⟨.ready, none⟩, ⟨.activeGroup, group⟩], c,
                  .pure (c, (Return.unconfirmed group).result), reaches_round .escalate ?_, rfl, by simp [signals]⟩
                rw [hrespond]
                exact @reaches_ask _ .ready _ none _ _ (@reaches_ask _ .activeGroup _ group _ _ (.refl _))
      · cases hstep
  | tick ok =>
      simp only [step, hphase] at hstep
      obtain rfl := Option.some.inj hstep
      refine ⟨[⟨.stopping, Stopping.tick⟩, ⟨.now, Time.ofUnix 0⟩, ⟨.write (c.stamp .applying (Time.ofUnix 0)).state, none⟩],
        c.stamp .applying (Time.ofUnix 0), .forever round (c.stamp .applying (Time.ofUnix 0), current), reaches_round .tick ?_, ?_,
        by simp [signals]⟩
      · exact @reaches_ask _ .now _ (Time.ofUnix 0) _ _ (@reaches_ask _ (.write _) _ none _ _ (.refl _))
      · rw [hphase]
        rfl

theorem signals_append (es es' : List (Logic.Event Ask.Answer)) : signals (es ++ es') = signals es ++ signals es' :=
  List.filterMap_append

theorem reaches_trans {p p' p'' : Live (Controller × ExecutionResult)} {es es' : List (Logic.Event Ask.Answer)}
    (h : Prog.Reaches p es p') (h' : Prog.Reaches p' es' p'') : Prog.Reaches p (es ++ es') p'' := by
  induction h with
  | refl p => exact h'
  | step he _ ih => exact .step he (ih h')

/-- A step of `runApply`: it stops the apply, sends nothing, or is over. -/
theorem begins_of_step {s s' : State} {move : Move} (hstep : step s move = some s') (hphase : s.phase = .applying) :
    s'.steps = s.steps ∨ (s'.phase = .stopping .interrupt ∧ s'.steps = s.steps ++ [⟨.interrupt, .stop⟩]) := by
  -- only the deadline, a signal and a failed save begin the stop
  cases move with
  | finish outcome =>
      obtain ⟨_, heq⟩ := Option.ite_none_right_eq_some.mp hstep
      exact Option.some.inj heq ▸ Or.inl rfl
  | arrive => exact Option.some.inj hstep ▸ Or.inl rfl
  | fire i => exact Option.some.inj hstep ▸ Or.inl rfl
  | deadline =>
      simp only [step, hphase] at hstep
      exact Option.some.inj hstep ▸ Or.inr ⟨rfl, rfl⟩
  | takeResult =>
      simp only [step, hphase] at hstep
      split at hstep
      · cases hstep
      · cases hstep
      · exact Option.some.inj hstep ▸ Or.inl rfl
  | takeSignal reason =>
      obtain ⟨_, heq⟩ := Option.ite_none_left_eq_some.mp hstep
      simp only [hphase] at heq
      exact Option.some.inj heq ▸ Or.inr ⟨rfl, rfl⟩
  | takeTimer group => simp only [step, hphase] at hstep; cases hstep
  | tick ok =>
      simp only [step, hphase] at hstep
      obtain rfl := Option.some.inj hstep
      split
      · exact Or.inl rfl
      · exact Or.inr ⟨rfl, rfl⟩

/-- What has returned stays where it is. -/
theorem stays_of_step {s s' : State} {move : Move} (hstep : step s move = some s') {r : Return}
    (hphase : s.phase = .returned r) : s'.phase = s.phase ∧ s'.steps = s.steps := by
  cases move with
  | finish outcome =>
      obtain ⟨_, heq⟩ := Option.ite_none_right_eq_some.mp hstep
      exact Option.some.inj heq ▸ ⟨rfl, rfl⟩
  | arrive => exact Option.some.inj hstep ▸ ⟨rfl, rfl⟩
  | fire i => exact Option.some.inj hstep ▸ ⟨rfl, rfl⟩
  | takeSignal reason =>
      obtain ⟨_, heq⟩ := Option.ite_none_left_eq_some.mp hstep
      simp only [hphase] at heq
      cases heq
  | deadline | takeResult | takeTimer group | tick ok => simp only [step, hphase] at hstep; cases hstep

/-- **What the machine does the program does**: in every reachable state behind the first signal the controller's
`stopApply` has a run with the same signals to the same place, and with the same result if it is over. -/
theorem stopApply_follows (c : Controller) {s : State} (hs : machine.Reachable s) (hsteps : s.steps ≠ []) :
    ∃ es c' p, Prog.Reaches (c.stopApply .interrupt) es p ∧ Stands c' s.phase p ∧ signals es = s.steps.map Step.signal := by
  revert hsteps
  refine System.invariant (I := fun s => s.steps ≠ [] → ∃ es c' p, Prog.Reaches (c.stopApply .interrupt) es p ∧
    Stands c' s.phase p ∧ signals es = s.steps.map Step.signal) (fun s₀ h₀ hne => ?_) (fun u v hu ih hstep hne => ?_) hs
  · obtain rfl : s₀ = initial := h₀
    exact absurd rfl hne
  · obtain ⟨move, hmove⟩ := hstep
    have hinv := inv_of_reachable hu
    cases hphase : u.phase with
    | applying =>
        -- the first signal is the one `stopApply` sends before its loop
        rcases begins_of_step hmove hphase with hsame | ⟨hstopping, hfirst⟩
        · exact absurd (hsame.trans (hinv.applying hphase)) hne
        · refine ⟨[⟨.signal .interrupt, ()⟩], c, .forever round (c, .interrupt), ?_, ?_, ?_⟩
          · rw [stopApply_eq]
            exact @reaches_ask _ (.signal .interrupt) _ () _ _ (.refl _)
          · rw [hstopping]
            rfl
          · rw [hfirst, hinv.applying hphase]
            rfl
    | stopping current =>
        -- a step of the machine is a round of the loop
        have hold : u.steps ≠ [] := by
          intro hnil
          have hsignals := (hinv.stopping current hphase).signals
          rw [hnil] at hsignals
          cases current <;> cases hsignals
        obtain ⟨es, c', p, hrun, hstands, hsent⟩ := ih hold
        obtain rfl : p = .forever round (c', current) := by rwa [hphase] at hstands
        obtain ⟨es', c'', p', hrun', hstands', hsent'⟩ := stands_of_step (c := c') hmove hphase
        exact ⟨es ++ es', c'', p', reaches_trans hrun hrun', hstands', by rw [signals_append, hsent, hsent']⟩
    | returned r =>
        obtain ⟨hsame, hsteps⟩ := stays_of_step hmove hphase
        rw [hsame, hsteps]
        exact ih (hsteps ▸ hne)

end LocalPlatform.LiveRun.Escalation
