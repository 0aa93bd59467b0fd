/-
# LocalPlatform.LiveRun.Stop — stop commands against one controller.

A stop command reads the controller's state, looks for an earlier request, renames its own into place and,
if the state it read said that the apply is running, wakes the controller with a signal.  The controller
takes the request while it applies (when a signal wakes it) or while it is live (when it polls the file).
The commands and the controller run one file or signal operation at a time, in any interleaving.

Three operations lose the connection between an accepted request and the recorded reason: a rename over
another command's request, a wake-up that arrives when the controller is live already, and one behind which the
request cannot be read.  Without these (`undisturbed`) the first accepted request is the only one and its reason
is the one recorded.
-/
import LocalPlatform.Codec.Utf8
import LocalPlatform.Logic.Transition
import Mathlib.Logic.Function.Basic

namespace LocalPlatform.LiveRun

open Codec Logic

/-! ## Reasons -/

def isLower (c : UInt8) : Bool := 0x61 ≤ c && c ≤ 0x7a

/-- `stopReasonPattern`: a letter and at most 63 letters, digits and underscores. -/
def isStopReason : Bytes → Bool
  | [] => false
  | c :: cs => isLower c && cs.all (fun d => isLower d || isDigit d || d == 0x5f) && decide (cs.length ≤ 63)

/-- The reason a stop command asks for: trimmed, a default when there is nothing, and checked. -/
def requested (reason : Bytes) : Option Bytes :=
  let reason := if trimSpace reason = [] then ascii "operator_stop" else trimSpace reason
  if isStopReason reason then some reason else none

namespace Stop

/-! ## The parties -/

/-- The `phase` of `controller-state.json`, as far as a stop command looks at it. -/
inductive Recorded where
  | applying
  | live
  | ended
  deriving DecidableEq, Repr

/-- The controller's state file. -/
structure StateFile where
  phase : Recorded
  stopReason : Option Bytes
  deriving DecidableEq, Repr

/-- **`requestStop`**; what the state file said is kept from its first operation on. -/
inductive Command where
  | start
  | stat (phase : Recorded)
  | create (phase : Recorded)
  | rename (phase : Recorded)
  | chmod (phase : Recorded)
  | wake (phase : Recorded)
  | success
  | failed
  deriving DecidableEq, Repr

/-- The operations of `controller.run` from the apply on. -/
inductive Mode where
  | applying
  | stopping
  | applied
  | live
  | cleanup
  deriving DecidableEq, Repr

/-- What made the controller stop. -/
inductive Cause where
  | deadline
  | operator
  | request
  | applyFailed
  | stateWriteFailed
  | controllerError
  | unconfirmed
  deriving DecidableEq, Repr

inductive SignalName where
  | interrupt
  | terminated
  deriving DecidableEq, Repr

/-- `os.Signal.String`. -/
def SignalName.string : SignalName → Bytes
  | .interrupt => ascii "interrupt"
  | .terminated => ascii "terminated"

/-- A signal in the controller's channel, and the stop command that sent it, if one did. -/
structure Signal (I : Type) where
  name : SignalName
  sender : Option I

/-- The run directory, the controller and every stop command. -/
structure State (I : Type) where
  file : StateFile
  /-- `stop-request.json`: its reason, and the command whose rename put it there. -/
  request : Option (I × Bytes)
  mode : Mode
  stopReason : Option (Cause × Bytes)
  pending : List (Signal I)
  command : I → Command

variable {I : Type} [DecidableEq I]

namespace State

def become (s : State I) (i : I) (c : Command) : State I := { s with command := Function.update s.command i c }

/-- A signal reaches the controller's channel, which holds two. -/
def deliver (s : State I) (signal : Signal I) : State I :=
  if s.pending.length < 2 then { s with pending := s.pending ++ [signal] } else s

/-- The controller stops for a reason. -/
def stopFor (s : State I) (mode : Mode) (cause : Cause) (reason : Bytes) : State I :=
  { s with mode := mode, stopReason := some (cause, reason) }

/-- The controller goes into the cleanup, for this reason unless it has one. -/
def cleanUp (s : State I) (cause : Cause) (reason : Bytes) : State I :=
  { s with mode := .cleanup, stopReason := some (s.stopReason.getD (cause, reason)) }

/-- **`stopRequestReason`**; the file that is there may be one that cannot be read. -/
def stopRequestReason (s : State I) (readable : Bool) (fallback : Bytes) : Bytes :=
  match s.request with
  | some (_, reason) => if readable = false ∨ isBlank reason then fallback else reason
  | none => fallback

end State

/-! ## One operation -/

/-- One operation of the stop command `i`, which was given a reason; `ok` is false where the operation
fails for a cause outside the model: a heartbeat that is not fresh, a file-system error. -/
def commandStep (given : I → Bytes) (i : I) (ok : Bool) (s : State I) : Option (State I) :=
  match s.command i with
  | .start =>
    if (requested (given i)).isNone || s.file.phase == .ended || !ok then some (s.become i .failed)
    else some (s.become i (.stat s.file.phase))
  | .stat phase => some (s.become i (if s.request.isSome || !ok then .failed else .create phase))
  | .create phase => some (s.become i (if ok then .rename phase else .failed))
  | .rename phase =>
    match requested (given i) with
    | none => none
    | some reason =>
      if ok then some ({ s with request := some (i, reason) }.become i (.chmod phase)) else some (s.become i .failed)
  | .chmod phase => some (s.become i (if ok then .wake phase else .failed))
  | .wake phase =>
    if phase = .applying ∧ ok then some ((s.deliver ⟨.terminated, some i⟩).become i .success)
    else some (s.become i .success)
  | .success => none
  | .failed => none

/-- What can happen next. -/
inductive Move (I : Type) where
  | command (i : I) (ok : Bool)
  | operator (name : SignalName)
  | deadline
  | result (zero : Bool)
  | unconfirmed
  | signal (readable : Bool)
  | poll (readable ok : Bool)
  | save (ok : Bool)

/-- The controller takes the first signal of its channel. -/
def takeSignal (s : State I) (readable : Bool) (signal : Signal I) (rest : List (Signal I)) : Option (State I) :=
  let s := { s with pending := rest }
  let cause := if signal.sender.isSome then .request else .operator
  match s.mode with
  | .applying => some (s.stopFor .stopping cause (s.stopRequestReason readable signal.name.string))
  | .stopping => some s
  | .live => some (s.stopFor .cleanup cause signal.name.string)
  | _ => none

/-- The controller's ticker; `stop-request.json` is read in the live phase only. -/
def poll (s : State I) (readable ok : Bool) : Option (State I) :=
  match s.mode with
  | .applying =>
    if ok then some { s with file := ⟨.applying, none⟩ }
    else some (s.stopFor .stopping .stateWriteFailed (ascii "state_write_failed"))
  | .stopping => some (if ok then { s with file := ⟨.applying, none⟩ } else s)
  | .live =>
    if readable = false then some (s.stopFor .cleanup .controllerError (ascii "controller_error"))
    else match s.request with
    | some (_, reason) =>
      some (s.stopFor .cleanup .request (if reason = [] then ascii "operator_stop" else reason))
    | none =>
      if ok then some { s with file := ⟨.live, none⟩ }
      else some (s.stopFor .cleanup .controllerError (ascii "controller_error"))
  | _ => none

/-- **One step** of the whole system. -/
def step (given : I → Bytes) (s : State I) : Move I → Option (State I)
  | .command i ok => commandStep given i ok s
  | .operator name => some (s.deliver ⟨name, none⟩)
  | .deadline => match s.mode with
    | .applying => some (s.stopFor .stopping .deadline (ascii "destroy_deadline"))
    | .live => some (s.stopFor .cleanup .deadline (ascii "destroy_deadline"))
    | _ => none
  | .result zero => match s.mode with
    | .applying | .stopping =>
      -- an apply that exits 0 after all takes the controller to the live phase, its reason kept for now
      if zero then some { s with mode := .applied } else some (s.cleanUp .applyFailed (ascii "apply_failed"))
    | _ => none
  | .unconfirmed => match s.mode with
    | .applying | .stopping => some (s.cleanUp .unconfirmed (ascii "process_exit_unconfirmed"))
    | _ => none
  | .signal readable => match s.pending with
    | signal :: rest => takeSignal s readable signal rest
    | [] => none
  | .poll readable ok => poll s readable ok
  | .save ok => match s.mode with
    | .applied =>
      if ok then some { s with mode := .live, file := ⟨.live, none⟩ }
      else some (s.stopFor .cleanup .stateWriteFailed (ascii "state_write_failed"))
    | .cleanup => some (if ok then { s with file := ⟨.ended, s.stopReason.map Prod.snd⟩ } else s)
    | _ => none

/-- The apply has started and no stop command has. -/
def initial : State I := ⟨⟨.applying, none⟩, none, .applying, none, [], fun _ => .start⟩

/-- Stop commands with these reasons, and one controller. -/
def stopping (given : I → Bytes) : System (State I) := .ofMoves (· = initial) (step given)

/-- The move neither renames over a request nor takes a stop command's wake-up in the live phase, or without being able to
read the request. -/
def quiet (s : State I) : Move I → Bool
  | .command i ok => match s.command i with
    | .rename _ => !ok || s.request.isNone
    | _ => true
  | .signal readable => !((s.mode == .live || !readable) && s.pending.head?.any fun signal => signal.sender.isSome)
  | _ => true

/-- One step, if the move is quiet. -/
def quietStep (given : I → Bytes) (s : State I) (m : Move I) : Option (State I) :=
  if quiet s m then step given s m else none

/-- The runs all of whose moves are quiet. -/
def undisturbed (given : I → Bytes) : System (State I) := .ofMoves (· = initial) (quietStep given)

/-- **An accepted request is the recorded reason.** -/
structure Honoured (given : I → Bytes) (s : State I) : Prop where
  one : ∀ i j, s.command i = .success → s.command j = .success → i = j
  reason : ∀ i r, s.command i = .success → s.stopReason.map Prod.fst = some .request →
    s.file.stopReason = some r → requested (given i) = some r

/-! ## What the moves keep -/

theorem graphic_of_isStopReason {s : Bytes} (h : isStopReason s = true) : ∀ c ∈ s, 0x21 ≤ c ∧ c < 0x80 := by
  cases s with
  | nil => simp
  | cons c cs =>
      unfold isStopReason at h
      simp only [Bool.and_eq_true, isLower, decide_eq_true_eq, List.all_eq_true, Bool.or_eq_true, isDigit,
        beq_iff_eq, UInt8.le_iff_toNat_le] at h
      obtain ⟨⟨hc, hcs⟩, _⟩ := h
      have hgraphic : ∀ d : UInt8, 0x30 ≤ d.toNat → d.toNat ≤ 0x7a → 0x21 ≤ d ∧ d < 0x80 := by
        intro d hlo hhi
        constructor
        · exact UInt8.le_iff_toNat_le.mpr (by simp; omega)
        · exact UInt8.lt_iff_toNat_lt.mpr (by simp; omega)
      simp at hc hcs
      intro d hd
      rcases List.mem_cons.mp hd with rfl | hd
      · exact hgraphic d (by omega) (by omega)
      · rcases hcs d hd with (hl | hl) | rfl
        · exact hgraphic d (by omega) (by omega)
        · exact hgraphic d (by omega) (by omega)
        · exact hgraphic 0x5f (by decide) (by decide)

theorem not_blank_of_requested {given reason : Bytes} (h : requested given = some reason) :
    isBlank reason = false ∧ reason ≠ [] := by
  unfold requested at h
  dsimp only at h
  generalize (if trimSpace given = [] then ascii "operator_stop" else trimSpace given) = text at h
  split at h
  · next hreason =>
    cases h
    have hgraphic := graphic_of_isStopReason hreason
    cases reason with
    | nil => exact absurd hreason (by simp [isStopReason])
    | cons c cs => exact ⟨not_isBlank_of_head (hgraphic c (by simp)).1 (hgraphic c (by simp)).2, List.cons_ne_nil c cs⟩
  · cases h

/-- A reason that is one already is asked for as it is. -/
theorem requested_of_isStopReason {reason : Bytes} (h : isStopReason reason = true) :
    requested reason = some reason := by
  have htrim : trimSpace reason = reason := trimSpace_graphic (graphic_of_isStopReason h)
  have hne : reason ≠ [] := by
    rintro rfl
    exact absurd h (by simp [isStopReason])
  unfold requested
  rw [htrim, if_neg hne]
  exact if_pos h

/-- The command has its request in place. -/
def Command.published : Command → Bool
  | .chmod _ | .wake _ | .success => true
  | _ => false

/-- **The invariant**: the request is the one of the command that published it, whoever published one
published this one, nobody is woken without it, and a reason taken from a request is taken from it. -/
structure Kept (given : I → Bytes) (s : State I) : Prop where
  request : ∀ i r, s.request = some (i, r) → requested (given i) = some r
  published : ∀ i, (s.command i).published = true → ∃ r, s.request = some (i, r)
  pending : ∀ signal ∈ s.pending, signal.sender.isSome = true → s.request.isSome = true
  reason : ∀ r, s.stopReason = some (.request, r) → ∃ i, s.request = some (i, r)
  file : ∀ r, s.file.stopReason = some r → s.mode = .cleanup ∧ s.stopReason.map Prod.snd = some r

variable {given : I → Bytes} {s t : State I}

omit [DecidableEq I] in
theorem Kept.initial : Kept given (initial : State I) where
  request i r h := absurd (show none = some (i, r) from h) (by simp)
  published i h := absurd (show false = true from h) (by decide)
  pending signal h := absurd (show signal ∈ [] from h) (by simp)
  reason r h := absurd (show none = some (Cause.request, r) from h) (by simp)
  file r h := absurd (show none = some r from h) (by simp)

omit [DecidableEq I] in
theorem Kept.honoured (h : Kept given s) : Honoured given s := by
  constructor
  · intro i j hi hj
    obtain ⟨r, hr⟩ := h.published i (by rw [hi]; rfl)
    obtain ⟨r', hr'⟩ := h.published j (by rw [hj]; rfl)
    exact (Prod.mk.inj (Option.some.inj (hr.symm.trans hr'))).1
  · intro i r hi hcause hfile
    obtain ⟨r', hr'⟩ := h.published i (by rw [hi]; rfl)
    obtain ⟨⟨cause, reason⟩, hstop, rfl⟩ := Option.map_eq_some_iff.mp hcause
    obtain ⟨j, hj⟩ := h.reason reason hstop
    have hrecorded := (h.file r hfile).2
    rw [hstop] at hrecorded
    obtain rfl : reason = r := Option.some.inj hrecorded
    obtain ⟨rfl, rfl⟩ := Prod.mk.inj (Option.some.inj (hr'.symm.trans hj))
    exact h.request i _ hr'

omit [DecidableEq I] in
/-- The controller stops, for a request only if that is the reason of the one there is. -/
theorem Kept.stopFor (h : Kept given s) (hmode : s.mode ≠ .cleanup) {mode : Mode} {cause : Cause} {reason : Bytes}
    (hreason : cause = .request → ∃ i, s.request = some (i, reason)) : Kept given (s.stopFor mode cause reason) := by
  refine ⟨h.request, h.published, h.pending, ?_, ?_⟩
  · intro r hr
    obtain ⟨rfl, rfl⟩ := Prod.mk.inj (Option.some.inj hr)
    exact hreason rfl
  · intro r hr
    exact absurd (h.file r hr).1 hmode

omit [DecidableEq I] in
/-- The controller goes into the cleanup for another reason, unless it has one. -/
theorem Kept.cleanUp (h : Kept given s) (hmode : s.mode ≠ .cleanup) {cause : Cause} {reason : Bytes}
    (hcause : cause ≠ .request) : Kept given (s.cleanUp cause reason) := by
  refine ⟨h.request, h.published, h.pending, ?_, ?_⟩
  · intro r hr
    cases hstop : s.stopReason with
    | none =>
        have heq : (cause, reason) = (.request, r) := by simpa [State.cleanUp, hstop] using hr
        exact absurd (Prod.mk.inj heq).1 hcause
    | some old =>
        have heq : old = (.request, r) := by simpa [State.cleanUp, hstop] using hr
        exact h.reason r (by rw [hstop, heq])
  · intro r hr
    exact absurd (h.file r hr).1 hmode

omit [DecidableEq I] in
/-- A heartbeat, with no reason in it. -/
theorem Kept.heartbeat (h : Kept given s) (mode : Mode) (phase : Recorded) :
    Kept given { s with mode := mode, file := ⟨phase, none⟩ } :=
  ⟨h.request, h.published, h.pending, h.reason, fun r hr => absurd (show none = some r from hr) (by simp)⟩

omit [DecidableEq I] in
/-- A signal leaves the channel. -/
theorem Kept.drop (h : Kept given s) {signal : Signal I} {rest : List (Signal I)} (hpending : s.pending = signal :: rest) :
    Kept given { s with pending := rest } :=
  ⟨h.request, h.published, fun other hother => h.pending other (hpending ▸ List.mem_cons_of_mem _ hother), h.reason,
    h.file⟩

/-- A move of one command that does not publish. -/
theorem Kept.become (h : Kept given s) {i : I} {c : Command} (hc : c.published = true → (s.command i).published = true) :
    Kept given (s.become i c) := by
  refine ⟨h.request, fun j hj => ?_, h.pending, h.reason, h.file⟩
  by_cases hij : j = i
  · subst hij
    apply h.published j
    apply hc
    simpa [State.become] using hj
  · apply h.published j
    simpa [State.become, Function.update_of_ne hij] using hj

omit [DecidableEq I] in
theorem Kept.deliver (h : Kept given s) {signal : Signal I} (hs : signal.sender.isSome = true → s.request.isSome = true) :
    Kept given (s.deliver signal) := by
  unfold State.deliver
  split
  · refine ⟨h.request, h.published, fun other hother hsender => ?_, h.reason, h.file⟩
    rcases List.mem_append.mp hother with hold | hnew
    · exact h.pending other hold hsender
    · rw [List.mem_singleton.mp hnew] at hsender
      exact hs hsender
  · exact h

theorem Kept.commandStep {i : I} {ok : Bool} (h : Kept given s)
    (hquiet : quiet s (.command i ok) = true)
    (hstep : commandStep given i ok s = some t) : Kept given t := by
  unfold Stop.commandStep at hstep
  cases hcommand : s.command i with
  | start =>
      simp only [hcommand] at hstep
      split at hstep <;> cases hstep <;> exact h.become fun hc => absurd hc (by simp [Command.published])
  | stat phase | create phase =>
      simp only [hcommand] at hstep
      cases hstep
      apply h.become
      split <;> exact fun hc => absurd hc (by simp [Command.published])
  | rename phase =>
      simp only [hcommand] at hstep
      split at hstep
      · cases hstep
      next reason hreason =>
      split at hstep
      · next hok =>
        -- the one move that publishes: there was no request before
        have hnone : s.request = none := by simpa [quiet, hcommand, hok] using hquiet
        cases hstep
        constructor
        · intro j r hj
          obtain ⟨rfl, rfl⟩ := Prod.mk.inj (Option.some.inj (show some (i, reason) = some (j, r) from hj))
          exact hreason
        · intro j hj
          by_cases hij : j = i
          · subst hij
            exact ⟨reason, rfl⟩
          · obtain ⟨r, hr⟩ := h.published j (by simpa [State.become, Function.update_of_ne hij] using hj)
            exact absurd (hnone.symm.trans hr) (by simp)
        · exact fun _ _ _ => rfl
        · intro r hr
          obtain ⟨j, hj⟩ := h.reason r hr
          exact absurd (hnone.symm.trans hj) (by simp)
        · exact h.file
      · cases hstep
        exact h.become fun hc => absurd hc (by simp [Command.published])
  | chmod phase =>
      simp only [hcommand] at hstep
      cases hstep
      exact h.become fun _ => by rw [hcommand]; rfl
  | wake phase =>
      have hpublished : (s.command i).published = true := by rw [hcommand]; rfl
      obtain ⟨r, hr⟩ := h.published i hpublished
      simp only [hcommand] at hstep
      split at hstep
      · cases hstep
        have hwoken : Kept given (s.deliver ⟨.terminated, some i⟩) := h.deliver fun _ => by rw [hr]; rfl
        apply hwoken.become
        intro _
        have hsame : (s.deliver ⟨.terminated, some i⟩).command = s.command := by
          unfold State.deliver
          split <;> rfl
        rw [hsame]
        exact hpublished
      · cases hstep
        exact h.become fun _ => hpublished
  | success | failed =>
      simp only [hcommand] at hstep
      cases hstep

omit [DecidableEq I] in
/-- The reason read in the apply phase is the request's. -/
theorem Kept.stopRequestReason (h : Kept given s) {i : I} {r fallback : Bytes} (hr : s.request = some (i, r)) :
    s.stopRequestReason true fallback = r := by
  unfold State.stopRequestReason
  rw [hr]
  exact if_neg (by simp [(not_blank_of_requested (h.request i r hr)).1])

omit [DecidableEq I] in
theorem Kept.takeSignal {readable : Bool} {signal : Signal I} {rest : List (Signal I)} (h : Kept given s)
    (hpending : s.pending = signal :: rest) (hlive : s.mode = .live ∨ readable = false → signal.sender = none)
    (hstep : takeSignal s readable signal rest = some t) : Kept given t := by
  have hdrop := h.drop hpending
  unfold Stop.takeSignal at hstep
  cases hmode : s.mode with
  | applying =>
      simp only [hmode] at hstep hdrop
      cases hstep
      apply hdrop.stopFor (by simp)
      intro hcause
      -- a signal that a stop command sent is behind the request it had published, and the request can be read
      cases hs : signal.sender with
      | none => exact absurd hcause (by simp [hs])
      | some j =>
          obtain ⟨⟨i, r⟩, hr⟩ := Option.isSome_iff_exists.mp
            (h.pending signal (by rw [hpending]; simp) (by rw [hs]; rfl))
          obtain rfl : readable = true := by
            by_contra hunreadable
            exact absurd ((hlive (.inr (eq_false_of_ne_true hunreadable))).symm.trans hs) (by simp)
          refine ⟨i, hr.trans ?_⟩
          rw [hdrop.stopRequestReason hr]
  | stopping =>
      simp only [hmode] at hstep hdrop
      cases hstep
      exact hdrop
  | live =>
      simp only [hmode] at hstep hdrop
      cases hstep
      exact hdrop.stopFor (by simp) fun hcause => absurd hcause (by simp [hlive (.inl hmode)])
  | applied | cleanup =>
      simp only [hmode] at hstep
      cases hstep

omit [DecidableEq I] in
theorem Kept.poll {readable ok : Bool} (h : Kept given s) (hstep : poll s readable ok = some t) : Kept given t := by
  unfold Stop.poll at hstep
  cases hmode : s.mode with
  | applying =>
      simp only [hmode] at hstep
      split at hstep <;> cases hstep
      · exact hmode ▸ h.heartbeat s.mode .applying
      · exact h.stopFor (by simp [hmode]) fun hcause => absurd hcause (by simp)
  | stopping =>
      simp only [hmode] at hstep
      cases hstep
      split
      · exact hmode ▸ h.heartbeat s.mode .applying
      · exact h
  | live =>
      simp only [hmode] at hstep
      split at hstep
      · cases hstep
        exact h.stopFor (by simp [hmode]) fun hcause => absurd hcause (by simp)
      split at hstep
      · next i reason hrequest =>
        cases hstep
        apply h.stopFor (by simp [hmode])
        intro _
        -- the reason that was published is not blank, so it is the one that is taken
        rw [if_neg (not_blank_of_requested (h.request i reason hrequest)).2]
        exact ⟨i, hrequest⟩
      · split at hstep <;> cases hstep
        · exact hmode ▸ h.heartbeat s.mode .live
        · exact h.stopFor (by simp [hmode]) fun hcause => absurd hcause (by simp)
  | applied | cleanup =>
      simp only [hmode] at hstep
      cases hstep

/-- **One undisturbed move keeps the invariant.** -/
theorem Kept.step {m : Move I} (h : Kept given s) (hquiet : quiet s m = true) (hstep : step given s m = some t) :
    Kept given t := by
  cases m with
  | command i ok => exact h.commandStep hquiet hstep
  | operator name =>
      cases hstep
      exact h.deliver fun hs => absurd hs (by simp)
  | deadline =>
      simp only [Stop.step] at hstep
      split at hstep
      · next hmode =>
        cases hstep
        exact h.stopFor (by simp [hmode]) fun hcause => absurd hcause (by simp)
      · next hmode =>
        cases hstep
        exact h.stopFor (by simp [hmode]) fun hcause => absurd hcause (by simp)
      · cases hstep
  | result zero =>
      -- a result is read alike before and after the operator asked for the stop
      have hresult : s.mode ≠ .cleanup → (if zero then some { s with mode := .applied }
          else some (s.cleanUp .applyFailed (ascii "apply_failed"))) = some t → Kept given t := by
        intro hmode ht
        split at ht <;> cases ht
        · exact ⟨h.request, h.published, h.pending, h.reason, fun r hr => absurd (h.file r hr).1 hmode⟩
        · exact h.cleanUp hmode (by simp)
      simp only [Stop.step] at hstep
      split at hstep
      · next hmode => exact hresult (by simp [hmode]) hstep
      · next hmode => exact hresult (by simp [hmode]) hstep
      · cases hstep
  | unconfirmed =>
      simp only [Stop.step] at hstep
      split at hstep
      · next hmode =>
        cases hstep
        exact h.cleanUp (by simp [hmode]) (by simp)
      · next hmode =>
        cases hstep
        exact h.cleanUp (by simp [hmode]) (by simp)
      · cases hstep
  | signal readable =>
      simp only [Stop.step] at hstep
      split at hstep
      · next signal rest hpending =>
        apply h.takeSignal hpending _ hstep
        rintro (hmode | rfl)
        · simpa [quiet, hmode, hpending] using hquiet
        · simpa [quiet, hpending] using hquiet
      · cases hstep
  | poll readable ok => exact h.poll hstep
  | save ok =>
      simp only [Stop.step] at hstep
      split at hstep
      · next hmode =>
        split at hstep <;> cases hstep
        · exact h.heartbeat .live .live
        · exact h.stopFor (by simp [hmode]) fun hcause => absurd hcause (by simp)
      · next hmode =>
        cases hstep
        split
        · exact ⟨h.request, h.published, h.pending, h.reason, fun r hr => ⟨hmode, hr⟩⟩
        · exact h
      · cases hstep

/-- **An accepted stop request is the recorded reason**, in every run in which no command renames over another's
request, the live controller takes no stop command's wake-up, and the request can be read where one is taken. -/
theorem stop_honoured {given : I → Bytes} {s : State I} (hs : (undisturbed given).Reachable s) : Honoured given s := by
  have hkept : Kept given s := by
    apply System.invariant _ _ hs
    · rintro s rfl
      exact Kept.initial
    · rintro s t _ h ⟨m, hm⟩
      unfold quietStep at hm
      split at hm
      · next hquiet => exact h.step hquiet hm
      · cases hm
  exact hkept.honoured

/-! ## Three runs -/

/-- Two stop commands, with these reasons. -/
def drills : Bool → Bytes
  | false => ascii "evidence_complete"
  | true => ascii "infrastructure_failed"

theorem requested_drills (i : Bool) : requested (drills i) = some (drills i) := by
  cases i <;> exact requested_of_isStopReason (by decide)

/-- The apply ends and the controller is live. -/
def goLive : List (Move Bool) := [.result true, .save true]

/-- A stop command from beginning to end. -/
def wholeCommand (i : Bool) : List (Move Bool) := List.replicate 6 (.command i true)

theorem stop_honoured_live : ∃ s, (undisturbed drills).Reachable s ∧ s.command false = .success ∧
    s.file.stopReason = some (ascii "evidence_complete") ∧ Honoured drills s := by
  have hrun : ((System.play (quietStep drills) initial (goLive ++ wholeCommand false ++ [.poll true true, .save true])).map
      fun s => (s.command false, s.file.stopReason)) = some (.success, some (drills false)) := by
    simp [System.play, goLive, wholeCommand, List.replicate, quietStep, quiet, step, commandStep, State.become,
      requested_drills, poll, not_blank_of_requested (requested_drills false), State.stopFor, initial]
  obtain ⟨s, hs, hends⟩ := Option.map_eq_some_iff.mp hrun
  have hreach : (undisturbed drills).Reachable s := ⟨initial, rfl, System.later_of_play hs⟩
  obtain ⟨hcommand, hfile⟩ := Prod.mk.inj hends
  exact ⟨s, hreach, hcommand, hfile, stop_honoured hreach⟩

/-- **Two commands may both succeed**: each looks for an earlier request before the other renames. -/
theorem not_honoured_race : ¬ ∀ (given : Bool → Bytes) (s : State Bool), (stopping given).Reachable s →
    Honoured given s := by
  intro hall
  have hrun : ((System.play (step drills) initial (goLive ++ List.replicate 2 (.command false true) ++
      wholeCommand true ++ List.replicate 4 (.command false true))).map
        fun s => (s.command false, s.command true)) = some (.success, .success) := by
    simp [System.play, goLive, wholeCommand, List.replicate, step, commandStep, State.become, requested_drills,
      initial]
  obtain ⟨s, hs, hends⟩ := Option.map_eq_some_iff.mp hrun
  obtain ⟨hfalse, htrue⟩ := Prod.mk.inj hends
  have honoured := hall drills s ⟨initial, rfl, System.later_of_play hs⟩
  exact absurd (honoured.one false true hfalse htrue) (by decide)

/-- **A single command's reason may be lost**: it read that the apply was running, and its wake-up reaches
a controller that is live. -/
theorem not_honoured_wake : ¬ ∀ (given : Bool → Bytes) (s : State Bool), (stopping given).Reachable s →
    ∀ i r, s.command i = .success → s.stopReason.map Prod.fst = some .request → s.file.stopReason = some r →
      requested (given i) = some r := by
  intro hall
  have hrun : ((System.play (step drills) initial ([.command false true] ++ goLive ++
      List.replicate 5 (.command false true) ++ [.signal true, .save true])).map
        fun s => (s.command false, s.stopReason.map Prod.fst, s.file.stopReason)) =
      some (.success, some .request, some (ascii "terminated")) := by
    simp [System.play, goLive, List.replicate, step, commandStep, State.become, State.deliver, takeSignal,
      State.stopFor, SignalName.string, requested_drills, initial]
  obtain ⟨s, hs, hends⟩ := Option.map_eq_some_iff.mp hrun
  simp only [Prod.mk.injEq] at hends
  obtain ⟨hcommand, hcause, hfile⟩ := hends
  have hreason := hall drills s ⟨initial, rfl, System.later_of_play hs⟩ false _ hcommand hcause hfile
  rw [requested_drills] at hreason
  exact absurd hreason (by decide)

end Stop

end LocalPlatform.LiveRun
