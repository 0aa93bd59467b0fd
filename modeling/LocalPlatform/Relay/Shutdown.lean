/-
# LocalPlatform.Relay.Shutdown — the ordered shutdown of a relay process.

A mode's sequence lists every bounded step of its shutdown, and the sum of the bounds is held against the pod's grace
period.  The process runs actions that own adjacent steps.  `executeShutdownSequence` goes over the actions twice: once
to see that their steps are the sequence, and once to run them, each on its own part.

`Fits` says what the first pass checks; the parts the second hands out are the sequence cut at the lengths of the
actions (`executeShutdownSequence_exact`).
-/
import LocalPlatform.Relay.Delivery.Schedule
import Mathlib.Data.List.SplitLengths

namespace LocalPlatform.Relay.Shutdown

open Codec Delivery

structure ShutdownStep where
  id : Bytes
  description : Bytes
  timeout : Int
  deriving DecidableEq, Repr

/-- **`ShutdownDrainBudget`** -/
def shutdownDrainBudget (sequence : List ShutdownStep) : Int :=
  sequence.foldl (fun total step => int64 (total + step.timeout)) 0

section Actions

variable (σ ε : Type)

/-- An action: the steps it owns, and what it does with them to the process. -/
structure ShutdownAction where
  steps : List Bytes
  run : List ShutdownStep → σ → σ × Option ε

/-- Why a plan is not run. -/
inductive PlanError where
  | ownsNoSteps (actionIndex : Nat)
  | extraStep (id : Bytes) (position : Nat)
  | differs (position : Nat) (accounting execution : Bytes)
  | omits (id : Bytes) (position : Nat)
  deriving DecidableEq, Repr

inductive ShutdownError where
  | plan (e : PlanError)
  | joined (errs : List ε)

/-- A shutdown: the process after it, the actions that were run with the steps each was given, the error. -/
structure Outcome where
  state : σ
  calls : List (Nat × List ShutdownStep)
  err : Option (ShutdownError ε)

end Actions

variable {σ ε : Type}

/-! ## The code -/

/-- The steps of one action against the sequence, from an offset. -/
def checkSteps (sequence : List ShutdownStep) : Nat → List Bytes → Except PlanError Nat
  | offset, [] => .ok offset
  | offset, id :: ids =>
    match sequence[offset]? with
    | none => .error (.extraStep id offset)
    | some step => if step.id ≠ id then .error (.differs offset step.id id) else checkSteps sequence (offset + 1) ids

/-- The actions from an index and an offset. -/
def checkActions (sequence : List ShutdownStep) : Nat → Nat → List (ShutdownAction σ ε) → Except PlanError Nat
  | _, offset, [] => .ok offset
  | actionIndex, offset, action :: actions =>
    if action.steps.length = 0 then .error (.ownsNoSteps actionIndex)
    else
      match checkSteps sequence offset action.steps with
      | .error e => .error e
      | .ok offset => checkActions sequence (actionIndex + 1) offset actions

/-- The first pass.  The offset never gets behind the end of the sequence. -/
def checkPlan (sequence : List ShutdownStep) (actions : List (ShutdownAction σ ε)) : Except PlanError Unit :=
  match checkActions sequence 0 0 actions with
  | .error e => .error e
  | .ok offset =>
    match sequence[offset]? with
    | none => .ok ()
    | some step => .error (.omits step.id offset)

/-- `errors.Join` -/
def join (errs : List ε) : Option (ShutdownError ε) := if errs = [] then none else some (.joined errs)

/-- The second pass, from an index and an offset: the process, the calls and the errors, and `none` where the bounds of a
slice are out of range. -/
def runActions (sequence : List ShutdownStep) :
    Nat → Nat → List (ShutdownAction σ ε) → σ → Option (σ × List (Nat × List ShutdownStep) × List ε)
  | _, _, [], s => some (s, [], [])
  | actionIndex, offset, action :: actions, s =>
    if offset + action.steps.length ≤ sequence.length then
      let steps := (sequence.drop offset).take action.steps.length
      let (s, err) := action.run steps s
      (runActions sequence (actionIndex + 1) (offset + action.steps.length) actions s).map fun (s, calls, errs) =>
        (s, (actionIndex, steps) :: calls, err.toList ++ errs)
    else none

/-- **`executeShutdownSequence`** -/
def executeShutdownSequence (sequence : List ShutdownStep) (actions : List (ShutdownAction σ ε)) (s : σ) :
    Option (Outcome σ ε) :=
  match checkPlan sequence actions with
  | .error e => some ⟨s, [], some (.plan e)⟩
  | .ok () => (runActions sequence 0 0 actions s).map fun (s, calls, errs) => ⟨s, calls, join errs⟩

/-! ## What it is for -/

/-- The actions own the steps of the sequence, every one of them some. -/
def Fits (sequence : List ShutdownStep) (actions : List (ShutdownAction σ ε)) : Prop :=
  (∀ action ∈ actions, action.steps ≠ []) ∧ actions.flatMap ShutdownAction.steps = sequence.map ShutdownStep.id

/-- The sequence cut at the lengths of the actions. -/
def parts (sequence : List ShutdownStep) (actions : List (ShutdownAction σ ε)) : List (List ShutdownStep) :=
  (actions.map fun action => action.steps.length).splitLengths sequence

/-- Actions run one after the other whatever they answer, and their answers. -/
def perform : List (ShutdownAction σ ε × List ShutdownStep) → σ → σ × List (Option ε)
  | [], s => (s, [])
  | (action, steps) :: rest, s =>
    let (s, err) := action.run steps s
    let (s, errs) := perform rest s
    (s, err :: errs)

/-! ## The first pass -/

section Check

variable {sequence : List ShutdownStep}

theorem checkSteps_eq_ok {offset n : Nat} {ids : List Bytes} : checkSteps sequence offset ids = .ok n ↔
    ids <+: (sequence.drop offset).map ShutdownStep.id ∧ n = offset + ids.length := by
  induction ids generalizing offset with
  | nil =>
    show Except.ok offset = Except.ok n ↔ _
    constructor
    · intro h
      exact ⟨List.nil_prefix, (Except.ok.inj h).symm⟩
    · rintro ⟨-, rfl⟩
      rfl
  | cons id ids ih =>
    unfold checkSteps
    cases hstep : sequence[offset]? with
    | none =>
      rw [List.drop_eq_nil_of_le (List.getElem?_eq_none_iff.mp hstep)]
      constructor
      · nofun
      · rintro ⟨hfront, -⟩
        cases List.prefix_nil.mp hfront
    | some step =>
      obtain ⟨hlt, rfl⟩ := List.getElem?_eq_some_iff.mp hstep
      rw [List.drop_eq_getElem_cons hlt, List.map_cons, List.cons_prefix_cons]
      simp only
      split
      · next hne =>
        constructor
        · nofun
        · rintro ⟨⟨heq, -⟩, -⟩
          exact absurd heq.symm hne
      · next heq =>
        rw [ih, List.length_cons]
        constructor
        · rintro ⟨hfront, rfl⟩
          exact ⟨⟨(not_not.mp heq).symm, hfront⟩, by omega⟩
        · rintro ⟨⟨-, hfront⟩, rfl⟩
          exact ⟨hfront, by omega⟩

theorem append_prefix_iff {α : Type} {a b l : List α} : a ++ b <+: l ↔ a <+: l ∧ b <+: l.drop a.length := by
  constructor
  · rintro ⟨t, rfl⟩
    rw [List.append_assoc, List.drop_left]
    exact ⟨List.prefix_append a _, List.prefix_append b t⟩
  · rintro ⟨⟨t, rfl⟩, hback⟩
    rw [List.drop_left] at hback
    exact (List.prefix_append_right_inj a).mpr hback

theorem checkActions_eq_ok {actionIndex offset n : Nat} {actions : List (ShutdownAction σ ε)} :
    checkActions sequence actionIndex offset actions = .ok n ↔ (∀ action ∈ actions, action.steps ≠ []) ∧
      actions.flatMap ShutdownAction.steps <+: (sequence.drop offset).map ShutdownStep.id ∧
      n = offset + (actions.flatMap ShutdownAction.steps).length := by
  -- on the actions, the offset being where the next one begins
  induction actions generalizing actionIndex offset with
  | nil =>
    show Except.ok offset = Except.ok n ↔ _
    constructor
    · intro h
      exact ⟨fun _ ha => absurd ha List.not_mem_nil, List.nil_prefix, (Except.ok.inj h).symm⟩
    · rintro ⟨-, -, rfl⟩
      rfl
  | cons action actions ih =>
    unfold checkActions
    split
    · next hempty =>
      constructor
      · nofun
      · rintro ⟨hsome, -⟩
        exact absurd (List.length_eq_zero_iff.mp hempty) (hsome action List.mem_cons_self)
    · next hne =>
      have hne : action.steps ≠ [] := fun h => hne (List.length_eq_zero_iff.mpr h)
      -- the rest is compared with what the first action leaves of the sequence
      have hrest : ∀ m, m = offset + action.steps.length → (sequence.drop m).map ShutdownStep.id =
          ((sequence.drop offset).map ShutdownStep.id).drop action.steps.length := by
        rintro m rfl
        rw [← List.map_drop, List.drop_drop]
      rw [List.flatMap_cons, append_prefix_iff, List.length_append, List.forall_mem_cons]
      cases hsteps : checkSteps sequence offset action.steps with
      | error e =>
        constructor
        · nofun
        · rintro ⟨-, ⟨hfront, -⟩, -⟩
          rw [checkSteps_eq_ok.mpr ⟨hfront, rfl⟩] at hsteps
          cases hsteps
      | ok m =>
        obtain ⟨hfront, hm⟩ := checkSteps_eq_ok.mp hsteps
        rw [← hrest m hm]
        simp only
        rw [ih]
        constructor
        · rintro ⟨hsome, hback, rfl⟩
          exact ⟨⟨hne, hsome⟩, ⟨hfront, hback⟩, by omega⟩
        · rintro ⟨⟨-, hsome⟩, ⟨-, hback⟩, rfl⟩
          exact ⟨hsome, hback, by omega⟩

/-- **The first pass** succeeds exactly on the plans that fit. -/
theorem checkPlan_eq_ok {actions : List (ShutdownAction σ ε)} :
    checkPlan sequence actions = .ok () ↔ Fits sequence actions := by
  unfold checkPlan Fits
  cases hactions : checkActions sequence 0 0 actions with
  | error e =>
    constructor
    · nofun
    · rintro ⟨hsome, heq⟩
      rw [checkActions_eq_ok.mpr ⟨hsome, by rw [heq]; exact List.prefix_refl _, rfl⟩] at hactions
      cases hactions
  | ok offset =>
    obtain ⟨hsome, hfront, hoffset⟩ := checkActions_eq_ok.mp hactions
    rw [List.drop_zero] at hfront
    rw [Nat.zero_add] at hoffset
    have hle := hfront.length_le
    rw [List.length_map] at hle
    simp only
    cases hnext : sequence[offset]? with
    | none =>
      have hge := List.getElem?_eq_none_iff.mp hnext
      refine ⟨fun _ => ⟨hsome, hfront.eq_of_length ?_⟩, fun _ => rfl⟩
      rw [List.length_map]
      omega
    | some step =>
      constructor
      · nofun
      · rintro ⟨-, heq⟩
        have hlt := (List.getElem?_eq_some_iff.mp hnext).1
        have hlen := congrArg List.length heq
        rw [List.length_map] at hlen
        omega

end Check

/-! ## The second pass -/

theorem perform_cons (action : ShutdownAction σ ε) (steps : List ShutdownStep)
    (rest : List (ShutdownAction σ ε × List ShutdownStep)) (s : σ) :
    perform ((action, steps) :: rest) s =
      ((perform rest (action.run steps s).1).1, (action.run steps s).2 :: (perform rest (action.run steps s).1).2) := rfl

theorem runActions_eq {sequence : List ShutdownStep} (actionIndex offset : Nat) (actions : List (ShutdownAction σ ε))
    (s : σ) (h : offset + (actions.flatMap ShutdownAction.steps).length ≤ sequence.length) :
    runActions sequence actionIndex offset actions s =
      let handed := parts (sequence.drop offset) actions
      let done := perform (actions.zip handed) s
      some (done.1, (List.range' actionIndex actions.length).zip handed, done.2.filterMap id) := by
  induction actions generalizing actionIndex offset s with
  | nil => rfl
  | cons action actions ih =>
    rw [List.flatMap_cons, List.length_append] at h
    have hparts : parts (sequence.drop offset) (action :: actions) =
        (sequence.drop offset).take action.steps.length :: parts (sequence.drop (offset + action.steps.length)) actions := by
      unfold parts
      rw [List.map_cons, List.splitLengths_cons, List.drop_drop]
    unfold runActions
    rw [if_pos (by omega), hparts]
    simp only
    rw [ih _ _ _ (by omega)]
    simp only [Option.map_some, List.zip_cons_cons, List.length_cons, List.range'_succ]
    rw [perform_cons]
    cases (action.run ((sequence.drop offset).take action.steps.length) s).2 with
    | none => rfl
    | some e => rfl

/-! ## The parts -/

section Parts

variable {sequence : List ShutdownStep} {actions : List (ShutdownAction σ ε)}

theorem Fits.sum_length (h : Fits sequence actions) :
    (actions.map fun action => action.steps.length).sum = sequence.length := by
  have hlen := congrArg List.length h.2
  rw [List.length_flatMap, List.length_map] at hlen
  exact hlen

/-- Each action is handed steps of its own ids. -/
theorem map_id_parts (h : actions.flatMap ShutdownAction.steps <+: sequence.map ShutdownStep.id) :
    (parts sequence actions).map (List.map ShutdownStep.id) = actions.map ShutdownAction.steps := by
  induction actions generalizing sequence with
  | nil => rfl
  | cons action actions ih =>
    rw [List.flatMap_cons, append_prefix_iff, ← List.map_drop] at h
    unfold parts
    rw [List.map_cons, List.splitLengths_cons, List.map_cons, List.map_cons, List.map_take]
    congr 1
    · exact (List.prefix_iff_eq_take.mp h.1).symm
    · exact ih h.2

end Parts

/-! ## The budget -/

theorem foldl_int64_map {α : Type} (f : α → Int) (l : List α) (a : Int) :
    l.foldl (fun total x => int64 (total + f x)) (int64 a) = int64 (a + (l.map f).sum) := by
  induction l generalizing a with
  | nil => rw [List.foldl_nil, List.map_nil, List.sum_nil, Int.add_zero]
  | cons x l ih => rw [List.foldl_cons, int64_add, ih, List.map_cons, List.sum_cons, Int.add_assoc]

theorem shutdownDrainBudget_eq (steps : List ShutdownStep) :
    shutdownDrainBudget steps = int64 (steps.map ShutdownStep.timeout).sum := by
  have h := foldl_int64_map ShutdownStep.timeout steps 0
  rw [Int.zero_add] at h
  exact h

/-- The budgets of the parts add up to that of the whole. -/
theorem budget_flatten (steps : List (List ShutdownStep)) :
    (steps.map shutdownDrainBudget).foldl (fun total budget => int64 (total + budget)) 0 =
      shutdownDrainBudget steps.flatten := by
  have h := foldl_int64_map id (steps.map shutdownDrainBudget) 0
  rw [Int.zero_add, List.map_id] at h
  refine h.trans ?_
  rw [shutdownDrainBudget_eq]
  induction steps with
  | nil => rfl
  | cons part steps ih =>
    rw [List.map_cons, List.sum_cons, List.flatten_cons, List.map_append, List.sum_append, shutdownDrainBudget_eq,
      int64_add, ← int64_add_int64, ih, int64_add_int64]
    have hrest := foldl_int64_map id (steps.map shutdownDrainBudget) 0
    rwa [Int.zero_add, List.map_id] at hrest

/-! ## The whole -/

theorem join_eq_none {errs : List ε} : join errs = none ↔ errs = [] := by
  unfold join
  split
  · next h => exact ⟨fun _ => h, fun _ => rfl⟩
  · next h => exact ⟨nofun, fun h' => absurd h' h⟩

/-- **The plan is executed exactly or not at all.** -/
theorem executeShutdownSequence_exact (sequence : List ShutdownStep) (actions : List (ShutdownAction σ ε)) (s : σ) :
    ∃ out, executeShutdownSequence sequence actions s = some out ∧
      (∀ i < actions.length, i ∈ out.calls.map Prod.fst ↔ Fits sequence actions) ∧
      (¬Fits sequence actions → out.calls = [] ∧ out.state = s ∧ ∃ e, out.err = some (.plan e)) ∧
      (Fits sequence actions → ∃ handed : List (List ShutdownStep),
        out.calls = (List.range actions.length).zip handed ∧
        handed.map (List.map ShutdownStep.id) = actions.map ShutdownAction.steps ∧
        handed.flatten = sequence ∧
        (handed.map shutdownDrainBudget).foldl (fun total budget => int64 (total + budget)) 0 =
          shutdownDrainBudget sequence ∧
        out.state = (perform (actions.zip handed) s).1 ∧
        (out.err = none ↔ ∀ answer ∈ (perform (actions.zip handed) s).2, answer = none) ∧
        (out.err ≠ none → out.err = some (.joined ((perform (actions.zip handed) s).2.filterMap id)))) := by
  unfold executeShutdownSequence
  -- the plan is checked as a whole before anything runs
  cases hplan : checkPlan sequence actions with
  | error e =>
    have hfits : ¬Fits sequence actions := fun h => by
      rw [checkPlan_eq_ok.mpr h] at hplan
      cases hplan
    refine ⟨_, rfl, ?_, fun _ => ⟨rfl, rfl, e, rfl⟩, fun h => absurd h hfits⟩
    intro i _
    exact ⟨fun h => absurd h List.not_mem_nil, fun h => absurd h hfits⟩
  | ok u =>
    have hfits : Fits sequence actions := checkPlan_eq_ok.mp hplan
    have hsum := hfits.sum_length
    have hle : 0 + (actions.flatMap ShutdownAction.steps).length ≤ sequence.length := by
      rw [hfits.2, List.length_map]
      omega
    have hlength : (parts sequence actions).length = actions.length := by
      unfold parts
      rw [List.length_splitLengths, List.length_map]
    -- every action is handed its own stretch of the sequence
    have hflatten : (parts sequence actions).flatten = sequence :=
      List.flatten_splitLengths _ _ (Nat.le_of_eq hsum.symm)
    have hrun := runActions_eq 0 0 actions s hle
    rw [List.drop_zero, ← List.range_eq_range'] at hrun
    simp only [hrun, Option.map_some]
    refine ⟨_, rfl, ?_, fun h => absurd hfits h, fun _ => ⟨parts sequence actions, rfl, ?_, hflatten, ?_, rfl, ?_, ?_⟩⟩
    · intro i hi
      rw [List.map_fst_zip (by rw [List.length_range, hlength])]
      exact ⟨fun _ => hfits, fun _ => List.mem_range.mpr hi⟩
    · apply map_id_parts
      rw [hfits.2]
    · rw [budget_flatten, hflatten]
    · show join _ = none ↔ _
      rw [join_eq_none, List.filterMap_eq_nil_iff]
      rfl
    · show join _ ≠ none → join _ = _
      unfold join
      split
      · intro h
        exact absurd rfl h
      · exact fun _ => rfl

/-! ## The two modes -/

def deliverRecordDrain : Bytes := ascii "deliver-record-drain"
def deliverInterruptedAttemptWrite : Bytes := ascii "deliver-interrupted-attempt-write"
def ingestReadinessGrace : Bytes := ascii "ingest-readiness-grace"
def ingestHTTPServer : Bytes := ascii "ingest-http-server"
def healthServer : Bytes := ascii "health-server"
def resourceClose : Bytes := ascii "resource-close"
def traceFlush : Bytes := ascii "trace-flush"

def deliverShutdownSequence : List ShutdownStep :=
  [⟨deliverRecordDrain, ascii "record work", 30 * second⟩,
   ⟨deliverInterruptedAttemptWrite, ascii "interrupted-attempt history write", 5 * second⟩,
   ⟨healthServer, ascii "health-server shutdown", 5 * second⟩,
   ⟨resourceClose, ascii "broker and pool closes", 5 * second⟩,
   ⟨traceFlush, ascii "trace flush", 3 * second⟩]

def ingestShutdownSequence : List ShutdownStep :=
  [⟨ingestReadinessGrace, ascii "readiness grace", 3 * second⟩,
   ⟨ingestHTTPServer, ascii "HTTP server shutdown", (15 + 5) * second⟩,
   ⟨resourceClose, ascii "broker and pool closes", 5 * second⟩,
   ⟨traceFlush, ascii "trace flush", 3 * second⟩]

section Modes

variable (drain health close trace : List ShutdownStep → σ → σ × Option ε)

def ingestShutdownActions : List (ShutdownAction σ ε) :=
  [⟨[ingestReadinessGrace, ingestHTTPServer], drain⟩, ⟨[resourceClose], close⟩, ⟨[traceFlush], trace⟩]

def deliverShutdownActions : List (ShutdownAction σ ε) :=
  [⟨[deliverRecordDrain, deliverInterruptedAttemptWrite], drain⟩, ⟨[healthServer], health⟩, ⟨[resourceClose], close⟩,
   ⟨[traceFlush], trace⟩]

/-- Whatever the actions do, both plans are run. -/
theorem fits_ingest : Fits ingestShutdownSequence (ingestShutdownActions drain close trace) :=
  ⟨by simp [ingestShutdownActions], rfl⟩

theorem fits_deliver : Fits deliverShutdownSequence (deliverShutdownActions drain health close trace) :=
  ⟨by simp [deliverShutdownActions], rfl⟩

end Modes

end LocalPlatform.Relay.Shutdown
