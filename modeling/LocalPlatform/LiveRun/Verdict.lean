/-
# LocalPlatform.LiveRun.Verdict — the cleanup verdict is never better than the facts.

`Facts` is what can be read off a run without looking at the controller's variables: which commands were
started, how the last of each kind exited, which lines and files could not be written, when the clock was
read.  A monitor over these facts allows a state file that reports success only where the facts bear it
out, and the program is shown to respect it (`run_wp`); what the exit code promises is the postcondition.

One kind of failure is not on the way to the verdict: the error of writing the account lines to the
transcript is dropped.
-/
import LocalPlatform.LiveRun.Controller
import Mathlib.Data.List.Induction

namespace LocalPlatform.LiveRun

open Codec Logic

/-! ## The facts of a run -/

/-- What has been done so far, clock and state file apart. -/
structure Done where
  up : Bool
  down : Bool
  /-- The command whose result is outstanding. -/
  running : Option Command
  /-- How the last command of each kind exited; nothing while it runs, or after an unconfirmed exit. -/
  exit : Command → Option Int
  session : Option SessionReceipt
  groups : Option (List Bytes)
  deleted : List Bytes
  opened : Bool
  closed : Bool
  unwritten : List Line
  /-- A state file that reports success was written. -/
  verified : Bool

/-- The facts of a run. -/
structure Facts where
  done : Done
  /-- The ticker has fired and its write is still to come. -/
  beating : Bool
  beatFailed : Bool
  /-- The first clock reading since a command ended or the cost file was closed. -/
  finished : Option Time
  /-- The last write of the state file succeeded. -/
  written : Option Bool

/-- The status of a confirmed exit. -/
def ExecutionResult.confirmed (outcome : ExecutionResult) : Option Int :=
  if outcome.err.isSome then none else some outcome.status

/-- The state reports a verified cleanup, or a pass. -/
def ControllerState.reports (st : ControllerState) : Bool :=
  st.cleanupVerified == some true || st.result == some .passed

namespace Done

def initial : Done := ⟨false, false, none, fun _ => none, none, none, [], false, false, [], false⟩

/-- The exit of a command is known, or not. -/
def exited (d : Done) (command : Command) (status : Option Int) : Done :=
  { d with exit := fun other => if other = command then status else d.exit other }

/-- A command is started. -/
def start (d : Done) (command : Command) : Done :=
  { d.exited command none with
    up := d.up || command = .awsUp
    down := d.down || command = .awsDown
    running := some command }

/-- The outstanding result arrives. -/
def finish (d : Done) (outcome : ExecutionResult) : Done :=
  match d.running with
  | some command => { d.exited command outcome.confirmed with running := none }
  | none => d

end Done

namespace Facts

def initial : Facts := ⟨.initial, false, false, none, none⟩

/-- A result arrives. -/
def finish (s : Facts) (outcome : ExecutionResult) : Facts :=
  { s with done := s.done.finish outcome, finished := none }

/-- **One answered question.** -/
def observe (s : Facts) : (q : Ask) → q.Answer → Facts
  | .now, t => { s with finished := s.finished.or (some t) }
  | .session, .ok session => { s with done := { s.done with session := some session } }
  | .write st, err =>
    { s with
      done := { s.done with verified := s.done.verified || st.reports }
      beating := false
      beatFailed := s.beatFailed || s.beating && Option.isSome err
      written := some (Option.isNone err) }
  | .run command, _ => { s with done := s.done.start command }
  | .result, outcome => s.finish outcome
  | .applying, .result outcome => s.finish outcome
  | .stopping, .result outcome => s.finish outcome
  | .ready, some outcome => s.finish outcome
  | .tick, fired => { s with beating := fired }
  | .pause, fired => { s with beating := fired }
  | .openTranscript, err => { s with done := { s.done with opened := Option.isNone err } }
  | .transcript line, err =>
    { s with done := { s.done with unwritten := if Option.isSome err then line :: s.done.unwritten else s.done.unwritten } }
  | .closeTranscript, err => { s with done := { s.done with closed := Option.isNone err } }
  | .describeLogGroups, .names names => { s with done := { s.done with groups := some names, deleted := [] } }
  | .deleteLogGroup name, none => { s with done := { s.done with deleted := name :: s.done.deleted } }
  | .closeCost, _ => { s with finished := none }
  | _, _ => s

end Facts

/-- The lines of `verifyAccount`. -/
def Line.identity : Line → Bool
  | .identityMatched _ | .identityFailed _ _ => true
  | _ => false

/-- **What a pass stands for.** -/
structure Passed (c : Controller) (s : Facts) : Prop where
  apply : s.done.exit .awsUp = some 0
  destroy : s.done.exit .awsDown = some 0
  logs : ∃ names, s.done.groups = some names ∧
    ∀ name ∈ names, (∃ pre ∈ Controller.logPrefixes, pre <+: name) → name ∈ s.done.deleted
  stateEmpty : s.done.exit .stateEmpty = some 0
  inventory : s.done.exit .inventoryEmpty = some 0
  cost : s.done.exit .awsCost = some 0
  opened : s.done.opened = true
  written : ∀ line ∈ s.done.unwritten, line.identity = true
  closed : s.done.closed = true
  heartbeats : s.beatFailed = false
  deadline : ∃ session started destroy hard finished, s.done.session = some session ∧
    validateSession session c.runID c.commit = .ok (started, destroy, hard) ∧
      s.finished = some finished ∧ hard.before finished = false

/-- A state file that reports a verified cleanup, or a pass, may be written. -/
def Facts.Warrants (c : Controller) (s : Facts) (st : ControllerState) : Prop :=
  (st.reports = true → s.done.exit .stateEmpty = some 0 ∧ s.done.exit .inventoryEmpty = some 0) ∧
  (st.result = some .passed → Passed c s)

/-- The monitor: nothing is started any more once a verified cleanup was reported. -/
def watch (c : Controller) : Monitor Ask.Answer Facts where
  allowed s
    | .write st => s.Warrants c st
    | .run _ => s.done.verified = false
    | _ => True
  next := Facts.observe

/-- What is promised of a controller that returned. -/
def Promised (c : Controller) (ended : Controller × Int) (s : Facts) : Prop :=
  (s.done.up = true → s.done.down = true ∨ ended.1.state.cleanupBlockedReason.isSome = true) ∧
  (ended.2 = 0 → Passed c s ∧ s.written = some true)

/-! ## Heartbeats -/

namespace Controller

variable {c₀ c : Controller} {s : Facts} {phase : RunPhase}

/-- The state reports no success yet. -/
def Unsettled (c : Controller) : Prop := c.state.cleanupVerified ≠ some true ∧ c.state.result ≠ some .passed

/-- The two differ in what a heartbeat writes and the reason to stop, and in nothing else. -/
def Beats (c c' : Controller) : Prop :=
  ∃ phase updatedAt reason, c' = { c with
    state := { c.state with phase := phase, updatedAt := updatedAt }
    stopReason := reason }

theorem Beats.refl (c : Controller) : Beats c c := ⟨c.state.phase, c.state.updatedAt, c.stopReason, rfl⟩

theorem Beats.trans {c' c'' : Controller} (h : Beats c c') (h' : Beats c' c'') : Beats c c'' := by
  obtain ⟨_, _, _, rfl⟩ := h
  obtain ⟨p, u, r, rfl⟩ := h'
  exact ⟨p, u, r, rfl⟩

theorem Beats.unsettled {c' : Controller} (h : Beats c c') (hc : c.Unsettled) : c'.Unsettled := by
  obtain ⟨_, _, _, rfl⟩ := h
  exact hc

theorem Unsettled.reports (hc : c.Unsettled) : c.state.reports = false := by
  simp [ControllerState.reports, hc.1, hc.2]

/-- **`updateState`** of a state that reports no success. -/
theorem updateState_wp {post : Controller × Option Bytes → Facts → Prop} (hc : c.Unsettled)
    (hpost : ∀ c' err finished, Beats c c' → post (c', err)
      { s with
        beating := false
        beatFailed := s.beatFailed || s.beating && err.isSome
        finished := finished
        written := some err.isNone }) : (c.updateState phase).wp (watch c₀) post s := by
  have hquiet : c.state.reports = false := hc.reports
  refine ⟨trivial, fun now => ⟨⟨fun h => absurd (hquiet.symm.trans h) (by simp), fun h => absurd h hc.2⟩, fun err => ?_⟩⟩
  have hbeats : Beats c (c.stamp phase now) := ⟨_, _, _, rfl⟩
  have hsame : (s.done.verified || (c.stamp phase now).state.reports) = s.done.verified :=
    (congrArg (s.done.verified || ·) hquiet).trans (Bool.or_false _)
  have := hpost (c.stamp phase now) err (s.finished.or (some now)) hbeats
  simpa [watch, Facts.observe, hsame] using this

/-- Nothing was done from `s` to `t` but reading the clock and writing the state, and where `ok` says so no
heartbeat failed. -/
structure Calm (s t : Facts) (ok : Bool) : Prop where
  done : t.done = s.done
  beating : t.beating = false
  beats : ok = true → t.beatFailed = s.beatFailed

theorem Calm.trans {t u : Facts} {ok ok' : Bool} (h : Calm s t ok) (h' : Calm t u ok') : Calm s u (ok && ok') where
  done := h'.done.trans h.done
  beating := h'.beating
  beats hok := by
    simp only [Bool.and_eq_true] at hok
    exact (h'.beats hok.2).trans (h.beats hok.1)

theorem heartbeats_wp {post : Controller × Bool → Facts → Prop} {passed : Bool} (hc : c.Unsettled)
    (hpost : ∀ c' ok t, Beats c c' → Calm s t ok → post (c', passed && ok) t) :
    (c.heartbeats phase passed).wp (watch c₀) post s := by
  apply Prog.wp_forever fun x t => Beats c x.1 ∧ ∃ ok, x.2 = (passed && ok) ∧ t.done = s.done ∧
    (ok = true → t.beatFailed = s.beatFailed)
  · exact ⟨.refl c, true, by simp, rfl, fun _ => rfl⟩
  · rintro ⟨c', p⟩ t ⟨hc', ok, rfl, hdone, hok⟩
    apply ask_wp trivial
    intro fired
    cases fired with
    | false => exact hpost c' ok _ hc' ⟨hdone, rfl, hok⟩
    | true =>
        apply Prog.wp_seq
        apply updateState_wp (hc'.unsettled hc)
        intro c'' err finished hc''
        refine ⟨hc'.trans hc'', ok && err.isNone, ?_, hdone, ?_⟩
        · exact Bool.and_assoc _ _ _
        · intro h
          simp only [Bool.and_eq_true] at h
          cases err with
          | some _ => exact absurd h.2 (by simp)
          | none => simpa [watch, Facts.observe] using hok h.1

theorem retryPause_wp {post : Controller × Bool → Facts → Prop} (hc : c.Unsettled) (hs : s.beating = false)
    (hpost : ∀ c' ok t, Beats c c' → Calm s t ok → post (c', ok) t) :
    (c.retryPause phase).wp (watch c₀) post s := by
  unfold retryPause
  split
  -- a pause is calm as long as its heartbeats are saved
  · apply Prog.wp_forever fun x t => Beats c x ∧ Calm s t true
    · exact ⟨.refl c, rfl, hs, fun _ => rfl⟩
    · rintro c' t ⟨hc', hcalm⟩
      apply ask_wp trivial
      intro fired
      cases fired with
      | false => exact hpost c' true _ hc' ⟨hcalm.done, rfl, hcalm.beats⟩
      | true =>
          apply Prog.wp_seq
          apply updateState_wp (hc'.unsettled hc)
          intro c'' err finished hc''
          cases err with
          | some _ => exact hpost c'' false _ (hc'.trans hc'') ⟨hcalm.done, rfl, fun h => absurd h (by simp)⟩
          | none => exact ⟨hc'.trans hc'', hcalm.done, rfl, fun _ => by simpa [watch, Facts.observe] using hcalm.beats rfl⟩
  · apply ask_wp trivial
    intro _
    apply Prog.wp_seq
    apply updateState_wp hc
    intro c' err finished hc'
    exact hpost c' _ _ hc' ⟨rfl, rfl, fun _ => by simp [watch, Facts.observe, hs]⟩

theorem runWithHeartbeat_wp {post : Controller × Bool × ExecutionResult → Facts → Prop} {command : Command}
    (hc : c.Unsettled) (hs : s.done.verified = false)
    (hpost : ∀ c' ok outcome t, Beats c c' → t.done = (s.done.start command).finish outcome → t.beating = false →
      (ok = true → t.beatFailed = s.beatFailed) → post (c', ok, outcome) t) :
    (c.runWithHeartbeat command phase).wp (watch c₀) post s := by
  apply ask_wp hs
  intro _
  apply Prog.wp_seq
  apply heartbeats_wp hc
  intro c' ok t hc' hcalm
  apply ask_wp trivial
  intro outcome
  refine hpost c' ok outcome _ hc' ?_ hcalm.beating hcalm.beats
  show t.done.finish outcome = _
  rw [hcalm.done]
  rfl

theorem accountWithHeartbeat_wp {post : Controller × Bool × Except Bytes Bytes → Facts → Prop} (hc : c.Unsettled)
    (hpost : ∀ c' ok account t, Beats c c' → Calm s t ok → post (c', ok, account) t) :
    c.accountWithHeartbeat.wp (watch c₀) post s := by
  apply Prog.wp_seq
  apply heartbeats_wp hc
  intro c' ok t hc' hcalm
  apply ask_wp trivial
  intro account
  exact hpost c' ok account t hc' hcalm

/-! ## The transcript -/

/-- A line is written, or it is among those that were not. -/
theorem writeLine_wp {post : Bool → Facts → Prop} {line : Line} (hok : post true s)
    (hlost : post false { s with done := { s.done with unwritten := line :: s.done.unwritten } }) :
    (writeLine line).wp (watch c₀) post s := by
  refine ⟨trivial, fun err => ?_⟩
  cases err with
  | none => exact hok
  | some _ => exact hlost

/-- The account lines are the only ones whose loss goes unnoticed. -/
theorem verifyAttempts_wp {post : Controller × Bool × Option Bytes → Facts → Prop} {account lastError : Bytes}
    {attempts : List Nat} {passed : Bool} (hc : c.Unsettled) (hs : s.beating = false)
    (hpost : ∀ c' ok err lines t, Beats c c' → (∀ line ∈ lines, Line.identity line = true) →
      Calm { s with done := { s.done with unwritten := lines ++ s.done.unwritten } } t ok → post (c', passed && ok, err) t) :
    (verifyAttempts account attempts c passed lastError).wp (watch c₀) post s := by
  induction attempts generalizing c s passed lastError with
  | nil =>
      have hend := fun err => hpost c true (some err) [] s (.refl c) (fun _ h => absurd h (by simp)) ⟨rfl, hs, fun _ => rfl⟩
      simp only [Bool.and_true] at hend
      exact hend _
  | cons attempt attempts ih =>
      apply Prog.wp_seq
      apply accountWithHeartbeat_wp hc
      intro c' ok current t hc' hcalm
      cases current with
      | ok current =>
          by_cases hcurrent : current = account
          · simp only [hcurrent, ne_eq, not_true_eq_false, if_false]
            apply ask_wp trivial
            intro err
            cases err with
            | none => exact hpost c' ok none [] _ hc' (fun _ h => absurd h (by simp)) hcalm
            | some _ =>
                refine hpost c' ok none [.identityMatched attempt] _ hc' (by simp [Line.identity]) ⟨?_, hcalm.beating, hcalm.beats⟩
                show { t.done with unwritten := .identityMatched attempt :: t.done.unwritten } = _
                rw [hcalm.done]
                rfl
          · simp only [ne_eq, hcurrent, not_false_eq_true, if_true]
            exact hpost c' ok _ [] _ hc' (fun _ h => absurd h (by simp)) hcalm
      | error err =>
          apply ask_wp trivial
          intro lost
          -- the line is lost or not; what follows starts from either
          obtain ⟨lines, hlines, hnext⟩ : ∃ lines, (∀ line ∈ lines, Line.identity line = true) ∧
              Calm { s with done := { s.done with unwritten := lines ++ s.done.unwritten } }
                ((watch c₀).next t (.transcript (.identityFailed attempt err)) lost) ok := by
            cases lost with
            | none => exact ⟨[], fun _ h => absurd h (by simp), hcalm⟩
            | some _ =>
                refine ⟨[.identityFailed attempt err], by simp [Line.identity], ?_, hcalm.beating, hcalm.beats⟩
                show { t.done with unwritten := .identityFailed attempt err :: t.done.unwritten } = _
                rw [hcalm.done]
                rfl
          have hrest : ∀ {c'' : Controller} {u : Facts} {pause : Bool}, Beats c c'' →
              Calm ((watch c₀).next t (.transcript (.identityFailed attempt err)) lost) u pause →
                (verifyAttempts account attempts c'' (passed && (ok && pause)) err).wp (watch c₀) post u := by
            intro c'' u pause hc'' hu
            apply ih (hc''.unsettled hc) hu.beating
            intro c₃ ok₃ err₃ lines₃ v hc₃ hlines₃ hv
            have hpassed : (passed && (ok && pause) && ok₃) = (passed && (ok && pause && ok₃)) := by
              simp only [Bool.and_assoc]
            rw [hpassed]
            refine hpost c₃ _ err₃ (lines₃ ++ lines) v (hc''.trans hc₃) ?_ ⟨?_, hv.beating, fun h => ?_⟩
            · intro line hline
              rcases List.mem_append.mp hline with h | h
              · exact hlines₃ line h
              · exact hlines line h
            · rw [hv.done, hu.done, hnext.done, List.append_assoc]
            · simp only [Bool.and_eq_true] at h
              exact (hv.beats h.2).trans ((hu.beats h.1.2).trans (hnext.beats h.1.1))
          split
          · apply Prog.wp_seq
            apply retryPause_wp (hc'.unsettled hc) hnext.beating
            intro c'' pause u hc'' hu
            have hpassed : (pause && (passed && ok)) = (passed && (ok && pause)) := by
              rw [Bool.and_comm, Bool.and_assoc]
            show (verifyAttempts account attempts c'' (pause && (passed && ok)) err).wp _ _ _
            rw [hpassed]
            exact hrest (hc'.trans hc'') hu
          · have := @hrest c' _ true hc' ⟨rfl, hnext.beating, fun _ => rfl⟩
            rwa [Bool.and_true] at this

theorem verifyAccount_wp {post : Controller × Bool × Option Bytes → Facts → Prop} (hc : c.Unsettled)
    (hs : s.beating = false)
    (hpost : ∀ c' ok err lines t, Beats c c' → (∀ line ∈ lines, Line.identity line = true) →
      Calm { s with done := { s.done with unwritten := lines ++ s.done.unwritten } } t ok → post (c', ok, err) t) :
    c.verifyAccount.wp (watch c₀) post s := by
  have hnothing : ∀ err, post (c, true, err) s := fun err =>
    hpost c true err [] s (.refl c) (fun _ h => absurd h (by simp)) ⟨rfl, hs, fun _ => rfl⟩
  apply ask_wp trivial
  intro receipt
  cases receipt with
  | error err => exact hnothing _
  | ok account =>
      show Prog.wp _ (if _ then _ else _) _ _
      split
      · apply verifyAttempts_wp hc hs
        simpa using hpost
      · exact hnothing _

/-! ## The log groups -/

/-- From `s` to `t` log groups were deleted and lines written, and nothing else was done; where `passed` says
so every line was written and every group of the list was deleted. -/
structure Deletes (names : List Bytes) (s t : Facts) (ok passed : Bool) : Prop where
  done : t.done = { s.done with deleted := t.done.deleted, unwritten := t.done.unwritten }
  beating : t.beating = false
  beats : ok = true → t.beatFailed = s.beatFailed
  written : passed = true → t.done.unwritten = s.done.unwritten
  kept : ∀ name ∈ s.done.deleted, name ∈ t.done.deleted
  deleted : passed = true → ∀ name ∈ names, name ∈ t.done.deleted

theorem Calm.deletes {t : Facts} {ok : Bool} (h : Calm s t ok) : Deletes [] s t ok true where
  done := by rw [h.done]
  beating := h.beating
  beats := h.beats
  written _ := by rw [h.done]
  kept _ hname := by rwa [h.done]
  deleted _ _ hname := absurd hname (by simp)

/-- A group is deleted. -/
theorem Calm.deletes_one {t : Facts} {ok : Bool} (h : Calm s t ok) (name : Bytes) :
    Deletes [name] s { t with done := { t.done with deleted := name :: t.done.deleted } } ok true where
  done := by simp [h.done]
  beating := h.beating
  beats := h.beats
  written _ := by simp [h.done]
  kept _ hname := by simp [h.done, hname]
  deleted _ _ hname := by simp [List.mem_singleton.mp hname]

theorem Deletes.trans {names names' : List Bytes} {t u : Facts} {ok ok' passed passed' : Bool}
    (h : Deletes names s t ok passed) (h' : Deletes names' t u ok' passed') :
    Deletes (names ++ names') s u (ok && ok') (passed && passed') where
  done := by rw [h'.done, h.done]
  beating := h'.beating
  beats hok := by
    simp only [Bool.and_eq_true] at hok
    exact (h'.beats hok.2).trans (h.beats hok.1)
  written hp := by
    simp only [Bool.and_eq_true] at hp
    exact (h'.written hp.2).trans (h.written hp.1)
  kept name hname := h'.kept name (h.kept name hname)
  deleted hp name hname := by
    simp only [Bool.and_eq_true] at hp
    rcases List.mem_append.mp hname with hn | hn
    · exact h'.kept name (h.deleted hp.1 name hn)
    · exact h'.deleted hp.2 name hn

/-- What is claimed of fewer names, or with less, is still so. -/
theorem Deletes.weaken {names names' : List Bytes} {t : Facts} {ok ok' passed passed' : Bool}
    (h : Deletes names s t ok passed) (hok : ok' = true → ok = true) (hp : passed' = true → passed = true)
    (hnames : passed' = true → ∀ name ∈ names', name ∈ names) : Deletes names' s t ok' passed' where
  done := h.done
  beating := h.beating
  beats hok' := h.beats (hok hok')
  written hp' := h.written (hp hp')
  kept := h.kept
  deleted hp' name hname := h.deleted (hp hp') name (hnames hp' name hname)

/-- A line of the deletion. -/
theorem writeLine_deletes {post : Bool → Facts → Prop} {line : Line} (hs : s.beating = false)
    (hpost : ∀ ok t, Deletes [] s t true ok → post ok t) : (writeLine line).wp (watch c₀) post s := by
  apply writeLine_wp
  · exact hpost true s (Calm.deletes ⟨rfl, hs, fun _ => rfl⟩)
  · refine hpost false _ ⟨rfl, hs, fun _ => rfl, fun h => absurd h (by simp), fun _ h => h, fun h => absurd h (by simp)⟩

theorem deleteGroups_wp {post : Controller × Bool × Bool → Facts → Prop} {names : List Bytes} {beats passed : Bool}
    (hc : c.Unsettled) (hs : s.beating = false)
    (hpost : ∀ c' ok p t, Beats c c' → Deletes names s t ok p → post (c', beats && ok, passed && p) t) :
    (deleteGroups names c beats passed).wp (watch c₀) post s := by
  induction names generalizing c s beats passed with
  | nil =>
      have := hpost c true true s (.refl c) (Calm.deletes ⟨rfl, hs, fun _ => rfl⟩)
      simpa [deleteGroups] using this
  | cons name names ih =>
      -- a heartbeat, the line, and the rest: from the state after the deletion
      have hline : ∀ {line : Line} {c₁ : Controller} {u : Facts} {b p : Bool} (pass : Bool → Bool), Beats c c₁ →
          Deletes [name] s u b p → (∀ ok, pass ok = (passed && (p && ok))) →
          ((c₁.heartbeats .destroying (beats && b)) >>= fun x => writeLine line >>= fun ok =>
            deleteGroups names x.1 x.2 (pass ok)).wp (watch c₀) post u := by
        intro line c₁ u b p pass hc₁ hu hpass
        apply Prog.wp_seq
        apply heartbeats_wp (hc₁.unsettled hc)
        intro c₂ ok₂ v hc₂ hv
        apply Prog.wp_seq
        apply writeLine_deletes hv.beating
        intro ok w hw
        rw [hpass]
        apply ih ((hc₁.trans hc₂).unsettled hc) hw.beating
        intro c₃ ok₃ p₃ z hc₃ hz
        have hall := ((hu.trans hv.deletes).trans hw).trans hz
        simp only [Bool.and_true, List.append_nil, List.singleton_append] at hall
        have := hpost c₃ _ _ z ((hc₁.trans hc₂).trans hc₃) hall
        simpa only [Bool.and_assoc] using this
      apply Prog.wp_seq
      apply heartbeats_wp hc
      intro c₁ ok₁ t hc₁ ht
      apply ask_wp trivial
      intro err
      cases err with
      | some err =>
          refine hline (fun _ => false) hc₁ (p := false) ?_ fun ok => by simp
          exact ht.deletes.weaken id (fun h => absurd h (by simp)) fun h => absurd h (by simp)
      | none =>
          exact hline (fun ok => passed && ok) hc₁ (ht.deletes_one name) fun ok => by simp

/-- What `DeleteRuntimeLogs` leaves behind: where it passed, every line was written and every group that was
listed with one of the prefixes is gone. -/
structure LogsDone (s t : Facts) (ok passed : Bool) : Prop where
  done : t.done = { s.done with groups := t.done.groups, deleted := t.done.deleted, unwritten := t.done.unwritten }
  beating : t.beating = false
  beats : ok = true → t.beatFailed = s.beatFailed
  written : passed = true → t.done.unwritten = s.done.unwritten
  deleted : passed = true → ∃ names, t.done.groups = some names ∧ ∀ name ∈ runtimeLogs names, name ∈ t.done.deleted

/-- Nothing is claimed of a deletion that did not pass. -/
theorem Deletes.failed {names : List Bytes} {t : Facts} {ok passed : Bool} (h : Deletes names s t ok passed) :
    LogsDone s t ok false where
  done := by rw [h.done]
  beating := h.beating
  beats := h.beats
  written hp := absurd hp (by simp)
  deleted hp := absurd hp (by simp)

/-- The deletion after the groups were listed. -/
theorem Deletes.listed {names : List Bytes} {t u : Facts} {ok ok' passed passed' : Bool} (h : Deletes [] s t ok passed)
    (h' : Deletes (runtimeLogs names) { t with done := { t.done with groups := some names, deleted := [] } } u ok' passed') :
    LogsDone s u (ok && ok') (passed && passed') where
  done := by rw [h'.done, h.done]
  beating := h'.beating
  beats hok := by
    simp only [Bool.and_eq_true] at hok
    exact (h'.beats hok.2).trans (h.beats hok.1)
  written hp := by
    simp only [Bool.and_eq_true] at hp
    exact (h'.written hp.2).trans (h.written hp.1)
  deleted hp := by
    simp only [Bool.and_eq_true] at hp
    exact ⟨names, by rw [h'.done], h'.deleted hp.2⟩

theorem deleteLogsWithHeartbeat_wp {post : Controller × Bool × Bool → Facts → Prop} (hc : c.Unsettled)
    (hpost : ∀ c' ok p t, Beats c c' → LogsDone s t ok p → post (c', ok, p) t) :
    c.deleteLogsWithHeartbeat.wp (watch c₀) post s := by
  apply Prog.wp_seq
  apply heartbeats_wp hc
  intro c₁ ok₁ t₁ hc₁ ht₁
  apply Prog.wp_seq
  apply writeLine_deletes ht₁.beating
  intro p₁ t₂ ht₂
  apply Prog.wp_seq
  apply heartbeats_wp (hc₁.unsettled hc)
  intro c₂ ok₂ t₃ hc₂ ht₃
  have hc₁₂ := hc₁.trans hc₂
  have hstart := (ht₁.deletes.trans ht₂).trans ht₃.deletes
  simp only [Bool.true_and, Bool.and_true, List.append_nil] at hstart ⊢
  -- without a list of groups there is a line, and no pass
  have hfail : ∀ line, ((c₂.heartbeats .destroying (ok₁ && ok₂)) >>= fun x => writeLine line >>= fun _ =>
      x.1.heartbeats .destroying x.2 >>= fun y => pure (y.1, y.2, false)).wp (watch c₀) post t₃ := by
    intro line
    apply Prog.wp_seq
    apply heartbeats_wp (hc₁₂.unsettled hc)
    intro c₃ ok₃ t₄ hc₃ ht₄
    apply Prog.wp_seq
    apply writeLine_deletes ht₄.beating
    intro p₂ t₅ ht₅
    apply Prog.wp_seq
    apply heartbeats_wp ((hc₁₂.trans hc₃).unsettled hc)
    intro c₄ ok₄ t₆ hc₄ ht₆
    have hall := ((hstart.trans ht₄.deletes).trans ht₅).trans ht₆.deletes
    simp only [Bool.and_true, List.append_nil] at hall
    exact hpost c₄ _ false t₆ ((hc₁₂.trans hc₃).trans hc₄) hall.failed
  apply ask_wp trivial
  intro groups
  cases groups with
  | failed err => exact hfail (.describeFailed err)
  | invalid err => exact hfail (.invalidResponse err)
  | names names =>
      apply Prog.wp_seq
      refine deleteGroups_wp (hc₁₂.unsettled hc) ?_ ?_
      · exact hstart.beating
      intro c₃ ok₃ p₃ t₄ hc₃ ht₄
      apply Prog.wp_seq
      apply heartbeats_wp ((hc₁₂.trans hc₃).unsettled hc)
      intro c₄ ok₄ t₅ hc₄ ht₅
      have hc₁₄ := (hc₁₂.trans hc₃).trans hc₄
      have hgone := ht₄.trans ht₅.deletes
      simp only [Bool.and_true, List.append_nil] at hgone
      split
      · apply Prog.wp_seq
        apply writeLine_deletes hgone.beating
        intro p₅ t₆ ht₆
        apply Prog.wp_seq
        apply heartbeats_wp (hc₁₄.unsettled hc)
        intro c₅ ok₅ t₇ hc₅ ht₇
        have hall := (hgone.trans ht₆).trans ht₇.deletes
        simp only [Bool.and_true, List.append_nil] at hall
        have := hpost c₅ _ _ t₇ (hc₁₄.trans hc₅) (hstart.listed hall)
        simpa only [Prog.pure_eq, Prog.wp_pure, Bool.and_assoc] using this
      · have := hpost c₄ _ _ t₅ hc₁₄ (hstart.listed hgone)
        simpa only [Prog.pure_eq, Prog.wp_pure, Bool.and_assoc] using this

/-! ## The cleanup -/

/-- What the cleanup knows of the facts, whatever it has done so far. -/
structure Tracks (c₀ : Controller) (applyStatus : Int) (hard : Time) (s : Facts) (f : Findings) : Prop where
  apply : s.done.exit .awsUp = some applyStatus
  session : ∃ session started destroy, s.done.session = some session ∧
    validateSession session c₀.runID c₀.commit = .ok (started, destroy, hard)
  unverified : s.done.verified = false
  beating : s.beating = false
  heartbeats : f.heartbeatPassed = true → s.beatFailed = false
  opened : f.transcriptPassed = true → s.done.opened = true
  lines : f.transcriptPassed = true → f.logsPassed = true → ∀ line ∈ s.done.unwritten, line.identity = true

variable {applyStatus : Int} {hard : Time} {f f' : Findings} {t : Facts}

/-- What the facts and the findings have to keep for it. -/
theorem Tracks.step (h : Tracks c₀ applyStatus hard s f) (hexit : t.done.exit .awsUp = s.done.exit .awsUp)
    (hsession : t.done.session = s.done.session) (hverified : t.done.verified = s.done.verified)
    (hbeating : t.beating = false)
    (hbeats : f'.heartbeatPassed = true → f.heartbeatPassed = true ∧ t.beatFailed = s.beatFailed)
    (hopened : t.done.opened = s.done.opened) (htranscript : f'.transcriptPassed = true → f.transcriptPassed = true)
    (hlines : f'.transcriptPassed = true → f'.logsPassed = true → f.logsPassed = true ∧ t.done.unwritten = s.done.unwritten) :
    Tracks c₀ applyStatus hard t f' where
  apply := hexit.trans h.apply
  session := by rw [hsession]; exact h.session
  unverified := hverified.trans h.unverified
  beating := hbeating
  heartbeats hp := (hbeats hp).2.trans (h.heartbeats (hbeats hp).1)
  opened hp := hopened.trans (h.opened (htranscript hp))
  lines hp hl := by
    rw [(hlines hp hl).2]
    exact h.lines (htranscript hp) (hlines hp hl).1

/-- A command other than the apply has run. -/
theorem Tracks.ran {command : Command} {outcome : ExecutionResult} {ok : Bool} (h : Tracks c₀ applyStatus hard s f)
    (hcommand : command ≠ .awsUp) (hdone : t.done = (s.done.start command).finish outcome) (hbeating : t.beating = false)
    (hok : ok = true → t.beatFailed = s.beatFailed) (hf : f'.heartbeatPassed = (f.heartbeatPassed && ok))
    (htranscript : f'.transcriptPassed = f.transcriptPassed) (hlogs : f'.logsPassed = f.logsPassed) :
    Tracks c₀ applyStatus hard t f' := by
  apply h.step <;> try rw [hdone]
  · simp [Done.finish, Done.start, Done.exited, hcommand.symm]
  · rfl
  · rfl
  · exact hbeating
  · intro hp
    simp only [hf, Bool.and_eq_true] at hp
    exact ⟨hp.1, hok hp.2⟩
  · rfl
  · rw [htranscript]
    exact id
  · rw [hlogs]
    exact fun _ hl => ⟨hl, rfl⟩

/-- A pause, or a state written. -/
theorem Tracks.calm {ok : Bool} (h : Tracks c₀ applyStatus hard s f) (ht : Calm s t ok)
    (hf : f'.heartbeatPassed = (ok && f.heartbeatPassed)) (htranscript : f'.transcriptPassed = f.transcriptPassed)
    (hlogs : f'.logsPassed = f.logsPassed) : Tracks c₀ applyStatus hard t f' := by
  apply h.step <;> try rw [ht.done]
  · exact ht.beating
  · intro hp
    simp only [hf, Bool.and_eq_true] at hp
    exact ⟨hp.2, ht.beats hp.1⟩
  · rw [htranscript]
    exact id
  · rw [hlogs]
    exact fun _ hl => ⟨hl, rfl⟩

/-- The clock is read. -/
theorem Tracks.now (h : Tracks c₀ applyStatus hard s f) {finished : Option Time} :
    Tracks c₀ applyStatus hard { s with finished := finished } f :=
  h.step rfl rfl rfl h.beating (fun hp => ⟨hp, rfl⟩) rfl id fun _ hl => ⟨hl, rfl⟩

/-- From `s` to `t` runs of one command came to an end, and nothing else was done that matters. -/
structure Ran (command : Command) (s t : Facts) : Prop where
  done : t.done = { s.done with
    up := t.done.up, down := t.done.down, running := t.done.running, exit := t.done.exit, unwritten := t.done.unwritten }
  exit : ∀ other, other ≠ command → t.done.exit other = s.done.exit other
  down : s.done.down = true → t.done.down = true

theorem Ran.trans {command : Command} {u : Facts} (h : Ran command s t) (h' : Ran command t u) : Ran command s u where
  done := by rw [h'.done, h.done]
  exit other hother := (h'.exit other hother).trans (h.exit other hother)
  down hs := h'.down (h.down hs)

theorem Calm.ran {ok : Bool} (h : Calm s t ok) (command : Command) : Ran command s t where
  done := by rw [h.done]
  exit _ _ := by rw [h.done]
  down hs := by rwa [h.done]

theorem Ran.finish {command : Command} {outcome : ExecutionResult} (h : t.done = (s.done.start command).finish outcome) :
    Ran command s t where
  done := by
    rw [h]
    rfl
  exit other hother := by
    rw [h]
    simp [Done.finish, Done.start, Done.exited, hother]
  down hs := by
    rw [h]
    simp [Done.finish, Done.start, Done.exited, hs]

/-- A line, with what it means for the transcript. -/
theorem writeLine_tracks {post : Bool → Facts → Prop} {line : Line} (h : Tracks c₀ applyStatus hard s f)
    (hpost : ∀ ok t, Tracks c₀ applyStatus hard t { f with transcriptPassed := f.transcriptPassed && ok } →
      (∀ command, Ran command s t) → t.done.exit = s.done.exit → t.done.down = s.done.down → post ok t) :
    (writeLine line).wp (watch c₀) post s := by
  apply writeLine_wp
  · refine hpost true s ?_ (fun command => ⟨rfl, fun _ _ => rfl, id⟩) rfl rfl
    simpa using h
  · refine hpost false _ ?_ (fun command => ⟨rfl, fun _ _ => rfl, id⟩) rfl rfl
    exact h.step rfl rfl rfl h.beating (fun hp => ⟨hp, rfl⟩) rfl (fun hp => absurd hp (by simp)) fun hp => absurd hp (by simp)

/-- A run of a command other than the apply: its result, or an unconfirmed exit. -/
theorem runWithHeartbeat_tracks {post : Controller × Bool × ExecutionResult → Facts → Prop} {command : Command}
    (hc : c.Unsettled) (h : Tracks c₀ applyStatus hard s f) (hcommand : command ≠ .awsUp)
    (hpost : ∀ c' ok outcome t, Beats c c' →
      Tracks c₀ applyStatus hard t { f with heartbeatPassed := f.heartbeatPassed && ok } → Ran command s t →
        (outcome.err = none → t.done.exit command = some outcome.status) → (command = .awsDown → t.done.down = true) →
          post (c', ok, outcome) t) :
    (c.runWithHeartbeat command phase).wp (watch c₀) post s := by
  apply runWithHeartbeat_wp hc h.unverified
  intro c' ok outcome t hc' hdone hbeating hok
  apply hpost c' ok outcome t hc' (h.ran hcommand hdone hbeating hok rfl rfl rfl) (.finish hdone)
  · intro herr
    rw [hdone]
    simp [Done.finish, Done.start, Done.exited, ExecutionResult.confirmed, herr]
  · rintro rfl
    rw [hdone]
    simp [Done.finish, Done.start, Done.exited]

/-! ## Destroying -/

/-- What the last `aws-down` left. -/
def Destroyed (s : Facts) (f : Findings) : Prop := s.done.down = true ∧ s.done.exit .awsDown = some f.destroyStatus

theorem destroy_wp {post : Controller × Except Bytes Findings → Facts → Prop} {attempts : List Nat} (hc : c.Unsettled)
    (h : Tracks c₀ applyStatus hard s f) (hd : attempts = [] → Destroyed s f)
    (herr : ∀ c' err t, post (c', .error err) t)
    (hok : ∀ c' f' t, Beats c c' → Tracks c₀ applyStatus hard t f' → Destroyed t f' →
      f'.logsPassed = f.logsPassed → post (c', .ok f') t) :
    (destroy hard attempts c f).wp (watch c₀) post s := by
  -- on the attempts that are left, the findings being those of the last one made
  induction attempts generalizing c s f with
  | nil => exact hok c f s (.refl c) h (hd rfl) rfl
  | cons attempt attempts ih =>
      apply ask_wp trivial
      intro now
      apply Prog.wp_seq
      apply writeLine_tracks h.now
      intro ok₁ t₁ h₁ _ _ _
      apply Prog.wp_seq
      apply runWithHeartbeat_tracks hc h₁ (by simp)
      rintro c₂ ok₂ ⟨status, err⟩ t₂ hc₂ h₂ _ hexit hdown
      cases err with
      | some err => exact herr c₂ _ t₂
      | none =>
          apply Prog.wp_seq
          apply writeLine_tracks h₂
          intro ok₃ t₃ h₃ _ hsame hdown₃
          have hfound : Tracks c₀ applyStatus hard t₃ { f with
              heartbeatPassed := f.heartbeatPassed && ok₂
              transcriptPassed := f.transcriptPassed && ok₁ && ok₃
              destroyStatus := status } := ⟨h₃.apply, h₃.session, h₃.unverified, h₃.beating, h₃.heartbeats, h₃.opened, h₃.lines⟩
          have hdestroyed : Destroyed t₃ { f with
              heartbeatPassed := f.heartbeatPassed && ok₂
              transcriptPassed := f.transcriptPassed && ok₁ && ok₃
              destroyStatus := status } := by
            refine ⟨by rw [hdown₃, hdown rfl], ?_⟩
            rw [hsame]
            exact hexit rfl
          -- another attempt starts from what this one found
          have hagain : ∀ {c' : Controller} {u : Facts} {f' : Findings}, Beats c₂ c' → Tracks c₀ applyStatus hard u f' →
              Destroyed u f' → f'.logsPassed = f.logsPassed → (destroy hard attempts c' f').wp (watch c₀) post u := by
            intro c' u f' hc' hu hd' hf'
            apply ih ((hc₂.trans hc').unsettled hc) hu fun _ => hd'
            exact fun c'' f'' v hc'' hv hd'' hf'' => hok c'' f'' v ((hc₂.trans hc').trans hc'') hv hd'' (hf''.trans hf')
          split
          · exact hok c₂ _ t₃ hc₂ hfound hdestroyed rfl
          · split
            · apply ask_wp trivial
              intro later
              split
              · apply Prog.wp_seq
                refine retryPause_wp (hc₂.unsettled hc) ?_ ?_
                · exact h₃.beating
                intro c' pause u hc' hu
                refine hagain hc' ?_ ⟨?_, ?_⟩ rfl
                · exact hfound.now.calm hu rfl rfl rfl
                · exact (congrArg Done.down hu.done).trans hdestroyed.1
                · exact (congrFun (congrArg Done.exit hu.done) _).trans hdestroyed.2
              · exact hagain (.refl c₂) hfound.now hdestroyed rfl
            · exact hagain (.refl c₂) hfound hdestroyed rfl

/-! ## Verifying -/

/-- What was found before the transcript was closed. -/
structure Evidence (s : Facts) (f : Findings) : Prop where
  destroyed : Destroyed s f
  logs : f.logsPassed = true → ∃ names, s.done.groups = some names ∧ ∀ name ∈ runtimeLogs names, name ∈ s.done.deleted
  stateEmpty : s.done.exit .stateEmpty = some f.stateStatus
  closed : f.transcriptPassed = true → s.done.closed = true

theorem Evidence.now (h : Evidence s f) {finished : Option Time} : Evidence { s with finished := finished } f :=
  ⟨h.destroyed, h.logs, h.stateEmpty, h.closed⟩

/-- It stays so while other commands run. -/
theorem Evidence.ran {command : Command} (h : Evidence s f) (ht : Ran command s t) (hdown : command ≠ .awsDown)
    (hstate : command ≠ .stateEmpty) (hf : f'.destroyStatus = f.destroyStatus ∧ f'.logsPassed = f.logsPassed ∧
      f'.stateStatus = f.stateStatus ∧ f'.transcriptPassed = f.transcriptPassed) : Evidence t f' where
  destroyed := ⟨ht.down h.destroyed.1, by rw [ht.exit _ hdown.symm, hf.1]; exact h.destroyed.2⟩
  logs hl := by
    rw [ht.done]
    exact h.logs (hf.2.1 ▸ hl)
  stateEmpty := by rw [ht.exit _ hstate.symm, hf.2.2.1]; exact h.stateEmpty
  closed hp := by
    rw [ht.done]
    exact h.closed (hf.2.2.2 ▸ hp)

theorem inventory_wp {post : Controller × Except Bytes Findings → Facts → Prop} {attempts : List Nat} (hc : c.Unsettled)
    (h : Tracks c₀ applyStatus hard s f) (he : Evidence s f)
    (hi : attempts = [] → s.done.exit .inventoryEmpty = some f.inventoryStatus)
    (herr : ∀ c' err t, post (c', .error err) t)
    (hok : ∀ c' f' t, Beats c c' → Tracks c₀ applyStatus hard t f' → Evidence t f' →
      t.done.exit .inventoryEmpty = some f'.inventoryStatus → post (c', .ok f') t) :
    (inventory hard attempts c f).wp (watch c₀) post s := by
  -- on the attempts that are left, as for the destroy
  induction attempts generalizing c s f with
  | nil => exact hok c f s (.refl c) h he (hi rfl)
  | cons attempt attempts ih =>
      apply Prog.wp_seq
      apply runWithHeartbeat_tracks hc h (by simp)
      rintro c₂ ok₂ ⟨status, err⟩ t₂ hc₂ h₂ hran hexit _
      cases err with
      | some err => exact herr c₂ _ t₂
      | none =>
          have hfound : Tracks c₀ applyStatus hard t₂
              { f with heartbeatPassed := f.heartbeatPassed && ok₂, inventoryStatus := status } :=
            ⟨h₂.apply, h₂.session, h₂.unverified, h₂.beating, h₂.heartbeats, h₂.opened, h₂.lines⟩
          have hevidence : Evidence t₂
              { f with heartbeatPassed := f.heartbeatPassed && ok₂, inventoryStatus := status } :=
            he.ran hran (by simp) (by simp) ⟨rfl, rfl, rfl, rfl⟩
          -- another attempt starts from what this one found
          have hagain : ∀ {c' : Controller} {u : Facts} {f' : Findings}, Beats c₂ c' → Tracks c₀ applyStatus hard u f' →
              Evidence u f' → u.done.exit .inventoryEmpty = some f'.inventoryStatus →
                (inventory hard attempts c' f').wp (watch c₀) post u := by
            intro c' u f' hc' hu he' hi'
            apply ih ((hc₂.trans hc').unsettled hc) hu he' fun _ => hi'
            exact fun c'' f'' v hc'' => hok c'' f'' v ((hc₂.trans hc').trans hc'')
          show Prog.wp _ (if status = 0 then _ else _) _ _
          split
          · exact hok c₂ _ t₂ hc₂ hfound hevidence (hexit rfl)
          · split
            · apply ask_wp trivial
              intro later
              split
              · apply Prog.wp_seq
                refine retryPause_wp (hc₂.unsettled hc) ?_ ?_
                · exact h₂.beating
                intro c' pause u hc' hu
                refine hagain hc' ?_ ?_ ?_
                · exact hfound.now.calm hu rfl rfl rfl
                · exact hevidence.now.ran (hu.ran .awsCost) (by simp) (by simp) ⟨rfl, rfl, rfl, rfl⟩
                · exact (congrFun (congrArg Done.exit hu.done) _).trans (hexit rfl)
              · exact hagain (.refl c₂) hfound.now hevidence.now (hexit rfl)
            · exact hagain (.refl c₂) hfound hevidence (hexit rfl)

/-- The cost observation: a status of 0 is the command's, and the clock has not been read since. -/
theorem cost_wp {post : Controller × Except Bytes Findings → Facts → Prop} (hc : c.Unsettled)
    (h : Tracks c₀ applyStatus hard s f) (he : Evidence s f)
    (hi : s.done.exit .inventoryEmpty = some f.inventoryStatus) (herr : ∀ c' err t, post (c', .error err) t)
    (hok : ∀ c' f' t, Beats c c' → Tracks c₀ applyStatus hard t f' → Evidence t f' →
      t.done.exit .inventoryEmpty = some f'.inventoryStatus →
        (f'.costStatus = 0 → t.done.exit .awsCost = some 0 ∧ t.finished = none) → post (c', .ok f') t) :
    (c.cost f).wp (watch c₀) post s := by
  apply ask_wp trivial
  intro opened
  cases opened with
  | some err =>
      exact hok c _ s (.refl c) ⟨h.apply, h.session, h.unverified, h.beating, h.heartbeats, h.opened, h.lines⟩
        ⟨he.destroyed, he.logs, he.stateEmpty, he.closed⟩ hi fun h1 => absurd h1 (by simp)
  | none =>
      apply Prog.wp_seq
      apply runWithHeartbeat_tracks hc h (by simp)
      rintro c₂ ok₂ ⟨status, err⟩ t₂ hc₂ h₂ hran hexit _
      cases err with
      | some err =>
          apply ask_wp trivial
          intro _
          exact herr c₂ _ _
      | none =>
          apply ask_wp trivial
          intro closeErr
          refine hok c₂ _ _ hc₂ ?_ ?_ ?_ ?_
          · exact ⟨h₂.apply, h₂.session, h₂.unverified, h₂.beating, h₂.heartbeats, h₂.opened, h₂.lines⟩
          · have : Evidence t₂ f := he.ran hran (by simp) (by simp) ⟨rfl, rfl, rfl, rfl⟩
            exact ⟨this.destroyed, this.logs, this.stateEmpty, this.closed⟩
          · exact (hran.exit _ (by simp)).trans hi
          -- a status of 0 needs the file to have been closed as well
          · intro hzero
            refine ⟨?_, rfl⟩
            cases closeErr with
            | some _ => exact absurd hzero (by simp)
            | none =>
                have hstatus : status = 0 := by simpa using hzero
                exact (hexit rfl).trans (congrArg some hstatus)

/-! ## The verdict -/

/-- `updateState` at the end of a run that reports no success. -/
theorem updateState_ends {code : Int} (hc : c.Unsettled) (hcode : code ≠ 0)
    (hblocked : s.done.up = true → s.done.down = true ∨ c.state.cleanupBlockedReason.isSome = true) :
    ((c.updateState phase) >>= fun x => pure (x.1, code)).wp (watch c₀) (Promised c₀) s := by
  apply Prog.wp_seq
  apply updateState_wp hc
  rintro c' err finished ⟨p, u, r, rfl⟩
  exact ⟨hblocked, fun h => absurd h hcode⟩

/-- **An unconfirmed exit** ends the run, with its reason in the state. -/
theorem blockCleanupOnProcess_wp {err : Bytes} : (c.blockCleanupOnProcess err).wp (watch c₀) (Promised c₀) s := by
  apply updateState_ends
  · exact ⟨by simp, by simp⟩
  · simp
  · exact fun _ => Or.inr rfl

/-- What the findings claim is so. -/
theorem passed_of_evidence {finished : Time} (h : Tracks c₀ 0 hard s f) (he : Evidence s f)
    (hi : s.done.exit .inventoryEmpty = some f.inventoryStatus)
    (hcost : f.costStatus = 0 → s.done.exit .awsCost = some 0 ∧ s.finished = none)
    (hclean : f.cleanupPassed = true) (hevidence : f.evidencePassed = true) (hoverdue : hard.before finished = false)
    (ht : t.done.exit = s.done.exit ∧ t.done.groups = s.done.groups ∧ t.done.deleted = s.done.deleted ∧
      t.done.opened = s.done.opened ∧ t.done.unwritten = s.done.unwritten ∧ t.done.closed = s.done.closed ∧
        t.done.session = s.done.session ∧ t.beatFailed = s.beatFailed)
    (hfinished : s.finished = none → t.finished = some finished) : Passed c₀ t := by
  obtain ⟨hexit, hgroups, hdeleted, hopened, hunwritten, hclosed, hsession, hbeats⟩ := ht
  -- both verdicts are conjunctions, and each part answers for one line of `Passed`
  simp only [Findings.cleanupPassed, Bool.and_eq_true, beq_iff_eq] at hclean
  simp only [Findings.evidencePassed, Bool.and_eq_true, beq_iff_eq] at hevidence
  obtain ⟨⟨⟨⟨hdestroy, hlogs⟩, htranscript⟩, hcost0⟩, hheart⟩ := hevidence
  constructor
  · rw [hexit]
    exact h.apply
  · rw [hexit, he.destroyed.2, hdestroy]
  · obtain ⟨names, hnames, hgone⟩ := he.logs hlogs
    refine ⟨names, hgroups.trans hnames, fun name hname hpre => ?_⟩
    rw [hdeleted]
    apply hgone name
    obtain ⟨pre, hpre, hprefix⟩ := hpre
    apply (List.mem_mergeSort ..).mpr
    exact List.mem_filter.mpr ⟨hname, List.any_eq_true.mpr ⟨pre, hpre, List.isPrefixOf_iff_prefix.mpr hprefix⟩⟩
  · rw [hexit, he.stateEmpty, hclean.1]
  · rw [hexit, hi, hclean.2]
  · rw [hexit]
    exact (hcost hcost0).1
  · exact hopened.trans (h.opened htranscript)
  · rw [hunwritten]
    exact h.lines htranscript hlogs
  · exact hclosed.trans (he.closed htranscript)
  · exact hbeats.trans (h.heartbeats hheart)
  · obtain ⟨session, started, destroy, hs, hvalid⟩ := h.session
    exact ⟨session, started, destroy, hard, finished, hsession.trans hs, hvalid, hfinished (hcost hcost0).2, hoverdue⟩

/-- The last write of a verified cleanup: it is warranted, and an exit code of 0 is a pass that was written. -/
theorem complete_wp {code : Int} (hs : s.done.exit .stateEmpty = some 0 ∧ s.done.exit .inventoryEmpty = some 0)
    (hdown : s.done.down = true) (hbeating : s.beating = false)
    (hpass : c.state.result = some .passed → ∀ t, t.done.exit = s.done.exit → t.done.groups = s.done.groups →
      t.done.deleted = s.done.deleted → t.done.opened = s.done.opened → t.done.unwritten = s.done.unwritten →
        t.done.closed = s.done.closed → t.done.session = s.done.session → t.beatFailed = s.beatFailed →
          (∀ now, s.finished = some now → t.finished = some now) → Passed c₀ t)
    (hcode : code = 0 → c.state.result = some .passed) :
    ((c.updateState .complete) >>= fun x => if x.2.isSome then pure (x.1, 1) else pure (x.1, code)).wp
      (watch c₀) (Promised c₀) s := by
  have hkeep : ∀ (now later : Time), s.finished = some now → s.finished.or (some later) = some now := by
    rintro now later h
    rw [h]
    rfl
  apply Prog.wp_seq
  refine ⟨trivial, fun later => ⟨⟨fun _ => hs, fun h => ?_⟩, fun err => ?_⟩⟩
  · exact hpass h _ rfl rfl rfl rfl rfl rfl rfl rfl fun now => hkeep now later
  · cases err with
    | some _ => exact ⟨fun _ => Or.inl hdown, fun h => absurd h (by simp)⟩
    | none =>
        refine ⟨fun _ => Or.inl hdown, fun h => ⟨hpass (hcode h) _ rfl rfl rfl rfl rfl rfl rfl ?_ fun now => hkeep now later, rfl⟩⟩
        simp [watch, Facts.observe, hbeating]

theorem verdict_wp (h : Tracks c₀ applyStatus hard s f) (he : Evidence s f)
    (hi : s.done.exit .inventoryEmpty = some f.inventoryStatus)
    (hcost : f.costStatus = 0 → s.done.exit .awsCost = some 0 ∧ s.finished = none) :
    (c.verdict applyStatus hard f).wp (watch c₀) (Promised c₀) s := by
  apply ask_wp trivial
  intro finished
  have hdown : s.done.down = true := he.destroyed.1
  cases hclean : f.cleanupPassed with
  | false =>
      apply updateState_ends
      · exact ⟨by simp, by simp⟩
      · simp
      · exact fun _ => Or.inl hdown
  | true =>
      have hboth : s.done.exit .stateEmpty = some 0 ∧ s.done.exit .inventoryEmpty = some 0 := by
        simp only [Findings.cleanupPassed, Bool.and_eq_true, beq_iff_eq] at hclean
        rw [he.stateEmpty, hi, hclean.1, hclean.2]
        exact ⟨rfl, rfl⟩
      simp only [if_true]
      -- the four results, in the order of the code; the last one is a pass
      cases hoverdue : hard.before finished with
      | true =>
          simp only [if_true, or_true, true_or]
          exact complete_wp hboth hdown h.beating (fun hr => absurd hr (by simp)) (by simp)
      | false =>
          by_cases happly : applyStatus = 0
          · subst happly
            cases hevidence : f.evidencePassed with
            | false =>
                simp only [ne_eq, not_true_eq_false, Bool.false_eq_true, if_false, Bool.not_false, if_true, or_true]
                exact complete_wp hboth hdown h.beating (fun hr => absurd hr (by simp)) (by simp)
            | true =>
                simp only [ne_eq, not_true_eq_false, Bool.false_eq_true, if_false, Bool.not_true, reduceCtorEq, or_self]
                refine complete_wp hboth hdown h.beating ?_ fun _ => rfl
                intro _ t h1 h2 h3 h4 h5 h6 h7 h8 h9
                apply passed_of_evidence h he hi hcost hclean hevidence hoverdue ⟨h1, h2, h3, h4, h5, h6, h7, h8⟩
                intro hnone
                apply h9
                show s.finished.or (some finished) = some finished
                rw [hnone]
                rfl
          · simp only [ne_eq, happly, not_false_eq_true, Bool.false_eq_true, if_false, if_true, true_or]
            exact complete_wp hboth hdown h.beating (fun hr => absurd hr (by simp)) (by simp)

/-- From the end of the transcript on. -/
theorem verify_wp (hc : c.Unsettled) (h : Tracks c₀ applyStatus hard s f) (hd : Destroyed s f)
    (hlogs : f.logsPassed = true → ∃ names, s.done.groups = some names ∧
      ∀ name ∈ runtimeLogs names, name ∈ s.done.deleted)
    (hstate : s.done.exit .stateEmpty = some f.stateStatus) :
    (c.verify applyStatus hard f).wp (watch c₀) (Promised c₀) s := by
  apply ask_wp trivial
  intro closeErr
  apply Prog.wp_seq
  apply updateState_wp
  · exact hc
  intro c₁ err finished hc₁
  have hc₁' : c₁.Unsettled := hc₁.unsettled hc
  apply Prog.wp_seq
  apply inventory_wp hc₁'
  -- saving the results adds nothing to the findings but the close of the transcript
  · refine h.step rfl rfl rfl rfl (fun hp => ⟨hp, ?_⟩) rfl ?_ fun _ hl => ⟨hl, rfl⟩
    · show (s.beatFailed || s.beating && err.isSome) = s.beatFailed
      simp [h.beating]
    · intro hp
      simp only [Bool.and_eq_true] at hp
      exact hp.1
  · refine ⟨hd, hlogs, hstate, fun hp => ?_⟩
    simp only [Bool.and_eq_true] at hp
    exact hp.2
  · exact fun h => absurd h (by simp [inventoryAttempts])
  · exact fun c' err t => blockCleanupOnProcess_wp
  · intro c₂ f₂ t₂ hc₂ h₂ he₂ hi₂
    apply Prog.wp_seq
    apply cost_wp (hc₂.unsettled hc₁') h₂ he₂ hi₂
    · exact fun c' err t => blockCleanupOnProcess_wp
    · exact fun c₃ f₃ t₃ _ h₃ he₃ hi₃ hcost => verdict_wp h₃ he₃ hi₃ hcost

/-- **From the account's verification on.** -/
theorem tearDown_wp (hc : c.Unsettled) (h : Tracks c₀ applyStatus hard s f) (hf : f.logsPassed = true) :
    (c.tearDown applyStatus hard f).wp (watch c₀) (Promised c₀) s := by
  apply Prog.wp_seq
  apply destroy_wp hc h
  · exact fun h => absurd h (by simp [destroyAttempts])
  · intro c' err t
    apply ask_wp trivial
    intro _
    exact blockCleanupOnProcess_wp
  · intro c₁ f₁ t₁ hc₁ h₁ hd₁ hf₁
    apply Prog.wp_seq
    apply deleteLogsWithHeartbeat_wp (hc₁.unsettled hc)
    intro c₂ ok₂ logs t₂ hc₂ hlogs
    -- the log groups are seen to whatever the destroy came to
    have h₂ : Tracks c₀ applyStatus hard t₂ { f₁ with heartbeatPassed := f₁.heartbeatPassed && ok₂, logsPassed := logs } := by
      apply h₁.step
      · exact congrFun (congrArg Done.exit hlogs.done) _
      · rw [hlogs.done]
      · rw [hlogs.done]
      · exact hlogs.beating
      · intro hp
        simp only [Bool.and_eq_true] at hp
        exact ⟨hp.1, hlogs.beats hp.2⟩
      · rw [hlogs.done]
      · exact id
      · exact fun _ hl => ⟨hf₁.trans hf, hlogs.written hl⟩
    apply Prog.wp_seq
    apply runWithHeartbeat_tracks ((hc₁.trans hc₂).unsettled hc) h₂ (by simp)
    rintro c₃ ok₃ ⟨status, err⟩ t₃ hc₃ h₃ hran hexit _
    -- an exit that is not confirmed blocks the cleanup
    cases err with
    | some err =>
        apply ask_wp trivial
        intro _
        exact blockCleanupOnProcess_wp
    | none =>
        apply Prog.wp_seq
        apply writeLine_tracks h₃
        intro ok₄ t₄ h₄ hran₄ hsame hdown
        apply verify_wp (((hc₁.trans hc₂).trans hc₃).unsettled hc)
        · exact ⟨h₄.apply, h₄.session, h₄.unverified, h₄.beating, h₄.heartbeats, h₄.opened, h₄.lines⟩
        · constructor
          · rw [hdown]
            exact hran.down ((congrArg Done.down hlogs.done).trans hd₁.1)
          · rw [hsame, hran.exit _ (by simp)]
            exact (congrFun (congrArg Done.exit hlogs.done) _).trans hd₁.2
        · intro hl
          rw [(hran₄ .awsCost).done, hran.done]
          exact hlogs.deleted hl
        · rw [hsame]
          exact hexit rfl

/-- The facts before the cleanup: this session, and nothing that a failed write could have left. -/
structure Fresh (session : SessionReceipt) (s : Facts) : Prop where
  session : s.done.session = some session
  unverified : s.done.verified = false
  unwritten : s.done.unwritten = []
  beating : s.beating = false
  beatFailed : s.beatFailed = false

variable {session : SessionReceipt}

theorem Fresh.now (h : Fresh session s) {finished : Option Time} : Fresh session { s with finished := finished } :=
  ⟨h.session, h.unverified, h.unwritten, h.beating, h.beatFailed⟩

/-- The controller `c` belongs to `c₀`'s run. -/
def Belongs (c₀ c : Controller) : Prop := c.runID = c₀.runID ∧ c.commit = c₀.commit ∧ c.Unsettled

theorem Belongs.beats {c' : Controller} (h : Belongs c₀ c) (h' : Beats c c') : Belongs c₀ c' := by
  obtain ⟨_, _, _, rfl⟩ := h'
  exact h

/-- **`cleanup`** after an apply that ended with a status. -/
theorem cleanup_wp {started destroy : Time} (hc : Belongs c₀ c) (h : Fresh session s)
    (hvalid : validateSession session c₀.runID c₀.commit = .ok (started, destroy, hard))
    (happly : s.done.exit .awsUp = some applyStatus) :
    (c.cleanup session applyStatus).wp (watch c₀) (Promised c₀) s := by
  unfold cleanup
  rw [hc.1, hc.2.1, hvalid]
  apply ask_wp trivial
  intro now
  apply Prog.wp_seq
  apply updateState_wp
  · exact hc.2.2
  intro c₁ stateErr finished hc₁
  apply ask_wp trivial
  intro _
  apply ask_wp trivial
  intro openErr
  have hc₁' : c₁.Unsettled := hc₁.unsettled hc.2.2
  apply Prog.wp_seq
  apply verifyAccount_wp hc₁'
  · rfl
  intro c₂ ok identityErr lines t hc₂ hlines ht
  cases identityErr with
  | some err =>
      apply Prog.wp_seq
      -- whether the line was written makes no difference any more
      apply writeLine_wp
      all_goals
        apply ask_wp trivial
        intro closeErr
        apply updateState_ends
        · exact ⟨by simp, (hc₂.unsettled hc₁').2⟩
        · simp
        · exact fun _ => Or.inr rfl
  | none =>
      refine tearDown_wp (hc₂.unsettled hc₁') ⟨?_, ?_, ?_, ht.beating, ?_, ?_, ?_⟩ rfl
      · exact (congrFun (congrArg Done.exit ht.done) _).trans happly
      · exact ⟨session, started, destroy, (congrArg Done.session ht.done).trans h.session, hvalid⟩
      · exact (congrArg Done.verified ht.done).trans h.unverified
      · intro hp
        simp only [Bool.and_eq_true] at hp
        refine (ht.beats hp.2).trans ?_
        simp [watch, Facts.observe, h.beating, h.beatFailed]
      · exact fun hp => (congrArg Done.opened ht.done).trans hp
      · intro _ _ line hline
        rw [show t.done.unwritten = lines ++ s.done.unwritten from congrArg Done.unwritten ht.done, h.unwritten,
          List.append_nil] at hline
        exact hlines line hline

/-! ## Applying -/

/-- A state written before the cleanup. -/
theorem updateState_fresh {post : Controller × Option Bytes → Facts → Prop} (hc : c.Unsettled) (h : Fresh session s)
    (hpost : ∀ c' err t, Beats c c' → Fresh session t → t.done = s.done → post (c', err) t) :
    (c.updateState phase).wp (watch c₀) post s := by
  apply updateState_wp hc
  intro c' err finished hc'
  refine hpost c' err _ hc' ⟨h.session, h.unverified, h.unwritten, rfl, ?_⟩ rfl
  simp [h.beating, h.beatFailed]

/-- The result of the apply arrives. -/
theorem Fresh.finish (h : Fresh session s) (hrunning : s.done.running = some .awsUp) (outcome : ExecutionResult) :
    Fresh session (s.finish outcome) ∧
      (outcome.err = none → (s.finish outcome).done.exit .awsUp = some outcome.status) := by
  have hdone : (s.finish outcome).done = { s.done.exited .awsUp outcome.confirmed with running := none } := by
    show s.done.finish outcome = _
    unfold Done.finish
    rw [hrunning]
  refine ⟨⟨?_, ?_, ?_, h.beating, h.beatFailed⟩, fun herr => ?_⟩
  · rw [hdone]
    exact h.session
  · rw [hdone]
    exact h.unverified
  · rw [hdone]
    exact h.unwritten
  · rw [hdone]
    simp [Done.exited, ExecutionResult.confirmed, herr]

/-- What a stopped or finished apply leaves: its status, unless the exit is not confirmed. -/
def Applied (c : Controller) (session : SessionReceipt) (ended : Controller × ExecutionResult) (t : Facts) : Prop :=
  Beats c ended.1 ∧ Fresh session t ∧ (ended.2.err = none → t.done.exit .awsUp = some ended.2.status)

theorem stopApply_wp {initial : Sig} (hc : c.Unsettled) (h : Fresh session s) (hrunning : s.done.running = some .awsUp) :
    (c.stopApply initial).wp (watch c₀) (Applied c session) s := by
  apply ask_wp trivial
  intro _
  -- while the loop goes on the apply is still out
  apply Prog.wp_forever fun x t => Beats c x.1 ∧ Fresh session t ∧ t.done.running = some .awsUp
  · exact ⟨.refl c, h, hrunning⟩
  · rintro ⟨c', current⟩ t ⟨hc', ht, hrun⟩
    have hescalate : ∀ {post : (Controller × Sig) ⊕ (Controller × ExecutionResult) → Facts → Prop},
        (∀ z, Beats c z.1 → post (.inl z) t) → (c'.escalate current).wp (watch c₀) post t := by
      intro post hpost
      unfold escalate
      split
      · apply ask_wp trivial
        intro _
        exact hpost (c', _) hc'
      · exact hpost (c', _) hc'
    apply ask_wp trivial
    intro what
    cases what with
    | result outcome => exact ⟨hc', ht.finish hrun outcome⟩
    | escalate =>
        show Prog.wp _ (if _ then _ else _) _ _
        split
        · exact hescalate fun z hz => ⟨hz, ht, hrun⟩
        · apply ask_wp trivial
          intro ready
          -- the timer fired, but a result that has come in is taken first
          cases ready with
          | some outcome => exact ⟨hc', ht.finish hrun outcome⟩
          | none =>
              apply ask_wp trivial
              intro group
              exact ⟨hc', ht, fun h => absurd h (by simp)⟩
    | signal => exact hescalate fun z hz => ⟨hz, ht, hrun⟩
    | tick =>
        apply Prog.wp_seq
        apply updateState_fresh (hc'.unsettled hc)
        · exact ht
        intro c'' err u hc'' hu hsame
        exact ⟨hc'.trans hc'', hu, (congrArg Done.running hsame).trans hrun⟩

theorem stopRequestReason_wp {post : Bytes → Facts → Prop} {fallback : Bytes} (hpost : ∀ reason, post reason s) :
    (c.stopRequestReason fallback).wp (watch c₀) post s := by
  apply ask_wp trivial
  intro request
  cases request with
  | error _ => exact hpost _
  | ok request =>
      show Prog.wp _ (if _ then _ else _) _ _
      split <;> exact hpost _

/-- **`runApply`** ends with the apply's status, or with an unconfirmed exit. -/
theorem runApply_wp {destroyDeadline : Time} (hc : c.Unsettled) (h : Fresh session s) :
    (c.runApply destroyDeadline).wp (watch c₀) (Applied c session) s := by
  apply ask_wp h.unverified
  intro _
  apply Prog.wp_seq
  apply Prog.wp_forever fun c' t => Beats c c' ∧ Fresh session t ∧ t.done.running = some .awsUp
  · exact ⟨.refl c, ⟨h.session, h.unverified, h.unwritten, h.beating, h.beatFailed⟩, rfl⟩
  · rintro c' t ⟨hc', ht, hrun⟩
    have hend : ∀ {ended : Controller × ExecutionResult} {v : Facts}, Applied c session ended v →
        (do ask .clearPending; pure ended : Live _).wp (watch c₀) (Applied c session) v := by
      intro ended v hv
      apply ask_wp trivial
      intro _
      exact hv
    -- every way to stop goes through `stopApply`, with one reason or another
    have hstop : ∀ {reason : Bytes} {c'' : Controller} {u : Facts}, Beats c c'' → Fresh session u →
        u.done.running = some .awsUp →
          (stopApply { c'' with stopReason := reason } .interrupt).wp (watch c₀)
            (fun ended v => (do ask .clearPending; pure ended : Live _).wp (watch c₀) (Applied c session) v) u := by
      intro reason c'' u hc'' hu hur
      have hsame : Beats c { c'' with stopReason := reason } := hc''.trans ⟨_, _, reason, rfl⟩
      apply Prog.wp_mono _ (stopApply_wp (hsame.unsettled hc) hu hur)
      rintro ended v ⟨hended, hv⟩
      exact hend ⟨hsame.trans hended, hv⟩
    apply ask_wp trivial
    intro now
    show Prog.wp _ (if _ then _ else _) _ _
    split
    · apply Prog.wp_seq
      exact hstop hc' ht.now hrun
    · apply ask_wp trivial
      intro what
      cases what with
      | result outcome => exact hend ⟨hc', ht.now.finish hrun outcome⟩
      | signal name =>
          apply Prog.wp_seq
          apply stopRequestReason_wp
          intro reason
          apply Prog.wp_seq
          exact hstop hc' ht.now hrun
      | tick =>
          apply Prog.wp_seq
          apply updateState_fresh (hc'.unsettled hc)
          · exact ht.now
          intro c'' err u hc'' hu hsame
          have hur : u.done.running = some .awsUp := (congrArg Done.running hsame).trans hrun
          cases err with
          | some _ =>
              apply Prog.wp_seq
              exact hstop (hc'.trans hc'') hu hur
          | none => exact ⟨hc'.trans hc'', hu, hur⟩

theorem waitForStop_wp {post : Controller × Option Bytes → Facts → Prop} {destroyDeadline : Time} (hc : c.Unsettled)
    (h : Fresh session s) (hpost : ∀ c' err t, Beats c c' → Fresh session t → t.done = s.done → post (c', err) t) :
    (c.waitForStop destroyDeadline).wp (watch c₀) post s := by
  -- nothing runs while the controller waits
  apply Prog.wp_forever fun c' t => Beats c c' ∧ Fresh session t ∧ t.done = s.done
  · exact ⟨.refl c, h, rfl⟩
  · rintro c' t ⟨hc', ht, hdone⟩
    have hreason : ∀ (reason : Bytes), Beats c { c' with stopReason := reason } := fun reason => hc'.trans ⟨_, _, reason, rfl⟩
    apply ask_wp trivial
    intro now
    show Prog.wp _ (if _ then _ else _) _ _
    split
    · exact hpost _ _ _ (hreason _) ht.now hdone
    · apply ask_wp trivial
      intro what
      cases what with
      | signal name => exact hpost _ _ _ (hreason _) ht.now hdone
      | tick =>
          apply ask_wp trivial
          intro request
          match request with
          | .ok request =>
              show Prog.wp _ (if _ then _ else _) _ _
              split
              · exact hpost _ _ _ hc' ht.now hdone
              · exact hpost _ _ _ (hreason _) ht.now hdone
          | .error (.other err) => exact hpost _ _ _ hc' ht.now hdone
          | .error .missing =>
              apply Prog.wp_seq
              apply updateState_fresh (hc'.unsettled hc)
              · exact ht.now
              intro c'' err u hc'' hu hsame
              cases err with
              | some _ => exact hpost _ _ _ (hc'.trans hc'') hu (hsame.trans hdone)
              | none => exact ⟨hc'.trans hc'', hu, hsame.trans hdone⟩

/-! ## The whole run -/

theorem live_wp {destroyDeadline started destroy : Time} (hc : Belongs c₀ c) (h : Fresh session s)
    (hvalid : validateSession session c₀.runID c₀.commit = .ok (started, destroy, hard)) :
    (c.live session destroyDeadline).wp (watch c₀) (Promised c₀) s := by
  apply Prog.wp_seq
  apply Prog.wp_mono _ (runApply_wp hc.2.2 h)
  rintro ⟨c₁, status, err⟩ t ⟨hc₁, ht, happly⟩
  have hc₁' : Belongs c₀ c₁ := hc.beats hc₁
  cases err with
  | some err => exact blockCleanupOnProcess_wp
  | none =>
      show Prog.wp _ (if status = 0 then _ else _) _ _
      split
      · apply Prog.wp_seq
        apply updateState_fresh
        · exact hc₁'.2.2
        · exact ht
        intro c₂ err u hc₂ hu hsame
        have hlive : Belongs c₀ { c₁ with state := { c₁.state with applyExit := some status } } := hc₁'
        have hc₂' : ∀ {c₃ : Controller}, Beats c₂ c₃ → Belongs c₀ c₃ := fun h₃ => hlive.beats (hc₂.trans h₃)
        -- the save in between runs no command
        have hup : u.done.exit .awsUp = some status := (congrFun (congrArg Done.exit hsame) _).trans (happly rfl)
        cases err with
        | some _ => exact cleanup_wp (hc₂' ⟨_, _, _, rfl⟩) hu hvalid hup
        | none =>
            apply Prog.wp_seq
            apply waitForStop_wp (hc₂' (.refl c₂)).2.2 hu
            intro c₃ err v hc₃ hv hsame'
            have hup' : v.done.exit .awsUp = some status := (congrFun (congrArg Done.exit hsame') _).trans hup
            cases err with
            | some _ => exact cleanup_wp (hc₂' (hc₃.trans ⟨_, _, _, rfl⟩)) hv hvalid hup'
            | none => exact cleanup_wp (hc₂' hc₃) hv hvalid hup'
      · have hbelongs : ∀ {reason : Bytes}, Belongs c₀ { c₁ with
            state := { c₁.state with applyExit := some status }, stopReason := reason } := hc₁'
        split
        · exact cleanup_wp hbelongs ht hvalid (happly rfl)
        · exact cleanup_wp hbelongs ht hvalid (happly rfl)

/-- The facts before the apply. -/
structure Early (s : Facts) : Prop where
  up : s.done.up = false
  unverified : s.done.verified = false
  unwritten : s.done.unwritten = []
  beating : s.beating = false
  beatFailed : s.beatFailed = false

/-- A run that ends before the apply has nothing to answer for, unless it claims success. -/
theorem Early.promised {ended : Controller × Int} (h : Early s) (hcode : ended.2 ≠ 0) : Promised c₀ ended s :=
  ⟨fun hup => absurd (h.up.symm.trans hup) (by simp), fun h0 => absurd h0 hcode⟩

theorem Early.now (h : Early s) {finished : Option Time} : Early { s with finished := finished } :=
  ⟨h.up, h.unverified, h.unwritten, h.beating, h.beatFailed⟩

/-- A command before the apply. -/
theorem runCommand_wp {post : ExecutionResult → Facts → Prop} {command : Command} (h : Early s)
    (hcommand : command ≠ .awsUp) (hpost : ∀ outcome t, Early t → post outcome t) :
    (runCommand command).wp (watch c₀) post s := by
  apply ask_wp h.unverified
  intro _
  refine ⟨trivial, fun outcome => ?_⟩
  apply hpost
  refine ⟨?_, h.unverified, h.unwritten, h.beating, h.beatFailed⟩
  show (s.done.up || decide (command = .awsUp)) = false
  simp [h.up, hcommand]

theorem createSession_wp {post : Except Bytes SessionReceipt → Facts → Prop} (h : Early s)
    (herr : ∀ err t, Early t → post (.error err) t)
    (hok : ∀ session times t, validateSession session c.runID c.commit = .ok times → Early t →
      t.done.session = some session → post (.ok session) t) : c.createSession.wp (watch c₀) post s := by
  apply ask_wp trivial
  intro now
  apply Prog.wp_seq
  apply runCommand_wp h.now (by simp)
  rintro ⟨status, err⟩ t ht
  cases err with
  | some err => exact herr err t ht
  | none =>
      show Prog.wp _ (if status ≠ 0 then _ else _) _ _
      split
      · exact herr _ t ht
      · apply ask_wp trivial
        intro session
        cases session with
        | error err => exact herr err t ht
        | ok session =>
            -- reading the session back starts no command
            have ht' : Early { t with done := { t.done with session := some session } } :=
              ⟨ht.up, ht.unverified, ht.unwritten, ht.beating, ht.beatFailed⟩
            dsimp only
            split
            · exact herr _ _ ht'
            · next times hvalid => exact hok session _ _ hvalid ht' rfl

theorem unsettled_prepared {now : Time} : (c.prepared now).Unsettled := ⟨by simp [prepared, ControllerState.zero], by simp [prepared, ControllerState.zero]⟩

theorem locked_wp (h : Early s) : c.locked.wp (watch c) (Promised c) s := by
  apply Prog.wp_seq
  apply runCommand_wp h (by simp)
  rintro ⟨status, err⟩ t ht
  show Prog.wp _ (if _ then _ else if status ≠ 0 then _ else _) _ _
  split
  · exact ht.promised (by simp)
  · split
    · next hstatus => exact ht.promised hstatus
    · apply ask_wp trivial
      intro now
      apply Prog.wp_seq
      apply createSession_wp ht.now
      · exact fun err u hu => hu.promised (by simp)
      · intro session times u hvalid hu hsession
        -- the session is on disk, and nothing of the run has begun
        have hfresh : Fresh session u := ⟨hsession, hu.unverified, hu.unwritten, hu.beating, hu.beatFailed⟩
        apply Prog.wp_seq
        apply updateState_fresh
        · exact unsettled_prepared
        · exact hfresh
        intro c' err v hc' hv hsame
        have hc'' : Belongs c c' := Belongs.beats (c := c.prepared now) ⟨rfl, rfl, unsettled_prepared⟩ hc'
        cases err with
        | some _ =>
            refine ⟨fun hup => ?_, fun h0 => absurd h0 (by simp)⟩
            exact absurd ((congrArg Done.up hsame).symm.trans hup) (by simp [hu.up])
        | none =>
            obtain ⟨started, destroy, hard⟩ := times
            dsimp only
            rw [hc''.1, hc''.2.1, show validateSession session c.runID c.commit = _ from hvalid]
            exact live_wp hc'' hv hvalid

/-- **Every run of the controller** asks only what the monitor allows, and keeps what the exit code promises. -/
theorem run_wp : c.run.wp (watch c) (Promised c) .initial := by
  have hearly : Early .initial := ⟨rfl, rfl, rfl, rfl, rfl⟩
  have hquiet : ∀ {q : Ask}, q.staged = true → (watch c).allowed .initial q ∧ ∀ r, (watch c).next .initial q r = .initial := by
    intro q hq
    cases q <;> first | exact ⟨trivial, fun _ => rfl⟩ | cases hq
  apply Prog.wp_seq
  apply (requirePreparedRun_asks _ _).wp fun q hq => hquiet hq
  intro err
  split
  · exact hearly.promised (by simp)
  apply ask_wp trivial
  intro source
  split
  · exact hearly.promised (by simp)
  apply ask_wp trivial
  intro lock
  split
  · exact hearly.promised (by simp)
  apply Prog.wp_seq
  apply Prog.wp_mono _ (locked_wp hearly)
  intro ended t h
  apply ask_wp trivial
  intro _
  exact h

end Controller

/-! ## What a run says -/

/-- The facts after some questions and answers. -/
def facts (es : List (Event Ask.Answer)) : Facts := es.foldl (fun s e => s.observe e.ask e.answer) .initial

/-- **The verdict is never better than the facts**, for a run that has got as far as `p`. -/
structure Sound (c : Controller) (es : List (Event Ask.Answer)) (p : Live (Controller × Int)) : Prop where
  /-- What returns after the apply was started has started to destroy, or says why not. -/
  destroyed : ∀ ended, p.Returns ended → (facts es).done.up = true →
    (facts es).done.down = true ∨ ended.1.state.cleanupBlockedReason.isSome = true
  /-- An exit code of 0 stands for a pass, every line written, and a state file that says so. -/
  exit : ∀ ended, p.Returns ended → ended.2 = 0 →
    Passed c (facts es) ∧ (facts es).done.unwritten = [] ∧ (facts es).written = some true
  /-- A state file that reports success comes after both checks exited 0, and no command is run again. -/
  verified : ∀ before after st r, es = before ++ ⟨.write st, r⟩ :: after → st.reports = true →
    (facts before).done.exit .stateEmpty = some 0 ∧ (facts before).done.exit .inventoryEmpty = some 0 ∧
      ∀ command r', ⟨.run command, r'⟩ ∉ after
  /-- A state file that reports a pass comes after everything a pass stands for. -/
  passed : ∀ before after st r, es = before ++ ⟨.write st, r⟩ :: after → st.result = some .passed →
    Passed c (facts before) ∧ (facts before).done.unwritten = []

theorem facts_append (es es' : List (Event Ask.Answer)) :
    facts (es ++ es') = es'.foldl (fun s e => s.observe e.ask e.answer) (facts es) := List.foldl_append

theorem Done.unwritten_finish (d : Done) (outcome : ExecutionResult) :
    (d.finish outcome).unwritten = d.unwritten ∧ (d.finish outcome).verified = d.verified := by
  unfold Done.finish
  split <;> exact ⟨rfl, rfl⟩

/-- What one answered question does to the unwritten lines and the report. -/
theorem observe_cases {s : Facts} (q : Ask) (r : q.Answer) :
    ((s.observe q r).done.unwritten = s.done.unwritten ∨
      ∃ line err, (⟨q, r⟩ : Event Ask.Answer) = ⟨.transcript line, some err⟩ ∧
        (s.observe q r).done.unwritten = line :: s.done.unwritten) ∧
    (s.done.verified = true → (s.observe q r).done.verified = true) := by
  have hfinish : ∀ outcome : ExecutionResult, (s.finish outcome).done.unwritten = s.done.unwritten ∧
      (s.done.verified = true → (s.finish outcome).done.verified = true) := fun outcome =>
    ⟨(s.done.unwritten_finish outcome).1, fun h => (s.done.unwritten_finish outcome).2.trans h⟩
  cases q with
  | session | describeLogGroups | deleteLogGroup => cases r <;> exact ⟨Or.inl rfl, id⟩
  | write st => exact ⟨Or.inl rfl, fun h => by simp [Facts.observe, h]⟩
  | result => exact ⟨Or.inl (hfinish r).1, (hfinish r).2⟩
  | applying | stopping | ready =>
      cases r <;> first
        | exact ⟨Or.inl rfl, id⟩
        | exact ⟨Or.inl (hfinish _).1, (hfinish _).2⟩
  | transcript line =>
      cases r with
      | none => exact ⟨Or.inl rfl, id⟩
      | some err => exact ⟨Or.inr ⟨line, err, rfl, rfl⟩, id⟩
  | _ => exact ⟨Or.inl rfl, id⟩

/-- A line is not among the unwritten ones without a write that failed. -/
theorem mem_unwritten {es : List (Event Ask.Answer)} {line : Line} (h : line ∈ (facts es).done.unwritten) :
    ∃ err, (⟨.transcript line, some err⟩ : Event Ask.Answer) ∈ es := by
  induction es using List.reverseRecOn with
  | nil => exact absurd h (by simp [facts, Facts.initial, Done.initial])
  | append_singleton es e ih =>
      rw [facts_append] at h
      rcases (observe_cases e.ask e.answer).1 with hsame | ⟨line', err, he, hcons⟩
      · obtain ⟨err, hmem⟩ := ih (hsame ▸ h)
        exact ⟨err, List.mem_append_left _ hmem⟩
      · rcases List.mem_cons.mp (hcons ▸ h) with rfl | hold
        · exact ⟨err, by simp [← he]⟩
        · obtain ⟨err', hmem⟩ := ih hold
          exact ⟨err', List.mem_append_left _ hmem⟩

/-- Once reported, always reported. -/
theorem verified_append {es es' : List (Event Ask.Answer)} (h : (facts es).done.verified = true) :
    (facts (es ++ es')).done.verified = true := by
  rw [facts_append]
  induction es' using List.reverseRecOn with
  | nil => exact h
  | append_singleton es' e ih =>
      rw [List.foldl_append]
      exact (observe_cases e.ask e.answer).2 ih

/-- **The cleanup verdict is never better than the facts**, in every run in which the account lines are written. -/
theorem verdict_sound (c : Controller) {es : List (Event Ask.Answer)} {p : Live (Controller × Int)}
    (h : c.run.Reaches es p)
    (hwritten : ∀ line r, (⟨.transcript line, r⟩ : Event Ask.Answer) ∈ es → line.identity = true → r = none) :
    Sound c es p := by
  have hwp := Controller.run_wp (c := c)
  -- where only account lines could be missing, none is
  have hnone : ∀ es', es' <+: es → (∀ line ∈ (facts es').done.unwritten, line.identity = true) →
      (facts es').done.unwritten = [] := by
    intro es' hes' hlines
    apply List.eq_nil_iff_forall_not_mem.mpr
    intro line hline
    obtain ⟨err, hmem⟩ := mem_unwritten hline
    exact absurd (hwritten line _ (hes'.subset hmem) (hlines line hline)) (by simp)
  have hended : ∀ ended, p.Returns ended → Promised c ended (facts es) := fun ended hp =>
    Prog.wp_returns hp (Prog.wp_reaches h hwp)
  have hallowed : ∀ {before after : List (Event Ask.Answer)} {e : Event Ask.Answer}, es = before ++ e :: after →
      (watch c).allowed (facts before) e.ask := by
    rintro before after e rfl
    exact Prog.allowed_of_reaches h hwp
  constructor
  · exact fun ended hp => (hended ended hp).1
  · intro ended hp hcode
    obtain ⟨hpassed, hlast⟩ := (hended ended hp).2 hcode
    exact ⟨hpassed, hnone es (List.prefix_refl es) hpassed.written, hlast⟩
  · intro before after st r hes hst
    obtain ⟨hstate, hinventory⟩ := (hallowed hes).1 hst
    refine ⟨hstate, hinventory, fun command r' hrun => ?_⟩
    obtain ⟨a, b, rfl⟩ := List.append_of_mem hrun
    have hrun' := @hallowed (before ++ ⟨.write st, r⟩ :: a) b ⟨.run command, r'⟩ (by simp [hes])
    have hsince : (facts (before ++ [⟨.write st, r⟩])).done.verified = true := by
      rw [facts_append]
      simp [Facts.observe, hst]
    have := @verified_append _ a hsince
    rw [List.append_assoc, List.singleton_append] at this
    exact absurd ((show (facts _).done.verified = false from hrun').symm.trans this) (by simp)
  · intro before after st r hes hst
    have hpassed := (hallowed hes).2 hst
    exact ⟨hpassed, hnone before ⟨_, hes.symm⟩ hpassed.written⟩

/-! ## Two runs -/

/-- The account line was written, if the question was about one. -/
def identityWritten : Event Ask.Answer → Bool
  | ⟨.transcript line, r⟩ => Option.isNone r || !line.identity
  | _ => true

theorem verdict_sound_drill : ∃ es p c, drill.run.Reaches es p ∧ p.Returns (c, 0) ∧ Sound drill es p := by
  have hrun : (Prog.exec (fun _ => smooth fun _ => false) 200 drill.run []).map
      (fun r => (r.2.2, r.1.all identityWritten)) = some (0, true) := by decide +kernel
  obtain ⟨⟨es, c, code⟩, hexec, hends⟩ := Option.map_eq_some_iff.mp hrun
  obtain ⟨rfl, hall⟩ := Prod.mk.inj hends
  obtain ⟨_, p, rfl, hreach, hret⟩ := Prog.exec_reaches hexec
  refine ⟨es, p, c, hreach, hret, verdict_sound drill hreach fun line r hmem hidentity => ?_⟩
  have := List.all_eq_true.mp hall _ hmem
  simpa [identityWritten, hidentity] using this

/-- **A pass without the account line**: its write fails, and nothing takes notice. -/
theorem not_sound_full_disk : ¬ ∀ (c : Controller) (es : List (Event Ask.Answer)) (p : Live (Controller × Int)),
    c.run.Reaches es p → Sound c es p := by
  intro hall
  have hrun : (Prog.exec (fun _ => smooth Line.identity) 200 drill.run []).map
      (fun r => (r.2.2, (facts r.1).done.unwritten)) = some (0, [.identityMatched 1]) := by decide +kernel
  obtain ⟨⟨es, c, code⟩, hexec, hends⟩ := Option.map_eq_some_iff.mp hrun
  obtain ⟨rfl, hlost⟩ := Prod.mk.inj hends
  obtain ⟨_, p, rfl, hreach, hret⟩ := Prog.exec_reaches hexec
  have hnone := ((hall drill es p hreach).exit _ hret rfl).2.1
  exact absurd ((show (facts es).done.unwritten = _ from hlost).symm.trans hnone) (by simp)

end LocalPlatform.LiveRun
