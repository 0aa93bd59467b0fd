/-
# LocalPlatform.LiveRun.History — every state file is true of the run so far.

`History` is what can be read off a run.  A state that is written says of a command how it exited only if the command
was the last of its kind to exit so, and says that the cleanup was blocked in front of the commands only if none of
them was started (`Honest`).  Behind such a state none is started any more.

One status is the controller's own: the cost counts as failed with status 1 where the file for its output could not be
opened or closed, whether the command ran or not.
-/
import LocalPlatform.LiveRun.Verdict

namespace LocalPlatform.LiveRun

open Codec Logic

/-! ## Reading a run -/

/-- What can be read off a run: the commands that were started, the one that is out, how the last of each kind exited
(nothing while it runs, or after an unconfirmed exit), the readings of the clock, whether the file for the cost was
lost, the commands of which a state that was written records the exit, and whether one was written by which nothing
behind the apply was run. -/
structure History where
  started : Command → Bool
  running : Option Command
  exit : Command → Option Int
  clock : List Time
  costLost : Bool
  reported : Command → Bool
  withheld : Bool

/-- The commands behind the apply. -/
def Command.later : Command → Bool
  | .awsDown | .stateEmpty | .inventoryEmpty | .awsCost => true
  | _ => false

namespace ControllerState

/-- By the state nothing behind the apply was run. -/
def withholds (st : ControllerState) : Bool :=
  st.cleanupBlockedReason == some .identityUnverified ||
    st.cleanupBlockedReason == some .processExitUnconfirmed && st.destroyStartedAt.isEmpty

/-- The exit a state records of a command. -/
def recorded (st : ControllerState) : Command → Option Int
  | .awsUp => st.applyExit
  | .awsDown => st.destroyExit
  | .stateEmpty => st.terraformStateExit
  | .inventoryEmpty => st.inventoryExit
  | .awsCost => st.costExit
  | _ => none

end ControllerState

namespace History

def initial : History := ⟨fun _ => false, none, fun _ => none, [], false, fun _ => false, false⟩

/-- A command is started. -/
def start (h : History) (command : Command) : History :=
  { h with
    started := Function.update h.started command true
    running := some command
    exit := Function.update h.exit command none }

/-- The outstanding result arrives. -/
def finish (h : History) (outcome : ExecutionResult) : History :=
  match h.running with
  | some command => { h with running := none, exit := Function.update h.exit command outcome.confirmed }
  | none => h

@[simp] theorem finish_reported (h : History) (outcome : ExecutionResult) :
    (h.finish outcome).reported = h.reported := by
  unfold finish
  cases h.running <;> rfl

/-- **One answered question.** -/
def observe (h : History) : (q : Ask) → q.Answer → History
  | .now, t => { h with clock := t :: h.clock }
  | .run command, _ => h.start command
  | .result, outcome => h.finish outcome
  | .applying, .result outcome => h.finish outcome
  | .stopping, .result outcome => h.finish outcome
  | .ready, some outcome => h.finish outcome
  | .openCost, some _ => { h with costLost := true }
  | .closeCost, some _ => { h with costLost := true }
  | .write st, _ =>
    { h with
      reported := fun command => h.reported command || (st.recorded command).isSome
      withheld := h.withheld || st.withholds }
  | _, _ => h

/-- Nothing behind the apply was started. -/
def Untouched (h : History) : Prop := ∀ command, command.later = true → h.started command = false

end History

/-- **The state is true of the run so far.** -/
structure ControllerState.Honest (c : Controller) (h : History) (st : ControllerState) : Prop where
  schema : st.schemaVersion = 1
  run : st.runID = c.runID
  commit : st.commit = c.commit
  exits : ∀ command e, st.recorded command = some e →
    h.exit command = some e ∨ command = .awsCost ∧ e = 1 ∧ h.costLost = true
  finished : st.cleanupFinishedAt = [] ∨ ∃ t ∈ h.clock, st.cleanupFinishedAt = utcText t
  untouched : st.withholds = true → h.Untouched

/-- The monitor: only such states are written; behind one that records an exit the command is not started again, and
behind one by which nothing was run nothing is. -/
def chronicle (c : Controller) : Monitor Ask.Answer History where
  allowed h
    | .write st => st.phase.isSome = true ∧ st.Honest c h
    | .run command => h.withheld = false ∧ h.reported command = false
    | _ => True
  next := History.observe

namespace Controller

variable {c₀ c c' : Controller} {h h' h'' : History} {phase : RunPhase}

/-- The controller's state is true, and nothing has been blocked. -/
structure Faithful (c₀ c : Controller) (h : History) : Prop where
  honest : c.state.Honest c₀ h
  unblocked : c.state.cleanupBlockedReason = none
  running : h.withheld = false
  unreported : ∀ command, c.state.recorded command = none → h.reported command = false

/-- The clock was read, the state written, and nothing else. -/
structure Idle (c : Controller) (h : History) (c' : Controller) (h' : History) : Prop where
  beats : Beats c c'
  clock : h.clock ⊆ h'.clock
  reported : ∀ command, c.state.recorded command = none → h'.reported command = h.reported command
  same : h' = { h with clock := h'.clock, reported := h'.reported }

theorem Beats.recorded (hb : Beats c c') : c'.state.recorded = c.state.recorded := by
  obtain ⟨_, _, _, rfl⟩ := hb
  funext command
  cases command <;> rfl

theorem Idle.refl (c : Controller) (h : History) : Idle c h c h := ⟨.refl c, List.Subset.refl _, fun _ _ => rfl, rfl⟩

theorem Idle.now (c : Controller) (h : History) (t : Time) : Idle c h c { h with clock := t :: h.clock } :=
  ⟨.refl c, List.subset_cons_self t _, fun _ _ => rfl, rfl⟩

/-- The reason to stop is noted. -/
theorem Idle.stop (c : Controller) (h : History) (reason : Bytes) : Idle c h { c with stopReason := reason } h :=
  ⟨⟨_, _, reason, rfl⟩, List.Subset.refl _, fun _ _ => rfl, rfl⟩

theorem Idle.exit (hi : Idle c h c' h') : h'.exit = h.exit := by rw [hi.same]

theorem Idle.started (hi : Idle c h c' h') : h'.started = h.started := by rw [hi.same]

theorem Idle.trans {c'' : Controller} (hi : Idle c h c' h') (hi' : Idle c' h' c'' h'') : Idle c h c'' h'' where
  beats := hi.beats.trans hi'.beats
  clock := List.Subset.trans hi.clock hi'.clock
  reported := by
    intro command hcommand
    have hcommand' : c'.state.recorded command = none := by
      rw [hi.beats.recorded]
      exact hcommand
    rw [hi'.reported command hcommand', hi.reported command hcommand]
  same := by rw [hi'.same, hi.same]

theorem Beats.destroyStartedAt (hb : Beats c c') : c'.state.destroyStartedAt = c.state.destroyStartedAt := by
  obtain ⟨_, _, _, rfl⟩ := hb
  rfl

theorem Unblocked.withholds {st : ControllerState} (hst : st.cleanupBlockedReason = none) : st.withholds = false := by
  unfold ControllerState.withholds
  rw [hst]
  rfl

/-- A state that is true stays so as the clock is read, and as its stamp changes. -/
theorem Honest.beats (hh : c.state.Honest c₀ h) (hb : Beats c c') {clock : List Time} (hclock : h.clock ⊆ clock)
    (reported : Command → Bool) : c'.state.Honest c₀ { h with clock := clock, reported := reported } := by
  have hrecorded := hb.recorded
  obtain ⟨_, _, _, rfl⟩ := hb
  refine ⟨hh.schema, hh.run, hh.commit, ?_, ?_, hh.untouched⟩
  · intro command e he
    rw [hrecorded] at he
    exact hh.exits command e he
  · rcases hh.finished with hempty | ⟨t, ht, htext⟩
    · exact Or.inl hempty
    · exact Or.inr ⟨t, hclock ht, htext⟩

theorem Faithful.idle (hf : Faithful c₀ c h) (hi : Idle c h c' h') : Faithful c₀ c' h' := by
  refine ⟨?_, ?_, ?_, ?_⟩
  · rw [hi.same]
    exact Honest.beats hf.honest hi.beats hi.clock _
  · obtain ⟨_, _, _, hb⟩ := hi.beats
    rw [hb]
    exact hf.unblocked
  · rw [hi.same]
    exact hf.running
  · intro command hcommand
    rw [hi.beats.recorded] at hcommand
    rw [hi.reported command hcommand]
    exact hf.unreported command hcommand

/-! ## Heartbeats -/

/-- **`updateState`** of a state that is true. -/
theorem updateState_history {post : Controller × Option Bytes → History → Prop} (hf : Faithful c₀ c h)
    (hpost : ∀ c' err h', Idle c h c' h' → post (c', err) h') : (c.updateState phase).wp (chronicle c₀) post h := by
  have hbeats : ∀ now, Beats c (c.stamp phase now) := fun now => ⟨_, _, _, rfl⟩
  refine ⟨trivial, fun now => ⟨⟨rfl, Honest.beats hf.honest (hbeats now) (List.subset_cons_self now _) _⟩, fun err => ?_⟩⟩
  refine hpost _ err _ ⟨hbeats now, List.subset_cons_self now _, ?_, ?_⟩
  · intro command hcommand
    show (h.reported command || ((c.stamp phase now).state.recorded command).isSome) = h.reported command
    rw [(hbeats now).recorded, hcommand]
    exact Bool.or_false _
  · have hwithholds : (c.stamp phase now).state.withholds = false := Unblocked.withholds hf.unblocked
    show { h with
      clock := now :: h.clock
      reported := fun command => h.reported command || ((c.stamp phase now).state.recorded command).isSome
      withheld := h.withheld || (c.stamp phase now).state.withholds } = _
    rw [hwithholds, Bool.or_false]
    rfl

theorem heartbeats_history {post : Controller × Bool → History → Prop} {passed : Bool} (hf : Faithful c₀ c h)
    (hpost : ∀ c' ok h', Idle c h c' h' → post (c', ok) h') : (c.heartbeats phase passed).wp (chronicle c₀) post h := by
  apply Prog.wp_forever fun x h' => Idle c h x.1 h'
  · exact .refl c h
  · rintro ⟨c', ok⟩ h' hi
    apply ask_wp trivial
    intro fired
    cases fired with
    | false => exact hpost c' ok h' hi
    | true =>
      apply Prog.wp_seq
      apply updateState_history (hf.idle hi)
      intro c'' err h'' hi'
      exact hi.trans hi'

theorem retryPause_history {post : Controller × Bool → History → Prop} (hf : Faithful c₀ c h)
    (hpost : ∀ c' ok h', Idle c h c' h' → post (c', ok) h') : (c.retryPause phase).wp (chronicle c₀) post h := by
  unfold retryPause
  split
  · apply Prog.wp_forever fun x h' => Idle c h x h'
    · exact .refl c h
    · intro c' h' hi
      apply ask_wp trivial
      intro fired
      cases fired with
      | false => exact hpost c' true h' hi
      | true =>
        apply Prog.wp_seq
        apply updateState_history (hf.idle hi)
        intro c'' err h'' hi'
        cases err with
        | some _ => exact hpost c'' false h'' (hi.trans hi')
        | none => exact hi.trans hi'
  · apply ask_wp trivial
    intro _
    apply Prog.wp_seq
    apply updateState_history hf
    intro c' err h' hi
    exact hpost c' _ h' hi

/-! ## Commands -/

/-- A command ran and came to an end, heartbeats beside it. -/
structure CommandEnded (command : Command) (outcome : ExecutionResult) (c : Controller) (h : History) (c' : Controller)
    (h' : History) : Prop where
  beats : Beats c c'
  clock : h.clock ⊆ h'.clock
  reported : ∀ command, c.state.recorded command = none → h'.reported command = h.reported command
  same : h' = { h with
    started := Function.update h.started command true
    running := none
    exit := Function.update h.exit command outcome.confirmed
    clock := h'.clock
    reported := h'.reported }

theorem CommandEnded.exit {command : Command} {outcome : ExecutionResult} (he : CommandEnded command outcome c h c' h') :
    h'.exit command = outcome.confirmed := by
  rw [he.same]
  exact Function.update_self ..

theorem CommandEnded.exit_other {command other : Command} {outcome : ExecutionResult} (he : CommandEnded command outcome c h c' h')
    (hother : other ≠ command) : h'.exit other = h.exit other := by
  rw [he.same]
  exact Function.update_of_ne hother ..

/-- What is recorded of other commands stays true. -/
theorem Faithful.exits_update {command : Command} (hf : Faithful c₀ c h) (hcommand : c.state.recorded command = none)
    {exit : Option Int} {other : Command} {e : Int} (hother : c.state.recorded other = some e) :
    Function.update h.exit command exit other = some e ∨ other = .awsCost ∧ e = 1 ∧ h.costLost = true := by
  have hne : other ≠ command := by
    rintro rfl
    rw [hcommand] at hother
    cases hother
  rw [Function.update_of_ne hne]
  exact hf.honest.exits other e hother

theorem Faithful.start {command : Command} (hf : Faithful c₀ c h) (hcommand : c.state.recorded command = none) :
    Faithful c₀ c (h.start command) where
  honest :=
    { schema := hf.honest.schema
      run := hf.honest.run
      commit := hf.honest.commit
      exits := fun _ _ hother => hf.exits_update hcommand hother
      finished := hf.honest.finished
      untouched := fun hst => absurd ((Unblocked.withholds hf.unblocked).symm.trans hst) nofun }
  unblocked := hf.unblocked
  running := hf.running
  unreported := hf.unreported

theorem Faithful.ended {command : Command} {outcome : ExecutionResult} (hf : Faithful c₀ c h)
    (hcommand : c.state.recorded command = none) (he : CommandEnded command outcome c h c' h') : Faithful c₀ c' h' := by
  have hunblocked : c'.state.cleanupBlockedReason = none := by
    obtain ⟨_, _, _, hb⟩ := he.beats
    rw [hb]
    exact hf.unblocked
  have hbeats := Honest.beats hf.honest he.beats he.clock h'.reported
  refine ⟨⟨hbeats.schema, hbeats.run, hbeats.commit, ?_, ?_, ?_⟩, hunblocked, ?_, ?_⟩
  · intro other e hother
    rw [he.beats.recorded] at hother
    rw [he.same]
    exact hf.exits_update hcommand hother
  · exact hbeats.finished
  · intro hst
    exact absurd ((Unblocked.withholds hunblocked).symm.trans hst) nofun
  · rw [he.same]
    exact hf.running
  · intro other hother
    rw [he.beats.recorded] at hother
    rw [he.reported other hother]
    exact hf.unreported other hother

theorem runWithHeartbeat_history {post : Controller × Bool × ExecutionResult → History → Prop} {command : Command}
    (hf : Faithful c₀ c h) (hcommand : c.state.recorded command = none)
    (hpost : ∀ c' ok outcome h', CommandEnded command outcome c h c' h' → post (c', ok, outcome) h') :
    (c.runWithHeartbeat command phase).wp (chronicle c₀) post h := by
  refine ask_wp ⟨hf.running, hf.unreported command hcommand⟩ ?_
  intro _
  apply Prog.wp_seq
  apply heartbeats_history (hf.start hcommand)
  intro c' ok h' hi
  apply ask_wp trivial
  intro outcome
  refine hpost c' ok outcome _ ⟨hi.beats, ?_, ?_, ?_⟩
  · show h.clock ⊆ (h'.finish outcome).clock
    rw [hi.same]
    exact hi.clock
  · intro other hother
    show (h'.finish outcome).reported other = h.reported other
    rw [History.finish_reported]
    exact hi.reported other hother
  · show h'.finish outcome = { h with
      started := Function.update h.started command true
      running := none
      exit := Function.update h.exit command outcome.confirmed
      clock := (h'.finish outcome).clock
      reported := (h'.finish outcome).reported }
    rw [hi.same]
    simp [History.finish, History.start, Function.update_idem]

/-! ## Questions that leave no trace -/

theorem writeLine_history {post : Bool → History → Prop} {line : Line} (hpost : ∀ ok, post ok h) :
    (writeLine line).wp (chronicle c₀) post h := ⟨trivial, fun _ => hpost _⟩

theorem accountWithHeartbeat_history {post : Controller × Bool × Except Bytes Bytes → History → Prop}
    (hf : Faithful c₀ c h) (hpost : ∀ c' ok account h', Idle c h c' h' → post (c', ok, account) h') :
    c.accountWithHeartbeat.wp (chronicle c₀) post h := by
  apply Prog.wp_seq
  apply heartbeats_history hf
  intro c' ok h' hi
  apply ask_wp trivial
  intro account
  exact hpost c' ok account h' hi

theorem verifyAttempts_history {post : Controller × Bool × Option Bytes → History → Prop} {account lastError : Bytes}
    {attempts : List Nat} {passed : Bool} (hf : Faithful c₀ c h)
    (hpost : ∀ c' ok err h', Idle c h c' h' → post (c', ok, err) h') :
    (verifyAttempts account attempts c passed lastError).wp (chronicle c₀) post h := by
  induction attempts generalizing c h passed lastError with
  | nil => exact hpost c passed _ h (.refl c h)
  | cons attempt attempts ih =>
    apply Prog.wp_seq
    apply accountWithHeartbeat_history hf
    intro c' ok current h' hi
    cases current with
    | ok current =>
      show Prog.wp _ (if _ then _ else _) _ _
      split
      · exact hpost c' _ _ h' hi
      · apply ask_wp trivial
        intro _
        exact hpost c' _ _ h' hi
    | error err =>
      apply ask_wp trivial
      intro _
      show Prog.wp _ (if _ then _ else _) _ _
      split
      · apply Prog.wp_seq
        apply retryPause_history (hf.idle hi)
        intro c'' pause h'' hi'
        exact ih (hf.idle (hi.trans hi')) fun c₃ ok₃ err₃ h₃ hi₃ => hpost c₃ ok₃ err₃ h₃ ((hi.trans hi').trans hi₃)
      · exact ih (hf.idle hi) fun c₃ ok₃ err₃ h₃ hi₃ => hpost c₃ ok₃ err₃ h₃ (hi.trans hi₃)

theorem verifyAccount_history {post : Controller × Bool × Option Bytes → History → Prop} (hf : Faithful c₀ c h)
    (hpost : ∀ c' ok err h', Idle c h c' h' → post (c', ok, err) h') :
    c.verifyAccount.wp (chronicle c₀) post h := by
  apply ask_wp trivial
  intro receipt
  cases receipt with
  | error err => exact hpost c true _ h (.refl c h)
  | ok account =>
    show Prog.wp _ (if _ then _ else _) _ _
    split
    · exact verifyAttempts_history hf hpost
    · exact hpost c true _ h (.refl c h)

theorem deleteGroups_history {post : Controller × Bool × Bool → History → Prop} {names : List Bytes} {beats passed : Bool}
    (hf : Faithful c₀ c h) (hpost : ∀ c' ok p h', Idle c h c' h' → post (c', ok, p) h') :
    (deleteGroups names c beats passed).wp (chronicle c₀) post h := by
  induction names generalizing c h beats passed with
  | nil => exact hpost c beats passed h (.refl c h)
  | cons name names ih =>
    -- a heartbeat and a line, whatever the deletion came to
    have hline : ∀ {line : Line} {c₁ : Controller} {h₁ : History} {ok : Bool} (pass : Bool → Bool), Idle c h c₁ h₁ →
        ((c₁.heartbeats .destroying ok) >>= fun x => writeLine line >>= fun written =>
          deleteGroups names x.1 x.2 (pass written)).wp (chronicle c₀) post h₁ := by
      intro line c₁ h₁ ok pass hi
      apply Prog.wp_seq
      apply heartbeats_history (hf.idle hi)
      intro c₂ ok₂ h₂ hi₂
      apply Prog.wp_seq
      apply writeLine_history
      intro written
      have hi₁₂ := hi.trans hi₂
      exact ih (hf.idle hi₁₂) fun c₃ ok₃ p₃ h₃ hi₃ => hpost c₃ ok₃ p₃ h₃ (hi₁₂.trans hi₃)
    apply Prog.wp_seq
    apply heartbeats_history hf
    intro c₁ ok₁ h₁ hi
    apply ask_wp trivial
    intro err
    cases err with
    | some err => exact hline (fun _ => false) hi
    | none => exact hline (fun written => passed && written) hi

theorem deleteLogsWithHeartbeat_history {post : Controller × Bool × Bool → History → Prop} (hf : Faithful c₀ c h)
    (hpost : ∀ c' ok p h', Idle c h c' h' → post (c', ok, p) h') :
    c.deleteLogsWithHeartbeat.wp (chronicle c₀) post h := by
  apply Prog.wp_seq
  apply heartbeats_history hf
  intro c₁ ok₁ h₁ hi₁
  apply Prog.wp_seq
  apply writeLine_history
  intro p₁
  apply Prog.wp_seq
  apply heartbeats_history (hf.idle hi₁)
  intro c₂ ok₂ h₂ hi₂
  have hi₁₂ := hi₁.trans hi₂
  -- a list that cannot be read ends the same way whatever is wrong with it
  have hfail : ∀ line, ((c₂.heartbeats .destroying ok₂) >>= fun x => writeLine line >>= fun _ =>
      x.1.heartbeats .destroying x.2 >>= fun y => pure (y.1, y.2, false)).wp (chronicle c₀) post h₂ := by
    intro line
    apply Prog.wp_seq
    apply heartbeats_history (hf.idle hi₁₂)
    intro c₃ ok₃ h₃ hi₃
    apply Prog.wp_seq
    apply writeLine_history
    intro _
    apply Prog.wp_seq
    apply heartbeats_history (hf.idle (hi₁₂.trans hi₃))
    intro c₄ ok₄ h₄ hi₄
    exact hpost c₄ ok₄ false h₄ ((hi₁₂.trans hi₃).trans hi₄)
  apply ask_wp trivial
  intro groups
  cases groups with
  | failed err => exact hfail (.describeFailed err)
  | invalid err => exact hfail (.invalidResponse err)
  | names names =>
    apply Prog.wp_seq
    apply deleteGroups_history (hf.idle hi₁₂)
    intro c₃ ok₃ p₃ h₃ hi₃
    have hi₁₃ := hi₁₂.trans hi₃
    apply Prog.wp_seq
    apply heartbeats_history (hf.idle hi₁₃)
    intro c₄ ok₄ h₄ hi₄
    have hi₁₄ := hi₁₃.trans hi₄
    show Prog.wp _ (if _ then _ else _) _ _
    split
    · apply Prog.wp_seq
      apply writeLine_history
      intro p₅
      apply Prog.wp_seq
      apply heartbeats_history (hf.idle hi₁₄)
      intro c₅ ok₅ h₅ hi₅
      exact hpost c₅ ok₅ _ h₅ (hi₁₄.trans hi₅)
    · exact hpost c₄ ok₄ _ h₄ hi₁₄

/-! ## The cleanup -/

/-- A cleanup that is blocked on a process.  Where it had not begun nothing behind the apply was started. -/
theorem blockCleanupOnProcess_history {err : Bytes} (hf : Faithful c₀ c h)
    (huntouched : c.state.destroyStartedAt = [] → h.Untouched) :
    (c.blockCleanupOnProcess err).wp (chronicle c₀) (fun _ _ => True) h := by
  apply Prog.wp_seq
  refine ⟨trivial, fun now => ⟨⟨rfl, ?_⟩, fun _ => trivial⟩⟩
  have hbeats := Honest.beats hf.honest (.refl c) (List.subset_cons_self now h.clock) h.reported
  refine ⟨hbeats.schema, hbeats.run, hbeats.commit, ?_, hbeats.finished, ?_⟩
  · intro command e he
    refine hbeats.exits command e ?_
    rw [← he]
    cases command <;> rfl
  · intro hst
    apply huntouched
    have hempty : c.state.destroyStartedAt.isEmpty = true := by simpa [ControllerState.withholds, stamp] using hst
    exact List.isEmpty_iff.mp hempty

theorem destroy_history {post : Controller × Except Bytes Findings → History → Prop} {hard : Time} {attempts : List Nat}
    {f : Findings} (hf : Faithful c₀ c h) (hdown : c.state.recorded .awsDown = none)
    (hexit : attempts = [] → h.exit .awsDown = some f.destroyStatus)
    (hpost : ∀ c' found h', Faithful c₀ c' h' → Beats c c' →
      (∀ f', found = .ok f' → h'.exit .awsDown = some f'.destroyStatus) → post (c', found) h') :
    (destroy hard attempts c f).wp (chronicle c₀) post h := by
  induction attempts generalizing c h f with
  | nil =>
    refine hpost c (.ok f) h hf (.refl c) fun f' heq => ?_
    rw [← Except.ok.inj heq]
    exact hexit rfl
  | cons attempt attempts ih =>
    apply ask_wp trivial
    intro now
    have hf₀ := hf.idle (Idle.now c h now)
    apply Prog.wp_seq
    apply writeLine_history
    intro ok
    apply Prog.wp_seq
    apply runWithHeartbeat_history hf₀ hdown
    rintro c₁ beats ⟨status, err⟩ h₁ he
    have hf₁ := hf₀.ended hdown he
    cases err with
    | some err => exact hpost c₁ (.error _) h₁ hf₁ he.beats nofun
    | none =>
      apply Prog.wp_seq
      apply writeLine_history
      intro ok'
      -- the attempts that are left start with the exit of this one
      have hrest : ∀ {c₂ : Controller} {h₂ : History} {f' : Findings}, Idle c₁ h₁ c₂ h₂ → f'.destroyStatus = status →
          (destroy hard attempts c₂ f').wp (chronicle c₀) post h₂ := by
        intro c₂ h₂ f' hi hstatus
        have hbeats : Beats c c₂ := he.beats.trans hi.beats
        refine ih (hf₁.idle hi) ?_ (fun _ => ?_) fun c₃ found h₃ hf₃ hb₃ hfound =>
          hpost c₃ found h₃ hf₃ (hbeats.trans hb₃) hfound
        · rw [hbeats.recorded]
          exact hdown
        · rw [hi.exit, he.exit, hstatus]
          rfl
      show Prog.wp _ (if status = 0 then _ else _) _ _
      split
      · refine hpost c₁ (.ok _) h₁ hf₁ he.beats fun f' heq => ?_
        rw [← Except.ok.inj heq]
        exact he.exit
      · split
        · apply ask_wp trivial
          intro now'
          have hi := Idle.now c₁ h₁ now'
          show Prog.wp _ (if _ then _ else _) _ _
          split
          · apply Prog.wp_seq
            apply retryPause_history (hf₁.idle hi)
            intro c₂ pause h₂ hi₂
            exact hrest (hi.trans hi₂) rfl
          · exact hrest hi rfl
        · exact hrest (.refl c₁ h₁) rfl

theorem inventory_history {post : Controller × Except Bytes Findings → History → Prop} {hard : Time}
    {attempts : List Nat} {f : Findings} (hf : Faithful c₀ c h) (hnone : c.state.recorded .inventoryEmpty = none)
    (hexit : attempts = [] → h.exit .inventoryEmpty = some f.inventoryStatus)
    (hpost : ∀ c' found h', Faithful c₀ c' h' → Beats c c' →
      (∀ f', found = .ok f' → h'.exit .inventoryEmpty = some f'.inventoryStatus) → post (c', found) h') :
    (inventory hard attempts c f).wp (chronicle c₀) post h := by
  induction attempts generalizing c h f with
  | nil =>
    refine hpost c (.ok f) h hf (.refl c) fun f' heq => ?_
    rw [← Except.ok.inj heq]
    exact hexit rfl
  | cons attempt attempts ih =>
    apply Prog.wp_seq
    apply runWithHeartbeat_history hf hnone
    rintro c₁ beats ⟨status, err⟩ h₁ he
    have hf₁ := hf.ended hnone he
    cases err with
    | some err => exact hpost c₁ (.error _) h₁ hf₁ he.beats nofun
    | none =>
      -- the next attempt begins with the status of this one in the findings
      have hrest : ∀ {c₂ : Controller} {h₂ : History} {f' : Findings}, Idle c₁ h₁ c₂ h₂ → f'.inventoryStatus = status →
          (inventory hard attempts c₂ f').wp (chronicle c₀) post h₂ := by
        intro c₂ h₂ f' hi hstatus
        have hbeats : Beats c c₂ := he.beats.trans hi.beats
        refine ih (hf₁.idle hi) ?_ (fun _ => ?_) fun c₃ found h₃ hf₃ hb₃ hfound =>
          hpost c₃ found h₃ hf₃ (hbeats.trans hb₃) hfound
        · rw [hbeats.recorded]
          exact hnone
        · rw [hi.exit, he.exit, hstatus]
          rfl
      show Prog.wp _ (if status = 0 then _ else _) _ _
      split
      · refine hpost c₁ (.ok _) h₁ hf₁ he.beats fun f' heq => ?_
        rw [← Except.ok.inj heq]
        exact he.exit
      · split
        · apply ask_wp trivial
          intro now'
          have hi := Idle.now c₁ h₁ now'
          show Prog.wp _ (if _ then _ else _) _ _
          split
          · apply Prog.wp_seq
            apply retryPause_history (hf₁.idle hi)
            intro c₂ pause h₂ hi₂
            exact hrest (hi.trans hi₂) rfl
          · exact hrest hi rfl
        · exact hrest (.refl c₁ h₁) rfl

/-- The file for the cost is lost. -/
theorem Faithful.lost (hf : Faithful c₀ c h) : Faithful c₀ c { h with costLost := true } where
  honest :=
    { schema := hf.honest.schema
      run := hf.honest.run
      commit := hf.honest.commit
      exits := by
        intro command e he
        rcases hf.honest.exits command e he with hexit | ⟨hcost, hone, -⟩
        · exact Or.inl hexit
        · exact Or.inr ⟨hcost, hone, rfl⟩
      finished := hf.honest.finished
      untouched := hf.honest.untouched }
  unblocked := hf.unblocked
  running := hf.running
  unreported := hf.unreported

/-- The status the cost is given is that of the command, or stands for the file. -/
def CostTrue (f : Findings) (h : History) : Prop :=
  h.exit .awsCost = some f.costStatus ∨ f.costStatus = 1 ∧ h.costLost = true

theorem cost_history {post : Controller × Except Bytes Findings → History → Prop} {f : Findings} (hf : Faithful c₀ c h)
    (hnone : c.state.recorded .awsCost = none)
    (hpost : ∀ c' found h', Faithful c₀ c' h' → Beats c c' → h'.exit .inventoryEmpty = h.exit .inventoryEmpty →
      (∀ f', found = .ok f' → f'.inventoryStatus = f.inventoryStatus ∧ CostTrue f' h') → post (c', found) h') :
    (c.cost f).wp (chronicle c₀) post h := by
  apply ask_wp trivial
  intro opened
  cases opened with
  | some err =>
    refine hpost c (.ok _) { h with costLost := true } hf.lost (.refl c) rfl fun f' heq => ?_
    rw [← Except.ok.inj heq]
    exact ⟨rfl, Or.inr ⟨rfl, rfl⟩⟩
  | none =>
    apply Prog.wp_seq
    apply runWithHeartbeat_history hf hnone
    rintro c₁ beats ⟨status, err⟩ h₁ he
    have hf₁ := hf.ended hnone he
    -- the inventory keeps its result while the cost is asked for
    have hinventory : h₁.exit .inventoryEmpty = h.exit .inventoryEmpty := he.exit_other nofun
    cases err with
    | some err =>
      apply ask_wp trivial
      intro closed
      cases closed with
      | none => exact hpost c₁ (.error _) h₁ hf₁ he.beats hinventory nofun
      | some _ => exact hpost c₁ (.error _) { h₁ with costLost := true } hf₁.lost he.beats hinventory nofun
    | none =>
      apply ask_wp trivial
      intro closed
      cases closed with
      | none =>
        refine hpost c₁ (.ok _) h₁ hf₁ he.beats hinventory fun f' heq => ?_
        rw [← Except.ok.inj heq]
        exact ⟨rfl, Or.inl he.exit⟩
      | some _ =>
        refine hpost c₁ (.ok _) { h₁ with costLost := true } hf₁.lost he.beats hinventory fun f' heq => ?_
        rw [← Except.ok.inj heq]
        exact ⟨rfl, Or.inr ⟨rfl, rfl⟩⟩

/-- The state is completed with what the last commands came to. -/
theorem Faithful.judged {f : Findings} (hf : Faithful c₀ c h) (hinventory : h.exit .inventoryEmpty = some f.inventoryStatus)
    (hcost : CostTrue f h) {finished : Time} (hfinished : finished ∈ h.clock) (overdue : Bool) (verified : Option Bool)
    (result : Option RunResult) (error : Bytes) :
    Faithful c₀ { c with state := { c.state with
      inventoryExit := some f.inventoryStatus
      costExit := some f.costStatus
      cleanupFinishedAt := utcText finished
      cleanupOverdue := overdue
      cleanupVerified := verified
      result := result
      error := error } } h where
  honest :=
    { schema := hf.honest.schema
      run := hf.honest.run
      commit := hf.honest.commit
      exits := by
        intro command e he
        cases command with
        | inventoryEmpty =>
          obtain rfl := Option.some.inj he
          exact Or.inl hinventory
        | awsCost =>
          obtain rfl := Option.some.inj he
          rcases hcost with hexit | ⟨hone, hlost⟩
          · exact Or.inl hexit
          · exact Or.inr ⟨rfl, hone, hlost⟩
        | _ => exact hf.honest.exits _ e he
      finished := Or.inr ⟨finished, hfinished, rfl⟩
      untouched := hf.honest.untouched }
  unblocked := hf.unblocked
  running := hf.running
  unreported := by
    intro command hcommand
    apply hf.unreported
    cases command with
    | inventoryEmpty | awsCost => cases hcommand
    | _ => exact hcommand

theorem verdict_history {applyStatus : Int} {hard : Time} {f : Findings} (hf : Faithful c₀ c h)
    (hinventory : h.exit .inventoryEmpty = some f.inventoryStatus) (hcost : CostTrue f h) :
    (c.verdict applyStatus hard f).wp (chronicle c₀) (fun _ _ => True) h := by
  apply ask_wp trivial
  intro finished
  have hf₁ := hf.idle (Idle.now c h finished)
  -- whatever the verdict is, what it records is true to the run
  have hjudged := hf₁.judged hinventory hcost List.mem_cons_self (hard.before finished) (some f.cleanupPassed)
  show Prog.wp _ (if _ then _ else _) _ _
  split
  · apply Prog.wp_seq
    -- what is left is the exit code
    have hdone : ∀ (c' : Controller) (err : Option Bytes) (h' : History),
        Prog.wp (chronicle c₀) (if err.isSome then pure (c', 1)
          else if applyStatus ≠ 0 ∨ hard.before finished = true ∨ f.evidencePassed = false then pure (c', 1)
          else pure (c', 0) : Live (Controller × Int)) (fun _ _ => True) h' := by
      intro c' err h'
      split
      · trivial
      · split
        · trivial
        · trivial
    split
    · exact updateState_history (hjudged _ _) fun c' err h' _ => hdone c' err h'
    · split
      · exact updateState_history (hjudged _ _) fun c' err h' _ => hdone c' err h'
      · split
        · exact updateState_history (hjudged _ _) fun c' err h' _ => hdone c' err h'
        · exact updateState_history (hjudged _ _) fun c' err h' _ => hdone c' err h'
  · apply Prog.wp_seq
    exact updateState_history (hjudged _ _) fun _ _ _ _ => trivial

/-- Nothing is recorded of the commands behind the apply. -/
def Unrecorded (c : Controller) : Prop := ∀ command, command.later = true → c.state.recorded command = none

theorem Unrecorded.beats (hu : Unrecorded c) (hb : Beats c c') : Unrecorded c' := by
  intro command hcommand
  rw [hb.recorded]
  exact hu command hcommand

theorem verify_history {applyStatus : Int} {hard : Time} {f : Findings} (hf : Faithful c₀ c h)
    (hdown : h.exit .awsDown = some f.destroyStatus) (hstate : h.exit .stateEmpty = some f.stateStatus)
    (hunrecorded : Unrecorded c) (hstarted : c.state.destroyStartedAt ≠ []) :
    (c.verify applyStatus hard f).wp (chronicle c₀) (fun _ _ => True) h := by
  apply ask_wp trivial
  intro closeErr
  -- the results recorded here are those of the two children that ran
  have hrecorded : Faithful c₀ { c with state := { c.state with
      destroyExit := some f.destroyStatus
      logCleanupPassed := some f.logsPassed
      terraformStateExit := some f.stateStatus
      transcriptPassed := some (f.transcriptPassed && Option.isNone closeErr) } } h := by
    refine ⟨⟨hf.honest.schema, hf.honest.run, hf.honest.commit, ?_, hf.honest.finished, hf.honest.untouched⟩,
      hf.unblocked, hf.running, ?_⟩
    · intro command e he
      cases command with
      | awsDown =>
        obtain rfl := Option.some.inj he
        exact Or.inl hdown
      | stateEmpty =>
        obtain rfl := Option.some.inj he
        exact Or.inl hstate
      | _ => exact hf.honest.exits _ e he
    · intro command hcommand
      apply hf.unreported
      cases command with
      | awsDown | stateEmpty => cases hcommand
      | _ => exact hcommand
  apply Prog.wp_seq
  apply updateState_history hrecorded
  intro c₁ err h₁ hi₁
  have hf₁ := hrecorded.idle hi₁
  apply Prog.wp_seq
  apply inventory_history hf₁
  · rw [hi₁.beats.recorded]
    exact hunrecorded .inventoryEmpty rfl
  · intro hnil
    cases hnil
  intro c₂ found h₂ hf₂ hb₂ hfound
  have hb₁₂ := hi₁.beats.trans hb₂
  have hstarted₂ : c₂.state.destroyStartedAt ≠ [] := by
    rw [hb₁₂.destroyStartedAt]
    exact hstarted
  cases found with
  | error err => exact blockCleanupOnProcess_history hf₂ fun hempty => absurd hempty hstarted₂
  | ok f₂ =>
    apply Prog.wp_seq
    apply cost_history hf₂
    · rw [hb₁₂.recorded]
      exact hunrecorded .awsCost rfl
    intro c₃ found h₃ hf₃ hb₃ hsame hcost
    cases found with
    | error err =>
      refine blockCleanupOnProcess_history hf₃ fun hempty => absurd hempty ?_
      rw [hb₃.destroyStartedAt]
      exact hstarted₂
    | ok f₃ =>
      obtain ⟨hstatus, htrue⟩ := hcost f₃ rfl
      refine verdict_history hf₃ ?_ htrue
      rw [hsame, hfound f₂ rfl, hstatus]

theorem tearDown_history {applyStatus : Int} {hard : Time} {f : Findings} (hf : Faithful c₀ c h)
    (hunrecorded : Unrecorded c) (hstarted : c.state.destroyStartedAt ≠ []) :
    (c.tearDown applyStatus hard f).wp (chronicle c₀) (fun _ _ => True) h := by
  -- the start of the destroy is recorded, and heartbeats leave it
  have hbegun : ∀ {c' : Controller}, Beats c c' → c'.state.destroyStartedAt ≠ [] := by
    intro c' hb
    rw [hb.destroyStartedAt]
    exact hstarted
  apply Prog.wp_seq
  apply destroy_history hf (hunrecorded .awsDown rfl)
  · intro hnil
    cases hnil
  intro c₁ found h₁ hf₁ hb₁ hfound
  cases found with
  | error err =>
    apply ask_wp trivial
    intro _
    exact blockCleanupOnProcess_history hf₁ fun hempty => absurd hempty (hbegun hb₁)
  | ok f₁ =>
    apply Prog.wp_seq
    apply deleteLogsWithHeartbeat_history hf₁
    intro c₂ ok₂ p₂ h₂ hi₂
    have hf₂ := hf₁.idle hi₂
    have hb₂ := hb₁.trans hi₂.beats
    apply Prog.wp_seq
    apply runWithHeartbeat_history hf₂
    · exact hunrecorded.beats hb₂ .stateEmpty rfl
    rintro c₃ ok₃ ⟨status, err⟩ h₃ he
    have hf₃ := hf₂.ended (hunrecorded.beats hb₂ .stateEmpty rfl) he
    have hb₃ := hb₂.trans he.beats
    cases err with
    | some err =>
      apply ask_wp trivial
      intro _
      exact blockCleanupOnProcess_history hf₃ fun hempty => absurd hempty (hbegun hb₃)
    | none =>
      apply Prog.wp_seq
      apply writeLine_history
      intro ok
      -- the commands behind the destroy leave its result as it is
      have hdown : h₃.exit .awsDown = some f₁.destroyStatus := by
        rw [he.exit_other (show Command.awsDown ≠ .stateEmpty by decide), hi₂.exit, hfound f₁ rfl]
      exact verify_history hf₃ hdown he.exit (hunrecorded.beats hb₃) (hbegun hb₃)

theorem utcText_ne_nil (t : Time) : utcText t ≠ [] := by
  unfold utcText Time.rfc3339Nano
  simp

theorem cleanup_history {session : SessionReceipt} {applyStatus : Int} (hf : Faithful c₀ c h) (huntouched : h.Untouched)
    (hunrecorded : Unrecorded c) : (c.cleanup session applyStatus).wp (chronicle c₀) (fun _ _ => True) h := by
  unfold cleanup
  split
  · trivial
  · next hardDeadline _ =>
    apply ask_wp trivial
    intro now
    have hf₀ := hf.idle (Idle.now c h now)
    -- writing down when and why the cleanup begins says nothing about a command
    have hbegun : ∀ reason : Bytes, Faithful c₀ { c with
        state := { c.state with stopReason := reason, destroyStartedAt := utcText now }
        stopReason := reason } { h with clock := now :: h.clock } := by
      intro reason
      refine ⟨⟨hf₀.honest.schema, hf₀.honest.run, hf₀.honest.commit, ?_, hf₀.honest.finished, ?_⟩, hf₀.unblocked,
        hf₀.running, ?_⟩
      · intro command e he
        refine hf₀.honest.exits command e ?_
        rw [← he]
        cases command <;> rfl
      · exact fun _ => huntouched
      · intro command hcommand
        refine hf₀.unreported command ?_
        rw [← hcommand]
        cases command <;> rfl
    apply Prog.wp_seq
    apply updateState_history (hbegun _)
    intro c₁ stateErr h₁ hi₁
    have hf₁ := (hbegun _).idle hi₁
    apply ask_wp trivial
    intro _
    apply ask_wp trivial
    intro openErr
    apply Prog.wp_seq
    apply verifyAccount_history hf₁
    intro c₂ ok identityErr h₂ hi₂
    have hf₂ := hf₁.idle hi₂
    have hb₂ := hi₁.beats.trans hi₂.beats
    -- without the account nothing is destroyed, and no command of the cleanup has run
    cases identityErr with
    | some err =>
      apply Prog.wp_seq
      apply writeLine_history
      intro written
      apply ask_wp trivial
      intro closeErr
      apply Prog.wp_seq
      refine ⟨trivial, fun now => ⟨⟨rfl, ?_⟩, fun _ => trivial⟩⟩
      have hbeats := Honest.beats hf₂.honest (.refl c₂) (List.subset_cons_self now h₂.clock) h₂.reported
      refine ⟨hbeats.schema, hbeats.run, hbeats.commit, ?_, hbeats.finished, ?_⟩
      · intro command e he
        refine hbeats.exits command e ?_
        rw [← he]
        cases command <;> rfl
      · intro _ command hcommand
        show h₂.started command = false
        rw [hi₂.started, hi₁.started]
        exact huntouched command hcommand
    | none =>
      apply tearDown_history hf₂
      · intro command hcommand
        rw [hb₂.recorded, ← hunrecorded command hcommand]
        cases command <;> rfl
      · rw [hb₂.destroyStartedAt]
        exact utcText_ne_nil now

/-! ## The apply -/

/-- The apply is over: it was started, nothing behind it was, and a confirmed exit is what is reported. -/
structure ApplyEnded (c₀ c : Controller) (h : History) (c' : Controller) (outcome : ExecutionResult) (h' : History) : Prop where
  faithful : Faithful c₀ c' h'
  beats : Beats c c'
  started : h'.started = Function.update h.started .awsUp true
  exit : outcome.err = none → h'.exit .awsUp = some outcome.status

/-- While the apply is out. -/
structure ApplyOut (c₀ c : Controller) (h : History) (c' : Controller) (h' : History) : Prop where
  faithful : Faithful c₀ c' h'
  idle : Idle c (h.start .awsUp) c' h'
  unrecorded : c'.state.recorded .awsUp = none

theorem ApplyOut.step {c'' : Controller} (ha : ApplyOut c₀ c h c' h') (hi : Idle c' h' c'' h'') :
    ApplyOut c₀ c h c'' h'' where
  faithful := ha.faithful.idle hi
  idle := ha.idle.trans hi
  unrecorded := by
    rw [hi.beats.recorded]
    exact ha.unrecorded

theorem ApplyOut.stop (ha : ApplyOut c₀ c h c' h') (reason : Bytes) : ApplyOut c₀ c h { c' with stopReason := reason } h' :=
  ha.step (Idle.stop c' h' reason)

theorem ApplyOut.finish {outcome : ExecutionResult} (ha : ApplyOut c₀ c h c' h') :
    ApplyEnded c₀ c h c' outcome (h'.finish outcome) := by
  have hrunning : h'.running = some .awsUp := by
    rw [ha.idle.same]
    rfl
  have hfinish : h'.finish outcome = { h' with
      running := none, exit := Function.update h'.exit .awsUp outcome.confirmed } := by
    unfold History.finish
    rw [hrunning]
  have hstarted : h'.started = Function.update h.started .awsUp true := ha.idle.started
  rw [hfinish]
  refine ⟨⟨⟨ha.faithful.honest.schema, ha.faithful.honest.run, ha.faithful.honest.commit, ?_,
    ha.faithful.honest.finished, ha.faithful.honest.untouched⟩, ha.faithful.unblocked, ha.faithful.running,
    ha.faithful.unreported⟩,
    ha.idle.beats, hstarted, ?_⟩
  · exact fun _ _ hother => ha.faithful.exits_update ha.unrecorded hother
  · intro hnone
    show Function.update h'.exit .awsUp outcome.confirmed .awsUp = _
    rw [Function.update_self]
    unfold ExecutionResult.confirmed
    rw [hnone]
    rfl

/-- The exit is given up. -/
theorem ApplyOut.giveUp {status : Int} {err : Bytes} (ha : ApplyOut c₀ c h c' h') :
    ApplyEnded c₀ c h c' ⟨status, some err⟩ h' :=
  ⟨ha.faithful, ha.idle.beats, ha.idle.started, nofun⟩

theorem stopApply_history {initial : Sig} (ha : ApplyOut c₀ c h c' h') :
    (stopApply c' initial).wp (chronicle c₀) (fun ended t => ApplyEnded c₀ c h ended.1 ended.2 t) h' := by
  apply ask_wp trivial
  intro _
  -- while the loop goes on the apply is out
  apply Prog.wp_forever fun x t => ApplyOut c₀ c h x.1 t
  · exact ha
  · rintro ⟨c₁, current⟩ t ht
    have hescalate : ∀ {post : (Controller × Sig) ⊕ (Controller × ExecutionResult) → History → Prop},
        (∀ next, post (.inl (c₁, next)) t) → (escalate c₁ current).wp (chronicle c₀) post t := by
      intro post hpost
      unfold escalate
      split
      · apply ask_wp trivial
        intro _
        exact hpost _
      · exact hpost _
    apply ask_wp trivial
    intro what
    cases what with
    | result outcome => exact ht.finish
    | signal => exact hescalate fun _ => ht
    | escalate =>
      show Prog.wp _ (if _ then _ else _) _ _
      split
      · exact hescalate fun _ => ht
      · apply ask_wp trivial
        intro ready
        cases ready with
        | some outcome => exact ht.finish
        | none =>
          apply ask_wp trivial
          intro group
          exact ht.giveUp
    | tick =>
      apply Prog.wp_seq
      apply updateState_history ht.faithful
      intro c₂ err u hi
      exact ht.step hi

theorem stopRequestReason_history {post : Bytes → History → Prop} {fallback : Bytes} (hpost : ∀ reason, post reason h) :
    (c.stopRequestReason fallback).wp (chronicle c₀) post h := by
  apply ask_wp trivial
  intro request
  cases request with
  | error _ => exact hpost _
  | ok request =>
    show Prog.wp _ (if _ then _ else _) _ _
    split
    · exact hpost _
    · exact hpost _

theorem runApply_history {destroyDeadline : Time} (hf : Faithful c₀ c h) (hnone : c.state.recorded .awsUp = none) :
    (c.runApply destroyDeadline).wp (chronicle c₀) (fun ended t => ApplyEnded c₀ c h ended.1 ended.2 t) h := by
  refine ask_wp ⟨hf.running, hf.unreported .awsUp hnone⟩ ?_
  intro _
  apply Prog.wp_seq
  -- every way out clears the pending signals
  have hend : ∀ {ended : Controller × ExecutionResult} {t : History}, ApplyEnded c₀ c h ended.1 ended.2 t →
      (do ask .clearPending; pure ended : Live _).wp (chronicle c₀)
        (fun ended t => ApplyEnded c₀ c h ended.1 ended.2 t) t := by
    intro ended t ht
    apply ask_wp trivial
    intro _
    exact ht
  -- and so does an escalation that comes to its end
  have hstop : ∀ {reason : Bytes} {c' : Controller} {t : History}, ApplyOut c₀ c h c' t →
      (stopApply { c' with stopReason := reason } .interrupt).wp (chronicle c₀)
        (fun ended u => (do ask .clearPending; pure ended : Live _).wp (chronicle c₀)
          (fun ended t => ApplyEnded c₀ c h ended.1 ended.2 t) u) t := by
    intro reason c' t ht
    exact Prog.wp_mono (fun _ _ hended => hend hended) (stopApply_history (ht.stop reason))
  -- while the loop goes on the apply is out and nothing is recorded for it
  apply Prog.wp_forever fun c' t => ApplyOut c₀ c h c' t
  · exact ⟨hf.start hnone, .refl c _, hnone⟩
  · intro c₁ t ht
    apply ask_wp trivial
    intro now
    have ht₁ := ht.step (Idle.now c₁ t now)
    show Prog.wp _ (if _ then _ else _) _ _
    split
    · apply Prog.wp_seq
      exact hstop ht₁
    · apply ask_wp trivial
      intro what
      cases what with
      | result outcome => exact hend ht₁.finish
      | signal name =>
        apply Prog.wp_seq
        apply stopRequestReason_history
        intro reason
        apply Prog.wp_seq
        exact hstop ht₁
      | tick =>
        apply Prog.wp_seq
        apply updateState_history ht₁.faithful
        intro c₂ err u hi
        have ht₂ := ht₁.step hi
        cases err with
        | some _ =>
          apply Prog.wp_seq
          exact hstop ht₂
        | none => exact ht₂

theorem waitForStop_history {post : Controller × Option Bytes → History → Prop} {destroyDeadline : Time}
    (hf : Faithful c₀ c h) (hpost : ∀ c' err h', Idle c h c' h' → post (c', err) h') :
    (c.waitForStop destroyDeadline).wp (chronicle c₀) post h := by
  apply Prog.wp_forever fun c' t => Idle c h c' t
  · exact .refl c h
  · intro c₁ t hi
    -- the reason of the stop is written into the state, and says nothing of a command
    have hreason : ∀ (reason : Bytes) {u : History}, Idle c h c₁ u → Idle c h { c₁ with stopReason := reason } u :=
      fun reason _ hi => hi.trans (Idle.stop _ _ reason)
    apply ask_wp trivial
    intro now
    have hi₁ := hi.trans (Idle.now c₁ t now)
    show Prog.wp _ (if _ then _ else _) _ _
    split
    · exact hpost _ _ _ (hreason _ hi₁)
    · apply ask_wp trivial
      intro what
      cases what with
      | signal name => exact hpost _ _ _ (hreason _ hi₁)
      | tick =>
        apply ask_wp trivial
        intro request
        cases request with
        | ok request =>
          show Prog.wp _ (if _ then _ else _) _ _
          split
          · exact hpost _ _ _ hi₁
          · exact hpost _ _ _ (hreason _ hi₁)
        | error err =>
          cases err with
          | other err => exact hpost _ _ _ hi₁
          | missing =>
            apply Prog.wp_seq
            apply updateState_history (hf.idle hi₁)
            intro c₂ err u hi₂
            have hi₁₂ := hi₁.trans hi₂
            cases err with
            | some _ => exact hpost _ _ _ hi₁₂
            | none => exact hi₁₂

/-! ## The whole run -/

theorem live_history {session : SessionReceipt} {destroyDeadline : Time} (hf : Faithful c₀ c h) (huntouched : h.Untouched)
    (hnone : ∀ command, c.state.recorded command = none) :
    (c.live session destroyDeadline).wp (chronicle c₀) (fun _ _ => True) h := by
  apply Prog.wp_seq
  apply Prog.wp_mono _ (runApply_history hf (hnone .awsUp))
  rintro ⟨c₁, status, err⟩ h₁ ha
  -- only the apply has been run so far
  have huntouched₁ : h₁.Untouched := by
    intro command hcommand
    rw [ha.started, Function.update_of_ne (by rintro rfl; cases hcommand)]
    exact huntouched command hcommand
  cases err with
  | some err => exact blockCleanupOnProcess_history ha.faithful fun _ => huntouched₁
  | none =>
    -- the status that is recorded is the one its child ended with
    have hf₁ : Faithful c₀ { c₁ with state := { c₁.state with applyExit := some status } } h₁ := by
      refine ⟨⟨ha.faithful.honest.schema, ha.faithful.honest.run, ha.faithful.honest.commit, ?_,
        ha.faithful.honest.finished, ha.faithful.honest.untouched⟩, ha.faithful.unblocked, ha.faithful.running, ?_⟩
      · intro command e he
        cases command with
        | awsUp =>
          obtain rfl := Option.some.inj he
          exact Or.inl (ha.exit rfl)
        | _ => exact ha.faithful.honest.exits _ e he
      · intro command hcommand
        apply ha.faithful.unreported
        cases command with
        | awsUp => cases hcommand
        | _ => exact hcommand
    -- nothing else has been recorded
    have hunrecorded : Unrecorded { c₁ with state := { c₁.state with applyExit := some status } } := by
      intro command hcommand
      rw [← hnone command, ← ha.beats.recorded]
      cases command with
      | awsUp => cases hcommand
      | _ => rfl
    have hreason : ∀ {c' : Controller} {h' : History} (reason : Bytes), Faithful c₀ c' h' →
        Faithful c₀ { c' with stopReason := reason } h' := fun reason hf' =>
      hf'.idle (Idle.stop _ _ reason)
    have hkept : ∀ {c' : Controller} (reason : Bytes), Unrecorded c' → Unrecorded { c' with stopReason := reason } :=
      fun reason hu => hu
    show Prog.wp _ (if status = 0 then _ else _) _ _
    split
    · apply Prog.wp_seq
      apply updateState_history hf₁
      intro c₂ err h₂ hi₂
      have huntouched₂ : h₂.Untouched := fun command hcommand => by
        rw [hi₂.started]
        exact huntouched₁ command hcommand
      have hunrecorded₂ := hunrecorded.beats hi₂.beats
      cases err with
      | some _ => exact cleanup_history (hreason _ (hf₁.idle hi₂)) huntouched₂ (hkept _ hunrecorded₂)
      | none =>
        apply Prog.wp_seq
        apply waitForStop_history (hf₁.idle hi₂)
        intro c₃ err h₃ hi₃
        have hf₃ := (hf₁.idle hi₂).idle hi₃
        have huntouched₃ : h₃.Untouched := fun command hcommand => by
          rw [hi₃.started]
          exact huntouched₂ command hcommand
        have hunrecorded₃ := hunrecorded₂.beats hi₃.beats
        cases err with
        | some _ => exact cleanup_history (hreason _ hf₃) huntouched₃ (hkept _ hunrecorded₃)
        | none => exact cleanup_history hf₃ huntouched₃ hunrecorded₃
    · split
      · exact cleanup_history (hreason _ hf₁) huntouched₁ (hkept _ hunrecorded)
      · exact cleanup_history hf₁ huntouched₁ hunrecorded

/-- No state was written. -/
structure Unwritten (h : History) : Prop where
  running : h.withheld = false
  unreported : ∀ command, h.reported command = false
  untouched : h.Untouched

theorem Unwritten.now (hun : Unwritten h) (t : Time) : Unwritten ((chronicle c₀).next h .now t) :=
  ⟨hun.running, hun.unreported, hun.untouched⟩

/-- A command in front of the apply. -/
theorem runCommand_history {post : ExecutionResult → History → Prop} {command : Command} (hcommand : command.later = false)
    (hun : Unwritten h) (hpost : ∀ outcome h', Unwritten h' → post outcome h') :
    (runCommand command).wp (chronicle c₀) post h := by
  refine ask_wp ⟨hun.running, hun.unreported command⟩ ?_
  intro _
  refine ⟨trivial, fun outcome => hpost outcome _ ⟨hun.running, hun.unreported, ?_⟩⟩
  intro other hother
  show Function.update h.started command true other = false
  rw [Function.update_of_ne (by rintro rfl; rw [hcommand] at hother; cases hother)]
  exact hun.untouched other hother

theorem createSession_history {post : Except Bytes SessionReceipt → History → Prop} (hun : Unwritten h)
    (hpost : ∀ session h', Unwritten h' → post session h') : c.createSession.wp (chronicle c₀) post h := by
  apply ask_wp trivial
  intro now
  apply Prog.wp_seq
  apply runCommand_history rfl (hun.now now)
  rintro ⟨status, err⟩ h₁ hun₁
  cases err with
  | some err => exact hpost _ h₁ hun₁
  | none =>
    show Prog.wp _ (if status ≠ 0 then _ else _) _ _
    split
    · exact hpost _ h₁ hun₁
    · apply ask_wp trivial
      intro session
      cases session with
      | error err => exact hpost _ h₁ hun₁
      | ok session =>
        dsimp only
        split
        · exact hpost _ h₁ hun₁
        · exact hpost _ h₁ hun₁

theorem recorded_prepared (now : Time) (command : Command) : (c.prepared now).state.recorded command = none := by
  cases command <;> rfl

theorem faithful_prepared {now : Time} (hun : Unwritten h) : Faithful c (c.prepared now) h := by
  refine ⟨⟨rfl, rfl, rfl, ?_, Or.inl rfl, nofun⟩, rfl, hun.running, fun command _ => hun.unreported command⟩
  intro command e he
  rw [recorded_prepared] at he
  cases he

theorem locked_history (hun : Unwritten h) : c.locked.wp (chronicle c) (fun _ _ => True) h := by
  apply Prog.wp_seq
  apply runCommand_history rfl hun
  rintro ⟨status, err⟩ h₁ hun₁
  show Prog.wp _ (if _ then _ else if status ≠ 0 then _ else _) _ _
  split
  · trivial
  · split
    · trivial
    · apply ask_wp trivial
      intro now
      apply Prog.wp_seq
      apply createSession_history (hun₁.now now)
      intro session h₂ hun₂
      cases session with
      | error err => trivial
      | ok session =>
        apply Prog.wp_seq
        apply updateState_history (faithful_prepared hun₂)
        intro c₃ err h₃ hi₃
        have hf₃ := (faithful_prepared hun₂).idle hi₃
        cases err with
        | some _ => trivial
        | none =>
          dsimp only
          cases validateSession session c₃.runID c₃.commit with
          | error _ => trivial
          | ok _ =>
            refine live_history hf₃ (fun command hcommand => ?_) fun command => ?_
            · rw [hi₃.started]
              exact hun₂.untouched command hcommand
            · rw [hi₃.beats.recorded, recorded_prepared]

/-- **Every run writes true states**, and behind one that withholds the commands it starts none. -/
theorem run_history : c.run.wp (chronicle c) (fun _ _ => True) .initial := by
  have hquiet : ∀ q : Ask, q.staged = true →
      (chronicle c).allowed .initial q ∧ ∀ r, (chronicle c).next .initial q r = .initial := by
    intro q hq
    cases q <;> first | exact ⟨trivial, fun _ => rfl⟩ | cases hq
  apply Prog.wp_seq
  apply (requirePreparedRun_asks _ _).wp hquiet
  intro err
  show Prog.wp _ (if _ then _ else _) _ _
  split
  · trivial
  · apply ask_wp trivial
    intro source
    show Prog.wp _ (if _ then _ else _) _ _
    split
    · trivial
    · apply ask_wp trivial
      intro lock
      show Prog.wp _ (if _ then _ else _) _ _
      split
      · trivial
      · apply Prog.wp_seq
        apply Prog.wp_mono _ (locked_history ⟨rfl, fun _ => rfl, fun _ _ => rfl⟩)
        intro ended h' _
        apply ask_wp trivial
        intro _
        trivial

end Controller

end LocalPlatform.LiveRun
