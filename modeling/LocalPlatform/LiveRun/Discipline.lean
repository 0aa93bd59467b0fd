/-
# LocalPlatform.LiveRun.Discipline — in what order the controller uses the executor.

The executor guards a good deal by itself, but not the order of the commands.  That is the controller's
part: it hands over one command at a time, signals only while the apply is out, takes back what may be
pended before it hands over the next command, tears down only after the apply's exit is confirmed, and
hands over nothing once an exit is not.  `desk` is the monitor for this, `run_desk` says that
`controller.run` keeps to it whatever its questions are answered.
-/
import LocalPlatform.LiveRun.Controller

namespace LocalPlatform.LiveRun

open Codec Logic

/-- The commands of the cleanup. -/
def Command.cleanup : Command → Bool
  | .awsDown | .stateEmpty | .inventoryEmpty | .awsCost => true
  | _ => false

/-- What the controller has with the executor. -/
inductive Duty where
  | idle
  | busy (command : Command)
  | closed
  deriving DecidableEq, Repr

/-- The controller's dealings with the executor. -/
structure Book where
  duty : Duty
  /-- The apply's exit is confirmed. -/
  applied : Bool
  /-- A stop signal may be pended. -/
  pendable : Bool
  deriving DecidableEq, Repr

namespace Book

def initial : Book := ⟨.idle, false, false⟩

/-- The apply is out. -/
def applying (pendable : Bool) : Book := ⟨.busy .awsUp, false, pendable⟩

/-- The apply is over, nothing is pended and nothing is out. -/
def settled : Book := ⟨.idle, true, false⟩

/-- The result of the command that is out. -/
def settle (b : Book) (outcome : ExecutionResult) : Book :=
  match b.duty with
  | .busy command =>
    if outcome.err.isSome then { b with duty := .closed }
    else { b with duty := .idle, applied := b.applied || command = .awsUp }
  | _ => b

/-- May this be asked? -/
def allows (b : Book) : Ask → Prop
  | .run command => b.duty = .idle ∧ b.pendable = false ∧ (command = .awsUp → b.applied = false) ∧
      (command.cleanup = true → b.applied = true)
  | .signal _ => b.duty = .busy .awsUp
  | _ => True

def next (b : Book) : (q : Ask) → q.Answer → Book
  | .run command, _ => { b with duty := .busy command }
  | .result, outcome => b.settle outcome
  | .applying, .result outcome => b.settle outcome
  | .stopping, .result outcome => b.settle outcome
  | .ready, some outcome => b.settle outcome
  | .signal _, _ => { b with pendable := true }
  | .clearPending, _ => { b with pendable := false }
  | _, _ => b

end Book

/-- The monitor. -/
def desk : Monitor Ask.Answer Book := ⟨Book.allows, Book.next⟩

/-- A question that has nothing to do with the executor. -/
def Ask.plain : Ask → Bool
  | .run _ | .result | .signal _ | .clearPending | .applying | .stopping | .ready => false
  | _ => true

theorem desk_plain {q : Ask} (hq : q.plain = true) (b : Book) : desk.allowed b q ∧ ∀ r, desk.next b q r = b := by
  cases q <;> first | exact ⟨trivial, fun _ => rfl⟩ | cases hq

/-- A program that does not use the executor. -/
abbrev Plain {α : Type} (p : Live α) : Prop := p.Asks fun q => q.plain = true

theorem Plain.wp {α : Type} {p : Live α} {post : α → Book → Prop} {b : Book} (hp : Plain p) (hpost : ∀ a, post a b) :
    p.wp desk post b := Prog.Asks.wp hp (fun _ hq => desk_plain hq b) hpost

theorem Plain.seq {α β : Type} {p : Live α} {f : α → Live β} (hp : Plain p) (hf : ∀ a, Plain (f a)) : Plain (p >>= f) :=
  Prog.Asks.bind hp hf

/-! ## What does not use the executor -/

theorem requirePreparedRun_plain (runID commit : Bytes) : Plain (requirePreparedRun runID commit) :=
  (requirePreparedRun_asks runID commit).mono fun q hq => by cases q <;> first | rfl | cases hq

namespace Controller

variable {c : Controller} {phase : RunPhase}

theorem updateState_plain : Plain (c.updateState phase) :=
  ask_asks (by rfl) fun _ => ask_asks (by rfl) fun _ => trivial

theorem heartbeats_plain {passed : Bool} : Plain (c.heartbeats phase passed) := by
  refine ⟨fun x => ask_asks (by rfl) fun fired => ?_, fun _ => trivial⟩
  split
  · exact updateState_plain.seq fun _ => trivial
  · trivial

theorem retryPause_plain : Plain (c.retryPause phase) := by
  unfold retryPause
  split
  · refine ⟨fun x => ask_asks (by rfl) fun fired => ?_, fun _ => trivial⟩
    split
    · refine updateState_plain.seq ?_
      rintro ⟨c', err⟩
      cases err <;> trivial
    · trivial
  · exact ask_asks (by rfl) fun _ => updateState_plain.seq fun _ => trivial

theorem accountWithHeartbeat_plain : Plain c.accountWithHeartbeat :=
  heartbeats_plain.seq fun _ => ask_asks (by rfl) fun _ => trivial

theorem verifyAttempts_plain {account lastError : Bytes} {attempts : List Nat} {passed : Bool} :
    Plain (verifyAttempts account attempts c passed lastError) := by
  induction attempts generalizing c passed lastError with
  | nil => trivial
  | cons attempt attempts ih =>
      refine accountWithHeartbeat_plain.seq ?_
      rintro ⟨c', ok, current⟩
      cases current with
      | ok current =>
          show Plain (if _ then _ else _)
          split
          · trivial
          · exact ask_asks (by rfl) fun _ => trivial
      | error err =>
          refine ask_asks (by rfl) fun _ => ?_
          split
          · exact retryPause_plain.seq fun _ => ih
          · exact ih

theorem verifyAccount_plain : Plain c.verifyAccount := by
  refine ask_asks (by rfl) fun receipt => ?_
  cases receipt with
  | error err => trivial
  | ok account =>
      show Plain (if _ then _ else _)
      split
      · exact verifyAttempts_plain
      · trivial

theorem writeLine_plain {line : Line} : Plain (writeLine line) := ask_asks (by rfl) fun _ => trivial

theorem deleteGroups_plain {names : List Bytes} {beats passed : Bool} : Plain (deleteGroups names c beats passed) := by
  induction names generalizing c beats passed with
  | nil => trivial
  | cons name names ih =>
      refine heartbeats_plain.seq fun x => ask_asks (by rfl) fun err => ?_
      cases err with
      | some err => exact heartbeats_plain.seq fun _ => writeLine_plain.seq fun _ => ih
      | none => exact heartbeats_plain.seq fun _ => writeLine_plain.seq fun _ => ih

theorem deleteLogsWithHeartbeat_plain : Plain c.deleteLogsWithHeartbeat := by
  refine heartbeats_plain.seq fun _ => writeLine_plain.seq fun _ => heartbeats_plain.seq fun x =>
    ask_asks (by rfl) fun groups => ?_
  have hfail : ∀ line, Plain ((x.1.heartbeats .destroying x.2) >>= fun y => writeLine line >>= fun _ =>
      y.1.heartbeats .destroying y.2 >>= fun z => pure (z.1, z.2, false)) := fun line =>
    heartbeats_plain.seq fun _ => writeLine_plain.seq fun _ => heartbeats_plain.seq fun _ => trivial
  cases groups with
  | failed err => exact hfail _
  | invalid err => exact hfail _
  | names names =>
      refine deleteGroups_plain.seq fun _ => heartbeats_plain.seq ?_
      rintro ⟨c', beats⟩
      show Plain (if _ then _ else _)
      split
      · exact writeLine_plain.seq fun _ => heartbeats_plain.seq fun _ => trivial
      · trivial

theorem stopRequestReason_plain {fallback : Bytes} : Plain (c.stopRequestReason fallback) := by
  refine ask_asks (by rfl) fun request => ?_
  cases request with
  | error _ => trivial
  | ok request =>
      show Plain (if _ then _ else _)
      split <;> trivial

theorem waitForStop_plain {destroyDeadline : Time} : Plain (c.waitForStop destroyDeadline) := by
  refine ⟨fun x => ask_asks (by rfl) fun now => ?_, fun _ => trivial⟩
  show Plain (if _ then _ else _)
  split
  · trivial
  · refine ask_asks (by rfl) fun what => ?_
    cases what with
    | signal name => trivial
    | tick =>
        refine ask_asks (by rfl) fun request => ?_
        match request with
        | .ok request =>
            show Plain (if _ then _ else _)
            split <;> trivial
        | .error (.other err) => trivial
        | .error .missing =>
            refine updateState_plain.seq ?_
            rintro ⟨c', err⟩
            cases err <;> trivial

theorem blockCleanupOnProcess_plain {err : Bytes} : Plain (c.blockCleanupOnProcess err) :=
  updateState_plain.seq fun _ => trivial

theorem verdict_plain {applyStatus : Int} {hard : Time} {f : Findings} : Plain (c.verdict applyStatus hard f) := by
  refine ask_asks (by rfl) fun now => ?_
  show Plain (if _ then _ else _)
  split
  · refine updateState_plain.seq ?_
    rintro ⟨c', err⟩
    show Plain (if _ then _ else if _ then _ else _)
    split
    · trivial
    · split <;> trivial
  · exact updateState_plain.seq fun _ => trivial

/-! ## The cleanup -/

variable {b : Book}

theorem runWithHeartbeat_desk {post : Controller × Bool × ExecutionResult → Book → Prop} {command : Command}
    (hcommand : command.cleanup = true) (hok : ∀ c' ok status, post (c', ok, ⟨status, none⟩) .settled)
    (herr : ∀ c' ok status err b, post (c', ok, ⟨status, some err⟩) b) :
    (c.runWithHeartbeat command phase).wp desk post .settled := by
  have hup : command ≠ .awsUp := by
    rintro rfl
    cases hcommand
  apply ask_wp
  · exact ⟨rfl, rfl, fun h => absurd h hup, fun _ => rfl⟩
  intro _
  apply Prog.wp_seq
  apply heartbeats_plain.wp
  rintro ⟨c', ok⟩
  apply ask_wp trivial
  rintro ⟨status, err⟩
  cases err with
  | none => exact hok c' ok status
  | some err => exact herr c' ok status err _

theorem destroy_desk {post : Controller × Except Bytes Findings → Book → Prop} {hard : Time} {attempts : List Nat}
    {f : Findings} (hok : ∀ c' f', post (c', .ok f') .settled) (herr : ∀ c' err b, post (c', .error err) b) :
    (destroy hard attempts c f).wp desk post .settled := by
  -- on the attempts that are left, each of which settles before the next
  induction attempts generalizing c f with
  | nil => exact hok c f
  | cons attempt attempts ih =>
      apply ask_wp trivial
      intro now
      apply Prog.wp_seq
      apply writeLine_plain.wp
      intro ok
      apply Prog.wp_seq
      apply runWithHeartbeat_desk rfl
      · intro c' beats status
        apply Prog.wp_seq
        apply writeLine_plain.wp
        intro ok'
        show Prog.wp _ (if status = 0 then _ else if _ then _ else _) _ _
        split
        · exact hok c' _
        split
        · apply ask_wp trivial
          intro later
          split
          · apply Prog.wp_seq
            apply retryPause_plain.wp
            rintro ⟨c'', pause⟩
            exact ih
          · exact ih
        · exact ih
      · exact fun c' beats status err b => herr c' _ b

theorem inventory_desk {post : Controller × Except Bytes Findings → Book → Prop} {hard : Time} {attempts : List Nat}
    {f : Findings} (hok : ∀ c' f', post (c', .ok f') .settled) (herr : ∀ c' err b, post (c', .error err) b) :
    (inventory hard attempts c f).wp desk post .settled := by
  induction attempts generalizing c f with
  | nil => exact hok c f
  | cons attempt attempts ih =>
      apply Prog.wp_seq
      apply runWithHeartbeat_desk rfl
      · intro c' beats status
        show Prog.wp _ (if status = 0 then _ else if _ then _ else _) _ _
        split
        · exact hok c' _
        split
        · apply ask_wp trivial
          intro later
          split
          · apply Prog.wp_seq
            apply retryPause_plain.wp
            rintro ⟨c'', pause⟩
            exact ih
          · exact ih
        · exact ih
      · exact fun c' beats status err b => herr c' _ b

theorem cost_desk {post : Controller × Except Bytes Findings → Book → Prop} {f : Findings}
    (hok : ∀ c' f', post (c', .ok f') .settled) (herr : ∀ c' err b, post (c', .error err) b) :
    (c.cost f).wp desk post .settled := by
  apply ask_wp trivial
  intro opened
  cases opened with
  | some err => exact hok c _
  | none =>
      apply Prog.wp_seq
      apply runWithHeartbeat_desk rfl
      · intro c' beats status
        apply ask_wp trivial
        intro closeErr
        exact hok c' _
      · intro c' beats status err b
        apply ask_wp trivial
        intro _
        exact herr c' _ b

/-- What ends a run does not matter to the executor. -/
def Any {α : Type} (_ : α) (_ : Book) : Prop := True

theorem blockCleanupOnProcess_desk {err : Bytes} : (c.blockCleanupOnProcess err).wp desk Any b :=
  blockCleanupOnProcess_plain.wp fun _ => trivial

theorem verify_desk {applyStatus : Int} {hard : Time} {f : Findings} : (c.verify applyStatus hard f).wp desk Any .settled := by
  apply ask_wp trivial
  intro closeErr
  apply Prog.wp_seq
  apply updateState_plain.wp
  rintro ⟨c₁, err⟩
  apply Prog.wp_seq
  apply inventory_desk
  · intro c₂ f₂
    apply Prog.wp_seq
    apply cost_desk
    · exact fun c₃ f₃ => verdict_plain.wp fun _ => trivial
    · exact fun c₃ err b => blockCleanupOnProcess_desk
  · exact fun c₂ err b => blockCleanupOnProcess_desk

theorem tearDown_desk {applyStatus : Int} {hard : Time} {f : Findings} :
    (c.tearDown applyStatus hard f).wp desk Any .settled := by
  apply Prog.wp_seq
  apply destroy_desk
  · intro c₁ f₁
    apply Prog.wp_seq
    apply deleteLogsWithHeartbeat_plain.wp
    rintro ⟨c₂, beats, logs⟩
    apply Prog.wp_seq
    apply runWithHeartbeat_desk rfl
    · intro c₃ ok status
      apply Prog.wp_seq
      apply writeLine_plain.wp
      intro ok'
      exact verify_desk
    · intro c₃ ok status err b
      apply ask_wp trivial
      intro _
      exact blockCleanupOnProcess_desk
  · intro c₁ err b
    apply ask_wp trivial
    intro _
    exact blockCleanupOnProcess_desk

theorem cleanup_desk {session : SessionReceipt} {applyStatus : Int} :
    (c.cleanup session applyStatus).wp desk Any .settled := by
  unfold cleanup
  split
  · trivial
  · apply ask_wp trivial
    intro now
    apply Prog.wp_seq
    apply updateState_plain.wp
    rintro ⟨c₁, stateErr⟩
    apply ask_wp trivial
    intro _
    apply ask_wp trivial
    intro openErr
    apply Prog.wp_seq
    apply verifyAccount_plain.wp
    rintro ⟨c₂, beats, identityErr⟩
    cases identityErr with
    | some err =>
        apply Prog.wp_seq
        apply writeLine_plain.wp
        intro ok
        apply ask_wp trivial
        intro closeErr
        apply Prog.wp_seq
        exact updateState_plain.wp fun _ => trivial
    | none => exact tearDown_desk

/-! ## The apply -/

/-- How the apply may end: confirmed, or with an error. -/
def Ended (ended : Controller × ExecutionResult) (b : Book) : Prop :=
  ended.2.err = none → b.duty = .idle ∧ b.applied = true

theorem ended_settle {outcome : ExecutionResult} {pendable : Bool} :
    Ended (c, outcome) ((Book.applying pendable).settle outcome) := by
  intro hnone
  simp only at hnone
  simp [Book.settle, Book.applying, hnone]

theorem stopApply_desk {initial : Sig} {pendable : Bool} : (c.stopApply initial).wp desk Ended (.applying pendable) := by
  apply ask_wp
  · exact rfl
  intro _
  -- while the loop goes on the apply is out, and a signal may be pending
  apply Prog.wp_forever fun _ b => b = Book.applying true
  · rfl
  · rintro ⟨c', current⟩ _ rfl
    have hescalate : ∀ {post : (Controller × Sig) ⊕ (Controller × ExecutionResult) → Book → Prop},
        (∀ z, post (.inl z) (.applying true)) → (c'.escalate current).wp desk post (.applying true) := by
      intro post hpost
      unfold escalate
      split
      · apply ask_wp
        · exact rfl
        intro _
        exact hpost _
      · exact hpost _
    apply ask_wp trivial
    intro what
    cases what with
    | result outcome => exact ended_settle
    | escalate =>
        show Prog.wp _ (if _ then _ else _) _ _
        split
        · exact hescalate fun _ => rfl
        · apply ask_wp trivial
          intro ready
          cases ready with
          | some outcome => exact ended_settle
          | none =>
              apply ask_wp trivial
              intro group
              exact fun h => absurd h (by simp)
    | signal => exact hescalate fun _ => rfl
    | tick =>
        apply Prog.wp_seq
        apply updateState_plain.wp
        rintro ⟨c'', err⟩
        rfl

theorem runApply_desk {post : Controller × ExecutionResult → Book → Prop} {destroyDeadline : Time}
    (hok : ∀ c' status, post (c', ⟨status, none⟩) .settled) (herr : ∀ c' status err b, post (c', ⟨status, some err⟩) b) :
    (c.runApply destroyDeadline).wp desk post .initial := by
  apply ask_wp
  · exact ⟨rfl, rfl, fun _ => rfl, fun h => by cases h⟩
  intro _
  apply Prog.wp_seq
  apply Prog.wp_forever fun _ b => b = Book.applying false
  · rfl
  · rintro c' _ rfl
    -- whichever way it ends, what may be pended is taken back
    have hend : ∀ {ended : Controller × ExecutionResult} {b : Book}, Ended ended b →
        (do ask .clearPending; pure ended : Live _).wp desk post b := by
      rintro ⟨c'', status, err⟩ ⟨duty, applied, pendable⟩ hended
      apply ask_wp trivial
      intro _
      cases err with
      | some err => exact herr c'' status err _
      | none =>
          obtain ⟨rfl, rfl⟩ := hended rfl
          exact hok c'' status
    have hstop : ∀ {c'' : Controller}, (stopApply c'' .interrupt).wp desk
        (fun ended b => (do ask .clearPending; pure ended : Live _).wp desk post b) (.applying false) := fun {c''} =>
      Prog.wp_mono (fun ended b => hend) stopApply_desk
    apply ask_wp trivial
    intro now
    show Prog.wp _ (if _ then _ else _) _ _
    split
    · apply Prog.wp_seq
      exact hstop
    · apply ask_wp trivial
      intro what
      cases what with
      | result outcome => exact hend ended_settle
      | signal name =>
          apply Prog.wp_seq
          apply stopRequestReason_plain.wp
          intro reason
          apply Prog.wp_seq
          exact hstop
      | tick =>
          apply Prog.wp_seq
          apply updateState_plain.wp
          rintro ⟨c'', err⟩
          cases err with
          | some _ =>
              apply Prog.wp_seq
              exact hstop
          | none => rfl

/-! ## The whole run -/

theorem live_desk {session : SessionReceipt} {destroyDeadline : Time} :
    (c.live session destroyDeadline).wp desk Any .initial := by
  apply Prog.wp_seq
  apply runApply_desk
  · intro c₁ status
    show Prog.wp _ (if status = 0 then _ else _) _ _
    split
    · apply Prog.wp_seq
      apply updateState_plain.wp
      rintro ⟨c₂, err⟩
      cases err with
      | some _ => exact cleanup_desk
      | none =>
          apply Prog.wp_seq
          apply waitForStop_plain.wp
          rintro ⟨c₃, err⟩
          exact cleanup_desk
    · exact cleanup_desk
  · exact fun c₁ status err b => blockCleanupOnProcess_desk

/-- A command before the apply. -/
theorem runCommand_desk {post : ExecutionResult → Book → Prop} {command : Command} (hup : command ≠ .awsUp)
    (hcleanup : command.cleanup = false) (hok : ∀ status, post ⟨status, none⟩ .initial)
    (herr : ∀ status err b, post ⟨status, some err⟩ b) : (runCommand command).wp desk post .initial := by
  apply ask_wp
  · exact ⟨rfl, rfl, fun _ => rfl, fun h => absurd (hcleanup.symm.trans h) (by simp)⟩
  intro _
  refine ⟨trivial, ?_⟩
  rintro ⟨status, err⟩
  cases err with
  | some err => exact herr status err _
  | none =>
      have := hok status
      simpa [desk, Book.next, Book.settle, Book.initial, hup] using this

theorem createSession_desk {post : Except Bytes SessionReceipt → Book → Prop} (hok : ∀ session, post (.ok session) .initial)
    (herr : ∀ err b, post (.error err) b) : c.createSession.wp desk post .initial := by
  apply ask_wp trivial
  intro now
  apply Prog.wp_seq
  apply runCommand_desk (by simp) rfl
  · intro status
    show Prog.wp _ (if status ≠ 0 then _ else _) _ _
    split
    · exact herr _ _
    · apply ask_wp trivial
      intro session
      cases session with
      | error err => exact herr _ _
      | ok session =>
          dsimp only
          split
          · exact herr _ _
          · exact hok session
  · exact fun status err b => herr err b

theorem locked_desk : c.locked.wp desk Any .initial := by
  apply Prog.wp_seq
  apply runCommand_desk (by simp) rfl
  · intro status
    show Prog.wp _ (if status ≠ 0 then _ else _) _ _
    split
    · trivial
    · apply ask_wp trivial
      intro now
      apply Prog.wp_seq
      apply createSession_desk
      · intro session
        apply Prog.wp_seq
        apply updateState_plain.wp
        rintro ⟨c', err⟩
        cases err with
        | some _ => trivial
        | none =>
            dsimp only
            cases validateSession session c'.runID c'.commit with
            | error _ => trivial
            | ok _ => exact live_desk
      · exact fun err b => trivial
  · exact fun status err b => trivial

/-- **The controller keeps to the order**, whatever its questions are answered. -/
theorem run_desk : c.run.wp desk Any .initial := by
  apply Prog.wp_seq
  apply (requirePreparedRun_plain _ _).wp
  intro err
  split
  · trivial
  apply ask_wp trivial
  intro source
  split
  · trivial
  apply ask_wp trivial
  intro lock
  split
  · trivial
  apply Prog.wp_seq
  apply Prog.wp_mono _ locked_desk
  intro ended b _
  apply ask_wp trivial
  intro _
  trivial

end Controller

end LocalPlatform.LiveRun
