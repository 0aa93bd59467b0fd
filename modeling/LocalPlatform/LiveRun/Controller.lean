/-
# LocalPlatform.LiveRun.Controller — `controller.run` as a program.

The controller is one goroutine.  Everything it does outside its own memory is a question to its
environment: a clock reading, a file read or written, a command handed to the executor, a channel it
waits on.  A `select` is one question whose answer says which case was taken; the ticker of a command
that runs in another goroutine is asked before each thing the controller waits for.

The controller's fields and its `controller-state.json` are ordinary values, passed along.  What goes to
standard error is left out.
-/
import LocalPlatform.Codec.Time
import LocalPlatform.Codec.Utf8
import LocalPlatform.Logic.Interaction
import Mathlib.Data.List.Sort

namespace LocalPlatform.LiveRun

open Codec Logic

/-! ## Receipts -/

/-- `utcText`. -/
def utcText (t : Time) : Bytes := Time.rfc3339Nano ⟨t.nanos / 1000000000 * 1000000000, 0⟩

/-- **`parseUTC`**: what is read must be written the same again. -/
def parseUTC (value field : Bytes) : Except Bytes Time :=
  match Time.parse value with
  | some t => if t.offset = 0 ∧ utcText t = value then .ok t else .error (field ++ ascii " must use UTC YYYY-MM-DDTHH:MM:SSZ")
  | none => .error (field ++ ascii " must use UTC YYYY-MM-DDTHH:MM:SSZ")

/-- `sessionReceipt`. -/
structure SessionReceipt where
  schemaVersion : Int
  runID : Bytes
  commit : Bytes
  region : Bytes
  billableStartedAt : Bytes
  destroyDeadline : Bytes
  hardDeadline : Bytes
  deriving DecidableEq, Repr

/-- `preflightReceipt`. -/
structure PreflightReceipt where
  schemaVersion : Int
  runID : Bytes
  commit : Bytes
  result : Bytes
  deriving DecidableEq, Repr

/-- `capturePlan`. -/
structure CapturePlan where
  schemaVersion : Int
  runID : Bytes
  commit : Bytes
  evidenceDeadlineMinutes : Int
  hardDeadlineMinutes : Int
  deriving DecidableEq, Repr

/-- `goPacket`. -/
structure GoPacket where
  schemaVersion : Int
  runID : Bytes
  sourceCommit : Bytes
  decision : Bytes
  abortCommand : Bytes
  passed : Bool
  deriving DecidableEq, Repr

/-- `stopRequest`. -/
structure StopRequest where
  schemaVersion : Int
  runID : Bytes
  reason : Bytes
  deriving DecidableEq, Repr

/-- Why `readJSON` fails: there is no file, or anything else. -/
inductive ReadError where
  | missing
  | other (text : Bytes)
  deriving DecidableEq, Repr

/-- Minutes, in nanoseconds. -/
def minutes (n : Int) : Int := n * 60000000000

def destroyAfter : Int := minutes 150

def hardAfter : Int := minutes 180

/-- **`validateSession`**: the three instants of a receipt that belongs to this run. -/
def validateSession (session : SessionReceipt) (runID commit : Bytes) : Except Bytes (Time × Time × Time) := do
  if session.schemaVersion ≠ 1 ∨ session.runID ≠ runID ∨ session.commit ≠ commit ∨ session.region ≠ ascii "us-east-1" then
    .error (ascii "session receipt is not bound to this run and commit")
  else
    let started ← parseUTC session.billableStartedAt (ascii "billable start")
    let destroy ← parseUTC session.destroyDeadline (ascii "destroy deadline")
    let hard ← parseUTC session.hardDeadline (ascii "hard deadline")
    if destroy.sub started ≠ destroyAfter ∨ hard.sub started ≠ hardAfter then
      .error (ascii "session receipt does not contain the fixed deadlines")
    else .ok (started, destroy, hard)

/-! ## The controller's state -/

/-- What the executor is asked to run. -/
inductive Command where
  | verifyGoNoGo
  | startSession
  | awsUp
  | awsDown
  | stateEmpty
  | inventoryEmpty
  | awsCost
  deriving DecidableEq, Repr

/-- `executionResult`: an error says that the process group may still be running. -/
structure ExecutionResult where
  status : Int
  err : Option Bytes
  deriving DecidableEq, Repr

/-- The signals the controller sends. -/
inductive Sig where
  | interrupt
  | terminate
  | kill
  deriving DecidableEq, Repr

/-- `controllerState.Phase`. -/
inductive RunPhase where
  | applying
  | live
  | destroying
  | verifying
  | complete
  | cleanupFailed
  deriving DecidableEq, Repr

/-- `controllerState.Result`. -/
inductive RunResult where
  | cleanupOverdue
  | applyFailedCleanupComplete
  | cleanupCompleteWithErrors
  | passed
  | cleanupFailed
  deriving DecidableEq, Repr

/-- `controllerState.CleanupBlockedReason`. -/
inductive BlockedReason where
  | identityUnverified
  | processExitUnconfirmed
  deriving DecidableEq, Repr

/-- `controllerState`; what JSON omits when empty is empty or `none` here. -/
structure ControllerState where
  schemaVersion : Int
  runID : Bytes
  commit : Bytes
  operator : Bytes
  region : Bytes
  controllerPID : Int
  createdAt : Bytes
  updatedAt : Bytes
  phase : Option RunPhase
  result : Option RunResult
  stopReason : Bytes
  applyExit : Option Int
  destroyStartedAt : Bytes
  destroyExit : Option Int
  logCleanupPassed : Option Bool
  terraformStateExit : Option Int
  transcriptPassed : Option Bool
  inventoryExit : Option Int
  costExit : Option Int
  cleanupFinishedAt : Bytes
  cleanupBlockedReason : Option BlockedReason
  cleanupOverdue : Bool
  cleanupVerified : Option Bool
  error : Bytes
  deriving DecidableEq, Repr

/-- The zero `controllerState`. -/
def ControllerState.zero : ControllerState :=
  ⟨0, [], [], [], [], 0, [], [], none, none, [], none, [], none, none, none, none, none, none, [], none, false, none, []⟩

/-- `controller`: what it is started with, and what it changes. -/
structure Controller where
  runID : Bytes
  commit : Bytes
  operator : Bytes
  profile : Bytes
  region : Bytes
  pid : Int
  /-- The `after` hook is set, as `newController` leaves it. -/
  after : Bool
  state : ControllerState
  stopReason : Bytes
  deriving DecidableEq, Repr

/-! ## Questions -/

/-- What is written to the destroy transcript. -/
inductive Line where
  | identityMatched (attempt : Nat)
  | identityFailed (attempt : Nat) (err : Bytes)
  | recovery (err profile region : Bytes)
  | destroyAttempt (attempt : Nat) (time : Bytes)
  | destroyExit (status : Int)
  | deleteLogs
  | describeFailed (err : Bytes)
  | invalidResponse (err : Bytes)
  | deleteFailed (name err : Bytes)
  | deleted (name : Bytes)
  | noLogGroups
  | stateExit (status : Int)
  deriving DecidableEq, Repr

/-- The text of a line. -/
def Line.text : Line → Bytes
  | .identityMatched n => ascii "identity verification attempt " ++ dec n ++ ascii ": account matched\n"
  | .identityFailed n err => ascii "identity verification attempt " ++ dec n ++ ascii " failed: " ++ err ++ ascii "\n"
  | .recovery err profile region => err ++ ascii "\n" ++
      ascii "hourly EKS, MSK, RDS, network, or log resources may still be running; verify AWS_PROFILE_NAME=" ++ profile ++
      ascii " against 01-identity.txt, then run make aws-down AWS_PROFILE_NAME=" ++ profile ++
      ascii " AWS_REAL_REGION=" ++ region ++ ascii "\n"
  | .destroyAttempt n time => ascii "==> destroy attempt " ++ dec n ++ ascii " at " ++ time ++ ascii "\n"
  | .destroyExit status => ascii "destroy exit: " ++ decInt status ++ ascii "\n"
  | .deleteLogs => ascii "\n==> delete service-created M4 log groups\n"
  | .describeFailed err => err ++ ascii "\n"
  | .invalidResponse err => ascii "invalid log-group response: " ++ err ++ ascii "\n"
  | .deleteFailed name err => ascii "delete " ++ name ++ ascii ": " ++ err ++ ascii "\n"
  | .deleted name => ascii "delete " ++ name ++ ascii ": exit 0\n"
  | .noLogGroups => ascii "no matching log groups\n"
  | .stateExit status => ascii "terraform state check exit: " ++ decInt status ++ ascii "\n"

/-- The cases of the `select` in `runApply`. -/
inductive Applying where
  | result (outcome : ExecutionResult)
  | signal (name : Bytes)
  | tick
  deriving DecidableEq, Repr

/-- The cases of the `select` in `stopApply`. -/
inductive Stopping where
  | result (outcome : ExecutionResult)
  | escalate
  | signal
  | tick
  deriving DecidableEq, Repr

/-- The cases of the `select` in `waitForStop`. -/
inductive Waiting where
  | signal (name : Bytes)
  | tick
  deriving DecidableEq, Repr

/-- The answer of `aws logs describe-log-groups`. -/
inductive LogGroups where
  | failed (err : Bytes)
  | invalid (err : Bytes)
  | names (names : List Bytes)
  deriving DecidableEq, Repr

/-- **What the controller asks its environment.** -/
inductive Ask where
  | now
  | rawDirectory
  | preflight
  | plan
  | packet
  | statSession
  | source
  | lock
  | unlock
  | session
  | write (state : ControllerState)
  /-- A command is handed to the executor, in this goroutine or another. -/
  | run (command : Command)
  /-- The command's result. -/
  | result
  | signal (signal : Sig)
  | clearPending
  | activeGroup
  | applying
  | stopping
  /-- The result, if it is there already. -/
  | ready
  | waiting
  | stopRequest
  /-- Does the ticker fire before what the controller waits for? -/
  | tick
  /-- Does the ticker fire before the pause is over? -/
  | pause
  | sleep
  | accountReceipt
  | account
  | openTranscript
  | transcript (line : Line)
  | closeTranscript
  | describeLogGroups
  | deleteLogGroup (name : Bytes)
  | openCost
  | closeCost
  deriving DecidableEq, Repr

/-- The answers; where an operation may fail, `none` is success. -/
@[reducible] def Ask.Answer : Ask → Type
  | .now => Time
  | .rawDirectory | .source | .lock | .write _ | .openTranscript | .transcript _ | .closeTranscript => Option Bytes
  | .deleteLogGroup _ | .openCost | .closeCost => Option Bytes
  | .preflight => Except Bytes PreflightReceipt
  | .plan => Except Bytes CapturePlan
  | .packet => Except Bytes GoPacket
  | .statSession => Except Bytes Bool
  | .session => Except Bytes SessionReceipt
  | .unlock | .run _ | .signal _ | .clearPending | .sleep => Unit
  | .result => ExecutionResult
  | .activeGroup => Bytes
  | .applying => Applying
  | .stopping => Stopping
  | .ready => Option ExecutionResult
  | .waiting => Waiting
  | .stopRequest => Except ReadError StopRequest
  | .tick | .pause => Bool
  | .accountReceipt | .account => Except Bytes Bytes
  | .describeLogGroups => LogGroups

/-- A part of the controller. -/
abbrev Live := Prog Ask Ask.Answer

/-- One question. -/
def ask (q : Ask) : Live q.Answer := Prog.question q

/-- One question, and then the rest. -/
theorem ask_wp {σ α : Type} {M : Monitor Ask.Answer σ} {q : Ask} {f : q.Answer → Live α} {post : α → σ → Prop} {s : σ}
    (hq : M.allowed s q) (h : ∀ r, (f r).wp M post (M.next s q r)) : (ask q >>= f).wp M post s :=
  Prog.wp_question_seq hq h

/-- Every question of a program that starts with one. -/
theorem ask_asks {α : Type} {P : Ask → Prop} {q : Ask} {f : q.Answer → Live α} (hq : P q) (h : ∀ r, (f r).Asks P) :
    (ask q >>= f).Asks P := ⟨hq, h⟩

/-! ## Before the session -/

/-- The receipts of `requirePreparedRun`, each read and then compared. -/
def requirePreparedRun (runID commit : Bytes) : Live (Option Bytes) := do
  match ← ask .rawDirectory with
  | some err => pure (some err)
  | none =>
  match ← ask .preflight with
  | .error err => pure (some err)
  | .ok preflight =>
  if preflight.schemaVersion ≠ 1 ∨ preflight.runID ≠ runID ∨ preflight.commit ≠ commit ∨ preflight.result ≠ ascii "passed" then
    pure (some (ascii "preflight receipt is not a pass for this run and commit"))
  else
  match ← ask .plan with
  | .error err => pure (some err)
  | .ok plan =>
  if plan.schemaVersion ≠ 1 ∨ plan.runID ≠ runID ∨ plan.commit ≠ commit ∨ plan.evidenceDeadlineMinutes ≠ 150 ∨
      plan.hardDeadlineMinutes ≠ 180 then
    pure (some (ascii "capture plan does not contain the fixed paid window"))
  else
  match ← ask .packet with
  | .error err => pure (some err)
  | .ok decision =>
  if decision.schemaVersion ≠ 1 ∨ decision.runID ≠ runID ∨ decision.sourceCommit ≠ commit ∨
      decision.decision ≠ ascii "go" ∨ decision.passed = false ∨ decision.abortCommand ≠ ascii "make aws-down" then
    pure (some (ascii "GO packet is not a pass for this run and commit"))
  else
  match ← ask .statSession with
  | .error err => pure (some err)
  | .ok true => pure (some (ascii "session receipt already exists for this run"))
  | .ok false => pure none

/-- What `requirePreparedRun` reads. -/
def Ask.staged : Ask → Bool
  | .rawDirectory | .preflight | .plan | .packet | .statSession => true
  | _ => false

theorem requirePreparedRun_asks (runID commit : Bytes) :
    (requirePreparedRun runID commit).Asks fun q => q.staged = true := by
  refine ask_asks (by rfl) fun err => ?_
  cases err with
  | some err => trivial
  | none =>
  refine ask_asks (by rfl) fun preflight => ?_
  cases preflight with
  | error err => trivial
  | ok preflight =>
  show Prog.Asks _ (if _ then _ else _)
  split
  · trivial
  refine ask_asks (by rfl) fun plan => ?_
  cases plan with
  | error err => trivial
  | ok plan =>
  show Prog.Asks _ (if _ then _ else _)
  split
  · trivial
  refine ask_asks (by rfl) fun packet => ?_
  cases packet with
  | error err => trivial
  | ok decision =>
  show Prog.Asks _ (if _ then _ else _)
  split
  · trivial
  refine ask_asks (by rfl) fun stat => ?_
  match stat with
  | .error _ | .ok true | .ok false => trivial

/-- `Run` on this goroutine. -/
def runCommand (command : Command) : Live ExecutionResult := do
  ask (.run command)
  ask .result

namespace Controller

/-- **`createSession`**. -/
def createSession (c : Controller) : Live (Except Bytes SessionReceipt) := do
  let _ ← ask .now
  let outcome ← runCommand .startSession
  match outcome.err with
  | some err => pure (.error err)
  | none =>
  if outcome.status ≠ 0 then pure (.error (ascii "failed to create the live session receipt"))
  else
  match ← ask .session with
  | .error err => pure (.error err)
  | .ok session =>
  match validateSession session c.runID c.commit with
  | .error err => pure (.error err)
  | .ok _ => pure (.ok session)

/-! ## Writing the state -/

/-- The state as `updateState` writes it. -/
def stamp (c : Controller) (phase : RunPhase) (now : Time) : Controller :=
  { c with state := { c.state with phase := some phase, updatedAt := utcText now } }

/-- **`updateState`**. -/
def updateState (c : Controller) (phase : RunPhase) : Live (Controller × Option Bytes) := do
  let now ← ask .now
  let err ← ask (.write (c.stamp phase now).state)
  pure (c.stamp phase now, err)

/-- The ticker's part of a `select` between a result and a heartbeat: writes until the result is taken. -/
def heartbeats (c : Controller) (phase : RunPhase) (passed : Bool) : Live (Controller × Bool) :=
  .forever (fun x => do
    if ← ask .tick then
      let (c, err) ← x.1.updateState phase
      pure (.inl (c, x.2 && err.isNone))
    else pure (.inr x)) (c, passed)

/-- **`retryPause`**. -/
def retryPause (c : Controller) (phase : RunPhase) : Live (Controller × Bool) :=
  if c.after then
    .forever (fun c => do
      if ← ask .pause then
        let (c, err) ← updateState c phase
        if err.isSome then pure (.inr (c, false)) else pure (.inl c)
      else pure (.inr (c, true))) c
  else do
    ask .sleep
    let (c, err) ← c.updateState phase
    pure (c, err.isNone)

/-- **`runWithHeartbeat`**. -/
def runWithHeartbeat (c : Controller) (command : Command) (phase : RunPhase) : Live (Controller × Bool × ExecutionResult) := do
  ask (.run command)
  let (c, passed) ← c.heartbeats phase true
  let outcome ← ask .result
  pure (c, passed, outcome)

/-- **`accountWithHeartbeat`**. -/
def accountWithHeartbeat (c : Controller) : Live (Controller × Bool × Except Bytes Bytes) := do
  let (c, passed) ← c.heartbeats .destroying true
  let account ← ask .account
  pure (c, passed, account)

/-! ## The account -/

def identityAttempts : Nat := 3

/-- `accountPattern`: twelve digits. -/
def isAccount (bs : Bytes) : Bool := bs.length == 12 && bs.all isDigit

/-- The attempts of `verifyAccount` that are left, with the last error. -/
def verifyAttempts (account : Bytes) : List Nat → Controller → Bool → Bytes → Live (Controller × Bool × Option Bytes)
  | [], c, passed, lastError =>
    pure (c, passed, some (ascii "current AWS identity could not be verified after " ++ dec identityAttempts ++
      ascii " attempts: " ++ lastError))
  | attempt :: attempts, c, passed, _ => do
    let (c, ok, current) ← c.accountWithHeartbeat
    match current with
    | .ok current =>
      if current ≠ account then
        pure (c, passed && ok, some (ascii "current AWS account does not match the staged account"))
      else
        -- the error of this write is dropped
        let _ ← ask (.transcript (.identityMatched attempt))
        pure (c, passed && ok, none)
    | .error err =>
      let _ ← ask (.transcript (.identityFailed attempt err))
      if attempt < identityAttempts then
        let (c, pause) ← c.retryPause .destroying
        verifyAttempts account attempts c (pause && (passed && ok)) err
      else verifyAttempts account attempts c (passed && ok) err

/-- **`verifyAccount`**. -/
def verifyAccount (c : Controller) : Live (Controller × Bool × Option Bytes) := do
  match ← ask .accountReceipt with
  | .error err => pure (c, true, some err)
  | .ok account =>
    if isAccount account then verifyAttempts account (List.range' 1 identityAttempts) c true []
    else pure (c, true, some (ascii "account receipt has no valid account id"))

/-! ## The log groups -/

/-- `logPrefixes`. -/
def logPrefixes : List Bytes := [ascii "/aws/eks/mlp-", ascii "/aws/msk/mlp-"]

/-- The groups to delete: those with one of the prefixes, sorted. -/
def runtimeLogs (names : List Bytes) : List Bytes :=
  (names.filter fun name => logPrefixes.any fun pre => pre.isPrefixOf name).mergeSort fun a b => decide (a ≤ b)

/-- A line that must be written. -/
def writeLine (line : Line) : Live Bool := do
  let err ← ask (.transcript line)
  pure err.isNone

/-- The deletions that are left; a heartbeat may fall between any two operations. -/
def deleteGroups : List Bytes → Controller → Bool → Bool → Live (Controller × Bool × Bool)
  | [], c, beats, passed => pure (c, beats, passed)
  | name :: names, c, beats, passed => do
    let (c, beats) ← c.heartbeats .destroying beats
    match ← ask (.deleteLogGroup name) with
    | some err =>
      let (c, beats) ← c.heartbeats .destroying beats
      let _ ← writeLine (.deleteFailed name err)
      deleteGroups names c beats false
    | none =>
      let (c, beats) ← c.heartbeats .destroying beats
      let ok ← writeLine (.deleted name)
      deleteGroups names c beats (passed && ok)

/-- **`deleteLogsWithHeartbeat`** of `DeleteRuntimeLogs`: the last two components are whether the
heartbeats and the deletions passed. -/
def deleteLogsWithHeartbeat (c : Controller) : Live (Controller × Bool × Bool) := do
  let (c, beats) ← c.heartbeats .destroying true
  let passed ← writeLine .deleteLogs
  let (c, beats) ← c.heartbeats .destroying beats
  match ← ask .describeLogGroups with
  | .failed err =>
    let (c, beats) ← c.heartbeats .destroying beats
    let _ ← writeLine (.describeFailed err)
    let (c, beats) ← c.heartbeats .destroying beats
    pure (c, beats, false)
  | .invalid err =>
    let (c, beats) ← c.heartbeats .destroying beats
    let _ ← writeLine (.invalidResponse err)
    let (c, beats) ← c.heartbeats .destroying beats
    pure (c, beats, false)
  | .names names =>
    let (c, beats, passed) ← deleteGroups (runtimeLogs names) c beats passed
    let (c, beats) ← c.heartbeats .destroying beats
    if runtimeLogs names = [] then
      let ok ← writeLine .noLogGroups
      let (c, beats) ← c.heartbeats .destroying beats
      pure (c, beats, passed && ok)
    else pure (c, beats, passed)

/-! ## Applying -/

/-- **`escalationAfter`**: the next signal, where there is one. -/
def escalationAfter : Sig → Option Sig
  | .interrupt => some .terminate
  | .terminate => some .kill
  | .kill => none

/-- **`stopRequestReason`**. -/
def stopRequestReason (c : Controller) (fallback : Bytes) : Live Bytes := do
  match ← ask .stopRequest with
  | .error _ => pure fallback
  | .ok request =>
    if request.schemaVersion = 1 ∧ request.runID = c.runID ∧ trimSpace request.reason ≠ [] then pure request.reason
    else pure fallback

/-- The signal after this one is sent, where there is one. -/
def escalate (c : Controller) (current : Sig) : Live ((Controller × Sig) ⊕ (Controller × ExecutionResult)) := do
  match escalationAfter current with
  | some next =>
    ask (.signal next)
    pure (.inl (c, next))
  | none => pure (.inl (c, current))

/-- **`stopApply`**. -/
def stopApply (c : Controller) (initial : Sig) : Live (Controller × ExecutionResult) := do
  ask (.signal initial)
  .forever (fun x => do
    match ← ask .stopping with
    | .result outcome => pure (.inr (x.1, outcome))
    | .escalate =>
      if (escalationAfter x.2).isSome then escalate x.1 x.2
      else
        match ← ask .ready with
        | some outcome => pure (.inr (x.1, outcome))
        | none =>
          let group ← ask .activeGroup
          pure (.inr (x.1, ⟨124, some (ascii "process exit could not be confirmed: apply did not exit after SIGKILL" ++ group)⟩))
    | .signal => escalate x.1 x.2
    | .tick =>
      let (c, _) ← x.1.updateState .applying
      pure (.inl (c, x.2))) (c, initial)

/-- `destroyDeadlineReached`. -/
def destroyDeadlineReached (now deadline : Time) : Bool := !now.before deadline

/-- **`runApply`**; the last question is deferred. -/
def runApply (c : Controller) (destroyDeadline : Time) : Live (Controller × ExecutionResult) := do
  ask (.run .awsUp)
  let outcome ← .forever (fun c => do
    let now ← ask .now
    if destroyDeadlineReached now destroyDeadline then
      let outcome ← stopApply { c with stopReason := ascii "destroy_deadline" } .interrupt
      pure (.inr outcome)
    else
    match ← ask .applying with
    | .result outcome => pure (.inr (c, outcome))
    | .signal name =>
      let reason ← c.stopRequestReason name
      let outcome ← stopApply { c with stopReason := reason } .interrupt
      pure (.inr outcome)
    | .tick =>
      let (c, err) ← updateState c .applying
      if err.isSome then
        let outcome ← stopApply { c with stopReason := ascii "state_write_failed" } .interrupt
        pure (.inr outcome)
      else pure (.inl c)) c
  ask .clearPending
  pure outcome

/-- **`waitForStop`**. -/
def waitForStop (c : Controller) (destroyDeadline : Time) : Live (Controller × Option Bytes) :=
  .forever (fun c => do
    let now ← ask .now
    if destroyDeadlineReached now destroyDeadline then
      pure (.inr ({ c with stopReason := ascii "destroy_deadline" }, none))
    else
    match ← ask .waiting with
    | .signal name => pure (.inr ({ c with stopReason := name }, none))
    | .tick =>
    match ← ask .stopRequest with
    | .ok request =>
      if request.schemaVersion ≠ 1 ∨ request.runID ≠ c.runID then
        pure (.inr (c, some (ascii "stop request is not bound to this run")))
      else pure (.inr ({ c with stopReason := if request.reason = [] then ascii "operator_stop" else request.reason }, none))
    | .error (.other err) => pure (.inr (c, some err))
    | .error .missing =>
      let (c, err) ← updateState c .live
      if err.isSome then pure (.inr (c, err)) else pure (.inl c)) c

/-! ## Cleaning up -/

/-- **`blockCleanupOnProcess`**. -/
def blockCleanupOnProcess (c : Controller) (err : Bytes) : Live (Controller × Int) := do
  let c := { c with stopReason := if c.stopReason = [] then ascii "process_exit_unconfirmed" else c.stopReason }
  let c := { c with state := { c.state with
    stopReason := c.stopReason
    result := some .cleanupFailed
    cleanupVerified := some false
    cleanupBlockedReason := some .processExitUnconfirmed
    error := err } }
  let (c, _) ← c.updateState .cleanupFailed
  pure (c, 1)

def destroyAttempts : Nat := 3

def inventoryAttempts : Nat := 3

/-- What the cleanup has found so far. -/
structure Findings where
  heartbeatPassed : Bool
  transcriptPassed : Bool
  destroyStatus : Int
  logsPassed : Bool
  stateStatus : Int
  inventoryStatus : Int
  costStatus : Int
  deriving DecidableEq, Repr

/-- The attempts to destroy that are left; an error is an unconfirmed exit. -/
def destroy (hardDeadline : Time) : List Nat → Controller → Findings → Live (Controller × Except Bytes Findings)
  | [], c, f => pure (c, .ok f)
  | attempt :: attempts, c, f => do
    let now ← ask .now
    let ok ← writeLine (.destroyAttempt attempt (utcText now))
    let f := { f with transcriptPassed := f.transcriptPassed && ok }
    let (c, beats, outcome) ← c.runWithHeartbeat .awsDown .destroying
    match outcome.err with
    | some err => pure (c, .error (ascii "destroy: " ++ err))
    | none =>
    let ok ← writeLine (.destroyExit outcome.status)
    let f := { f with
      heartbeatPassed := f.heartbeatPassed && beats
      transcriptPassed := f.transcriptPassed && ok
      destroyStatus := outcome.status }
    if outcome.status = 0 then pure (c, .ok f)
    else if attempt < destroyAttempts then
      let now ← ask .now
      if now.before hardDeadline then
        let (c, pause) ← c.retryPause .destroying
        destroy hardDeadline attempts c { f with heartbeatPassed := pause && f.heartbeatPassed }
      else destroy hardDeadline attempts c f
    else destroy hardDeadline attempts c f

/-- The attempts to take the inventory that are left. -/
def inventory (hardDeadline : Time) : List Nat → Controller → Findings → Live (Controller × Except Bytes Findings)
  | [], c, f => pure (c, .ok f)
  | attempt :: attempts, c, f => do
    let (c, beats, outcome) ← c.runWithHeartbeat .inventoryEmpty .verifying
    match outcome.err with
    | some err => pure (c, .error (ascii "inventory: " ++ err))
    | none =>
    let f := { f with heartbeatPassed := f.heartbeatPassed && beats, inventoryStatus := outcome.status }
    if outcome.status = 0 then pure (c, .ok f)
    else if attempt < inventoryAttempts then
      let now ← ask .now
      if now.before hardDeadline then
        let (c, pause) ← c.retryPause .verifying
        inventory hardDeadline attempts c { f with heartbeatPassed := pause && f.heartbeatPassed }
      else inventory hardDeadline attempts c f
    else inventory hardDeadline attempts c f

/-- The cost observation. -/
def cost (c : Controller) (f : Findings) : Live (Controller × Except Bytes Findings) := do
  match ← ask .openCost with
  | some _ => pure (c, .ok { f with costStatus := 1 })
  | none =>
  let (c, beats, outcome) ← c.runWithHeartbeat .awsCost .verifying
  match outcome.err with
  | some err =>
    let _ ← ask .closeCost
    pure (c, .error (ascii "cost observation: " ++ err))
  | none =>
  let closeErr ← ask .closeCost
  pure (c, .ok { f with
    heartbeatPassed := f.heartbeatPassed && beats
    costStatus := if closeErr.isSome then 1 else outcome.status })

namespace Findings

def cleanupPassed (f : Findings) : Bool := f.stateStatus == 0 && f.inventoryStatus == 0

def evidencePassed (f : Findings) : Bool :=
  f.destroyStatus == 0 && f.logsPassed && f.transcriptPassed && f.costStatus == 0 && f.heartbeatPassed

end Findings

/-- **The verdict**: the end of `cleanup`. -/
def verdict (c : Controller) (applyStatus : Int) (hardDeadline : Time) (f : Findings) : Live (Controller × Int) := do
  let finished ← ask .now
  let overdue := hardDeadline.before finished
  let c := { c with state := { c.state with
    inventoryExit := some f.inventoryStatus
    costExit := some f.costStatus
    cleanupFinishedAt := utcText finished
    cleanupOverdue := overdue
    cleanupVerified := some f.cleanupPassed } }
  if f.cleanupPassed then
    let c :=
      if overdue then { c with state := { c.state with result := some .cleanupOverdue } }
      else if applyStatus ≠ 0 then { c with state := { c.state with result := some .applyFailedCleanupComplete } }
      else if !f.evidencePassed then { c with state := { c.state with
        result := some .cleanupCompleteWithErrors
        error := ascii "cleanup was verified, but one or more cleanup or evidence commands failed" } }
      else { c with state := { c.state with result := some .passed } }
    let (c, err) ← c.updateState .complete
    if err.isSome then pure (c, 1)
    else if applyStatus ≠ 0 ∨ overdue ∨ f.evidencePassed = false then pure (c, 1)
    else pure (c, 0)
  else
    let c := { c with state := { c.state with result := some .cleanupFailed } }
    let (c, _) ← c.updateState .cleanupFailed
    pure (c, 1)

/-- From the end of the transcript on. -/
def verify (c : Controller) (applyStatus : Int) (hardDeadline : Time) (f : Findings) : Live (Controller × Int) := do
  let closeErr ← ask .closeTranscript
  let f := { f with transcriptPassed := f.transcriptPassed && closeErr.isNone }
  let c := { c with state := { c.state with
    destroyExit := some f.destroyStatus
    logCleanupPassed := some f.logsPassed
    terraformStateExit := some f.stateStatus
    transcriptPassed := some f.transcriptPassed } }
  let (c, _) ← c.updateState .verifying
  let (c, found) ← inventory hardDeadline (List.range' 1 inventoryAttempts) c f
  match found with
  | .error err => c.blockCleanupOnProcess err
  | .ok f =>
  let (c, found) ← c.cost f
  match found with
  | .error err => c.blockCleanupOnProcess err
  | .ok f => c.verdict applyStatus hardDeadline f

/-- From the account's verification on. -/
def tearDown (c : Controller) (applyStatus : Int) (hardDeadline : Time) (f : Findings) : Live (Controller × Int) := do
  let (c, found) ← destroy hardDeadline (List.range' 1 destroyAttempts) c f
  match found with
  | .error err =>
    let _ ← ask .closeTranscript
    c.blockCleanupOnProcess err
  | .ok f =>
  let (c, beats, logsPassed) ← c.deleteLogsWithHeartbeat
  let f := { f with heartbeatPassed := f.heartbeatPassed && beats, logsPassed := logsPassed }
  let (c, beats, outcome) ← c.runWithHeartbeat .stateEmpty .destroying
  match outcome.err with
  | some err =>
    let _ ← ask .closeTranscript
    c.blockCleanupOnProcess (ascii "state check: " ++ err)
  | none =>
  let ok ← writeLine (.stateExit outcome.status)
  c.verify applyStatus hardDeadline { f with
    heartbeatPassed := f.heartbeatPassed && beats
    stateStatus := outcome.status
    transcriptPassed := f.transcriptPassed && ok }

/-- **`cleanup`**. -/
def cleanup (c : Controller) (session : SessionReceipt) (applyStatus : Int) : Live (Controller × Int) := do
  match validateSession session c.runID c.commit with
  | .error _ => pure (c, 1)
  | .ok (_, _, hardDeadline) =>
  let c := { c with stopReason :=
    if c.stopReason = [] then (if applyStatus ≠ 0 then ascii "apply_failed" else ascii "operator_stop") else c.stopReason }
  let now ← ask .now
  let c := { c with state := { c.state with stopReason := c.stopReason, destroyStartedAt := utcText now } }
  let (c, stateErr) ← c.updateState .destroying
  ask .clearPending
  let openErr ← ask .openTranscript
  let (c, beats, identityErr) ← c.verifyAccount
  match identityErr with
  | some err =>
    let ok ← writeLine (.recovery err c.profile c.region)
    let closeErr ← ask .closeTranscript
    let c := { c with state := { c.state with
      error := err
      transcriptPassed := some (openErr.isNone && ok && closeErr.isNone)
      cleanupVerified := some false
      cleanupBlockedReason := some .identityUnverified } }
    let (c, _) ← c.updateState .cleanupFailed
    pure (c, 1)
  | none => c.tearDown applyStatus hardDeadline ⟨stateErr.isNone && beats, openErr.isNone, 1, true, 1, 1, 1⟩

/-- From the session's receipt on. -/
def live (c : Controller) (session : SessionReceipt) (destroyDeadline : Time) : Live (Controller × Int) := do
  let (c, applied) ← c.runApply destroyDeadline
  match applied.err with
  | some err => c.blockCleanupOnProcess (ascii "apply: " ++ err)
  | none =>
  let c := { c with state := { c.state with applyExit := some applied.status } }
  if applied.status = 0 then
    let (c, err) ← c.updateState .live
    if err.isSome then cleanup { c with stopReason := ascii "state_write_failed" } session applied.status
    else
      let (c, err) ← c.waitForStop destroyDeadline
      let c := if err.isSome then { c with stopReason := ascii "controller_error" } else c
      c.cleanup session applied.status
  else
    let c := if c.stopReason = [] then { c with stopReason := ascii "apply_failed" } else c
    c.cleanup session applied.status

/-- The controller with the state of a new run. -/
def prepared (c : Controller) (now : Time) : Controller :=
  { c with state := { ControllerState.zero with
    schemaVersion := 1
    runID := c.runID
    commit := c.commit
    operator := c.operator
    region := c.region
    controllerPID := c.pid
    createdAt := utcText now } }

/-- What `run` does while it holds the lock. -/
def locked (c : Controller) : Live (Controller × Int) := do
  let checked ← runCommand .verifyGoNoGo
  if checked.err.isSome then pure (c, 1)
  else if checked.status ≠ 0 then pure (c, checked.status)
  else
  let now ← ask .now
  let c := c.prepared now
  match ← c.createSession with
  | .error _ => pure (c, 1)
  | .ok session =>
  let (c, err) ← c.updateState .applying
  if err.isSome then pure (c, 1)
  else
  match validateSession session c.runID c.commit with
  | .error _ => pure (c, 1)
  | .ok (_, destroyDeadline, _) => c.live session destroyDeadline

/-- **`run`**: the controller afterwards, and the exit code. -/
def run (c : Controller) : Live (Controller × Int) := do
  if (← requirePreparedRun c.runID c.commit).isSome then pure (c, 1)
  else if (← ask .source).isSome then pure (c, 1)
  else if (← ask .lock).isSome then pure (c, 1)
  else
  let ended ← c.locked
  ask .unlock
  pure ended

end Controller

/-! ## A rehearsal -/

def drill : Controller :=
  ⟨ascii "20260922T000000Z", List.replicate 40 0x61, ascii "operator", ascii "relay", ascii "us-east-1", 7, true, .zero, []⟩

def drillSession : SessionReceipt :=
  ⟨1, drill.runID, drill.commit, ascii "us-east-1", ascii "2026-09-22T00:00:00Z", ascii "2026-09-22T02:30:00Z",
    ascii "2026-09-22T03:00:00Z"⟩

/-- Everything goes well, but some lines may find the disk full. -/
def smooth (lost : Line → Bool) : (q : Ask) → q.Answer
  | .now => Time.ofUnix 1790038800
  | .rawDirectory | .source | .lock | .write _ | .openTranscript | .closeTranscript => none
  | .deleteLogGroup _ | .openCost | .closeCost => none
  | .transcript line => if lost line then some (ascii "no space left on device") else none
  | .preflight => .ok ⟨1, drill.runID, drill.commit, ascii "passed"⟩
  | .plan => .ok ⟨1, drill.runID, drill.commit, 150, 180⟩
  | .packet => .ok ⟨1, drill.runID, drill.commit, ascii "go", ascii "make aws-down", true⟩
  | .statSession => .ok false
  | .session => .ok drillSession
  | .unlock | .run _ | .signal _ | .clearPending | .sleep => ()
  | .result => ⟨0, none⟩
  | .activeGroup => []
  | .applying => .result ⟨0, none⟩
  | .stopping => .result ⟨0, none⟩
  | .ready => none
  | .waiting => .signal (ascii "interrupt")
  | .stopRequest => .error .missing
  | .tick | .pause => false
  | .accountReceipt | .account => .ok (List.replicate 12 0x31)
  | .describeLogGroups => .names [ascii "/aws/eks/mlp-dev"]

end LocalPlatform.LiveRun
