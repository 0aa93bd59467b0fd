/-
# LocalPlatform.LiveRun.FailedSummary — the summary of a failed attempt.

`failed_summary` reads the last `controller-state.json` of a run.  The state says how commands exited; where it says
nothing, the reason for which the cleanup was blocked tells whether the command was run at all.

The state is written by one program and read by another.  What lies between the two is a JSON object, here the
dictionary `ControllerState.document`; of a field that is empty the object has none.
-/
import LocalPlatform.Codec.Json.Quote
import LocalPlatform.Evidence.Receipts
import LocalPlatform.LiveRun.History
import LocalPlatform.Python.DateTime
import LocalPlatform.Python.Files

namespace LocalPlatform.LiveRun

open Codec Logic Python Evidence

/-! ## The state file -/

/-- The text JSON shows for a Go string. -/
def shown (bs : Bytes) : Str := (runes bs).map codePoint

def RunPhase.text : RunPhase → Str
  | .applying => lit "applying"
  | .live => lit "live"
  | .destroying => lit "destroying"
  | .verifying => lit "verifying"
  | .complete => lit "complete"
  | .cleanupFailed => lit "cleanup_failed"

def RunResult.text : RunResult → Str
  | .cleanupOverdue => lit "cleanup_overdue"
  | .applyFailedCleanupComplete => lit "apply_failed_cleanup_complete"
  | .cleanupCompleteWithErrors => lit "cleanup_complete_with_errors"
  | .passed => lit "passed"
  | .cleanupFailed => lit "cleanup_failed"

def BlockedReason.text : BlockedReason → Str
  | .identityUnverified => lit "identity_unverified"
  | .processExitUnconfirmed => lit "process_exit_unconfirmed"

/-- A string that is left out when it is empty. -/
def nonEmpty (bs : Bytes) : Option Value := if bs = [] then none else some (.str (shown bs))

namespace ControllerState

/-- The fields in their order; `none` is left out. -/
def fields (st : ControllerState) : List (Str × Option Value) :=
  [(lit "schema_version", some (.int st.schemaVersion)), (lit "run_id", some (.str (shown st.runID))),
    (lit "commit", some (.str (shown st.commit))), (lit "operator", some (.str (shown st.operator))),
    (lit "region", some (.str (shown st.region))), (lit "controller_pid", some (.int st.controllerPID)),
    (lit "created_at", some (.str (shown st.createdAt))), (lit "updated_at", some (.str (shown st.updatedAt))),
    (lit "phase", some (.str ((st.phase.map RunPhase.text).getD []))),
    (lit "result", st.result.map fun r => .str r.text), (lit "stop_reason", nonEmpty st.stopReason),
    (lit "apply_exit", st.applyExit.map .int), (lit "destroy_started_at", nonEmpty st.destroyStartedAt),
    (lit "destroy_exit", st.destroyExit.map .int), (lit "log_cleanup_passed", st.logCleanupPassed.map .bool),
    (lit "terraform_state_exit", st.terraformStateExit.map .int),
    (lit "transcript_passed", st.transcriptPassed.map .bool), (lit "inventory_exit", st.inventoryExit.map .int),
    (lit "cost_exit", st.costExit.map .int), (lit "cleanup_finished_at", nonEmpty st.cleanupFinishedAt),
    (lit "cleanup_blocked_reason", st.cleanupBlockedReason.map fun r => .str r.text),
    (lit "cleanup_overdue", some (.bool st.cleanupOverdue)), (lit "cleanup_verified", st.cleanupVerified.map .bool),
    (lit "error", nonEmpty st.error)]

/-- **`controller-state.json`** as it is read. -/
def document (st : ControllerState) : Dict := st.fields.filterMap fun p => p.2.map fun v => (p.1, v)

end ControllerState

theorem ControllerState.nodup_fields (st : ControllerState) : (st.fields.map Prod.fst).Nodup := by
  show [lit "schema_version", lit "run_id", lit "commit", lit "operator", lit "region", lit "controller_pid",
    lit "created_at", lit "updated_at", lit "phase", lit "result", lit "stop_reason", lit "apply_exit",
    lit "destroy_started_at", lit "destroy_exit", lit "log_cleanup_passed", lit "terraform_state_exit",
    lit "transcript_passed", lit "inventory_exit", lit "cost_exit", lit "cleanup_finished_at",
    lit "cleanup_blocked_reason", lit "cleanup_overdue", lit "cleanup_verified", lit "error"].Nodup
  decide +kernel

/-- A field is read as it was written. -/
theorem dictGet_document (st : ControllerState) (k : Str) : dictGet st.document k = (st.fields.lookup k).join.getD .null := by
  unfold dictGet ControllerState.document
  rw [lookup_filterMap st.nodup_fields]

/-! ## The summary -/

/-- Whether a text has a form, in which a `d` stands for a digit. -/
def fits : Str → Str → Bool
  | [], [] => true
  | t :: ts, c :: cs => (if t = 0x64 then (anyDigit c).isSome else c == t) && fits ts cs
  | _, _ => false

/-- `parse_utc` -/
def parseUtc (value : Value) (field : Str) : Py DateTime :=
  match value with
  | .str s =>
    if fits (lit "dddd-dd-ddTdd:dd:ddZ") s = true then
      match strptime s with
      | .ok t => .ok t
      | .error _ => .error (.own (field ++ lit " is not a real UTC timestamp"))
    else .error (.own (field ++ lit " must use UTC YYYY-MM-DDTHH:MM:SSZ"))
  | _ => .error (.own (field ++ lit " must use UTC YYYY-MM-DDTHH:MM:SSZ"))

/-! ## The stamp of a second -/

theorem shown_ascii {bs : Bytes} (h : ∀ c ∈ bs, c < 0x80) : shown bs = bs.map UInt8.toNat := by
  unfold shown
  induction bs with
  | nil => rfl
  | cons c bs ih =>
    rw [Codec.Json.runes_ascii_cons (h c List.mem_cons_self), List.map_cons, ih fun d hd => h d (List.mem_cons_of_mem c hd)]
    rfl

theorem toNat_pad2 (n : Nat) : (Time.pad2 n).map UInt8.toNat = pad2 n := by
  have hdigit : ∀ d, d < 10 → (digit d).toNat = 0x30 + d := by
    intro d hd
    unfold digit
    rw [UInt8.toNat_ofNat']
    omega
  show [(digit (n / 10 % 10)).toNat, (digit (n % 10)).toNat] = _
  rw [hdigit _ (Nat.mod_lt _ (by decide)), hdigit _ (Nat.mod_lt _ (by decide))]
  rfl

theorem toNat_pad4 (n : Nat) : (Time.pad4 n).map UInt8.toNat = pad4 n := by
  have hmod : pad2 (n % 100) = pad2 n := by
    unfold pad2
    rw [show n % 100 / 10 % 10 = n / 10 % 10 by omega, show n % 100 % 10 = n % 10 by omega]
  rw [Time.pad4, List.map_append, toNat_pad2, toNat_pad2, hmod]
  rfl

/-- The seconds from the start of year 0. -/
def secondsOf (t : Time) : ℤ := t.unix + Time.epochDay * 86400

/-- An instant of the years 1 to 9999, as a `datetime` is. -/
def Dated (t : Time) : Prop := 366 * 86400 ≤ secondsOf t ∧ secondsOf t < Time.calendarDays * 86400

instance (t : Time) : Decidable (Dated t) := inferInstanceAs (Decidable (_ ∧ _))

/-- The instant, to the second, as a `datetime`. -/
def Dated.instant {t : Time} (h : Dated t) : DateTime where
  micros := (secondsOf t).toNat * 1000000
  from_year_one := by
    unfold dayMicros
    have := h.1
    omega
  in_calendar := by
    unfold dayMicros Time.calendarDays
    have := h.2
    unfold Time.calendarDays at this
    omega

theorem Dated.whole {t : Time} (h : Dated t) : h.instant.whole := Nat.mul_mod_left _ _

/-- **Go writes a second as Python does.** -/
theorem shown_utcText {t : Time} (h : Dated t) : shown (utcText t) = h.instant.strftime := by
  have hascii : ∀ c ∈ utcText t, c < 0x80 := by
    intro c hc
    have hsafe := List.all_eq_true.mp (Time.safe_rfc3339Nano _) c hc
    simp only [Json.safe, Bool.and_eq_true, decide_eq_true_eq] at hsafe
    exact hsafe.1.2
  have hday : (Time.localDay ⟨t.nanos / 1000000000 * 1000000000, 0⟩).toNat = h.instant.day := by
    have hlow := h.1
    unfold secondsOf Time.unix Time.epochDay at hlow
    show ((t.nanos / 1000000000 * 1000000000 / 1000000000 + 0) / 86400 + 719528).toNat
      = ((t.nanos / 1000000000 + 719528 * 86400).toNat * 1000000) / 86400000000
    omega
  have hsecond : (Time.localSeconds ⟨t.nanos / 1000000000 * 1000000000, 0⟩ % 86400).toNat = h.instant.daySecond := by
    have hlow := h.1
    unfold secondsOf Time.unix Time.epochDay at hlow
    show ((t.nanos / 1000000000 * 1000000000 / 1000000000 + 0) % 86400).toNat
      = ((t.nanos / 1000000000 + 719528 * 86400).toNat * 1000000) % 86400000000 / 1000000
    omega
  have hfraction : Time.fraction (t.nanos / 1000000000 * 1000000000 % 1000000000).toNat = [] := by
    rw [Int.mul_emod_left]
    rfl
  rw [shown_ascii hascii]
  unfold utcText Time.rfc3339Nano DateTime.strftime
  simp only [hday, hsecond, hfraction, List.map_append, List.map_cons, toNat_pad2, toNat_pad4, List.append_nil,
    List.append_assoc, List.cons_append]
  rfl

theorem fits_digit {n : Nat} (h : n < 10) (form s : Str) : fits (0x64 :: form) ((0x30 + n) :: s) = fits form s := by
  rw [fits, if_pos rfl, anyDigit_ascii h]
  rfl

theorem fits_pad2 (n : Nat) (form s : Str) : fits (lit "dd" ++ form) (pad2 n ++ s) = fits form s := by
  show fits (0x64 :: 0x64 :: form) ((0x30 + n / 10 % 10) :: (0x30 + n % 10) :: s) = _
  rw [fits_digit (Nat.mod_lt _ (by decide)), fits_digit (Nat.mod_lt _ (by decide))]

/-- What stands for itself. -/
theorem fits_mark {mark : Str} (h : ∀ c ∈ mark, c ≠ 0x64) (form s : Str) :
    fits (mark ++ form) (mark ++ s) = fits form s := by
  induction mark with
  | nil => rfl
  | cons c mark ih =>
    show fits (c :: (mark ++ form)) (c :: (mark ++ s)) = _
    rw [fits, if_neg (h c List.mem_cons_self), beq_self_eq_true, Bool.true_and]
    exact ih fun d hd => h d (List.mem_cons_of_mem c hd)

/-- The text of an instant has the form. -/
theorem fits_strftime (t : DateTime) : fits (lit "dddd-dd-ddTdd:dd:ddZ") t.strftime = true := by
  have hform : lit "dddd-dd-ddTdd:dd:ddZ" = lit "dd" ++ (lit "dd" ++ (lit "-" ++ (lit "dd" ++ (lit "-" ++ (lit "dd" ++
    (lit "T" ++ (lit "dd" ++ (lit ":" ++ (lit "dd" ++ (lit ":" ++ (lit "dd" ++ lit "Z"))))))))))) := by decide
  unfold DateTime.strftime pad4
  simp only [List.append_assoc]
  rw [hform, fits_pad2, fits_pad2, fits_mark (by decide), fits_pad2, fits_mark (by decide), fits_pad2,
    fits_mark (by decide), fits_pad2, fits_mark (by decide), fits_pad2, fits_mark (by decide), fits_pad2]
  rfl

/-- **The stamp is read back.** -/
theorem parseUtc_utcText {t : Time} (h : Dated t) (field : Str) :
    parseUtc (.str (shown (utcText t))) field = .ok h.instant := by
  rw [shown_utcText h]
  unfold parseUtc
  dsimp only
  rw [if_pos (fits_strftime _), DateTime.strptime_strftime h.whole]

/-! ## Checks -/

/-- What is reported of a command. -/
inductive Status where
  | passed
  | failed
  | notRun
  | unknown
  deriving DecidableEq, Repr

structure ExitCheck where
  reportedExit : Option ℤ
  status : Status
  deriving DecidableEq

/-- Nothing behind the apply was run. -/
def nothingRan (state : Dict) : Bool :=
  (dictGet state (lit "cleanup_blocked_reason")).eq (.str (lit "identity_unverified")) ||
    (dictGet state (lit "cleanup_blocked_reason")).eq (.str (lit "process_exit_unconfirmed")) &&
      !(dictGet state (lit "destroy_started_at")).truthy

/-- The check of one exit status. -/
def exitCheck (state : Dict) (key : Str) : Py ExitCheck :=
  match dictGet state key with
  | .null => .ok ⟨none, if nothingRan state = true ∧ key ≠ lit "apply_exit" then .notRun else .unknown⟩
  | .int n =>
    if -1 ≤ n ∧ n ≤ 255 then .ok ⟨some n, if n = 0 then .passed else .failed⟩
    else .error (.own (lit "terminal controller has an invalid exit status"))
  | _ => .error (.own (lit "terminal controller has an invalid exit status"))

/-- The check of one flag. -/
def flagCheck (state : Dict) (key : Str) : Py (Option Bool) :=
  match dictGet state key with
  | .null => .ok none
  | .bool b => .ok (some b)
  | _ => .error (.own (lit "terminal controller has incomplete cleanup status"))

/-- The end of the cleanup, where there is one, is a stamp. -/
def checkFinished (finished : Value) : Py Unit :=
  if finished.truthy = true then (parseUtc finished (lit "cleanup completion")).map fun _ => () else .ok ()

def exitKeys : List Str :=
  [lit "apply_exit", lit "destroy_exit", lit "terraform_state_exit", lit "inventory_exit", lit "cost_exit"]

/-- The summary; `schema_version`, `result`, `demonstration_passed` and `publication_scope` are always the same. -/
structure Summary where
  runID : Str
  sourceCommit : Value
  controllerPhase : Value
  cleanupFinishedAt : Value
  exits : List (Str × ExitCheck)
  cleanupVerified : Bool
  cleanupOverdue : Option Bool
  logCleanupPassed : Option Bool
  transcriptPassed : Option Bool
  secretScanState : Value
  cleanupBlockedReason : Option Str

def observedPhases : List Str :=
  [lit "applying", lit "live", lit "destroying", lit "verifying", lit "complete", lit "cleanup_failed",
    lit "verifying_identity"]

/-- The state belongs to the run. -/
def requireObservation (runID : Str) (preflight state : Dict) : Py Unit := do
  let error := Exn.own (lit "failed publication requires a controller observation for this run")
  require ((dictGet state (lit "schema_version")).eq (.int 1) = true) error
  require ((dictGet state (lit "run_id")).eq (.str runID) = true) error
  let commit ← (Value.dict preflight).item (lit "commit")
  require ((dictGet state (lit "commit")).eq commit = true) error
  require ((dictGet state (lit "phase")).hashable = true) .typeError
  require (observedPhases.any (fun phase => (dictGet state (lit "phase")).eq (.str phase)) = true) error

/-- **`failed_summary`**, of a directory and the state that was read in it. -/
def failedSummary (dir : Directory) (runID : Str) (state : Py Dict) : Py Summary := do
  let scan ← dir.loadSecretScan runID false
  let preflight ← validatePreflight dir.beneath dir.preflight runID
  let state ← state
  requireObservation runID preflight state
  let exits ← exitKeys.mapM fun key => do
    let check ← exitCheck state key
    return (key, check)
  let verified ← flagCheck state (lit "cleanup_verified")
  let overdue ← flagCheck state (lit "cleanup_overdue")
  let logs ← flagCheck state (lit "log_cleanup_passed")
  let transcript ← flagCheck state (lit "transcript_passed")
  let finished := dictGet state (lit "cleanup_finished_at")
  checkFinished finished
  let commit ← (Value.dict preflight).item (lit "commit")
  let scanState ← (Value.dict scan).item (lit "state")
  return {
    runID := runID
    sourceCommit := commit
    controllerPhase := dictGet state (lit "phase")
    cleanupFinishedAt := finished
    exits := exits
    cleanupVerified := (dictGet state (lit "phase")).eq (.str (lit "complete")) && finished.truthy && verified == some true &&
      (dictGet state (lit "terraform_state_exit")).eq (.int 0) && (dictGet state (lit "inventory_exit")).eq (.int 0)
    cleanupOverdue := if finished.truthy then overdue else none
    logCleanupPassed := logs
    transcriptPassed := transcript
    secretScanState := scanState
    cleanupBlockedReason :=
      if (dictGet state (lit "cleanup_blocked_reason")).eq (.str (lit "process_exit_unconfirmed")) then
        some (lit "process_exit_unconfirmed")
      else none }

/-! ## The fields of a state -/

/-- The commands whose exits are summed up, under their keys. -/
def checkedCommands : List (Str × Command) :=
  [(lit "apply_exit", .awsUp), (lit "destroy_exit", .awsDown), (lit "terraform_state_exit", .stateEmpty),
    (lit "inventory_exit", .inventoryEmpty), (lit "cost_exit", .awsCost)]

theorem exitKeys_eq : exitKeys = checkedCommands.map Prod.fst := rfl

/-- An exit is found under its key. -/
theorem dictGet_exit (st : ControllerState) {key : Str} {command : Command} (h : (key, command) ∈ checkedCommands) :
    dictGet st.document key = ((st.recorded command).map Value.int).getD .null := by
  simp only [checkedCommands, List.mem_cons, List.not_mem_nil, or_false, Prod.mk.injEq] at h
  obtain ⟨rfl, rfl⟩ | ⟨rfl, rfl⟩ | ⟨rfl, rfl⟩ | ⟨rfl, rfl⟩ | ⟨rfl, rfl⟩ := h
  all_goals exact dictGet_document st _


theorem dictGet_blocked (st : ControllerState) : dictGet st.document (lit "cleanup_blocked_reason")
    = (st.cleanupBlockedReason.map fun r => Value.str r.text).getD .null := dictGet_document st _

theorem nonEmpty_truthy (bs : Bytes) : ((nonEmpty bs).getD .null).truthy = !bs.isEmpty := by
  cases bs with
  | nil => rfl
  | cons b bs =>
    have hshown : shown (b :: bs) ≠ [] := by
      obtain ⟨r, rest, -, hrunes, -⟩ := runes_cases b bs
      unfold shown
      rw [hrunes]
      exact List.cons_ne_nil _ _
    unfold nonEmpty
    rw [if_neg (List.cons_ne_nil b bs)]
    simpa [Value.truthy, List.isEmpty_iff] using hshown

/-- By the document nothing was run where by the state nothing was. -/
theorem nothingRan_document (st : ControllerState) : nothingRan st.document = st.withholds := by
  have hstarted : dictGet st.document (lit "destroy_started_at") = (nonEmpty st.destroyStartedAt).getD .null :=
    dictGet_document st _
  unfold nothingRan ControllerState.withholds
  rw [dictGet_blocked, hstarted, nonEmpty_truthy, Bool.not_not]
  cases st.cleanupBlockedReason with
  | none => rfl
  | some reason => cases reason <;> rfl

/-- What is reported of a command by a state. -/
def ControllerState.check (st : ControllerState) (command : Command) : ExitCheck :=
  match st.recorded command with
  | some n => ⟨some n, if n = 0 then .passed else .failed⟩
  | none => ⟨none, if st.withholds = true ∧ command ≠ .awsUp then .notRun else .unknown⟩

theorem exitCheck_document {st : ControllerState} {key : Str} {command : Command} (h : (key, command) ∈ checkedCommands)
    (hrange : ∀ n, st.recorded command = some n → -1 ≤ n ∧ n ≤ 255) :
    exitCheck st.document key = .ok (st.check command) := by
  have hkey : key ≠ lit "apply_exit" ↔ command ≠ .awsUp := by
    simp only [checkedCommands, List.mem_cons, List.not_mem_nil, or_false, Prod.mk.injEq] at h
    obtain ⟨rfl, rfl⟩ | ⟨rfl, rfl⟩ | ⟨rfl, rfl⟩ | ⟨rfl, rfl⟩ | ⟨rfl, rfl⟩ := h <;> decide
  unfold exitCheck ControllerState.check
  rw [dictGet_exit st h, nothingRan_document]
  cases hrec : st.recorded command with
  | none =>
    show Except.ok _ = _
    simp only [hkey]
  | some n =>
    show (if -1 ≤ n ∧ n ≤ 255 then _ else _) = _
    rw [if_pos (hrange n hrec)]

/-! ## The summary of a state -/

/-- What a state must be for its summary. -/
structure Summable (st : ControllerState) : Prop where
  schema : st.schemaVersion = 1
  phase : st.phase.isSome = true
  range : ∀ command n, st.recorded command = some n → -1 ≤ n ∧ n ≤ 255
  finished : st.cleanupFinishedAt = [] ∨ ∃ t, Dated t ∧ st.cleanupFinishedAt = utcText t

/-- By the state the cleanup is verified. -/
def ControllerState.verified (st : ControllerState) : Bool :=
  st.phase == some .complete && !st.cleanupFinishedAt.isEmpty && st.cleanupVerified == some true &&
    st.terraformStateExit == some 0 && st.inventoryExit == some 0

theorem flagCheck_eq {d : Dict} {key : Str} {b : Option Bool} (h : dictGet d key = (b.map Value.bool).getD .null) :
    flagCheck d key = .ok b := by
  unfold flagCheck
  rw [h]
  cases b <;> rfl

theorem eq_zero {o : Option Int} : ((o.map Value.int).getD .null).eq (.int 0) = (o == some 0) := by
  cases o with
  | none => rfl
  | some n =>
    show (Value.int n).eq (.int 0) = _
    simp [Value.eq, Value.same, Value.amount]

theorem eq_complete {phase : Option RunPhase} (h : phase.isSome = true) :
    (Value.str ((phase.map RunPhase.text).getD [])).eq (.str (lit "complete")) = (phase == some .complete) := by
  cases phase with
  | none => cases h
  | some phase => cases phase <;> decide

theorem requireObservation_document {st : ControllerState} {preflight : Dict} (hst : Summable st)
    (hcommit : dictGet preflight (lit "commit") = .str (shown st.commit)) :
    requireObservation (shown st.runID) preflight st.document = .ok () := by
  have hschema : dictGet st.document (lit "schema_version") = .int st.schemaVersion := dictGet_document st _
  have hrun : dictGet st.document (lit "run_id") = .str (shown st.runID) := dictGet_document st _
  have hown : dictGet st.document (lit "commit") = .str (shown st.commit) := dictGet_document st _
  have hphase : dictGet st.document (lit "phase") = .str ((st.phase.map RunPhase.text).getD []) := dictGet_document st _
  have hobserved : ∀ phase : RunPhase, observedPhases.any (fun p => (Value.str phase.text).eq (.str p)) = true := by
    intro phase
    apply List.any_eq_true.mpr
    refine ⟨phase.text, ?_, Value.eq_str.mpr rfl⟩
    cases phase <;> decide
  obtain ⟨phase, hsome⟩ := Option.isSome_iff_exists.mp hst.phase
  unfold requireObservation
  rw [item_of_dictGet hcommit nofun, hschema, hrun, hown, hphase, hsome, hst.schema]
  refine bind_eq_ok_iff.mpr ⟨(), require_pos rfl, bind_eq_ok_iff.mpr ⟨(), require_pos (Value.eq_str.mpr rfl), ?_⟩⟩
  refine bind_eq_ok_iff.mpr ⟨_, rfl, bind_eq_ok_iff.mpr ⟨(), require_pos (Value.eq_str.mpr rfl), ?_⟩⟩
  exact bind_eq_ok_iff.mpr ⟨(), require_pos rfl, require_pos (hobserved phase)⟩


/-- **The summary of a state**: there is one, and it says what the state says. -/
theorem failedSummary_document {dir : Directory} {st : ControllerState} {scan preflight : Dict} (hst : Summable st)
    (hscan : dir.loadSecretScan (shown st.runID) false = .ok scan)
    (hpreflight : validatePreflight dir.beneath dir.preflight (shown st.runID) = .ok preflight)
    (hcommit : dictGet preflight (lit "commit") = .str (shown st.commit)) :
    ∃ summary, failedSummary dir (shown st.runID) (.ok st.document) = .ok summary ∧
      summary.exits = checkedCommands.map (fun p => (p.1, st.check p.2)) ∧ summary.cleanupVerified = st.verified := by
  obtain ⟨-, state, hstate⟩ := read_of_loadSecretScan hscan
  have hexits : (exitKeys.mapM fun key => do let check ← exitCheck st.document key; return (key, check))
      = .ok (checkedCommands.map fun p => (p.1, st.check p.2)) := by
    rw [exitKeys_eq, List.mapM_map]
    apply mapM_ok
    rintro ⟨key, command⟩ hmem
    show (do let check ← exitCheck st.document key; return (key, check)) = _
    rw [exitCheck_document hmem (hst.range command)]
    rfl
  -- each field is read back as the controller wrote it
  have hverified : flagCheck st.document (lit "cleanup_verified") = .ok st.cleanupVerified :=
    flagCheck_eq (dictGet_document st _)
  have hoverdue : flagCheck st.document (lit "cleanup_overdue") = .ok (some st.cleanupOverdue) :=
    flagCheck_eq (dictGet_document st _)
  have hlogs : flagCheck st.document (lit "log_cleanup_passed") = .ok st.logCleanupPassed :=
    flagCheck_eq (dictGet_document st _)
  have htranscript : flagCheck st.document (lit "transcript_passed") = .ok st.transcriptPassed :=
    flagCheck_eq (dictGet_document st _)
  have hfinished : dictGet st.document (lit "cleanup_finished_at") = (nonEmpty st.cleanupFinishedAt).getD .null :=
    dictGet_document st _
  -- the finish is empty or the text of an instant, and the check lets both pass
  have hchecked : checkFinished ((nonEmpty st.cleanupFinishedAt).getD .null) = .ok () := by
    rcases hst.finished with hempty | ⟨t, ht, htext⟩
    · rw [hempty]
      rfl
    · have hne : st.cleanupFinishedAt ≠ [] := by
        rw [htext]
        exact Controller.utcText_ne_nil t
      have hvalue : (nonEmpty st.cleanupFinishedAt).getD .null = .str (shown (utcText t)) := by
        rw [nonEmpty, if_neg hne, htext]
        rfl
      unfold checkFinished
      rw [nonEmpty_truthy, if_pos (by simpa using hne), hvalue, parseUtc_utcText ht]
      rfl
  have hphase : dictGet st.document (lit "phase") = .str ((st.phase.map RunPhase.text).getD []) := dictGet_document st _
  have hterraform : dictGet st.document (lit "terraform_state_exit") = (st.terraformStateExit.map .int).getD .null :=
    dictGet_document st _
  have hinventory : dictGet st.document (lit "inventory_exit") = (st.inventoryExit.map .int).getD .null :=
    dictGet_document st _
  -- from here on in the order of the source
  unfold failedSummary
  refine exists_bind_ok hscan (exists_bind_ok hpreflight (exists_bind_ok rfl ?_))
  refine exists_bind_ok (requireObservation_document hst hcommit) (exists_bind_ok hexits ?_)
  refine exists_bind_ok hverified (exists_bind_ok hoverdue (exists_bind_ok hlogs (exists_bind_ok htranscript ?_)))
  dsimp only
  rw [hfinished]
  refine exists_bind_ok hchecked (exists_bind_ok (item_of_dictGet hcommit nofun) ?_)
  refine exists_bind_ok (item_of_dictGet hstate nofun) ⟨_, rfl, rfl, ?_⟩
  dsimp only
  rw [hphase, hterraform, hinventory, eq_zero, eq_zero, nonEmpty_truthy, eq_complete hst.phase]
  rfl


end LocalPlatform.LiveRun
