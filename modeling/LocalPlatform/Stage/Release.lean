/-
# LocalPlatform.Stage.Release — the GO packet at the apply boundary.

A GO packet names the evidence it was decided on by the hashes of the files.  Before the session starts
`verifyGoNoGo` checks the packet, the files, the plan, and six times: that of the decision, of four
observations and of the price check, the last one inside the recomputed price receipt.  It checks all of it
once for now and once for a quarter of an hour later, which is how long the controller may take until it
applies.

The packet that is accepted does not depend on the time, and each of the six times is accepted from its
own minute on until it is too old.  So the times of acceptance are an interval (`acceptance_ordConnected`),
and what is accepted before the session is accepted at every moment of the quarter of an hour.
-/
import LocalPlatform.Logic.Steady
import LocalPlatform.Python.Files
import LocalPlatform.Stage.PriceReceipt

namespace LocalPlatform.Stage

open LocalPlatform.Python LocalPlatform.Logic

/-! ## Files of a run -/

/-- `OUTPUT_NAME` -/
def outputName : Str := lit "05-images.json"

/-- `PRICE_OUTPUT_NAME` -/
def priceOutputName : Str := lit "02-prices.md"

/-- `PRICE_DATA_NAME` -/
def priceDataName : Str := lit "02-prices.json"

/-- `names` of `verify_go_receipt`: the inputs of a packet, each with its file. -/
def inputNames : List (Str × Str) :=
  [(lit "preflight", lit "00-preflight.json"), (lit "identity", lit "01-identity.txt"),
    (lit "prices_markdown", priceOutputName), (lit "prices", priceDataName), (lit "plan", lit "03-plan-summary.json"),
    (lit "inventory", lit "04-inventory-before.json"), (lit "images", outputName),
    (lit "capture_plan", lit "capture-plan.json")]

/-- The dated inputs, each with its file and the field that holds the time. -/
def observations : List (Str × Str × Str) :=
  [(lit "identity", lit "01-identity.txt", lit "captured_at"), (lit "plan", lit "03-plan-summary.json", lit "captured_at"),
    (lit "inventory", lit "04-inventory-before.json", lit "captured_at"), (lit "prices", priceDataName, lit "checked_at")]

/-- The number two digits stand for. -/
def twoDigits (s : Str) (i : Nat) : Nat := Decimal.digitsValue ((s.drop i).take 2)

/-- `validate_run_id`.  Between the `T` and the ends every field has its two digits (the year four), so that a real
date is written as it was read. -/
def validateRunId (runId : Str) : Py Unit := do
  require (runId.length = 16 ∧ (runId.take 8).all isDigit = true ∧ runId[8]? = some 0x54 ∧
      ((runId.drop 9).take 6).all isDigit = true ∧ runId[15]? = some 0x5a)
    (.own (lit "run id must use UTC YYYYMMDDTHHMMSSZ"))
  let y := Decimal.digitsValue (runId.take 4)
  let m := twoDigits runId 4
  require (1 ≤ y ∧ 1 ≤ m ∧ m ≤ 12 ∧ 1 ≤ twoDigits runId 6 ∧ twoDigits runId 6 ≤ Codec.Time.daysIn m y ∧
      twoDigits runId 9 ≤ 23 ∧ twoDigits runId 11 ≤ 59 ∧ twoDigits runId 13 ≤ 59)
    (.own (lit "run id is not a real UTC date and time"))

section Verify

-- the disk, `ROOT`, and `hashlib.sha256(data).hexdigest()`
variable (disk : Disk) (root : List Str) (sha256 : Codec.Bytes → Str)

/-- The loop of `ensure_private_run_path`, from a path up to `ROOT`. -/
def walkUp (current : Path) : Py Unit :=
  if current = ⟨true, root⟩ then .ok ()
  else if disk.isSymlink current = true then .error (.own (lit "evidence path contains a symlink: " ++ current.text))
  else if Path.inParents ⟨true, root⟩ current = true then walkUp current.parent
  else .error (.own (lit "evidence path escapes the repository"))
termination_by current.parts.length
decreasing_by exact Path.length_parent_lt ‹_›

/-- `ensure_private_run_path` -/
def ensurePrivateRunPath (runId : Str) (output : Path) (expectedName : Str) : Py Path := do
  validateRunId runId
  let expectedParent : Path := ⟨true, root ++ [lit ".evidence", lit "m4", runId]⟩
  walkUp disk root expectedParent
  let destination := disk.absolute output
  require (destination.parent = expectedParent ∧ destination.name = expectedName)
    (.own (lit "output must be " ++ expectedName ++ lit " directly under .evidence/m4/" ++ runId))
  require (disk.isSymlink destination = false) (.own (lit "evidence file must not be a symlink: " ++ destination.text))
  return destination

/-- `read_json` -/
def readJson (path : Path) (description : Str) : Py Dict := do
  require (disk.isSymlink path = false) (.own (description ++ lit " must not be a symlink: " ++ path.text))
  match disk.readBytes path with
  | .error .missing => throw (.own (description ++ lit " is missing: " ++ path.text))
  | .error .failed => throw .osError
  | .ok data => do
    let text ← decode data
    match Json.loads (universalNewlines text) with
    | .ok (.dict value) => return value
    | .ok _ => throw (.own (description ++ lit " must contain a JSON object"))
    | .error .jsonDecodeError => throw (.own (description ++ lit " is invalid JSON: " ++ path.text))
    | .error e => throw e

/-- `hash_file` -/
def hashFile (path : Path) : Py Str :=
  match disk.readBytes path with
  | .ok data => .ok (sha256 data)
  | .error _ => .error .osError

/-! ## The packet -/

/-- `require_bound` -/
def requireBound (value : Dict) (description runId commit region : Str) : Py Unit := do
  require ((field value (lit "run_id")).eq (.str runId) = true) (.own (description ++ lit " does not match the run id"))
  let source := (value.lookup (lit "source_commit")).getD (field value (lit "commit"))
  require (source.eq (.str commit) = true) (.own (description ++ lit " does not match the approved commit"))
  require (lit "region" ∉ value.map Prod.fst ∨ (field value (lit "region")).eq (.str region) = true)
    (.own (description ++ lit " does not match the region"))

/-- `require_passed_gate` -/
def requirePassedGate (value : Dict) (description : Str) : Py Unit :=
  match field value (lit "gate") with
  | .dict gate =>
    match field gate (lit "passed") with
    | .bool true => .ok ()
    | _ => .error (.own (description ++ lit " gate did not pass"))
  | _ => .error (.own (description ++ lit " gate did not pass"))

/-- `[0-9a-f]{64}`, the whole text. -/
def isSha256 (s : Str) : Bool :=
  s.length == 64 && s.all fun c => isDigit c || decide (0x61 ≤ c ∧ c ≤ 0x66)

/-- The plan hash of the packet, against the one the summary records. -/
def checkPlanHash (plan : Value) (summary : Dict) : Py Unit :=
  match plan with
  | .dict plan =>
    match field plan (lit "sha256") with
    | .str sha => require (isSha256 sha = true ∧ (Value.str sha).eq (field summary (lit "plan_sha256")) = true)
        (.own (lit "go/no-go packet does not match the recorded plan hash"))
    | _ => .error (.own (lit "go/no-go packet does not match the recorded plan hash"))
  | _ => .error (.own (lit "go/no-go packet does not match the recorded plan hash"))

/-- A turn of the loop over `names`: the file of an input is the one the packet was made of. -/
def checkInput (runId : Str) (raw : Path) (inputs : Dict) (p : Str × Str) : Py Unit := do
  let changed : Exn := .own (lit "staged " ++ p.1 ++ lit " changed after go/no-go; regenerate the packet")
  let path ← ensurePrivateRunPath disk root runId (raw.child p.2) p.2
  require (disk.isFile path = true) changed
  let recorded ← (Value.dict inputs).item p.1
  let current ← hashFile disk sha256 path
  require (recorded.eq (.str current) = true) changed

/-- `inputs`, if the packet has a manifest that names the reviewed summary. -/
def checkManifest (packet : Dict) (summaryPath : Path) : Py Dict := do
  match field packet (lit "input_sha256") with
  | .dict inputs => do
    let current ← hashFile disk sha256 summaryPath
    require ((field inputs (lit "plan")).eq (.str current) = true)
      (.own (lit "go/no-go packet does not match the reviewed summary"))
    require ((∀ p ∈ inputs, p.1 ∈ inputNames.map Prod.fst) ∧ ∀ name ∈ inputNames.map Prod.fst, name ∈ inputs.map Prod.fst)
      (.own (lit "go/no-go packet has an incomplete input manifest"))
    return inputs
  | _ => throw (.own (lit "go/no-go packet does not match the reviewed summary"))

/-- A turn of the loop over the observations: the time of one is still recent. -/
def checkObservation (raw : Path) (p : Str × Str × Str) (current : DateTime) : Py Unit := do
  let value ← readJson disk (raw.child p.2.1) p.1
  let _ ← parseRecentUtc (field value p.2.2) (lit "original " ++ p.1 ++ lit " observation") current (DateTime.hours 24)

/-- The owner and the abort command. -/
def checkAbort (packet : Dict) : Py Unit := do
  match field packet (lit "cleanup_owner") with
  | .str owner => require (Str.strip owner ≠ []) (.own (lit "go/no-go packet has no cleanup owner"))
  | _ => throw (.own (lit "go/no-go packet has no cleanup owner"))
  require ((field packet (lit "abort_command")).eq (.str (lit "make aws-down")) = true)
    (.own (lit "go/no-go packet has the wrong abort command"))

/-- `verify_go_receipt` -/
def verifyGoReceipt (runId commit region : Str) (packetPath summaryPath : Path) (now : DateTime) : Py Dict := do
  let packet ← readJson disk packetPath (lit "go/no-go packet")
  requireBound packet (lit "go/no-go packet") runId commit region
  requirePassedGate packet (lit "go/no-go packet")
  require ((field packet (lit "schema_version")).eq (.int 1) = true ∧ (field packet (lit "decision")).eq (.str (lit "go")) = true)
    (.own (lit "go/no-go packet has no GO decision"))
  let _ ← parseRecentUtc (field packet (lit "generated_at")) (lit "go/no-go decision time") now (DateTime.hours 24)
  let summary ← readJson disk summaryPath (lit "plan summary")
  checkPlanHash (field packet (lit "plan")) summary
  let inputs ← checkManifest disk sha256 packet summaryPath
  inputNames.forM (checkInput disk root sha256 runId packetPath.parent inputs)
  observations.forM fun p => checkObservation disk packetPath.parent p now
  let prices ← readJson disk (packetPath.parent.child priceDataName) (lit "prices")
  let _ ← revalidatePriceReceipt prices runId commit region now
  checkAbort packet
  return packet

/-- `verify_go_no_go` without `before_session`. -/
def verifyAtApply (runId commit region : Str) (packetPath planPath summaryPath : Path) (current : DateTime) : Py Dict := do
  let packet ← verifyGoReceipt disk root sha256 runId commit region packetPath summaryPath current
  let plan ← (Value.dict packet).item (lit "plan")
  let sha ← plan.item (lit "sha256")
  let hash ← hashFile disk sha256 planPath
  require (sha.eq (.str hash) = true) (.own (lit "go/no-go packet does not match the reviewed plan"))
  return packet

/-- `verify_go_no_go`, which before the session calls itself for a quarter of an hour later. -/
def verifyGoNoGo (runId commit region : Str) (packetPath planPath summaryPath : Path) (current : DateTime)
    (beforeSession : Bool) : Py Dict := do
  let packet ← verifyAtApply disk root sha256 runId commit region packetPath planPath summaryPath current
  if beforeSession then
    let later ← current.add (DateTime.minutes 15)
    let _ ← verifyAtApply disk root sha256 runId commit region packetPath planPath summaryPath later
  return packet

end Verify

/-! ## Acceptance over time -/

/-- Instants are ordered by their microseconds. -/
instance : Preorder DateTime := Preorder.lift DateTime.micros

/-- A time is accepted from five minutes before it until it is too old. -/
theorem steady_parseRecentUtc (value : Value) (description : Str) (age : ℤ) :
    Steady fun now => parseRecentUtc value description now age := by
  intro a b x v w hv hw hax hxb
  obtain ⟨s, rfl, htime, -, hahead, -⟩ := parseRecentUtc_eq_ok_iff.mp hv
  obtain ⟨s', hs', htime', hroom, -, hage⟩ := parseRecentUtc_eq_ok_iff.mp hw
  obtain rfl := Value.str.inj hs'
  obtain rfl := Except.ok.inj (htime.symm.trans htime')
  have hax : a.micros ≤ x.micros := hax
  have hxb : x.micros ≤ b.micros := hxb
  unfold DateTime.sub at hage
  refine parseRecentUtc_eq_ok_iff.mpr ⟨s, rfl, htime, by omega, by omega, ?_⟩
  show (x.micros : ℤ) - v.micros ≤ age
  omega

theorem steady_validatePriceInput (value : Dict) (runId commit region : Str) :
    Steady fun now => validatePriceInput value runId commit region now := by
  apply Steady.bind (Steady.const _)
  intro _
  apply Steady.bind (Steady.const _)
  intro reviewer
  apply Steady.bind (steady_parseRecentUtc _ _ _)
  intro checked
  exact Steady.const _

/-- The recomputed receipt depends on the time in nothing but its acceptance. -/
theorem steady_revalidatePriceReceipt (receipt : Dict) (runId commit region : Str) :
    Steady fun now => revalidatePriceReceipt receipt runId commit region now := by
  unfold revalidatePriceReceipt
  cases field receipt (lit "items") with
  | list items =>
    apply Steady.bind (Steady.const _)
    intro rates
    apply Steady.bind (steady_validatePriceInput _ _ _ _)
    intro expected
    exact Steady.const _
  | _ => exact Steady.const _

section Verify

variable (disk : Disk) (root : List Str) (sha256 : Codec.Bytes → Str)

theorem steady_checkObservation (raw : Path) (p : Str × Str × Str) : Steady fun now => checkObservation disk raw p now := by
  apply Steady.bind (Steady.const _)
  intro value
  apply Steady.bind (steady_parseRecentUtc _ _ _)
  intro _
  exact Steady.const _

theorem steady_verifyGoReceipt (runId commit region : Str) (packetPath summaryPath : Path) :
    Steady fun now => verifyGoReceipt disk root sha256 runId commit region packetPath summaryPath now := by
  apply Steady.bind (Steady.const _)
  intro packet
  apply Steady.bind (Steady.const _)
  intro _
  apply Steady.bind (Steady.const _)
  intro _
  apply Steady.bind (Steady.const _)
  intro _
  -- the time of the decision
  apply Steady.bind (steady_parseRecentUtc _ _ _)
  intro _
  apply Steady.bind (Steady.const _)
  intro summary
  apply Steady.bind (Steady.const _)
  intro _
  apply Steady.bind (Steady.const _)
  intro inputs
  apply Steady.bind (Steady.const _)
  intro _
  -- those of the observations, and of the price check
  apply Steady.bind (Steady.forM (steady_checkObservation disk packetPath.parent) observations)
  intro _
  apply Steady.bind (Steady.const _)
  intro prices
  apply Steady.bind (steady_revalidatePriceReceipt _ _ _ _)
  intro _
  exact Steady.const _

theorem steady_verifyAtApply (runId commit region : Str) (packetPath planPath summaryPath : Path) :
    Steady fun now => verifyAtApply disk root sha256 runId commit region packetPath planPath summaryPath now := by
  apply Steady.bind (steady_verifyGoReceipt _ _ _ _ _ _ _ _)
  intro packet
  exact Steady.const _

/-- Before the session the packet is accepted when it is accepted now and a quarter of an hour later. -/
theorem verifyGoNoGo_true_eq_ok_iff {runId commit region : Str} {packetPath planPath summaryPath : Path} {t : DateTime}
    {packet : Dict} :
    verifyGoNoGo disk root sha256 runId commit region packetPath planPath summaryPath t true = .ok packet ↔
      verifyAtApply disk root sha256 runId commit region packetPath planPath summaryPath t = .ok packet ∧
      ∃ later, t.add (DateTime.minutes 15) = .ok later ∧
        ∃ packet', verifyAtApply disk root sha256 runId commit region packetPath planPath summaryPath later = .ok packet' := by
  unfold verifyGoNoGo
  rw [bind_eq_ok_iff]
  constructor
  · rintro ⟨first, hfirst, hrest⟩
    obtain ⟨later, hlater, hrest⟩ := bind_eq_ok_iff.mp hrest
    obtain ⟨packet', hpacket', heq⟩ := bind_eq_ok_iff.mp hrest
    cases heq
    exact ⟨hfirst, later, hlater, packet', hpacket'⟩
  · rintro ⟨hfirst, later, hlater, packet', hpacket'⟩
    exact ⟨packet, hfirst, bind_eq_ok_iff.mpr ⟨later, hlater, bind_eq_ok_iff.mpr ⟨packet', hpacket', rfl⟩⟩⟩

theorem verifyGoNoGo_false (runId commit region : Str) (packetPath planPath summaryPath : Path) (t : DateTime) :
    verifyGoNoGo disk root sha256 runId commit region packetPath planPath summaryPath t false =
      verifyAtApply disk root sha256 runId commit region packetPath planPath summaryPath t := by
  unfold verifyGoNoGo
  cases verifyAtApply disk root sha256 runId commit region packetPath planPath summaryPath t with
  | error e => rfl
  | ok packet => rfl

/-- **A GO accepted before the session does not expire before the apply.**  For files that stay as they are, the times
at which the packet is accepted are an interval; and it is accepted before the session exactly when it is accepted at
every moment of the quarter of an hour from then on. -/
theorem acceptance_ordConnected (runId commit region : Str) (packetPath planPath summaryPath : Path) :
    Set.OrdConnected {t : DateTime | ∃ packet,
      verifyGoNoGo disk root sha256 runId commit region packetPath planPath summaryPath t false = .ok packet} ∧
    ∀ (t : DateTime) (packet : Dict),
      verifyGoNoGo disk root sha256 runId commit region packetPath planPath summaryPath t true = .ok packet ↔
        ∃ later, t.add (DateTime.minutes 15) = .ok later ∧ ∀ t', t ≤ t' → t' ≤ later →
          verifyGoNoGo disk root sha256 runId commit region packetPath planPath summaryPath t' false = .ok packet := by
  have hsteady := steady_verifyAtApply disk root sha256 runId commit region packetPath planPath summaryPath
  simp only [verifyGoNoGo_false]
  refine ⟨hsteady.ordConnected, ?_⟩
  intro t packet
  rw [verifyGoNoGo_true_eq_ok_iff]
  constructor
  · rintro ⟨hnow, later, hlater, packet', hlast⟩
    refine ⟨later, hlater, ?_⟩
    intro t' hle hle'
    exact hsteady hnow hlast hle hle'
  · rintro ⟨later, hlater, hall⟩
    have hmicros := DateTime.add_eq_ok_iff.mp hlater
    have hle : t ≤ later := by
      show t.micros ≤ later.micros
      have : DateTime.minutes 15 = 900000000 := rfl
      omega
    exact ⟨hall t (le_refl t) hle, later, hlater, packet, hall later hle (le_refl later)⟩

end Verify

end LocalPlatform.Stage
