/-
# LocalPlatform.Bootstrap.SecretScan — the receipt of what the evidence is scanned for.

`secret_scan.go`.  A run has one receipt.  `start-session` writes it empty; the bootstrap claims the run for good, checks the
receipt, and then records the length and the fingerprint of every form of a credential before the credential is used.  A
record is written to a file beside the receipt and renamed onto it.

SHA-256 is a parameter, of which nothing is assumed but that it has 32 octets.
-/
import LocalPlatform.Bootstrap.Documents
import LocalPlatform.Bootstrap.Environment
import LocalPlatform.Codec.Json.Indent

namespace LocalPlatform.Bootstrap

open Codec Codec.Json

/-- A hash of 32 octets. -/
abbrev Hash := Bytes → { digest : Bytes // digest.length = 32 }

/-- `scanEntry` -/
structure ScanEntry where
  name : Bytes
  representation : Form
  length : Nat
  digest : Bytes
  deriving DecidableEq

/-- The states of a receipt. -/
inductive ScanState where
  | notStarted
  | collecting
  | complete
  deriving DecidableEq

def ScanState.text : ScanState → Bytes
  | .notStarted => ascii "not_started"
  | .collecting => ascii "collecting"
  | .complete => ascii "complete"

/-- `secretScan`, of a version and a profile there is one of. -/
structure SecretScan where
  runID : Bytes
  commit : Bytes
  sessionHash : Bytes
  state : ScanState
  entries : List ScanEntry
  deriving DecidableEq

def profile : Bytes := ascii "m4-secret-representations-v1"

/-- The directory of a run. -/
def evidencePath (runID : Bytes) : Path := [ascii ".evidence", ascii "m4", runID]

def scanPath (runID : Bytes) : Path := evidencePath runID ++ [ascii "secret-scan.json"]

/-! ## Its text -/

def ScanEntry.text (level : Nat) (e : ScanEntry) : Bytes :=
  Indent.block 0x7b 0x7d level
    [Indent.field "name" (quote e.name), Indent.field "representation" (quote e.representation.name),
     Indent.field "byte_length" (dec e.length), Indent.field "sha256" (quote e.digest)]

/-- `json.MarshalIndent(s, "", "  ")` and the line end behind it. -/
def SecretScan.text (s : SecretScan) : Bytes :=
  Indent.block 0x7b 0x7d 0
    [Indent.field "schema_version" (dec 1), Indent.field "run_id" (quote s.runID), Indent.field "commit" (quote s.commit),
     Indent.field "session_sha256" (quote s.sessionHash), Indent.field "profile" (quote profile),
     Indent.field "state" (quote s.state.text),
     Indent.field "entries" (Indent.block 0x5b 0x5d 1 (s.entries.map (ScanEntry.text 2)))] ++ [0x0a]

/-! ## The receipt of a new session -/

/-- The fields of a receipt as they are decoded. -/
structure RawScan where
  version : Int
  runID : Bytes
  commit : Bytes
  sessionHash : Bytes
  profile : Bytes
  state : Bytes
  entries : List Bytes

namespace RawScan

def fields : List (StructField RawScan) :=
  [intField "schema_version" version fun s n => { s with version := n },
   stringField "run_id" runID fun s t => { s with runID := t },
   stringField "commit" commit fun s t => { s with commit := t },
   stringField "session_sha256" sessionHash fun s t => { s with sessionHash := t },
   stringField "profile" profile fun s t => { s with profile := t },
   stringField "state" state fun s t => { s with state := t },
   ⟨ascii "entries", fun s raw => (elements raw).map fun es => { s with entries := es }⟩]

/-- `decoder.DisallowUnknownFields(); decoder.Decode(&receipt)`; the entries are not looked into, there being none. -/
def decode (data : Bytes) : Option RawScan :=
  (first maxNestingDepth data).bind fun p => decodeInto true fields ⟨0, [], [], [], [], [], []⟩ p.1

end RawScan

/-- `validInitialScanJSON` -/
def validInitialScanJSON (data : Bytes) : Bool :=
  match whole maxNestingDepth data with
  | some (.object ms) =>
    let keys := ms.map fun m => unquote m.1
    decide (keys.Nodup ∧ keys.length = 7) && ms.all fun m => unquote m.1 != ascii "entries" || trimSpace m.2 == ascii "[]"
  | _ => false

section Scan

variable (sha256 : Hash)

/-- `fmt.Sprintf("%x", sha256.Sum256(data))` -/
def hexDigest (data : Bytes) : Bytes := hex (sha256 data).1

/-- **`openSecretScan`** -/
def openSecretScan (runID commit : Bytes) : App SecretScan := do
  -- a permanent claim makes the bootstrap a single attempt
  let claimed : Bool ← App.ask (.claim (evidencePath runID ++ [ascii "bootstrap.claim"]))
  App.require (claimed = true) "bootstrap already claimed or claim cannot be persisted"
  App.succeeded (← App.ask .closeClaim)
  let info : Except StatError FileInfo ← App.ask (.lstat (scanPath runID))
  App.require (∃ i ∈ info.toOption, i.regular = true ∧ i.perm = 0o600 ∧ i.size ≤ 32768)
    "private secret scan receipt is missing or unsafe"
  let data : Option Bytes ← App.ask (.readFile (scanPath runID))
  App.require (data.any validInitialScanJSON = true) "invalid secret scan receipt JSON"
  let receipt ← App.decoded (.own (ascii "invalid secret scan receipt fields")) (data.bind RawScan.decode)
  let session ← App.decoded .system (← App.ask (.readFile (evidencePath runID ++ [ascii "00-session.json"])))
  App.require (receipt.version = 1 ∧ receipt.runID = runID ∧ receipt.commit = commit ∧ receipt.profile = profile ∧
    receipt.sessionHash = hexDigest sha256 session) "secret scan receipt binding mismatch"
  App.require (receipt.state = ScanState.notStarted.text ∧ receipt.entries = [])
    "bootstrap has already begun for this run; stop the attempt"
  return ⟨runID, commit, receipt.sessionHash, .notStarted, []⟩

/-- A temporary file that cannot be written is closed. -/
def writtenOrClosed (ok : Bool) : App Unit :=
  if ok = true then pure ()
  else do
    let _ ← App.ask .closeTemp
    throw .system

/-- The rest of `save` once the temporary file is there. -/
def saveTemp (s : SecretScan) : App Unit := do
  writtenOrClosed (← App.ask (.writeTemp s.text))
  writtenOrClosed (← App.ask .syncTemp)
  App.succeeded (← App.ask .closeTemp)
  App.succeeded (← App.ask (.rename (scanPath s.runID)))

/-- **`save`**; the temporary file is removed however it ends. -/
def save (s : SecretScan) : App Unit := do
  App.succeeded (← App.ask .createTemp)
  let result ← ExceptT.lift (ExceptT.run (saveTemp s))
  let _ ← App.ask .removeTemp
  match result with
  | Except.ok u => return u
  | Except.error e => throw e

/-- `begin` -/
def SecretScan.begin (s : SecretScan) : App SecretScan := do
  let s := { s with state := .collecting }
  save s
  return s

/-- The entry of one form of a credential. -/
def entryOf (name value : Bytes) (form : Form) : ScanEntry :=
  ⟨name, form, (form.text value).length, hexDigest sha256 (form.text value)⟩

/-- **`record`** -/
def SecretScan.record (s : SecretScan) (name value : Bytes) : App SecretScan := do
  App.require (s.state = .collecting ∧ 16 ≤ value.length ∧ value.length ≤ 4096) "invalid sensitive value or scan state"
  let order ← App.ask .mapOrder
  let s := { s with entries := s.entries ++ order.1.map (entryOf sha256 name value) }
  save s
  return s

/-- `complete` -/
def SecretScan.complete (s : SecretScan) : App SecretScan := do
  App.require (s.entries.length = 21) "secret scan coverage incomplete"
  let s := { s with state := .complete }
  save s
  return s

end Scan

end LocalPlatform.Bootstrap
