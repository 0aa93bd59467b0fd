/-
# LocalPlatform.Bootstrap.Application — `application.run` as a program.

The bootstrap of a live run: it checks the approval of the run and that its controller is alive, records the fingerprints of
the credentials, and then changes the cluster, one command at a time.  Before each change it checks the controller again.
The context, which ends when the run has to be destroyed, is in the answers: a command may fail at any time, and the wait for
the job may be told that the context ended.
-/
import LocalPlatform.Bootstrap.Redaction
import LocalPlatform.Bootstrap.SecretScan
import LocalPlatform.LiveRun.Controller

namespace LocalPlatform.Bootstrap

open Codec Codec.Json Logic

/-! ## Patterns -/

/-- `^[0-9]{8}T[0-9]{6}Z$` -/
def isRunID (s : Bytes) : Bool :=
  s.length == 16 && (s.take 8).all isDigit && s[8]? == some 0x54 && ((s.drop 9).take 6).all isDigit && s[15]? == some 0x5a

/-- One of `[0-9a-f]`. -/
def isLowerHex (c : UInt8) : Bool := decide (0x30 ≤ c ∧ c ≤ 0x39 ∨ 0x61 ≤ c ∧ c ≤ 0x66)

/-- `^[0-9a-f]{40}$` -/
def isCommit (s : Bytes) : Bool := s.length == 40 && s.all isLowerHex

/-- `^[0-9]{12}\.dkr\.ecr\.us-east-1\.amazonaws\.com/mlp-dev/relay@sha256:[0-9a-f]{64}$` -/
def isImage (s : Bytes) : Bool :=
  let middle := ascii ".dkr.ecr.us-east-1.amazonaws.com/mlp-dev/relay@sha256:"
  (s.take 12).length == 12 && (s.take 12).all isDigit && (s.drop 12).take middle.length == middle &&
    (s.drop (12 + middle.length)).length == 64 && (s.drop (12 + middle.length)).all isLowerHex

/-- `^job\.batch/relay-bootstrap-[a-z0-9-]+$` -/
def isJobName (s : Bytes) : Bool :=
  let front := ascii "job.batch/relay-bootstrap-"
  front.isPrefixOf s && s.drop front.length != [] &&
    (s.drop front.length).all fun c => decide (0x61 ≤ c ∧ c ≤ 0x7a ∨ 0x30 ≤ c ∧ c ≤ 0x39 ∨ c = 0x2d)

/-! ## Receipts -/

/-- The parts of the path of a run's evidence must be no symlinks. -/
def checkPath (path : Path) : App Unit := do
  let info : Except StatError FileInfo ← App.ask (.lstat path)
  match info with
  | .ok info => if info.symlink = true then throw (.located (ascii "evidence path contains a symlink") path) else pure ()
  | .error .notExist => pure ()
  | .error .other => throw .system

/-- **`evidenceDirectory`** -/
def evidenceDirectory (runID : Bytes) : App Path := do
  App.require (isRunID runID = true) "AWS_RUN_ID must use UTC YYYYMMDDTHHMMSSZ"
  checkPath [ascii ".evidence"]
  checkPath [ascii ".evidence", ascii "m4"]
  checkPath (evidencePath runID)
  return evidencePath runID

/-- **`readJSON`**: a regular file that the decoder takes. -/
def readJSON {σ : Type} (decode : Bytes → Option σ) (path : Path) (description : String) : App σ := do
  let info : Except StatError FileInfo ← App.ask (.lstat path)
  match info with
  | .error _ => throw (.during (ascii description) .system)
  | .ok info =>
    if info.symlink = true ∨ info.regular = false then throw (.own (ascii description ++ ascii " must be a regular file"))
    else
      let value : Option Bytes ← App.ask (.readFile path)
      match value with
      | none => throw (.during (ascii description) .system)
      | some value => App.decoded (.during (ascii description ++ ascii " is invalid JSON") .system) (decode value)

/-- `parseUTC` -/
def parseUTC (value : Bytes) (name : String) : App Time :=
  match LiveRun.parseUTC value (ascii name) with
  | .ok t => pure t
  | .error text => throw (.own text)

/-- `heartbeatMaxAge`, in nanoseconds -/
def heartbeatMaxAge : Int := 5000000000

/-- `isProcessRunning` -/
def isProcessRunning (pid : Int) : App Bool :=
  if pid ≤ 0 then pure false
  else do
    let killed : Except KillError Unit ← App.ask (.kill pid)
    match killed with
    | .ok () => return true
    | .error .permission => return true
    | .error .other => return false

/-- What the state of an active controller says, its process apart. -/
def Fresh (state : ControllerState) (runID commit region : Bytes) (age : Int) : Prop :=
  state.schemaVersion = 1 ∧ state.runID = runID ∧ state.commit = commit ∧ state.region = region ∧ state.phase = ascii "live" ∧
    state.applyExit = some 0 ∧ -30000000000 ≤ age ∧ age ≤ heartbeatMaxAge

instance (state : ControllerState) (runID commit region : Bytes) (age : Int) : Decidable (Fresh state runID commit region age) :=
  inferInstanceAs (Decidable (_ ∧ _))

def inactive : String := "live controller is not active after a successful apply for this run and commit"

def ended : String := "session receipt is not active for this run and commit"

/-- **`activeController`**: the destroy deadline of a run that is live. -/
def activeController (runID commit region : Bytes) : App Time := do
  let raw ← evidenceDirectory runID
  let state ← readJSON ControllerState.decode (raw ++ [ascii "controller-state.json"]) "controller state"
  let updated ← parseUTC state.updatedAt "controller heartbeat"
  let now : Time ← App.ask .now
  App.require (Fresh state runID commit region (now.sub updated)) inactive
  let running ← isProcessRunning state.controllerPID
  App.require (running = true) inactive
  let session ← readJSON SessionReceipt.decode (raw ++ [ascii "00-session.json"]) "session receipt"
  let deadline ← parseUTC session.destroyDeadline "destroy deadline"
  App.require (session.schemaVersion = 1 ∧ session.runID = runID ∧ session.commit = commit ∧ session.region = region) ended
  let now : Time ← App.ask .now
  App.require (now.before deadline = true) ended
  return deadline

/-- The packet approves the run. -/
def Approves (packet : GoPacket) (runID commit : Bytes) : Prop :=
  packet.schemaVersion = 1 ∧ packet.runID = runID ∧ packet.sourceCommit = commit ∧ packet.decision = ascii "go" ∧
    packet.passed = true ∧ isImage (lookupOf packet.imageReferences "relay") = true

instance (packet : GoPacket) (runID commit : Bytes) : Decidable (Approves packet runID commit) :=
  inferInstanceAs (Decidable (_ ∧ _))

/-- **`validateRun`**: the approved packet. -/
def validateRun (runID commit region : Bytes) : App GoPacket := do
  App.require (isCommit commit = true) "AWS_APPROVED_COMMIT must be a full lowercase git SHA"
  App.require (region = ascii "us-east-1") "M4 uses the fixed us-east-1 region"
  let real : Bytes ← App.ask (.getenv (ascii "MLP_USE_REAL_AWS"))
  App.require (real = ascii "1") "MLP_USE_REAL_AWS=1 is required"
  let endpoint : Bytes ← App.ask (.getenv (ascii "AWS_ENDPOINT_URL"))
  App.require (endpoint = []) "AWS_ENDPOINT_URL must be unset for live AWS"
  let raw ← evidenceDirectory runID
  let packet ← readJSON GoPacket.decode (raw ++ [ascii "06-go-no-go.json"]) "go/no-go packet"
  App.require (Approves packet runID commit) "go/no-go packet does not approve this run, commit, and relay image"
  let account ← readJSON decodeAccount (raw ++ [ascii "01-identity.txt"]) "account receipt"
  App.require (account = (lookupOf packet.imageReferences "relay").take 12)
    "account receipt does not match the approved relay image account"
  let current ← App.run .callerIdentity
  App.require (trimSpace current = account) "current AWS identity does not match the approved account receipt"
  let _ ← activeController runID commit region
  let head : Except Bytes Bytes ← App.ask (.run .revParse)
  App.require (∃ out ∈ head.toOption, trimSpace out = commit) "worktree HEAD does not match the approved commit"
  let status ← App.run .status
  App.require (trimSpace status = []) "worktree must be clean before live bootstrap"
  return packet

/-! ## Outputs, and the cluster they name -/

/-- `terraformOutputs` -/
def terraformOutputs : App TerraformOutputs := do
  let value ← App.run .terraformOutput
  App.decoded (.during (ascii "terraform outputs are invalid JSON") .system) (TerraformOutputs.decode value)

def outputText (outputs : TerraformOutputs) (name : String) : App Bytes :=
  match outputs.text name with
  | .ok value => pure value
  | .error text => throw (.own text)

/-- `verifyCluster` -/
def verifyCluster (name : Bytes) : App Unit := do
  let expected ← App.run (.describeCluster name)
  let config ← App.run .configView
  let actual ← App.decoded (.own (ascii "current kubectl context has no single cluster server")) (currentClusterServer config)
  App.require (trimSpace expected = actual) "current kubectl context does not target the Terraform EKS cluster"

/-- `runtimeBootstrapValue`, without what `run` puts in front of its errors. -/
def runtimeValue (path : Path) : App (Bytes × RuntimeDocument) := do
  let info : Except StatError FileInfo ← App.ask (.lstat path)
  match info with
  | .error _ => throw .system
  | .ok info =>
    if info.symlink = true ∨ info.regular = false then App.fail "rendered relay runtime must be a regular file"
    else
      let value ← App.decoded .system (← App.ask (.readFile path))
      let document ← App.decoded (.own (ascii "rendered relay runtime is not a ConfigMap")) (RuntimeDocument.decode value)
      App.require (document.kind = ascii "ConfigMap") "rendered relay runtime is not a ConfigMap"
      App.require (lookupOf document.data "KAFKA_AUTH_MODE" = ascii "aws_msk_iam" ∧ lookupOf document.data "AWS_REGION" = ascii "us-east-1")
        "rendered relay runtime does not require us-east-1 MSK IAM"
      return (value, document)

/-! ## Credentials -/

/-- `databaseURL`, its error thrown. -/
def connectionURL (endpoint secretText : Bytes) : App Bytes :=
  match databaseURL endpoint secretText with
  | .ok url => pure url
  | .error text => throw (.own text)

/-- `getSecret` -/
def getSecret (arn : Bytes) (description : String) : App Bytes := do
  let value ← App.run (.getSecret arn)
  App.decoded (.own (ascii description ++ ascii " has no SecretString")) (parseSecret value)

def secretsManager : String := "Secrets Manager response"

section Scan

variable (sha256 : Hash)

/-- What `signingSecret` does where there is no secret yet: it makes one, records it and only then stores it. -/
def makeSecret (arn : Bytes) (scanner : SecretScan) (beforeStore : App Unit) : App (Bytes × SecretScan) := do
  let random ← App.decoded (.during (ascii "generate sink signing secret") .system) (← App.ask .random)
  let generated := Base64.encodeRawURL random.1
  let scanner ← scanner.record sha256 (ascii "SIGNING_SECRET") generated
  App.during "controller stopped before storing sink signing secret" beforeStore
  let _ ← App.during "store sink signing secret" (App.run (.putSecret arn generated))
  let stored ← App.during "read stored sink signing secret" (getSecret arn secretsManager)
  App.require (stored = generated) "stored sink signing secret does not match the generated value"
  return (stored, scanner)

/-- `missingSecret` -/
def missingSecret : Failure → Bool
  | .command _ stderr => decide (ascii "ResourceNotFoundException" <:+: stderr)
  | _ => false

/-- **`signingSecret`**: the secret that is there, or one made now; and the receipt that has it. -/
def signingSecret (arn : Bytes) (scanner : SecretScan) (beforeStore : App Unit) : App (Bytes × SecretScan) := do
  let existing : Except Failure Bytes ← ExceptT.lift (ExceptT.run (getSecret arn secretsManager))
  match existing with
  | .ok existing =>
    App.require (∃ decoded ∈ Base64.decodeRawURL existing, decoded.length = 32)
      "existing sink signing secret is not a 256-bit base64url value"
    let scanner ← scanner.record sha256 (ascii "SIGNING_SECRET") existing
    return (existing, scanner)
  | .error e =>
    if missingSecret e = true then makeSecret sha256 arn scanner beforeStore
    else throw (.during (ascii "read sink signing secret") e)

end Scan

/-! ## Manifests -/

/-- `json.Marshal` of a map, its keys in order. -/
def object (members : List (String × Bytes)) : Bytes := writeObject (members.map fun m => (keyLiteral m.1, m.2))

def text (s : String) : Bytes := quote (ascii s)

/-- `secretManifest` -/
def secretManifest (database signing : Bytes) : Bytes :=
  object [("apiVersion", text "v1"), ("kind", text "Secret"),
    ("metadata", object [("labels", object [("app.kubernetes.io/part-of", text "my-local-platform")]), ("name", text "relay-secrets"),
      ("namespace", text "mlp")]),
    ("stringData", object [("DATABASE_URL", quote database), ("RELAY_SIGNING_SECRET", quote signing)]),
    ("type", text "Opaque")]

/-- `[]any{…}` -/
def array (elements : List Bytes) : Bytes := 0x5b :: (elements.intersperse [0x2c]).flatten ++ [0x5d]

def jobLabels : Bytes :=
  object [("app.kubernetes.io/name", text "relay-bootstrap"), ("app.kubernetes.io/part-of", text "my-local-platform")]

/-- The container of the job. -/
def jobContainer (image : Bytes) : Bytes :=
  object [("command", array [text "/relay-bootstrap"]),
    ("envFrom", array [object [("configMapRef", object [("name", text "relay-runtime")])],
      object [("secretRef", object [("name", text "relay-secrets")])]]),
    ("image", quote image), ("imagePullPolicy", text "IfNotPresent"), ("name", text "bootstrap"),
    ("resources", object [("limits", object [("memory", text "128Mi")]),
      ("requests", object [("cpu", text "10m"), ("memory", text "32Mi")])]),
    ("securityContext", object [("allowPrivilegeEscalation", ascii "false"), ("capabilities", object [("drop", array [text "ALL"])]),
      ("readOnlyRootFilesystem", ascii "true")])]

/-- `jobManifest` -/
def jobManifest (runID commit image : Bytes) : Bytes :=
  object [("apiVersion", text "batch/v1"), ("kind", text "Job"),
    ("metadata", object [("annotations", object [("mlp.dev/run-id", quote runID), ("mlp.dev/source-commit", quote commit)]),
      ("generateName", text "relay-bootstrap-"), ("labels", jobLabels), ("namespace", text "mlp")]),
    ("spec", object [("activeDeadlineSeconds", dec 210), ("backoffLimit", dec 0),
      ("template", object [("metadata", object [("labels", jobLabels)]),
        ("spec", object [("containers", array [jobContainer image]), ("restartPolicy", text "Never"),
          ("securityContext", object [("runAsNonRoot", ascii "true"), ("runAsUser", dec 65532),
            ("seccompProfile", object [("type", text "RuntimeDefault")])]),
          ("serviceAccountName", text "relay-bootstrap")])])])]

/-! ## The job -/

/-- The first condition that is true and decides: whether the job is complete. -/
def jobOutcome (conditions : List Condition) : Option Bool :=
  conditions.findSome? fun c =>
    if c.status ≠ ascii "True" then none
    else if c.type = ascii "Complete" then some true
    else if c.type = ascii "Failed" then some false
    else none

/-- One round of `waitForJob`: whether the job is complete. -/
def pollJob (jobName runID commit region : Bytes) : App Bool := do
  let _ ← App.during "live controller stopped during runtime bootstrap" (activeController runID commit region)
  let value ← App.during "read relay bootstrap Job status" (App.run (.getJob jobName))
  let conditions ← App.decoded (.during (ascii "relay bootstrap Job status is invalid JSON") .system) (decodeJobStatus value)
  match jobOutcome conditions with
  | some true => return true
  | some false => App.fail "relay bootstrap Job failed"
  | none =>
    -- the delay is over, or the context ended first
    let passed : Bool ← App.ask .delay
    if passed = true then return false else throw (.during (ascii "wait for relay bootstrap Job") .system)

/-- **`waitForJob`** -/
def waitForJob (jobName runID commit region : Bytes) : App Unit :=
  ExceptT.mk (Prog.forever (fun _ : Unit => do
    let round ← ExceptT.run (pollJob jobName runID commit region)
    match round with
    | .ok false => return .inl ()
    | .ok true => return .inr (.ok ())
    | .error e => return .inr (.error e)) ())

/-- Credentials with the order in which their forms are replaced. -/
def orders : List Bytes → App (List (Bytes × List Form))
  | [] => return []
  | secret :: secrets => do
    let order ← App.ask .mapOrder
    let rest ← orders secrets
    return (secret, order.1) :: rest

/-- The logs of the job, redacted, if there are any. -/
def writeLogs (logs : Bytes) (sensitive : List Bytes) : App Unit :=
  if logs = [] then pure ()
  else do
    let secrets ← orders sensitive
    let _ ← App.ask (.output (redacted logs secrets))
    return ()

/-! ## The run -/

/-- What the run needs of the outputs. -/
structure Targets where
  cluster : Bytes
  msk : Bytes
  rdsEndpoint : Bytes
  rdsSecretARN : Bytes
  signingSecretARN : Bytes

/-- The outputs, and that their secrets are in the approved account. -/
def readTargets (region account : Bytes) : App Targets := do
  let outputs ← terraformOutputs
  let cluster ← outputText outputs "eks_cluster_name"
  let msk ← outputText outputs "msk_bootstrap_brokers"
  let rdsEndpoint ← outputText outputs "rds_endpoint"
  let rdsSecretARN ← outputText outputs "rds_master_secret_arn"
  let signingSecretARN ← outputText outputs "sink_signing_secret_arn"
  let secretPrefix := ascii "arn:aws:secretsmanager:" ++ region ++ ascii ":" ++ account ++ ascii ":secret:"
  App.require (secretPrefix <+: rdsSecretARN ∧ secretPrefix <+: signingSecretARN)
    "terraform secret ARNs do not match the approved region and account"
  return ⟨cluster, msk, rdsEndpoint, rdsSecretARN, signingSecretARN⟩

/-- The credentials of a run. -/
structure Credentials where
  signing : Bytes
  password : Bytes
  database : Bytes

/-- The sensitive values, as `redacted` is given them. -/
def Credentials.sensitive (c : Credentials) : List Bytes := [c.signing, c.database, c.password, encodedPassword c.password]

section Run

variable (sha256 : Hash) (runID commit region : Bytes)

/-- `controllerActive` -/
def controllerActive : App Unit := do
  let _ ← activeController runID commit region
  return ()

/-- The credentials, recorded in a receipt that is complete. -/
def collect (targets : Targets) : App Credentials := do
  let scanner ← openSecretScan sha256 runID commit
  let scanner ← scanner.begin
  let (signing, scanner) ← signingSecret sha256 targets.signingSecretARN scanner (controllerActive runID commit region)
  let rdsValue ← App.during "read RDS master secret" (getSecret targets.rdsSecretARN secretsManager)
  let database ← connectionURL targets.rdsEndpoint rdsValue
  let credential ← App.decoded (.own (ascii "RDS master secret changed after validation")) (RDSSecret.decode rdsValue)
  let scanner ← scanner.record sha256 (ascii "DATABASE_PASSWORD") credential.password
  let scanner ← scanner.record sha256 (ascii "DATABASE_URL") database
  let _ ← scanner.complete
  return ⟨signing, credential.password, database⟩

/-- A change of the cluster, right after a look at the controller. -/
def change (c : Command) : App Bytes := do
  controllerActive runID commit region
  App.run c

/-- The cluster changed, up to the job; the name of the job. -/
def install (runtime : Bytes) (credentials : Credentials) (image : Bytes) : App Bytes := do
  let _ ← change runID commit region .applyNamespace
  let _ ← change runID commit region .applyServiceAccounts
  controllerActive runID commit region
  let _ ← App.during "apply relay runtime ConfigMap" (App.run (.applyRuntime runtime))
  controllerActive runID commit region
  let _ ← App.during "apply relay runtime Secret" (App.run (.applySecret (secretManifest credentials.database credentials.signing)))
  controllerActive runID commit region
  let created ← App.during "create relay bootstrap Job" (App.run (.createJob (jobManifest runID commit image)))
  let jobName := trimSpace created
  App.require (isJobName jobName = true) "kubectl returned invalid bootstrap Job name"
  return jobName

/-- The wait for the job, and its logs. -/
def finish (jobName : Bytes) (credentials : Credentials) : App Unit := do
  let waited : Except Failure Unit ← ExceptT.lift (ExceptT.run (waitForJob jobName runID commit region))
  match waited with
  | .error e =>
    let logs : Except Bytes Bytes ← App.ask (.run (.logs jobName))
    writeLogs (logs.toOption.getD []) credentials.sensitive
    throw e
  | .ok () =>
    let logs ← App.during "read relay bootstrap Job logs" (App.run (.logs jobName))
    writeLogs logs credentials.sensitive
    let written : Bool ← App.ask (.output (ascii "live runtime bootstrap complete: " ++ jobName ++ [0x0a]))
    if written = true then return () else throw (.during (ascii "write bootstrap completion") .system)

/-- **`application.run`** -/
def run : App Unit := do
  let packet ← validateRun runID commit region
  let image := lookupOf packet.imageReferences "relay"
  let targets ← readTargets region (image.take 12)
  verifyCluster targets.cluster
  let runtime ← App.during "read rendered relay runtime"
    (runtimeValue (evidencePath runID ++ [ascii "rendered", ascii "relay-runtime.json"]))
  App.require (lookupOf runtime.2.data "KAFKA_BOOTSTRAP" = targets.msk) "rendered relay runtime does not match the Terraform MSK brokers"
  controllerActive runID commit region
  let credentials ← collect sha256 runID commit region targets
  let jobName ← install runID commit region runtime.1 credentials image
  finish runID commit region jobName credentials

end Run

end LocalPlatform.Bootstrap
