/-
# LocalPlatform.Bootstrap.Rules — what the bootstrap may do, and when.

A `Watch` has seen everything the bootstrap asked and knows what is in the receipt on disk: what was last written to the
temporary file when it was renamed.  The rules are about the questions that matter.  A receipt may be put in place if it is
one of this run; a command may change something if the last thing done was a look at the controller that found it alive; a
credential may be handed over if the receipt on disk has all its fingerprints; and of the logs nothing may be written but what
`redacted` makes of them.
-/
import LocalPlatform.Bootstrap.Application
import LocalPlatform.Logic.Failing

namespace LocalPlatform.Bootstrap

open Codec Logic

/-! ## What was seen -/

/-- The questions so far with their answers, the temporary file, and the receipt on disk; `none` where a file was not written to
its end. -/
structure Watch where
  past : List (Event Answer)
  temp : Option Bytes
  disk : Option Bytes

/-- One answered question more. -/
def Watch.next (s : Watch) : (q : Ask) → Answer q → Watch
  | .createTemp, r => { s with past := s.past ++ [⟨.createTemp, r⟩], temp := some [] }
  | .writeTemp data, r =>
    { s with past := s.past ++ [⟨.writeTemp data, r⟩], temp := match (r : Bool) with
      | true => some data
      | false => none }
  | .rename path, r =>
    { s with past := s.past ++ [⟨.rename path, r⟩], disk := match (r : Bool) with
      | true => s.temp
      | false => s.disk }
  | q, r => { s with past := s.past ++ [⟨q, r⟩] }

theorem past_next (s : Watch) (q : Ask) (r : Answer q) : (s.next q r).past = s.past ++ [⟨q, r⟩] := by cases q <;> rfl

/-! ## Records -/

/-- The credentials of a run, by name and in the order they are recorded in. -/
def credentialNames : List Bytes := [ascii "SIGNING_SECRET", ascii "DATABASE_PASSWORD", ascii "DATABASE_URL"]

/-- Entries that are the forms of these values, of each value all seven and in any order. -/
inductive Records (sha256 : Hash) : List (Bytes × Bytes) → List ScanEntry → Prop
  | nil : Records sha256 [] []
  | snoc {values : List (Bytes × Bytes)} {entries : List ScanEntry} (h : Records sha256 values entries) (name value : Bytes)
      {order : List Form} (horder : order.Perm Form.all) (hlength : 16 ≤ value.length ∧ value.length ≤ 4096) :
      Records sha256 (values ++ [(name, value)]) (entries ++ order.map (entryOf sha256 name value))

/-- The credentials under their names. -/
def Credentials.values (c : Credentials) : List (Bytes × Bytes) :=
  [(ascii "SIGNING_SECRET", c.signing), (ascii "DATABASE_PASSWORD", c.password), (ascii "DATABASE_URL", c.database)]

/-- A secret that was read. -/
def SecretRead (past : List (Event Answer)) (arn value : Bytes) : Prop :=
  ∃ out, (⟨.run (.getSecret arn), .ok out⟩ : Event Answer) ∈ past ∧ parseSecret out = some value

/-- The endpoint of the database and the names of the two secrets are those of the outputs that were read. -/
def Targets.Told (t : Targets) (past : List (Event Answer)) : Prop :=
  ∃ out outputs, (⟨.run .terraformOutput, .ok out⟩ : Event Answer) ∈ past ∧ TerraformOutputs.decode out = some outputs ∧
    outputs.text "rds_endpoint" = .ok t.rdsEndpoint ∧ outputs.text "rds_master_secret_arn" = .ok t.rdsSecretARN ∧
    outputs.text "sink_signing_secret_arn" = .ok t.signingSecretARN

/-- **The credentials are the ones the run was answered**: the signing secret as it was read, the password in the master secret
of the database as it was read, and the URL built of that secret. -/
def Supplied (past : List (Event Answer)) (c : Credentials) : Prop :=
  ∃ targets : Targets, targets.Told past ∧ SecretRead past targets.signingSecretARN c.signing ∧
    ∃ value credential, SecretRead past targets.rdsSecretARN value ∧ RDSSecret.decode value = some credential ∧
      credential.password = c.password ∧ databaseURL targets.rdsEndpoint value = .ok c.database

/-- A receipt of this run: bound to it and to the session that was read, with the forms of the first so many credentials, and
of all those the run was answered if it is complete. -/
structure OfRun (sha256 : Hash) (runID commit : Bytes) (past : List (Event Answer)) (receipt : SecretScan) : Prop where
  run : receipt.runID = runID ∧ receipt.commit = commit
  session : ∃ data : Bytes, (⟨.readFile (evidencePath runID ++ [ascii "00-session.json"]), some data⟩ : Event Answer) ∈ past ∧
    receipt.sessionHash = hexDigest sha256 data
  started : receipt.state ≠ .notStarted
  records : ∃ values, Records sha256 values receipt.entries ∧ values.map Prod.fst <+: credentialNames ∧
    (receipt.state = .complete → ∃ c : Credentials, c.values = values ∧ Supplied past c)

/-- The receipt on disk is one of this run. -/
def OnDisk (sha256 : Hash) (runID commit : Bytes) (s : Watch) (receipt : SecretScan) : Prop :=
  s.disk = some receipt.text ∧ OfRun sha256 runID commit s.past receipt

/-- The receipt on disk is complete, and has these credentials, which are the ones the run was answered. -/
def Fingerprinted (sha256 : Hash) (runID commit : Bytes) (s : Watch) (c : Credentials) : Prop :=
  ∃ receipt, OnDisk sha256 runID commit s receipt ∧ receipt.state = .complete ∧ Records sha256 c.values receipt.entries ∧
    Supplied s.past c

/-! ## Rules -/

/-- The last thing that was done is a look at the controller that found it alive. -/
def Checked (runID commit region : Bytes) (past : List (Event Answer)) : Prop :=
  ∃ before look deadline, past = before ++ look ∧ Prog.Runs (activeController runID commit region) look (.ok deadline)

/-- The credential a command hands over, if it does, is in the receipt on disk. -/
def Released (sha256 : Hash) (runID commit : Bytes) (s : Watch) : Command → Prop
  | .putSecret _ secret => ∃ receipt, OnDisk sha256 runID commit s receipt ∧
    ∀ form, entryOf sha256 (ascii "SIGNING_SECRET") secret form ∈ receipt.entries
  | .applySecret manifest => ∃ c, Fingerprinted sha256 runID commit s c ∧ manifest = secretManifest c.database c.signing
  | _ => True

/-- What may be written: the line at the end, or logs of which all credentials in the receipt are redacted. -/
def Publishable (sha256 : Hash) (runID commit : Bytes) (s : Watch) (data : Bytes) : Prop :=
  (∃ jobName, isJobName jobName = true ∧ data = ascii "live runtime bootstrap complete: " ++ jobName ++ [0x0a]) ∨
    ∃ c logs secrets, Fingerprinted sha256 runID commit s c ∧ secrets.map Prod.fst = c.sensitive ∧
      (∀ secret ∈ secrets, ∀ form : Form, form ∈ secret.2) ∧ data = redacted logs secrets

/-- **The rules.** -/
def Rule (sha256 : Hash) (runID commit region : Bytes) (s : Watch) : Ask → Prop
  | .rename path => path = scanPath runID ∧ ∃ receipt : SecretScan, s.temp = some receipt.text ∧ OfRun sha256 runID commit s.past receipt
  | .run c => (c.mutates = true → Checked runID commit region s.past) ∧ Released sha256 runID commit s c
  | .output data => Publishable sha256 runID commit s data
  | _ => True

/-- The monitor that has them. -/
def rules (sha256 : Hash) (runID commit region : Bytes) : Monitor Answer Watch where
  allowed := Rule sha256 runID commit region
  next := Watch.next

/-! ## Questions that matter to no rule -/

/-- A question that is always allowed and changes nothing. -/
def Quiet : Ask → Prop
  | .getenv _ | .lstat _ | .readFile _ | .now | .kill _ | .random | .mapOrder | .delay => True
  | .run c => c.mutates = false
  | _ => False

/-- What is later in a run, the receipt on disk being the same. -/
structure Onward (s t : Watch) : Prop where
  past : s.past <+: t.past
  disk : t.disk = s.disk

namespace Onward

theorem rfl {s : Watch} : Onward s s := ⟨List.prefix_rfl, Eq.refl _⟩

theorem trans {s t u : Watch} (h : Onward s t) (h' : Onward t u) : Onward s u := ⟨h.past.trans h'.past, h'.disk.trans h.disk⟩

end Onward

section Quiet

variable {sha256 : Hash} {runID commit region : Bytes}

theorem allowed_of_quiet {q : Ask} (h : Quiet q) (s : Watch) : (rules sha256 runID commit region).allowed s q := by
  cases q with
  | rename _ | output _ => exact h.elim
  | run c =>
    refine ⟨fun hmutates => absurd (hmutates.symm.trans h) (by decide), ?_⟩
    cases c with
    | putSecret _ _ | applySecret _ => cases h
    | _ => trivial
  | _ => trivial

theorem next_of_quiet {q : Ask} (h : Quiet q) (s : Watch) (r : Answer q) : s.next q r = { s with past := s.past ++ [⟨q, r⟩] } := by
  cases q with
  | createTemp | writeTemp _ | rename _ => exact h.elim
  | _ => rfl

theorem after_of_quiet {es : List (Event Answer)} (h : ∀ e ∈ es, Quiet e.ask) (s : Watch) :
    (rules sha256 runID commit region).after s es = { s with past := s.past ++ es } := by
  induction es generalizing s with
  | nil => simp
  | cons e es ih =>
    rw [Monitor.after_cons, ih fun e' he' => h e' (List.mem_cons_of_mem e he')]
    show ({ s.next e.ask e.answer with past := (s.next e.ask e.answer).past ++ es } : Watch) = _
    rw [next_of_quiet (h e List.mem_cons_self)]
    simp

/-- A quiet program goes on, and leaves a run of it behind. -/
theorem wp_quiet {α : Type} {p : Prog Ask Answer α} (hp : Prog.Simple Quiet p) (s : Watch) :
    p.wp (rules sha256 runID commit region) (fun a t => Onward s t ∧ ∃ es, t.past = s.past ++ es ∧ Prog.Runs p es a) s := by
  refine Prog.wp_mono ?_ (Prog.wp_runs hp.straight hp.asks (fun q hq s => allowed_of_quiet hq s) s)
  rintro a t ⟨es, hruns, rfl⟩
  rw [after_of_quiet (Prog.asks_of_runs hp.straight hp.asks hruns)]
  exact ⟨⟨List.prefix_append _ _, rfl⟩, es, rfl, hruns⟩

end Quiet

end LocalPlatform.Bootstrap
