/-
# LocalPlatform.Bootstrap.Guarantees — what every run of the bootstrap can be relied on for.

The rules are kept (`Safety`); here is what they come to, in the words of those who rely on them.  A command changes something
right after a heartbeat that is fresh was read (`mutation_checked`); a credential is handed over when all its fingerprints are
on disk (`credential_recorded`); and of the logs no form of a credential gets out (`output_clean`).
-/
import LocalPlatform.Bootstrap.Safety

namespace LocalPlatform.Bootstrap

open Codec Logic Prog App

/-! ## What a look found -/

/-- The controller's heartbeat is fresh, its process is there, and the destroy deadline of the session is not over: each by the
clock that was read for it. -/
structure Alive (runID commit region : Bytes) (look : List (Event Answer)) : Prop where
  heartbeat : ∃ data state updated now, (⟨.readFile (evidencePath runID ++ [ascii "controller-state.json"]), some data⟩ : Event Answer) ∈ look ∧
    ControllerState.decode data = some state ∧ LiveRun.parseUTC state.updatedAt (ascii "controller heartbeat") = .ok updated ∧
    (⟨.now, now⟩ : Event Answer) ∈ look ∧ Fresh state runID commit region (now.sub updated) ∧
    ∃ killed : Except KillError Unit, (⟨.kill state.controllerPID, killed⟩ : Event Answer) ∈ look ∧ killed ≠ .error .other
  session : ∃ data session deadline now, (⟨.readFile (evidencePath runID ++ [ascii "00-session.json"]), some data⟩ : Event Answer) ∈ look ∧
    SessionReceipt.decode data = some session ∧ LiveRun.parseUTC session.destroyDeadline (ascii "destroy deadline") = .ok deadline ∧
    session.runID = runID ∧ session.commit = commit ∧ session.region = region ∧
    (⟨.now, now⟩ : Event Answer) ∈ look ∧ now.before deadline = true
  quiet : ∀ e ∈ look, Quiet e.ask

section Runs

variable {α β : Type} {es : List (Event Answer)}

theorem straight_ask (q : Ask) : Straight (ask q : Prog Ask Answer (Except Failure (Answer q))) :=
  (simple_ask (P := fun _ => True) trivial).straight

theorem runs_ask {q : Ask} {f : Answer q → App β} {b : β}
    (h : Runs ((ask q >>= f : App β) : Prog Ask Answer (Except Failure β)) es (.ok b)) :
    ∃ r es', es = ⟨q, r⟩ :: es' ∧ Runs (f r : Prog Ask Answer (Except Failure β)) es' (.ok b) := by
  obtain ⟨es₁, r, es', rfl, hask, hrest'⟩ := runs_bindE (straight_ask q) h
  obtain ⟨p', hreach, hret⟩ := hask
  cases hreach with
  | refl => cases hret
  | step he hrest =>
    cases he with
    | ask r' =>
      obtain ⟨rfl, heq⟩ := runs_pure ⟨p', hrest, hret⟩
      exact ⟨r', es', rfl, Except.ok.inj heq ▸ hrest'⟩

theorem runs_require {p : Prop} {inst : Decidable p} {text : String} {f : Unit → App β} {b : β}
    (h : Runs ((@require p inst text >>= f : App β) : Prog Ask Answer (Except Failure β)) es (.ok b)) :
    p ∧ Runs (f () : Prog Ask Answer (Except Failure β)) es (.ok b) := by
  obtain ⟨es₁, u, es', rfl, hrequire, h⟩ := runs_bindE (simple_require (P := Quiet)).straight h
  unfold App.require at hrequire
  split at hrequire
  · next hp => exact ⟨hp, (runs_pure hrequire).1 ▸ h⟩
  · cases (runs_pure hrequire).2

theorem runs_decoded {e : Failure} {o : Option α} {a : α} (h : Runs (decoded e o : Prog Ask Answer (Except Failure α)) es (.ok a)) :
    o = some a := by
  cases o with
  | none => cases (runs_pure h).2
  | some a' => rw [Except.ok.inj (runs_pure h).2]

theorem runs_evidenceDirectory {runID : Bytes} {raw : Path}
    (h : Runs (evidenceDirectory runID : Prog Ask Answer (Except Failure Path)) es (.ok raw)) : raw = evidencePath runID := by
  obtain ⟨-, h⟩ := runs_require h
  obtain ⟨_, _, _, rfl, -, h⟩ := runs_bindE (simple_checkPath _).straight h
  obtain ⟨_, _, _, rfl, -, h⟩ := runs_bindE (simple_checkPath _).straight h
  obtain ⟨_, _, _, rfl, -, h⟩ := runs_bindE (simple_checkPath _).straight h
  exact Except.ok.inj (runs_pure h).2

theorem runs_readJSON {decode : Bytes → Option α} {path : Path} {description : String} {v : α}
    (h : Runs (readJSON decode path description : Prog Ask Answer (Except Failure α)) es (.ok v)) :
    ∃ data, (⟨.readFile path, some data⟩ : Event Answer) ∈ es ∧ decode data = some v := by
  obtain ⟨info, es', rfl, hinfo⟩ := runs_ask h
  clear h
  match info, hinfo with
  | .error e, hinfo => cases (runs_pure hinfo).2
  | .ok info, hinfo =>
    replace hinfo : Runs (ite _ _ _ : App α) es' (.ok v) := hinfo
    split at hinfo
    · cases (runs_pure hinfo).2
    · obtain ⟨value, es'', rfl, hvalue⟩ := runs_ask hinfo
      match value, hvalue with
      | none, hvalue => cases (runs_pure hvalue).2
      | some data, hvalue => exact ⟨data, by simp, runs_decoded hvalue⟩

theorem runs_parseUTC {value : Bytes} {name : String} {t : Time}
    (h : Runs (parseUTC value name : Prog Ask Answer (Except Failure Time)) es (.ok t)) : LiveRun.parseUTC value (ascii name) = .ok t := by
  unfold parseUTC at h
  split at h
  · next t' hparse => rw [hparse, Except.ok.inj (runs_pure h).2]
  · cases (runs_pure h).2

theorem runs_isProcessRunning {pid : Int} {running : Bool}
    (h : Runs (isProcessRunning pid : Prog Ask Answer (Except Failure Bool)) es (.ok running)) (hrunning : running = true) :
    ∃ killed : Except KillError Unit, (⟨.kill pid, killed⟩ : Event Answer) ∈ es ∧ killed ≠ .error .other := by
  subst hrunning
  unfold isProcessRunning at h
  split at h
  · cases (runs_pure h).2
  · obtain ⟨killed, es', rfl, hkilled⟩ := runs_ask h
    refine ⟨killed, List.mem_cons_self, ?_⟩
    rintro rfl
    cases (runs_pure hkilled).2

/-- **A look that succeeds found the controller alive.** -/
theorem alive_of_runs {runID commit region : Bytes} {deadline : Time}
    (h : Runs (activeController runID commit region : Prog Ask Answer (Except Failure Time)) es (.ok deadline)) :
    Alive runID commit region es := by
  -- the look part by part, each with what was asked and answered in it
  have hsimple := simple_activeController runID commit region
  have hquiet := asks_of_runs hsimple.straight hsimple.asks h
  obtain ⟨_, raw, _, hes₁, hraw, h₁⟩ := runs_bindE (simple_evidenceDirectory runID).straight h
  obtain rfl := runs_evidenceDirectory hraw
  obtain ⟨_, state, _, hes₂, hstate, h₂⟩ := runs_bindE (simple_readJSON _ _ _).straight h₁
  obtain ⟨_, updated, _, hes₃, hupdated, h₃⟩ := runs_bindE (simple_parseUTC _ _).straight h₂
  obtain ⟨now, _, hes₄, h₄⟩ := runs_ask h₃
  obtain ⟨hfresh, h₅⟩ := runs_require h₄
  obtain ⟨_, running, _, hes₆, hkilled, h₆⟩ := runs_bindE (simple_isProcessRunning _).straight h₅
  obtain ⟨hrunning, h₇⟩ := runs_require h₆
  obtain ⟨_, session, _, hes₈, hsession, h₈⟩ := runs_bindE (simple_readJSON _ _ _).straight h₇
  obtain ⟨_, deadline', _, hes₉, hdeadline, h₉⟩ := runs_bindE (simple_parseUTC _ _).straight h₈
  obtain ⟨hbound, h₁₀⟩ := runs_require h₉
  obtain ⟨now', _, hes₁₁, h₁₁⟩ := runs_ask h₁₀
  obtain ⟨hbefore, -⟩ := runs_require h₁₁
  subst hes₁ hes₂ hes₃ hes₄ hes₆ hes₈ hes₉ hes₁₁
  obtain ⟨data, hdata, hdecode⟩ := runs_readJSON hstate
  obtain ⟨killed, hkill, hthere⟩ := runs_isProcessRunning hkilled hrunning
  obtain ⟨data', hdata', hdecode'⟩ := runs_readJSON hsession
  refine ⟨⟨data, state, updated, now, by simp [hdata], hdecode, runs_parseUTC hupdated, by simp, hfresh, killed, by simp [hkill], hthere⟩,
    ⟨data', session, deadline', now', by simp [hdata'], hdecode', runs_parseUTC hdeadline, hbound.2.1, hbound.2.2.1, hbound.2.2.2,
      by simp, hbefore⟩, hquiet⟩

end Runs

/-! ## A rehearsal -/

namespace Rehearsal

def runID : Bytes := ascii "20260101T000000Z"
def commit : Bytes := List.replicate 40 0x61
def region : Bytes := ascii "us-east-1"
def image : Bytes :=
  ascii "123456789012.dkr.ecr.us-east-1.amazonaws.com/mlp-dev/relay@sha256:" ++ List.replicate 64 0x62

/-- A hash that tells nothing apart. -/
def flatHash : Hash := fun _ => ⟨List.replicate 32 0, rfl⟩

/-- What all receipts of the run begin with. -/
def bound : List (String × Bytes) :=
  [("schema_version", dec 1), ("run_id", Json.quote runID), ("commit", Json.quote commit), ("region", text "us-east-1")]

/-- The receipt that `start-session` leaves. -/
def initialScan (session : Bytes) : Bytes := SecretScan.text ⟨runID, commit, hexDigest flatHash session, .notStarted, []⟩

def file (name : Bytes) : Bytes :=
  if name = ascii "06-go-no-go.json" then
    object [("schema_version", dec 1), ("run_id", Json.quote runID), ("source_commit", Json.quote commit),
      ("decision", text "go"), ("image_references", object [("relay", Json.quote image)]), ("gate", object [("passed", ascii "true")])]
  else if name = ascii "01-identity.txt" then object [("aws", object [("account_id", text "123456789012")])]
  else if name = ascii "controller-state.json" then
    object (bound ++ [("controller_pid", dec 7), ("updated_at", text "2026-01-01T00:00:00Z"), ("phase", text "live"), ("apply_exit", dec 0)])
  else if name = ascii "00-session.json" then object (bound ++ [("destroy_deadline", text "2026-01-01T02:30:00Z")])
  else if name = ascii "secret-scan.json" then initialScan []
  else object [("kind", text "ConfigMap"), ("data", object [("KAFKA_AUTH_MODE", text "aws_msk_iam"), ("AWS_REGION", text "us-east-1"),
    ("KAFKA_BOOTSTRAP", text "broker")])]

def arnOf (name : String) : Bytes := ascii "arn:aws:secretsmanager:us-east-1:123456789012:secret:" ++ ascii name

def outputOf (value : Bytes) : Bytes := object [("value", Json.quote value)]

def generated : Bytes := Base64.encodeRawURL (List.replicate 32 0)

/-- The answer to a command, where the signing secret was stored or not. -/
def answer (stored : Bool) : Command → Except Bytes Bytes
  | .callerIdentity => .ok (ascii "123456789012\n")
  | .revParse => .ok (commit ++ [0x0a])
  | .status => .ok []
  | .terraformOutput =>
    .ok (object [("eks_cluster_name", outputOf (ascii "mlp")), ("msk_bootstrap_brokers", outputOf (ascii "broker")),
      ("rds_endpoint", outputOf (ascii "db.rds.amazonaws.com:5432")), ("rds_master_secret_arn", outputOf (arnOf "rds")),
      ("sink_signing_secret_arn", outputOf (arnOf "signing"))])
  | .describeCluster _ => .ok (ascii "https://eks\n")
  | .configView => .ok (object [("clusters", array [object [("cluster", object [("server", text "https://eks")])]])])
  | .getSecret arn =>
    if arn = arnOf "rds" then
      .ok (object [("SecretString", Json.quote (object [("username", text "relay"), ("password", text "password-of-the-relay")]))])
    else if stored = true then .ok (object [("SecretString", Json.quote generated)])
    else .error (ascii "ResourceNotFoundException")
  | .createJob _ => .ok (ascii "job.batch/relay-bootstrap-x1\n")
  | .getJob _ => .ok (object [("status", object [("conditions", array [object [("type", text "Complete"), ("status", text "True")]])])])
  | .logs _ => .ok (ascii "connected\nrelay database ready active_subscriptions=19\n")
  | _ => .ok []

def isPut : Ask → Bool
  | .run (.putSecret _ _) => true
  | _ => false

/-- A world in which everything goes well. -/
def world (past : List (Event Answer)) : (q : Ask) → Answer q
  | .getenv name => if name = ascii "MLP_USE_REAL_AWS" then ascii "1" else []
  | .lstat _ => .ok ⟨false, true, 0o600, 400⟩
  | .readFile path => some (file (path.getLastD []))
  | .now => Time.ofUnix 1767225602
  | .kill _ => .ok ()
  | .run c => answer (past.any fun e => isPut e.ask) c
  | .random => some ⟨List.replicate 32 0, rfl⟩
  | .mapOrder => ⟨Form.all, List.Perm.refl _⟩
  | .removeTemp => ()
  | .claim _ | .closeClaim | .createTemp | .writeTemp _ | .syncTemp | .closeTemp | .rename _ | .output _ | .delay => true

/-- What happened where everything goes well. -/
def events : Option (List (Event Answer) × Except Failure Unit) :=
  Prog.exec world 400 (run flatHash runID commit region : Prog Ask Answer (Except Failure Unit)) []

/-- An event of each kind that the rules are about. -/
def mutates : Event Answer → Bool
  | ⟨.run c, _⟩ => c.mutates
  | _ => false

def applies : Event Answer → Bool
  | ⟨.run (.applySecret _), _⟩ => true
  | _ => false

def publishes : Event Answer → Bool
  | ⟨.output _, _⟩ => true
  | _ => false

/-- The claim that was granted. -/
def claims : Event Answer → Bool
  | ⟨.claim _, granted⟩ => granted
  | _ => false

def session : Bytes := file (ascii "00-session.json")

/-- Whatever is read of the session is the session. -/
def sameSession : Event Answer → Bool
  | ⟨.readFile path, some data⟩ => path != evidencePath runID ++ [ascii "00-session.json"] || data == session
  | _ => true

theorem events_kinds : events.map (fun r => (r.1.any mutates, r.1.any applies, r.1.any publishes, r.1.countP claims, r.1.all sameSession)) =
    some (true, true, true, 1, true) := by
  decide +kernel

/-- The rehearsal as a run, with events of each kind in it. -/
theorem exists_run : ∃ es p', Reaches (run flatHash runID commit region : Prog Ask Answer (Except Failure Unit)) es p' ∧
    es.any mutates = true ∧ es.any applies = true ∧ es.any publishes = true ∧ es.countP claims = 1 ∧ es.all sameSession = true := by
  obtain ⟨⟨all, ended⟩, hexec, hkinds⟩ := Option.map_eq_some_iff.mp events_kinds
  obtain ⟨_, p', rfl, hreach, -⟩ := Prog.exec_reaches hexec
  simp only [Prod.mk.injEq] at hkinds
  exact ⟨_, p', hreach, hkinds⟩

theorem exists_split {f : Event Answer → Bool} {es : List (Event Answer)} (h : es.any f = true) :
    ∃ before e after, es = before ++ e :: after ∧ f e = true := by
  obtain ⟨e, hmem, he⟩ := List.any_eq_true.mp h
  obtain ⟨before, after, rfl⟩ := List.append_of_mem hmem
  exact ⟨before, e, after, rfl, he⟩

end Rehearsal

/-! ## Guarantees -/

section Guarantees

variable {sha256 : Hash} {runID commit region : Bytes} {disk : Option Bytes} {es es' : List (Event Answer)}
  {p' : Prog Ask Answer (Except Failure Unit)}

/-- The watch has seen everything. -/
theorem past_after (s : Watch) : ((rules sha256 runID commit region).after s es).past = s.past ++ es := by
  induction es generalizing s with
  | nil => simp
  | cons e es ih =>
    rw [Monitor.after_cons, ih]
    show (s.next e.ask e.answer).past ++ es = _
    rw [past_next, List.append_assoc, List.singleton_append]

/-- **Nothing is changed without a live controller.**  In every run a command that changes something comes right behind a look
at the controller: nothing but questions that change nothing lie between, and they found it alive. -/
theorem mutation_checked {c : Command} {r : Answer (.run c)} (hmutates : c.mutates = true)
    (h : Reaches (run sha256 runID commit region : Prog Ask Answer (Except Failure Unit)) (es ++ ⟨.run c, r⟩ :: es') p') :
    ∃ before look, es = before ++ look ∧ Alive runID commit region look := by
  obtain ⟨before, look, deadline, hpast, hlook⟩ := (rule_of_reaches none h).1 hmutates
  refine ⟨before, look, ?_, alive_of_runs hlook⟩
  rw [← hpast]
  exact (past_after (Watch.start none)).symm

/-- In the rehearsal the signing secret is stored right behind such a look. -/
theorem mutation_checked_rehearsal : ∃ es c r es' p',
    Reaches (run Rehearsal.flatHash Rehearsal.runID Rehearsal.commit Rehearsal.region : Prog Ask Answer (Except Failure Unit))
      (es ++ ⟨.run c, r⟩ :: es') p' ∧ ∃ before look, es = before ++ look ∧ Alive Rehearsal.runID Rehearsal.commit Rehearsal.region look := by
  obtain ⟨all, p', hreach, hmutates, -⟩ := Rehearsal.exists_run
  obtain ⟨es, ⟨q, r⟩, es', rfl, he⟩ := Rehearsal.exists_split hmutates
  cases q with
  | run c => exact ⟨es, c, r, es', p', hreach, mutation_checked he hreach⟩
  | _ => cases he

/-- **No credential is handed over unrecorded.**  In every run the receipt on disk has, when a signing secret is stored, the
fingerprints of all its forms; and when the credentials go into the cluster it is complete and has those of all three: of the
signing secret and the password that the run was answered, and of the URL built of that answer. -/
theorem credential_recorded {c : Command} {r : Answer (.run c)}
    (h : Reaches (run sha256 runID commit region : Prog Ask Answer (Except Failure Unit)) (es ++ ⟨.run c, r⟩ :: es') p') :
    (∀ arn secret, c = .putSecret arn secret → ∃ receipt,
      OnDisk sha256 runID commit (Watch.after sha256 runID commit region disk es) receipt ∧
        ∀ form, entryOf sha256 (ascii "SIGNING_SECRET") secret form ∈ receipt.entries) ∧
    ∀ manifest, c = .applySecret manifest → ∃ (credentials : Credentials) (receipt : SecretScan),
      OnDisk sha256 runID commit (Watch.after sha256 runID commit region disk es) receipt ∧ receipt.state = .complete ∧
        manifest = secretManifest credentials.database credentials.signing ∧ Supplied es credentials ∧
          ∀ named ∈ credentials.values, ∀ form, entryOf sha256 named.1 named.2 form ∈ receipt.entries := by
  have hreleased := (rule_of_reaches disk h).2
  constructor
  · rintro arn secret rfl
    exact hreleased
  · rintro manifest rfl
    obtain ⟨credentials, ⟨receipt, hdisk, hstate, hrecords, hsupplied⟩, hmanifest⟩ := hreleased
    have hpast : (Watch.after sha256 runID commit region disk es).past = es := past_after (Watch.start disk)
    exact ⟨credentials, receipt, hdisk, hstate, hmanifest, hpast ▸ hsupplied, fun named hnamed form => hrecords.mem hnamed form⟩

/-- In the rehearsal the credentials go into the cluster. -/
theorem credential_recorded_rehearsal : ∃ es manifest r es' p',
    Reaches (run Rehearsal.flatHash Rehearsal.runID Rehearsal.commit Rehearsal.region : Prog Ask Answer (Except Failure Unit))
      (es ++ ⟨.run (.applySecret manifest), r⟩ :: es') p' ∧ ∃ (credentials : Credentials) (receipt : SecretScan),
        OnDisk Rehearsal.flatHash Rehearsal.runID Rehearsal.commit
            (Watch.after Rehearsal.flatHash Rehearsal.runID Rehearsal.commit Rehearsal.region none es) receipt ∧
          receipt.state = .complete ∧ manifest = secretManifest credentials.database credentials.signing ∧ Supplied es credentials ∧
            ∀ named ∈ credentials.values, ∀ form, entryOf Rehearsal.flatHash named.1 named.2 form ∈ receipt.entries := by
  obtain ⟨all, p', hreach, -, happlies, -⟩ := Rehearsal.exists_run
  obtain ⟨es, ⟨q, r⟩, es', rfl, he⟩ := Rehearsal.exists_split happlies
  cases q with
  | run c =>
    cases c with
    | applySecret manifest => exact ⟨es, manifest, r, es', p', hreach, (credential_recorded hreach).2 manifest rfl⟩
    | _ => cases he
  | _ => cases he

theorem Records.length_le {values : List (Bytes × Bytes)} {entries : List ScanEntry} (h : Records sha256 values entries)
    {named : Bytes × Bytes} (hnamed : named ∈ values) : 16 ≤ named.2.length ∧ named.2.length ≤ 4096 := by
  induction h with
  | nil => cases hnamed
  | snoc _ name value _ hlength ih =>
    rcases List.mem_append.mp hnamed with hnamed | hnamed
    · exact ih hnamed
    · rw [List.mem_singleton.mp hnamed]
      exact hlength

/-- **No form of a credential gets out.**  What a run writes is the line at its end, or it is made of the three success records:
then it holds no form of a credential that was recorded, of the encoded forms whatever the credential, and of the others if
there is no bracket in it; and what it holds besides brackets is of the three records or of the mark. -/
theorem output_clean {data : Bytes} {r : Answer (.output data)}
    (h : Reaches (run sha256 runID commit region : Prog Ask Answer (Except Failure Unit)) (es ++ ⟨.output data, r⟩ :: es') p') :
    (∃ jobName, isJobName jobName = true ∧ data = ascii "live runtime bootstrap complete: " ++ jobName ++ [0x0a]) ∨
      ∃ credentials, Fingerprinted sha256 runID commit (Watch.after sha256 runID commit region disk es) credentials ∧
        (∀ named ∈ credentials.values, ∀ form : Form, form.encodes = true ∨ Unbracketed named.2 → ¬ form.text named.2 <:+: data) ∧
          ∃ logs, ∀ w, Unbracketed w → w <:+: data → w <:+: allowed logs ∨ w <:+: ascii "REDACTED" := by
  rcases rule_of_reaches disk h with hline | ⟨credentials, logs, secrets, hfingerprinted, hsecrets, hforms, rfl⟩
  · exact .inl hline
  · refine .inr ⟨credentials, hfingerprinted, fun named hnamed form hform => ?_, logs, fun w hw hoccurs => infix_of_redacted hw hoccurs⟩
    obtain ⟨receipt, -, -, hrecords, -⟩ := hfingerprinted
    have hlength := (hrecords.length_le hnamed).1
    -- every credential is among the sensitive values
    have hsensitive : named.2 ∈ secrets.map Prod.fst := by
      rw [hsecrets]
      simp only [Credentials.values, List.mem_cons, List.not_mem_nil, or_false] at hnamed
      rcases hnamed with rfl | rfl | rfl <;> simp [Credentials.sensitive]
    obtain ⟨secret, hsecret, hvalue⟩ := List.mem_map.mp hsensitive
    rw [← hvalue] at hlength hform ⊢
    exact notInfix_redacted hforms hsecret (by omega) (unbracketed_text hform) logs

/-- In the rehearsal there is something to write. -/
theorem output_clean_rehearsal : ∃ es data r es' p',
    Reaches (run Rehearsal.flatHash Rehearsal.runID Rehearsal.commit Rehearsal.region : Prog Ask Answer (Except Failure Unit))
      (es ++ ⟨.output data, r⟩ :: es') p' ∧
    ((∃ jobName, isJobName jobName = true ∧ data = ascii "live runtime bootstrap complete: " ++ jobName ++ [0x0a]) ∨
      ∃ credentials, Fingerprinted Rehearsal.flatHash Rehearsal.runID Rehearsal.commit
          (Watch.after Rehearsal.flatHash Rehearsal.runID Rehearsal.commit Rehearsal.region none es) credentials ∧
        (∀ named ∈ credentials.values, ∀ form : Form, form.encodes = true ∨ Unbracketed named.2 → ¬ form.text named.2 <:+: data) ∧
          ∃ logs, ∀ w, Unbracketed w → w <:+: data → w <:+: allowed logs ∨ w <:+: ascii "REDACTED") := by
  obtain ⟨all, p', hreach, -, -, hpublishes, -⟩ := Rehearsal.exists_run
  obtain ⟨es, ⟨q, r⟩, es', rfl, he⟩ := Rehearsal.exists_split hpublishes
  cases q with
  | output data => exact ⟨es, data, r, es', p', hreach, output_clean hreach⟩
  | _ => cases he

end Guarantees

end LocalPlatform.Bootstrap
