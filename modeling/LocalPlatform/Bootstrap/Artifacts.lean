/-
# LocalPlatform.Bootstrap.Artifacts — no credential of the bootstrap is published.

Once the credentials are in the cluster the receipt is final: the bootstrap does not touch it again, however it ends
(`disk_handed`).  So the receipt the evidence script looks at has the fingerprints of the credentials that are in the cluster,
and a publication it accepts has none of them in any of its files, nor in anything the files carry (`publication_clean`).
-/
import LocalPlatform.Bootstrap.Agreement
import LocalPlatform.Evidence.Publication

namespace LocalPlatform.Bootstrap

open Codec Logic Python Evidence Prog App

/-! ## The receipt is final -/

/-- The command that puts the credentials into the cluster. -/
def HandsOver : Ask → Prop
  | .run (.applySecret _) => True
  | _ => False

instance (q : Ask) : Decidable (HandsOver q) := by
  unfold HandsOver
  split <;> infer_instance

/-- The question that replaces the receipt. -/
def Replaces : Ask → Prop
  | .rename _ => True
  | _ => False

/-- The monitor that lets nobody replace the receipt once the credentials were handed over. -/
def final : Monitor Answer Bool where
  allowed handed q := Replaces q → handed = false
  next handed q _ := handed || decide (HandsOver q)

theorem not_handsOver_of_quiet {q : Ask} (h : Quiet q) : ¬ HandsOver q := by
  intro hhands
  match q, hhands with
  | .run (.applySecret _), _ => cases h

section Final

variable {sha256 : Hash} {runID commit region : Bytes} {α β : Type}

/-- A program before the credentials are handed over. -/
theorem early_first {p : App α} {f : α → App β} (hp : Simple (fun q => ¬ HandsOver q) (p : Prog Ask Answer (Except Failure α)))
    (hf : ∀ a, wp final (f a : Prog Ask Answer (Except Failure β)) (fun _ _ => True) false) :
    wp final ((p >>= f : App β) : Prog Ask Answer (Except Failure β)) (fun _ _ => True) false := by
  refine (wp_bindE _ _ _ _).mpr (hp.asks.wp (fun q hq => ⟨fun _ => rfl, fun _ => by simp [final, hq]⟩) ?_)
  rintro (e | a)
  · trivial
  · exact hf a

/-- A program that does not replace the receipt. -/
theorem late_first {p : App α} {f : α → App β} (hp : Asks (fun q => ¬ Replaces q) (p : Prog Ask Answer (Except Failure α)))
    (hf : ∀ a handed, wp final (f a : Prog Ask Answer (Except Failure β)) (fun _ _ => True) handed) (handed : Bool) :
    wp final ((p >>= f : App β) : Prog Ask Answer (Except Failure β)) (fun _ _ => True) handed := by
  refine (wp_bindE _ _ _ _).mpr (wp_mono ?_ (wp_of_asks hp (fun _ hq _ hreplaces => absurd hreplaces hq) handed))
  rintro (e | a) t -
  · trivial
  · exact hf a t

/-! ### What comes before -/

theorem early_quiet {p : Prog Ask Answer α} (h : Simple Quiet p) : Simple (fun q => ¬ HandsOver q) p :=
  ⟨h.straight, h.asks.mono fun _ => not_handsOver_of_quiet⟩

theorem early_ask {q : Ask} (h : ¬ HandsOver q) :
    Simple (fun q => ¬ HandsOver q) (ask q : Prog Ask Answer (Except Failure (Answer q))) := simple_ask h

theorem early_written (ok : Bool) : Simple (fun q => ¬ HandsOver q) (writtenOrClosed ok : Prog Ask Answer (Except Failure Unit)) := by
  unfold writtenOrClosed
  split
  · exact .pure _
  · exact (early_ask id).bindE fun _ => .throw _

theorem early_save (s : SecretScan) : Simple (fun q => ¬ HandsOver q) (save s : Prog Ask Answer (Except Failure Unit)) := by
  have htemp : Simple (fun q => ¬ HandsOver q) (saveTemp s : Prog Ask Answer (Except Failure Unit)) :=
    (early_ask id).bindE fun _ => (early_written _).bindE fun _ => (early_ask id).bindE fun _ => (early_written _).bindE fun _ =>
      (early_ask id).bindE fun _ => (simple_succeeded _).bindE fun _ => (early_ask id).bindE fun _ => simple_succeeded _
  refine (early_ask id).bindE fun _ => (simple_succeeded _).bindE fun _ => htemp.lift.bindE fun result => (early_ask id).bindE fun _ => ?_
  cases result with
  | ok u => exact .pure _
  | error e => exact .throw _

theorem early_openSecretScan : Simple (fun q => ¬ HandsOver q) (openSecretScan sha256 runID commit : Prog Ask Answer (Except Failure SecretScan)) :=
  (early_ask id).bindE fun _ => simple_require.bindE fun _ => (early_ask id).bindE fun _ => (simple_succeeded _).bindE fun _ =>
    (early_ask id).bindE fun _ => simple_require.bindE fun _ => (early_ask id).bindE fun _ => simple_require.bindE fun _ =>
    (simple_decoded _ _).bindE fun _ => (early_ask id).bindE fun _ => (simple_decoded _ _).bindE fun _ => simple_require.bindE fun _ =>
    simple_require.bindE fun _ => .pure _

theorem early_record (s : SecretScan) (name value : Bytes) :
    Simple (fun q => ¬ HandsOver q) (s.record sha256 name value : Prog Ask Answer (Except Failure SecretScan)) :=
  simple_require.bindE fun _ => (early_ask id).bindE fun _ => (early_save _).bindE fun _ => .pure _

theorem early_makeSecret {arn : Bytes} {s : SecretScan} : Simple (fun q => ¬ HandsOver q)
    (makeSecret sha256 arn s (controllerActive runID commit region) : Prog Ask Answer (Except Failure (Bytes × SecretScan))) :=
  (early_ask id).bindE fun _ => (simple_decoded _ _).bindE fun _ => (early_record _ _ _).bindE fun _ =>
    (early_quiet (simple_during (simple_controllerActive _ _ _))).bindE fun _ =>
    (simple_during ((early_ask id).bindE fun r => by
      cases r with
      | ok out => exact .pure _
      | error e => exact .throw _)).bindE fun _ =>
    (early_quiet (simple_during (simple_getSecret _ _))).bindE fun _ => simple_require.bindE fun _ => .pure _

theorem early_signingSecret {arn : Bytes} {s : SecretScan} : Simple (fun q => ¬ HandsOver q)
    (signingSecret sha256 arn s (controllerActive runID commit region) : Prog Ask Answer (Except Failure (Bytes × SecretScan))) := by
  refine (early_quiet (simple_getSecret _ _)).lift.bindE fun existing => ?_
  cases existing with
  | ok existing => exact simple_require.bindE fun _ => (early_record _ _ _).bindE fun _ => .pure _
  | error e =>
    dsimp only
    split
    · exact early_makeSecret
    · exact .throw _

theorem early_collect {targets : Targets} : Simple (fun q => ¬ HandsOver q)
    (collect sha256 runID commit region targets : Prog Ask Answer (Except Failure Credentials)) :=
  early_openSecretScan.bindE fun _ => ((early_save _).bindE fun _ => .pure _).bindE fun _ => early_signingSecret.bindE fun _ =>
    (early_quiet (simple_during (simple_getSecret _ _))).bindE fun _ => (early_quiet (simple_connectionURL _ _)).bindE fun _ =>
    (simple_decoded _ _).bindE fun _ => (early_record _ _ _).bindE fun _ => (early_record _ _ _).bindE fun _ =>
    (simple_require.bindE fun _ => (early_save _).bindE fun _ => .pure _).bindE fun _ => .pure _

/-! ### What comes after -/

theorem not_replaces_of_quiet {q : Ask} (h : Quiet q) : ¬ Replaces q := by
  intro hreplaces
  match q, hreplaces with
  | .rename _, _ => cases h

theorem late_quiet {p : Prog Ask Answer α} (h : Simple Quiet p) : Simple (fun q => ¬ Replaces q) p :=
  ⟨h.straight, h.asks.mono fun _ => not_replaces_of_quiet⟩

theorem late_run (c : Command) : Simple (fun q => ¬ Replaces q) (App.run c : Prog Ask Answer (Except Failure Bytes)) :=
  (simple_ask id).bindE fun r => by
    cases r with
    | ok out => exact .pure _
    | error e => exact .throw _

theorem late_controllerActive : Simple (fun q => ¬ Replaces q) (controllerActive runID commit region : Prog Ask Answer (Except Failure Unit)) :=
  late_quiet (simple_controllerActive _ _ _)

theorem late_install {runtime image : Bytes} {c : Credentials} : Simple (fun q => ¬ Replaces q)
    (install runID commit region runtime c image : Prog Ask Answer (Except Failure Bytes)) :=
  (late_controllerActive.bindE fun _ => late_run _).bindE fun _ => (late_controllerActive.bindE fun _ => late_run _).bindE fun _ =>
    late_controllerActive.bindE fun _ => (simple_during (late_run _)).bindE fun _ => late_controllerActive.bindE fun _ =>
    (simple_during (late_run _)).bindE fun _ => late_controllerActive.bindE fun _ => (simple_during (late_run _)).bindE fun _ =>
    simple_require.bindE fun _ => .pure _

theorem late_orders (sensitive : List Bytes) :
    Simple (fun q => ¬ Replaces q) (orders sensitive : Prog Ask Answer (Except Failure (List (Bytes × List Form)))) := by
  induction sensitive with
  | nil => exact .pure _
  | cons secret sensitive ih => exact (simple_ask id).bindE fun _ => ih.bindE fun _ => .pure _

theorem late_writeLogs (logs : Bytes) (sensitive : List Bytes) :
    Simple (fun q => ¬ Replaces q) (writeLogs logs sensitive : Prog Ask Answer (Except Failure Unit)) := by
  unfold writeLogs
  split
  · exact .pure _
  · exact (late_orders _).bindE fun _ => (simple_ask id).bindE fun _ => .pure _

theorem late_waitForJob {jobName : Bytes} :
    Asks (fun q => ¬ Replaces q) (waitForJob jobName runID commit region : Prog Ask Answer (Except Failure Unit)) := by
  refine ⟨fun _ => (late_quiet (simple_pollJob jobName runID commit region)).asks.bind fun round => ?_, fun _ => trivial⟩
  match round with
  | .ok false => trivial
  | .ok true => trivial
  | .error e => trivial

theorem wp_late {p : Prog Ask Answer α} (h : Simple (fun q => ¬ Replaces q) p) (handed : Bool) : wp final p (fun _ _ => True) handed :=
  wp_of_asks h.asks (fun _ hq _ hreplaces => absurd hreplaces hq) handed

theorem late_finish {jobName : Bytes} {c : Credentials} (handed : Bool) :
    wp final (finish runID commit region jobName c : Prog Ask Answer (Except Failure Unit)) (fun _ _ => True) handed := by
  refine late_first (p := ExceptT.lift (waitForJob jobName runID commit region : Prog Ask Answer (Except Failure Unit)))
    (late_waitForJob.bind fun _ => trivial) (fun waited t => ?_) handed
  cases waited with
  | error e => exact wp_late ((simple_ask id).bindE fun _ => (late_writeLogs _ _).bindE fun _ => .throw _) t
  | ok u =>
    refine wp_late ((simple_during (late_run _)).bindE fun _ => (late_writeLogs _ _).bindE fun _ => (simple_ask id).bindE fun written => ?_) t
    split
    · exact .pure _
    · exact .throw _

/-- **Nobody replaces a receipt whose credentials were handed over.** -/
theorem wp_run_final : wp final (run sha256 runID commit region : Prog Ask Answer (Except Failure Unit)) (fun _ _ => True) false := by
  refine early_first (early_quiet (simple_validateRun _ _ _)) fun packet => early_first (early_quiet (simple_readTargets _ _)) fun targets => ?_
  refine early_first (early_quiet (simple_verifyCluster _)) fun _ => early_first (early_quiet (simple_during (simple_runtimeValue _))) fun runtime => ?_
  refine early_first (early_quiet simple_require) fun _ => early_first (early_quiet (simple_controllerActive _ _ _)) fun _ => ?_
  exact early_first early_collect fun c => late_first late_install.asks (fun jobName handed => late_finish handed) false

theorem after_final {es : List (Event Answer)} : final.after true es = true := by
  induction es with
  | nil => rfl
  | cons e es ih =>
    rw [Monitor.after_cons]
    exact ih

/-- What is not renamed stays. -/
theorem disk_after {s : Watch} {es : List (Event Answer)} (h : ∀ e ∈ es, ¬ Replaces e.ask) :
    ((rules sha256 runID commit region).after s es).disk = s.disk := by
  induction es generalizing s with
  | nil => rfl
  | cons e es ih =>
    rw [Monitor.after_cons, ih fun e' he' => h e' (List.mem_cons_of_mem e he')]
    obtain ⟨q, r⟩ := e
    cases q with
    | rename path => exact absurd trivial (h _ List.mem_cons_self)
    | _ => rfl

/-- **The receipt is final** once the credentials were handed over. -/
theorem disk_handed {disk : Option Bytes} {es es' : List (Event Answer)} {manifest : Bytes} {r : Answer (.run (.applySecret manifest))}
    {p' : Prog Ask Answer (Except Failure Unit)}
    (h : Reaches (run sha256 runID commit region : Prog Ask Answer (Except Failure Unit)) (es ++ ⟨.run (.applySecret manifest), r⟩ :: es') p') :
    (Watch.after sha256 runID commit region disk (es ++ ⟨.run (.applySecret manifest), r⟩ :: es')).disk =
      (Watch.after sha256 runID commit region disk es).disk := by
  have hnone : ∀ e ∈ (⟨.run (.applySecret manifest), r⟩ : Event Answer) :: es', ¬ Replaces e.ask := by
    intro e he hreplaces
    rcases List.mem_cons.mp he with rfl | he
    · exact hreplaces
    · obtain ⟨before, after, rfl⟩ := List.append_of_mem he
      have hreach : Reaches (run sha256 runID commit region : Prog Ask Answer (Except Failure Unit))
          ((es ++ ⟨.run (.applySecret manifest), r⟩ :: before) ++ e :: after) p' := by
        rw [List.append_assoc]
        exact h
      -- the monitor was told, so the question is not allowed
      have hhanded : final.after false (es ++ ⟨.run (.applySecret manifest), r⟩ :: before) = true := by
        rw [Monitor.after_append, Monitor.after_cons]
        have hnext : final.next (final.after false es) (.run (.applySecret manifest)) r = true := Bool.or_true _
        rw [hnext]
        exact after_final
      have hallowed := allowed_of_reaches hreach wp_run_final hreplaces
      rw [hhanded] at hallowed
      cases hallowed
  unfold Watch.after
  rw [Monitor.after_append]
  exact disk_after hnone

end Final

/-! ## The publication -/

section Publication

variable {sha256 : Hash} {runID commit region : Bytes}

theorem entriesOf_dict (s : SecretScan) : entriesOf s.dict = some (s.entries.map ScanEntry.read) := by
  show (s.entries.map fun e => Value.dict e.dict).mapM readEntry = _
  rw [List.mapM_map]
  refine (List.mapM_pure (m := Option) (f := ScanEntry.read)).symm ▸ congrArg (fun f => s.entries.mapM f) ?_
  funext e
  exact readEntry_dict e

/-- Where a form of a recorded value is, there is a leak. -/
theorem leaks_of_form {values : List (Bytes × Bytes)} {entries : List ScanEntry} (h : Records sha256 values entries) {named : Bytes × Bytes}
    (hnamed : named ∈ values) {form : Form} {text : Bytes} (hoccurs : form.text named.2 <:+: text) :
    Leaks (fun b => chars (hexDigest sha256 b)) (entries.map ScanEntry.read) text :=
  ⟨_, List.mem_map_of_mem (h.mem hnamed form), _, hoccurs, rfl, rfl⟩

theorem isRunID_of_checked {past : List (Event Answer)} (h : Checked runID commit region past) : isRunID runID = true := by
  obtain ⟨_, look, deadline, -, hruns⟩ := h
  obtain ⟨_, raw, _, -, hraw, -⟩ := runs_bindE (simple_evidenceDirectory runID).straight hruns
  exact (runs_require hraw).1

/-- A run that does anything is one of a commit. -/
theorem isCommit_of_reaches {e : Event Answer} {es es' : List (Event Answer)} {p' : Prog Ask Answer (Except Failure Unit)}
    (h : Reaches (run sha256 runID commit region : Prog Ask Answer (Except Failure Unit)) (es ++ e :: es') p') : isCommit commit = true := by
  by_contra hcommit
  have hrun : (run sha256 runID commit region : Prog Ask Answer (Except Failure Unit)) =
      Prog.pure (Except.error (Failure.own (ascii "AWS_APPROVED_COMMIT must be a full lowercase git SHA"))) := by
    unfold run validateRun App.require
    rw [if_neg hcommit]
    rfl
  rw [hrun] at h
  generalize hes : es ++ e :: es' = all at h
  cases h with
  | refl => simp at hes
  | step he _ => cases he

/-- **No credential is published.**  After a run that put the credentials into the cluster, however it went on and ended, the
script accepts only publications of which no file but a screenshot has a form of one of the three credentials in it, nor in
anything that can be taken out of it.  The credentials are those the run was answered before it put them there. -/
theorem publication_clean {disk : Option Bytes} {es es' : List (Event Answer)} {manifest : Bytes} {r : Answer (.run (.applySecret manifest))}
    {p' : Prog Ask Answer (Except Failure Unit)}
    (h : Reaches (run sha256 runID commit region : Prog Ask Answer (Except Failure Unit)) (es ++ ⟨.run (.applySecret manifest), r⟩ :: es') p')
    {data : Bytes} (hdisk : (Watch.after sha256 runID commit region disk (es ++ ⟨.run (.applySecret manifest), r⟩ :: es')).disk = some data)
    {dir : Directory} {path error scanHash : Str} {fuel : Nat} {directory : Artifacts} {names : List Str} {published : Py Dict}
    (haccepted : verifySecretPublication (fun b => chars (hexDigest sha256 b)) fuel (withReceipt dir path error data) (chars runID) directory names
      published scanHash = some (.ok ())) :
    ∃ credentials : Credentials, manifest = secretManifest credentials.database credentials.signing ∧ Supplied es credentials ∧
      ∀ name ∈ names, hasExtension ".png" name = false → ∀ named ∈ credentials.values, ∀ (form : Form) (text : Bytes),
        Relation.ReflTransGen Carries (directory name).content text → ¬ form.text named.2 <:+: text := by
  have hrule := rule_of_reaches disk h
  obtain ⟨credentials, ⟨receipt, ⟨htext, hofRun⟩, -, hrecords, hsupplied⟩, hmanifest⟩ := hrule.2
  have hpast : (Watch.after sha256 runID commit region disk es).past = es := past_after (Watch.start disk)
  refine ⟨credentials, hmanifest, hpast ▸ hsupplied, fun name hname hpng named hnamed form text hcarried hoccurs => ?_⟩
  -- what is on disk now is the receipt of then
  rw [disk_handed h, htext] at hdisk
  obtain rfl := Option.some.inj hdisk
  have hregular := (regular_of_ofRun (isRunID_of_checked (hrule.1 rfl)) (isCommit_of_reaches h) hofRun).1
  obtain ⟨scan, entries, hload, hentries, hscanned⟩ := scanned_of_publication haccepted
  have hread : readJsonObject path (lit "secret scan") error receipt.text = .ok scan := (read_of_loadSecretScan hload).1
  obtain rfl := Except.ok.inj ((SecretScan.readJsonObject_text hregular.alike _ _ _).symm.trans hread)
  rw [entriesOf_dict] at hentries
  obtain rfl := Option.some.inj hentries
  exact clean_of_scan (hscanned name hname hpng) hcarried (leaks_of_form hrecords hnamed hoccurs)

/-- A text shorter than every credential matches none. -/
theorem findMatch_short {hexdigest : Bytes → Str} {entries : List Evidence.ScanEntry} {value : Bytes}
    (hshort : ∀ entry ∈ entries, (value.length : ℤ) < entry.byteLength) : findMatch hexdigest (byLength entries) value = none := by
  by_contra hmatch
  obtain ⟨name, hname⟩ := Option.ne_none_iff_exists'.mp hmatch
  have hpos : ∀ entry ∈ entries, 0 ≤ entry.byteLength := fun entry hentry => by
    have hlong := hshort entry hentry
    omega
  obtain ⟨entry, hentry, -, entry', hentry', window, hoccurs, hlength, -⟩ := leak_of_findMatch hpos hname
  obtain rfl := List.mem_singleton.mp hentry'
  have hlong := hshort entry' hentry
  have hwindow := hoccurs.length_le
  omega

/-- Such a text is taken apart. -/
theorem visitText_short {hexdigest : Bytes → Str} {entries : List Evidence.ScanEntry} {filename : Str} {s : Scanned} {x : Pending}
    {found : List (List Pending)} (hshort : ∀ entry ∈ entries, (x.1.length : ℤ) < entry.byteLength) (hnew : s.scanned.contains x.1 = false)
    (htotal : s.total + x.1.length ≤ 32 * 1024 * 1024) (hfound : (x.1 :: splitlines x.1).mapM (lineCarriers x.2) = .ok found) :
    visitText hexdigest (byLength entries) filename s x = .ok (⟨x.1 :: s.scanned, s.total + x.1.length⟩, found.flatten) := by
  unfold visitText
  rw [hnew, if_neg Bool.false_ne_true, bind_of_eq_ok (require_pos htotal), findMatch_short hshort, hfound]
  rfl

end Publication

namespace Rehearsal

/-- The rehearsal, up to where the credentials go into the cluster and from there. -/
theorem exists_handed : ∃ es es' manifest r p',
    Reaches (run flatHash runID commit region : Prog Ask Answer (Except Failure Unit))
      (es ++ ⟨.run (.applySecret manifest), r⟩ :: es') p' ∧
    (es ++ (⟨.run (.applySecret manifest), r⟩ : Event Answer) :: es').all sameSession = true := by
  obtain ⟨all, p', hreach, -, happlies, -, -, hsession⟩ := exists_run
  obtain ⟨es, ⟨q, r⟩, es', rfl, he⟩ := exists_split happlies
  cases q with
  | run c =>
    cases c with
    | applySecret manifest => exact ⟨es, es', manifest, r, p', hreach, hsession⟩
    | _ => cases he
  | _ => cases he

/-- A file of one line, a list of one string. -/
def listFile : Bytes := ascii "[\"ok\"]\n"

/-- The scan accepts it, whatever the credentials: the list is looked at and then the string in it. -/
theorem scan_listFile {hexdigest : Bytes → Str} {entries : List Evidence.ScanEntry} (hlong : ∀ entry ∈ entries, 16 ≤ entry.byteLength)
    (filename : Str) : scanSecretBytes hexdigest 3 listFile entries filename = some (.ok ()) := by
  have hshort : ∀ {value : Bytes}, value.length < 16 → ∀ entry ∈ entries, (value.length : ℤ) < entry.byteLength :=
    fun hvalue entry hentry => lt_of_lt_of_le (by exact_mod_cast hvalue) (hlong entry hentry)
  have hlist : visitText hexdigest (byLength entries) filename ⟨[], 0⟩ (listFile, 0) =
      .ok (⟨[listFile], 7⟩, [(ascii "ok", 1), (ascii "ok", 1)]) := by
    have hfound : (listFile :: splitlines listFile).mapM (lineCarriers 0) = .ok [[(ascii "ok", 1)], [(ascii "ok", 1)]] := by
      decide +kernel
    exact visitText_short (x := (listFile, 0)) (hshort (by decide)) rfl (by decide) hfound
  have hstring : visitText hexdigest (byLength entries) filename ⟨[listFile], 7⟩ (ascii "ok", 1) =
      .ok (⟨[ascii "ok", listFile], 9⟩, []) := by
    have hfound : (ascii "ok" :: splitlines (ascii "ok")).mapM (lineCarriers 1) = .ok [[], []] := by decide +kernel
    exact visitText_short (x := (ascii "ok", 1)) (hshort (by decide)) (by decide) (by decide) hfound
  have hagain : visitText hexdigest (byLength entries) filename ⟨[ascii "ok", listFile], 9⟩ (ascii "ok", 1) =
      .ok (⟨[ascii "ok", listFile], 9⟩, []) := by
    unfold visitText
    rw [if_pos (by decide)]
    rfl
  have hstack : ([(ascii "ok", 1), (ascii "ok", 1)] : List Pending).reverse ++ [] = [(ascii "ok", 1), (ascii "ok", 1)] := rfl
  rw [scanSecretBytes, if_neg (by decide), drain_cons_ok hlist, hstack, drain_cons_ok hstring, List.reverse_nil, List.nil_append,
    drain_cons_ok hagain, List.reverse_nil, List.nil_append, drain_nil]
  rfl

/-- The list carries the string. -/
theorem carries_listFile : Carries listFile (ascii "ok") := by
  have hfound : lineCarriers 0 listFile = .ok [(ascii "ok", 1)] := by decide +kernel
  obtain ⟨-, v, hread, hholds⟩ := (mem_lineCarriers hfound (ascii "ok", 1)).mp List.mem_cons_self
  exact ⟨listFile, List.mem_cons_self, v, hread, hholds⟩

end Rehearsal

/-- In the rehearsal a file is published that carries another text. -/
theorem publication_clean_rehearsal : ∃ es es' manifest r p',
    Reaches (run Rehearsal.flatHash Rehearsal.runID Rehearsal.commit Rehearsal.region : Prog Ask Answer (Except Failure Unit))
      (es ++ ⟨.run (.applySecret manifest), r⟩ :: es') p' ∧ Carries Rehearsal.listFile (ascii "ok") ∧
    ∃ credentials : Credentials, manifest = secretManifest credentials.database credentials.signing ∧ Supplied es credentials ∧
      ∀ name ∈ [lit "notes.json"], hasExtension ".png" name = false → ∀ named ∈ credentials.values, ∀ (form : Form) (text : Bytes),
        Relation.ReflTransGen Carries Rehearsal.listFile text → ¬ form.text named.2 <:+: text := by
  obtain ⟨es, es', manifest, r, p', hreach, hsession⟩ := Rehearsal.exists_handed
  refine ⟨es, es', manifest, r, p', hreach, Rehearsal.carries_listFile, ?_⟩
  -- the receipt that is on disk when the credentials are handed over
  have hrule := rule_of_reaches none hreach
  obtain ⟨-, ⟨receipt, ⟨htext, hofRun⟩, hstate, -⟩, -⟩ := hrule.2
  have hpast : (Watch.after Rehearsal.flatHash Rehearsal.runID Rehearsal.commit Rehearsal.region none es).past = es :=
    past_after (Watch.start none)
  rw [List.all_append, Bool.and_eq_true] at hsession
  have hsame := Rehearsal.session_of_sameSession hsession.1
  rw [← hpast] at hsame
  -- the evidence script loads it as complete, and accepts the file under it
  have hload := (loads_of_ofRun (by decide) Rehearsal.knownTo_directory hsame hofRun [] [] true).mpr fun _ => hstate
  have hregular := (regular_of_ofRun (by decide) (by decide) hofRun).1
  have hlong : ∀ entry ∈ receipt.entries.map ScanEntry.read, 16 ≤ entry.byteLength := by
    intro entry hentry
    obtain ⟨e, he, rfl⟩ := List.mem_map.mp hentry
    have hlength := (hregular.entries e he).length.1
    show (16 : ℤ) ≤ e.length
    omega
  have haccepted : verifySecretPublication (fun b => chars (hexDigest Rehearsal.flatHash b)) 3
      (withReceipt Rehearsal.directory [] [] receipt.text) (chars Rehearsal.runID) (fun _ => ⟨false, true, 7, Rehearsal.listFile⟩)
      [lit "notes.json"] (.ok [(lit "secret_scan_sha256", .str [])]) [] = some (.ok ()) := by
    unfold verifySecretPublication
    rw [hload]
    dsimp only
    rw [entriesOf_dict]
    show scanSecretFiles _ 3 _ _ _ = _
    unfold scanSecretFiles scanSecretFile
    rw [if_neg (by decide), if_neg (by decide), Rehearsal.scan_listFile hlong]
    rfl
  exact publication_clean hreach ((disk_handed hreach).trans htext) haccepted

end LocalPlatform.Bootstrap
