/-
# LocalPlatform.Bootstrap.Safety — the bootstrap keeps its rules.

Whatever the world answers, and wherever a run is cut off, no rule is broken.  So in every run a command that changes
something comes right after a look at a live controller (`mutation_checked`); a credential is handed over only when the
receipt on disk has the fingerprints of all its forms (`credential_recorded`); and what is written of the logs holds no form
of a credential (`output_clean`).
-/
import LocalPlatform.Bootstrap.Rules

namespace LocalPlatform.Bootstrap

open Codec Logic Prog

/-! ## Programs without a rule -/

namespace App

theorem simple_ask {P : Ask → Prop} {q : Ask} (h : P q) : Simple P (ask q : Prog Ask Answer (Except Failure (Answer q))) :=
  (Simple.question h).lift

theorem simple_require {P : Ask → Prop} {p : Prop} {inst : Decidable p} {text : String} :
    Simple P (@require p inst text : Prog Ask Answer (Except Failure Unit)) := by
  unfold App.require
  split
  · exact .pure _
  · exact .throw _

theorem simple_succeeded {P : Ask → Prop} (ok : Bool) : Simple P (succeeded ok : Prog Ask Answer (Except Failure Unit)) := by
  unfold succeeded
  split
  · exact .pure _
  · exact .throw _

theorem simple_decoded {P : Ask → Prop} {α : Type} (e : Failure) (o : Option α) :
    Simple P (decoded e o : Prog Ask Answer (Except Failure α)) := by
  cases o with
  | none => exact .throw _
  | some a => exact .pure _

theorem simple_during {P : Ask → Prop} {α : Type} {what : String} {p : App α} (hp : Simple P (p : Prog Ask Answer (Except Failure α))) :
    Simple P (during what p : Prog Ask Answer (Except Failure α)) := hp.tryE fun _ => .throw _

theorem simple_run {c : Command} (h : c.mutates = false) : Simple Quiet (run c : Prog Ask Answer (Except Failure Bytes)) := by
  refine Simple.bindE (simple_ask (P := Quiet) h) fun r => ?_
  cases r with
  | ok out => exact .pure _
  | error stderr => exact .throw _

end App

open App

theorem simple_checkPath (path : Path) : Simple Quiet (checkPath path : Prog Ask Answer (Except Failure Unit)) := by
  refine (simple_ask trivial).bindE fun info => ?_
  cases info with
  | ok info =>
    dsimp only
    split
    · exact .throw _
    · exact .pure _
  | error e =>
    cases e with
    | notExist => exact .pure _
    | other => exact .throw _

theorem simple_evidenceDirectory (runID : Bytes) : Simple Quiet (evidenceDirectory runID : Prog Ask Answer (Except Failure Path)) :=
  simple_require.bindE fun _ => (simple_checkPath _).bindE fun _ => (simple_checkPath _).bindE fun _ =>
    (simple_checkPath _).bindE fun _ => .pure _

theorem simple_readJSON {σ : Type} (decode : Bytes → Option σ) (path : Path) (description : String) :
    Simple Quiet (readJSON decode path description : Prog Ask Answer (Except Failure σ)) := by
  refine (simple_ask trivial).bindE fun info => ?_
  cases info with
  | error e => exact .throw _
  | ok info =>
    dsimp only
    split
    · exact .throw _
    · refine (simple_ask trivial).bindE fun value => ?_
      cases value with
      | none => exact .throw _
      | some value => exact simple_decoded _ _

theorem simple_parseUTC (value : Bytes) (name : String) : Simple Quiet (parseUTC value name : Prog Ask Answer (Except Failure Time)) := by
  unfold parseUTC
  split
  · exact .pure _
  · exact .throw _

theorem simple_isProcessRunning (pid : Int) : Simple Quiet (isProcessRunning pid : Prog Ask Answer (Except Failure Bool)) := by
  unfold isProcessRunning
  split
  · exact .pure _
  · refine (simple_ask trivial).bindE fun killed => ?_
    cases killed with
    | ok u => exact .pure _
    | error e => cases e <;> exact .pure _

theorem simple_activeController (runID commit region : Bytes) :
    Simple Quiet (activeController runID commit region : Prog Ask Answer (Except Failure Time)) :=
  (simple_evidenceDirectory _).bindE fun _ => (simple_readJSON _ _ _).bindE fun _ => (simple_parseUTC _ _).bindE fun _ =>
    (simple_ask trivial).bindE fun _ => simple_require.bindE fun _ => (simple_isProcessRunning _).bindE fun _ =>
    simple_require.bindE fun _ => (simple_readJSON _ _ _).bindE fun _ => (simple_parseUTC _ _).bindE fun _ =>
    simple_require.bindE fun _ => (simple_ask trivial).bindE fun _ => simple_require.bindE fun _ => .pure _

theorem simple_validateRun (runID commit region : Bytes) :
    Simple Quiet (validateRun runID commit region : Prog Ask Answer (Except Failure GoPacket)) :=
  simple_require.bindE fun _ => simple_require.bindE fun _ => (simple_ask trivial).bindE fun _ =>
    simple_require.bindE fun _ => (simple_ask trivial).bindE fun _ => simple_require.bindE fun _ =>
    (simple_evidenceDirectory _).bindE fun _ => (simple_readJSON _ _ _).bindE fun _ => simple_require.bindE fun _ =>
    (simple_readJSON _ _ _).bindE fun _ => simple_require.bindE fun _ => (simple_run rfl).bindE fun _ =>
    simple_require.bindE fun _ => (simple_activeController _ _ _).bindE fun _ => (simple_ask (P := Quiet) (q := .run .revParse) rfl).bindE fun _ =>
    simple_require.bindE fun _ => (simple_run rfl).bindE fun _ => simple_require.bindE fun _ => .pure _

theorem simple_outputText (outputs : TerraformOutputs) (name : String) :
    Simple Quiet (outputText outputs name : Prog Ask Answer (Except Failure Bytes)) := by
  unfold outputText
  split
  · exact .pure _
  · exact .throw _

theorem simple_readTargets (region account : Bytes) : Simple Quiet (readTargets region account : Prog Ask Answer (Except Failure Targets)) :=
  ((simple_run rfl).bindE fun _ => simple_decoded _ _).bindE fun _ => (simple_outputText _ _).bindE fun _ =>
    (simple_outputText _ _).bindE fun _ => (simple_outputText _ _).bindE fun _ => (simple_outputText _ _).bindE fun _ =>
    (simple_outputText _ _).bindE fun _ => simple_require.bindE fun _ => .pure _

theorem simple_verifyCluster (name : Bytes) : Simple Quiet (verifyCluster name : Prog Ask Answer (Except Failure Unit)) :=
  (simple_run rfl).bindE fun _ => (simple_run rfl).bindE fun _ => (simple_decoded _ _).bindE fun _ => simple_require

theorem simple_runtimeValue (path : Path) :
    Simple Quiet (runtimeValue path : Prog Ask Answer (Except Failure (Bytes × RuntimeDocument))) := by
  refine (simple_ask trivial).bindE fun info => ?_
  cases info with
  | error e => exact .throw _
  | ok info =>
    dsimp only
    split
    · exact .throw _
    · exact (simple_ask trivial).bindE fun _ => (simple_decoded _ _).bindE fun _ => (simple_decoded _ _).bindE fun _ =>
        simple_require.bindE fun _ => simple_require.bindE fun _ => .pure _

theorem simple_getSecret (arn : Bytes) (description : String) :
    Simple Quiet (getSecret arn description : Prog Ask Answer (Except Failure Bytes)) :=
  (simple_run rfl).bindE fun _ => simple_decoded _ _

theorem simple_connectionURL (endpoint secretText : Bytes) :
    Simple Quiet (connectionURL endpoint secretText : Prog Ask Answer (Except Failure Bytes)) := by
  unfold connectionURL
  split
  · exact .pure _
  · exact .throw _

theorem simple_controllerActive (runID commit region : Bytes) :
    Simple Quiet (controllerActive runID commit region : Prog Ask Answer (Except Failure Unit)) :=
  (simple_activeController _ _ _).bindE fun _ => .pure _

theorem simple_pollJob (jobName runID commit region : Bytes) :
    Simple Quiet (pollJob jobName runID commit region : Prog Ask Answer (Except Failure Bool)) := by
  refine (simple_during (simple_activeController _ _ _)).bindE fun _ => (simple_during (simple_run rfl)).bindE fun _ =>
    (simple_decoded _ _).bindE fun conditions => ?_
  split
  · exact .pure _
  · exact .throw _
  · refine (simple_ask trivial).bindE fun passed => ?_
    split
    · exact .pure _
    · exact .throw _

/-! ## Steps -/

/-- What holds if there was no error. -/
def Ok {α : Type} (post : α → Watch → Prop) (r : Except Failure α) (t : Watch) : Prop := ∀ a, r = .ok a → post a t

section Steps

variable {sha256 : Hash} {runID commit region : Bytes} {α β : Type} {s : Watch}

theorem seq {p : App α} {f : α → App β} {m : α → Watch → Prop} {post : β → Watch → Prop}
    (hp : wp (rules sha256 runID commit region) (p : Prog Ask Answer (Except Failure α)) (Ok m) s)
    (hf : ∀ a t, m a t → wp (rules sha256 runID commit region) (f a : Prog Ask Answer (Except Failure β)) (Ok post) t) :
    wp (rules sha256 runID commit region) ((p >>= f : App β) : Prog Ask Answer (Except Failure β)) (Ok post) s := by
  refine (wp_bindE _ _ _ _).mpr (wp_mono ?_ hp)
  rintro (e | a) t h
  · intro b hb
    cases hb
  · exact hf a t (h a rfl)

theorem ask_seq {q : Ask} {f : Answer q → App β} {post : β → Watch → Prop} (hq : Rule sha256 runID commit region s q)
    (hf : ∀ r, wp (rules sha256 runID commit region) (f r : Prog Ask Answer (Except Failure β)) (Ok post) (s.next q r)) :
    wp (rules sha256 runID commit region) ((ask q >>= f : App β) : Prog Ask Answer (Except Failure β)) (Ok post) s := by
  refine (wp_bindE _ _ _ _).mpr ((wp_liftE _ _ _).mpr ⟨hq, fun r => ?_⟩)
  exact hf r

theorem quiet_seq {p : App α} {f : α → App β} {post : β → Watch → Prop} (hp : Simple Quiet (p : Prog Ask Answer (Except Failure α)))
    (hf : ∀ a t, Onward s t → wp (rules sha256 runID commit region) (f a : Prog Ask Answer (Except Failure β)) (Ok post) t) :
    wp (rules sha256 runID commit region) ((p >>= f : App β) : Prog Ask Answer (Except Failure β)) (Ok post) s :=
  seq (m := fun _ t => Onward s t) (wp_mono (fun _ _ h _ _ => h.1) (wp_quiet hp s)) hf

theorem require_seq {p : Prop} {inst : Decidable p} {text : String} {f : Unit → App β} {post : β → Watch → Prop}
    (hf : p → wp (rules sha256 runID commit region) (f () : Prog Ask Answer (Except Failure β)) (Ok post) s) :
    wp (rules sha256 runID commit region) ((@require p inst text >>= f : App β) : Prog Ask Answer (Except Failure β)) (Ok post) s := by
  refine seq (m := fun _ t => p ∧ t = s) ?_ fun _ t h => h.2 ▸ hf h.1
  unfold App.require
  split
  · next hp => exact fun _ _ => ⟨hp, rfl⟩
  · exact fun _ h => by cases h

theorem succeeded_seq {ok : Bool} {f : Unit → App β} {post : β → Watch → Prop}
    (hf : ok = true → wp (rules sha256 runID commit region) (f () : Prog Ask Answer (Except Failure β)) (Ok post) s) :
    wp (rules sha256 runID commit region) ((succeeded ok >>= f : App β) : Prog Ask Answer (Except Failure β)) (Ok post) s := by
  refine seq (m := fun _ t => ok = true ∧ t = s) ?_ fun _ t h => h.2 ▸ hf h.1
  unfold succeeded
  split
  · next hp => exact fun _ _ => ⟨hp, rfl⟩
  · exact fun _ h => by cases h

theorem decoded_seq {e : Failure} {o : Option α} {f : α → App β} {post : β → Watch → Prop}
    (hf : ∀ a, o = some a → wp (rules sha256 runID commit region) (f a : Prog Ask Answer (Except Failure β)) (Ok post) s) :
    wp (rules sha256 runID commit region) ((decoded e o >>= f : App β) : Prog Ask Answer (Except Failure β)) (Ok post) s := by
  refine seq (m := fun a t => o = some a ∧ t = s) ?_ fun a t h => h.2 ▸ hf a h.1
  cases o with
  | none => exact fun _ h => by cases h
  | some a => exact fun _ h => ⟨congrArg some (Except.ok.inj h), rfl⟩

theorem outputText_seq {outputs : TerraformOutputs} {name : String} {f : Bytes → App β} {post : β → Watch → Prop}
    (hf : ∀ value, outputs.text name = .ok value →
      wp (rules sha256 runID commit region) (f value : Prog Ask Answer (Except Failure β)) (Ok post) s) :
    wp (rules sha256 runID commit region) ((outputText outputs name >>= f : App β) : Prog Ask Answer (Except Failure β)) (Ok post) s := by
  refine seq (m := fun value t => outputs.text name = .ok value ∧ t = s) ?_ fun value t h => h.2 ▸ hf value h.1
  unfold outputText
  split
  · next value hvalue => exact fun _ h => ⟨hvalue.trans (congrArg Except.ok (Except.ok.inj h)), rfl⟩
  · exact fun _ h => by cases h

theorem connectionURL_seq {endpoint secretText : Bytes} {f : Bytes → App β} {post : β → Watch → Prop}
    (hf : ∀ url, databaseURL endpoint secretText = .ok url →
      wp (rules sha256 runID commit region) (f url : Prog Ask Answer (Except Failure β)) (Ok post) s) :
    wp (rules sha256 runID commit region) ((connectionURL endpoint secretText >>= f : App β) : Prog Ask Answer (Except Failure β))
      (Ok post) s := by
  refine seq (m := fun url t => databaseURL endpoint secretText = .ok url ∧ t = s) ?_ fun url t h => h.2 ▸ hf url h.1
  unfold connectionURL
  split
  · next url hurl => exact fun _ h => ⟨hurl.trans (congrArg Except.ok (Except.ok.inj h)), rfl⟩
  · exact fun _ h => by cases h

/-- Whatever is done, what was seen before is still at the front of what was seen. -/
theorem wp_grown {p : App α} {m : α → Watch → Prop}
    (hp : wp (rules sha256 runID commit region) (p : Prog Ask Answer (Except Failure α)) (Ok m) s) :
    wp (rules sha256 runID commit region) (p : Prog Ask Answer (Except Failure α)) (Ok fun a t => m a t ∧ s.past <+: t.past) s := by
  have hgrown := wp_stable (I := fun t : Watch => s.past <+: t.past)
    (fun t q r ht => ht.trans (past_next t q r ▸ List.prefix_append _ _)) hp List.prefix_rfl
  exact wp_mono (fun _ _ h a ha => ⟨h.1 a ha, h.2⟩) hgrown

/-- A result comes through what is said of an error. -/
theorem wp_during {what : String} {p : App α} {post : α → Watch → Prop}
    (hp : wp (rules sha256 runID commit region) (p : Prog Ask Answer (Except Failure α)) (Ok post) s) :
    wp (rules sha256 runID commit region) (during what p : Prog Ask Answer (Except Failure α)) (Ok post) s := by
  refine (wp_tryE _ _ _ _).mpr (wp_mono ?_ hp)
  rintro (e | a) t h
  · exact fun _ hb => by cases hb
  · exact h

/-- After a look at the controller that found it alive, that is the last thing that was done. -/
theorem wp_controllerActive : wp (rules sha256 runID commit region) (controllerActive runID commit region : Prog Ask Answer (Except Failure Unit))
    (Ok fun _ t => Onward s t ∧ Checked runID commit region t.past) s := by
  refine seq (m := fun deadline t => Onward s t ∧ ∃ es, t.past = s.past ++ es ∧
    Runs (activeController runID commit region) es (.ok deadline)) (wp_mono ?_ (wp_quiet (simple_activeController runID commit region) s)) ?_
  · rintro r t ⟨honward, es, hpast, hruns⟩ a rfl
    exact ⟨honward, es, hpast, hruns⟩
  · rintro deadline t ⟨honward, es, hpast, hruns⟩ _ _
    exact ⟨honward, s.past, es, deadline, hpast, hruns⟩

/-- A command that changes nothing, and what it answered. -/
theorem wp_run_quiet {c : Command} (h : c.mutates = false) :
    wp (rules sha256 runID commit region) (App.run c : Prog Ask Answer (Except Failure Bytes))
      (Ok fun out t => Onward s t ∧ (⟨.run c, .ok out⟩ : Event Answer) ∈ t.past) s := by
  have hquiet : Quiet (.run c) := h
  refine ask_seq (allowed_of_quiet hquiet s) fun r => ?_
  cases r with
  | ok out =>
    rintro out' hout
    obtain rfl := Except.ok.inj hout
    exact ⟨⟨List.prefix_append _ _, rfl⟩, List.mem_append_right _ (List.mem_singleton_self _)⟩
  | error stderr => exact fun _ h => by cases h

/-- A secret that is read. -/
theorem wp_getSecret {arn : Bytes} {description : String} :
    wp (rules sha256 runID commit region) (getSecret arn description : Prog Ask Answer (Except Failure Bytes))
      (Ok fun value t => Onward s t ∧ SecretRead t.past arn value) s := by
  refine seq (wp_run_quiet rfl) fun out t hout => ?_
  cases hparse : parseSecret out with
  | none => exact fun _ h => by cases h
  | some value =>
    rintro value' hvalue
    obtain rfl := Except.ok.inj hvalue
    exact ⟨hout.1, out, hout.2, hparse⟩

/-- The outputs that are read are what the targets are made of. -/
theorem wp_readTargets {account : Bytes} :
    wp (rules sha256 runID commit region) (readTargets region account : Prog Ask Answer (Except Failure Targets))
      (Ok fun targets t => Onward s t ∧ targets.Told t.past) s := by
  refine seq (m := fun outputs t => Onward s t ∧ ∃ out, (⟨.run .terraformOutput, .ok out⟩ : Event Answer) ∈ t.past ∧
    TerraformOutputs.decode out = some outputs) ?_ fun outputs t houtputs => ?_
  · refine seq (wp_run_quiet rfl) fun out t hout => ?_
    cases hdecode : TerraformOutputs.decode out with
    | none => exact fun _ h => by cases h
    | some outputs =>
      rintro outputs' houtputs
      obtain rfl := Except.ok.inj houtputs
      exact ⟨hout.1, out, hout.2, hdecode⟩
  · obtain ⟨honward, out, hout, hdecode⟩ := houtputs
    refine outputText_seq fun _ _ => outputText_seq fun _ _ => outputText_seq fun endpoint hendpoint => outputText_seq fun rds hrds =>
      outputText_seq fun signing hsigning => require_seq fun _ => ?_
    rintro targets htargets
    obtain rfl := Except.ok.inj htargets
    exact ⟨honward, out, outputs, hout, hdecode, hendpoint, hrds, hsigning⟩

/-- A command that changes something, after such a look. -/
theorem wp_run_checked {c : Command} (hchecked : Checked runID commit region s.past) (hreleased : Released sha256 runID commit s c) :
    wp (rules sha256 runID commit region) (App.run c : Prog Ask Answer (Except Failure Bytes)) (Ok fun _ t => Onward s t) s := by
  refine ask_seq ⟨fun _ => hchecked, hreleased⟩ fun r => ?_
  have honward : Onward s (s.next (.run c) r) := ⟨List.prefix_append _ _, rfl⟩
  cases r with
  | ok out => exact fun _ _ => honward
  | error stderr => exact fun _ h => by cases h

end Steps

/-! ## Receipts -/

section Receipts

variable {sha256 : Hash} {runID commit region : Bytes} {s : Watch}

/-- What was read stays read. -/
theorem SecretRead.mono {past past' : List (Event Answer)} {arn value : Bytes} (h : SecretRead past arn value) (hle : past <+: past') :
    SecretRead past' arn value := by
  obtain ⟨out, hout, hparse⟩ := h
  exact ⟨out, hle.subset hout, hparse⟩

theorem Targets.Told.mono {past past' : List (Event Answer)} {targets : Targets} (h : targets.Told past) (hle : past <+: past') :
    targets.Told past' := by
  obtain ⟨out, outputs, hout, htexts⟩ := h
  exact ⟨out, outputs, hle.subset hout, htexts⟩

theorem Supplied.mono {past past' : List (Event Answer)} {c : Credentials} (h : Supplied past c) (hle : past <+: past') :
    Supplied past' c := by
  obtain ⟨targets, htold, hsigning, value, credential, hvalue, hcredential⟩ := h
  exact ⟨targets, htold.mono hle, hsigning.mono hle, value, credential, hvalue.mono hle, hcredential⟩

theorem OfRun.mono {past past' : List (Event Answer)} {receipt : SecretScan} (h : OfRun sha256 runID commit past receipt)
    (hle : past <+: past') : OfRun sha256 runID commit past' receipt := by
  obtain ⟨data, hdata, hhash⟩ := h.session
  obtain ⟨values, hrecords, hnames, hcomplete⟩ := h.records
  refine ⟨h.run, ⟨data, hle.subset hdata, hhash⟩, h.started, values, hrecords, hnames, fun hstate => ?_⟩
  obtain ⟨c, hvalues, hsupplied⟩ := hcomplete hstate
  exact ⟨c, hvalues, hsupplied.mono hle⟩

theorem OnDisk.onward {receipt : SecretScan} {t : Watch} (h : OnDisk sha256 runID commit s receipt) (ht : Onward s t) :
    OnDisk sha256 runID commit t receipt := ⟨ht.disk.trans h.1, h.2.mono ht.past⟩

theorem Fingerprinted.onward {c : Credentials} {t : Watch} (h : Fingerprinted sha256 runID commit s c) (ht : Onward s t) :
    Fingerprinted sha256 runID commit t c := by
  obtain ⟨receipt, hdisk, hstate, hrecords, hsupplied⟩ := h
  exact ⟨receipt, hdisk.onward ht, hstate, hrecords, hsupplied.mono ht.past⟩

/-- What may be handed over may be later. -/
theorem Released.onward {c : Command} {t : Watch} (h : Released sha256 runID commit s c) (ht : Onward s t) :
    Released sha256 runID commit t c := by
  cases c with
  | putSecret arn secret =>
    obtain ⟨receipt, hdisk, hforms⟩ := h
    exact ⟨receipt, hdisk.onward ht, hforms⟩
  | applySecret manifest =>
    obtain ⟨c, hc, hmanifest⟩ := h
    exact ⟨c, hc.onward ht, hmanifest⟩
  | _ => trivial

theorem written_seq {β : Type} {ok : Bool} {f : Unit → App β} {post : β → Watch → Prop}
    (hf : ok = true → wp (rules sha256 runID commit region) (f () : Prog Ask Answer (Except Failure β)) (Ok post) s) :
    wp (rules sha256 runID commit region) ((writtenOrClosed ok >>= f : App β) : Prog Ask Answer (Except Failure β)) (Ok post) s := by
  refine seq (m := fun _ t => ok = true ∧ t = s) ?_ fun _ t h => h.2 ▸ hf h.1
  unfold writtenOrClosed
  split
  · next hok => exact fun _ _ => ⟨hok, rfl⟩
  · exact ask_seq trivial fun _ _ h => by cases h

/-- The rest of a save: what is renamed is what was written. -/
theorem wp_saveTemp {receipt : SecretScan} (h : OfRun sha256 runID commit s.past receipt) :
    wp (rules sha256 runID commit region) (saveTemp receipt : Prog Ask Answer (Except Failure Unit))
      (Ok fun _ t => s.past <+: t.past ∧ t.disk = some receipt.text) s := by
  refine ask_seq trivial fun written => written_seq fun hwritten => ask_seq trivial fun synced => written_seq fun _ =>
    ask_seq trivial fun closed => succeeded_seq fun _ => ?_
  obtain rfl : written = true := hwritten
  have hpast : s.past <+: (((s.next (.writeTemp receipt.text) true).next .syncTemp synced).next .closeTemp closed).past :=
    ((List.prefix_append _ _).trans (List.prefix_append _ _)).trans (List.prefix_append _ _)
  refine ask_seq ⟨by rw [h.run.1], receipt, rfl, h.mono hpast⟩ fun renamed => ?_
  unfold succeeded
  split
  · next hrenamed =>
    obtain rfl : renamed = true := hrenamed
    exact fun _ _ => ⟨hpast.trans (List.prefix_append _ _), rfl⟩
  · exact fun _ h => by cases h

/-- **A save** that succeeds has put the receipt in place. -/
theorem wp_save {receipt : SecretScan} (h : OfRun sha256 runID commit s.past receipt) :
    wp (rules sha256 runID commit region) (save receipt : Prog Ask Answer (Except Failure Unit))
      (Ok fun _ t => s.past <+: t.past ∧ t.disk = some receipt.text) s := by
  refine ask_seq trivial fun created => succeeded_seq fun _ => ?_
  have hstart : s.past <+: (s.next .createTemp created).past := List.prefix_append _ _
  refine (wp_bindE _ _ _ _).mpr ((wp_liftE _ _ _).mpr (wp_mono ?_ (wp_saveTemp (h.mono hstart))))
  rintro r t hsaved
  refine ask_seq trivial fun removed => ?_
  cases r with
  | error e => exact fun _ h => by cases h
  | ok u =>
    obtain ⟨hpast, hdisk⟩ := hsaved u rfl
    exact fun _ _ => ⟨(hstart.trans hpast).trans (List.prefix_append _ _), hdisk⟩

/-- The forms of one value more. -/
theorem OfRun.record {receipt : SecretScan} {past : List (Event Answer)} (h : OfRun sha256 runID commit past receipt)
    {values : List (Bytes × Bytes)} (hrecords : Records sha256 values receipt.entries) {name value : Bytes}
    (hnames : (values ++ [(name, value)]).map Prod.fst <+: credentialNames) (hstate : receipt.state = .collecting)
    (hlength : 16 ≤ value.length ∧ value.length ≤ 4096) {order : List Form} (horder : order.Perm Form.all) :
    OfRun sha256 runID commit past { receipt with entries := receipt.entries ++ order.map (entryOf sha256 name value) } :=
  ⟨h.run, h.session, h.started, _, hrecords.snoc name value horder hlength, hnames,
    fun hcomplete => absurd (hstate.symm.trans hcomplete) (by decide)⟩

/-- A receipt that collects, is on disk and has these values. -/
structure Collecting (sha256 : Hash) (runID commit : Bytes) (values : List (Bytes × Bytes)) (receipt : SecretScan) (s : Watch) : Prop where
  ofRun : OfRun sha256 runID commit s.past receipt
  state : receipt.state = .collecting
  records : Records sha256 values receipt.entries
  disk : s.disk = some receipt.text

theorem Collecting.onward {values : List (Bytes × Bytes)} {receipt : SecretScan} {t : Watch}
    (h : Collecting sha256 runID commit values receipt s) (ht : Onward s t) : Collecting sha256 runID commit values receipt t :=
  ⟨h.ofRun.mono ht.past, h.state, h.records, ht.disk.trans h.disk⟩

/-- **A record** that succeeds has put the fingerprints of the value in place. -/
theorem wp_record {values : List (Bytes × Bytes)} {receipt : SecretScan} (h : Collecting sha256 runID commit values receipt s)
    {name value : Bytes} (hnames : (values ++ [(name, value)]).map Prod.fst <+: credentialNames) :
    wp (rules sha256 runID commit region) (receipt.record sha256 name value : Prog Ask Answer (Except Failure SecretScan))
      (Ok fun receipt' t => Collecting sha256 runID commit (values ++ [(name, value)]) receipt' t) s := by
  refine require_seq fun hlength => ask_seq trivial fun order => ?_
  have hpast : s.past <+: (s.next .mapOrder order).past := List.prefix_append _ _
  have hnew := (h.ofRun.mono hpast).record h.records hnames h.state hlength.2 order.2
  refine seq (wp_save hnew) fun _ t ht => ?_
  rintro receipt' hreceipt
  obtain rfl := Except.ok.inj hreceipt
  exact ⟨hnew.mono ht.1, h.state, h.records.snoc name value order.2 hlength.2, ht.2⟩

/-- Every form of a recorded value has an entry. -/
theorem Records.mem {values : List (Bytes × Bytes)} {entries : List ScanEntry} (h : Records sha256 values entries) {name value : Bytes}
    (hvalue : (name, value) ∈ values) (form : Form) : entryOf sha256 name value form ∈ entries := by
  induction h with
  | nil => cases hvalue
  | @snoc values entries _ name' value' order horder _ ih =>
    rcases List.mem_append.mp hvalue with hvalue | hvalue
    · exact List.mem_append_left _ (ih hvalue)
    · cases List.mem_singleton.mp hvalue
      exact List.mem_append_right _ (List.mem_map.mpr ⟨form, horder.mem_iff.mpr (Form.mem_all form), rfl⟩)

end Receipts

/-! ## The parts of a run -/

section Parts

variable {sha256 : Hash} {runID commit region : Bytes} {s : Watch}

/-- The receipt that is opened is empty, and bound to the session that was read. -/
theorem wp_openSecretScan : wp (rules sha256 runID commit region) (openSecretScan sha256 runID commit : Prog Ask Answer (Except Failure SecretScan))
    (Ok fun receipt t => receipt.runID = runID ∧ receipt.commit = commit ∧ receipt.entries = [] ∧ ∃ data : Bytes,
      (⟨.readFile (evidencePath runID ++ [ascii "00-session.json"]), some data⟩ : Event Answer) ∈ t.past ∧
      receipt.sessionHash = hexDigest sha256 data) s := by
  refine ask_seq trivial fun claimed => require_seq fun _ => ask_seq trivial fun closed => succeeded_seq fun _ => ask_seq trivial fun info =>
    require_seq fun _ => ask_seq trivial fun data => require_seq fun _ => decoded_seq fun receipt _ => ask_seq trivial fun session =>
    decoded_seq fun data hsession => require_seq fun hbound => require_seq fun _ => ?_
  rintro receipt' hreceipt
  obtain rfl := Except.ok.inj hreceipt
  obtain rfl : session = some data := hsession
  exact ⟨rfl, rfl, rfl, data, List.mem_append_right _ (List.mem_singleton_self _), hbound.2.2.2.2⟩

/-- The receipt begun is in place. -/
theorem wp_begin {receipt : SecretScan} (hrun : receipt.runID = runID ∧ receipt.commit = commit) (hentries : receipt.entries = [])
    (hsession : ∃ data : Bytes, (⟨.readFile (evidencePath runID ++ [ascii "00-session.json"]), some data⟩ : Event Answer) ∈ s.past ∧
      receipt.sessionHash = hexDigest sha256 data) :
    wp (rules sha256 runID commit region) (receipt.begin : Prog Ask Answer (Except Failure SecretScan))
      (Ok fun receipt' t => Collecting sha256 runID commit [] receipt' t) s := by
  have hrecords : Records sha256 [] receipt.entries := by
    rw [hentries]
    exact .nil
  have hnew : OfRun sha256 runID commit s.past { receipt with state := .collecting } :=
    ⟨hrun, hsession, fun h => ScanState.noConfusion h, [], hrecords, List.nil_prefix, fun h => ScanState.noConfusion h⟩
  refine seq (wp_save hnew) fun _ t ht => ?_
  rintro receipt' hreceipt
  obtain rfl := Except.ok.inj hreceipt
  exact ⟨hnew.mono ht.1, rfl, hrecords, ht.2⟩

theorem signing_prefix {value : Bytes} : ([(ascii "SIGNING_SECRET", value)] : List (Bytes × Bytes)).map Prod.fst <+: credentialNames :=
  ⟨[ascii "DATABASE_PASSWORD", ascii "DATABASE_URL"], rfl⟩

/-- A secret that is made is recorded before it is stored. -/
theorem wp_makeSecret {arn : Bytes} {receipt : SecretScan} (h : Collecting sha256 runID commit [] receipt s) :
    wp (rules sha256 runID commit region)
      (makeSecret sha256 arn receipt (controllerActive runID commit region) : Prog Ask Answer (Except Failure (Bytes × SecretScan)))
      (Ok fun p t => Collecting sha256 runID commit [(ascii "SIGNING_SECRET", p.1)] p.2 t ∧ SecretRead t.past arn p.1) s := by
  refine ask_seq trivial fun random => decoded_seq fun octets _ => ?_
  have hstart : Onward s (s.next .random random) := ⟨List.prefix_append _ _, rfl⟩
  refine seq (wp_record (h.onward hstart) signing_prefix) fun receipt' t hrecorded => ?_
  refine seq (wp_during wp_controllerActive) fun _ t₁ hlook => ?_
  have hcollecting := hrecorded.onward hlook.1
  -- what is stored is what was recorded
  have hreleased : Released sha256 runID commit t₁ (.putSecret arn (Base64.encodeRawURL octets.1)) :=
    ⟨receipt', ⟨hcollecting.disk, hcollecting.ofRun⟩, fun form => hcollecting.records.mem (List.mem_singleton_self _) form⟩
  refine seq (wp_during (wp_run_checked hlook.2 hreleased)) fun _ t₂ honward => ?_
  refine seq (wp_during wp_getSecret) fun stored t₃ hread => require_seq fun hstored => ?_
  rintro p hp
  obtain rfl := Except.ok.inj hp
  refine ⟨?_, hread.2⟩
  rw [hstored]
  exact hcollecting.onward (honward.trans hread.1)

/-- **The signing secret** is recorded, whether it was there or is made. -/
theorem wp_signingSecret {arn : Bytes} {receipt : SecretScan} (h : Collecting sha256 runID commit [] receipt s) :
    wp (rules sha256 runID commit region)
      (signingSecret sha256 arn receipt (controllerActive runID commit region) : Prog Ask Answer (Except Failure (Bytes × SecretScan)))
      (Ok fun p t => Collecting sha256 runID commit [(ascii "SIGNING_SECRET", p.1)] p.2 t ∧ SecretRead t.past arn p.1) s := by
  refine (wp_bindE _ _ _ _).mpr ((wp_liftE _ _ _).mpr (wp_mono ?_ (wp_and (wp_quiet (simple_getSecret arn secretsManager) s) wp_getSecret)))
  rintro existing t ⟨⟨honward, -⟩, hread⟩
  show wp _ _ _ t
  cases existing with
  | ok existing =>
    refine require_seq fun _ => seq (wp_grown (wp_record (h.onward honward) signing_prefix)) fun receipt' t' hrecorded => ?_
    rintro p hp
    obtain rfl := Except.ok.inj hp
    exact ⟨hrecorded.1, (hread existing rfl).2.mono hrecorded.2⟩
  | error e =>
    dsimp only
    split
    · exact wp_makeSecret (h.onward honward)
    · exact fun _ h => by cases h

/-- **The credentials are collected** in a receipt that is complete, and are what the run was answered. -/
theorem wp_collect {targets : Targets} (htold : targets.Told s.past) :
    wp (rules sha256 runID commit region) (collect sha256 runID commit region targets : Prog Ask Answer (Except Failure Credentials))
      (Ok fun c t => Fingerprinted sha256 runID commit t c) s := by
  refine seq (wp_grown wp_openSecretScan) fun receipt t₁ ⟨⟨hrun, hcommit, hentries, hsession⟩, h₁⟩ => ?_
  refine seq (wp_grown (wp_begin ⟨hrun, hcommit⟩ hentries hsession)) fun receipt t₂ ⟨hbegun, h₂⟩ => ?_
  refine seq (wp_grown (wp_signingSecret hbegun)) fun p t₃ ⟨⟨hsigning, hsecret⟩, h₃⟩ => ?_
  refine seq (wp_during wp_getSecret) fun rdsValue t₄ ⟨honward, hvalue⟩ => ?_
  refine connectionURL_seq fun database hurl => decoded_seq fun credential hcredential => ?_
  refine seq (wp_grown (wp_record (hsigning.onward honward) ⟨[ascii "DATABASE_URL"], rfl⟩)) fun receipt t₅ ⟨hpassword, h₅⟩ => ?_
  refine seq (wp_grown (wp_record hpassword List.prefix_rfl)) fun receipt t₆ ⟨hdatabase, h₆⟩ => ?_
  -- all three are recorded, each as it was answered
  have hlater : t₄.past <+: t₆.past := h₅.trans h₆
  have hsupplied : Supplied t₆.past ⟨p.1, credential.password, database⟩ :=
    ⟨targets, htold.mono ((((h₁.trans h₂).trans h₃).trans honward.past).trans hlater), hsecret.mono (honward.past.trans hlater),
      rdsValue, credential, hvalue.mono hlater, hcredential, rfl, hurl⟩
  -- the save of the complete receipt puts them on disk
  refine seq (m := fun _ t => Fingerprinted sha256 runID commit t ⟨p.1, credential.password, database⟩) ?_ fun _ t ht => ?_
  · refine require_seq fun _ => ?_
    have hnew : OfRun sha256 runID commit t₆.past { receipt with state := .complete } :=
      ⟨hdatabase.ofRun.run, hdatabase.ofRun.session, fun h => ScanState.noConfusion h, _, hdatabase.records, List.prefix_rfl,
        fun _ => ⟨_, rfl, hsupplied⟩⟩
    refine seq (wp_save hnew) fun _ t' ht' => ?_
    rintro receipt' hreceipt
    exact ⟨_, ⟨ht'.2, hnew.mono ht'.1⟩, rfl, hdatabase.records, hsupplied.mono ht'.1⟩
  · rintro c hc
    obtain rfl := Except.ok.inj hc
    exact ht

/-! ### The cluster -/

theorem wp_change {c : Command} (hreleased : Released sha256 runID commit s c) :
    wp (rules sha256 runID commit region) (change runID commit region c : Prog Ask Answer (Except Failure Bytes))
      (Ok fun _ t => Onward s t) s :=
  seq wp_controllerActive fun _ _ hlook =>
    wp_mono (fun _ _ h a ha => hlook.1.trans (h a ha)) (wp_run_checked hlook.2 (hreleased.onward hlook.1))

/-- Every change of the cluster comes after a look, and the credentials go into it from a receipt that is complete. -/
theorem wp_install {runtime image : Bytes} {c : Credentials} (h : Fingerprinted sha256 runID commit s c) :
    wp (rules sha256 runID commit region) (install runID commit region runtime c image : Prog Ask Answer (Except Failure Bytes))
      (Ok fun jobName t => Onward s t ∧ isJobName jobName = true) s := by
  refine seq (wp_change trivial) fun _ t₁ h₁ => seq (wp_change trivial) fun _ t₂ h₂ => ?_
  refine seq wp_controllerActive fun _ t₃ h₃ => seq (wp_during (wp_run_checked h₃.2 trivial)) fun _ t₄ h₄ => ?_
  refine seq wp_controllerActive fun _ t₅ h₅ => ?_
  have honward : Onward s t₅ := (((h₁.trans h₂).trans h₃.1).trans h₄).trans h₅.1
  have hreleased : Released sha256 runID commit t₅ (.applySecret (secretManifest c.database c.signing)) := ⟨c, h.onward honward, rfl⟩
  refine seq (wp_during (wp_run_checked h₅.2 hreleased)) fun _ t₆ h₆ => ?_
  refine seq wp_controllerActive fun _ t₇ h₇ => seq (wp_during (wp_run_checked h₇.2 trivial)) fun created t₈ h₈ => ?_
  refine require_seq fun hname => ?_
  rintro jobName hjob
  obtain rfl := Except.ok.inj hjob
  exact ⟨((honward.trans h₆).trans h₇.1).trans h₈, hname⟩

/-- Nothing is changed while the job is waited for, for however many rounds. -/
theorem wp_waitForJob {jobName : Bytes} :
    wp (rules sha256 runID commit region) (waitForJob jobName runID commit region : Prog Ask Answer (Except Failure Unit))
      (fun _ t => Onward s t) s := by
  refine wp_forever (fun _ t => Onward s t) Onward.rfl fun _ t ht => ?_
  refine wp_seq (wp_mono ?_ (wp_quiet (simple_pollJob jobName runID commit region) t))
  rintro round u ⟨hu, -⟩
  match round with
  | .ok false => exact ht.trans hu
  | .ok true => exact ht.trans hu
  | .error e => exact ht.trans hu

/-! ### The logs -/

/-- Every credential is gone through with all its forms. -/
theorem wp_orders (sensitive : List Bytes) :
    wp (rules sha256 runID commit region) (orders sensitive : Prog Ask Answer (Except Failure (List (Bytes × List Form))))
      (Ok fun secrets t => Onward s t ∧ secrets.map Prod.fst = sensitive ∧ ∀ secret ∈ secrets, ∀ form : Form, form ∈ secret.2) s := by
  induction sensitive generalizing s with
  | nil =>
    rintro secrets hsecrets
    obtain rfl := Except.ok.inj hsecrets
    exact ⟨Onward.rfl, rfl, fun _ h => absurd h List.not_mem_nil⟩
  | cons secret sensitive ih =>
    refine ask_seq trivial fun order => seq ih fun rest t hrest => ?_
    rintro secrets hsecrets
    obtain rfl := Except.ok.inj hsecrets
    obtain ⟨honward, hmap, hforms⟩ := hrest
    refine ⟨⟨(List.prefix_append _ _).trans honward.past, honward.disk⟩, by rw [List.map_cons, hmap], ?_⟩
    intro p hp form
    rcases List.mem_cons.mp hp with rfl | hp
    · exact order.2.mem_iff.mpr (Form.mem_all form)
    · exact hforms p hp form

theorem wp_writeLogs {logs : Bytes} {c : Credentials} (h : Fingerprinted sha256 runID commit s c) :
    wp (rules sha256 runID commit region) (writeLogs logs c.sensitive : Prog Ask Answer (Except Failure Unit)) (Ok fun _ _ => True) s := by
  unfold writeLogs
  split
  · exact fun _ _ => trivial
  · refine seq (wp_orders c.sensitive) fun secrets t hsecrets => ?_
    have hpublishable : Publishable sha256 runID commit t (redacted logs secrets) :=
      .inr ⟨c, logs, secrets, h.onward hsecrets.1, hsecrets.2.1, hsecrets.2.2, rfl⟩
    exact ask_seq hpublishable fun _ _ _ => trivial

/-- Whether the wait succeeds or not, what is written is publishable. -/
theorem wp_finish {jobName : Bytes} {c : Credentials} (h : Fingerprinted sha256 runID commit s c) (hname : isJobName jobName = true) :
    wp (rules sha256 runID commit region) (finish runID commit region jobName c : Prog Ask Answer (Except Failure Unit))
      (Ok fun _ _ => True) s := by
  refine (wp_bindE _ _ _ _).mpr ((wp_liftE _ _ _).mpr (wp_mono ?_ wp_waitForJob))
  rintro waited t honward
  have ht : Fingerprinted sha256 runID commit t c := h.onward honward
  cases waited with
  | error e =>
    -- the error of the wait is what the run ends with, after the logs
    refine ask_seq ⟨fun h => Bool.noConfusion h, trivial⟩ fun logs => ?_
    have hnext : Onward t (t.next (.run (.logs jobName)) logs) := ⟨List.prefix_append _ _, rfl⟩
    exact seq (wp_writeLogs (ht.onward hnext)) fun _ _ _ _ h => by cases h
  | ok u =>
    refine quiet_seq (simple_during (simple_run rfl)) fun logs t' honward' => ?_
    refine seq (wp_writeLogs (ht.onward honward')) fun _ _ _ => ask_seq (.inl ⟨jobName, hname, rfl⟩) fun written => ?_
    split <;> exact fun _ _ => trivial

/-- **The whole run** keeps the rules. -/
theorem wp_run (s : Watch) :
    wp (rules sha256 runID commit region) (run sha256 runID commit region : Prog Ask Answer (Except Failure Unit))
      (Ok fun _ _ => True) s := by
  refine quiet_seq (simple_validateRun _ _ _) fun packet _ _ => seq wp_readTargets fun targets _ ⟨_, htold⟩ => ?_
  refine quiet_seq (simple_verifyCluster _) fun _ _ h₁ => quiet_seq (simple_during (simple_runtimeValue _)) fun runtime _ h₂ => ?_
  refine require_seq fun _ => quiet_seq (simple_controllerActive _ _ _) fun _ _ h₃ => ?_
  refine seq (wp_collect (((htold.mono h₁.past).mono h₂.past).mono h₃.past)) fun c _ hc => seq (wp_install hc) fun jobName _ h => ?_
  exact wp_finish (hc.onward h.1) h.2

end Parts

/-! ## Every run -/

section Runs

variable {sha256 : Hash} {runID commit region : Bytes}

/-- What the bootstrap knows when it starts. -/
def Watch.start (disk : Option Bytes) : Watch := ⟨[], none, disk⟩

/-- The state after these questions. -/
def Watch.after (sha256 : Hash) (runID commit region : Bytes) (disk : Option Bytes) (es : List (Event Answer)) : Watch :=
  (rules sha256 runID commit region).after (Watch.start disk) es

theorem rule_of_reaches (disk : Option Bytes) {es es' : List (Event Answer)} {e : Event Answer}
    {p' : Prog Ask Answer (Except Failure Unit)}
    (h : Reaches (run sha256 runID commit region : Prog Ask Answer (Except Failure Unit)) (es ++ e :: es') p') :
    Rule sha256 runID commit region (Watch.after sha256 runID commit region disk es) e.ask :=
  allowed_of_reaches h (wp_run (Watch.start disk))

end Runs

end LocalPlatform.Bootstrap
