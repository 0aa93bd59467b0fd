/-
# LocalPlatform.Bootstrap.Exclusive — several bootstraps of one run.

A bootstrap may be started twice, by two operators or after a failure, and the two may run at once.  The file of the claim is
created exclusively, and it is never removed.  So of all the bootstraps of a run that were ever started, one writes the
receipt, changes the cluster and writes logs, and the others do none of it (`one_bootstrap_acts`).
-/
import LocalPlatform.Bootstrap.Guarantees
import LocalPlatform.Logic.Processes

namespace LocalPlatform.Bootstrap

open Codec Logic Prog App

/-! ## Acting -/

/-- The questions of a bootstrap that others come to see. -/
def Acting : Ask → Prop
  | .createTemp | .writeTemp _ | .rename _ | .output _ => True
  | .run c => c.mutates = true
  | _ => False

theorem not_acting_of_quiet {q : Ask} (h : Quiet q) : ¬ Acting q := by
  cases q with
  | createTemp | writeTemp _ | rename _ | output _ => exact fun _ => h.elim
  | run c => exact fun hmutates => Bool.noConfusion (hmutates.symm.trans h)
  | _ => exact id

/-- The path of the claim of a run. -/
def claimPath (runID : Bytes) : Path := evidencePath runID ++ [ascii "bootstrap.claim"]

/-- The claim of the run, granted. -/
def Claims (runID : Bytes) (e : Event Answer) : Prop := e = ⟨.claim (claimPath runID), true⟩

/-- The monitor that asks for the claim before anything that others come to see. -/
def claimFirst (runID : Bytes) : Monitor Answer (List (Event Answer)) where
  allowed past q := Acting q → ∃ g ∈ past, Claims runID g
  next past q r := past ++ [⟨q, r⟩]

section Claim

variable {sha256 : Hash} {runID commit region : Bytes} {past : List (Event Answer)}

theorem after_claimFirst (es : List (Event Answer)) : (claimFirst runID).after past es = past ++ es := by
  induction es generalizing past with
  | nil => simp
  | cons e es ih => rw [Monitor.after_cons, ih, claimFirst, List.append_assoc, List.singleton_append]

/-- With the claim anything goes. -/
theorem wp_claimed {α : Type} (p : Prog Ask Answer α) (h : ∃ g ∈ past, Claims runID g) :
    p.wp (claimFirst runID) (fun _ _ => True) past := by
  refine wp_mono (fun _ _ _ => trivial) (wp_of_stable (I := fun past => ∃ g ∈ past, Claims runID g) (fun past q h _ => h) ?_ p h)
  rintro past q r ⟨g, hg, hclaims⟩
  exact ⟨g, List.mem_append_left _ hg, hclaims⟩

/-- Before it only what others do not come to see. -/
theorem quiet_first {α β : Type} {p : App α} {f : α → App β} (hp : Simple Quiet (p : Prog Ask Answer (Except Failure α)))
    (hf : ∀ a past, wp (claimFirst runID) (f a : Prog Ask Answer (Except Failure β)) (fun _ _ => True) past) :
    wp (claimFirst runID) ((p >>= f : App β) : Prog Ask Answer (Except Failure β)) (fun _ _ => True) past := by
  refine (wp_bindE _ _ _ _).mpr (wp_mono ?_ (wp_of_asks hp.asks (fun q hq _ hacting => absurd hacting (not_acting_of_quiet hq)) past))
  rintro (e | a) t -
  · trivial
  · exact hf a t

/-- **Nobody acts before the claim is theirs.** -/
theorem wp_run_claimFirst (past : List (Event Answer)) :
    wp (claimFirst runID) (run sha256 runID commit region : Prog Ask Answer (Except Failure Unit)) (fun _ _ => True) past := by
  refine quiet_first (simple_validateRun _ _ _) fun packet _ => quiet_first (simple_readTargets _ _) fun targets _ => ?_
  refine quiet_first (simple_verifyCluster _) fun _ _ => quiet_first (simple_during (simple_runtimeValue _)) fun runtime _ => ?_
  refine quiet_first simple_require fun _ _ => quiet_first (simple_controllerActive _ _ _) fun _ past => ?_
  refine ⟨fun hacting => hacting.elim, fun claimed => ?_⟩
  cases claimed with
  | false => trivial
  | true => exact wp_claimed _ ⟨_, List.mem_append_right _ (List.mem_singleton_self _), rfl⟩

theorem claimed_of_acting {before after : List (Event Answer)} {e : Event Answer} {p' : Prog Ask Answer (Except Failure Unit)}
    (h : Reaches (run sha256 runID commit region : Prog Ask Answer (Except Failure Unit)) (before ++ e :: after) p')
    (hacting : Acting e.ask) : ∃ g ∈ before, Claims runID g := by
  have hallowed := allowed_of_reaches h (wp_run_claimFirst [])
  rw [after_claimFirst] at hallowed
  exact hallowed hacting

end Claim

/-! ## Side by side -/

/-- The file system, as far as the claims go: a file is created exclusively, and no other program removes it. -/
def claims : World Answer (List Path) where
  permits taken q r := match q, r with
    | .claim path, r => (r : Bool) = true → path ∉ taken
    | _, _ => True
  next taken q r := match q, r with
    | .claim path, r => match (r : Bool) with
      | true => path :: taken
      | false => taken
    | _, _ => taken

theorem once_claimed (runID : Bytes) : Once claims (Claims runID) fun taken => claimPath runID ∈ taken where
  free := by
    rintro w q r hpermits ⟨⟩
    exact hpermits rfl
  taken := by
    rintro w q r ⟨⟩
    exact List.mem_cons_self
  kept := by
    intro w q r hw
    cases q with
    | claim path =>
      cases r with
      | true => exact List.mem_cons_of_mem _ hw
      | false => exact hw
    | _ => exact hw

/-- What a bootstrap was started for. -/
structure Start where
  runID : Bytes
  commit : Bytes
  region : Bytes

variable {ι : Type} [DecidableEq ι] {sha256 : Hash}

/-- **Of the bootstraps of one run one acts**, of however many that run at once and in whatever order they do: those that write
the receipt, change the cluster or write logs are one and the same. -/
theorem one_bootstrap_acts {start : ι → Start} {es : List (ι × Event Answer)} {taken taken' : List Path}
    {p' : ι → Prog Ask Answer (Except Failure Unit)}
    (h : Together claims (fun i => (run sha256 (start i).runID (start i).commit (start i).region : Prog Ask Answer (Except Failure Unit)))
      taken es p' taken')
    {i j : ι} {d e : Event Answer} (hd : (i, d) ∈ es) (he : (j, e) ∈ es) (hsame : (start i).runID = (start j).runID)
    (hacts : Acting d.ask) (hacts' : Acting e.ask) : i = j := by
  let acts : ι → Event Answer → Prop := fun k e => (start k).runID = (start j).runID ∧ Acting e.ask
  have hactsi : acts i d := ⟨hsame, hacts⟩
  have hactsj : acts j e := ⟨rfl, hacts'⟩
  refine (once_claimed (start j).runID).one_acts h ?_ hd he hactsi hactsj
  rintro k before e after p' hreach ⟨hrun, hacting⟩
  rw [← hrun]
  exact claimed_of_acting hreach hacting

/-- Anything but a claim that is granted can always happen, and takes nothing. -/
theorem permits_of_not_claims (taken : List Path) {e : Event Answer} (h : Rehearsal.claims e = false) :
    claims.permits taken e.ask e.answer ∧ claims.next taken e.ask e.answer = taken := by
  obtain ⟨asked, answer⟩ := e
  cases asked with
  | claim path =>
    obtain rfl : answer = false := h
    exact ⟨fun hgranted => Bool.noConfusion hgranted, rfl⟩
  | _ => exact ⟨trivial, rfl⟩

/-- The answers of a bootstrap that is granted no claim can always be given, and take nothing. -/
theorem permitsAll_of_none (taken : List Path) {es : List (Event Answer)} (h : es.countP Rehearsal.claims = 0) :
    claims.PermitsAll taken es := by
  induction es with
  | nil => trivial
  | cons e es ih =>
    have hnone : Rehearsal.claims e = false := by
      by_contra hclaims
      rw [List.countP_cons_of_pos (by simpa using hclaims)] at h
      exact Nat.succ_ne_zero _ h
    rw [List.countP_cons_of_neg (by simp [hnone])] at h
    obtain ⟨hpermits, hnext⟩ := permits_of_not_claims taken hnone
    refine ⟨hpermits, ?_⟩
    rw [hnext]
    exact ih h

/-- Those of one that is granted one claim can be given while nothing is taken. -/
theorem permitsAll_of_one {es : List (Event Answer)} (h : es.countP Rehearsal.claims = 1) : claims.PermitsAll [] es := by
  induction es with
  | nil => trivial
  | cons e es ih =>
    cases hclaims : Rehearsal.claims e with
    | false =>
      rw [List.countP_cons_of_neg (by simp [hclaims])] at h
      obtain ⟨hpermits, hnext⟩ := permits_of_not_claims [] hclaims
      refine ⟨hpermits, ?_⟩
      rw [hnext]
      exact ih h
    | true =>
      -- the one claim that is granted finds nothing taken
      rw [List.countP_cons_of_pos hclaims] at h
      refine ⟨?_, permitsAll_of_none _ (Nat.succ.inj h)⟩
      obtain ⟨asked, answer⟩ := e
      cases asked with
      | claim path => exact fun _ => List.not_mem_nil
      | _ => trivial

namespace Rehearsal

/-- The world of a bootstrap that comes too late. -/
def worldLate (past : List (Event Answer)) : (q : Ask) → Answer q
  | .claim _ => false
  | q => world past q

/-- The claim that was refused. -/
def refused : Event Answer → Bool
  | ⟨.claim path, granted⟩ => path == claimPath runID && !(granted : Bool)
  | _ => false

/-- What a bootstrap does that comes too late. -/
def eventsLate : Option (List (Event Answer) × Except Failure Unit) :=
  Prog.exec worldLate 400 (run flatHash runID commit region : Prog Ask Answer (Except Failure Unit)) []

theorem eventsLate_refused : eventsLate.map (fun r => (r.1.any refused, r.1.countP claims)) = some (true, 0) := by
  decide +kernel

theorem exists_late : ∃ es p', Reaches (run flatHash runID commit region : Prog Ask Answer (Except Failure Unit)) es p' ∧
    es.any refused = true ∧ es.countP claims = 0 := by
  obtain ⟨⟨all, ended⟩, hexec, hrefused⟩ := Option.map_eq_some_iff.mp eventsLate_refused
  obtain ⟨_, p', rfl, hreach, -⟩ := Prog.exec_reaches hexec
  simp only [Prod.mk.injEq] at hrefused
  exact ⟨_, p', hreach, hrefused⟩

end Rehearsal

/-- Of two bootstraps of the rehearsal one gets through, the other is refused the claim, and all that is done is the first's. -/
theorem one_bootstrap_acts_rehearsal : ∃ (es : List (Bool × Event Answer)) (p' : Bool → Prog Ask Answer (Except Failure Unit)) (taken : List Path),
    Together claims (fun _ => (run Rehearsal.flatHash Rehearsal.runID Rehearsal.commit Rehearsal.region : Prog Ask Answer (Except Failure Unit)))
      [] es p' taken ∧ (∃ e, (false, e) ∈ es ∧ Rehearsal.refused e = true) ∧
      ∃ d, (true, d) ∈ es ∧ Acting d.ask ∧ ∀ j e, (j, e) ∈ es → Acting e.ask → true = j := by
  obtain ⟨all, p', hreach, hmutates, -, -, hone, -⟩ := Rehearsal.exists_run
  obtain ⟨late, _, hlate, hrefused, hnone⟩ := Rehearsal.exists_late
  obtain ⟨es, ⟨q, r⟩, es', rfl, he⟩ := Rehearsal.exists_split hmutates
  obtain ⟨e, hmem, hrefused⟩ := List.any_eq_true.mp hrefused
  have hfirst := together_of_reaches (p := fun _ : Bool => run _ _ _ _) (i := true) hreach (permitsAll_of_one hone)
  rw [← Function.update_of_ne Bool.false_ne_true p' fun _ : Bool => run _ _ _ _] at hlate
  have htogether := hfirst.append (together_of_reaches hlate (permitsAll_of_none _ hnone))
  have hsecond : (false, e) ∈ late.map fun e => (false, e) := List.mem_map_of_mem hmem
  have hmem : (true, (⟨q, r⟩ : Event Answer)) ∈ (es ++ ⟨q, r⟩ :: es').map (fun e => (true, e)) ++ late.map fun e => (false, e) := by simp
  have hacting : Acting q := by
    cases q with
    | run c => exact he
    | _ => cases he
  refine ⟨_, _, _, htogether, ⟨e, List.mem_append_right _ hsecond, hrefused⟩, _, hmem, hacting, fun j e hj hacts => ?_⟩
  exact @one_bootstrap_acts _ _ _ (fun _ => ⟨Rehearsal.runID, Rehearsal.commit, Rehearsal.region⟩) _ _ _ _ htogether _ _ _ _ hmem hj rfl hacting hacts

end LocalPlatform.Bootstrap
