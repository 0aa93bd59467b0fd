/-
# LocalPlatform.Relay.History.Sequence — the history as it is read back.

`Attempts` reads the rows of an event by start time, and rows of one start time by `id`.  The number of an
attempt is given under the event's lock when its row is inserted, and so are the ids: both grow with the
commits.  The start time comes from the clock of the process that made the request, and nothing ties one
process's clock to another's insert (`attempts_inSequence_iff`).
-/
import LocalPlatform.Relay.History.RecordAttempt

namespace LocalPlatform.Relay.History

open Codec

/-! ## Stable sorting -/

/-- What is in order already stays as it is, whatever is sorted in between. -/
theorem filter_mergeSort {α : Type} {le : α → α → Bool} {p : α → Bool} {l : List α}
    (htrans : ∀ a b c, le a b → le b c → le a c) (htotal : ∀ a b, le a b || le b a)
    (h : (l.filter p).Pairwise fun a b => le a b) : (l.mergeSort le).filter p = l.filter p := by
  have hsub : (l.filter p).Sublist ((l.mergeSort le).filter p) := by
    have hsort := (List.sublist_mergeSort htrans htotal h List.filter_sublist).filter p
    simpa [List.filter_filter] using hsort
  have hlen : ((l.mergeSort le).filter p).length = (l.filter p).length :=
    ((List.mergeSort_perm l le).filter p).length_eq
  exact (hsub.eq_of_length hlen.symm).symm

/-! ## Reading -/

/-- An attempt as the store returns it. -/
def AttemptRow.attempt (zone : Int → Int) (row : AttemptRow) : Attempt where
  subscriptionID := row.subscriptionID
  subscriptionURL := row.subscriptionURL
  attemptNumber := row.attemptNumber
  startedAt := ⟨row.startedAt * 1000, zone row.startedAt⟩
  finishedAt := ⟨row.finishedAt * 1000, zone row.finishedAt⟩
  httpStatus := row.httpStatus
  transportError := row.transportError.getD []  -- COALESCE
  outcome := row.outcome

/-- `started_at ≤ started_at` -/
def startsBy (a b : AttemptRow) : Bool := a.startedAt ≤ b.startedAt

/-- The rows of an event. -/
def ofEvent (eventID : Bytes) (rows : List AttemptRow) : List AttemptRow := rows.filter (·.eventID == eventID)

section Reading

variable {J : Type}

/-- **`s.Attempts(eventID)`**: the event is looked up in one statement, its attempts are read in a later one.
Rows stand in the order of their ids. -/
def attempts (zone : Int → Int) (found read : State J) (eventID : Bytes) : Except Failure (List Attempt) :=
  if found.events.any (·.id == eventID) then
    .ok (((ofEvent eventID read.attempts).mergeSort startsBy).map (·.attempt zone))
  else .error .eventNotFound

end Reading

/-! ## The promise of the comment -/

/-- **The durable sequence**: every committed attempt of the event exactly once, and each subscription's in
increasing number. -/
structure InSequence (zone : Int → Int) (rows : List AttemptRow) (eventID : Bytes) (got : List Attempt) : Prop where
  complete : got.Perm ((ofEvent eventID rows).map (·.attempt zone))
  ordered : ∀ sub, ((got.filter (·.subscriptionID == sub)).map Attempt.attemptNumber).Pairwise (· < ·)

/-- No attempt to a subscription has an earlier start time than one with a lower number. -/
def StartsInSequence (rows : List AttemptRow) (eventID : Bytes) : Prop :=
  ∀ sub, ∀ a ∈ rows, ∀ b ∈ rows, pair eventID sub a = true → pair eventID sub b = true →
    a.attemptNumber < b.attemptNumber → a.startedAt ≤ b.startedAt

theorem startsBy_trans (a b c : AttemptRow) (hab : startsBy a b) (hbc : startsBy b c) : startsBy a c := by
  simp only [startsBy, decide_eq_true_eq] at hab hbc ⊢
  exact le_trans hab hbc

theorem startsBy_total (a b : AttemptRow) : startsBy a b || startsBy b a := by
  simp only [startsBy, Bool.or_eq_true, decide_eq_true_eq]
  exact le_total _ _

theorem filter_ofEvent (eventID : Bytes) (rows : List AttemptRow) (sub : Int) :
    (ofEvent eventID rows).filter (·.subscriptionID == sub) = rows.filter (pair eventID sub) := by
  unfold ofEvent
  rw [List.filter_filter]
  exact List.filter_congr fun row _ => Bool.and_comm _ _

/-- The numbers of one subscription in what is returned. -/
theorem numbers_returned (zone : Int → Int) (rows : List AttemptRow) (sub : Int) :
    ((rows.map (·.attempt zone)).filter (·.subscriptionID == sub)).map Attempt.attemptNumber =
      (rows.filter (·.subscriptionID == sub)).map AttemptRow.attemptNumber := by
  rw [List.filter_map, List.map_map]
  rfl

/-- Rows numbered without gaps come back in sequence exactly where their start times are. -/
theorem inSequence_sorted_iff {rows : List AttemptRow} (hdense : Dense rows) (zone : Int → Int) (eventID : Bytes) :
    InSequence zone rows eventID (((ofEvent eventID rows).mergeSort startsBy).map (·.attempt zone)) ↔
      StartsInSequence rows eventID := by
  have hperm := List.mergeSort_perm (ofEvent eventID rows) startsBy
  have hsorted := List.pairwise_mergeSort startsBy_trans startsBy_total (ofEvent eventID rows)
  have hnumbers : ∀ sub, ((rows.filter (pair eventID sub)).map AttemptRow.attemptNumber).Pairwise (· < ·) := by
    intro sub
    show (numbers rows eventID sub).Pairwise (· < ·)
    rw [hdense eventID sub]
    exact List.pairwise_lt_range'
  constructor
  · rintro ⟨_, hordered⟩ sub a ha b hb hpa hpb hlt
    have hboth := hordered sub
    rw [numbers_returned, List.pairwise_map] at hboth
    have hmem : ∀ row ∈ rows, pair eventID sub row = true →
        row ∈ ((ofEvent eventID rows).mergeSort startsBy).filter (·.subscriptionID == sub) := by
      intro row hrow hp
      apply (hperm.filter _).mem_iff.mpr
      rw [filter_ofEvent]
      exact List.mem_filter.mpr ⟨hrow, hp⟩
    -- of two rows the one that stands first has the lower number and the earlier start
    have hpairs := hboth.and (hsorted.filter (·.subscriptionID == sub))
    have hall := List.Pairwise.forall_of_forall_of_flip
      (R := fun a b : AttemptRow => a.attemptNumber < b.attemptNumber → a.startedAt ≤ b.startedAt)
      (fun _ _ h => absurd h (lt_irrefl _)) (hpairs.imp fun {a b} h _ => of_decide_eq_true h.2)
      (hpairs.imp fun {a b} h h' => absurd h.1 (Nat.lt_asymm h'))
    exact hall (hmem a ha hpa) (hmem b hb hpb) hlt
  · intro hstarts
    refine ⟨hperm.map _, fun sub => ?_⟩
    rw [numbers_returned]
    have hinorder : ((ofEvent eventID rows).filter (·.subscriptionID == sub)).Pairwise fun a b => startsBy a b := by
      rw [filter_ofEvent]
      have hlt := List.pairwise_map.mp (hnumbers sub)
      refine hlt.imp_of_mem fun {a b} ha hb h => ?_
      obtain ⟨ha, hpa⟩ := List.mem_filter.mp ha
      obtain ⟨hb, hpb⟩ := List.mem_filter.mp hb
      exact decide_eq_true (hstarts sub a ha b hb hpa hpb h)
    rw [filter_mergeSort startsBy_trans startsBy_total hinorder, filter_ofEvent]
    exact hnumbers sub

section Runs

variable {J : Type} [DecidableEq J] {cfg : Setting J}

/-- **When the history comes back in the durable sequence**, in any state any run reaches. -/
theorem attempts_inSequence_iff {found read : State J} (hfound : (system cfg).Reachable found)
    (hlater : (system cfg).Later found read) {eventID : Bytes} (hevent : ∃ row ∈ found.events, row.id = eventID) :
    ∃ got, attempts cfg.zone found read eventID = .ok got ∧
      (InSequence cfg.zone read.attempts eventID got ↔ StartsInSequence read.attempts eventID) := by
  have hdense := (recordInv_of_reachable (hfound.later hlater)).dense
  obtain ⟨row, hrow, hid⟩ := hevent
  have hany : found.events.any (·.id == eventID) = true := List.any_eq_true.mpr ⟨row, hrow, by simp [hid]⟩
  exact ⟨_, if_pos hany, inSequence_sorted_iff hdense cfg.zone eventID⟩

end Runs

/-- A store that holds an event and its first attempt, made by a process whose clock is ahead. -/
def clockAhead : State Bytes :=
  { oneEvent with attempts := [rowOf none (ascii "evt_1") { delivered with startedAt := .ofUnix 10, finishedAt := .ofUnix 11 } 1] }

theorem initial_clockAhead : Initial clockAhead where
  events := List.pairwise_singleton _ _
  keys := initial_oneEvent.keys
  creators := initial_oneEvent.creators
  acked := initial_oneEvent.acked
  callers := initial_oneEvent.callers
  attempts := by
    have hunused := (initial_unused (J := Bytes)).attempts
    exact hunused.append rfl
  owners row hrow := by
    rw [List.mem_singleton.mp hrow]
    rfl
  locks _ := rfl
  calls _ := rfl

/-- A retry that starts later, by whatever clock. -/
def retried : Attempt := { delivered with attemptNumber := 2, startedAt := .ofUnix 20, finishedAt := .ofUnix 21 }

/-- Every call records it. -/
def retries : Setting Bytes := { deliveries with jobs := fun _ => .record (ascii "evt_1") retried }

theorem attempts_inSequence_iff_retried : ∃ s : State Bytes, (system retries).Reachable s ∧
    s.attempts.map AttemptRow.attemptNumber = [1, 2] ∧ ∃ got, attempts retries.zone clockAhead s (ascii "evt_1") = .ok got ∧
      InSequence retries.zone s.attempts (ascii "evt_1") got := by
  have hstart : (system retries).Reachable clockAhead := ⟨_, initial_clockAhead, .refl⟩
  have hevent : ∃ row ∈ clockAhead.events, row.id = ascii "evt_1" := ⟨_, List.mem_singleton_self _, rfl⟩
  have hok : validateAttempt (ascii "evt_1") retried = none := by decide +kernel
  have hchecks : (attemptRow 0 (ascii "evt_1") retried clockAhead.attempts).checks = true := by decide
  obtain ⟨s, hs, _, hrows⟩ := record_undisturbed (recordInv_of_reachable hstart) (c := 0) rfl rfl hok hevent rfl hchecks
  obtain ⟨got, hgot, hiff⟩ := attempts_inSequence_iff hstart hs hevent
  refine ⟨s, hstart.later hs, by rw [hrows]; rfl, got, hgot, hiff.mpr ?_⟩
  rw [hrows]
  -- the first of the two starts at 10, the second at 20
  intro sub a ha b hb _ _ hlt
  have hstarts : ∀ a ∈ clockAhead.attempts ++ [attemptRow 0 (ascii "evt_1") retried clockAhead.attempts],
      ∀ b ∈ clockAhead.attempts ++ [attemptRow 0 (ascii "evt_1") retried clockAhead.attempts],
        a.attemptNumber < b.attemptNumber → a.startedAt ≤ b.startedAt := by
    decide
  exact hstarts a ha b hb hlt

/-- **A second attempt from a slower clock comes back first.** -/
theorem not_inSequence_clockAhead : ∃ s : State Bytes, (system deliveries).Reachable s ∧
    ∃ got, attempts deliveries.zone clockAhead s (ascii "evt_1") = .ok got ∧
      ¬ InSequence deliveries.zone s.attempts (ascii "evt_1") got := by
  have hstart : (system deliveries).Reachable clockAhead := ⟨_, initial_clockAhead, .refl⟩
  have hok : validateAttempt (ascii "evt_1") delivered = none := by decide +kernel
  have hchecks : (attemptRow 0 (ascii "evt_1") delivered clockAhead.attempts).checks = true := by decide
  obtain ⟨s, hs, _, hrows⟩ := record_undisturbed (recordInv_of_reachable hstart) (c := 0) rfl rfl hok
    ⟨_, List.mem_singleton_self _, rfl⟩ rfl hchecks
  refine ⟨s, hstart.later hs, _, if_pos (by decide), fun hseq => ?_⟩
  have hdense := (recordInv_of_reachable (hstart.later hs)).dense
  have hstarts := (inSequence_sorted_iff hdense deliveries.zone (ascii "evt_1")).mp hseq
  rw [hrows] at hstarts
  have hle := hstarts 1 _ (List.mem_cons_self ..) _ (List.mem_append_right _ (List.mem_singleton_self _)) (by decide)
    (by decide) (by decide)
  exact absurd hle (by decide)

end LocalPlatform.Relay.History
