/-
# LocalPlatform.Relay.History.RecordAttempt — a gap-free history without a counter.

`RecordAttempt` numbers an attempt with `MAX(attempt_number) + 1` inside its insert.  The number is right
because the event's row was locked by an earlier statement: the insert's snapshot is taken while the lock
is held, nobody else can commit an attempt of the event until the transaction ends, and so the snapshot
and the table agree on the pair's numbers when the row becomes visible.  `CallInv` says so for one call;
`Frame` carries it across the steps of all others.
-/
import LocalPlatform.Relay.History.Isolation

namespace LocalPlatform.Relay.History

open Codec

variable {J : Type}

/-- The rows a call has in the table. -/
def owned (attempts : List AttemptRow) (c : Nat) : List AttemptRow :=
  attempts.filter fun row => row.owner = some c

/-- The attempts a transaction has made visible. -/
def Tx.attempts : Tx → List AttemptRow
  | .committed (.attempt row) => [row]
  | _ => []

/-- What a transaction has written, whether or not the server has ended it with effect. -/
def Tx.written : Tx → Option Write
  | .active w | .closing w | .committed w => some w
  | _ => none

/-- The commit was sent. -/
def Tx.issued : Tx → Bool
  | .closing _ | .committed _ | .aborted true => true
  | _ => false

/-- **What a call of `RecordAttempt` relies on**, and what it leaves behind. -/
structure CallInv (cfg : Setting J) (attempts : List AttemptRow) (c : Nat) (client : Client J)
    (tx : Tx) : Prop where
  /-- The insert still sees the pair as the table has it. -/
  snapshot : ∀ rows w eventID attempt, client = .inserting rows → tx = .active w →
    cfg.jobs c = .record eventID attempt →
    numbers rows eventID attempt.subscriptionID = numbers attempts eventID attempt.subscriptionID
  /-- The row to be committed is this call's own, under the pair's next number. -/
  live : ∀ row, tx.live = some (.attempt row) → ∃ eventID attempt,
    cfg.jobs c = .record eventID attempt ∧ row = attemptRow c eventID attempt attempts
  owned : owned attempts c = tx.attempts
  committed : ∀ row, tx = .committed (.attempt row) → ∃ eventID attempt number,
    cfg.jobs c = .record eventID attempt ∧ row = rowOf (some c) eventID attempt number
  inserted : client = .inserted ∨ client = .closingAttempt → ∀ w, tx.written = some w →
    ∃ row, w = .attempt row
  recorded : client = .done .recorded → ∃ row, tx = .committed (.attempt row)
  never : client ≠ .done (.failed .uniqueViolation)

/-- **The history invariant.** -/
structure RecordInv (cfg : Setting J) (s : State J) : Prop where
  locked : Locked cfg s
  dense : Dense s.attempts
  call : ∀ c, CallInv cfg s.attempts c (s.calls c).client (s.calls c).tx

theorem owned_append (a b : List AttemptRow) (c : Nat) : owned (a ++ b) c = owned a c ++ owned b c := by
  simp [owned]

theorem owned_singleton {row : AttemptRow} {c c' : Nat} (h : row.owner = some c) (hc : c' ≠ c) :
    owned [row] c' = [] := by
  simp [owned, h, Ne.symm hc]

theorem owned_attemptRow (c : Nat) (eventID : Bytes) (attempt : Attempt) (rows : List AttemptRow) :
    owned [attemptRow c eventID attempt rows] c = [attemptRow c eventID attempt rows] := by
  simp [owned, attemptRow, rowOf]

/-- The next number depends on the pair's numbers only. -/
theorem attemptRow_congr {rows rows' : List AttemptRow} {eventID : Bytes} {attempt : Attempt}
    (h : numbers rows eventID attempt.subscriptionID = numbers rows' eventID attempt.subscriptionID)
    (c : Nat) : attemptRow c eventID attempt rows = attemptRow c eventID attempt rows' := by
  unfold attemptRow nextNumber
  rw [h]

/-! ## Carrying the invariant over -/

variable {cfg : Setting J}

theorem CallInv.frame {s t : State J} {c : Nat} (hl : Locked cfg s)
    (h : CallInv cfg s.attempts c (s.calls c).client (s.calls c).tx) (hf : Frame s t c)
    (howned : History.owned t.attempts c = History.owned s.attempts c) :
    CallInv cfg t.attempts c (t.calls c).client (t.calls c).tx := by
  rw [hf.calls]
  refine ⟨?_, ?_, howned.trans h.owned, h.committed, h.inserted, h.recorded, h.never⟩
  · intro rows w eventID attempt hclient htx job
    have hlock : s.lock eventID = some c := by
      refine hl.hold c w eventID htx ?_
      rw [hclient, job]
      rfl
    rw [hf.numbers eventID attempt.subscriptionID hlock]
    exact h.snapshot rows w eventID attempt hclient htx job
  · intro row hrow
    obtain ⟨eventID, attempt, job, hnew⟩ := h.live row hrow
    have hlock : s.lock eventID = some c := by
      refine hl.write c _ eventID hrow ?_
      rw [hnew]
      rfl
    refine ⟨eventID, attempt, job, hnew.trans (attemptRow_congr ?_ c)⟩
    exact (hf.numbers eventID attempt.subscriptionID hlock).symm

/-- A call that has written nothing and is not inserting relies on nothing. -/
theorem CallInv.of_blank {attempts : List AttemptRow} {c : Nat} {client client' : Client J} {tx tx' : Tx}
    (h : CallInv cfg attempts c client tx) (hlive : ∀ row, tx'.live ≠ some (.attempt row))
    (hattempts : tx'.attempts = tx.attempts) (hcommitted : ∀ w, tx' ≠ .committed w)
    (hclient : (∀ rows, client' ≠ .inserting rows) ∧ client' ≠ .inserted ∧ client' ≠ .closingAttempt)
    (hdone : client' ≠ .done .recorded ∧ client' ≠ .done (.failed .uniqueViolation)) :
    CallInv cfg attempts c client' tx' where
  snapshot rows _ _ _ hc := absurd hc (hclient.1 rows)
  live row hl := absurd hl (hlive row)
  owned := h.owned.trans hattempts.symm
  committed _ hc := absurd hc (hcommitted _)
  inserted hc := (hc.elim hclient.2.1 hclient.2.2).elim
  recorded hc := absurd hc hdone.1
  never := hdone.2

/-- A client that moves on without touching its transaction. -/
theorem CallInv.of_client {attempts : List AttemptRow} {c : Nat} {client client' : Client J} {tx : Tx}
    (h : CallInv cfg attempts c client tx) (hinserting : ∀ rows, client' ≠ .inserting rows)
    (hinserted : client' ≠ .inserted ∧ client' ≠ .closingAttempt)
    (hdone : client' ≠ .done .recorded ∧ client' ≠ .done (.failed .uniqueViolation)) :
    CallInv cfg attempts c client' tx where
  snapshot rows _ _ _ hc := absurd hc (hinserting rows)
  live := h.live
  owned := h.owned
  committed := h.committed
  inserted hc := (hc.elim hinserted.1 hinserted.2).elim
  recorded hc := absurd hc hdone.1
  never := hdone.2

/-- The commit is sent: the transaction's writes stay what they were. -/
theorem CallInv.of_closing {attempts : List AttemptRow} {c : Nat} {client client' : Client J} {w : Write}
    (h : CallInv cfg attempts c client (.active w)) (hinserting : ∀ rows, client' ≠ .inserting rows)
    (hinserted : client' = .inserted ∨ client' = .closingAttempt → ∃ row, w = .attempt row)
    (hdone : ∀ r, client' ≠ .done r) : CallInv cfg attempts c client' (.closing w) where
  snapshot rows _ _ _ hc := absurd hc (hinserting rows)
  live := h.live
  owned := h.owned
  committed _ hc := absurd hc (by simp)
  inserted hc w' hw := by
    obtain rfl : w = w' := by simpa [Tx.written] using hw
    exact hinserted hc
  recorded hc := absurd hc (hdone _)
  never := hdone _

/-- A transaction whose commit was not sent leaves no row. -/
theorem CallInv.owned_nil {attempts : List AttemptRow} {c : Nat} {client : Client J} {tx : Tx}
    (h : CallInv cfg attempts c client tx) (hissued : tx.issued = false) :
    History.owned attempts c = [] := by
  rw [h.owned]
  cases tx with
  | committed w => exact absurd hissued (by simp [Tx.issued])
  | _ => rfl

/-! ## The sequence constraint -/

/-- **The constraint never refuses a row**: the number is above every committed one, and whoever could
be about to commit another holds the same lock. -/
theorem not_taken {s : State J} {c : Nat} {rows : List AttemptRow} {w : Write} {eventID : Bytes}
    {attempt : Attempt} (hs : RecordInv cfg s) (hcall : s.calls c = ⟨.inserting rows, .active w⟩)
    (job : cfg.jobs c = .record eventID attempt) :
    ¬ Taken s c (attemptRow c eventID attempt rows) := by
  have hinv := hs.call c
  rw [hcall] at hinv
  have hsame := hinv.snapshot rows w eventID attempt rfl rfl job
  have hlock : s.lock eventID = some c := by
    refine hs.locked.hold c w eventID (by rw [hcall]) ?_
    rw [hcall, job]
    rfl
  -- a number is taken by a row of the table, or by a row that another call has inserted
  rintro (⟨row, hrow, hseq⟩ | ⟨c', hc, row, hlive, hseq⟩)
  · simp only [sameSequence, pair, attemptRow, rowOf, Bool.and_eq_true, beq_iff_eq] at hseq
    obtain ⟨⟨hevent, hsub⟩, hnumber⟩ := hseq
    have hlt : row.attemptNumber < nextNumber s.attempts eventID attempt.subscriptionID :=
      lt_nextNumber hrow (by simp [pair, hevent, hsub])
    unfold nextNumber at hlt hnumber
    rw [hsame] at hnumber
    omega
  · simp only [sameSequence, pair, attemptRow, rowOf, Bool.and_eq_true, beq_iff_eq] at hseq
    have hlock' : s.lock row.eventID = some c' := by
      refine hs.locked.write c' (.attempt row) row.eventID ?_ rfl
      rcases hlive with h | h <;> rw [h] <;> rfl
    rw [← hseq.1.1, hlock] at hlock'
    exact hc (Option.some.inj hlock').symm

/-! ## The call that moves -/

/-- A local step keeps its call's part of the invariant. -/
theorem Local.callInv {s : State J} {c : Nat} {new : CallState J} (hs : RecordInv cfg s)
    (h : Local cfg s c (s.calls c) new) : CallInv cfg s.attempts c new.client new.tx := by
  have hcall := hs.call c
  have hfree := fun rows w eventID attempt => @not_taken J cfg s c rows w eventID attempt hs
  generalize s.calls c = old at h hcall hfree
  cases h with
  | beginAccept =>
      exact hcall.of_blank (by simp [Tx.live]) rfl (by simp) (by simp) (by simp)
  | beginAttempt =>
      exact hcall.of_blank (by simp [Tx.live]) rfl (by simp) (by simp) (by simp)
  | invalidAttempt => exact hcall.of_client (by simp) (by simp) (by simp)
  | mismatch => exact hcall.of_client (by simp) (by simp) (by simp [History.mismatch]; split <;> simp)
  | commitDeduplicated => exact hcall.of_closing (by simp) (by simp) (by simp)
  | encodeFailed => exact hcall.of_client (by simp) (by simp) (by simp)
  | mark => exact hcall.of_blank (by simp [Tx.live]) rfl (by simp) (by simp) (by simp)
  | commitPublished => exact hcall.of_closing (by simp) (by simp) (by simp)
  | notFound => exact hcall.of_client (by simp) (by simp) (by simp)
  | snapshot =>
      refine ⟨?_, hcall.live, hcall.owned, hcall.committed, by simp, by simp, by simp⟩
      intro rows _ _ _ hc _ _
      obtain rfl : s.attempts = rows := by simpa using hc
      rfl
  | @insertAttempt eventID attempt rows w job =>
      have hsame := hcall.snapshot rows w eventID attempt rfl rfl job
      refine ⟨by simp, ?_, hcall.owned, by simp, ?_, by simp, by simp⟩
      · intro row hrow
        obtain rfl : attemptRow c eventID attempt rows = row := by simpa [Tx.live] using hrow
        exact ⟨eventID, attempt, job, attemptRow_congr hsame c⟩
      · intro _ w' hw
        obtain rfl : Write.attempt (attemptRow c eventID attempt rows) = w' := by
          simpa [Tx.written] using hw
        exact ⟨_, rfl⟩
  | @violate eventID attempt rows tx job taken active =>
      -- the number was free when it was chosen, and the lock on the event kept it free
      obtain ⟨w, rfl⟩ := active
      exact absurd taken (hfree rows w eventID attempt rfl job)
  | @commitAttempt w =>
      exact hcall.of_closing (by simp) (fun _ => hcall.inserted (Or.inl rfl) w rfl) (by simp)
  | acknowledge => exact hcall.of_client (by simp) (by simp) (by simp)
  | @acknowledgeAttempt w =>
      obtain ⟨row, rfl⟩ := hcall.inserted (Or.inr rfl) w rfl
      exact ⟨by simp, hcall.live, hcall.owned, hcall.committed, by simp, fun _ => ⟨row, rfl⟩, by simp⟩
  | fail => exact hcall.of_client (by simp) (by simp) (by simp)

/-- What a commit adds to the attempts: nothing, or the committing call's own next row. -/
theorem RecordInv.commit {s : State J} {c : Nat} {client : Client J} {w : Write} (hs : RecordInv cfg s)
    (hcall : s.calls c = ⟨client, .closing w⟩) : (s.apply w).attempts = s.attempts ∧
        (Tx.committed w).attempts = [] ∨
      ∃ eventID attempt, cfg.jobs c = .record eventID attempt ∧
        w = .attempt (attemptRow c eventID attempt s.attempts) ∧
        (s.apply w).attempts = s.attempts ++ [attemptRow c eventID attempt s.attempts] := by
  cases w with
  | nothing => exact Or.inl ⟨rfl, rfl⟩
  | publish => exact Or.inl ⟨rfl, rfl⟩
  | attempt row =>
      obtain ⟨eventID, attempt, job, rfl⟩ := (hs.call c).live row (by rw [hcall]; rfl)
      exact Or.inr ⟨eventID, attempt, job, rfl, rfl⟩

/-- The server's decision keeps the committing call's part of the invariant. -/
theorem RecordInv.committed {s : State J} {c : Nat} {client : Client J} {w : Write}
    (hs : RecordInv cfg s) (hcall : s.calls c = ⟨client, .closing w⟩) :
    CallInv cfg (s.apply w).attempts c client (.committed w) := by
  have hinv := hs.call c
  rw [hcall] at hinv
  refine ⟨by simp, by simp [Tx.live], ?_, ?_, hinv.inserted, ?_, hinv.never⟩
  · have hnone : History.owned s.attempts c = [] := hinv.owned
    rcases hs.commit hcall with ⟨hsame, hempty⟩ | ⟨eventID, attempt, _, rfl, happ⟩
    · rw [hsame, hnone, hempty]
    · rw [happ, owned_append, hnone, owned_attemptRow]
      rfl
  · intro row hrow
    obtain rfl : w = .attempt row := by simpa using hrow
    obtain ⟨eventID, attempt, job, hnew⟩ := hinv.live row rfl
    exact ⟨eventID, attempt, _, job, hnew⟩
  · intro hdone
    obtain ⟨row, hrow⟩ := hinv.recorded hdone
    exact absurd hrow (by simp)

/-! ## Every step -/

theorem RecordInv.initial {s : State J} (h : Initial s) : RecordInv cfg s where
  locked := Locked.initial h
  dense := h.attempts
  call c := by
    rw [h.calls c]
    refine ⟨by simp, by simp [Tx.live], ?_, by simp, by simp, by simp, by simp⟩
    have hnone : ∀ row ∈ s.attempts, ¬ (decide (row.owner = some c) = true) := fun row hrow => by
      rw [h.owners row hrow]
      simp
    exact List.filter_eq_nil_iff.mpr hnone

variable [DecidableEq J]

theorem Step.attempts {s t : State J} {c : Nat} (hs : RecordInv cfg s) (h : Step cfg s c t) :
    t.attempts = s.attempts ∨ ∃ eventID attempt, cfg.jobs c = .record eventID attempt ∧
      t.attempts = s.attempts ++ [attemptRow c eventID attempt s.attempts] := by
  cases h with
  | commit hcall =>
      rcases hs.commit hcall with ⟨hsame, _⟩ | ⟨eventID, attempt, job, _, happ⟩
      · exact Or.inl hsame
      · exact Or.inr ⟨eventID, attempt, job, happ⟩
  | call => exact Or.inl rfl
  | insert => exact Or.inl rfl
  | read => exact Or.inl rfl
  | lockEvent => exact Or.inl rfl
  | publish => exact Or.inl rfl
  | abort => exact Or.inl rfl

theorem Step.callInv {s t : State J} {c : Nat} (hs : RecordInv cfg s) (h : Step cfg s c t) :
    CallInv cfg t.attempts c (t.calls c).client (t.calls c).tx := by
  have hinv := hs.call c
  -- the steps of an acceptance leave the attempts as they are
  cases h with
  | call h =>
      rw [put_self]
      exact Local.callInv (s := s) hs h
  | @insert rec data seen job client =>
      rw [put_self]
      rw [client] at hinv
      have hnext : ∀ n, afterInsert (J := J) (trimKey rec) n = .reserved ∨
          afterInsert (J := J) (trimKey rec) n = .done (.failed .generatedIDExists) := fun n => by
        unfold afterInsert
        split
        · exact Or.inr rfl
        · exact Or.inl rfl
      cases seen with
      | false => exact hinv.of_client (by simp) (by simp) (by simp)
      | true =>
          rcases hnext (insertEvent s.events (newRow c (trimKey rec) data)).1 with h | h
          · rw [if_pos rfl, h]
            exact hinv.of_client (by simp) (by simp) (by simp)
          · rw [if_pos rfl, h]
            exact hinv.of_client (by simp) (by simp) (by simp)
  | read job client =>
      rw [put_self]
      rw [client] at hinv
      exact hinv.of_client (by simp) (by simp) (by simp)
  | lockEvent job client =>
      rw [put_self]
      rw [client] at hinv
      exact hinv.of_client (by simp) (by simp) (by simp)
  | @publish row tx value result client =>
      rw [put_self]
      rw [client] at hinv
      cases result <;> exact hinv.of_client (by simp [afterPublish]) (by simp [afterPublish])
        (by simp [afterPublish])
  | commit call =>
      rw [put_self]
      exact hs.committed call
  | @abort client w issued call =>
      rw [put_self]
      rw [call] at hinv
      refine ⟨by simp, by simp [Tx.live], ?_, by simp, by simp [Tx.written], ?_, hinv.never⟩
      · refine hinv.owned.trans ?_
        cases issued <;> rfl
      · intro hdone
        -- a call that is done has its row in the table, so there was nothing left to abort
        obtain ⟨row, hrow⟩ := hinv.recorded hdone
        cases issued <;> exact absurd hrow (by simp)

theorem RecordInv.step {s t : State J} {c : Nat} (hs : RecordInv cfg s) (h : Step cfg s c t) :
    RecordInv cfg t where
  locked := hs.locked.step h
  dense := by
    rcases h.attempts hs with hsame | ⟨eventID, attempt, _, happ⟩
    · rw [hsame]
      exact hs.dense
    · rw [happ]
      exact hs.dense.append rfl
  call c' := by
    by_cases hc : c' = c
    · rw [hc]
      exact h.callInv hs
    · refine (hs.call c').frame hs.locked (h.frame hs.locked hc) ?_
      rcases h.attempts hs with hsame | ⟨eventID, attempt, _, happ⟩
      · rw [hsame]
      · rw [happ, owned_append, owned_singleton rfl hc, List.append_nil]

/-- **The history invariant holds in every reachable state.** -/
theorem recordInv_of_reachable {s : State J} (h : (system cfg).Reachable s) : RecordInv cfg s :=
  Logic.System.invariant (fun _ => RecordInv.initial) (fun _ _ _ hs ⟨_, hstep⟩ => hs.step hstep) h

/-! ## A gap-free history -/

/-- **A gap-free history**, as it stands in one state and for all states after it. -/
structure GapFree (cfg : Setting J) (s : State J) : Prop where
  /-- The numbers of every event and subscription are `1, …, n`, in the order of the commits. -/
  dense : ∀ eventID sub, ∃ n, numbers s.attempts eventID sub = List.range' 1 n
  /-- A call that returned nil owns exactly one row, and it is its own data. -/
  recorded : ∀ c eventID attempt, cfg.jobs c = .record eventID attempt →
    (s.calls c).client = .done .recorded →
    ∃ number, owned s.attempts c = [rowOf (some c) eventID attempt number]
  /-- A call whose commit was never sent owns nothing, and its failing before that keeps it so. -/
  lost : ∀ c, (s.calls c).tx.issued = false → owned s.attempts c = [] ∧
    ∀ e, (s.calls c).client = .done (.failed e) → ∀ t, (system cfg).Later s t → owned t.attempts c = []
  /-- No call fails on the sequence constraint. -/
  never : ∀ c, (s.calls c).client ≠ .done (.failed .uniqueViolation)
  /-- Rows stay, and what is committed later in a pair has a higher number. -/
  order : ∀ t, (system cfg).Later s t → ∃ new, t.attempts = s.attempts ++ new ∧
    ∀ eventID sub, ∀ n ∈ numbers s.attempts eventID sub, ∀ m ∈ numbers new eventID sub, n < m

/-- A call that failed with its commit not sent never sends it. -/
theorem Step.not_issued {s t : State J} {c c' : Nat} {e : Failure} (hl : Locked cfg s)
    (h : Step cfg s c' t) (hdone : (s.calls c).client = .done (.failed e))
    (hissued : (s.calls c).tx.issued = false) :
    (t.calls c).client = .done (.failed e) ∧ (t.calls c).tx.issued = false := by
  -- a step of another call leaves it alone, and of its own steps only the abort is left
  by_cases hc : c = c'
  · subst hc
    cases h with
    | @call new h =>
        generalize s.calls c = old at h hdone
        cases h with
        | fail running => exact absurd hdone (running _)
        | _ => exact absurd hdone (by simp)
    | insert _ _ client => exact absurd hdone (by rw [client]; simp)
    | read _ client => exact absurd hdone (by rw [client]; simp)
    | lockEvent _ client => exact absurd hdone (by rw [client]; simp)
    | publish _ client => exact absurd hdone (by rw [client]; simp)
    | commit call => exact absurd hissued (by rw [call]; simp [Tx.issued])
    | @abort client w issued call =>
        rw [put_self]
        rw [call] at hdone hissued
        refine ⟨hdone, ?_⟩
        cases issued with
        | false => rfl
        | true => exact absurd hissued (by simp [Tx.issued])
  · rw [(h.frame hl hc).calls]
    exact ⟨hdone, hissued⟩

/-- **Recording is gap-free and loses nothing**: of any number of calls, beside any number that accept
events, with any statement failing at any moment. -/
theorem recordAttempt_gapFree {s : State J} (hs : (system cfg).Reachable s) : GapFree cfg s := by
  have inv : RecordInv cfg s := recordInv_of_reachable hs
  refine ⟨fun eventID sub => ⟨_, inv.dense eventID sub⟩, ?_, ?_, fun c => (inv.call c).never, ?_⟩
  · intro c eventID attempt job hdone
    obtain ⟨row, htx⟩ := (inv.call c).recorded hdone
    obtain ⟨eventID', attempt', number, job', hrow⟩ := (inv.call c).committed row htx
    obtain ⟨rfl, rfl⟩ := Job.record.inj (job.symm.trans job')
    refine ⟨number, ?_⟩
    rw [(inv.call c).owned, htx, ← hrow]
    rfl
  · intro c hissued
    refine ⟨(inv.call c).owned_nil hissued, fun e hdone t ht => ?_⟩
    -- a call that failed without a commit stays that way, so its row never appears
    have hlater := Logic.System.later (R := fun _ u => (u.calls c).client = .done (.failed e) ∧
      (u.calls c).tx.issued = false) hs ⟨hdone, hissued⟩ (fun u v hu hr ⟨_, hstep⟩ =>
        hstep.not_issued (locked_of_reachable hu) hr.1 hr.2) ht
    exact ((recordInv_of_reachable (hs.later ht)).call c).owned_nil hlater.2
  · intro t ht
    obtain ⟨new, hnew⟩ := (permanent_of_later hs ht).attempts
    refine ⟨new, hnew, fun eventID sub n hn m hm => ?_⟩
    -- the numbers of a pair are 1, 2, 3 and so on, so what comes later is greater
    have hdense := (recordInv_of_reachable (hs.later ht)).dense eventID sub
    have hsorted : (numbers t.attempts eventID sub).Pairwise (· < ·) := by
      rw [hdense]
      exact List.pairwise_lt_range'
    rw [hnew, numbers_append] at hsorted
    exact (List.pairwise_append.mp hsorted).2.2 n hn m hm

/-! ## A call nobody disturbs -/

/-- **A valid attempt of a stored event, undisturbed, is recorded** under the pair's next number. -/
theorem record_undisturbed {s : State J} {c : Nat} {eventID : Bytes} {attempt : Attempt}
    (hs : RecordInv cfg s) (job : cfg.jobs c = .record eventID attempt)
    (client : s.calls c = ⟨.start, .idle⟩) (ok : validateAttempt eventID attempt = none)
    (present : ∃ row ∈ s.events, row.id = eventID) (free : s.lock eventID = none)
    (checks : (attemptRow c eventID attempt s.attempts).checks = true) :
    ∃ t, (system cfg).Later s t ∧ (t.calls c).client = .done .recorded ∧
      t.attempts = s.attempts ++ [attemptRow c eventID attempt s.attempts] := by
  generalize hrow : attemptRow c eventID attempt s.attempts = row at checks ⊢
  obtain ⟨s₁, h₁, hc₁, he₁, ha₁, hl₁⟩ : ∃ t, Step cfg s c t ∧ t.calls c = ⟨.begun, .active .nothing⟩ ∧
      t.events = s.events ∧ t.attempts = s.attempts ∧ t.lock = s.lock :=
    ⟨_, .of_local client (.beginAttempt job ok), put_self _ _ _, rfl, rfl, rfl⟩
  obtain ⟨s₂, h₂, hc₂, ha₂⟩ : ∃ t, Step cfg s₁ c t ∧ t.calls c = ⟨.locked, .active .nothing⟩ ∧
      t.attempts = s₁.attempts :=
    ⟨_, .lockEvent job hc₁ (he₁ ▸ present) (by rw [hl₁]; exact free), put_self _ _ _, rfl⟩
  obtain ⟨s₃, h₃, hc₃, ha₃⟩ : ∃ t, Step cfg s₂ c t ∧
      t.calls c = ⟨.inserting s.attempts, .active .nothing⟩ ∧ t.attempts = s₂.attempts := by
    refine ⟨_, .of_local hc₂ .snapshot, ?_, rfl⟩
    rw [put_self, ha₂, ha₁]
  -- the lock is held and the snapshot fresh, so the constraint cannot refuse the row
  have hfree : ¬ Taken s₃ c row :=
    hrow ▸ not_taken (((hs.step h₁).step h₂).step h₃) hc₃ job
  obtain ⟨s₄, h₄, hc₄, ha₄⟩ : ∃ t, Step cfg s₃ c t ∧
      t.calls c = ⟨.inserted, .active (.attempt row)⟩ ∧ t.attempts = s₃.attempts := by
    subst hrow
    exact ⟨_, .of_local hc₃ (.insertAttempt job hfree checks), put_self _ _ _, rfl⟩
  obtain ⟨s₅, h₅, hc₅, ha₅⟩ : ∃ t, Step cfg s₄ c t ∧
      t.calls c = ⟨.closingAttempt, .closing (.attempt row)⟩ ∧ t.attempts = s₄.attempts :=
    ⟨_, .of_local hc₄ .commitAttempt, put_self _ _ _, rfl⟩
  obtain ⟨s₆, h₆, hc₆, ha₆⟩ : ∃ t, Step cfg s₅ c t ∧
      t.calls c = ⟨.closingAttempt, .committed (.attempt row)⟩ ∧ t.attempts = s₅.attempts ++ [row] :=
    ⟨_, .commit hc₅, put_self _ _ _, rfl⟩
  obtain ⟨s₇, h₇, hc₇, ha₇⟩ : ∃ t, Step cfg s₆ c t ∧
      t.calls c = ⟨.done .recorded, .committed (.attempt row)⟩ ∧ t.attempts = s₆.attempts :=
    ⟨_, .of_local hc₆ .acknowledgeAttempt, put_self _ _ _, rfl⟩
  refine ⟨s₇, ?_, by rw [hc₇], by rw [ha₇, ha₆, ha₅, ha₄, ha₃, ha₂, ha₁]⟩
  exact .head ⟨c, h₁⟩ (.head ⟨c, h₂⟩ (.head ⟨c, h₃⟩ (.head ⟨c, h₄⟩ (.head ⟨c, h₅⟩
    (.head ⟨c, h₆⟩ (.single ⟨c, h₇⟩))))))

/-- A store that holds one event and no attempt. -/
def oneEvent : State Bytes :=
  { unused with events := [⟨ascii "evt_1", ascii "acme", ascii "ping", ascii "1", ascii "1", [], false, 0,
    false, none⟩] }

/-- A subscriber's 200 to it. -/
def delivered : Attempt where
  subscriptionID := 1
  subscriptionURL := ascii "http://sink"
  attemptNumber := 1
  startedAt := .ofUnix 1
  finishedAt := .ofUnix 2
  httpStatus := some 200
  transportError := []
  outcome := outcomeDelivered

/-- Every call records it. -/
def deliveries : Setting Bytes := ⟨some, fun _ => 0, fun _ => .record (ascii "evt_1") delivered⟩

theorem initial_oneEvent : Initial oneEvent where
  events := List.pairwise_singleton _ _
  keys := by simp [oneEvent]
  creators := by simp [oneEvent]
  acked := by simp [oneEvent]
  callers := by simp [oneEvent, unused]
  attempts := (initial_unused (J := Bytes)).attempts
  owners := by simp [oneEvent, unused]
  locks _ := rfl
  calls _ := rfl

theorem recordAttempt_gapFree_delivered : ∃ t : State Bytes, (t.calls 0).client = .done .recorded ∧
    t.attempts = [rowOf (some 0) (ascii "evt_1") delivered 1] ∧ GapFree deliveries t := by
  have hstart : (system deliveries).Reachable oneEvent := ⟨_, initial_oneEvent, .refl⟩
  have hjob : deliveries.jobs 0 = .record (ascii "evt_1") delivered := rfl
  have hok : validateAttempt (ascii "evt_1") delivered = none := by decide +kernel
  have hchecks : (attemptRow 0 (ascii "evt_1") delivered oneEvent.attempts).checks = true := by
    decide
  have hpresent : ∃ row ∈ oneEvent.events, row.id = ascii "evt_1" := ⟨_, List.mem_singleton_self _, rfl⟩
  obtain ⟨t, ht, hdone, hrows⟩ := record_undisturbed (recordInv_of_reachable hstart) hjob rfl hok
    hpresent rfl hchecks
  exact ⟨t, hdone, hrows, recordAttempt_gapFree (hstart.later ht)⟩

end LocalPlatform.Relay.History
