/-
# LocalPlatform.Relay.History.Isolation — what a row lock protects.

Every call that goes on to write under an event id holds that id's lock while its transaction is open
(`Locked`), and so a step of one call leaves alone everything another call relies on (`Frame`): the other
call's own state, the locks it holds, the rows and attempt numbers under those locks, and whatever is
permanent.  The invariants of both operations are proved for the call that moves and carried over to all
others by the frame.
-/
import LocalPlatform.Relay.History.Store

namespace LocalPlatform.Relay.History

open Codec

variable {J : Type}

/-! ## Locks and writes -/

/-- The event id a write goes under. -/
def Write.target : Write → Option Bytes
  | .nothing => none
  | .publish id => some id
  | .attempt row => some row.eventID

/-- The writes of a transaction the server has not ended. -/
def Tx.live : Tx → Option Write
  | .active w => some w
  | .closing w => some w
  | _ => none

/-- The event id a call has locked, by where it is in its source text. -/
def Client.target (job : Job) : Client J → Option Bytes
  | .read row _ => some row.id
  | .published row => some row.id
  | .marked row => some row.id
  | .locked | .inserting _ | .inserted =>
    match job with
    | .record eventID _ => some eventID
    | .accept _ => none
  | _ => none

/-- **A call holds the lock of what it is about to write, and of what it has written.** -/
structure Locked (cfg : Setting J) (s : State J) : Prop where
  hold : ∀ c w id, (s.calls c).tx = .active w → (s.calls c).client.target (cfg.jobs c) = some id →
    s.lock id = some c
  write : ∀ c w id, (s.calls c).tx.live = some w → w.target = some id → s.lock id = some c

section Projections

variable (s : State J) (c : Nat) (call : CallState J)

@[simp] theorem put_events : (s.put c call).events = s.events := rfl
@[simp] theorem put_attempts : (s.put c call).attempts = s.attempts := rfl
@[simp] theorem put_lock : (s.put c call).lock = s.lock := rfl
@[simp] theorem put_log : (s.put c call).log = s.log := rfl
@[simp] theorem put_self : (s.put c call).calls c = call := by simp [State.put]

theorem put_other {c' : Nat} (h : c' ≠ c) : (s.put c call).calls c' = s.calls c' := by
  simp [State.put, h]

@[simp] theorem release_events : (s.release c).events = s.events := rfl
@[simp] theorem release_attempts : (s.release c).attempts = s.attempts := rfl
@[simp] theorem release_calls : (s.release c).calls = s.calls := rfl
@[simp] theorem release_log : (s.release c).log = s.log := rfl

theorem release_lock {s : State J} {c c' : Nat} {id : Bytes} (h : s.lock id = some c') (hne : c' ≠ c) :
    (s.release c).lock id = some c' := by
  have hc : s.lock id ≠ some c := by
    rw [h]
    exact fun he => hne (Option.some.inj he)
  show (if s.lock id = some c then none else s.lock id) = some c'
  rw [if_neg hc, h]

@[simp] theorem acquire_events (id : Bytes) : (s.acquire c id).events = s.events := rfl
@[simp] theorem acquire_attempts (id : Bytes) : (s.acquire c id).attempts = s.attempts := rfl
@[simp] theorem acquire_calls (id : Bytes) : (s.acquire c id).calls = s.calls := rfl
@[simp] theorem acquire_log (id : Bytes) : (s.acquire c id).log = s.log := rfl
@[simp] theorem acquire_lock_self (id : Bytes) : (s.acquire c id).lock id = some c := by
  simp [State.acquire]

/-- Acquiring a free lock takes none away. -/
theorem acquire_lock {s : State J} {c c' : Nat} {id id' : Bytes} (hfree : s.lock id = none)
    (h : s.lock id' = some c') : (s.acquire c id).lock id' = some c' := by
  have hne : id' ≠ id := by
    rintro rfl
    rw [hfree] at h
    exact absurd h (by simp)
  simp [State.acquire, hne, h]

@[simp] theorem apply_lock (w : Write) : (s.apply w).lock = s.lock := by cases w <;> rfl
@[simp] theorem apply_calls (w : Write) : (s.apply w).calls = s.calls := by cases w <;> rfl
@[simp] theorem apply_log (w : Write) : (s.apply w).log = s.log := by cases w <;> rfl

@[simp] theorem publishes_events (p : Publication) : (s.publishes p).events = s.events := rfl
@[simp] theorem publishes_attempts (p : Publication) : (s.publishes p).attempts = s.attempts := rfl
@[simp] theorem publishes_lock (p : Publication) : (s.publishes p).lock = s.lock := rfl
@[simp] theorem publishes_calls (p : Publication) : (s.publishes p).calls = s.calls := rfl
@[simp] theorem publishes_log (p : Publication) : (s.publishes p).log = s.log ++ [p] := rfl

end Projections

/-! ## The lock invariant -/

variable {cfg : Setting J}

theorem Locked.initial {s : State J} (h : Initial s) : Locked cfg s where
  hold c w id htx := by
    rw [h.calls c] at htx
    exact absurd htx (by simp)
  write c w id htx := by
    rw [h.calls c] at htx
    exact absurd htx (by simp [Tx.live])

/-- The lock invariant of a state, from that of the call that moved and the locks of all others. -/
theorem Locked.of_call {s t : State J} (hs : Locked cfg s) {c : Nat}
    (hothers : ∀ c' ≠ c, t.calls c' = s.calls c' ∧ ∀ id, s.lock id = some c' → t.lock id = some c')
    (hhold : ∀ w id, (t.calls c).tx = .active w → (t.calls c).client.target (cfg.jobs c) = some id →
      t.lock id = some c)
    (hwrite : ∀ w id, (t.calls c).tx.live = some w → w.target = some id → t.lock id = some c) :
    Locked cfg t where
  hold c' w id htx ht := by
    by_cases hc : c' = c
    · subst hc
      exact hhold w id htx ht
    · obtain ⟨hcalls, hlock⟩ := hothers c' hc
      rw [hcalls] at htx ht
      exact hlock id (hs.hold c' w id htx ht)
  write c' w id htx ht := by
    by_cases hc : c' = c
    · subst hc
      exact hwrite w id htx ht
    · obtain ⟨hcalls, hlock⟩ := hothers c' hc
      rw [hcalls] at htx
      exact hlock id (hs.write c' w id htx ht)

/-- A transaction that has just begun has written nothing. -/
theorem nothing_written {s : State J} {c : Nat} (w : Write) (id : Bytes)
    (hl : (Tx.active .nothing).live = some w) (ht : w.target = some id) : s.lock id = some c := by
  obtain rfl : Write.nothing = w := by simpa [Tx.live] using hl
  exact absurd ht (by simp [Write.target])

/-- A local step needs no lock it did not hold. -/
theorem Local.locked {s : State J} {c : Nat} {new : CallState J} (hs : Locked cfg s)
    (h : Local cfg s c (s.calls c) new) :
    (∀ w id, new.tx = .active w → new.client.target (cfg.jobs c) = some id → s.lock id = some c) ∧
      (∀ w id, new.tx.live = some w → w.target = some id → s.lock id = some c) := by
  have hold := hs.hold c
  have write := hs.write c
  generalize s.calls c = old at h hold write
  -- only the mark and the insert of an attempt name something new to write, and both hold its lock
  cases h with
  | beginAccept => exact ⟨fun w id _ ht => absurd ht (by simp [Client.target]), nothing_written⟩
  | beginAttempt => exact ⟨fun w id _ ht => absurd ht (by simp [Client.target]), nothing_written⟩
  | invalidAttempt => simp [Tx.live]
  | mismatch => exact ⟨fun w id _ ht => absurd ht (by simp [Client.target]), write⟩
  | commitDeduplicated => exact ⟨by simp, fun w id hl => write w id (by simpa [Tx.live] using hl)⟩
  | encodeFailed => exact ⟨fun w id _ ht => absurd ht (by simp [Client.target]), write⟩
  | @mark row w =>
      have hrow : s.lock row.id = some c := hold w row.id rfl rfl
      constructor
      · intro w' id _ ht
        obtain rfl : row.id = id := by simpa [Client.target] using ht
        exact hrow
      · intro w' id hl ht
        obtain rfl : Write.publish row.id = w' := by simpa [Tx.live] using hl
        obtain rfl : row.id = id := by simpa [Write.target] using ht
        exact hrow
  | commitPublished => exact ⟨by simp, fun w id hl => write w id (by simpa [Tx.live] using hl)⟩
  | notFound => exact ⟨fun w id _ ht => absurd ht (by simp [Client.target]), write⟩
  | snapshot => exact ⟨fun w id hw ht => hold w id hw ht, write⟩
  | @insertAttempt eventID attempt snapshot w job =>
      have hevent : s.lock eventID = some c := hold w eventID rfl (by simp [Client.target, job])
      constructor
      · intro w' id _ ht
        obtain rfl : eventID = id := by simpa [Client.target, job] using ht
        exact hevent
      · intro w' id hl ht
        obtain rfl : Write.attempt (attemptRow c eventID attempt snapshot) = w' := by
          simpa [Tx.live] using hl
        obtain rfl : eventID = id := by simpa [Write.target, attemptRow, rowOf] using ht
        exact hevent
  | violate => exact ⟨fun w id _ ht => absurd ht (by simp [Client.target]), write⟩
  | commitAttempt => exact ⟨by simp, fun w id hl => write w id (by simpa [Tx.live] using hl)⟩
  | acknowledge => simp [Tx.live]
  | acknowledgeAttempt => simp [Tx.live]
  | fail => exact ⟨fun w id _ ht => absurd ht (by simp [Client.target]), write⟩

/-! ## What a step leaves alone -/

/-- **What is permanent**: rows stay, a published row stays as it is, the log and the attempts only
grow. -/
structure Permanent (s t : State J) : Prop where
  stored : ∀ row ∈ s.events, ∃ r ∈ t.events, r.core = row.core
  published : ∀ row ∈ s.events, row.published = true → row ∈ t.events
  log : ∃ new, t.log = s.log ++ new
  attempts : ∃ new, t.attempts = s.attempts ++ new

/-- **What a step of another call leaves alone** for call `c`. -/
structure Frame (s t : State J) (c : Nat) : Prop where
  permanent : Permanent s t
  calls : t.calls c = s.calls c
  lock : ∀ id, s.lock id = some c → t.lock id = some c
  rows : ∀ row ∈ s.events, s.lock row.id = some c → row ∈ t.events
  numbers : ∀ id sub, s.lock id = some c → numbers t.attempts id sub = numbers s.attempts id sub

theorem Permanent.refl (s : State J) : Permanent s s :=
  ⟨fun row h => ⟨row, h, rfl⟩, fun _ h _ => h, ⟨[], by simp⟩, ⟨[], by simp⟩⟩

theorem Permanent.trans {s t u : State J} (h : Permanent s t) (h' : Permanent t u) : Permanent s u where
  stored row hrow := by
    obtain ⟨r, hr, hcore⟩ := h.stored row hrow
    obtain ⟨r', hr', hcore'⟩ := h'.stored r hr
    exact ⟨r', hr', hcore'.trans hcore⟩
  published row hrow hp := h'.published row (h.published row hrow hp) hp
  log := by
    obtain ⟨a, ha⟩ := h.log
    obtain ⟨b, hb⟩ := h'.log
    exact ⟨a ++ b, by rw [hb, ha, List.append_assoc]⟩
  attempts := by
    obtain ⟨a, ha⟩ := h.attempts
    obtain ⟨b, hb⟩ := h'.attempts
    exact ⟨a ++ b, by rw [hb, ha, List.append_assoc]⟩

/-- A state with the same tables and a longer log keeps what is permanent. -/
theorem Permanent.of_eq {s t : State J} (hevents : t.events = s.events)
    (hattempts : t.attempts = s.attempts) (hlog : ∃ new, t.log = s.log ++ new) : Permanent s t where
  stored row h := ⟨row, hevents ▸ h, rfl⟩
  published row h _ := hevents ▸ h
  log := hlog
  attempts := ⟨[], by simp [hattempts]⟩

theorem mem_markPublished (id : Bytes) {events : List (EventRow J)} {row : EventRow J}
    (h : row ∈ events) : (if row.id = id then { row with published := true } else row) ∈
      markPublished id events := List.mem_map_of_mem h

theorem mem_markPublished_of_ne {id : Bytes} {events : List (EventRow J)} {row : EventRow J}
    (h : row ∈ events) (hne : row.id ≠ id) : row ∈ markPublished id events := by
  have hmem := mem_markPublished id h
  rwa [if_neg hne] at hmem

theorem mem_markPublished_of_published {id : Bytes} {events : List (EventRow J)} {row : EventRow J}
    (h : row ∈ events) (hp : row.published = true) : row ∈ markPublished id events := by
  have hmem := mem_markPublished id h
  have hsame : { row with published := true } = row := by rw [← hp]
  rw [hsame] at hmem
  simpa using hmem

theorem core_markPublished {id : Bytes} {events : List (EventRow J)} {row : EventRow J}
    (h : row ∈ events) : ∃ r ∈ markPublished id events, r.core = row.core := by
  refine ⟨_, mem_markPublished id h, ?_⟩
  split <;> rfl

theorem Permanent.apply (s : State J) (w : Write) : Permanent s (s.apply w) := by
  cases w with
  | nothing => exact Permanent.refl s
  | publish id =>
      exact ⟨fun row h => core_markPublished h, fun row h hp => mem_markPublished_of_published h hp,
        ⟨[], by simp [State.apply]⟩, ⟨[], by simp [State.apply]⟩⟩
  | attempt row => exact ⟨fun row h => ⟨row, h, rfl⟩, fun _ h _ => h, ⟨[], by simp [State.apply]⟩,
      ⟨[row], rfl⟩⟩

theorem mem_insertEvent {events : List (EventRow J)} {row r : EventRow J} (h : r ∈ events) :
    r ∈ (insertEvent events row).2 := by
  unfold insertEvent
  split
  · exact h
  · exact List.mem_append_left _ h

theorem numbers_singleton {id id' : Bytes} {sub : Int} {row : AttemptRow} (hrow : row.eventID = id')
    (hne : id ≠ id') : numbers [row] id sub = [] := by
  have hpair : pair id sub row = false := by simp [pair, hrow, Ne.symm hne]
  simp [numbers, hpair]

/-! ## Every step -/

variable [DecidableEq J]

theorem Step.of_local {s : State J} {c : Nat} {old new : CallState J} (hcall : s.calls c = old)
    (h : Local cfg s c old new) : Step cfg s c (s.put c new) := by
  subst hcall
  exact .call h

theorem Locked.step {s t : State J} {c : Nat} (hs : Locked cfg s) (h : Step cfg s c t) :
    Locked cfg t := by
  -- a lock is taken where a row is read, and given back at the end of the transaction
  cases h with
  | @call new h =>
      obtain ⟨hhold, hwrite⟩ := h.locked hs
      exact hs.of_call (fun c' hc => ⟨put_other s c new hc, fun _ hl => hl⟩)
        (by simpa using hhold) (by simpa using hwrite)
  | insert =>
      exact hs.of_call (fun c' hc => ⟨put_other _ c _ hc, fun _ hl => hl⟩)
        (by simp) (by simp [Tx.live])
  | @read rec data row w job client json found free =>
      refine hs.of_call (c := c) (fun c' hc => ⟨put_other _ c _ hc, fun id hl => acquire_lock free hl⟩)
        ?_ ?_
      · intro w' id _ ht
        obtain rfl : row.id = id := by simpa [Client.target] using ht
        simp
      · intro w' id hl ht
        rw [put_self] at hl
        exact acquire_lock free (hs.write c w' id (by rw [client]; exact hl) ht)
  | @lockEvent eventID attempt w job client present free =>
      refine hs.of_call (c := c) (fun c' hc => ⟨put_other _ c _ hc, fun id hl => acquire_lock free hl⟩)
        ?_ ?_
      · intro w' id _ ht
        obtain rfl : eventID = id := by simpa [Client.target, job] using ht
        simp
      · intro w' id hl ht
        rw [put_self] at hl
        exact acquire_lock free (hs.write c w' id (by rw [client]; exact hl) ht)
  | @publish row tx value result client unpublished encoded =>
      refine hs.of_call (c := c) (fun c' hc => ⟨put_other _ c _ hc, fun _ hl => hl⟩) ?_ ?_
      · intro w id htx ht
        rw [put_self] at htx ht
        have htarget : row.id = id := by
          cases result with
          | acked => simpa [afterPublish, Client.target] using ht
          | failed r => exact absurd ht (by simp [afterPublish, Client.target])
        exact hs.hold c w id (by rw [client]; exact htx) (by rw [client, ← htarget]; rfl)
      · intro w id hl ht
        rw [put_self] at hl
        exact hs.write c w id (by rw [client]; exact hl) ht
  | @commit client w call =>
      refine hs.of_call (c := c) (fun c' hc => ⟨?_, fun id hl => ?_⟩) (by simp) (by simp [Tx.live])
      · rw [put_other _ c _ hc, release_calls, apply_calls]
      · exact release_lock (by rw [apply_lock]; exact hl) hc
  | abort =>
      exact hs.of_call (c := c) (fun c' hc => ⟨put_other _ c _ hc, fun id hl => release_lock hl hc⟩)
        (by simp) (by simp [Tx.live])

theorem locked_of_reachable {s : State J} (h : (system cfg).Reachable s) : Locked cfg s :=
  Logic.System.invariant (fun _ => Locked.initial) (fun _ _ _ hs ⟨_, hstep⟩ => hs.step hstep) h

theorem Step.permanent {s t : State J} {c : Nat} (h : Step cfg s c t) : Permanent s t := by
  cases h with
  | call => exact Permanent.of_eq rfl rfl ⟨[], by simp⟩
  | insert => exact ⟨fun row h => ⟨row, mem_insertEvent h, rfl⟩, fun _ h _ => mem_insertEvent h,
      ⟨[], by simp⟩, ⟨[], by simp⟩⟩
  | read => exact Permanent.of_eq rfl rfl ⟨[], by simp⟩
  | lockEvent => exact Permanent.of_eq rfl rfl ⟨[], by simp⟩
  | @publish row _ _ result => exact Permanent.of_eq rfl rfl ⟨[⟨some c, row.record cfg.zone, result⟩], rfl⟩
  | @commit client w _ =>
      have happly := Permanent.apply s w
      exact ⟨happly.stored, happly.published, happly.log, happly.attempts⟩
  | abort => exact Permanent.of_eq rfl rfl ⟨[], by simp⟩

theorem permanent_of_later {s t : State J} (hs : (system cfg).Reachable s)
    (h : (system cfg).Later s t) : Permanent s t :=
  Logic.System.later hs (Permanent.refl s) (fun _ _ _ hr ⟨_, hstep⟩ => hr.trans hstep.permanent) h

/-- **A step leaves every other call's frame alone.**  Only a commit changes rows under a lock, and the
lock is the committing call's own. -/
theorem Step.frame {s t : State J} {c c' : Nat} (hs : Locked cfg s) (h : Step cfg s c t)
    (hc : c' ≠ c) : Frame s t c' := by
  refine ⟨h.permanent, ?_, ?_, ?_, ?_⟩
  · cases h <;> simp [put_other _ c _ hc]
  · intro id hl
    cases h with
    | call => exact hl
    | insert => exact hl
    | read _ _ _ _ free => exact acquire_lock free hl
    | lockEvent _ _ _ free => exact acquire_lock free hl
    | publish => exact hl
    | commit => exact release_lock (by rw [apply_lock]; exact hl) hc
    | abort => exact release_lock hl hc
  · intro row hrow hl
    cases h with
    | @commit client w call =>
        cases w with
        | publish id =>
            -- the row that is marked is locked by the one that commits
            have hid : s.lock id = some c := hs.write c _ id (by rw [call]; rfl) rfl
            refine mem_markPublished_of_ne hrow fun heq => hc ?_
            rw [heq, hid] at hl
            exact (Option.some.inj hl).symm
        | nothing => exact hrow
        | attempt => exact hrow
    | insert => exact mem_insertEvent hrow
    | call => exact hrow
    | read => exact hrow
    | lockEvent => exact hrow
    | publish => exact hrow
    | abort => exact hrow
  · intro id sub hl
    cases h with
    | @commit client w call =>
        cases w with
        | attempt row =>
            -- so is the event the new attempt belongs to
            have hid : s.lock row.eventID = some c := hs.write c _ row.eventID (by rw [call]; rfl) rfl
            have hne : id ≠ row.eventID := by
              rintro rfl
              rw [hid] at hl
              exact hc (Option.some.inj hl).symm
            show numbers (s.attempts ++ [row]) id sub = _
            rw [numbers_append, numbers_singleton rfl hne, List.append_nil]
        | nothing => rfl
        | publish => rfl
    | call => rfl
    | insert => rfl
    | read => rfl
    | lockEvent => rfl
    | publish => rfl
    | abort => rfl

end LocalPlatform.Relay.History
