/-
# LocalPlatform.Relay.History.Capacity — acceptance against the pool.

`AcceptEvent` takes an acceptance slot, a connection for its insert, a connection for its transaction and
in it a lock on one row, and gives everything back in deferred functions.  Any number of calls do this at
once, beside other users of the pool and a server that can end a transaction at any time.  What a call
holds is told by where it is (`Call.Placed`), so calls wait for one another only in one direction.
-/
import LocalPlatform.Logic.Transition
import LocalPlatform.Logic.Waiting
import Mathlib.Data.List.Basic

namespace LocalPlatform.Relay.History

namespace Capacity

open Logic

/-! ## Calls -/

/-- Where a call of `AcceptEvent` is. -/
inductive Stage where
  /-- `acquireAcceptanceSlot`. -/
  | acquiring
  /-- `pool.Exec`, before it has a connection. -/
  | reserving
  /-- The INSERT runs. -/
  | inserting
  /-- The INSERT has ended; its connection goes back. -/
  | inserted (reserved : Bool)
  /-- `pool.Begin`, before it has a connection. -/
  | beginning
  /-- `begin` runs. -/
  | opening
  /-- `lockAcceptedEvent`: the SELECT FOR UPDATE runs. -/
  | locking
  /-- The row is locked and read. -/
  | locked
  | publishing
  /-- The UPDATE of `published_at` runs. -/
  | marking
  | committing
  /-- The transaction is closed; its connection goes back. -/
  | closing
  /-- `return`: the deferred functions run. -/
  | returning
  | done
  deriving DecidableEq, Repr

/-- The functions `AcceptEvent` defers. -/
inductive Deferred where
  /-- `func() { <-s.acceptanceSlots }` -/
  | releaseSlot
  | rollback
  deriving DecidableEq, Repr

/-- A call, with what it has taken and not given back. -/
structure Call where
  stage : Stage
  slot : Bool
  conn : Bool
  /-- Its transaction is open, as far as the client knows. -/
  tx : Bool
  /-- The last one deferred runs first. -/
  deferred : List Deferred
  deriving DecidableEq, Repr

namespace Call

def entered : Call := ⟨.acquiring, false, false, false, []⟩

/-- `ErrNoPool`, or no publisher. -/
def refused : Call := ⟨.done, false, false, false, []⟩

/-- The call goes on elsewhere. -/
def goto (c : Call) (stage : Stage) : Call := { c with stage := stage }

end Call

/-! ## The pool and the rows -/

/-- **`New`**: how many acceptance slots a pool gets. -/
def slots (maxConns : Nat) : Nat := if maxConns - 1 < 1 then 1 else maxConns - 1

/-- The pool's size, and the rows that the request of a call meets, by its id or its tenant and key. -/
structure Setting (R : Type) where
  maxConns : Nat
  meets : Nat → R → Prop

/-- What calls share. -/
structure Shared (R : Type) where
  /-- `len(s.acceptanceSlots)` -/
  tokens : Nat
  /-- Connections that calls of `AcceptEvent` have taken. -/
  inUse : Nat
  /-- Connections that other users of the pool have taken. -/
  others : Nat
  /-- Whose transaction has locked a row. -/
  locks : R → Option Nat

structure World (R : Type) where
  calls : List Call
  shared : Shared R

section Steps

variable {R : Type}

/-- A connection is free. -/
def Shared.Free (cfg : Setting R) (s : Shared R) : Prop := s.inUse + s.others < cfg.maxConns

/-- The locks without those of call `i`. -/
def unlock (i : Nat) (locks : R → Option Nat) (r : R) : Option Nat := if locks r = some i then none else locks r

/-- A transaction of call `i` is over: the server has heard of it and frees its locks, or has not yet. -/
def Over (i : Nat) (locks locks' : R → Option Nat) : Prop := locks' = unlock i locks ∨ locks' = locks

/-- What call `i` does next. -/
inductive Move (cfg : Setting R) (i : Nat) : Shared R → Call → Shared R → Call → Prop where
  | slotTaken {s : Shared R} {c : Call} (h : c.stage = .acquiring) (hfree : s.tokens < slots cfg.maxConns) :
      Move cfg i s c { s with tokens := s.tokens + 1 }
        { c with stage := .reserving, slot := true, deferred := .releaseSlot :: c.deferred }
  /-- `ctx.Done()` before a slot was free. -/
  | slotRefused {s : Shared R} {c : Call} (h : c.stage = .acquiring) : Move cfg i s c s (c.goto .returning)
  | connTaken {s : Shared R} {c : Call} {stage : Stage} (hfree : s.Free cfg)
      (h : c.stage = .reserving ∧ stage = .inserting ∨ c.stage = .beginning ∧ stage = .opening) :
      Move cfg i s c { s with inUse := s.inUse + 1 } { c with stage := stage, conn := true }
  /-- The pool gives no connection: the context has ended, or the server cannot be reached. -/
  | connRefused {s : Shared R} {c : Call} (h : c.stage = .reserving ∨ c.stage = .beginning) :
      Move cfg i s c s (c.goto .returning)
  /-- The INSERT writes a row, and its answer arrives or does not. -/
  | rowInserted {s : Shared R} {c : Call} {reserved : Bool} {locks : R → Option Nat} (h : c.stage = .inserting)
      (hfree : ∀ r, cfg.meets i r → s.locks r = none)
      (hlocks : ∀ r, locks r = s.locks r ∨ cfg.meets i r ∧ locks r = some i) :
      Move cfg i s c { s with locks := locks } (c.goto (.inserted reserved))
  /-- ON CONFLICT DO NOTHING, which without a key is an error, or the INSERT fails.  A row that is only locked
  need not be waited for. -/
  | nothingInserted {s : Shared R} {c : Call} {reserved : Bool} (h : c.stage = .inserting) :
      Move cfg i s c s (c.goto (.inserted reserved))
  /-- `Exec` gives its connection back; an INSERT that was answered is committed. -/
  | execReturned {s : Shared R} {c : Call} {reserved : Bool} {locks : R → Option Nat} (h : c.stage = .inserted reserved)
      (hlocks : locks = unlock i s.locks ∨ reserved = false ∧ locks = s.locks) :
      Move cfg i s c { s with inUse := s.inUse - 1, locks := locks }
        { c with stage := if reserved then .beginning else .returning, conn := false }
  | begun {s : Shared R} {c : Call} (h : c.stage = .opening) :
      Move cfg i s c s { c with stage := .locking, tx := true, deferred := .rollback :: c.deferred }
  /-- `begin` failed; `Begin` gives its connection back. -/
  | beginFailed {s : Shared R} {c : Call} (h : c.stage = .opening) :
      Move cfg i s c { s with inUse := s.inUse - 1 } { c with stage := .returning, conn := false }
  | rowLocked {s : Shared R} {c : Call} {locks : R → Option Nat} {r : R} (h : c.stage = .locking) (hmeets : cfg.meets i r)
      (hfree : s.locks r = none) (hr : locks r = some i) (hlocks : ∀ r', r' ≠ r → locks r' = s.locks r') :
      Move cfg i s c { s with locks := locks } (c.goto .locked)
  /-- No row, or an error. -/
  | lockFailed {s : Shared R} {c : Call} (h : c.stage = .locking) : Move cfg i s c s (c.goto .returning)
  /-- The row is another request's, is published already, or is to be published. -/
  | compared {s : Shared R} {c : Call} {stage : Stage} (h : c.stage = .locked)
      (hstage : stage = .returning ∨ stage = .committing ∨ stage = .publishing) : Move cfg i s c s (c.goto stage)
  | published {s : Shared R} {c : Call} {stage : Stage} (h : c.stage = .publishing)
      (hstage : stage = .returning ∨ stage = .marking) : Move cfg i s c s (c.goto stage)
  | marked {s : Shared R} {c : Call} {stage : Stage} (h : c.stage = .marking)
      (hstage : stage = .returning ∨ stage = .committing) : Move cfg i s c s (c.goto stage)
  /-- `Commit` closes the transaction, whatever the server answers. -/
  | committed {s : Shared R} {c : Call} {locks : R → Option Nat} (h : c.stage = .committing) (hlocks : Over i s.locks locks) :
      Move cfg i s c { s with locks := locks } { c with stage := .closing, tx := false }
  | commitReturned {s : Shared R} {c : Call} (h : c.stage = .closing) :
      Move cfg i s c { s with inUse := s.inUse - 1 } { c with stage := .returning, conn := false }
  /-- `Rollback` of an open transaction gives its connection back. -/
  | rolledBack {s : Shared R} {c : Call} {ds : List Deferred} {locks : R → Option Nat} (h : c.stage = .returning)
      (hds : c.deferred = .rollback :: ds) (htx : c.tx = true) (hlocks : Over i s.locks locks) :
      Move cfg i s c { s with inUse := s.inUse - 1, locks := locks } { c with tx := false, conn := false, deferred := ds }
  /-- `ErrTxClosed`. -/
  | rollbackClosed {s : Shared R} {c : Call} {ds : List Deferred} (h : c.stage = .returning)
      (hds : c.deferred = .rollback :: ds) (htx : c.tx = false) : Move cfg i s c s { c with deferred := ds }
  | slotReleased {s : Shared R} {c : Call} {ds : List Deferred} (h : c.stage = .returning)
      (hds : c.deferred = .releaseSlot :: ds) :
      Move cfg i s c { s with tokens := s.tokens - 1 } { c with slot := false, deferred := ds }
  | returned {s : Shared R} {c : Call} (h : c.stage = .returning) (hds : c.deferred = []) : Move cfg i s c s (c.goto .done)

/-- A step: of a call, of the other users of the pool, or of the server. -/
inductive Step (cfg : Setting R) : World R → World R → Prop where
  | called (w : World R) {c : Call} (h : c = .entered ∨ c = .refused) : Step cfg w { w with calls := w.calls ++ [c] }
  | call (w : World R) {i : Nat} {c c' : Call} {s : Shared R} (h : w.calls[i]? = some c)
      (hmove : Move cfg i w.shared c s c') : Step cfg w ⟨w.calls.set i c', s⟩
  | otherTakes (w : World R) (hfree : w.shared.Free cfg) :
      Step cfg w { w with shared := { w.shared with others := w.shared.others + 1 } }
  | otherGives (w : World R) : Step cfg w { w with shared := { w.shared with others := w.shared.others - 1 } }
  /-- The server ends a transaction on its own. -/
  | serverEnds (w : World R) (i : Nat) :
      Step cfg w { w with shared := { w.shared with locks := unlock i w.shared.locks } }

/-- Calls of `AcceptEvent` on a fresh `Store`, in any order. -/
def system (cfg : Setting R) : System (World R) where
  init w := w.calls = [] ∧ w.shared.tokens = 0 ∧ w.shared.inUse = 0 ∧ w.shared.others ≤ cfg.maxConns ∧
    ∀ r, w.shared.locks r = none
  step := Step cfg

end Steps

/-! ## What a call holds -/

/-- How far the queue in which the call stands is behind the others; zero in none. -/
def Stage.rank : Stage → Nat
  | .acquiring => 3
  | .reserving | .beginning => 2
  | .inserting | .locking => 1
  | _ => 0

/-- The server can hold a row for the call. -/
def Stage.mayLock : Stage → Bool
  | .acquiring | .reserving | .inserting | .beginning | .opening | .locking => false
  | _ => true

theorem Stage.rank_of_mayLock {stage : Stage} (h : stage.mayLock = true) : stage.rank = 0 := by
  cases stage <;> first | rfl | cases h

/-- **What a call has taken, by where it is**, and what it has deferred to give it back. -/
def Call.Placed (c : Call) : Prop :=
  match c.stage with
  | .acquiring | .done => c.slot = false ∧ c.conn = false ∧ c.tx = false ∧ c.deferred = []
  | .reserving | .beginning => c.slot = true ∧ c.conn = false ∧ c.tx = false ∧ c.deferred = [.releaseSlot]
  | .inserting | .inserted _ | .opening => c.slot = true ∧ c.conn = true ∧ c.tx = false ∧ c.deferred = [.releaseSlot]
  | .locking | .locked | .publishing | .marking | .committing =>
    c.slot = true ∧ c.conn = true ∧ c.tx = true ∧ c.deferred = [.rollback, .releaseSlot]
  | .closing => c.slot = true ∧ c.conn = true ∧ c.tx = false ∧ c.deferred = [.rollback, .releaseSlot]
  | .returning => c.conn = c.tx ∧
      ((c.slot = false ∧ c.tx = false ∧ c.deferred = []) ∨ (c.slot = true ∧ c.tx = false ∧ c.deferred = [.releaseSlot]) ∨
        (c.slot = true ∧ c.deferred = [.rollback, .releaseSlot]))

namespace Call.Placed

theorem slot_of_conn {c : Call} (h : c.Placed) (hconn : c.conn = true) : c.slot = true := by
  unfold Call.Placed at h
  split at h
  all_goals first
    | exact h.1
    | exact absurd (hconn.symm.trans h.2.1) (by decide)
    | skip
  obtain ⟨hopen, ⟨_, htx, _⟩ | ⟨hslot, _⟩ | ⟨hslot, _⟩⟩ := h
  · rw [hconn, htx] at hopen
    cases hopen
  · exact hslot
  · exact hslot

theorem rank_of_slot {c : Call} (h : c.Placed) (hslot : c.slot = true) : c.stage.rank ≤ 2 := by
  obtain ⟨stage, slot, conn, tx, deferred⟩ := c
  cases stage
  case acquiring => exact absurd (hslot.symm.trans h.1) (by decide)
  all_goals simp [Stage.rank]

theorem rank_of_conn {c : Call} (h : c.Placed) (hconn : c.conn = true) : c.stage.rank ≤ 1 := by
  obtain ⟨stage, slot, conn, tx, deferred⟩ := c
  cases stage
  case acquiring => exact absurd (hconn.symm.trans h.2.1) (by decide)
  case reserving => exact absurd (hconn.symm.trans h.2.1) (by decide)
  case beginning => exact absurd (hconn.symm.trans h.2.1) (by decide)
  all_goals simp [Stage.rank]

end Call.Placed

/-- One, if it is taken. -/
def one (b : Bool) : Nat := if b then 1 else 0

section Moves

variable {R : Type} {cfg : Setting R} {i : Nat} {s s' : Shared R} {c c' : Call}

/-- **What one move of a call does**: the call stays placed, the two counters change by what it takes or
gives, no more is taken than there is, and locks are of calls that may have some. -/
structure MoveSpec (cfg : Setting R) (i : Nat) (s s' : Shared R) (c c' : Call) : Prop where
  placed : c'.Placed
  tokens : s'.tokens + one c.slot = s.tokens + one c'.slot
  inUse : s'.inUse + one c.conn = s.inUse + one c'.conn
  others : s'.others = s.others
  slots : s'.tokens ≤ s.tokens ∨ s'.tokens ≤ Capacity.slots cfg.maxConns
  free : s'.inUse ≤ s.inUse ∨ s'.inUse + s'.others ≤ cfg.maxConns
  locks : ∀ r j, s'.locks r = some j → s.locks r = some j ∧ j ≠ i ∨ j = i ∧ c'.stage.mayLock = true

theorem unlock_eq_some {locks : R → Option Nat} {r : R} {j : Nat} (h : unlock i locks r = some j) :
    locks r = some j ∧ j ≠ i := by
  unfold unlock at h
  split at h
  · cases h
  · next hne =>
    refine ⟨h, ?_⟩
    rintro rfl
    exact hne h

theorem Over.locks {locks locks' : R → Option Nat} (h : Over i locks locks') {r : R} {j : Nat} (hj : locks' r = some j) :
    locks r = some j := by
  rcases h with rfl | rfl
  · exact (unlock_eq_some hj).1
  · exact hj

/-- A lock that was there stays with its call. -/
theorem locks_keep {r : R} {j : Nat} (hj : s.locks r = some j) (hmay : s.locks r = some i → c'.stage.mayLock = true) :
    s.locks r = some j ∧ j ≠ i ∨ j = i ∧ c'.stage.mayLock = true := by
  by_cases hji : j = i
  · exact Or.inr ⟨hji, hmay (hji ▸ hj)⟩
  · exact Or.inl ⟨hj, hji⟩

/-- A move that takes and gives nothing. -/
theorem MoveSpec.stay (hplaced : c'.Placed) (hslot : c'.slot = c.slot) (hconn : c'.conn = c.conn)
    (hmay : ∀ r, s.locks r = some i → c'.stage.mayLock = true) : MoveSpec cfg i s s c c' where
  placed := hplaced
  tokens := by rw [hslot]
  inUse := by rw [hconn]
  others := rfl
  slots := Or.inl (Nat.le_refl _)
  free := Or.inl (Nat.le_refl _)
  locks r _ hj := locks_keep hj (hmay r)

/-- The step lemma: by cases on the move. -/
theorem Move.spec (h : Move cfg i s c s' c') (hplaced : c.Placed) (htokens : one c.slot ≤ s.tokens)
    (hinUse : one c.conn ≤ s.inUse) (hmay : ∀ r, s.locks r = some i → c.stage.mayLock = true) :
    MoveSpec cfg i s s' c c' := by
  obtain ⟨stage, slot, conn, tx, deferred⟩ := c
  -- the stage says what the call holds (`hplaced`), and the move what becomes of it
  cases h with
  | slotTaken h hfree =>
      obtain rfl : stage = .acquiring := h
      obtain ⟨rfl, rfl, rfl, rfl⟩ := hplaced
      exact ⟨⟨rfl, rfl, rfl, rfl⟩, rfl, rfl, rfl, Or.inr hfree, Or.inl (Nat.le_refl _),
        fun r j hj => locks_keep hj fun hi => absurd (hmay r hi) (by decide)⟩
  | slotRefused h =>
      obtain rfl : stage = .acquiring := h
      obtain ⟨rfl, rfl, rfl, rfl⟩ := hplaced
      exact .stay ⟨rfl, Or.inl ⟨rfl, rfl, rfl⟩⟩ rfl rfl fun _ _ => rfl
  | connTaken hfree h =>
      rcases h with ⟨h, rfl⟩ | ⟨h, rfl⟩
      · obtain rfl : stage = .reserving := h
        obtain ⟨rfl, rfl, rfl, rfl⟩ := hplaced
        exact ⟨⟨rfl, rfl, rfl, rfl⟩, rfl, rfl, rfl, Or.inl (Nat.le_refl _), Or.inr (by unfold Shared.Free at hfree; simp; omega),
          fun r j hj => locks_keep hj fun hi => absurd (hmay r hi) (by decide)⟩
      · obtain rfl : stage = .beginning := h
        obtain ⟨rfl, rfl, rfl, rfl⟩ := hplaced
        exact ⟨⟨rfl, rfl, rfl, rfl⟩, rfl, rfl, rfl, Or.inl (Nat.le_refl _), Or.inr (by unfold Shared.Free at hfree; simp; omega),
          fun r j hj => locks_keep hj fun hi => absurd (hmay r hi) (by decide)⟩
  | connRefused h =>
      rcases h with h | h
      · obtain rfl : stage = .reserving := h
        obtain ⟨rfl, rfl, rfl, rfl⟩ := hplaced
        exact .stay ⟨rfl, Or.inr (Or.inl ⟨rfl, rfl, rfl⟩)⟩ rfl rfl fun _ _ => rfl
      · obtain rfl : stage = .beginning := h
        obtain ⟨rfl, rfl, rfl, rfl⟩ := hplaced
        exact .stay ⟨rfl, Or.inr (Or.inl ⟨rfl, rfl, rfl⟩)⟩ rfl rfl fun _ _ => rfl
  | rowInserted h hfree hl =>
      obtain rfl : stage = .inserting := h
      obtain ⟨rfl, rfl, rfl, rfl⟩ := hplaced
      refine ⟨⟨rfl, rfl, rfl, rfl⟩, rfl, rfl, rfl, Or.inl (Nat.le_refl _), Or.inl (Nat.le_refl _), fun r j hj => ?_⟩
      -- a lock is as it was, or the one that was just taken
      rcases hl r with hold | ⟨_, hnew⟩
      · exact locks_keep (hold ▸ hj) fun hi => rfl
      · exact Or.inr ⟨Option.some.inj (hj.symm.trans hnew), rfl⟩
  | nothingInserted h =>
      obtain rfl : stage = .inserting := h
      obtain ⟨rfl, rfl, rfl, rfl⟩ := hplaced
      exact .stay ⟨rfl, rfl, rfl, rfl⟩ rfl rfl fun _ _ => rfl
  | @execReturned reserved locks h hl =>
      obtain rfl : stage = .inserted reserved := h
      obtain ⟨rfl, rfl, rfl, rfl⟩ := hplaced
      refine ⟨?_, rfl, Nat.sub_add_cancel hinUse, rfl, Or.inl (Nat.le_refl _), Or.inl (Nat.sub_le _ _), fun r j hj => ?_⟩
      · cases reserved
        · exact ⟨rfl, Or.inr (Or.inl ⟨rfl, rfl, rfl⟩)⟩
        · exact ⟨rfl, rfl, rfl, rfl⟩
      · rcases hl with rfl | ⟨rfl, rfl⟩
        · exact Or.inl (unlock_eq_some hj)
        · exact locks_keep hj fun _ => rfl
  | begun h =>
      obtain rfl : stage = .opening := h
      obtain ⟨rfl, rfl, rfl, rfl⟩ := hplaced
      exact .stay ⟨rfl, rfl, rfl, rfl⟩ rfl rfl fun r hi => absurd (hmay r hi) (by decide)
  | beginFailed h =>
      obtain rfl : stage = .opening := h
      obtain ⟨rfl, rfl, rfl, rfl⟩ := hplaced
      exact ⟨⟨rfl, Or.inr (Or.inl ⟨rfl, rfl, rfl⟩)⟩, rfl, Nat.sub_add_cancel hinUse, rfl, Or.inl (Nat.le_refl _),
        Or.inl (Nat.sub_le _ _), fun r j hj => locks_keep hj fun _ => rfl⟩
  | @rowLocked locks row h hmeets hfree hr hl =>
      obtain rfl : stage = .locking := h
      obtain ⟨rfl, rfl, rfl, rfl⟩ := hplaced
      refine ⟨⟨rfl, rfl, rfl, rfl⟩, rfl, rfl, rfl, Or.inl (Nat.le_refl _), Or.inl (Nat.le_refl _), fun r j hj => ?_⟩
      by_cases hrow : r = row
      · subst hrow
        exact Or.inr ⟨Option.some.inj (hj.symm.trans hr), rfl⟩
      · exact locks_keep (hl r hrow ▸ hj) fun _ => rfl
  | lockFailed h =>
      obtain rfl : stage = .locking := h
      obtain ⟨rfl, rfl, rfl, rfl⟩ := hplaced
      exact .stay ⟨rfl, Or.inr (Or.inr ⟨rfl, rfl⟩)⟩ rfl rfl fun _ _ => rfl
  | compared h hstage =>
      obtain rfl : stage = .locked := h
      obtain ⟨rfl, rfl, rfl, rfl⟩ := hplaced
      rcases hstage with rfl | rfl | rfl
      · exact .stay ⟨rfl, Or.inr (Or.inr ⟨rfl, rfl⟩)⟩ rfl rfl fun _ _ => rfl
      · exact .stay ⟨rfl, rfl, rfl, rfl⟩ rfl rfl fun _ _ => rfl
      · exact .stay ⟨rfl, rfl, rfl, rfl⟩ rfl rfl fun _ _ => rfl
  | published h hstage =>
      obtain rfl : stage = .publishing := h
      obtain ⟨rfl, rfl, rfl, rfl⟩ := hplaced
      rcases hstage with rfl | rfl
      · exact .stay ⟨rfl, Or.inr (Or.inr ⟨rfl, rfl⟩)⟩ rfl rfl fun _ _ => rfl
      · exact .stay ⟨rfl, rfl, rfl, rfl⟩ rfl rfl fun _ _ => rfl
  | marked h hstage =>
      obtain rfl : stage = .marking := h
      obtain ⟨rfl, rfl, rfl, rfl⟩ := hplaced
      rcases hstage with rfl | rfl
      · exact .stay ⟨rfl, Or.inr (Or.inr ⟨rfl, rfl⟩)⟩ rfl rfl fun _ _ => rfl
      · exact .stay ⟨rfl, rfl, rfl, rfl⟩ rfl rfl fun _ _ => rfl
  | committed h hl =>
      obtain rfl : stage = .committing := h
      obtain ⟨rfl, rfl, rfl, rfl⟩ := hplaced
      exact ⟨⟨rfl, rfl, rfl, rfl⟩, rfl, rfl, rfl, Or.inl (Nat.le_refl _), Or.inl (Nat.le_refl _),
        fun r j hj => locks_keep (hl.locks hj) fun _ => rfl⟩
  | commitReturned h =>
      obtain rfl : stage = .closing := h
      obtain ⟨rfl, rfl, rfl, rfl⟩ := hplaced
      exact ⟨⟨rfl, Or.inr (Or.inr ⟨rfl, rfl⟩)⟩, rfl, Nat.sub_add_cancel hinUse, rfl, Or.inl (Nat.le_refl _),
        Or.inl (Nat.sub_le _ _), fun r j hj => locks_keep hj fun _ => rfl⟩
  | @rolledBack ds locks h hds htx hl =>
      obtain rfl : stage = .returning := h
      obtain rfl : deferred = .rollback :: ds := hds
      obtain rfl : tx = true := htx
      -- of the three shapes of the deferred calls only the last begins with the rollback
      obtain ⟨hconn, ⟨_, _, hds⟩ | ⟨_, _, hds⟩ | ⟨hslot, hds⟩⟩ := hplaced
      · cases hds
      · cases hds
      · obtain rfl : conn = true := hconn
        obtain ⟨_, rfl⟩ := List.cons.inj hds
        exact ⟨⟨rfl, Or.inr (Or.inl ⟨hslot, rfl, rfl⟩)⟩, rfl, Nat.sub_add_cancel hinUse, rfl, Or.inl (Nat.le_refl _),
          Or.inl (Nat.sub_le _ _), fun r j hj => locks_keep (hl.locks hj) fun _ => rfl⟩
  | @rollbackClosed ds h hds htx =>
      obtain rfl : stage = .returning := h
      obtain rfl : deferred = .rollback :: ds := hds
      obtain rfl : tx = false := htx
      obtain ⟨hconn, ⟨_, _, hds⟩ | ⟨_, _, hds⟩ | ⟨hslot, hds⟩⟩ := hplaced
      · cases hds
      · cases hds
      · obtain ⟨_, rfl⟩ := List.cons.inj hds
        exact .stay ⟨hconn, Or.inr (Or.inl ⟨hslot, rfl, rfl⟩)⟩ rfl rfl fun _ _ => rfl
  | @slotReleased ds h hds =>
      obtain rfl : stage = .returning := h
      obtain rfl : deferred = .releaseSlot :: ds := hds
      -- and only the second begins with the release of the slot
      obtain ⟨hconn, ⟨_, _, hds⟩ | ⟨hslot, htx, hds⟩ | ⟨_, hds⟩⟩ := hplaced
      · cases hds
      · obtain rfl : slot = true := hslot
        obtain ⟨_, rfl⟩ := List.cons.inj hds
        exact ⟨⟨hconn, Or.inl ⟨rfl, htx, rfl⟩⟩, Nat.sub_add_cancel htokens, rfl, rfl, Or.inl (Nat.sub_le _ _),
          Or.inl (Nat.le_refl _), fun r j hj => locks_keep hj fun _ => rfl⟩
      · cases hds
  | returned h hds =>
      obtain rfl : stage = .returning := h
      obtain rfl : deferred = [] := hds
      obtain ⟨hconn, ⟨hslot, htx, _⟩ | ⟨_, _, hds⟩ | ⟨_, hds⟩⟩ := hplaced
      · exact .stay ⟨hslot, hconn.trans htx, htx, rfl⟩ rfl rfl fun _ _ => rfl
      · cases hds
      · cases hds

end Moves

/-! ## All calls -/

section Run

variable {R : Type} {cfg : Setting R} {w w' : World R}

/-- **The capacity invariant**: what is taken from the channel and the pool is what the calls hold. -/
structure Inv (cfg : Setting R) (w : World R) : Prop where
  placed : ∀ c ∈ w.calls, c.Placed
  tokens : w.shared.tokens = w.calls.countP (·.slot)
  inUse : w.shared.inUse = w.calls.countP (·.conn)
  slots : w.shared.tokens ≤ Capacity.slots cfg.maxConns
  pool : w.shared.inUse + w.shared.others ≤ cfg.maxConns
  locks : ∀ r j, w.shared.locks r = some j → ∃ c, w.calls[j]? = some c ∧ c.stage.mayLock = true

theorem one_le_countP {p : Call → Bool} {calls : List Call} {i : Nat} {c : Call} (h : calls[i]? = some c) :
    one (p c) ≤ calls.countP p := by
  cases hp : p c with
  | false => exact Nat.zero_le _
  | true => exact List.countP_pos_iff.mpr ⟨c, List.mem_of_getElem? h, hp⟩

/-- The count after one call has changed. -/
theorem countP_set_call {p : Call → Bool} {calls : List Call} {i : Nat} {c c' : Call} (h : calls[i]? = some c) :
    (calls.set i c').countP p + one (p c) = calls.countP p + one (p c') := by
  obtain ⟨hi, hc⟩ := List.getElem?_eq_some_iff.mp h
  have hone := @one_le_countP p calls i c h
  have hset := @List.countP_set _ p calls i c' hi
  rw [hc] at hset
  unfold one at hone ⊢
  omega

/-- **Every step keeps the invariant.** -/
theorem Inv.step (h : Inv cfg w) (hstep : Step cfg w w') : Inv cfg w' := by
  cases hstep with
  | @called c hc =>
      have hnew : c.Placed ∧ c.slot = false ∧ c.conn = false := by
        rcases hc with rfl | rfl
        · exact ⟨⟨rfl, rfl, rfl, rfl⟩, rfl, rfl⟩
        · exact ⟨⟨rfl, rfl, rfl, rfl⟩, rfl, rfl⟩
      refine ⟨fun d hd => ?_, ?_, ?_, h.slots, h.pool, fun r j hj => ?_⟩
      · rcases List.mem_append.mp hd with hd | hd
        · exact h.placed d hd
        · rw [List.mem_singleton.mp hd]
          exact hnew.1
      · rw [List.countP_append, List.countP_singleton, hnew.2.1]
        exact h.tokens
      · rw [List.countP_append, List.countP_singleton, hnew.2.2]
        exact h.inUse
      · obtain ⟨d, hd, hmay⟩ := h.locks r j hj
        refine ⟨d, ?_, hmay⟩
        rw [List.getElem?_append_left (List.getElem?_eq_some_iff.mp hd).1]
        exact hd
  | @call i c c' s hi hmove =>
      -- what the move asks of the call is the invariant at the place of the call
      have hspec := hmove.spec (h.placed c (List.mem_of_getElem? hi)) (h.tokens ▸ one_le_countP (p := (·.slot)) hi)
        (h.inUse ▸ one_le_countP (p := (·.conn)) hi) (by
          intro r hr
          obtain ⟨d, hd, hmay⟩ := h.locks r i hr
          obtain rfl : c = d := Option.some.inj (hi.symm.trans hd)
          exact hmay)
      have hlt : i < w.calls.length := (List.getElem?_eq_some_iff.mp hi).1
      refine ⟨fun d hd => ?_, ?_, ?_, ?_, ?_, fun r j hj => ?_⟩
      · rcases List.mem_or_eq_of_mem_set hd with hd | rfl
        · exact h.placed d hd
        · exact hspec.placed
      · have hcount := @countP_set_call (·.slot) w.calls i c c' hi
        have htokens := hspec.tokens
        have hold := h.tokens
        show s.tokens = (w.calls.set i c').countP (·.slot)
        omega
      · have hcount := @countP_set_call (·.conn) w.calls i c c' hi
        have hinUse := hspec.inUse
        have hold := h.inUse
        show s.inUse = (w.calls.set i c').countP (·.conn)
        omega
      · rcases hspec.slots with hle | hle
        · exact le_trans hle h.slots
        · exact hle
      · rcases hspec.free with hle | hle
        · have hpool := h.pool
          show s.inUse + s.others ≤ cfg.maxConns
          rw [hspec.others]
          omega
        · exact hle
      -- a lock the mover does not hold stays with the call that held it
      · rcases hspec.locks r j hj with ⟨hold, hne⟩ | ⟨rfl, hmay⟩
        · obtain ⟨d, hd, hmay⟩ := h.locks r j hold
          exact ⟨d, by rw [List.getElem?_set_ne (Ne.symm hne)]; exact hd, hmay⟩
        · exact ⟨c', List.getElem?_set_self hlt, hmay⟩
  | otherTakes hfree => exact ⟨h.placed, h.tokens, h.inUse, h.slots, Nat.succ_le_of_lt hfree, h.locks⟩
  | otherGives =>
      refine ⟨h.placed, h.tokens, h.inUse, h.slots, ?_, h.locks⟩
      have hpool := h.pool
      show w.shared.inUse + (w.shared.others - 1) ≤ cfg.maxConns
      omega
  | serverEnds i =>
      exact ⟨h.placed, h.tokens, h.inUse, h.slots, h.pool, fun r j hj => h.locks r j (unlock_eq_some hj).1⟩

theorem Inv.reachable (hw : (system cfg).Reachable w) : Inv cfg w := by
  refine System.invariant (fun w₀ hinit => ?_) (fun s t _ hs hstep => hs.step hstep) hw
  obtain ⟨hcalls, htokens, hinUse, hothers, hlocks⟩ := hinit
  refine ⟨?_, ?_, ?_, ?_, ?_, fun r j hj => ?_⟩
  · rw [hcalls]
    exact fun c hc => absurd hc List.not_mem_nil
  · rw [hcalls, htokens]
    rfl
  · rw [hcalls, hinUse]
    rfl
  · rw [htokens]
    exact Nat.zero_le _
  · rw [hinUse, Nat.zero_add]
    exact hothers
  · rw [hlocks r] at hj
    cases hj

/-! ## Waiting -/

/-- **Call `i` waits for call `j`**: for a slot, for a connection or for the lock on a row. -/
inductive WaitsFor (cfg : Setting R) (w : World R) (i j : Nat) : Prop where
  | slot {c d : Call} (hc : w.calls[i]? = some c) (hd : w.calls[j]? = some d) (h : c.stage = .acquiring)
      (hfull : ¬ w.shared.tokens < Capacity.slots cfg.maxConns) (hslot : d.slot = true)
  | conn {c d : Call} (hc : w.calls[i]? = some c) (hd : w.calls[j]? = some d) (h : c.stage = .reserving ∨ c.stage = .beginning)
      (hfull : ¬ w.shared.Free cfg) (hconn : d.conn = true)
  | row {c d : Call} {r : R} (hc : w.calls[i]? = some c) (hd : w.calls[j]? = some d)
      (h : c.stage = .inserting ∨ c.stage = .locking) (hmeets : cfg.meets i r) (hlock : w.shared.locks r = some j)

/-- The queue a call stands in, or none. -/
def rankAt (w : World R) (i : Nat) : Nat :=
  match w.calls[i]? with
  | some c => c.stage.rank
  | none => 0

theorem rankAt_of {i : Nat} {c : Call} (h : w.calls[i]? = some c) : rankAt w i = c.stage.rank := by
  unfold rankAt
  rw [h]

/-- **Calls wait only for calls that are further.** -/
theorem Inv.rank_lt (h : Inv cfg w) {i j : Nat} (hwait : WaitsFor cfg w i j) : rankAt w j < rankAt w i := by
  cases hwait with
  | @slot c d hc hd hstage _ hslot =>
      have hrank := (h.placed d (List.mem_of_getElem? hd)).rank_of_slot hslot
      rw [rankAt_of hc, rankAt_of hd, hstage]
      exact Nat.lt_succ_of_le hrank
  | @conn c d hc hd hstage _ hconn =>
      have hrank := (h.placed d (List.mem_of_getElem? hd)).rank_of_conn hconn
      rw [rankAt_of hc, rankAt_of hd]
      rcases hstage with hstage | hstage <;> rw [hstage] <;> exact Nat.lt_succ_of_le hrank
  | @row c d r hc hd hstage _ hlock =>
      obtain ⟨d', hd', hmay⟩ := h.locks r j hlock
      obtain rfl : d = d' := Option.some.inj (hd.symm.trans hd')
      rw [rankAt_of hc, rankAt_of hd, Stage.rank_of_mayLock hmay]
      rcases hstage with hstage | hstage <;> rw [hstage] <;> exact Nat.one_pos

/-- A call has not returned. -/
def Unfinished (w : World R) (i : Nat) : Prop := ∃ c, w.calls[i]? = some c ∧ c.stage ≠ .done

/-- Among unfinished calls one waits for none of them. -/
theorem Inv.exists_free (h : Inv cfg w) {i : Nat} (hi : Unfinished w i) :
    ∃ j, Unfinished w j ∧ ∀ k, Unfinished w k → ¬ WaitsFor cfg w j k := by
  classical
  have hmem : ∀ {j : Nat}, Unfinished w j → j ∈ (Finset.range w.calls.length).filter (Unfinished w) := by
    rintro j ⟨c, hc, hstage⟩
    exact Finset.mem_filter.mpr ⟨Finset.mem_range.mpr (List.getElem?_eq_some_iff.mp hc).1, c, hc, hstage⟩
  obtain ⟨j, hj, hnone⟩ := exists_not_waiting (fun a b => h.rank_lt (i := a) (j := b)) ⟨i, hmem hi⟩
  exact ⟨j, (Finset.mem_filter.mp hj).2, fun k hk => hnone k (hmem hk)⟩

/-- A number of calls that is not zero has one of them. -/
theorem exists_of_countP {p : Call → Bool} {calls : List Call} (h : 0 < calls.countP p) :
    ∃ (j : Nat) (c : Call), calls[j]? = some c ∧ p c = true := by
  obtain ⟨c, hc, hp⟩ := List.countP_pos_iff.mp h
  obtain ⟨j, hj⟩ := List.getElem?_of_mem hc
  exact ⟨j, c, hj, hp⟩

/-- **A wait is for a call**, or, for a connection, for the other users of the pool: where there is neither,
the call gets what it asks for. -/
theorem Inv.granted (h : Inv cfg w) {i : Nat} {c : Call} (hc : w.calls[i]? = some c) (hnone : ∀ j, ¬ WaitsFor cfg w i j) :
    (c.stage = .acquiring → w.shared.tokens < Capacity.slots cfg.maxConns) ∧
    (c.stage = .reserving ∨ c.stage = .beginning → w.shared.others < cfg.maxConns → w.shared.Free cfg) ∧
    (c.stage = .inserting ∨ c.stage = .locking → ∀ r, cfg.meets i r → w.shared.locks r = none) := by
  refine ⟨fun hstage => ?_, fun hstage hothers => ?_, fun hstage r hmeets => ?_⟩
  · by_contra hfull
    have hpos : 0 < Capacity.slots cfg.maxConns := by
      unfold Capacity.slots
      split <;> omega
    have hcount := h.tokens
    obtain ⟨j, d, hd, hslot⟩ := @exists_of_countP (·.slot) w.calls (by omega)
    exact hnone j (.slot hc hd hstage hfull hslot)
  · by_contra hfull
    have hcount := h.inUse
    unfold Shared.Free at hfull
    obtain ⟨j, d, hd, hconn⟩ := @exists_of_countP (·.conn) w.calls (by omega)
    exact hnone j (.conn hc hd hstage hfull hconn)
  · cases hlock : w.shared.locks r with
    | none => rfl
    | some j =>
        obtain ⟨d, hd, _⟩ := h.locks r j hlock
        exact absurd (.row hc hd hstage hmeets hlock) (hnone j)

/-- The call is gone through, if it only has to return. -/
theorem Inv.returns (h : Inv cfg w) {i : Nat} {c : Call} (hc : w.calls[i]? = some c) (hstage : c.stage = .returning) :
    ∃ w' c', (system cfg).Later w w' ∧ w'.calls[i]? = some c' ∧ c'.stage = .done := by
  have hgo : ∀ (w : World R) (c : Call), w.calls[i]? = some c → ∀ s' c', Move cfg i w.shared c s' c' →
      ∃ w', (system cfg).step w w' ∧ w'.calls[i]? = some c' := by
    intro w c hc s' c' hmove
    exact ⟨_, .call w hc hmove, List.getElem?_set_self (List.getElem?_eq_some_iff.mp hc).1⟩
  -- with nothing deferred
  have hnil : ∀ (w : World R) (c : Call), w.calls[i]? = some c → c.stage = .returning → c.deferred = [] →
      ∃ w' c', (system cfg).Later w w' ∧ w'.calls[i]? = some c' ∧ c'.stage = .done := by
    intro w c hc hstage hds
    obtain ⟨w₁, hstep, hget⟩ := hgo w c hc _ _ (.returned hstage hds)
    exact ⟨w₁, _, .single hstep, hget, rfl⟩
  -- with a slot to release
  have hslot : ∀ (w : World R) (c : Call), w.calls[i]? = some c → c.stage = .returning → c.deferred = [.releaseSlot] →
      ∃ w' c', (system cfg).Later w w' ∧ w'.calls[i]? = some c' ∧ c'.stage = .done := by
    intro w c hc hstage hds
    obtain ⟨w₁, hstep, hget⟩ := hgo w c hc _ _ (.slotReleased hstage hds)
    obtain ⟨w', c', hlater, hdone⟩ := hnil _ _ hget hstage rfl
    exact ⟨w', c', .head hstep hlater, hdone⟩
  have hplaced := h.placed c (List.mem_of_getElem? hc)
  rw [Call.Placed, hstage] at hplaced
  obtain ⟨_, ⟨_, _, hds⟩ | ⟨_, _, hds⟩ | ⟨_, hds⟩⟩ := hplaced
  · exact hnil w c hc hstage hds
  · exact hslot w c hc hstage hds
  · cases htx : c.tx with
    | true =>
        obtain ⟨w₁, hstep, hget⟩ := hgo w c hc _ _ (.rolledBack hstage hds htx (Or.inr rfl))
        obtain ⟨w', c', hlater, hdone⟩ := hslot _ _ hget hstage rfl
        exact ⟨w', c', .head hstep hlater, hdone⟩
    | false =>
        obtain ⟨w₁, hstep, hget⟩ := hgo w c hc _ _ (.rollbackClosed hstage hds htx)
        obtain ⟨w', c', hlater, hdone⟩ := hslot _ _ hget hstage rfl
        exact ⟨w', c', .head hstep hlater, hdone⟩

theorem countP_conn_le {calls : List Call} (h : ∀ c ∈ calls, c.Placed) : calls.countP (·.conn) ≤ calls.countP (·.slot) :=
  List.countP_mono_left fun c hc hconn => (h c hc).slot_of_conn hconn

/-- **What acceptance promises of every state it can reach.** -/
structure Promise (cfg : Setting R) (w : World R) : Prop where
  /-- Calls hold no more connections than there are slots. -/
  held : w.calls.countP (·.conn) ≤ Capacity.slots cfg.maxConns
  spared : 2 ≤ cfg.maxConns → w.calls.countP (·.conn) < cfg.maxConns
  acyclic : Acyclic (WaitsFor cfg w)
  free : ∀ i, Unfinished w i → ∃ j, Unfinished w j ∧ ∀ k, Unfinished w k → ¬ WaitsFor cfg w j k
  granted : ∀ (i : Nat) (c : Call), w.calls[i]? = some c → (∀ j, ¬ WaitsFor cfg w i j) →
    (c.stage = .acquiring → w.shared.tokens < Capacity.slots cfg.maxConns) ∧
    (c.stage = .reserving ∨ c.stage = .beginning → w.shared.others < cfg.maxConns → w.shared.Free cfg) ∧
    (c.stage = .inserting ∨ c.stage = .locking → ∀ r, cfg.meets i r → w.shared.locks r = none)
  /-- What is missing in the channel and the pool is held by calls that have not returned. -/
  tokens : w.shared.tokens = w.calls.countP (·.slot)
  inUse : w.shared.inUse = w.calls.countP (·.conn)
  done : ∀ c ∈ w.calls, c.stage = .done → c.slot = false ∧ c.conn = false ∧ c.tx = false ∧ c.deferred = []
  returns : ∀ (i : Nat) (c : Call), w.calls[i]? = some c → c.stage = .returning →
    ∃ (w' : World R) (c' : Call), (system cfg).Later w w' ∧ w'.calls[i]? = some c' ∧ c'.stage = .done

/-- **Acceptance neither deadlocks nor starves the pool.** -/
theorem acceptance_keeps_promise (hw : (system cfg).Reachable w) : Promise cfg w := by
  have h := Inv.reachable hw
  have hheld : w.calls.countP (·.conn) ≤ Capacity.slots cfg.maxConns :=
    calc w.calls.countP (·.conn) ≤ w.calls.countP (·.slot) := countP_conn_le h.placed
      _ = w.shared.tokens := h.tokens.symm
      _ ≤ Capacity.slots cfg.maxConns := h.slots
  refine ⟨hheld, fun htwo => ?_, acyclic_of_rank fun i j => h.rank_lt (i := i) (j := j), fun i hi => h.exists_free hi,
    fun i c hc hnone => h.granted hc hnone, h.tokens, h.inUse, fun c hc hdone => ?_, fun i c hc => h.returns hc⟩
  · have hslots : Capacity.slots cfg.maxConns = cfg.maxConns - 1 := by
      unfold Capacity.slots
      split <;> omega
    omega
  · have hplaced := h.placed c hc
    rw [Call.Placed, hdone] at hplaced
    exact hplaced

end Run

/-- A pool of two connections, and requests that all meet one row. -/
def twoConns : Setting Unit := ⟨2, fun _ _ => True⟩

/-- A call that runs its INSERT while another one waits for the slot. -/
def crowded : World Unit := ⟨[⟨.inserting, true, true, false, [.releaseSlot]⟩, .entered], ⟨1, 1, 0, fun _ => none⟩⟩

theorem acceptance_keeps_promise_crowded : Promise twoConns crowded := by
  refine acceptance_keeps_promise ⟨⟨[], ⟨0, 0, 0, fun _ => none⟩⟩, ⟨rfl, rfl, rfl, by decide, fun _ => rfl⟩, ?_⟩
  have hfirst : Step twoConns ⟨[], ⟨0, 0, 0, fun _ => none⟩⟩ ⟨[.entered], ⟨0, 0, 0, fun _ => none⟩⟩ :=
    .called _ (Or.inl rfl)
  have hsecond : Step twoConns ⟨[.entered], ⟨0, 0, 0, fun _ => none⟩⟩ ⟨[.entered, .entered], ⟨0, 0, 0, fun _ => none⟩⟩ :=
    .called _ (Or.inl rfl)
  have hslot : Step twoConns ⟨[.entered, .entered], ⟨0, 0, 0, fun _ => none⟩⟩
      ⟨[⟨.reserving, true, false, false, [.releaseSlot]⟩, .entered], ⟨1, 0, 0, fun _ => none⟩⟩ :=
    .call (i := 0) _ rfl (.slotTaken rfl (by decide))
  have hconn : Step twoConns ⟨[⟨.reserving, true, false, false, [.releaseSlot]⟩, .entered], ⟨1, 0, 0, fun _ => none⟩⟩ crowded :=
    .call (i := 0) _ rfl (.connTaken (by show 0 + 0 < 2; decide) (Or.inl ⟨rfl, rfl⟩))
  exact .head hfirst (.head hsecond (.head hslot (.single hconn)))

end Capacity

end LocalPlatform.Relay.History
