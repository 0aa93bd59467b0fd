/-
# LocalPlatform.Relay.History.Store — the history store, statement by statement.

Any number of calls of `AcceptEvent` and `RecordAttempt` run against one database.  A call is a client
that issues statements in the order of the source and a transaction the server holds for it; the two can
part company, because a statement can fail, a call can be cancelled and the server can end a
transaction on its own.  One step of the system is one statement taking effect, one answer reaching a
client, or one failure.

What Postgres contributes is in the steps: a single `INSERT` commits on its own, `SELECT … FOR UPDATE`
waits until the row's lock is free and then reads the committed row, a lock is held until its
transaction ends, and a transaction's writes become visible all at once when the server commits it.
What `jsonb` accepts, and when it calls two texts equal, is a parameter.
-/
import LocalPlatform.Logic.Transition
import LocalPlatform.Relay.Event
import LocalPlatform.Relay.History.Attempt

namespace LocalPlatform.Relay.History

open Codec

/-- A row of `relay_events`.  The empty key stands for `NULL`, `claimed` and `published` for a time that
is set; `creator` is the call that inserted the row, which the table does not store. -/
structure EventRow (J : Type) where
  id : Bytes
  tenantID : Bytes
  eventType : Bytes
  data : J
  dataRaw : Bytes
  idempotencyKey : Bytes
  claimed : Bool
  occurredAt : Int
  published : Bool
  creator : Option Nat
  deriving DecidableEq, Repr

/-- What a call was asked to do. -/
inductive Job where
  | accept (rec : Record)
  | record (eventID : Bytes) (attempt : Attempt)

/-- The world the store runs in: how `jsonb` reads a text, the offset of the process's time zone at an
instant, and the calls. -/
structure Setting (J : Type) where
  jsonb : Bytes → Option J
  zone : Int → Int
  jobs : Nat → Job

/-- `AcceptEvent` gives back the record it chose, and whether an earlier request had published it. -/
structure Acceptance where
  record : Record
  deduplicated : Bool
  deriving DecidableEq, Repr

/-- Why a call failed. -/
inductive Failure where
  | generatedIDExists
  | idempotencyConflict
  | idCollided
  | publishFailed
  | invalidAttempt (e : InvalidAttempt)
  | eventNotFound
  | uniqueViolation
  /-- Any other failed or cancelled statement. -/
  | statement
  deriving DecidableEq, Repr

/-- How a call ended. -/
inductive Result where
  | accepted (a : Acceptance)
  | recorded
  | failed (e : Failure)
  deriving DecidableEq, Repr

/-- Where a call is in its source text. -/
inductive Client (J : Type) where
  | start
  /-- `AcceptEvent`: the insert was answered. -/
  | reserved
  /-- The transaction has begun. -/
  | begun
  /-- `AcceptEvent`: the row is locked and read, and compared with the request. -/
  | read (row : EventRow J) (agrees : Bool)
  /-- `AcceptEvent`: the publisher returned nil. -/
  | published (row : EventRow J)
  /-- `AcceptEvent`: the update was answered. -/
  | marked (row : EventRow J)
  /-- `AcceptEvent`: the commit was issued. -/
  | closing (a : Acceptance)
  /-- `RecordAttempt`: the event row is locked. -/
  | locked
  /-- `RecordAttempt`: the insert began, on these committed rows. -/
  | inserting (snapshot : List AttemptRow)
  /-- `RecordAttempt`: the insert was answered. -/
  | inserted
  /-- `RecordAttempt`: the commit was issued. -/
  | closingAttempt
  | done (r : Result)

/-- What a transaction has written and not yet committed. -/
inductive Write where
  | nothing
  | publish (id : Bytes)
  | attempt (row : AttemptRow)
  deriving DecidableEq, Repr

/-- The transaction the server holds for a call. -/
inductive Tx where
  | idle
  | active (w : Write)
  /-- The server has the commit and has not decided. -/
  | closing (w : Write)
  | committed (w : Write)
  /-- Ended without effect; `issued` when the commit had been sent. -/
  | aborted (issued : Bool)
  deriving DecidableEq, Repr

structure CallState (J : Type) where
  client : Client J
  tx : Tx

/-- How a publish ended: acknowledged, or failed with the record on the topic or not. -/
inductive PublishResult where
  | acked
  | failed (reached : Bool)
  deriving DecidableEq, Repr

/-- One call of the publisher. -/
structure Publication where
  call : Option Nat
  record : Record
  result : PublishResult
  deriving DecidableEq, Repr

/-- The committed tables, the row locks, the calls, and every record handed to the publisher. -/
structure State (J : Type) where
  events : List (EventRow J)
  attempts : List AttemptRow
  lock : Bytes → Option Nat
  calls : Nat → CallState J
  log : List Publication

/-! ## The statements -/

variable {J : Type}

/-- The row with its publication left open: what never changes once it is inserted. -/
def EventRow.core (row : EventRow J) : EventRow J := { row with published := false }

/-- The record a row is read back as. -/
def EventRow.record (zone : Int → Int) (row : EventRow J) : Record where
  id := row.id
  tenantID := row.tenantID
  type := row.eventType
  data := row.dataRaw
  occurredAt := ⟨row.occurredAt * 1000, zone row.occurredAt⟩
  idempotencyKey := row.idempotencyKey

/-- A blank key is no key. -/
def trimKey (rec : Record) : Record :=
  if isBlank rec.idempotencyKey then { rec with idempotencyKey := [] } else rec

/-- The row `AcceptEvent` inserts. -/
def newRow (c : Nat) (rec : Record) (data : J) : EventRow J where
  id := rec.id
  tenantID := rec.tenantID
  eventType := rec.type
  data := data
  dataRaw := rec.data
  idempotencyKey := rec.idempotencyKey
  claimed := rec.idempotencyKey ≠ []
  occurredAt := micros rec.occurredAt
  published := false
  creator := some c

/-- Two rows no table can hold together: one primary key, or one claimed tenant and key. -/
def clash (a b : EventRow J) : Bool :=
  a.id == b.id ||
    (a.claimed && b.claimed && a.tenantID == b.tenantID && a.idempotencyKey == b.idempotencyKey)

/-- **`INSERT … ON CONFLICT DO NOTHING`**: the number of rows affected, and the table after it. -/
def insertEvent (events : List (EventRow J)) (row : EventRow J) : Nat × List (EventRow J) :=
  if events.any (clash row) then (0, events) else (1, events ++ [row])

/-- The rows `lockAcceptedEvent` selects: by id without a key, by claimed tenant and key with one. -/
def selects (rec : Record) (row : EventRow J) : Bool :=
  if rec.idempotencyKey = [] then row.id == rec.id
  else row.tenantID == rec.tenantID && row.idempotencyKey == rec.idempotencyKey && row.claimed

/-- The last column of the select: the request is the one the row was made for. -/
def agrees [DecidableEq J] (rec : Record) (data : J) (row : EventRow J) : Bool :=
  (rec.idempotencyKey ≠ [] || row.tenantID == rec.tenantID) && row.eventType == rec.type &&
    row.data == data

/-- `UPDATE relay_events SET published_at = COALESCE(published_at, now()) WHERE id = $1`. -/
def markPublished (id : Bytes) (events : List (EventRow J)) : List (EventRow J) :=
  events.map fun row => if row.id = id then { row with published := true } else row

/-- What a commit makes visible. -/
def State.apply (s : State J) : Write → State J
  | .nothing => s
  | .publish id => { s with events := markPublished id s.events }
  | .attempt row => { s with attempts := s.attempts ++ [row] }

/-- The end of a transaction gives its locks back. -/
def State.release (s : State J) (c : Nat) : State J :=
  { s with lock := fun id => if s.lock id = some c then none else s.lock id }

def State.acquire (s : State J) (c : Nat) (id : Bytes) : State J :=
  { s with lock := Function.update s.lock id (some c) }

def State.put (s : State J) (c : Nat) (call : CallState J) : State J :=
  { s with calls := Function.update s.calls c call }

def State.publishes (s : State J) (p : Publication) : State J := { s with log := s.log ++ [p] }

/-- Where the insert leaves the client that sees its tag. -/
def afterInsert (rec : Record) (affected : Nat) : Client J :=
  if rec.idempotencyKey = [] ∧ affected ≠ 1 then .done (.failed .generatedIDExists) else .reserved

/-- Where a publish leaves the client. -/
def afterPublish (row : EventRow J) : PublishResult → Client J
  | .acked => .published row
  | .failed _ => .done (.failed .publishFailed)

/-- What `AcceptEvent` answers a request that does not agree with the row. -/
def mismatch (rec : Record) : Failure :=
  if rec.idempotencyKey ≠ [] then .idempotencyConflict else .idCollided

/-- The row a `RecordAttempt` inserts, numbered from the rows its statement sees. -/
def attemptRow (c : Nat) (eventID : Bytes) (attempt : Attempt) (snapshot : List AttemptRow) : AttemptRow :=
  rowOf (some c) eventID attempt (nextNumber snapshot eventID attempt.subscriptionID)

/-- The sequence constraint refuses the row: it is in the table, or another transaction is about to put
it there. -/
def Taken (s : State J) (c : Nat) (row : AttemptRow) : Prop :=
  (∃ r ∈ s.attempts, sameSequence r row = true) ∨
    ∃ c' ≠ c, ∃ r, ((s.calls c').tx = .active (.attempt r) ∨ (s.calls c').tx = .closing (.attempt r)) ∧
      sameSequence r row = true

/-! ## The steps -/

section Steps

variable [DecidableEq J] (cfg : Setting J)

/-- A step that changes nothing but the call that takes it. -/
inductive Local (s : State J) (c : Nat) : CallState J → CallState J → Prop
  | beginAccept : Local s c ⟨.reserved, .idle⟩ ⟨.begun, .active .nothing⟩
  | beginAttempt {eventID attempt} (job : cfg.jobs c = .record eventID attempt)
      (ok : validateAttempt eventID attempt = none) :
      Local s c ⟨.start, .idle⟩ ⟨.begun, .active .nothing⟩
  | invalidAttempt {eventID attempt e} (job : cfg.jobs c = .record eventID attempt)
      (bad : validateAttempt eventID attempt = some e) :
      Local s c ⟨.start, .idle⟩ ⟨.done (.failed (.invalidAttempt e)), .idle⟩
  | mismatch {rec row tx} (job : cfg.jobs c = .accept rec) :
      Local s c ⟨.read row false, tx⟩ ⟨.done (.failed (mismatch (trimKey rec))), tx⟩
  | commitDeduplicated {row w} (published : row.published = true) :
      Local s c ⟨.read row true, .active w⟩ ⟨.closing ⟨row.record cfg.zone, true⟩, .closing w⟩
  | encodeFailed {row tx e} (unpublished : row.published = false)
      (bad : encodeRecord (row.record cfg.zone) = .error e) :
      Local s c ⟨.read row true, tx⟩ ⟨.done (.failed .publishFailed), tx⟩
  | mark {row w} : Local s c ⟨.published row, .active w⟩ ⟨.marked row, .active (.publish row.id)⟩
  | commitPublished {row w} :
      Local s c ⟨.marked row, .active w⟩ ⟨.closing ⟨row.record cfg.zone, false⟩, .closing w⟩
  | notFound {eventID attempt w} (job : cfg.jobs c = .record eventID attempt)
      (absent : ∀ row ∈ s.events, row.id ≠ eventID) :
      Local s c ⟨.begun, .active w⟩ ⟨.done (.failed .eventNotFound), .active w⟩
  | snapshot {w} : Local s c ⟨.locked, .active w⟩ ⟨.inserting s.attempts, .active w⟩
  | insertAttempt {eventID attempt snapshot w} (job : cfg.jobs c = .record eventID attempt)
      (free : ¬ Taken s c (attemptRow c eventID attempt snapshot))
      (checks : (attemptRow c eventID attempt snapshot).checks = true) :
      Local s c ⟨.inserting snapshot, .active w⟩
        ⟨.inserted, .active (.attempt (attemptRow c eventID attempt snapshot))⟩
  | violate {eventID attempt snapshot tx} (job : cfg.jobs c = .record eventID attempt)
      (taken : Taken s c (attemptRow c eventID attempt snapshot)) (active : ∃ w, tx = .active w) :
      Local s c ⟨.inserting snapshot, tx⟩ ⟨.done (.failed .uniqueViolation), tx⟩
  | commitAttempt {w} : Local s c ⟨.inserted, .active w⟩ ⟨.closingAttempt, .closing w⟩
  | acknowledge {a w} : Local s c ⟨.closing a, .committed w⟩ ⟨.done (.accepted a), .committed w⟩
  | acknowledgeAttempt {w} :
      Local s c ⟨.closingAttempt, .committed w⟩ ⟨.done .recorded, .committed w⟩
  | fail {client tx} (running : ∀ r, client ≠ .done r) :
      Local s c ⟨client, tx⟩ ⟨.done (.failed .statement), tx⟩

/-- **One step of the system**, taken by call `c` or by the server on its behalf. -/
inductive Step (s : State J) (c : Nat) : State J → Prop
  /-- A step of one call alone. -/
  | call {new} (h : Local cfg s c (s.calls c) new) : Step s c (s.put c new)
  /-- The insert takes effect; the client sees its tag or, when `seen` is false, an error. -/
  | insert {rec data} (seen : Bool) (job : cfg.jobs c = .accept rec)
      (client : s.calls c = ⟨.start, .idle⟩) (json : cfg.jsonb rec.data = some data) :
      Step s c (({ s with events := (insertEvent s.events (newRow c (trimKey rec) data)).2 } : State J).put c
        ⟨if seen then afterInsert (trimKey rec) (insertEvent s.events (newRow c (trimKey rec) data)).1
          else .done (.failed .statement), .idle⟩)
  /-- `AcceptEvent` locks and reads its row. -/
  | read {rec data row w} (job : cfg.jobs c = .accept rec)
      (client : s.calls c = ⟨.begun, .active w⟩) (json : cfg.jsonb rec.data = some data)
      (found : s.events.find? (selects (trimKey rec)) = some row) (free : s.lock row.id = none) :
      Step s c ((s.acquire c row.id).put c ⟨.read row (agrees (trimKey rec) data row), .active w⟩)
  /-- `RecordAttempt` locks its event. -/
  | lockEvent {eventID attempt w} (job : cfg.jobs c = .record eventID attempt)
      (client : s.calls c = ⟨.begun, .active w⟩) (present : ∃ row ∈ s.events, row.id = eventID)
      (free : s.lock eventID = none) :
      Step s c ((s.acquire c eventID).put c ⟨.locked, .active w⟩)
  /-- The publisher is called with the row's record, whatever has become of the transaction. -/
  | publish {row tx value} (result : PublishResult) (client : s.calls c = ⟨.read row true, tx⟩)
      (unpublished : row.published = false) (encoded : encodeRecord (row.record cfg.zone) = .ok value) :
      Step s c ((s.publishes ⟨some c, row.record cfg.zone, result⟩).put c ⟨afterPublish row result, tx⟩)
  /-- The server commits. -/
  | commit {client w} (call : s.calls c = ⟨client, .closing w⟩) :
      Step s c (((s.apply w).release c).put c ⟨client, .committed w⟩)
  /-- The server ends a transaction without effect. -/
  | abort {client w} (issued : Bool)
      (call : s.calls c = ⟨client, if issued then .closing w else .active w⟩) :
      Step s c ((s.release c).put c ⟨client, .aborted issued⟩)

end Steps

/-! ## The start -/

/-- The id has an acknowledged publication. -/
def Acked (s : State J) (id : Bytes) : Prop :=
  ∃ p ∈ s.log, p.record.id = id ∧ p.result = .acked

/-- **Where a run starts**: tables that meet their constraints, whose published events were
acknowledged and whose attempts are numbered without gaps; no lock held, no call begun. -/
structure Initial (s : State J) : Prop where
  events : s.events.Pairwise fun a b => clash a b = false
  keys : ∀ row ∈ s.events, row.claimed = true → row.idempotencyKey ≠ []
  creators : ∀ row ∈ s.events, row.creator = none
  acked : ∀ row ∈ s.events, row.published = true → Acked s row.id
  callers : ∀ p ∈ s.log, p.call = none
  attempts : Dense s.attempts
  owners : ∀ row ∈ s.attempts, row.owner = none
  locks : ∀ id, s.lock id = none
  calls : ∀ c, s.calls c = ⟨.start, .idle⟩

/-- A store nobody has used. -/
def unused : State J := ⟨[], [], fun _ => none, fun _ => ⟨.start, .idle⟩, []⟩

theorem initial_unused : Initial (unused : State J) where
  events := List.Pairwise.nil
  keys _ h := absurd h List.not_mem_nil
  creators _ h := absurd h List.not_mem_nil
  acked _ h := absurd h List.not_mem_nil
  callers _ h := absurd h List.not_mem_nil
  attempts _ _ := rfl
  owners _ h := absurd h List.not_mem_nil
  locks _ := rfl
  calls _ := rfl

/-- The history store as a transition system. -/
def system [DecidableEq J] (cfg : Setting J) : Logic.System (State J) := ⟨Initial, fun s t => ∃ c, Step cfg s c t⟩

end LocalPlatform.Relay.History
