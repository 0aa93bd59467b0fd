/-
# LocalPlatform.Relay.History.Attempt — one attempt: what the code checks, what the table checks.

An attempt passes two gates on its way into `relay_delivery_attempts`.  `validateAttempt` looks at the
values the deliverer built; the table's constraints look at the row the insert makes of them.  The two
were written apart, and this module keeps them apart: `Attempt.invalid` is the first, `AttemptRow.checks`
the second, and `rowOf` is the only way from one to the other.
-/
import LocalPlatform.Codec.Utf8
import LocalPlatform.Codec.Time

namespace LocalPlatform.Relay.History

open Codec

def outcomeDelivered : Bytes := ascii "delivered"
def outcomeRetrying : Bytes := ascii "retrying"
def outcomeExhausted : Bytes := ascii "exhausted"
def outcomeInterrupted : Bytes := ascii "interrupted"

/-- The outcomes both gates know. -/
def outcomes : List Bytes := [outcomeDelivered, outcomeRetrying, outcomeExhausted, outcomeInterrupted]

/-- One completed HTTP request to one subscription. -/
structure Attempt where
  subscriptionID : Int
  subscriptionURL : Bytes
  attemptNumber : Nat
  startedAt : Time
  finishedAt : Time
  httpStatus : Option Int
  transportError : Bytes
  outcome : Bytes
  deriving DecidableEq, Repr

/-- What `validateAttempt` objects to. -/
inductive InvalidAttempt where
  | blankEventID
  | subscriptionID (n : Int)
  | blankSubscriptionURL
  | timestamps
  | result
  | outcome (o : Bytes)
  deriving DecidableEq, Repr

/-- **`validateAttempt eventID attempt`** — `none` when the attempt may be recorded. -/
def validateAttempt (eventID : Bytes) (attempt : Attempt) : Option InvalidAttempt :=
  if isBlank eventID then some .blankEventID
  else if attempt.subscriptionID ≤ 0 then some (.subscriptionID attempt.subscriptionID)
  else if isBlank attempt.subscriptionURL then some .blankSubscriptionURL
  else if attempt.startedAt.isZero ∨ attempt.finishedAt.isZero ∨
      attempt.finishedAt.before attempt.startedAt then some .timestamps
  else if (attempt.httpStatus.isNone = true) ↔ (attempt.transportError = []) then some .result
  else if attempt.outcome ∈ outcomes then none
  else some (.outcome attempt.outcome)

/-! ## The table -/

/-- A row of `relay_delivery_attempts`.  `timestamptz` counts microseconds; `owner` is the call that
inserted the row, which the table does not store. -/
structure AttemptRow where
  eventID : Bytes
  subscriptionID : Int
  subscriptionURL : Bytes
  attemptNumber : Nat
  startedAt : Int
  finishedAt : Int
  httpStatus : Option Int
  transportError : Option Bytes
  outcome : Bytes
  owner : Option Nat
  deriving DecidableEq, Repr

/-- A time as `timestamptz` stores it. -/
def micros (t : Time) : Int := t.nanos / 1000

/-- The row the insert makes of an attempt, under the number the table gives it. -/
def rowOf (owner : Option Nat) (eventID : Bytes) (attempt : Attempt) (number : Nat) : AttemptRow where
  eventID := eventID
  subscriptionID := attempt.subscriptionID
  subscriptionURL := attempt.subscriptionURL
  attemptNumber := number
  startedAt := micros attempt.startedAt
  finishedAt := micros attempt.finishedAt
  httpStatus := attempt.httpStatus
  transportError := if attempt.transportError = [] then none else some attempt.transportError  -- NULLIF
  outcome := attempt.outcome
  owner := owner

/-- **`row.checks`** — every `CHECK` constraint of the table. -/
def AttemptRow.checks (row : AttemptRow) : Bool :=
  0 < row.attemptNumber && row.startedAt ≤ row.finishedAt &&
    (row.httpStatus.isNone != row.transportError.isNone) &&
    row.httpStatus.all (fun status => 100 ≤ status && status ≤ 599) &&
    outcomes.contains row.outcome

/-- The rows of one event and subscription. -/
def pair (eventID : Bytes) (subscriptionID : Int) (row : AttemptRow) : Bool :=
  row.eventID == eventID && row.subscriptionID == subscriptionID

/-- The numbers in use for one event and subscription, in the order of the rows. -/
def numbers (rows : List AttemptRow) (eventID : Bytes) (subscriptionID : Int) : List Nat :=
  (rows.filter (pair eventID subscriptionID)).map AttemptRow.attemptNumber

/-- **`nextNumber rows eventID subscriptionID`** — `COALESCE(MAX(attempt_number), 0) + 1`. -/
def nextNumber (rows : List AttemptRow) (eventID : Bytes) (subscriptionID : Int) : Nat :=
  (numbers rows eventID subscriptionID).foldr max 0 + 1

/-- The key of the table's sequence constraint. -/
def sameSequence (a b : AttemptRow) : Bool :=
  pair a.eventID a.subscriptionID b && a.attemptNumber == b.attemptNumber

/-- **Every pair's numbers are `1, 2, …, n`, in the order of the rows.** -/
def Dense (rows : List AttemptRow) : Prop :=
  ∀ eventID subscriptionID, numbers rows eventID subscriptionID =
    List.range' 1 (numbers rows eventID subscriptionID).length

theorem numbers_append (a b : List AttemptRow) (eventID : Bytes) (subscriptionID : Int) :
    numbers (a ++ b) eventID subscriptionID =
      numbers a eventID subscriptionID ++ numbers b eventID subscriptionID := by
  simp [numbers]

theorem le_foldr_max {n : Nat} {ns : List Nat} (h : n ∈ ns) : n ≤ ns.foldr max 0 := by
  induction ns with
  | nil => simp at h
  | cons m ms ih =>
      rw [List.foldr_cons]
      rcases List.mem_cons.mp h with rfl | h
      · exact Nat.le_max_left _ _
      · exact Nat.le_trans (ih h) (Nat.le_max_right _ _)

/-- The number handed out is above every number in use, dense or not. -/
theorem lt_nextNumber {rows : List AttemptRow} {row : AttemptRow} {eventID : Bytes}
    {subscriptionID : Int} (h : row ∈ rows) (hpair : pair eventID subscriptionID row = true) :
    row.attemptNumber < nextNumber rows eventID subscriptionID := by
  have hmem : row.attemptNumber ∈ numbers rows eventID subscriptionID :=
    List.mem_map_of_mem (List.mem_filter.mpr ⟨h, hpair⟩)
  have hle := le_foldr_max hmem
  unfold nextNumber
  omega

theorem foldr_max_range' (n : Nat) : (List.range' 1 n).foldr max 0 = n := by
  induction n with
  | zero => rfl
  | succ n ih =>
      have hmax : ∀ (ns : List Nat) (a : Nat), ns.foldr max a = max (ns.foldr max 0) a := by
        intro ns a
        induction ns with
        | nil => simp
        | cons m ms ih => rw [List.foldr_cons, List.foldr_cons, ih, Nat.max_assoc]
      rw [List.range'_concat, List.foldr_append, hmax, ih]
      simp
      omega

/-- In a dense table the next number is the length of the sequence plus one. -/
theorem Dense.nextNumber {rows : List AttemptRow} (h : Dense rows) (eventID : Bytes)
    (subscriptionID : Int) : nextNumber rows eventID subscriptionID =
      (numbers rows eventID subscriptionID).length + 1 := by
  rw [History.nextNumber, h eventID subscriptionID, foldr_max_range', List.length_range']

/-- **A dense table stays dense** when a row is appended under the next number. -/
theorem Dense.append {rows : List AttemptRow} (h : Dense rows) {row : AttemptRow}
    (hrow : row.attemptNumber = History.nextNumber rows row.eventID row.subscriptionID) :
    Dense (rows ++ [row]) := by
  intro eventID subscriptionID
  rw [numbers_append]
  by_cases hpair : pair eventID subscriptionID row = true
  · have hkey := hpair
    simp only [pair, Bool.and_eq_true, beq_iff_eq] at hkey
    have hone : numbers [row] eventID subscriptionID = [row.attemptNumber] := by
      simp [numbers, hpair]
    rw [h.nextNumber, hkey.1, hkey.2] at hrow
    rw [hone, hrow, List.length_append, List.length_singleton, List.range'_concat,
      ← h eventID subscriptionID, Nat.one_mul, Nat.add_comm 1]
  · have hnone : numbers [row] eventID subscriptionID = [] := by
      simp [numbers, hpair]
    rw [hnone, List.append_nil]
    exact h eventID subscriptionID

end LocalPlatform.Relay.History
