/-
# LocalPlatform.Relay.Delivery.Recordable — which attempts the history takes.

An attempt that cannot be recorded is an error, an error keeps the offset, and so the record comes back to
every subscriber.  The deliverer builds attempts that `validateAttempt` and the table's constraints
accept, with one exception: the HTTP client passes on any three-digit status, the table stops at 599.
-/
import LocalPlatform.Relay.Delivery.Deliver
import LocalPlatform.Relay.History.Store

namespace LocalPlatform.Relay.Delivery

open Codec Subscriptions History

/-- Both gates let the attempt in: the code's own check, and the table's, on the row alone and beside the rows that are
there already. -/
def Recordable (call : Nat) (eventID : Bytes) (a : Attempt) (rows : List AttemptRow) : Prop :=
  validateAttempt eventID a = none ∧ (attemptRow call eventID a rows).checks = true ∧
    ∀ row ∈ rows, sameSequence (attemptRow call eventID a rows) row = false

theorem attemptOutcome_mem (env : AttemptEnv) (willRetry delivered : Bool) (reqErr : Option Err) :
    attemptOutcome env willRetry delivered reqErr ∈ outcomes := by
  unfold attemptOutcome
  split
  · simp [outcomes]
  · split
    · split <;> simp [outcomes]
    · split <;> simp [outcomes]

/-- A status and an error exclude each other, and the text of an error is not empty. -/
theorem result_of_attempt (rt : Runtime) (sub : Subscription) (rec : Record) (body : Bytes) (ex : Exchange) :
    (∃ e, (attempt rt sub rec body ex).1.2 = some e ∧ e.text ≠ [] ∧ ∀ now status, ex ≠ .answered now status) ∨
      ∃ now status, ex = .answered now status ∧ (attempt rt sub rec body ex).1 = (status, none) := by
  have hbuild : ascii "build request: " ≠ [] := by decide
  have hpost : ascii "Post " ≠ [] := by decide
  cases ex with
  | refused e => exact Or.inl ⟨_, rfl, by simp [Err.wrap, hbuild], by simp⟩
  | failed now url e => exact Or.inl ⟨_, rfl, by simp [Err.wrap, hpost], by simp⟩
  | answered now status => exact Or.inr ⟨now, status, rfl, rfl⟩

theorem micros_le {a b : Time} (h : b.before a = false) : micros a ≤ micros b := by
  have hle : a.nanos ≤ b.nanos := by simpa [Time.before] using h
  exact Int.ediv_le_ediv (by omega) hle

/-- What every attempt the deliverer builds has, whatever the subscriber does: exactly one result, a known
outcome, and a finish not before its start. -/
structure WellBuilt (a : Attempt) : Prop where
  result : ¬ (a.httpStatus.isNone = true ↔ a.transportError = [])
  outcome : a.outcome ∈ outcomes
  clock : a.finishedAt.before a.startedAt = false

theorem wellBuilt_turnAttempt (rt : Runtime) (sub : Subscription) (rec : Record) (body : Bytes) (number : Nat)
    {env : AttemptEnv} (hclock : env.finishedAt.before env.startedAt = false) (willRetry delivered : Bool) :
    WellBuilt (turnAttempt sub number env (attempt rt sub rec body env.exchange).1 willRetry delivered) where
  result := by
    rcases result_of_attempt rt sub rec body env.exchange with ⟨e, he, htext, _⟩ | ⟨now, status, _, hres⟩
    · simp [turnAttempt, builtAttempt, he, htext]
    · simp [turnAttempt, builtAttempt, hres]
  outcome := attemptOutcome_mem env willRetry delivered _
  clock := hclock

/-- The validator, on such an attempt of an event with an id. -/
theorem WellBuilt.validate {eventID : Bytes} {a : Attempt} (h : WellBuilt a) (hid : isBlank eventID = false)
    (hurl : isBlank a.subscriptionURL = false) : validateAttempt eventID a = none ↔
      0 < a.subscriptionID ∧ a.startedAt.isZero = false ∧ a.finishedAt.isZero = false := by
  unfold validateAttempt
  rw [if_neg (by simp [hid])]
  by_cases hsub : a.subscriptionID ≤ 0
  · rw [if_pos hsub]
    exact iff_of_false (by simp) (fun h => absurd h.1 (by omega))
  rw [if_neg hsub, if_neg (by simp [hurl])]
  by_cases htimes : a.startedAt.isZero = true ∨ a.finishedAt.isZero = true ∨
      a.finishedAt.before a.startedAt = true
  · rw [if_pos htimes]
    refine iff_of_false (by simp) fun hz => ?_
    simp [hz.2.1, hz.2.2, h.clock] at htimes
  · rw [if_neg htimes, if_neg h.result, if_pos h.outcome]
    rw [not_or, not_or, Bool.not_eq_true, Bool.not_eq_true] at htimes
    exact iff_of_true rfl ⟨by omega, htimes.1, htimes.2.1⟩

/-- The table, on such an attempt: only a status can be refused. -/
theorem WellBuilt.checks {call : Nat} {eventID : Bytes} {a : Attempt} {rows : List AttemptRow}
    (h : WellBuilt a) : (attemptRow call eventID a rows).checks = true ↔
      ∀ status, a.httpStatus = some status → 100 ≤ status ∧ status ≤ 599 := by
  have hone : (a.httpStatus.isNone != (if a.transportError = [] then none else some a.transportError).isNone) =
      true := by
    by_cases htext : a.transportError = []
    · cases hstatus : a.httpStatus with
      | none => exact absurd (by simp [hstatus, htext]) h.result
      | some status => simp [htext]
    · cases hstatus : a.httpStatus with
      | none => simp [htext]
      | some status => exact absurd (by simp [hstatus, htext]) h.result
  have hnumber : 0 < nextNumber rows eventID a.subscriptionID := Nat.succ_pos _
  simp only [AttemptRow.checks, attemptRow, rowOf, hone, micros_le h.clock, hnumber, decide_true,
    Bool.true_and, Bool.and_true, List.contains_iff_mem, h.outcome, Bool.and_eq_true, and_true]
  cases a.httpStatus with
  | none => simp
  | some status => simp

/-- The number the row is given is new, so the sequence constraint has nothing to refuse. -/
theorem sameSequence_attemptRow (call : Nat) (eventID : Bytes) (a : Attempt) (rows : List AttemptRow) :
    ∀ row ∈ rows, sameSequence (attemptRow call eventID a rows) row = false := by
  intro row hrow
  rw [Bool.eq_false_iff]
  intro hsame
  simp only [sameSequence, attemptRow, rowOf, Bool.and_eq_true, beq_iff_eq] at hsame
  have hlt := lt_nextNumber hrow hsame.1
  omega

/-- The status an attempt carries is the one that was answered. -/
theorem status_turnAttempt (rt : Runtime) (sub : Subscription) (rec : Record) (body : Bytes) (number : Nat)
    (env : AttemptEnv) (willRetry delivered : Bool) :
    (∀ status, (turnAttempt sub number env (attempt rt sub rec body env.exchange).1 willRetry
        delivered).httpStatus = some status → 100 ≤ status ∧ status ≤ 599) ↔
      ∀ now status, env.exchange = .answered now status → 100 ≤ status ∧ status ≤ 599 := by
  rcases result_of_attempt rt sub rec body env.exchange with ⟨e, he, _, hne⟩ | ⟨now, status, hex, hres⟩
  · exact iff_of_true (by simp [turnAttempt, builtAttempt, he]) (fun now status h => absurd h (hne now status))
  · have hsome : (turnAttempt sub number env (attempt rt sub rec body env.exchange).1 willRetry
        delivered).httpStatus = some status := by simp [turnAttempt, builtAttempt, hres]
    rw [hsome, hex]
    simp

/-- **What can be recorded**: every failed request, and every response whose status is between 100 and
599. -/
theorem recordable_iff {rt : Runtime} {sub : Subscription} {rec : Record} {answer : Answer}
    {subs : List Subscription} (hid : isBlank rec.id = false)
    (hlookup : forTenant rt.lib rec.tenantID answer = .ok subs) (hsub : sub ∈ subs) {env : AttemptEnv}
    (hclock : env.finishedAt.before env.startedAt = false) (body : Bytes) (number : Nat)
    (willRetry delivered : Bool) (call : Nat) (rows : List AttemptRow) :
    Recordable call rec.id (turnAttempt sub number env (attempt rt sub rec body env.exchange).1 willRetry
        delivered) rows ↔
      0 < sub.id ∧ env.startedAt.isZero = false ∧ env.finishedAt.isZero = false ∧
        ∀ now status, env.exchange = .answered now status → 100 ≤ status ∧ status ≤ 599 := by
  have hurl : isBlank sub.url = false := not_blank_of_validateURL ((forTenant_ok hlookup).2.2 sub hsub)
  have hbuilt := wellBuilt_turnAttempt rt sub rec body number hclock willRetry delivered
  unfold Recordable
  rw [and_iff_left (sameSequence_attemptRow _ _ _ _), hbuilt.validate hid hurl, hbuilt.checks, status_turnAttempt, and_assoc,
    and_assoc]
  rfl

/-- A subscription of a tenant, and one of its events. -/
def hook : Subscription := ⟨1, ascii "acme", ascii "http://sink/hook", ascii "secret"⟩

def invoice : Record :=
  ⟨newID (List.replicate 16 7), ascii "acme", ascii "invoice.paid", ascii "[]", .ofUnix 100, []⟩

/-- A turn in which the subscriber answers with this status within a second. -/
def answering (status : Int) : AttemptEnv :=
  ⟨none, .ofUnix 100, .answered (.ofUnix 100) status, .ofUnix 101, false, false, none, none, none⟩

theorem recordable_iff_200 : Recordable 0 invoice.id
    (turnAttempt hook 1 (answering 200) (attempt plainRuntime hook invoice [] (answering 200).exchange).1
      true true) [] := by
  have hlookup : forTenant plainRuntime.lib invoice.tenantID (.rows [hook] none) = .ok [hook] := by
    decide
  have hclock : (answering 200).finishedAt.before (answering 200).startedAt = false := by decide
  refine (recordable_iff (by decide) hlookup (List.mem_singleton_self hook) hclock [] 1 true true 0
    []).mpr ⟨by decide, by decide, by decide, fun now status h => ?_⟩
  injection h with _ hstatus
  omega

/-- **A subscriber that answers 600 is never done with**: the HTTP client passes the status on, the table
refuses the row. -/
theorem not_recordable_600 : ¬ ∀ (rt : Runtime) (sub : Subscription) (rec : Record) (answer : Answer)
    (subs : List Subscription) (env : AttemptEnv) (body : Bytes) (number : Nat) (willRetry delivered : Bool)
    (call : Nat) (rows : List AttemptRow), isBlank rec.id = false →
      forTenant rt.lib rec.tenantID answer = .ok subs → sub ∈ subs → 0 < sub.id →
      env.finishedAt.before env.startedAt = false → env.startedAt.isZero = false →
      env.finishedAt.isZero = false →
      (∀ now status, env.exchange = .answered now status → 0 ≤ status ∧ status ≤ 999) →
      Recordable call rec.id (turnAttempt sub number env (attempt rt sub rec body env.exchange).1 willRetry
        delivered) rows := by
  intro hall
  have h := hall plainRuntime hook invoice (.rows [hook] none) [hook] (answering 600) [] 1 true false 0 []
    (by decide) (by decide) (List.mem_singleton_self hook) (by decide) (by decide)
    (by decide) (by decide) (fun now status h => by
      injection h with _ hstatus
      omega)
  exact absurd h.2.1 (by decide)

end LocalPlatform.Relay.Delivery
