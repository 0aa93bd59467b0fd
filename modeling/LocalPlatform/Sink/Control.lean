/-
# LocalPlatform.Sink.Control — the knobs of the sink, turned while it runs.

`postControl` takes four optional fields in turn: each is checked and stored before the next is looked at.  A refusal
therefore keeps what the fields before it stored.  `assignments` lists what a body asks for in that order; the handler
carries out those in front of the first it refuses (`postControl_applies`).
-/
import LocalPlatform.Python.Double
import LocalPlatform.Relay.Ingest
import LocalPlatform.Sink.Latch
import Mathlib.Data.List.TakeWhile

namespace LocalPlatform.Sink

open Codec Codec.Json Python

/-! ## The request -/

/-- What a body asks for; a field is `none` where it is absent or `null`. -/
structure Control where
  latencyMS : Option Int
  failRate : Option Double
  latch : Option Bytes
  release : Option Bytes
  deriving DecidableEq

/-- The digits at the front of a number, and what follows them. -/
def digits (bs : Bytes) : Bytes × Bytes := (bs.takeWhile isDigit, bs.dropWhile isDigit)

/-- The value of a run of digits. -/
def digitsValue (ds : Bytes) : Nat := ds.foldl (fun n c => n * 10 + (c.toNat - 48)) 0

/-- The exponent behind its letter. -/
def exponent : Bytes → Option ℤ
  | [] => some 0
  | e :: rest =>
    let (negative, ds) := match rest with
      | 0x2d :: ds => (true, ds)
      | 0x2b :: ds => (false, ds)
      | ds => (false, ds)
    if (e = 0x65 ∨ e = 0x45) ∧ ds ≠ [] ∧ ds.all isDigit then
      some (if negative then -(digitsValue ds : ℤ) else digitsValue ds)
    else none

/-- **`strconv.ParseFloat(s, 64)`** of a JSON number: the nearest double, and none where it is out of range. -/
def parseFloat (raw : Bytes) : Option Double :=
  let (negative, rest) := match raw with
    | 0x2d :: rest => (true, rest)
    | rest => (false, rest)
  let (whole, rest) := digits rest
  let (fraction, rest) := match rest with
    | 0x2e :: rest => digits rest
    | rest => ([], rest)
  match exponent rest with
  | none => none
  | some e =>
    if whole = [] then none
    else match Double.ofMagnitude negative (digitsValue (whole ++ fraction) * 10 ^ (e - fraction.length)) with
      | .infinite _ => none
      | x => some x

/-- A pointer field: `null` clears it, and anything else has to fit what it points to. -/
def setPointer {α : Type} (set : Bytes → Option α) (raw : Bytes) : Option (Option α) :=
  if raw = literalNull then some none else (set raw).map some

/-- A Go string. -/
def readString (raw : Bytes) : Option Bytes := if raw.head? = some 0x22 then some (unquote raw) else none

def controlFields : List (StructField Control) :=
  [⟨ascii "latency_ms", fun c raw => (setPointer parseInt raw).map fun v => { c with latencyMS := v }⟩,
   ⟨ascii "fail_rate", fun c raw => (setPointer parseFloat raw).map fun v => { c with failRate := v }⟩,
   ⟨ascii "latch", fun c raw => (setPointer readString raw).map fun v => { c with latch := v }⟩,
   ⟨ascii "release", fun c raw => (setPointer readString raw).map fun v => { c with release := v }⟩]

def maxControlBytes : Nat := 4096

/-- The first value of a body, decoded.  Behind the bound nothing is read, and a value whose end is not seen there is
not one. -/
def decodeControl (body : Bytes) : Option Control :=
  match first maxNestingDepth (body.take maxControlBytes) with
  | none => none
  | some (t, rest) =>
    if maxControlBytes < body.length ∧ rest = [] ∧ Relay.Ingest.delimited t = false then none
    else decodeInto false controlFields ⟨none, none, none, none⟩ t

/-! ## The handler -/

/-- The knobs and the latches. -/
structure Controls where
  latencyMS : Int
  failRate : Double
  latches : Latches

/-- What `writeControlState` shows: `latency_ms`, `fail_rate`, `latched` in order, `held`. -/
structure ControlState where
  latencyMS : Int
  failRate : Double
  latched : List Bytes
  held : AList fun _ : Bytes => Nat

def Controls.state (s : Controls) : ControlState :=
  ⟨s.latencyMS, s.failRate, s.latches.latchState.1, s.latches.latchState.2⟩

inductive Answer where
  | badRequest (message : Bytes)
  | ok (state : ControlState)

def Answer.status : Answer → Nat
  | .badRequest _ => 400
  | .ok _ => 200

/-- One field of the body: checked and stored, then the next. -/
def storeField {α : Type} (s : Controls) (field : Option α) (refused : α → Bool) (message : String)
    (store : Controls → α → Controls) (next : Controls → Controls × Answer) : Controls × Answer :=
  match field with
  | none => next s
  | some v => if refused v then (s, .badRequest (ascii message)) else next (store s v)

/-- `latency_ms` below zero. -/
def refusesLatency (ms : Int) : Bool := ms < 0

/-- `fail_rate` outside zero to one. -/
def refusesRate (rate : Double) : Bool := rate.lt (.finite 0) || (Double.finite 1).lt rate

/-- A latch or a release without a path. -/
def refusesPath (path : Bytes) : Bool := path == []

/-- **`postControl`** -/
def postControl (s : Controls) (body : Bytes) : Controls × Answer :=
  match decodeControl body with
  | none => (s, .badRequest (ascii "malformed JSON"))
  | some c =>
    storeField s c.latencyMS refusesLatency "latency_ms must not be negative"
      (fun s ms => { s with latencyMS := ms }) fun s =>
    storeField s c.failRate refusesRate "fail_rate must be between 0 and 1"
      (fun s rate => { s with failRate := rate }) fun s =>
    storeField s c.latch refusesPath "latch must be a path"
      (fun s path => { s with latches := s.latches.setLatch path }) fun s =>
    storeField s c.release refusesPath "release must be a path"
      (fun s path => { s with latches := s.latches.releaseLatch path }) fun s =>
    (s, .ok s.state)

/-! ## What a body asks for -/

inductive Assignment where
  | latencyMS (ms : Int)
  | failRate (rate : Double)
  | latch (path : Bytes)
  | release (path : Bytes)

/-- The answer to a field that is refused. -/
def Assignment.refusal : Assignment → Option Bytes
  | .latencyMS ms => if refusesLatency ms then some (ascii "latency_ms must not be negative") else none
  | .failRate rate => if refusesRate rate then some (ascii "fail_rate must be between 0 and 1") else none
  | .latch path => if refusesPath path then some (ascii "latch must be a path") else none
  | .release path => if refusesPath path then some (ascii "release must be a path") else none

def Assignment.valid (a : Assignment) : Bool := a.refusal.isNone

def Assignment.run (s : Controls) : Assignment → Controls
  | .latencyMS ms => { s with latencyMS := ms }
  | .failRate rate => { s with failRate := rate }
  | .latch path => { s with latches := s.latches.setLatch path }
  | .release path => { s with latches := s.latches.releaseLatch path }

/-- Every field that is present, in the order they are looked at. -/
def Control.assignments (c : Control) : List Assignment :=
  (c.latencyMS.map .latencyMS).toList ++ (c.failRate.map .failRate).toList ++ (c.latch.map .latch).toList ++
    (c.release.map .release).toList

/-- The fields in front of the first that is refused are carried out, and the answer is its refusal. -/
def carryOut : Controls → List Assignment → Controls × Answer
  | s, [] => (s, .ok s.state)
  | s, a :: rest =>
    match a.refusal with
    | some message => (s, .badRequest message)
    | none => carryOut (a.run s) rest

theorem storeField_eq {α : Type} {s : Controls} {field : Option α} {refused : α → Bool} {message : String}
    {store : Controls → α → Controls} {next : Controls → Controls × Answer} (assign : α → Assignment)
    (hrefusal : ∀ v, (assign v).refusal = if refused v then some (ascii message) else none)
    (hrun : ∀ s v, (assign v).run s = store s v) {rest : List Assignment} (hnext : ∀ s, next s = carryOut s rest) :
    storeField s field refused message store next = carryOut s ((field.map assign).toList ++ rest) := by
  cases field with
  | none => exact hnext s
  | some v =>
    show (if refused v then _ else _) = carryOut s (assign v :: rest)
    unfold carryOut
    rw [hrefusal v, hrun]
    cases refused v with
    | true => rfl
    | false => exact hnext (store s v)

theorem postControl_eq {s : Controls} {body : Bytes} {c : Control} (h : decodeControl body = some c) :
    postControl s body = carryOut s c.assignments := by
  unfold postControl Control.assignments
  rw [h, List.append_assoc, List.append_assoc]
  apply storeField_eq Assignment.latencyMS (fun _ => rfl) (fun _ _ => rfl)
  intro s
  apply storeField_eq Assignment.failRate (fun _ => rfl) (fun _ _ => rfl)
  intro s
  apply storeField_eq Assignment.latch (fun _ => rfl) (fun _ _ => rfl)
  intro s
  rw [← List.append_nil (Option.map Assignment.release c.release).toList]
  exact storeField_eq Assignment.release (fun _ => rfl) (fun _ _ => rfl) fun _ => rfl

theorem carryOut_cons_of_valid {a : Assignment} (h : a.valid = true) (s : Controls) (rest : List Assignment) :
    carryOut s (a :: rest) = carryOut (a.run s) rest := by
  show (match a.refusal with | some message => _ | none => _) = _
  rw [Option.isNone_iff_eq_none.mp h]

theorem carryOut_cons_of_refused {a : Assignment} (h : a.valid = false) (s : Controls) (rest : List Assignment) :
    ∃ message, a.refusal = some message ∧ carryOut s (a :: rest) = (s, .badRequest message) := by
  cases hrefusal : a.refusal with
  | none =>
    rw [Assignment.valid, hrefusal] at h
    cases h
  | some message =>
    refine ⟨message, rfl, ?_⟩
    show (match a.refusal with | some message => _ | none => _) = _
    rw [hrefusal]

theorem carryOut_fst (s : Controls) (as : List Assignment) :
    (carryOut s as).1 = (as.takeWhile Assignment.valid).foldl Assignment.run s := by
  induction as generalizing s with
  | nil => rfl
  | cons a as ih =>
    cases hvalid : a.valid with
    | true =>
      rw [carryOut_cons_of_valid hvalid, List.takeWhile_cons_of_pos hvalid]
      exact ih (a.run s)
    | false =>
      obtain ⟨message, -, hout⟩ := carryOut_cons_of_refused hvalid s as
      rw [hout, List.takeWhile_cons_of_neg (by rw [hvalid]; exact Bool.false_ne_true)]
      rfl

theorem carryOut_snd (s : Controls) (as : List Assignment) :
    (carryOut s as).2 = match as.findSome? Assignment.refusal with
      | some message => .badRequest message
      | none => .ok (as.foldl Assignment.run s).state := by
  induction as generalizing s with
  | nil => rfl
  | cons a as ih =>
    rw [List.findSome?_cons]
    cases hvalid : a.valid with
    | true =>
      rw [carryOut_cons_of_valid hvalid, Option.isNone_iff_eq_none.mp hvalid]
      exact ih (a.run s)
    | false =>
      obtain ⟨message, hrefusal, hout⟩ := carryOut_cons_of_refused hvalid s as
      rw [hout, hrefusal]

theorem findSome_refusal {as : List Assignment} (h : as.findSome? Assignment.refusal = none) :
    as.takeWhile Assignment.valid = as := by
  rw [List.findSome?_eq_none_iff] at h
  exact List.takeWhile_eq_self_iff.mpr fun a ha => Option.isNone_iff_eq_none.mpr (h a ha)

/-- **What a control request leaves** — a body that is not one changes nothing; any other has carried out the fields in
front of the first it refuses, and all of them where it is answered 200. -/
theorem postControl_applies (s : Controls) (body : Bytes) :
    match decodeControl body with
    | none => postControl s body = (s, .badRequest (ascii "malformed JSON"))
    | some c =>
      (postControl s body).1 = (c.assignments.takeWhile Assignment.valid).foldl Assignment.run s ∧
      ((postControl s body).2.status = 400 ↔ ∃ a ∈ c.assignments, a.valid = false) ∧
      ((postControl s body).2.status = 200 → (postControl s body).1 = c.assignments.foldl Assignment.run s) := by
  cases hdecode : decodeControl body with
  | none =>
    show postControl s body = _
    unfold postControl
    rw [hdecode]
  | some c =>
    show (postControl s body).1 = _ ∧ _ ∧ _
    rw [postControl_eq hdecode, carryOut_fst, carryOut_snd]
    refine ⟨rfl, ?_, ?_⟩
    -- the status is 400 exactly when some assignment is refused
    · cases hfirst : c.assignments.findSome? Assignment.refusal with
      | none =>
        rw [List.findSome?_eq_none_iff] at hfirst
        refine ⟨nofun, ?_⟩
        rintro ⟨a, ha, hinvalid⟩
        rw [Assignment.valid, hfirst a ha] at hinvalid
        cases hinvalid
      | some message =>
        obtain ⟨a, ha, hrefusal⟩ := List.exists_of_findSome?_eq_some hfirst
        exact ⟨fun _ => ⟨a, ha, by rw [Assignment.valid, hrefusal]; rfl⟩, fun _ => rfl⟩
    · intro hok
      cases hfirst : c.assignments.findSome? Assignment.refusal with
      | none => rw [findSome_refusal hfirst]
      | some message =>
        rw [hfirst] at hok
        cases hok

def fresh : Controls := ⟨0, .finite 0, .unarmed⟩

/-- A latency that is stored, and a rate that is refused behind it. -/
theorem decodeControl_latency_rate : decodeControl (ascii "\x7b\"latency_ms\":5,\"fail_rate\":2\x7d") =
    some ⟨some 5, some (.finite 2), none, none⟩ := by decide +kernel

/-- The request is refused, and the latency is what it asked for. -/
theorem not_unchanged_when_refused :
    ¬ ∀ s body, (postControl s body).2.status = 400 → (postControl s body).1 = s := by
  intro h
  have hkept := h fresh (ascii "\x7b\"latency_ms\":5,\"fail_rate\":2\x7d")
  rw [postControl_eq decodeControl_latency_rate] at hkept
  have hsame := congrArg Controls.latencyMS (hkept rfl)
  revert hsame
  decide

end LocalPlatform.Sink
