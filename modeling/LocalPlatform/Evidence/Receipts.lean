/-
# LocalPlatform.Evidence.Receipts — the receipts of a run, as the evidence script reads them.

`validate_preflight` and `load_secret_scan`.  A receipt lies in a file of the run's private directory: what the script
asks about the file, and the object it reads there, are given; the checks are the script's.
-/
import LocalPlatform.Logic.Guards
import LocalPlatform.Python.Value

namespace LocalPlatform.Evidence

open Logic Python

/-- A file, and the object `read_json_object` reads in it. -/
structure Stored where
  path : Str
  isSymlink : Bool
  isFile : Bool
  /-- `st_mode & 0o777` -/
  mode : Nat
  size : Nat
  object : Py Dict

/-- `d.get(key)` -/
def dictGet (d : Dict) (key : Str) : Value := (d.lookup key).getD .null

/-- One of `[0-9a-f]`. -/
def isHex (c : Nat) : Bool := decide (0x30 ≤ c ∧ c ≤ 0x39 ∨ 0x61 ≤ c ∧ c ≤ 0x66)

/-- Hexadecimal digits, `n` of them. -/
def isHexText (n : Nat) (s : Str) : Bool := s.length == n && s.all isHex

/-- The text of a value that is one. -/
def asText : Value → Option Str
  | .str s => some s
  | _ => none

/-- **`validate_preflight`**; `beneath` is what `ensure_beneath` comes to. -/
def validatePreflight (beneath : Py Unit) (file : Stored) (runID : Str) : Py Dict := do
  beneath
  require (file.isSymlink = false ∧ file.isFile = true) (.own (lit "passing preflight receipt is missing: " ++ file.path))
  let receipt ← file.object
  require ((dictGet receipt (lit "schema_version")).eq (.int 1) = true ∧ (dictGet receipt (lit "run_id")).eq (.str runID) = true ∧
      (dictGet receipt (lit "result")).eq (.str (lit "passed")) = true ∧
      ((asText (dictGet receipt (lit "commit"))).any (isHexText 40)) = true)
    (.own (lit "preflight receipt is not a pass for this run and commit"))
  return receipt

/-! ## The scan -/

/-- `SECRET_NAMES` -/
def secretNames : List Str := [lit "DATABASE_PASSWORD", lit "SIGNING_SECRET", lit "DATABASE_URL"]

/-- `SECRET_REPRESENTATIONS` -/
def secretRepresentations : List Str :=
  [lit "raw", lit "json-go", lit "json-ascii", lit "userinfo", lit "url-query", lit "base64", lit "base64url"]

/-- A name and a representation. -/
abbrev Coverage := Str × Str

/-- `{(n, r) for n in SECRET_NAMES for r in SECRET_REPRESENTATIONS}` -/
def fullCoverage : List Coverage := secretNames.flatMap fun n => secretRepresentations.map fun r => (n, r)

def scanKeys : List Str :=
  [lit "schema_version", lit "run_id", lit "commit", lit "session_sha256", lit "profile", lit "state", lit "entries"]

def entryKeys : List Str := [lit "name", lit "representation", lit "byte_length", lit "sha256"]

def scanStates : List Str := [lit "not_started", lit "collecting", lit "complete"]

/-- `a == b`, for sets given by their elements. -/
def sameSet {α : Type} [BEq α] (a b : List α) : Bool := a.all b.contains && b.all a.contains

/-- The fields of one entry. -/
structure ScanEntry where
  name : Str
  representation : Str
  byteLength : ℤ
  sha256 : Str
  deriving DecidableEq

namespace ScanEntry

def coverage (entry : ScanEntry) : Coverage := (entry.name, entry.representation)

/-- The entry is one of a credential's. -/
def valid (entry : ScanEntry) : Bool :=
  secretNames.contains entry.name && secretRepresentations.contains entry.representation &&
    decide (16 ≤ entry.byteLength ∧ entry.byteLength ≤ 24576) && isHexText 64 entry.sha256

end ScanEntry

/-- The fields of an entry, where each is of its type and there are no others. -/
def readEntry : Value → Option ScanEntry
  | .dict d =>
    if sameSet (d.map Prod.fst) entryKeys = true then
      match dictGet d (lit "name"), dictGet d (lit "representation"), dictGet d (lit "byte_length"), dictGet d (lit "sha256") with
      | .str name, .str representation, .int length, .str digest => some ⟨name, representation, length, digest⟩
      | _, _, _, _ => none
    else none
  | _ => none

/-- One turn of the loop over the entries. -/
def checkEntry (seen : List Coverage) (v : Value) : Py (List Coverage) :=
  match v with
  | .dict d =>
    if sameSet (d.map Prod.fst) entryKeys = true then
      match readEntry v with
      | some entry =>
        if entry.valid = true ∧ entry.coverage ∉ seen then .ok (entry.coverage :: seen)
        else .error (.own (lit "invalid or duplicate secret scan entry"))
      | none => .error (.own (lit "invalid or duplicate secret scan entry"))
    else .error (.own (lit "invalid secret scan entry"))
  | _ => .error (.own (lit "invalid secret scan entry"))

/-- The entries of a scan. -/
def scanEntries (scan : Dict) : Py (List Value) :=
  match dictGet scan (lit "entries") with
  | .list entries => if entries.length ≤ 21 then .ok entries else .error (.own (lit "invalid secret scan entries"))
  | _ => .error (.own (lit "invalid secret scan entries"))

/-- The directory of a run; `session` is the digest of the session receipt. -/
structure Directory where
  beneath : Py Unit
  preflight : Stored
  session : Py Str
  secretScan : Stored

namespace Directory

/-- The scan is bound to the run, its preflight and its session. -/
def bindScan (dir : Directory) (runID : Str) (scan preflight : Dict) : Py Str := do
  let mismatch := Exn.own (lit "secret scan receipt binding or state mismatch")
  require (sameSet (scan.map Prod.fst) scanKeys = true) mismatch
  require ((match dictGet scan (lit "schema_version") with
    | .int n => n == 1
    | _ => false) = true) mismatch
  require ((dictGet scan (lit "run_id")).eq (.str runID) = true) mismatch
  let commit ← (Value.dict preflight).item (lit "commit")
  require ((dictGet scan (lit "commit")).eq commit = true) mismatch
  let digest ← dir.session
  require ((dictGet scan (lit "session_sha256")).eq (.str digest) = true) mismatch
  require ((dictGet scan (lit "profile")).eq (.str (lit "m4-secret-representations-v1")) = true) mismatch
  match dictGet scan (lit "state") with
  | .str state =>
    require (state ∈ scanStates) mismatch
    return state
  | _ => .error mismatch

/-- **`load_secret_scan`** -/
def loadSecretScan (dir : Directory) (runID : Str) (complete : Bool) : Py Dict := do
  let file := dir.secretScan
  require (file.isSymlink = false ∧ file.isFile = true ∧ file.mode = 0o600 ∧ file.size ≤ 32768)
    (.own (lit "private secret scan receipt is missing or unsafe"))
  let scan ← file.object
  let preflight ← validatePreflight dir.beneath dir.preflight runID
  let state ← dir.bindScan runID scan preflight
  let entries ← scanEntries scan
  let seen ← entries.foldlM checkEntry []
  require (¬ (state = lit "not_started" ∧ entries ≠ [])) (.own (lit "not_started scan contains credential entries"))
  require (complete = true ∨ state = lit "complete" → state = lit "complete" ∧ sameSet seen fullCoverage = true)
    (.own (lit "secret scan coverage is incomplete"))
  return scan

end Directory

/-! ## Receipts that were accepted -/

theorem item_of_dictGet {d : Dict} {key : Str} {v : Value} (h : dictGet d key = v) (hv : v ≠ .null) :
    (Value.dict d).item key = .ok v := by
  unfold dictGet at h
  unfold Value.item
  dsimp only
  cases hl : d.lookup key with
  | none =>
    rw [hl] at h
    exact absurd h.symm hv
  | some w =>
    rw [hl] at h
    rw [← h]
    rfl

/-- A scan that is accepted is the one that was read, and has a state. -/
theorem read_of_loadSecretScan {dir : Directory} {runID : Str} {complete : Bool} {scan : Dict}
    (h : dir.loadSecretScan runID complete = .ok scan) : dir.secretScan.object = .ok scan ∧ ∃ state, dictGet scan (lit "state") = .str state := by
  unfold Directory.loadSecretScan at h
  obtain ⟨_, -, h⟩ := bind_eq_ok_iff.mp h
  obtain ⟨scan', hread, h⟩ := bind_eq_ok_iff.mp h
  obtain ⟨preflight, -, h⟩ := bind_eq_ok_iff.mp h
  obtain ⟨state, hbound, h⟩ := bind_eq_ok_iff.mp h
  obtain ⟨entries, -, h⟩ := bind_eq_ok_iff.mp h
  obtain ⟨seen, -, h⟩ := bind_eq_ok_iff.mp h
  obtain ⟨_, -, h⟩ := bind_eq_ok_iff.mp h
  obtain ⟨_, -, h⟩ := bind_eq_ok_iff.mp h
  obtain rfl := Except.ok.inj h
  refine ⟨hread, ?_⟩
  unfold Directory.bindScan at hbound
  dsimp only at hbound
  obtain ⟨_, -, hbound⟩ := bind_eq_ok_iff.mp hbound
  obtain ⟨_, -, hbound⟩ := bind_eq_ok_iff.mp hbound
  obtain ⟨_, -, hbound⟩ := bind_eq_ok_iff.mp hbound
  obtain ⟨commit, -, hbound⟩ := bind_eq_ok_iff.mp hbound
  obtain ⟨_, -, hbound⟩ := bind_eq_ok_iff.mp hbound
  obtain ⟨digest, -, hbound⟩ := bind_eq_ok_iff.mp hbound
  obtain ⟨_, -, hbound⟩ := bind_eq_ok_iff.mp hbound
  obtain ⟨_, -, hbound⟩ := bind_eq_ok_iff.mp hbound
  split at hbound
  · next state' hstate => exact ⟨state', hstate⟩
  · cases hbound

theorem read_of_validatePreflight {beneath : Py Unit} {file : Stored} {runID : Str} {receipt : Dict}
    (h : validatePreflight beneath file runID = .ok receipt) : file.object = .ok receipt := by
  unfold validatePreflight at h
  obtain ⟨_, -, h⟩ := bind_eq_ok_iff.mp h
  obtain ⟨_, -, h⟩ := bind_eq_ok_iff.mp h
  obtain ⟨receipt', hread, h⟩ := bind_eq_ok_iff.mp h
  obtain ⟨_, -, h⟩ := bind_eq_ok_iff.mp h
  rw [hread, ← Except.ok.inj h]

end LocalPlatform.Evidence
