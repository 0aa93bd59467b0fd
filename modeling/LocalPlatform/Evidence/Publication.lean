/-
# LocalPlatform.Evidence.Publication — the artifacts of a publication.

`scan_secret_files` and `verify_secret_publication`.  The receipt names the fingerprints; every file of the publication but the
screenshots is scanned for them.  What lies in the directory is given: a name, and what the script finds under it.
-/
import LocalPlatform.Evidence.Carriers

namespace LocalPlatform.Evidence

open Codec Logic Python

/-! ## Files -/

/-- What lies under a name; where nothing does it is no file. -/
structure Artifact where
  isSymlink : Bool
  isFile : Bool
  size : Nat
  content : Bytes

/-- A directory, by the names of what lies in it. -/
abbrev Artifacts := Str → Artifact

/-- `path.suffix == extension`, of a name without a slash. -/
def hasExtension (extension : String) (name : Str) : Bool := Str.suffix name == lit extension

/-- The entries of a scan that was loaded. -/
def entriesOf (scan : Dict) : Option (List ScanEntry) :=
  match dictGet scan (lit "entries") with
  | .list entries => entries.mapM readEntry
  | _ => none

section Scan

variable (hexdigest : Bytes → Str) (fuel : Nat) (directory : Artifacts) (entries : List ScanEntry)

/-- One file of `scan_secret_files`. -/
def scanSecretFile (name : Str) : Option (Py Unit) :=
  if hasExtension ".png" name = true then some (.ok ())
  else if (directory name).isSymlink = true ∨ (directory name).isFile = false ∨ 8 * 1024 * 1024 < (directory name).size then
    some (.error (.own (lit "secret scan input is missing or unsafe: " ++ name)))
  else scanSecretBytes hexdigest fuel (directory name).content entries name

/-- **`scan_secret_files`** -/
def scanSecretFiles : List Str → Option (Py Unit)
  | [] => some (.ok ())
  | name :: names =>
    match scanSecretFile hexdigest fuel directory entries name with
    | some (.ok ()) => scanSecretFiles names
    | stopped => stopped

end Scan

/-- **`verify_secret_publication`**: `names` are those in the directory, `published` is what `publication.json` says, and
`scanHash` is the hash of the receipt. -/
def verifySecretPublication (hexdigest : Bytes → Str) (fuel : Nat) (dir : Directory) (runID : Str) (directory : Artifacts)
    (names : List Str) (published : Py Dict) (scanHash : Str) : Option (Py Unit) :=
  match dir.loadSecretScan runID true with
  | .error e => some (.error e)
  | .ok scan =>
    match published with
    | .error e => some (.error e)
    | .ok publication =>
      if (dictGet publication (lit "secret_scan_sha256")).eq (.str scanHash) = true then
        match entriesOf scan with
        | some entries => scanSecretFiles hexdigest fuel directory entries names
        | none => some (.error .keyError)
      else some (.error (.own (lit "private secret scan changed since publication")))

/-! ## What was accepted -/

section Accepted

variable {hexdigest : Bytes → Str} {fuel : Nat} {directory : Artifacts} {entries : List ScanEntry}

theorem scanSecretFile_of_files {names : List Str} (h : scanSecretFiles hexdigest fuel directory entries names = some (.ok ())) {name : Str}
    (hname : name ∈ names) : scanSecretFile hexdigest fuel directory entries name = some (.ok ()) := by
  induction names with
  | nil => cases hname
  | cons other names ih =>
    unfold scanSecretFiles at h
    cases hother : scanSecretFile hexdigest fuel directory entries other with
    | none =>
      rw [hother] at h
      cases h
    | some r =>
      rw [hother] at h
      cases r with
      | error e => cases h
      | ok u =>
        rcases List.mem_cons.mp hname with rfl | hname
        · exact hother
        · exact ih h hname

/-- A file that was accepted and is no screenshot was scanned. -/
theorem scanned_of_file {name : Str} (h : scanSecretFile hexdigest fuel directory entries name = some (.ok ()))
    (hname : hasExtension ".png" name = false) : scanSecretBytes hexdigest fuel (directory name).content entries name = some (.ok ()) := by
  unfold scanSecretFile at h
  rw [if_neg (by rw [hname]; exact Bool.false_ne_true)] at h
  split at h
  · cases h
  · exact h

/-- What a publication that was accepted went through. -/
theorem scanned_of_publication {dir : Directory} {runID : Str} {names : List Str} {published : Py Dict} {scanHash : Str}
    (h : verifySecretPublication hexdigest fuel dir runID directory names published scanHash = some (.ok ())) :
    ∃ scan entries, dir.loadSecretScan runID true = .ok scan ∧ entriesOf scan = some entries ∧
      ∀ name ∈ names, hasExtension ".png" name = false →
        scanSecretBytes hexdigest fuel (directory name).content entries name = some (.ok ()) := by
  unfold verifySecretPublication at h
  split at h
  · cases h
  · next scan hload =>
    split at h
    · cases h
    · split at h
      · split at h
        · next entries hentries =>
          exact ⟨scan, entries, hload, hentries, fun name hname hpng => scanned_of_file (scanSecretFile_of_files h hname) hpng⟩
        · cases h
      · cases h

end Accepted

end LocalPlatform.Evidence
