/-
# LocalPlatform.Preflight.Hourly — the check of the hourly flags.

`check_hourly_flags` goes over everything Terraform takes variables from and refuses where one of the hourly flags is
on.  It has a scanner of its own for variable files, two regular expressions over the text, and for arguments.
-/
import LocalPlatform.Logic.Guards
import LocalPlatform.Preflight.Terraform
import Mathlib.Data.List.Sort

namespace LocalPlatform.Preflight

open Python

/-- A `PreflightError` with its message, or another exception. -/
inductive Failure where
  | preflight (message : Str)
  | raised (e : Exn)
  deriving DecidableEq

/-- What a source says of the flags, in the order it was learnt. -/
abbrev Flags := List (Str × Bool)

def hourlyFlags : List Str := [lit "enable_eks", lit "enable_msk", lit "enable_rds"]

/-- `d[flag] = b` -/
def Flags.put (values : Flags) (flag : Str) (b : Bool) : Flags :=
  if values.any fun p => p.1 == flag then values.map fun p => if p.1 == flag then (flag, b) else p
  else values ++ [(flag, b)]

/-- `s.lower()`; no letter outside ASCII has a lower case in the two words it is compared with. -/
def lower (s : Str) : Str := s.map fun c => if 0x41 ≤ c ∧ c ≤ 0x5a then c + 0x20 else c

/-- A word that is a Boolean in any case. -/
def boolean (s : Str) : Option Bool :=
  if lower s = lit "true" then some true else if lower s = lit "false" then some false else none

/-- What a source gives for each flag, as far as it gives anything. -/
def gather (read : Str → Except Failure (Option Bool)) : Except Failure Flags :=
  hourlyFlags.foldlM (fun values flag => do
    match ← read flag with
    | none => return values
    | some b => return values.put flag b) []

/-! ## Variable files -/

/-- `re.sub(r"(?m)(#|//).*?$", "", text)`; the state is whether a comment runs. -/
def stripComments : Bool → Str → Str
  | _, [] => []
  | true, c :: r => if c = 0x0a then c :: stripComments false r else stripComments true r
  | false, c :: r =>
    if c = 0x23 ∨ c = 0x2f ∧ r.head? = some 0x2f then stripComments true r else c :: stripComments false r

/-- What follows white space. -/
def skip (s : Str) : Str := s.dropWhile Str.isspace

/-- The word a text begins with. -/
def token (s : Str) : Str := s.takeWhile fun c => !Str.isspace c

/-- What follows that word. -/
def behindToken (s : Str) : Str := s.dropWhile fun c => !Str.isspace c

/-- `\s*flag\s*=\s*([^\s]+)` from a position: the group, and what follows the match. -/
def matchFlag (flag s : Str) : Option (Str × Str) :=
  if flag <+: skip s then
    match skip ((skip s).drop flag.length) with
    | 0x3d :: r => if token (skip r) = [] then none else some (token (skip r), behindToken (skip r))
    | _ => none
  else none

/-- `re.findall(rf"(?m)^\s*{flag}\s*=\s*([^\s]+)", text)` from a position, and whether a line begins there.  The text is
long enough for its own length of it. -/
def findFlag (flag : Str) : Nat → Bool → Str → List Str
  | 0, _, _ => []
  | n + 1, lineStart, s =>
    match if lineStart then matchFlag flag s else none with
    | some (value, r) => value :: findFlag flag n false r
    | none =>
      match s with
      | [] => []
      | c :: r => findFlag flag n (c == 0x0a) r

/-- One match of one flag. -/
def takeFlag (path flag : Str) (values : Flags) (value : Str) : Except Failure Flags :=
  match boolean value with
  | none => .error (.preflight (path ++ lit " has a non-boolean " ++ flag ++ lit " value"))
  | some b =>
    if values.lookup flag = some !b then
      .error (.preflight (path ++ lit " assigns " ++ flag ++ lit " more than once"))
    else .ok (values.put flag b)

/-- **`parse_hcl_flags`** -/
def parseHclFlags (file : VarFile) : Except Failure Flags :=
  let text := stripComments false file.text
  hourlyFlags.foldlM (fun values flag =>
    (findFlag flag (text.length + 1) true text).foldlM (takeFlag file.path flag) values) []

/-- **`parse_json_flags`** -/
def parseJsonFlags (file : VarFile) : Except Failure Flags :=
  match Json.loads file.text with
  | .error .jsonDecodeError => .error (.preflight (lit "invalid JSON variable file " ++ file.path ++ lit ": " ++ file.error))
  | .error e => .error (.raised e)
  | .ok (.dict payload) => gather fun flag =>
    match payload.lookup flag with
    | none => .ok none
    | some (.bool b) => .ok (some b)
    | some _ => .error (.preflight (file.path ++ lit " has a non-boolean " ++ flag ++ lit " value"))
  | .ok _ => .error (.preflight (lit "Terraform variable file must contain an object: " ++ file.path))

/-- `flag_values` -/
def flagValues (file : VarFile) : Except Failure Flags :=
  if Str.suffix file.name = lit ".json" then parseJsonFlags file else parseHclFlags file

/-! ## Arguments -/

/-- A `-var` or a `-var-file` with its item. -/
inductive Argument where
  | var (item : Str)
  | file (item : Str)
  deriving DecidableEq

/-- The files named so far and the flags set. -/
structure Collected where
  files : List VarFile
  flags : Flags

/-- What is done with an item. -/
def collect (opened : Str → Except Str VarFile) (found : Collected) : Argument → Except Failure Collected
  | .file item =>
    match opened item with
    | .error path => .error (.preflight (lit "Terraform variable file does not exist: " ++ path))
    | .ok file => .ok { found with files := found.files ++ [file] }
  | .var item =>
    if 0x3d ∉ item then .error (.preflight (lit "Terraform -var must use name=value"))
    else
      let (name, raw) := assignment item
      if name ∈ hourlyFlags then
        match boolean raw with
        | none => .error (.preflight (lit "Terraform argument has a non-boolean " ++ name ++ lit " value"))
        | some b => .ok { found with flags := found.flags.put name b }
      else .ok found

/-- `removeprefix`, where the argument starts so. -/
def dropFront (front argument : Str) : Option Str :=
  if front <+: argument then some (argument.drop front.length) else none

/-- The `-var` and `-var-file` arguments of a list, in order; an error where one lacks its value. -/
def scanArguments : List Str → List (Except Failure Argument)
  | [] => []
  | argument :: rest =>
    if argument = lit "-var" then
      match rest with
      | [] => [.error (.preflight (argument ++ lit " is missing its value"))]
      | item :: rest => .ok (.var item) :: scanArguments rest
    else if argument = lit "-var-file" then
      match rest with
      | [] => [.error (.preflight (argument ++ lit " is missing its value"))]
      | item :: rest => .ok (.file item) :: scanArguments rest
    else match dropFront (lit "-var=") argument with
      | some item => .ok (.var item) :: scanArguments rest
      | none =>
        match dropFront (lit "-var-file=") argument with
        | some item => .ok (.file item) :: scanArguments rest
        | none => scanArguments rest

/-- **`argument_variable_files`** -/
def argumentVariableFiles (opened : Str → Except Str VarFile) (value : Str) : Except Failure Collected :=
  match Shlex.split value with
  | .error e => .error (.preflight (lit "invalid Terraform arguments: " ++ e))
  | .ok arguments =>
    (scanArguments arguments).foldlM (fun found argument => argument >>= collect opened found) ⟨[], []⟩

/-! ## The check -/

/-- What the check looks at: the text of `variables.tf`, the files of the directory, the example file, the environment, and
what the path of a `-var-file` leads to, or the path where there is no file. -/
structure Inputs where
  defaults : Str
  directory : List VarFile
  exampleFile : VarFile
  environment : Str → Option Str
  opened : Str → Except Str VarFile

/-- The first text behind `front`, from a position on, that `f` finds something in. -/
def search {α : Type} (f : Str → Option α) : Str → Option α
  | [] => f []
  | c :: r => match f (c :: r) with
    | some a => some a
    | none => search f r

/-- What stands in front of the first `\n\x7d`. -/
def bodyOf : Str → Option Str
  | [] => none
  | c :: r => if c = 0x0a ∧ r.head? = some 0x7d then some [] else (bodyOf r).map (c :: ·)

/-- `variable\s+"flag"\s*\{(?P<body>.*?)\n\}` at a position: the body. -/
def variableBlock (flag s : Str) : Option Str := do
  let r ← dropFront (lit "variable") s
  if (r.head?.any Str.isspace) = false then none
  let r ← dropFront (lit "\"" ++ flag ++ lit "\"") (skip r)
  let r ← dropFront [0x7b] (skip r)
  bodyOf r

/-- `\s*default\s*=\s*false\s*$` at a position: the blanks behind hold the end of a line or of the text. -/
def defaultFalse (s : Str) : Option Unit := do
  let r ← dropFront (lit "default") (skip s)
  let r ← dropFront (lit "=") (skip r)
  let r ← dropFront (lit "false") (skip r)
  if 0x0a ∈ r.takeWhile Str.isspace ∨ skip r = [] then some () else none

/-- A search from the beginning of a line. -/
def searchLines {α : Type} (f : Str → Option α) : Bool → Str → Option α
  | lineStart, [] => if lineStart then f [] else none
  | lineStart, c :: r => match if lineStart then f (c :: r) else none with
    | some a => some a
    | none => searchLines f (c == 0x0a) r

/-- The default of a flag is `false`. -/
def checkDefault (defaults flag : Str) : Except Failure Unit :=
  match (search (variableBlock flag) defaults).bind (searchLines defaultFalse true) with
  | some () => .ok ()
  | none => .error (.preflight (lit "Terraform default for " ++ flag ++ lit " is not false"))

/-- `active_variable_files` -/
def activeVariableFiles (directory : List VarFile) : List VarFile :=
  let named := fun name => directory.filter fun file => file.name = name
  let ending := fun back =>
    (directory.filter fun file => Str.endswith back file.name).insertionSort fun f g => f.name ≤ g.name
  named (lit "terraform.tfvars") ++ named (lit "terraform.tfvars.json") ++ ending (lit ".auto.tfvars") ++
    ending (lit ".auto.tfvars.json")

def argumentNames : List Str :=
  [lit "AWS_TF_ARGS", lit "TF_CLI_ARGS", lit "TF_CLI_ARGS_plan", lit "TF_CLI_ARGS_apply"]

/-- A source and what it says. -/
abbrev Source := Str × Flags

/-- A variable file as a source. -/
def fileSource (name : Str) (file : VarFile) : Except Failure Source := do
  let values ← flagValues file
  return (name, values)

/-- The sources behind a variable of the environment that holds arguments. -/
def argumentSources (inputs : Inputs) (name : Str) : Except Failure (List Source) :=
  let value := (inputs.environment name).getD []
  if value = [] then .ok []
  else do
    let found ← argumentVariableFiles inputs.opened value
    let files ← found.files.mapM fun file => fileSource (name ++ lit ":" ++ file.path) file
    return (name, found.flags) :: files

/-- The variable that sets a flag. -/
def variableName (flag : Str) : Str := lit "TF_VAR_" ++ flag

def environmentFlags (environment : Str → Option Str) : Except Failure Flags := gather fun flag =>
  match environment (variableName flag) with
  | none => .ok none
  | some value =>
    match boolean value with
    | none => .error (.preflight (variableName flag ++ lit " must be true or false"))
    | some b => .ok (some b)

def sources (inputs : Inputs) : Except Failure (List Source) := do
  hourlyFlags.forM (checkDefault inputs.defaults)
  let active ← (activeVariableFiles inputs.directory).mapM fun file => fileSource file.path file
  let exampleSource ← fileSource (lit "terraform.tfvars.example") inputs.exampleFile
  let arguments ← argumentNames.mapM (argumentSources inputs)
  let environment ← environmentFlags inputs.environment
  return active ++ [exampleSource] ++ arguments.flatten ++ [(lit "environment", environment)]

/-- The flags that are on, by their sources. -/
def enabled (all : List Source) : List Str :=
  all.flatMap fun source => (source.2.filter fun p => p.2).map fun p => source.1 ++ lit ":" ++ p.1

/-- **`check_hourly_flags`** -/
def checkHourlyFlags (inputs : Inputs) : Except Failure Unit := do
  let all ← sources inputs
  if enabled all = [] then return ()
  else throw (.preflight (lit "hourly AWS flags are enabled: " ++ (lit ", ").intercalate (enabled all)))

end LocalPlatform.Preflight
