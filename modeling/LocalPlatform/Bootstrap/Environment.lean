/-
# LocalPlatform.Bootstrap.Environment — what the bootstrap asks of the world.

The bootstrap is one goroutine.  Everything it does outside its own memory is a question: a variable or a file read, a
command run, the receipt written, a line of output.  The answers are any; a command that fails answers with what it wrote to
its standard error.
-/
import LocalPlatform.Bootstrap.Representations
import LocalPlatform.Codec.Time
import LocalPlatform.Logic.Interaction

namespace LocalPlatform.Bootstrap

open Codec Logic

/-! ## Commands -/

/-- The commands the bootstrap runs. -/
inductive Command where
  | callerIdentity
  | revParse
  | status
  | terraformOutput
  | describeCluster (name : Bytes)
  | configView
  | getSecret (arn : Bytes)
  | putSecret (arn secret : Bytes)
  | applyNamespace
  | applyServiceAccounts
  | applyRuntime (manifest : Bytes)
  | applySecret (manifest : Bytes)
  | createJob (manifest : Bytes)
  | getJob (name : Bytes)
  | logs (name : Bytes)
  deriving DecidableEq

namespace Command

/-- The program and its arguments. -/
def arguments : Command → List Bytes
  | callerIdentity => [ascii "aws", ascii "sts", ascii "get-caller-identity", ascii "--query", ascii "Account", ascii "--output", ascii "text"]
  | revParse => [ascii "git", ascii "rev-parse", ascii "HEAD"]
  | status => [ascii "git", ascii "status", ascii "--porcelain"]
  | terraformOutput => [ascii "terraform", ascii "-chdir=infra/terraform/envs/dev", ascii "output", ascii "-json"]
  | describeCluster name =>
    [ascii "aws", ascii "eks", ascii "describe-cluster", ascii "--name", name, ascii "--query", ascii "cluster.endpoint",
      ascii "--output", ascii "text"]
  | configView => [ascii "kubectl", ascii "config", ascii "view", ascii "--minify", ascii "-o", ascii "json"]
  | getSecret arn =>
    [ascii "aws", ascii "secretsmanager", ascii "get-secret-value", ascii "--secret-id", arn, ascii "--output", ascii "json"]
  | putSecret arn _ =>
    [ascii "aws", ascii "secretsmanager", ascii "put-secret-value", ascii "--secret-id", arn, ascii "--secret-string",
      ascii "file:///dev/stdin", ascii "--output", ascii "json"]
  | applyNamespace => [ascii "kubectl", ascii "apply", ascii "-f", ascii "k8s/manifests/namespace.yaml"]
  | applyServiceAccounts =>
    [ascii "kubectl", ascii "-n", ascii "mlp", ascii "apply", ascii "-f", ascii "k8s/aws/relay/serviceaccounts.yaml"]
  | applyRuntime _ | applySecret _ =>
    [ascii "kubectl", ascii "apply", ascii "--server-side", ascii "--field-manager=mlp-bootstrap", ascii "-f", ascii "-"]
  | createJob _ => [ascii "kubectl", ascii "create", ascii "-f", ascii "-", ascii "-o", ascii "name"]
  | getJob name => [ascii "kubectl", ascii "-n", ascii "mlp", ascii "get", name, ascii "-o", ascii "json"]
  | logs name => [ascii "kubectl", ascii "-n", ascii "mlp", ascii "logs", name]

/-- What the command reads. -/
def stdin : Command → Option Bytes
  | putSecret _ secret => some secret
  | applyRuntime manifest | applySecret manifest | createJob manifest => some manifest
  | _ => none

def program (c : Command) : Bytes := c.arguments.headD []

/-- The commands that change something outside. -/
def mutates : Command → Bool
  | putSecret _ _ | applyNamespace | applyServiceAccounts | applyRuntime _ | applySecret _ | createJob _ => true
  | _ => false

end Command

/-! ## Questions -/

/-- What `os.Lstat` says of a file. -/
structure FileInfo where
  symlink : Bool
  regular : Bool
  perm : Nat
  size : Nat

/-- Why it says nothing. -/
inductive StatError where
  | notExist
  | other
  deriving DecidableEq

/-- What `syscall.Kill(pid, 0)` comes to. -/
inductive KillError where
  | permission
  | other
  deriving DecidableEq

/-- A path, by its parts below the root of the repository. -/
abbrev Path := List Bytes

/-- What the bootstrap asks. -/
inductive Ask where
  | getenv (name : Bytes)
  | lstat (path : Path)
  | readFile (path : Path)
  | now
  /-- `syscall.Kill(pid, 0)` -/
  | kill (pid : Int)
  | run (command : Command)
  /-- 32 octets of `crypto/rand` -/
  | random
  /-- The claim of the run, created exclusively, and its file closed. -/
  | claim (path : Path)
  | closeClaim
  /-- The order in which a map of the forms is gone through. -/
  | mapOrder
  | createTemp
  | writeTemp (data : Bytes)
  | syncTemp
  | closeTemp
  | rename (path : Path)
  | removeTemp
  | output (data : Bytes)
  /-- A `select`: the delay is over, or the context ended. -/
  | delay
  deriving DecidableEq

/-- The answers; a `Bool` says whether it succeeded. -/
def Answer : Ask → Type
  | .getenv _ => Bytes
  | .lstat _ => Except StatError FileInfo
  | .readFile _ => Option Bytes
  | .now => Time
  | .kill _ => Except KillError Unit
  | .run _ => Except Bytes Bytes
  | .random => Option { b : Bytes // b.length = 32 }
  | .mapOrder => { forms : List Form // forms.Perm Form.all }
  | .removeTemp => Unit
  | .claim _ | .closeClaim | .createTemp | .writeTemp _ | .syncTemp | .closeTemp | .rename _ | .output _ | .delay => Bool

/-! ## Programs that fail -/

/-- An error. -/
inductive Failure where
  /-- a text of the program -/
  | own (text : Bytes)
  /-- a text of the program, and a path below the root of the repository -/
  | located (text : Bytes) (path : Path)
  /-- what the operating system or a decoder says -/
  | system
  /-- `commandError`: the program, and what it wrote to its standard error -/
  | command (program stderr : Bytes)
  /-- `fmt.Errorf("what: %w", cause)` -/
  | during (what : Bytes) (cause : Failure)
  deriving DecidableEq

/-- `err.Error()`, where the system says `system`.  The standard error of a command is not in it. -/
def Failure.message (root system : Bytes) : Failure → Bytes
  | .own text => text
  | .located text path => text ++ ascii ": " ++ path.foldl (fun current part => current ++ ascii "/" ++ part) root
  | .system => system
  | .command program _ => program ++ ascii " failed: " ++ system
  | .during what cause => what ++ ascii ": " ++ cause.message root system

/-- A program of the bootstrap. -/
abbrev App := ExceptT Failure (Prog Ask Answer)

namespace App

def ask (q : Ask) : App (Answer q) := ExceptT.lift (Prog.question q)

def fail {α : Type} (text : String) : App α := throw (.own (ascii text))

/-- `if !p { return errors.New(text) }` -/
def require (p : Prop) [Decidable p] (text : String) : App Unit := if p then pure () else fail text

/-- `if err != nil { return err }`, for what an answer says of its success. -/
def succeeded (ok : Bool) : App Unit := if ok = true then pure () else throw .system

/-- The value of a decoder. -/
def decoded {α : Type} (e : Failure) : Option α → App α
  | some a => pure a
  | none => throw e

/-- `fmt.Errorf("what: %w", err)` -/
def during {α : Type} (what : String) (p : App α) : App α := tryCatch p fun e => throw (.during (ascii what) e)

/-- A command, its output or its error. -/
def run (c : Command) : App Bytes := do
  match ← ask (.run c) with
  | .ok out => return out
  | .error stderr => throw (.command c.program stderr)

end App

end LocalPlatform.Bootstrap
