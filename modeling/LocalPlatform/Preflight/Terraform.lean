/-
# LocalPlatform.Preflight.Terraform — what Terraform reads.

The hourly resources are switched on by three Boolean variables.  Terraform takes a value for a variable from variable
files, from `-var` arguments and from the environment.  This module says what it reads there: the flags of a command
line, as Go's `flag` package parses them, and the attributes of a variable file, between which white space and comments
may stand.

An expression is Terraform's own affair.  The texts it takes for one, and those that come to `true`, are given.
-/
import LocalPlatform.Python.Json
import LocalPlatform.Python.Shlex

namespace LocalPlatform.Preflight

open Python

/-- The parts of Terraform that stay open: the other flags of the command, and whether each takes a value; the texts that
are identifiers; the texts that are expressions, and whether they come to `true`; the JSON strings that do. -/
structure Terraform where
  flags : Str → Option Bool
  identifier : Str → Bool
  expression : Str → Option Bool
  template : Str → Bool

/-! ## The command line -/

/-- A word of a command line to the `flag` package. -/
inductive Word where
  | positional
  | terminator
  | bad
  | flag (double : Bool) (name : Str) (value : Option Str)
  deriving DecidableEq

/-- What stands behind the dashes. -/
def flagWord (double : Bool) (body : Str) : Word :=
  if body.head? = some 0x2d ∨ body.head? = some 0x3d ∨ body = [] then .bad
  else
    .flag double (body.takeWhile (· ≠ 0x3d))
      (if 0x3d ∈ body then some ((body.dropWhile (· ≠ 0x3d)).drop 1) else none)

/-- One dash or two make a flag; two alone end the flags. -/
def readWord (argument : Str) : Word :=
  match argument with
  | 0x2d :: 0x2d :: body => if body = [] then .terminator else flagWord true body
  | 0x2d :: c :: body => flagWord false (c :: body)
  | _ => .positional

/-- `strconv.ParseBool` -/
def isBool (s : Str) : Bool :=
  [lit "1", lit "0", lit "t", lit "f", lit "T", lit "F", lit "true", lit "false", lit "TRUE", lit "FALSE", lit "True",
    lit "False"].contains s

/-- The value of a flag: how many dashes it has, the argument in front of it if that was the value of another flag, and
the arguments behind it. -/
structure Setting where
  double : Bool
  previous : Option Str
  name : Str
  value : Str
  behind : List Str
  deriving DecidableEq

/-- `-var` and `-var-file` take a value. -/
def Terraform.takesValue (terraform : Terraform) (name : Str) : Option Bool :=
  if name = lit "var" ∨ name = lit "var-file" then some true else terraform.flags name

/-- **`FlagSet.Parse`** — the flags that take a value, up to the first argument that is not one; `none` where Terraform
refuses the command line. -/
def Terraform.settings (terraform : Terraform) : Option Str → List Str → Option (List Setting)
  | _, [] => some []
  | previous, argument :: rest =>
    match readWord argument with
    | .positional => some []
    | .terminator => some []
    | .bad => none
    | .flag double name value =>
      match terraform.takesValue name, value, rest with
      | none, _, _ => none
      | some false, value, rest => if value.all isBool then terraform.settings none rest else none
      | some true, some v, rest => (terraform.settings none rest).map (⟨double, previous, name, v, rest⟩ :: ·)
      | some true, none, [] => none
      | some true, none, v :: rest => (terraform.settings (some v) rest).map (⟨double, previous, name, v, rest⟩ :: ·)

/-- A string as a Boolean. -/
def converts (raw : Str) : Bool := raw = lit "true" ∨ raw = lit "1"

/-- The variable and the value of a `-var`. -/
def assignment (item : Str) : Str × Str := (item.takeWhile (· ≠ 0x3d), (item.dropWhile (· ≠ 0x3d)).drop 1)

/-- A `-var` sets a variable. -/
def Setting.sets (s : Setting) (flag : Str) : Prop :=
  s.name = lit "var" ∧ 0x3d ∈ s.value ∧ (assignment s.value).1 = flag

instance (s : Setting) (flag : Str) : Decidable (s.sets flag) := inferInstanceAs (Decidable (_ ∧ _))

/-! ## Variable files -/

/-- What may stand within a line between the parts of an attribute. -/
inductive Gap where
  | blank (c : Nat)
  | block (body : Str)

/-- Behind a line comment. -/
structure Comment where
  slashes : Bool
  body : Str

/-- What may stand between attributes. -/
inductive Trivia where
  | gap (g : Gap)
  | newline
  | comment (c : Comment)

def Gap.text : Gap → Str
  | .blank c => [c]
  | .block body => lit "/*" ++ body ++ lit "*/"

/-- A blank is a space or a tab, and a block comment ends at the first `*/`. -/
def Gap.Valid : Gap → Prop
  | .blank c => c = 0x20 ∨ c = 0x09
  | .block body => ¬ lit "*/" <:+: body

def Comment.text (c : Comment) : Str := (if c.slashes then lit "//" else lit "#") ++ c.body

def Comment.Valid (c : Comment) : Prop := 0x0a ∉ c.body

def Trivia.text : Trivia → Str
  | .gap g => g.text
  | .newline => [0x0a]
  | .comment c => c.text ++ [0x0a]

def Trivia.Valid : Trivia → Prop
  | .gap g => g.Valid
  | .newline => True
  | .comment c => c.Valid

/-- `name = expression`, with what stands in front of it, around the sign and behind it on its line. -/
structure Attribute where
  lead : List Trivia
  name : Str
  before : List Gap
  after : List Gap
  expression : Str
  tail : List Gap

/-- How the line of an attribute ends. -/
inductive Ending where
  | newline
  | comment (c : Comment)

/-- A variable file: attributes, each on lines of its own. -/
inductive Document where
  | done (trivia : List Trivia) (final : Option Comment)
  | last (a : Attribute) (final : Option Comment)
  | more (a : Attribute) (ending : Ending) (rest : Document)

def Ending.text : Ending → Str
  | .newline => [0x0a]
  | .comment c => c.text ++ [0x0a]

/-- The attribute from its name on. -/
def Attribute.body (a : Attribute) : Str :=
  a.name ++ a.before.flatMap Gap.text ++ 0x3d :: (a.after.flatMap Gap.text ++ a.expression)

def Attribute.leadText (a : Attribute) : Str := a.lead.flatMap Trivia.text

def Attribute.tailText (a : Attribute) : Str := a.tail.flatMap Gap.text

def finalText (final : Option Comment) : Str := (final.map Comment.text).getD []

def Document.text : Document → Str
  | .done trivia final => trivia.flatMap Trivia.text ++ finalText final
  | .last a final => a.leadText ++ a.body ++ a.tailText ++ finalText final
  | .more a ending rest => a.leadText ++ a.body ++ a.tailText ++ ending.text ++ rest.text

/-- An attribute where it stands: the text in front of its name, and that behind its expression. -/
structure Occurrence where
  front : Str
  assigned : Attribute
  rear : Str

/-- The attributes of a document behind some text. -/
def Document.occurrences (front : Str) : Document → List Occurrence
  | .done _ _ => []
  | .last a final => [⟨front ++ a.leadText, a, a.tailText ++ finalText final⟩]
  | .more a ending rest =>
    ⟨front ++ a.leadText, a, a.tailText ++ ending.text ++ rest.text⟩ ::
      rest.occurrences (front ++ a.leadText ++ a.body ++ a.tailText ++ ending.text)

/-- An expression begins with neither white space nor a comment. -/
def begins (expression : Str) : Prop := ∃ c ∈ expression.head?, Str.isspace c = false ∧ c ≠ 0x23 ∧ c ≠ 0x2f

structure Attribute.Valid (terraform : Terraform) (a : Attribute) : Prop where
  lead : ∀ t ∈ a.lead, t.Valid
  name : terraform.identifier a.name = true
  before : ∀ g ∈ a.before, g.Valid
  after : ∀ g ∈ a.after, g.Valid
  begins : begins a.expression
  expression : (terraform.expression a.expression).isSome
  tail : ∀ g ∈ a.tail, g.Valid

def Ending.Valid : Ending → Prop
  | .newline => True
  | .comment c => c.Valid

def Document.Valid (terraform : Terraform) : Document → Prop
  | .done trivia final => (∀ t ∈ trivia, t.Valid) ∧ ∀ c ∈ final, c.Valid
  | .last a final => a.Valid terraform ∧ ∀ c ∈ final, c.Valid
  | .more a ending rest => a.Valid terraform ∧ ending.Valid ∧ rest.Valid terraform

/-- A document Terraform accepts for a text: no variable is given twice. -/
structure Document.Reads (terraform : Terraform) (d : Document) (text : Str) : Prop where
  text : d.text = text
  valid : d.Valid terraform
  distinct : ((d.occurrences []).map fun o => o.assigned.name).Nodup

/-- A variable file: its path as it is shown, the last component of it, what stands in the file, and what the decoder says
of that where it is no JSON. -/
structure VarFile where
  path : Str
  name : Str
  text : Str
  error : Str
  deriving DecidableEq

/-- A JSON value as a Boolean. -/
def Terraform.json (terraform : Terraform) : Value → Bool
  | .bool b => b
  | .str s => terraform.template s
  | _ => false

end LocalPlatform.Preflight
