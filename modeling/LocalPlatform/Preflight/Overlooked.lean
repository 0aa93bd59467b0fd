/-
# LocalPlatform.Preflight.Overlooked — what the check of the hourly flags does not see.

Terraform turns a flag on in one of several ways: an attribute of a variable file, a member of a JSON file, a `-var`, an
environment variable.  The check has overlooked a way when it stands where its scanner does not look: behind two dashes,
behind a value the scanner takes for a flag, on a line that a block comment begins, and so on.

This module says what the overlooked forms are, and that of a file nothing else is overlooked (`on_of_file`).
-/
import LocalPlatform.Preflight.Scan

namespace LocalPlatform.Preflight

open Python Logic

/-! ## How a flag is turned on -/

/-- What turns a flag on in a file: an attribute, or a member of a JSON object. -/
def FileTurnsOn (terraform : Terraform) (file : VarFile) (flag : Str) : Option Occurrence → Prop
  | some o => Str.endswith (lit ".json") file.name = false ∧ o.assigned.name = flag ∧
      terraform.expression o.assigned.expression = some true ∧
      ∃ d : Document, d.Reads terraform file.text ∧ o ∈ d.occurrences []
  | none => Str.endswith (lit ".json") file.name = true ∧
      ∃ payload v, Json.loads file.text = .ok (.dict payload) ∧ payload.lookup flag = some v ∧ terraform.json v = true

/-- The variable files Terraform reads unasked. -/
def IsActive (name : Str) : Prop :=
  name = lit "terraform.tfvars" ∨ name = lit "terraform.tfvars.json" ∨ Str.endswith (lit ".auto.tfvars") name = true ∨
    Str.endswith (lit ".auto.tfvars.json") name = true

/-- A way to turn a flag on: in a file, which a `-var-file` may have named; by a `-var`; by the environment. -/
inductive Way where
  | file (through : Option Setting) (file : VarFile) (place : Option Occurrence)
  | argument (s : Setting)
  | environment

/-- The settings of the arguments a variable of the environment holds. -/
def Inputs.Settings (inputs : Inputs) (terraform : Terraform) (name : Str) (ss : List Setting) : Prop :=
  name ∈ argumentNames ∧ ∃ value arguments, inputs.environment name = some value ∧ Shlex.split value = .ok arguments ∧
    terraform.settings none arguments = some ss

/-- **Terraform's reading** of the inputs.  The last `-var` of a flag counts. -/
inductive TurnsOn (terraform : Terraform) (inputs : Inputs) (flag : Str) : Way → Prop
  | active {file : VarFile} {place : Option Occurrence} (hmem : file ∈ inputs.directory) (hactive : IsActive file.name)
      (h : FileTurnsOn terraform file flag place) : TurnsOn terraform inputs flag (.file none file place)
  | named {name : Str} {ss : List Setting} {s : Setting} {file : VarFile} {place : Option Occurrence}
      (hsettings : inputs.Settings terraform name ss) (hmem : s ∈ ss) (hname : s.name = lit "var-file")
      (hopened : inputs.opened s.value = .ok file) (h : FileTurnsOn terraform file flag place) :
      TurnsOn terraform inputs flag (.file (some s) file place)
  | argument {name : Str} {before after : List Setting} {s : Setting}
      (hsettings : inputs.Settings terraform name (before ++ s :: after)) (hsets : s.sets flag)
      (h : converts (assignment s.value).2 = true) (hlast : ∀ t ∈ after, ¬t.sets flag) :
      TurnsOn terraform inputs flag (.argument s)
  | environment {value : Str} (hvalue : inputs.environment (variableName flag) = some value)
      (h : converts value = true) : TurnsOn terraform inputs flag .environment

/-! ## The forms that are overlooked -/

/-- A flag with two dashes, or one behind a value that the scanner takes for a flag. -/
def Setting.Hidden (s : Setting) : Prop :=
  s.double = true ∨ s.previous = some (lit "-var") ∨ s.previous = some (lit "-var-file")

/-- Some argument reads as a `-var` of the flag. -/
def Rewrites (flag : Str) (arguments : List Str) : Prop :=
  (∃ argument ∈ arguments, lit "-var=" ++ flag ++ lit "=" <+: argument) ∨
    ∃ before item after, arguments = before ++ lit "-var" :: item :: after ∧ flag ++ lit "=" <+: item

/-- The line a text ends in. -/
def lastLine (s : Str) : Str := (s.reverse.takeWhile fun c => c ≠ 0x0a).reverse

/-- Something other than white space stands in front on the line; or a block comment in front of the sign; or the first
word behind the sign is `false`. -/
def Occurrence.Overlooked (o : Occurrence) : Prop :=
  (lastLine o.front).all Str.isspace = false ∨ (∃ body, Gap.block body ∈ o.assigned.before) ∨
    boolean (token (skip (stripComments false
      (o.assigned.after.flatMap Gap.text ++ o.assigned.expression ++ o.rear)))) = some false

/-- In a JSON file nothing is overlooked, unless its name is the suffix alone or has only points in front of that. -/
def PlaceOverlooked (file : VarFile) : Option Occurrence → Prop
  | some o => o.Overlooked
  | none => ∃ n, file.name = List.replicate n 0x2e ++ lit ".json"

def Way.Overlooked (flag : Str) : Way → Prop
  | .file through f place => (∃ s, through = some s ∧ s.Hidden) ∨ PlaceOverlooked f place
  | .argument s => s.Hidden ∨ Rewrites flag s.behind
  | .environment => False

/-! ## Attributes -/

theorem text_of_mem_occurrences {d : Document} {front : Str} {o : Occurrence} (h : o ∈ d.occurrences front) :
    front ++ d.text = o.front ++ (o.assigned.body ++ o.rear) := by
  induction d generalizing front with
  | done trivia final => cases h
  | last a final =>
    obtain rfl := List.mem_singleton.mp h
    simp only [Document.text, List.append_assoc]
  | more a ending rest ih =>
    rcases List.mem_cons.mp h with rfl | h
    · simp only [Document.text, List.append_assoc]
    · rw [← ih h]
      simp only [Document.text, List.append_assoc]

theorem valid_of_mem_occurrences {terraform : Terraform} {d : Document} (hd : d.Valid terraform) {front : Str}
    {o : Occurrence} (h : o ∈ d.occurrences front) : o.assigned.Valid terraform := by
  induction d generalizing front with
  | done trivia final => cases h
  | last a final =>
    obtain rfl := List.mem_singleton.mp h
    exact hd.1
  | more a ending rest ih =>
    rcases List.mem_cons.mp h with rfl | h
    · exact hd.1
    · exact ih hd.2.2 h

/-- What stands in front of the line a text ends in is the end of a line, or nothing. -/
theorem lastLine_append (s : Str) : ∃ lines, s = lines ++ lastLine s ∧ (lines = [] ∨ lines.getLast? = some 0x0a) := by
  have hsplit := List.takeWhile_append_dropWhile (p := fun c : Nat => decide (c ≠ 0x0a)) (l := s.reverse)
  have hhead := Str.head_dropWhile (fun c => decide (c ≠ 0x0a)) s.reverse
  refine ⟨(s.reverse.dropWhile fun c => decide (c ≠ 0x0a)).reverse, ?_, ?_⟩
  · unfold lastLine
    rw [← List.reverse_append, hsplit, List.reverse_reverse]
  · cases hrest : s.reverse.dropWhile fun c => decide (c ≠ 0x0a) with
    | nil => exact Or.inl rfl
    | cons c rest =>
      rw [hrest] at hhead
      have hc : c = 0x0a := by simpa using hhead c rfl
      right
      rw [List.reverse_cons, hc, List.getLast?_concat]

/-- White space that no comment begins with. -/
theorem plain_of_isspace {c : Nat} (h : Str.isspace c = true) : c ≠ 0x23 ∧ c ≠ 0x2f := by
  constructor
  · rintro rfl
    cases h
  · rintro rfl
    cases h

theorem isspace_blank {c : Nat} (h : (Gap.blank c).Valid) : Str.isspace c = true := by
  rcases h with rfl | rfl
  · rfl
  · rfl

/-- Without block comments a gap is white space. -/
theorem all_isspace_gaps {gaps : List Gap} (hvalid : ∀ g ∈ gaps, g.Valid) (hblock : ¬∃ body, Gap.block body ∈ gaps) :
    (gaps.flatMap Gap.text).all Str.isspace = true := by
  rw [List.all_eq_true]
  intro c hc
  obtain ⟨g, hg, hcg⟩ := List.mem_flatMap.mp hc
  cases g with
  | blank b =>
    rw [List.mem_singleton.mp hcg]
    exact isspace_blank (hvalid _ hg)
  | block body => exact absurd ⟨body, hg⟩ hblock

/-- Behind the sign some word begins that the line comments do not take away. -/
theorem word_behind {gaps : List Gap} (hvalid : ∀ g ∈ gaps, g.Valid) {expression : Str} (hbegins : begins expression)
    (rear : Str) : token (skip (stripComments false (gaps.flatMap Gap.text ++ expression ++ rear))) ≠ [] := by
  induction gaps with
  | nil =>
    obtain ⟨c, hc, hspace, hhash, hslash⟩ := hbegins
    cases expression with
    | nil => cases hc
    | cons d expression =>
      obtain rfl : d = c := Option.some.inj hc
      show token (skip (stripComments false (d :: (expression ++ rear)))) ≠ []
      rw [stripComments, if_neg (by simp [hhash, hslash]), skip_of_head (by rintro _ ⟨⟩; exact hspace)]
      unfold token
      rw [List.takeWhile_cons_of_pos (by rw [hspace]; rfl)]
      exact List.cons_ne_nil _ _
  | cons g gaps ih =>
    have ih := ih fun g hg => hvalid g (List.mem_cons_of_mem _ hg)
    cases g with
    | blank c =>
      have hspace := isspace_blank (hvalid _ List.mem_cons_self)
      have hplain : ∀ d ∈ [c], d ≠ 0x23 ∧ d ≠ 0x2f := by
        intro d hd
        rw [List.mem_singleton.mp hd]
        exact plain_of_isspace hspace
      show token (skip (stripComments false ([c] ++ (gaps.flatMap Gap.text ++ expression ++ rear)))) ≠ []
      rw [stripComments_plain hplain, skip_append (by simp [hspace])]
      exact ih
    | block body =>
      -- the comment's own first letters are a word
      show token (skip (0x2f :: _)) ≠ []
      rw [skip_of_head (by rintro _ ⟨⟩; rfl)]
      exact List.cons_ne_nil _ _

/-- **An attribute that is not overlooked is seen.** -/
theorem on_of_attribute {terraform : Terraform} {file : VarFile} {values : Flags} (h : parseHclFlags file = .ok values)
    {flag : Str} (hflag : flag ∈ hourlyFlags) {d : Document} (hd : d.Reads terraform file.text) {o : Occurrence}
    (ho : o ∈ d.occurrences []) (hname : o.assigned.name = flag) (hseen : ¬o.Overlooked) : values.On flag := by
  obtain ⟨hblank, hrest⟩ := not_or.mp hseen
  obtain ⟨hblock, hfalse⟩ := not_or.mp hrest
  have hvalid := valid_of_mem_occurrences hd.valid ho
  have htext := text_of_mem_occurrences ho
  rw [List.nil_append, hd.text] at htext
  obtain ⟨lines, hlines, hline⟩ := lastLine_append o.front
  have hlast : (lastLine o.front).all Str.isspace = true := by simpa using hblank
  have hgaps := all_isspace_gaps hvalid.before hblock
  generalize hbehind : o.assigned.after.flatMap Gap.text ++ o.assigned.expression ++ o.rear = behind at hfalse
  -- up to the sign the line has neither mark of a comment
  have hplain : ∀ c ∈ lastLine o.front ++ (flag ++ (o.assigned.before.flatMap Gap.text ++ [0x3d])),
      c ≠ 0x23 ∧ c ≠ 0x2f := by
    intro c hc
    rcases List.mem_append.mp hc with hc | hc
    · exact plain_of_isspace (List.all_eq_true.mp hlast c hc)
    rcases List.mem_append.mp hc with hc | hc
    · have hnames : ∀ flag ∈ hourlyFlags, ∀ c ∈ flag, c ≠ 0x23 ∧ c ≠ 0x2f := by decide
      exact hnames flag hflag c hc
    rcases List.mem_append.mp hc with hc | hc
    · exact plain_of_isspace (List.all_eq_true.mp hgaps c hc)
    · rw [List.mem_singleton.mp hc]
      decide
  have hsplit : file.text =
      lines ++ ((lastLine o.front ++ (flag ++ (o.assigned.before.flatMap Gap.text ++ [0x3d]))) ++ behind) := by
    rw [htext, ← hbehind, ← hname]
    conv_lhs => rw [hlines]
    unfold Attribute.body
    simp only [List.append_assoc, List.cons_append, List.nil_append]
  obtain ⟨kept, hkept, hstrip⟩ : ∃ kept, LineStart true kept ∧ stripComments false file.text = kept ++
      ((lastLine o.front ++ (flag ++ (o.assigned.before.flatMap Gap.text ++ [0x3d]))) ++ stripComments false behind) := by
    rw [hsplit]
    rcases hline with hnil | hend
    · exact ⟨[], rfl, by rw [hnil, List.nil_append, List.nil_append, stripComments_plain hplain]⟩
    · obtain ⟨kept, hlastkept, hstrip⟩ := stripComments_line hend false
      refine ⟨kept, ?_, by rw [hstrip, stripComments_plain hplain]⟩
      unfold LineStart
      rw [if_neg (by rintro rfl; cases hlastkept)]
      exact hlastkept
  have hword : token (skip (stripComments false behind)) ≠ [] := by
    rw [← hbehind]
    exact word_behind hvalid.after hvalid.begins o.rear
  obtain ⟨r, hmatch⟩ : ∃ r, matchFlag flag
      ((lastLine o.front ++ (flag ++ (o.assigned.before.flatMap Gap.text ++ [0x3d]))) ++ stripComments false behind) =
        some (token (skip (stripComments false behind)), r) := by
    have hhead : ∀ c ∈ (flag ++ (o.assigned.before.flatMap Gap.text ++ [0x3d]) ++ stripComments false behind).head?,
        Str.isspace c = false := by
      obtain ⟨rest, heq, hspace⟩ := isName_of_mem hflag
      intro c hc
      rw [heq] at hc
      obtain rfl : 0x65 = c := Option.some.inj hc
      rfl
    have hsign : ∀ c ∈ ([0x3d] ++ stripComments false behind).head?, Str.isspace c = false := by
      intro c hc
      obtain rfl : 0x3d = c := Option.some.inj hc
      rfl
    refine ⟨behindToken (skip (stripComments false behind)), ?_⟩
    unfold matchFlag
    rw [List.append_assoc (lastLine o.front), skip_append hlast, skip_of_head hhead, List.append_assoc flag,
      if_pos (List.prefix_append flag _), List.drop_left, List.append_assoc, skip_append hgaps, skip_of_head hsign]
    show (if token (skip (stripComments false behind)) = [] then none else some _) = _
    rw [if_neg hword]
    rfl
  have hfind := fun w hw => parseHclFlags_eq_ok h hflag (w := w) hw
  have hmem := mem_findFlag (isName_of_mem hflag) (Nat.lt_succ_self _) hstrip hkept hmatch fun w hw => (hfind w hw).1
  obtain ⟨hsome, hon⟩ := hfind _ hmem
  obtain ⟨b, hb⟩ := Option.isSome_iff_exists.mp hsome
  cases b with
  | true => exact hon hb
  | false => exact absurd hb hfalse

/-- **A file whose place is not overlooked is seen.** -/
theorem on_of_file {terraform : Terraform} {file : VarFile} {values : Flags} (h : flagValues file = .ok values)
    {flag : Str} (hflag : flag ∈ hourlyFlags) {place : Option Occurrence} (hon : FileTurnsOn terraform file flag place)
    (hseen : ¬PlaceOverlooked file place) : values.On flag := by
  unfold flagValues at h
  cases place with
  | some o =>
    obtain ⟨hname, hassigned, hvalue, d, hreads, ho⟩ := hon
    rw [if_neg (by rw [suffix_eq_json, hname]; rintro ⟨hends, -⟩; cases hends)] at h
    exact on_of_attribute h hflag hreads ho hassigned hseen
  | none =>
    obtain ⟨hname, payload, v, hload, hlookup, hvalue⟩ := hon
    rw [if_pos (suffix_eq_json.mpr ⟨hname, fun n hn => hseen ⟨n, hn⟩⟩)] at h
    obtain ⟨payload', hload', hall⟩ := parseJsonFlags_eq_ok h
    obtain rfl : payload = payload' := Value.dict.inj (Except.ok.inj (hload.symm.trans hload'))
    obtain ⟨b, rfl, hb⟩ := hall flag hflag v hlookup
    exact hb hvalue

end LocalPlatform.Preflight
