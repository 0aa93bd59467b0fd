/-
# LocalPlatform.Preflight.Soundness — what a check that returns says.

The check goes over the active variable files, the arguments with the files they name, and the environment.  Where it
returns, no source has a flag on.  So what turns a flag on was overlooked: there is no other way left
(`overlooked_of_turnsOn`).
-/
import LocalPlatform.Preflight.Walk

namespace LocalPlatform.Preflight

open Python Logic

variable {terraform : Terraform} {inputs : Inputs}

/-! ## The sources -/

/-- The sources of a check that returns. -/
structure Sources (inputs : Inputs) (files : List Source) (found : List (List Source)) (values : Flags) : Prop where
  active : (activeVariableFiles inputs.directory).mapM (fun file => fileSource file.path file) = .ok files
  arguments : argumentNames.mapM (argumentSources inputs) = .ok found
  environment : environmentFlags inputs.environment = .ok values
  activeOff : ∀ source ∈ files, ∀ flag, ¬source.2.On flag
  argumentsOff : ∀ sources ∈ found, ∀ source ∈ sources, ∀ flag, ¬source.2.On flag
  environmentOff : ∀ flag, ¬values.On flag

/-- Where nothing is listed, nothing is on. -/
theorem off_of_enabled {all : List Source} (h : enabled all = []) {source : Source} (hmem : source ∈ all) (flag : Str) :
    ¬source.2.On flag := by
  intro hon
  have hlisted : source.1 ++ lit ":" ++ flag ∈ enabled all := by
    apply List.mem_flatMap.mpr
    refine ⟨source, hmem, List.mem_map.mpr ⟨(flag, true), ?_, rfl⟩⟩
    exact List.mem_filter.mpr ⟨On.mem hon, rfl⟩
  rw [h] at hlisted
  cases hlisted

theorem sources_of_check (h : checkHourlyFlags inputs = .ok ()) :
    ∃ active arguments environment, Sources inputs active arguments environment := by
  unfold checkHourlyFlags at h
  obtain ⟨all, hall, hverdict⟩ := bind_eq_ok_iff.mp h
  have hnone : enabled all = [] := by
    split at hverdict
    · assumption
    · cases hverdict
  -- no source sets a flag, since the check names none
  have hoff : ∀ source ∈ all, ∀ flag, ¬source.2.On flag := fun source hmem => off_of_enabled hnone hmem
  unfold sources at hall
  obtain ⟨-, -, hall⟩ := bind_eq_ok_iff.mp hall
  obtain ⟨active, hactive, hall⟩ := bind_eq_ok_iff.mp hall
  obtain ⟨exampleSource, -, hall⟩ := bind_eq_ok_iff.mp hall
  obtain ⟨arguments, harguments, hall⟩ := bind_eq_ok_iff.mp hall
  obtain ⟨environment, henvironment, hall⟩ := bind_eq_ok_iff.mp hall
  obtain rfl := Except.ok.inj hall
  refine ⟨active, arguments, environment, hactive, harguments, henvironment, ?_, ?_, ?_⟩
  · intro source hmem
    apply hoff
    simp [hmem]
  · intro found hfound source hmem
    apply hoff
    have hflat := List.mem_flatten.mpr ⟨found, hfound, hmem⟩
    simp [hflat]
  · apply hoff (lit "environment", environment)
    simp

/-- The files Terraform reads unasked are the ones the check does. -/
theorem mem_activeVariableFiles {directory : List VarFile} {file : VarFile} (hmem : file ∈ directory)
    (h : IsActive file.name) : file ∈ activeVariableFiles directory := by
  unfold activeVariableFiles
  simp only [List.mem_append, List.mem_insertionSort, List.mem_filter, decide_eq_true_eq]
  rcases h with h | h | h | h
  · exact Or.inl (Or.inl (Or.inl ⟨hmem, h⟩))
  · exact Or.inl (Or.inl (Or.inr ⟨hmem, h⟩))
  · exact Or.inl (Or.inr ⟨hmem, h⟩)
  · exact Or.inr ⟨hmem, h⟩

theorem fileSource_eq_ok {name : Str} {file : VarFile} {source : Source} (h : fileSource name file = .ok source) :
    flagValues file = .ok source.2 := by
  unfold fileSource at h
  obtain ⟨values, hvalues, hsource⟩ := bind_eq_ok_iff.mp h
  obtain rfl := Except.ok.inj hsource
  exact hvalues

/-! ## The arguments -/

/-- What the check knows of a variable of the environment that holds arguments. -/
theorem argumentSources_eq_ok {name value : Str} (hvalue : inputs.environment name = some value) (hne : value ≠ [])
    {found : List Source} (h : argumentSources inputs name = .ok found) :
    ∃ collected, argumentVariableFiles inputs.opened value = .ok collected ∧ (name, collected.flags) ∈ found ∧
      ∀ file ∈ collected.files, ∃ source ∈ found, flagValues file = .ok source.2 := by
  unfold argumentSources at h
  simp only [hvalue, Option.getD_some, if_neg hne] at h
  obtain ⟨collected, hcollected, h⟩ := bind_eq_ok_iff.mp h
  obtain ⟨files, hfiles, h⟩ := bind_eq_ok_iff.mp h
  obtain rfl := Except.ok.inj h
  refine ⟨collected, hcollected, List.mem_cons_self, ?_⟩
  intro file hfile
  obtain ⟨source, hsource, hread⟩ := exists_mem_of_mapM hfiles hfile
  exact ⟨source, List.mem_cons_of_mem _ hsource, fileSource_eq_ok hread⟩

/-- An empty value holds no setting. -/
theorem value_ne_nil {value : Str} {arguments : List Str} (hsplit : Shlex.split value = .ok arguments)
    {ss : List Setting} (hsettings : terraform.settings none arguments = some ss) {s : Setting} (hs : s ∈ ss) :
    value ≠ [] := by
  rintro rfl
  obtain rfl : [] = arguments := Except.ok.inj hsplit
  obtain rfl : [] = ss := Option.some.inj hsettings
  cases hs

/-- The settings of a variable of the environment, and what the check found there. -/
theorem collected_of_settings {active : List Source} {arguments : List (List Source)} {environment : Flags}
    (hsources : Sources inputs active arguments environment) {name : Str} {ss : List Setting}
    (h : inputs.Settings terraform name ss) {s : Setting} (hs : s ∈ ss) :
    ∃ value words collected, Shlex.split value = .ok words ∧ terraform.settings none words = some ss ∧
      argumentVariableFiles inputs.opened value = .ok collected ∧ (∀ flag, ¬collected.flags.On flag) ∧
      ∀ file ∈ collected.files, ∃ values, flagValues file = .ok values ∧ ∀ flag, ¬Flags.On values flag := by
  obtain ⟨hname, value, words, hvalue, hsplit, hsettings⟩ := h
  obtain ⟨found, hfound, hread⟩ := exists_mem_of_mapM hsources.arguments hname
  have hne := value_ne_nil hsplit hsettings hs
  obtain ⟨collected, hcollected, hflags, hfiles⟩ := argumentSources_eq_ok hvalue hne hread
  have hoff := hsources.argumentsOff found hfound
  refine ⟨value, words, collected, hsplit, hsettings, hcollected, hoff _ hflags, ?_⟩
  intro file hfile
  obtain ⟨source, hsource, hvalues⟩ := hfiles file hfile
  exact ⟨source.2, hvalues, hoff source hsource⟩

/-! ## What is left -/

/-- **Where the check returns, what turns a flag on was overlooked.** -/
theorem overlooked_of_turnsOn (h : checkHourlyFlags inputs = .ok ()) {flag : Str} (hflag : flag ∈ hourlyFlags) {way : Way}
    (hway : TurnsOn terraform inputs flag way) : way.Overlooked flag := by
  obtain ⟨active, arguments, environment, hsources⟩ := sources_of_check h
  by_contra hseen
  cases hway with
  | active hmem hactive hfile =>
    obtain ⟨-, hplace⟩ := not_or.mp hseen
    have hlisted := mem_activeVariableFiles hmem hactive
    obtain ⟨source, hsource, hread⟩ := exists_mem_of_mapM hsources.active hlisted
    have hon := on_of_file (fileSource_eq_ok hread) hflag hfile hplace
    exact hsources.activeOff source hsource flag hon
  | named hsettings hmem hname hopened hfile =>
    rename_i name ss s file place
    obtain ⟨hthrough, hplace⟩ := not_or.mp hseen
    have hshown : ¬s.Hidden := fun hhidden => hthrough ⟨s, rfl, hhidden⟩
    obtain ⟨value, words, collected, hsplit, hss, hcollected, -, hfiles⟩ := collected_of_settings hsources hsettings hmem
    have hlisted := mem_files_of_settings hcollected hsplit hss hmem hname hshown hopened
    obtain ⟨values, hvalues, hoff⟩ := hfiles file hlisted
    exact hoff flag (on_of_file hvalues hflag hfile hplace)
  | argument hsettings hsets hconverts hlast =>
    rename_i name before after s
    obtain ⟨hshown, hkept⟩ := not_or.mp hseen
    have hmem : s ∈ before ++ s :: after := List.mem_append_right before List.mem_cons_self
    obtain ⟨value, words, collected, hsplit, hss, hcollected, hoff, -⟩ := collected_of_settings hsources hsettings hmem
    exact hoff flag (on_of_settings hcollected hsplit hss hmem hflag hsets hconverts hshown hkept)
  | environment hvalue hconverts =>
    rename_i value
    have hgather := hsources.environment
    unfold environmentFlags at hgather
    refine hsources.environmentOff flag (on_gather hgather hflag ?_)
    simp only [hvalue]
    -- Terraform takes `true` and `1`, and the check refuses the latter
    rcases of_decide_eq_true hconverts with rfl | rfl
    · rfl
    · obtain ⟨found, hfound⟩ := read_of_gather hgather hflag
      simp only [hvalue] at hfound
      cases hfound

/-- **The check is sound up to the overlooked forms.**  Where it returns, nothing turns a flag on if and only if nothing
does in one of them. -/
theorem checkHourlyFlags_sound_iff (h : checkHourlyFlags inputs = .ok ()) :
    (∀ flag ∈ hourlyFlags, ∀ way, ¬TurnsOn terraform inputs flag way) ↔
      ∀ flag ∈ hourlyFlags, ∀ way, TurnsOn terraform inputs flag way → ¬way.Overlooked flag := by
  constructor
  · intro hoff flag hflag way hway
    exact absurd hway (hoff flag hflag way)
  · intro hseen flag hflag way hway
    exact hseen flag hflag way hway (overlooked_of_turnsOn h hflag hway)

/-! ## Two dashes -/

/-- A Terraform that knows the two literals, and no flags but `-var` and `-var-file`. -/
def literals : Terraform where
  flags := fun _ => none
  identifier := fun s => s ≠ [] ∧ s.all fun c => c = 0x5f ∨ 0x61 ≤ c ∧ c ≤ 0x7a
  expression := fun s => if s = lit "true" then some true else if s = lit "false" then some false else none
  template := fun s => s = lit "true"

def defaultsText : Str :=
  hourlyFlags.flatMap fun flag =>
    lit "variable \"" ++ flag ++ lit "\" \x7b\n  type    = bool\n  default = false\n\x7d\n"

/-- A file that is no JSON from its first character on. -/
def hclFile (name text : Str) : VarFile := ⟨name, name, text, lit "Expecting value: line 1 column 1 (char 0)"⟩

/-- Everything is off but for the arguments. -/
def withArguments (arguments : Str) : Inputs where
  defaults := defaultsText
  directory := [hclFile (lit "terraform.tfvars") (lit "enable_eks = false # hourly\n")]
  exampleFile := hclFile (lit "terraform.tfvars.example") (lit "enable_rds = false\n")
  environment := fun name => if name = lit "AWS_TF_ARGS" then some arguments else none
  opened := fun path => .error path

theorem checkHourlyFlags_sound_iff_off :
    (∀ flag ∈ hourlyFlags, ∀ way, ¬TurnsOn literals (withArguments (lit "-var enable_msk=false")) flag way) ↔
      ∀ flag ∈ hourlyFlags, ∀ way, TurnsOn literals (withArguments (lit "-var enable_msk=false")) flag way →
        ¬way.Overlooked flag :=
  checkHourlyFlags_sound_iff (by decide +kernel)

/-- With one dash the check refuses, with two it does not look. -/
theorem not_sound_twoDashes : ¬∀ (terraform : Terraform) (inputs : Inputs), checkHourlyFlags inputs = .ok () →
    ∀ flag ∈ hourlyFlags, ∀ way, ¬TurnsOn terraform inputs flag way := by
  intro hsound
  have hreturns : checkHourlyFlags (withArguments (lit "--var=enable_eks=true")) = .ok () := by decide +kernel
  have hvalue : (withArguments (lit "--var=enable_eks=true")).environment (lit "AWS_TF_ARGS") =
      some (lit "--var=enable_eks=true") := by decide +kernel
  have hsplit : Shlex.split (lit "--var=enable_eks=true") = .ok [lit "--var=enable_eks=true"] := by decide +kernel
  have hread : literals.settings none [lit "--var=enable_eks=true"] =
      some ([] ++ ⟨true, none, lit "var", lit "enable_eks=true", []⟩ :: []) := by decide +kernel
  have hsettings : (withArguments (lit "--var=enable_eks=true")).Settings literals (lit "AWS_TF_ARGS")
      ([] ++ ⟨true, none, lit "var", lit "enable_eks=true", []⟩ :: []) :=
    ⟨List.mem_cons_self, _, _, hvalue, hsplit, hread⟩
  exact hsound literals _ hreturns (lit "enable_eks") List.mem_cons_self _
    (TurnsOn.argument hsettings (by decide) (by decide) nofun)

end LocalPlatform.Preflight
