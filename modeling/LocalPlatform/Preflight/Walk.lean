/-
# LocalPlatform.Preflight.Walk — the scanner of the arguments beside the `flag` package.

The scanner knows `-var` and `-var-file` and takes every other argument by itself.  The `flag` package takes the value of
any flag with it, and that value may read as `-var`.  So the two walks part and meet again: the scanner is never more
than one argument ahead, and there only behind a value it took for a flag (`InStep`).  A setting that is not hidden is
found by both (`finds_of_settings`), and what is found of it stays, unless a later argument reads as a `-var` of the
same flag.
-/
import LocalPlatform.Preflight.Overlooked

namespace LocalPlatform.Preflight

open Python Logic

/-! ## The words -/

theorem flagWord_eq_flag {body name : Str} {double double' : Bool} {value : Option Str}
    (h : flagWord double body = .flag double' name value) :
    double' = double ∧ body = name ++ value.elim [] fun v => 0x3d :: v := by
  unfold flagWord at h
  split at h
  · cases h
  · obtain ⟨rfl, rfl, rfl⟩ := Word.flag.inj h
    refine ⟨rfl, ?_⟩
    have hsplit := List.takeWhile_append_dropWhile (p := fun c : Nat => decide (c ≠ 0x3d)) (l := body)
    by_cases hsign : 0x3d ∈ body
    · rw [if_pos hsign]
      have hhead := Str.head_dropWhile (fun c => decide (c ≠ 0x3d)) body
      cases hrest : body.dropWhile fun c => decide (c ≠ 0x3d) with
      | nil =>
        have hnone := List.dropWhile_eq_nil_iff.mp hrest _ hsign
        simp at hnone
      | cons c rest =>
        rw [hrest] at hsplit hhead
        have hc : c = 0x3d := by simpa using hhead c rfl
        rw [hc] at hsplit
        exact hsplit.symm
    · rw [if_neg hsign]
      have hall : body.takeWhile (fun c => decide (c ≠ 0x3d)) = body := by
        rw [List.takeWhile_eq_self_iff]
        intro c hc
        simp only [decide_eq_true_eq]
        rintro rfl
        exact hsign hc
      rw [hall]
      exact (List.append_nil body).symm

/-- What stands in an argument that is a flag. -/
theorem readWord_eq_flag {argument name : Str} {double : Bool} {value : Option Str}
    (h : readWord argument = .flag double name value) :
    argument = (if double then lit "--" else lit "-") ++ (name ++ value.elim [] fun v => 0x3d :: v) := by
  unfold readWord at h
  split at h
  · split at h
    · cases h
    · obtain ⟨rfl, hbody⟩ := flagWord_eq_flag h
      rw [← hbody]
      rfl
  · obtain ⟨rfl, hbody⟩ := flagWord_eq_flag h
    rw [← hbody]
    rfl
  · cases h

/-! ## The scanner -/

/-- The item a setting is for the scanner. -/
def Setting.item (s : Setting) : Argument := if s.name = lit "var" then .var s.value else .file s.value

/-- What the scanner takes for a flag whose value is the next argument. -/
def IsOpen (argument : Str) : Prop := argument = lit "-var" ∨ argument = lit "-var-file"

instance (argument : Str) : Decidable (IsOpen argument) := inferInstanceAs (Decidable (_ ∨ _))

theorem readWord_of_isOpen {argument : Str} (h : IsOpen argument) :
    ∃ name, (name = lit "var" ∨ name = lit "var-file") ∧ readWord argument = .flag false name none := by
  rcases h with rfl | rfl
  · exact ⟨lit "var", Or.inl rfl, rfl⟩
  · exact ⟨lit "var-file", Or.inr rfl, rfl⟩

theorem dropFront_append (front item : Str) : dropFront front (front ++ item) = some item := by
  unfold dropFront
  rw [if_pos (List.prefix_append front item), List.drop_left]

theorem dropFront_eq_some {front argument item : Str} (h : dropFront front argument = some item) :
    argument = front ++ item := by
  unfold dropFront at h
  split at h
  · next hfront =>
    obtain ⟨behind, rfl⟩ := hfront
    rw [List.drop_left] at h
    rw [Option.some.inj h]
  · cases h

/-- The scanner takes any other argument by itself. -/
theorem scanArguments_cons {argument : Str} (h : ¬IsOpen argument) (rest : List Str) :
    ∃ found, scanArguments (argument :: rest) = found ++ scanArguments rest := by
  obtain ⟨hvar, hfile⟩ := not_or.mp h
  conv in scanArguments (argument :: rest) => unfold scanArguments
  rw [if_neg hvar, if_neg hfile]
  cases dropFront (lit "-var=") argument with
  | some item => exact ⟨[.ok (.var item)], rfl⟩
  | none =>
    cases dropFront (lit "-var-file=") argument with
    | some item => exact ⟨[.ok (.file item)], rfl⟩
    | none => exact ⟨[], rfl⟩

/-- The value behind a flag of its own. -/
theorem scanArguments_pair {argument : Str} (h : IsOpen argument) (item : Str) (rest : List Str) :
    ∃ found, scanArguments (argument :: item :: rest) = found :: scanArguments rest := by
  rcases h with rfl | rfl
  · exact ⟨.ok (.var item), rfl⟩
  · exact ⟨.ok (.file item), rfl⟩

/-- A setting whose value is an argument of its own, where the scanner comes to it. -/
theorem scanArguments_separate {s : Setting} (hname : s.name = lit "var" ∨ s.name = lit "var-file") (rest : List Str) :
    scanArguments ((lit "-" ++ s.name) :: s.value :: rest) = .ok s.item :: scanArguments rest := by
  unfold Setting.item
  rcases hname with hname | hname
  · rw [hname]
    rfl
  · rw [hname]
    rfl

/-- A setting whose value stands behind the sign, where the scanner comes to it. -/
theorem scanArguments_joined {s : Setting} (hname : s.name = lit "var" ∨ s.name = lit "var-file") (rest : List Str) :
    scanArguments ((lit "-" ++ (s.name ++ 0x3d :: s.value)) :: rest) = .ok s.item :: scanArguments rest := by
  unfold Setting.item
  rcases hname with hname | hname
  · rw [hname, if_pos rfl]
    show scanArguments ((lit "-var=" ++ s.value) :: rest) = _
    have hopen : ¬IsOpen (lit "-var=" ++ s.value) := by
      rintro (h | h)
      · cases h
      · cases h
    obtain ⟨hvar, hfile⟩ := not_or.mp hopen
    conv in scanArguments ((lit "-var=" ++ s.value) :: rest) => unfold scanArguments
    rw [if_neg hvar, if_neg hfile, dropFront_append]
  · rw [hname, if_neg (by decide)]
    show scanArguments ((lit "-var-file=" ++ s.value) :: rest) = _
    have hopen : ¬IsOpen (lit "-var-file=" ++ s.value) := by
      rintro (h | h)
      · cases h
      · cases h
    obtain ⟨hvar, hfile⟩ := not_or.mp hopen
    -- `-var-file=` does not begin with `-var=`
    have hother : dropFront (lit "-var=") (lit "-var-file=" ++ s.value) = none := by
      unfold dropFront
      rw [if_neg]
      rintro ⟨behind, h⟩
      cases h
    conv in scanArguments ((lit "-var-file=" ++ s.value) :: rest) => unfold scanArguments
    rw [if_neg hvar, if_neg hfile]
    simp only [hother, dropFront_append]

/-! ## The two walks -/

/-- From a position the scanner comes to a setting, and goes on behind it. -/
def Finds (s : Setting) (position : List Str) : Prop :=
  ∃ found, scanArguments position = found ++ .ok s.item :: scanArguments s.behind

theorem Finds.over {s : Setting} {argument : Str} {rest : List Str} (hopen : ¬IsOpen argument) (h : Finds s rest) :
    Finds s (argument :: rest) := by
  obtain ⟨first, hfirst⟩ := scanArguments_cons hopen rest
  obtain ⟨found, hfound⟩ := h
  exact ⟨first ++ found, by rw [hfirst, hfound, List.append_assoc]⟩

theorem Finds.pair {s : Setting} {argument : Str} {rest : List Str} (hopen : IsOpen argument) (item : Str)
    (h : Finds s rest) : Finds s (argument :: item :: rest) := by
  obtain ⟨first, hfirst⟩ := scanArguments_pair hopen item rest
  obtain ⟨found, hfound⟩ := h
  exact ⟨first :: found, by rw [hfirst, hfound, List.cons_append]⟩

/-- Where the scanner stands while the `flag` package is at some arguments: there too, or one argument ahead, just behind
a value it took for a flag. -/
def InStep (previous : Option Str) (arguments position : List Str) : Prop :=
  position = arguments ∨ ∃ a v, arguments = a :: position ∧ previous = some v ∧ IsOpen v

/-- Behind an argument that takes no other with it. -/
theorem InStep.over {s : Setting} {previous : Option Str} {argument : Str} {rest position : List Str}
    (hstep : InStep previous (argument :: rest) position) (hopen : ¬IsOpen argument) (h : Finds s rest) :
    Finds s position := by
  rcases hstep with rfl | ⟨a, v, hahead, -, -⟩
  · exact h.over hopen
  · obtain rfl := (List.cons.inj hahead).2
    exact h

/-- At a setting that is not hidden the scanner is not ahead. -/
theorem InStep.same {s : Setting} (hseen : ¬s.Hidden) {arguments position : List Str}
    (hstep : InStep s.previous arguments position) : s.double = false ∧ position = arguments := by
  refine ⟨Bool.eq_false_iff.mpr fun hdouble => hseen (Or.inl hdouble), ?_⟩
  rcases hstep with hsame | ⟨a, v, -, hprevious, rfl | rfl⟩
  · exact hsame
  · exact absurd (Or.inr (Or.inl hprevious)) hseen
  · exact absurd (Or.inr (Or.inr hprevious)) hseen

/-- A flag that takes no value, or has it behind the sign, takes no other argument with it. -/
theorem not_isOpen {terraform : Terraform} {argument name : Str} {double : Bool} {value : Option Str}
    (hword : readWord argument = .flag double name value)
    (h : terraform.takesValue name = some false ∨ value ≠ none) : ¬IsOpen argument := by
  intro hopen
  obtain ⟨name', hname', hread⟩ := readWord_of_isOpen hopen
  obtain ⟨-, rfl, rfl⟩ := Word.flag.inj (hread.symm.trans hword)
  rcases h with htakes | hvalue
  · unfold Terraform.takesValue at htakes
    rw [if_pos hname'] at htakes
    cases htakes
  · exact hvalue rfl

/-- **The scanner comes to every setting that is not hidden.** -/
theorem finds_of_settings {terraform : Terraform} {s : Setting} (hseen : ¬s.Hidden)
    (hname : s.name = lit "var" ∨ s.name = lit "var-file") {n : Nat} {previous : Option Str}
    {arguments position : List Str} {ss : List Setting} (hlen : arguments.length < n)
    (h : terraform.settings previous arguments = some ss) (hs : s ∈ ss) (hstep : InStep previous arguments position) :
    Finds s position := by
  induction n generalizing previous arguments position ss with
  | zero => exact absurd hlen (Nat.not_lt_zero _)
  | succ n ih =>
    cases arguments with
    | nil =>
      obtain rfl : [] = ss := Option.some.inj h
      cases hs
    | cons argument rest =>
      rw [List.length_cons] at hlen
      unfold Terraform.settings at h
      cases hword : readWord argument with
      | positional =>
        rw [hword] at h
        obtain rfl : [] = ss := Option.some.inj h
        cases hs
      | terminator =>
        rw [hword] at h
        obtain rfl : [] = ss := Option.some.inj h
        cases hs
      | bad =>
        rw [hword] at h
        cases h
      | flag double name value =>
        have htext := readWord_eq_flag hword
        simp only [hword] at h
        cases htakes : terraform.takesValue name with
        | none =>
          simp only [htakes] at h
          cases h
        | some takes =>
          cases takes with
          | false =>
            simp only [htakes] at h
            split at h
            · exact hstep.over (not_isOpen hword (Or.inl htakes)) (ih (by omega) h hs (Or.inl rfl))
            · cases h
          | true =>
            cases value with
            | some v =>
              simp only [htakes] at h
              obtain ⟨tail, htail, rfl⟩ := Option.map_eq_some_iff.mp h
              rcases List.mem_cons.mp hs with rfl | hmem
              · obtain ⟨rfl, rfl⟩ := hstep.same hseen
                rw [htext]
                exact ⟨[], scanArguments_joined hname rest⟩
              · have hvalue : terraform.takesValue name = some false ∨ some v ≠ none := Or.inr nofun
                exact hstep.over (not_isOpen hword hvalue) (ih (by omega) htail hmem (Or.inl rfl))
            | none =>
              cases rest with
              | nil =>
                simp only [htakes] at h
                cases h
              | cons v rest =>
                rw [List.length_cons] at hlen
                simp only [htakes] at h
                obtain ⟨tail, htail, rfl⟩ := Option.map_eq_some_iff.mp h
                rcases List.mem_cons.mp hs with rfl | hmem
                · obtain ⟨rfl, rfl⟩ := hstep.same hseen
                  refine ⟨[], ?_⟩
                  rw [htext]
                  show scanArguments ((lit "-" ++ (name ++ [])) :: v :: rest) = _
                  rw [List.append_nil]
                  exact scanArguments_separate (s := ⟨false, previous, name, v, rest⟩) hname rest
                · have hsame : Finds s rest := ih (by omega) htail hmem (Or.inl rfl)
                  -- the value alone, which the scanner may take for a flag
                  have hvalue : Finds s (v :: rest) := by
                    by_cases hopen : IsOpen v
                    · cases rest with
                      | nil =>
                        obtain rfl : [] = tail := Option.some.inj htail
                        cases hmem
                      | cons w rest =>
                        exact (ih (by omega) htail hmem (Or.inr ⟨w, v, rfl, rfl, hopen⟩)).pair hopen w
                    · exact hsame.over hopen
                  rcases hstep with rfl | ⟨a, w, hahead, -, -⟩
                  · by_cases hopen : IsOpen argument
                    · exact hsame.pair hopen v
                    · exact hvalue.over hopen
                  · obtain rfl := (List.cons.inj hahead).2
                    exact hvalue

/-! ## What is done with an item -/

theorem front_of_assignment {item : Str} (h : 0x3d ∈ item) : (assignment item).1 ++ lit "=" <+: item := by
  have hsplit := List.takeWhile_append_dropWhile (p := fun c : Nat => decide (c ≠ 0x3d)) (l := item)
  have hhead := Str.head_dropWhile (fun c => decide (c ≠ 0x3d)) item
  cases hrest : item.dropWhile fun c => decide (c ≠ 0x3d) with
  | nil =>
    have hnone := List.dropWhile_eq_nil_iff.mp hrest _ h
    simp at hnone
  | cons c rest =>
    rw [hrest] at hsplit hhead
    have hc : c = 0x3d := by simpa using hhead c rfl
    refine ⟨rest, ?_⟩
    conv_rhs => rw [← hsplit, hc]
    exact List.append_assoc _ _ _

theorem Rewrites.cons {flag : Str} {rest : List Str} (h : Rewrites flag rest) (argument : Str) :
    Rewrites flag (argument :: rest) := by
  rcases h with ⟨a, ha, hfront⟩ | ⟨before, item, after, rfl, hfront⟩
  · exact Or.inl ⟨a, List.mem_cons_of_mem argument ha, hfront⟩
  · exact Or.inr ⟨argument :: before, item, after, rfl, hfront⟩

/-- An item the scanner takes for a `-var` of the flag reads as one. -/
theorem rewrites_of_mem {flag item : Str} (hsign : 0x3d ∈ item) (hname : (assignment item).1 = flag)
    {arguments : List Str} (h : .ok (.var item) ∈ scanArguments arguments) : Rewrites flag arguments := by
  have hfront : flag ++ lit "=" <+: item := hname ▸ front_of_assignment hsign
  -- on the arguments, as the scan walks them
  fun_induction scanArguments arguments with
  | case1 => cases h
  | case2 => cases List.mem_singleton.mp h
  | case3 value rest ih =>
    rcases List.mem_cons.mp h with heq | hmem
    · obtain rfl := Argument.var.inj (Except.ok.inj heq)
      exact Or.inr ⟨[], item, rest, rfl, hfront⟩
    · exact ((ih hmem).cons value).cons (lit "-var")
  | case4 => cases List.mem_singleton.mp h
  | case5 value rest _ ih =>
    rcases List.mem_cons.mp h with heq | hmem
    · cases heq
    · exact ((ih hmem).cons value).cons (lit "-var-file")
  | case6 argument rest _ _ value hdrop ih =>
    rcases List.mem_cons.mp h with heq | hmem
    · obtain rfl := Argument.var.inj (Except.ok.inj heq)
      obtain rfl := dropFront_eq_some hdrop
      refine Or.inl ⟨_, List.mem_cons_self, ?_⟩
      rw [List.append_assoc]
      exact (List.prefix_append_right_inj (lit "-var=")).mpr hfront
    · exact (ih hmem).cons argument
  | case7 argument rest _ _ _ value _ ih =>
    rcases List.mem_cons.mp h with heq | hmem
    · cases heq
    · exact (ih hmem).cons argument
  | case8 argument rest _ _ _ _ ih => exact (ih h).cons argument

variable {opened : Str → Except Str VarFile}

theorem collect_var_eq_ok {found found' : Collected} {item : Str} (h : collect opened found (.var item) = .ok found') :
    0x3d ∈ item ∧ (((assignment item).1 ∉ hourlyFlags ∧ found' = found) ∨ ∃ b, (assignment item).1 ∈ hourlyFlags ∧
      boolean (assignment item).2 = some b ∧ found' = { found with flags := found.flags.put (assignment item).1 b }) := by
  unfold collect at h
  simp only at h
  split at h
  · cases h
  · next hsign =>
    refine ⟨not_not.mp hsign, ?_⟩
    split at h
    · next hflag =>
      cases hb : boolean (assignment item).2 with
      | none =>
        simp only [hb] at h
        cases h
      | some b =>
        simp only [hb] at h
        exact Or.inr ⟨b, hflag, rfl, (Except.ok.inj h).symm⟩
    · next hflag => exact Or.inl ⟨hflag, (Except.ok.inj h).symm⟩

theorem collect_file_eq_ok {found found' : Collected} {item : Str} (h : collect opened found (.file item) = .ok found') :
    ∃ file, opened item = .ok file ∧ found' = { found with files := found.files ++ [file] } := by
  unfold collect at h
  simp only at h
  split at h
  · cases h
  · next file hfile => exact ⟨file, hfile, (Except.ok.inj h).symm⟩

/-- What the scanner has found of the arguments. -/
theorem argumentVariableFiles_eq_ok {value : Str} {found : Collected} (h : argumentVariableFiles opened value = .ok found) :
    ∃ arguments, Shlex.split value = .ok arguments ∧ (scanArguments arguments).foldlM
      (fun found argument => argument >>= collect opened found) ⟨[], []⟩ = .ok found := by
  unfold argumentVariableFiles at h
  split at h
  · cases h
  · next arguments hsplit => exact ⟨arguments, hsplit, h⟩

/-- **A file that is named and not hidden is looked at.** -/
theorem mem_files_of_settings {terraform : Terraform} {value : Str} {found : Collected}
    (h : argumentVariableFiles opened value = .ok found) {arguments : List Str} (hsplit : Shlex.split value = .ok arguments)
    {ss : List Setting} (hsettings : terraform.settings none arguments = some ss) {s : Setting} (hs : s ∈ ss)
    (hname : s.name = lit "var-file") (hseen : ¬s.Hidden) {file : VarFile} (hopened : opened s.value = .ok file) :
    file ∈ found.files := by
  obtain ⟨arguments', hsplit', hloop⟩ := argumentVariableFiles_eq_ok h
  obtain rfl := Except.ok.inj (hsplit.symm.trans hsplit')
  obtain ⟨first, hfinds⟩ := finds_of_settings hseen (Or.inr hname) (Nat.lt_succ_self _) hsettings hs (Or.inl rfl)
  have hitem : s.item = .file s.value := by
    unfold Setting.item
    rw [if_neg (by rw [hname]; decide)]
  rw [hfinds, hitem] at hloop
  obtain ⟨c, -, hrest⟩ := foldlM_append_eq_ok.mp hloop
  obtain ⟨d, hd, hafter⟩ := foldlM_cons_eq_ok.mp hrest
  obtain ⟨file', hopened', rfl⟩ := collect_file_eq_ok hd
  obtain rfl := Except.ok.inj (hopened.symm.trans hopened')
  -- a file that was collected stays
  refine foldlM_keeps (P := fun found => file ∈ Collected.files found) ?_ hafter ?_
  · intro argument _ c c' hstep hmem
    obtain ⟨item, -, hcollect⟩ := bind_eq_ok_iff.mp hstep
    cases item with
    | var item =>
      obtain ⟨-, ⟨-, rfl⟩ | ⟨b, -, -, rfl⟩⟩ := collect_var_eq_ok hcollect
      · exact hmem
      · exact hmem
    | file item =>
      obtain ⟨file', -, rfl⟩ := collect_file_eq_ok hcollect
      exact List.mem_append_left [file'] hmem
  · exact List.mem_append_right c.files (List.mem_singleton.mpr rfl)

/-- **A `-var` that is neither hidden nor rewritten is seen.** -/
theorem on_of_settings {terraform : Terraform} {value : Str} {found : Collected}
    (h : argumentVariableFiles opened value = .ok found) {arguments : List Str} (hsplit : Shlex.split value = .ok arguments)
    {ss : List Setting} (hsettings : terraform.settings none arguments = some ss) {s : Setting} (hs : s ∈ ss)
    {flag : Str} (hflag : flag ∈ hourlyFlags) (hsets : s.sets flag) (hon : converts (assignment s.value).2 = true)
    (hseen : ¬s.Hidden) (hkept : ¬Rewrites flag s.behind) : found.flags.On flag := by
  obtain ⟨arguments', hsplit', hloop⟩ := argumentVariableFiles_eq_ok h
  obtain rfl := Except.ok.inj (hsplit.symm.trans hsplit')
  obtain ⟨hname, -, hassigned⟩ := hsets
  obtain ⟨first, hfinds⟩ := finds_of_settings hseen (Or.inl hname) (Nat.lt_succ_self _) hsettings hs (Or.inl rfl)
  have hitem : s.item = .var s.value := by
    unfold Setting.item
    rw [if_pos hname]
  rw [hfinds, hitem] at hloop
  obtain ⟨c, -, hrest⟩ := foldlM_append_eq_ok.mp hloop
  obtain ⟨d, hd, hafter⟩ := foldlM_cons_eq_ok.mp hrest
  have hcollect : collect opened c (.var s.value) = .ok d := hd
  -- where the setting stands it is collected
  have hput : d.flags.On flag := by
    obtain ⟨-, ⟨hother, -⟩ | ⟨b, -, hb, rfl⟩⟩ := collect_var_eq_ok hcollect
    · rw [hassigned] at hother
      exact absurd hflag hother
    · -- Terraform takes `true` and `1`, and the check refuses the latter
      have htrue : b = true := by
        rcases of_decide_eq_true hon with hraw | hraw
        · rw [hraw] at hb
          exact (Option.some.inj hb).symm
        · rw [hraw] at hb
          cases hb
      show (c.flags.put (assignment s.value).1 b).lookup flag = some true
      rw [lookup_put, hassigned, if_pos rfl, htrue]
  -- and nothing behind it takes it back
  refine foldlM_keeps (P := fun found => Flags.On (Collected.flags found) flag) ?_ hafter hput
  intro argument hargument c c' hstep hon
  obtain ⟨item, rfl, hcollect⟩ := bind_eq_ok_iff.mp hstep
  cases item with
  | var item =>
    obtain ⟨hsign, ⟨-, rfl⟩ | ⟨b, -, -, rfl⟩⟩ := collect_var_eq_ok hcollect
    · exact hon
    · apply on_put hon
      intro hsame
      exact absurd (rewrites_of_mem hsign hsame.symm hargument) hkept
  | file item =>
    obtain ⟨file', -, rfl⟩ := collect_file_eq_ok hcollect
    exact hon

end LocalPlatform.Preflight
