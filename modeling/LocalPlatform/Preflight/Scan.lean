/-
# LocalPlatform.Preflight.Scan — what the expressions find in a variable file.

The matches of a regular expression do not overlap, so a match can begin inside an earlier one and be lost.  Here that
does no harm: where the words found are all Booleans, every place of a line's beginning that the expression matches at
is among the matches (`mem_findFlag`).  And the line comments that are taken out first leave a line alone up to the
first mark of one.
-/
import LocalPlatform.Preflight.Hourly
import Mathlib.Data.List.TakeWhile

namespace LocalPlatform.Preflight

open Python

/-! ## White space and words -/

theorem skip_append {s t : Str} (h : s.all Str.isspace = true) : skip (s ++ t) = skip t := by
  unfold skip
  rw [List.dropWhile_append]
  have hnil : s.dropWhile Str.isspace = [] := List.dropWhile_eq_nil_iff.mpr (by simpa using h)
  rw [hnil]
  rfl

theorem skip_of_head {s : Str} (h : ∀ c ∈ s.head?, Str.isspace c = false) : skip s = s :=
  Str.dropWhile_eq_self_of_head h

theorem skip_eq (s : Str) : ∃ blanks, blanks.all Str.isspace = true ∧ s = blanks ++ skip s :=
  ⟨s.takeWhile Str.isspace, List.all_takeWhile, (List.takeWhile_append_dropWhile).symm⟩

theorem head_skip (s : Str) : ∀ c ∈ (skip s).head?, Str.isspace c = false := Str.head_dropWhile _ s

theorem token_append (s : Str) : token s ++ behindToken s = s := List.takeWhile_append_dropWhile

theorem isspace_of_mem_token {s : Str} {c : Nat} (h : c ∈ token s) : Str.isspace c = false := by
  have := List.mem_takeWhile_imp (p := fun c => !Str.isspace c) h
  simpa using this

/-- A line begins behind `front`. -/
def LineStart (atStart : Bool) (front : Str) : Prop := if front = [] then atStart = true else front.getLast? = some 0x0a

theorem matchFlag_skip (flag s : Str) : matchFlag flag (skip s) = matchFlag flag s := by
  have hskip : skip (skip s) = skip s := skip_of_head (head_skip s)
  unfold matchFlag
  rw [hskip]

/-- What a match is made of. -/
theorem matchFlag_eq_some {flag s value r : Str} (h : matchFlag flag s = some (value, r)) :
    ∃ lead gap gap', lead.all Str.isspace = true ∧ gap.all Str.isspace = true ∧ gap'.all Str.isspace = true ∧
      s = lead ++ flag ++ gap ++ 0x3d :: (gap' ++ value ++ r) ∧ value ≠ [] ∧
      (∀ c ∈ value, Str.isspace c = false) ∧ value = token (value ++ r) := by
  unfold matchFlag at h
  split at h
  · next hflag =>
    obtain ⟨behind, hbehind⟩ := hflag
    rw [← hbehind, List.drop_left] at h
    split at h
    · next r' hr' =>
      split at h
      · cases h
      · next hne =>
        obtain ⟨rfl, rfl⟩ := Prod.mk.inj (Option.some.inj h)
        obtain ⟨lead, hlead, hs⟩ := skip_eq s
        obtain ⟨gap, hgap, hb⟩ := skip_eq behind
        obtain ⟨gap', hgap', hr⟩ := skip_eq r'
        refine ⟨lead, gap, gap', hlead, hgap, hgap', ?_, hne, fun c hc => isspace_of_mem_token hc, ?_⟩
        · rw [List.append_assoc gap', token_append, ← hr, ← hr', List.append_assoc, List.append_assoc, ← hb, hbehind, ← hs]
        · rw [token_append]
    · cases h
  · cases h

/-- What the names of the flags have in common: they begin with an `e`, and there is no white space in them. -/
def IsName (flag : Str) : Prop := ∃ rest, flag = 0x65 :: rest ∧ ∀ c ∈ flag, Str.isspace c = false

theorem isName_of_mem {flag : Str} (h : flag ∈ hourlyFlags) : IsName flag := by
  have hall : ∀ flag ∈ hourlyFlags, flag.head? = some 0x65 ∧ ∀ c ∈ flag, Str.isspace c = false := by decide
  obtain ⟨hhead, hspace⟩ := hall flag h
  cases flag with
  | nil => cases hhead
  | cons c rest => exact ⟨rest, by rw [Option.some.inj hhead], hspace⟩

/-- A word that begins with the name of a flag is no Boolean. -/
theorem boolean_of_name {flag w : Str} (hname : IsName flag) (h : flag <+: w) : boolean w = none := by
  obtain ⟨rest, rfl, -⟩ := hname
  obtain ⟨behind, rfl⟩ := h
  unfold boolean
  have htrue : lower (0x65 :: rest ++ behind) ≠ lit "true" := fun heq =>
    absurd (show some 0x65 = some 0x74 from congrArg List.head? heq) (by decide)
  have hfalse : lower (0x65 :: rest ++ behind) ≠ lit "false" := fun heq =>
    absurd (show some 0x65 = some 0x66 from congrArg List.head? heq) (by decide)
  rw [if_neg htrue, if_neg hfalse]

theorem token_of_front {flag s : Str} (hname : IsName flag) (h : flag <+: s) : flag <+: token s := by
  obtain ⟨rest, -, hspace⟩ := hname
  obtain ⟨behind, rfl⟩ := h
  unfold token
  rw [List.takeWhile_append_of_pos (by simpa using hspace)]
  exact List.prefix_append _ _

theorem newline_mem {atStart : Bool} {front a b : Str} (hline : LineStart atStart front) (h : front = a ++ b)
    (hb : b ≠ []) : 0x0a ∈ b := by
  subst h
  unfold LineStart at hline
  rw [if_neg (by simp [hb]), List.getLast?_append_of_ne_nil a hb] at hline
  exact List.mem_of_getLast? hline

/-- A match of a flag begins with its name, behind white space. -/
theorem front_skip {flag s value r : Str} (h : matchFlag flag s = some (value, r)) : flag <+: skip s := by
  unfold matchFlag at h
  split at h
  · assumption
  · cases h

/-- **Two matches at beginnings of lines** — the later one lies in the white space in front of the earlier, or behind it,
unless the earlier finds no Boolean. -/
theorem overlap {flag s value r front q value' r' : Str} (hname : IsName flag) {atStart : Bool}
    (hline : LineStart atStart front) (hs : s = front ++ q) (h : matchFlag flag s = some (value, r))
    (hq : matchFlag flag q = some (value', r')) (hbool : (boolean value).isSome) :
    value' = value ∨ ∃ front', front' ≠ [] ∧ front'.getLast? = some 0x0a ∧ r = front' ++ q := by
  obtain ⟨lead, gap, gap', hlead, hgap, hgap', hsplit, hne, hspace, htoken⟩ := matchFlag_eq_some h
  have hnewline : Str.isspace 0x0a = true := rfl
  have hfront := front_skip hq
  -- nothing but white space is left of the first match in front of what is found
  have hinside : ∀ {x : Str}, x.all Str.isspace = true → q = x ++ (value ++ r) → value' = value := by
    intro x hx hqx
    rw [hqx, skip_append hx] at hfront
    have hhead : skip (value ++ r) = value ++ r := by
      apply skip_of_head
      intro c hc
      cases value with
      | nil => exact absurd rfl hne
      | cons d ds =>
        obtain rfl := Option.some.inj hc
        exact hspace d List.mem_cons_self
    rw [hhead] at hfront
    have hword := token_of_front hname hfront
    rw [← htoken] at hword
    rw [boolean_of_name hname hword] at hbool
    cases hbool
  have hbefore : ∀ {x : Str}, x.all Str.isspace = true → q = x ++ (flag ++ (gap ++ 0x3d :: (gap' ++ (value ++ r)))) →
      value' = value := by
    intro x hx hqx
    have hsame : skip q = skip s := by
      rw [hqx, hsplit, skip_append hx]
      simp only [List.append_assoc]
      rw [skip_append hlead]
    rw [← matchFlag_skip, hsame, matchFlag_skip, h] at hq
    exact (Prod.mk.inj (Option.some.inj hq)).1.symm
  have hsign : ∀ {x rest : Str}, x.all Str.isspace = true → q = x ++ 0x3d :: rest → value' = value := by
    intro x rest hx hqx
    rw [hqx, skip_append hx, skip_of_head (by rintro c hc; obtain rfl := Option.some.inj hc; rfl)] at hfront
    obtain ⟨name, rfl, -⟩ := hname
    exact absurd (List.cons_prefix_cons.mp hfront).1 (by decide)
  have hflat : front ++ q = lead ++ (flag ++ (gap ++ 0x3d :: (gap' ++ (value ++ r)))) := by
    rw [← hs, hsplit]
    simp only [List.append_assoc]
  rcases List.append_eq_append_iff.mp hflat with ⟨x, hx, hqx⟩ | ⟨f₁, hf₁, hrest₁⟩
  · rw [hx, List.all_append, Bool.and_eq_true] at hlead
    exact Or.inl (hbefore hlead.2 hqx)
  rcases List.append_eq_append_iff.mp hrest₁ with ⟨f₂, hf₂, hrest₂⟩ | ⟨x, hx, hqx⟩
  · rcases List.append_eq_append_iff.mp hrest₂ with ⟨f₃, hf₃, hrest₃⟩ | ⟨x, hx, hqx⟩
    · cases f₃ with
      | nil => exact Or.inl (hsign (x := []) rfl hrest₃.symm)
      | cons c f₄ =>
        obtain ⟨rfl, hrest₄⟩ := List.cons.inj hrest₃
        rcases List.append_eq_append_iff.mp hrest₄ with ⟨f₅, hf₅, hrest₅⟩ | ⟨x, hx, hqx⟩
        · rcases List.append_eq_append_iff.mp hrest₅ with ⟨f₆, hf₆, hrest₆⟩ | ⟨x, hx, hqx⟩
          · -- the first match ends in front of the line
            have hall : front = (lead ++ (flag ++ (gap ++ 0x3d :: gap'))) ++ (value ++ f₆) := by
              rw [hf₁, hf₂, hf₃, hf₅, hf₆]
              simp only [List.append_assoc, List.cons_append]
            have hback : f₆ ≠ [] := by
              rintro rfl
              have hmem := newline_mem hline hall (by simpa using hne)
              rw [List.append_nil] at hmem
              rw [hspace _ hmem] at hnewline
              cases hnewline
            refine Or.inr ⟨f₆, hback, ?_, hrest₆⟩
            · unfold LineStart at hline
              rw [hall, if_neg (by simp), ← List.append_assoc, List.getLast?_append_of_ne_nil _ hback] at hline
              exact hline
          · cases f₅ with
            | nil => exact Or.inl (hinside (x := []) rfl hrest₅.symm)
            | cons c f =>
              have hall : front = (lead ++ (flag ++ (gap ++ 0x3d :: gap'))) ++ (c :: f) := by
                rw [hf₁, hf₂, hf₃, hf₅]
                simp only [List.append_assoc, List.cons_append]
              have hmem := newline_mem hline hall (List.cons_ne_nil c f)
              have hvalue : (0x0a : Nat) ∈ value := by
                rw [hx]
                exact List.mem_append_left x hmem
              rw [hspace _ hvalue] at hnewline
              cases hnewline
        · rw [hx, List.all_append, Bool.and_eq_true] at hgap'
          exact Or.inl (hinside hgap'.2 hqx)
    · rw [hx, List.all_append, Bool.and_eq_true] at hgap
      exact Or.inl (hsign hgap.2 hqx)
  · cases f₁ with
    | nil => exact Or.inl (hbefore (x := []) rfl hrest₁.symm)
    | cons c f =>
      have hmem := newline_mem hline hf₁ (List.cons_ne_nil c f)
      obtain ⟨rest, -, hflagspace⟩ := hname
      have hflag : (0x0a : Nat) ∈ flag := by
        rw [hx]
        exact List.mem_append_left x hmem
      rw [hflagspace _ hflag] at hnewline
      cases hnewline

/-- **Every place a line begins at and the expression matches is among the matches**, if all of them are Booleans. -/
theorem mem_findFlag {flag value r : Str} (hname : IsName flag) {n : Nat} {atStart : Bool} {s front q : Str}
    (hlen : s.length < n) (hs : s = front ++ q) (hline : LineStart atStart front)
    (hq : matchFlag flag q = some (value, r)) (hbool : ∀ w ∈ findFlag flag n atStart s, (boolean w).isSome) :
    value ∈ findFlag flag n atStart s := by
  induction n generalizing atStart s front with
  | zero => exact absurd hlen (Nat.not_lt_zero _)
  | succ n ih =>
    unfold findFlag at hbool ⊢
    cases hm : (if atStart then matchFlag flag s else none) with
    | some found =>
      obtain ⟨w, r'⟩ := found
      simp only [hm] at hbool ⊢
      have hmatch : matchFlag flag s = some (w, r') := (Option.ite_none_right_eq_some.mp hm).2
      have hw := hbool w List.mem_cons_self
      rcases overlap hname hline hs hmatch hq hw with rfl | ⟨front', hne, hlast, hr'⟩
      · exact List.mem_cons_self
      · obtain ⟨lead, gap, gap', -, -, -, hsplit, hvalue, -⟩ := matchFlag_eq_some hmatch
        have hshort : r'.length < n := by
          have hcount := congrArg List.length hsplit
          simp only [List.length_append, List.length_cons] at hcount
          omega
        refine List.mem_cons_of_mem _ (ih hshort hr' ?_ fun w' hw' => hbool w' (List.mem_cons_of_mem _ hw'))
        unfold LineStart
        rw [if_neg hne]
        exact hlast
    | none =>
      simp only [hm] at hbool ⊢
      cases front with
      | nil =>
        -- a line begins here, so the expression was tried
        obtain rfl : s = q := hs
        have hstart : atStart = true := by
          unfold LineStart at hline
          rwa [if_pos rfl] at hline
        rw [hstart, if_pos rfl, hq] at hm
        cases hm
      | cons c front =>
        subst hs
        simp only [List.cons_append] at hbool ⊢
        refine ih ?_ rfl ?_ hbool
        · rw [List.cons_append, List.length_cons] at hlen
          omega
        · unfold LineStart at hline ⊢
          rw [if_neg (List.cons_ne_nil c front)] at hline
          cases front with
          | nil => simpa using hline
          | cons d front =>
            rw [if_neg (List.cons_ne_nil d front)]
            rwa [List.getLast?_cons_cons] at hline

/-! ## Line comments -/

theorem stripComments_plain {p : Str} (h : ∀ c ∈ p, c ≠ 0x23 ∧ c ≠ 0x2f) (s : Str) :
    stripComments false (p ++ s) = p ++ stripComments false s := by
  induction p with
  | nil => rfl
  | cons c p ih =>
    obtain ⟨hhash, hslash⟩ := h c List.mem_cons_self
    rw [List.cons_append, stripComments, if_neg (by simp [hhash, hslash]), ih fun d hd => h d (List.mem_cons_of_mem c hd)]
    rfl

/-- Behind the end of a line no comment runs. -/
theorem stripComments_line {front : Str} (hlast : front.getLast? = some 0x0a) (running : Bool) :
    ∃ kept, kept.getLast? = some 0x0a ∧ ∀ s, stripComments running (front ++ s) = kept ++ stripComments false s := by
  -- on the line; `running` says that a comment has begun in it
  induction front generalizing running with
  | nil => cases hlast
  | cons c front ih =>
    cases front with
    | nil =>
      obtain rfl : c = 0x0a := by simpa using hlast
      refine ⟨[0x0a], rfl, fun s => ?_⟩
      cases running with
      | true => rfl
      | false => rfl
    | cons d front =>
      have htail : (d :: front).getLast? = some 0x0a := by rwa [List.getLast?_cons_cons] at hlast
      cases running with
      | true =>
        by_cases hc : c = 0x0a
        · obtain ⟨kept, hkept, hstrip⟩ := ih htail false
          refine ⟨c :: kept, ?_, fun s => ?_⟩
          · cases kept with
            | nil => cases hkept
            | cons k kept => rwa [List.getLast?_cons_cons]
          · show (if c = 0x0a then _ else _) = _
            rw [if_pos hc]
            exact congrArg (c :: ·) (hstrip s)
        · obtain ⟨kept, hkept, hstrip⟩ := ih htail true
          refine ⟨kept, hkept, fun s => ?_⟩
          show (if c = 0x0a then _ else _) = _
          rw [if_neg hc]
          exact hstrip s
      | false =>
        by_cases hc : c = 0x23 ∨ c = 0x2f ∧ d = 0x2f
        · obtain ⟨kept, hkept, hstrip⟩ := ih htail true
          refine ⟨kept, hkept, fun s => ?_⟩
          show (if c = 0x23 ∨ c = 0x2f ∧ some d = some 0x2f then _ else _) = _
          rw [if_pos (by simpa using hc)]
          exact hstrip s
        · obtain ⟨kept, hkept, hstrip⟩ := ih htail false
          refine ⟨c :: kept, ?_, fun s => ?_⟩
          · cases kept with
            | nil => cases hkept
            | cons k kept => rwa [List.getLast?_cons_cons]
          · show (if c = 0x23 ∨ c = 0x2f ∧ some d = some 0x2f then _ else _) = _
            rw [if_neg (by simpa using hc)]
            exact congrArg (c :: ·) (hstrip s)

/-! ## What is learnt of a flag -/

/-- A source says that a flag is on. -/
def Flags.On (values : Flags) (flag : Str) : Prop := values.lookup flag = some true

theorem lookup_map_put (values : Flags) (flag other : Str) (b : Bool) :
    (values.map fun p => if p.1 == flag then (flag, b) else p).lookup other =
      if other = flag then (if values.any fun p => p.1 == flag then some b else none) else values.lookup other := by
  induction values with
  | nil => simp
  | cons p values ih =>
    rw [List.map_cons, List.any_cons, List.lookup_cons]
    by_cases hp : p.1 = flag
    · rw [if_pos (beq_iff_eq.mpr hp), List.lookup_cons, hp]
      by_cases hother : other = flag
      · simp [hother]
      · rw [beq_eq_false_iff_ne.mpr hother, ih, if_neg hother, if_neg hother]
    · rw [if_neg (by simpa using hp), List.lookup_cons, ih, beq_eq_false_iff_ne.mpr hp, Bool.false_or]
      by_cases hother : other = flag
      · rw [if_pos hother, if_pos hother, hother, beq_eq_false_iff_ne.mpr (Ne.symm hp)]
      · rw [if_neg hother, if_neg hother]

theorem lookup_put (values : Flags) (flag other : Str) (b : Bool) :
    (values.put flag b).lookup other = if other = flag then some b else values.lookup other := by
  unfold Flags.put
  split
  · next hany => rw [lookup_map_put, hany, if_pos rfl]
  · next hany =>
    rw [List.lookup_append]
    by_cases hother : other = flag
    · have hnone : values.lookup other = none := by
        rw [List.lookup_eq_none_iff]
        intro p hp
        rw [bne_iff_ne, hother]
        intro heq
        exact hany (List.any_eq_true.mpr ⟨p, hp, beq_iff_eq.mpr heq.symm⟩)
      rw [hnone, if_pos hother, hother]
      simp
    · have hlast : [(flag, b)].lookup other = none := by
        rw [List.lookup_cons, beq_eq_false_iff_ne.mpr hother]
        rfl
      rw [if_neg hother, hlast, Option.or_none]

theorem On.mem {values : Flags} {flag : Str} (h : values.On flag) : (flag, true) ∈ values := by
  unfold Flags.On at h
  obtain ⟨before, after, rfl, -⟩ := List.lookup_eq_some_iff.mp h
  exact List.mem_append_right before List.mem_cons_self

theorem on_put {values : Flags} {flag other : Str} {b : Bool} (h : values.On other) (hsame : other = flag → b = true) :
    (values.put flag b).On other := by
  unfold Flags.On
  rw [lookup_put]
  split
  · next heq => rw [hsame heq]
  · exact h

/-- What a source gives as on stays on. -/
theorem on_gather {read : Str → Except Failure (Option Bool)} {values : Flags} (h : gather read = .ok values)
    {flag : Str} (hflag : flag ∈ hourlyFlags) (hread : read flag = .ok (some true)) : values.On flag := by
  unfold gather at h
  refine Logic.foldlM_reaches (P := fun values => Flags.On values flag) hflag ?_ ?_ h
  · intro c c' hstep
    rw [hread] at hstep
    rw [← Except.ok.inj hstep]
    show (c.put flag true).lookup flag = some true
    rw [lookup_put, if_pos rfl]
  · intro other _ c c' hstep hon
    obtain ⟨found, hfound, hput⟩ := Logic.bind_eq_ok_iff.mp hstep
    cases found with
    | none =>
      obtain rfl := Except.ok.inj hput
      exact hon
    | some b =>
      obtain rfl := Except.ok.inj hput
      apply on_put hon
      rintro rfl
      rw [hread] at hfound
      exact (Option.some.inj (Except.ok.inj hfound)).symm

/-- The reading of every flag succeeds. -/
theorem read_of_gather {read : Str → Except Failure (Option Bool)} {values : Flags} (h : gather read = .ok values)
    {flag : Str} (hflag : flag ∈ hourlyFlags) : ∃ found, read flag = .ok found := by
  unfold gather at h
  obtain ⟨before, after, heq⟩ := List.append_of_mem hflag
  rw [heq] at h
  obtain ⟨c, -, hrest⟩ := Logic.foldlM_append_eq_ok.mp h
  obtain ⟨d, hd, -⟩ := Logic.foldlM_cons_eq_ok.mp hrest
  obtain ⟨found, hfound, -⟩ := Logic.bind_eq_ok_iff.mp hd
  exact ⟨found, hfound⟩

theorem takeFlag_eq_ok {path flag value : Str} {values values' : Flags} (h : takeFlag path flag values value = .ok values') :
    ∃ b, boolean value = some b ∧ values.lookup flag ≠ some !b ∧ values' = values.put flag b := by
  unfold takeFlag at h
  cases hb : boolean value with
  | none =>
    simp only [hb] at h
    cases h
  | some b =>
    simp only [hb] at h
    split at h
    · cases h
    · next hne => exact ⟨b, rfl, hne, (Except.ok.inj h).symm⟩

/-- The first words of both expressions agree with what is kept. -/
theorem on_takeFlag {path flag other value : Str} {values values' : Flags}
    (h : takeFlag path flag values value = .ok values') (hon : values.On other) : values'.On other := by
  obtain ⟨b, -, hne, rfl⟩ := takeFlag_eq_ok h
  apply on_put hon
  rintro rfl
  cases b with
  | true => rfl
  | false => exact absurd hon hne

/-- **What the scanner says of a file**: every word it finds is a Boolean, and none that is `true` is lost. -/
theorem parseHclFlags_eq_ok {file : VarFile} {values : Flags} (h : parseHclFlags file = .ok values) {flag : Str}
    (hflag : flag ∈ hourlyFlags) {w : Str}
    (hw : w ∈ findFlag flag ((stripComments false file.text).length + 1) true (stripComments false file.text)) :
    (boolean w).isSome ∧ (boolean w = some true → values.On flag) := by
  unfold parseHclFlags at h
  -- a value that is no Boolean would have ended the walk
  have hsome : (boolean w).isSome := by
    obtain ⟨before, after, heq⟩ := List.append_of_mem hflag
    simp only [heq] at h
    obtain ⟨c, -, hrest⟩ := Logic.foldlM_append_eq_ok.mp h
    obtain ⟨d, hd, -⟩ := Logic.foldlM_cons_eq_ok.mp hrest
    obtain ⟨front, behind, hsplit⟩ := List.append_of_mem hw
    rw [hsplit] at hd
    obtain ⟨c', -, hrest'⟩ := Logic.foldlM_append_eq_ok.mp hd
    obtain ⟨d', hd', -⟩ := Logic.foldlM_cons_eq_ok.mp hrest'
    obtain ⟨b, hb, -⟩ := takeFlag_eq_ok hd'
    rw [hb]
    rfl
  refine ⟨hsome, fun htrue => ?_⟩
  refine Logic.foldlM_reaches (P := fun values => Flags.On values flag) hflag ?_ ?_ h
  · intro c c' hinner
    refine Logic.foldlM_reaches (P := fun values => Flags.On values flag) hw ?_ ?_ hinner
    · intro d d' hstep
      obtain ⟨b, hb, -, rfl⟩ := takeFlag_eq_ok hstep
      obtain rfl := Option.some.inj (hb.symm.trans htrue)
      show (d.put flag true).lookup flag = some true
      rw [lookup_put, if_pos rfl]
    · exact fun _ _ _ _ hstep hon => on_takeFlag hstep hon
  · intro other _ c c' hinner hon
    exact Logic.foldlM_keeps (P := fun values => Flags.On values flag)
      (fun _ _ _ _ hstep hon => on_takeFlag hstep hon) hinner hon

/-! ## The files -/

theorem parseJsonFlags_eq_ok {file : VarFile} {values : Flags} (h : parseJsonFlags file = .ok values) :
    ∃ payload, Json.loads file.text = .ok (.dict payload) ∧ ∀ flag ∈ hourlyFlags, ∀ v, payload.lookup flag = some v →
      ∃ b, v = .bool b ∧ (b = true → values.On flag) := by
  unfold parseJsonFlags at h
  split at h
  · cases h
  · cases h
  · next payload hload =>
    refine ⟨payload, hload, fun flag hflag v hv => ?_⟩
    obtain ⟨found, hfound⟩ := read_of_gather h hflag
    have hread := on_gather h hflag
    rw [hv] at hfound
    simp only [hv] at hread
    cases v with
    | bool b =>
      refine ⟨b, rfl, ?_⟩
      rintro rfl
      exact hread rfl
    | null => cases hfound
    | int n => cases hfound
    | float x => cases hfound
    | str s => cases hfound
    | list xs => cases hfound
    | dict d => cases hfound
  · cases h

/-- The suffix of a path is what its name ends with, but for a name that has only points in front of it. -/
theorem suffix_eq_json {name : Str} : Str.suffix name = lit ".json" ↔
    Str.endswith (lit ".json") name = true ∧ ∀ n, name ≠ List.replicate n 0x2e ++ lit ".json" := by
  have hpoint : 0x2e ∉ lit "json" := by decide
  rw [Str.endswith_iff]
  constructor
  · intro h
    obtain ⟨stem, rfl, hstem⟩ := (Str.suffix_eq_iff hpoint).mp h
    refine ⟨⟨stem, rfl⟩, fun n hn => ?_⟩
    obtain rfl : stem = List.replicate n 0x2e := List.append_cancel_right hn
    rw [List.all_eq_false] at hstem
    obtain ⟨c, hc, hne⟩ := hstem
    exact hne (beq_iff_eq.mpr (List.eq_of_mem_replicate hc))
  · rintro ⟨⟨stem, rfl⟩, hne⟩
    refine (Str.suffix_eq_iff hpoint).mpr ⟨stem, rfl, eq_false_of_ne_true fun hall => hne stem.length ?_⟩
    congr 1
    exact List.eq_replicate_of_mem fun c hc => beq_iff_eq.mp (List.all_eq_true.mp hall c hc)

end LocalPlatform.Preflight
