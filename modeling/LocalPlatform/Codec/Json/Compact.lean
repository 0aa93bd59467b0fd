/-
# LocalPlatform.Codec.Json.Compact — what `json.Marshal` makes of a `json.RawMessage`.

A raw value inside a marshalled struct is not copied: the encoder runs the scanner over it, drops the
white space between its tokens and replaces `<`, `>`, `&`, `U+2028` and `U+2029` by six-octet escapes.
So the output can be longer than the input, and `length_compact` says by exactly how much.  It is the
same value for the scanner (`isValue_compactFrom`), but the same text only where there is nothing to drop
or replace (`compactFrom_eq_self`).
-/
import LocalPlatform.Codec.Json.Quote

namespace LocalPlatform.Codec.Json

open Scan

/-- White space between tokens: the scanner is outside every string. -/
def insignificant (s : Scan) (c : UInt8) : Bool := isSpace c && s.mode != .inString

/-- The text goes on with `U+2028` or `U+2029`. -/
def atSeparator : Bytes → Bool
  | a :: b :: c :: _ => a == 0xE2 && b == 0x80 && (c == 0xA8 || c == 0xA9)
  | _ => false

/-- `\u2028` or `\u2029`, by the last octet of the separator. -/
def escapeSeparator (c : UInt8) : Bytes := [0x5c, 0x75, 0x32, 0x30, 0x32, hexDigit (c.toNat % 16)]

/-- **`compactFrom lim s skip bs`** — the loop of `appendCompact` from scanner state `s` on.  `skip`
octets belong to a separator already replaced; the scanner still reads them. -/
def compactFrom (lim : Nat) (s : Scan) : Nat → Bytes → Bytes
  | _, [] => []
  | skip + 1, c :: cs => compactFrom lim (step lim s c) skip cs
  | 0, c :: cs =>
    if isHtml c then escape6 c ++ compactFrom lim (step lim s c) 0 cs
    else if atSeparator (c :: cs) then
      escapeSeparator (cs.getD 1 0) ++ compactFrom lim (step lim s c) 2 cs
    else if insignificant s c then compactFrom lim (step lim s c) 0 cs
    else c :: compactFrom lim (step lim s c) 0 cs

/-- **`compact lim bs`** — `appendCompact` with HTML escaping; `none` when `bs` is not one JSON
value. -/
def compact (lim : Nat) (bs : Bytes) : Option Bytes :=
  if valid lim bs then some (compactFrom lim init 0 bs) else none

/-! ## The size of the output -/

/-- How many octets of white space between tokens a text has. -/
def insignificants (lim : Nat) (s : Scan) : Bytes → Nat
  | [] => 0
  | c :: cs => (insignificant s c).toNat + insignificants lim (step lim s c) cs

/-- How often `U+2028` and `U+2029` occur. -/
def separators : Bytes → Nat
  | [] => 0
  | c :: cs => (atSeparator (c :: cs)).toNat + separators cs

/-- An octet inside a separator is counted by none of the three measures. -/
theorem inert_of_tail {c : UInt8} (h : c = 0x80 ∨ c = 0xA8 ∨ c = 0xA9) (s : Scan) (cs : Bytes) :
    isHtml c = false ∧ atSeparator (c :: cs) = false ∧ insignificant s c = false := by
  rcases h with rfl | rfl | rfl <;>
    exact ⟨rfl, by rcases cs with _ | ⟨_, _ | ⟨_, _⟩⟩ <;> rfl, rfl⟩

theorem tail_of_atSeparator {c : UInt8} {cs : Bytes} (h : atSeparator (c :: cs) = true) :
    ∃ d rest, cs = 0x80 :: d :: rest ∧ (d = 0xA8 ∨ d = 0xA9) := by
  rcases cs with _ | ⟨b, _ | ⟨d, rest⟩⟩
  · simp [atSeparator] at h
  · simp [atSeparator] at h
  · simp only [atSeparator, Bool.and_eq_true, Bool.or_eq_true, beq_iff_eq] at h
    obtain ⟨⟨_, rfl⟩, hd⟩ := h
    exact ⟨d, rest, rfl, hd⟩

/-- The loop's output, measured.  The induction is on the text; the octets to skip are the tail of a
separator, so they count for nothing. -/
theorem length_compactFrom (lim : Nat) (bs : Bytes) :
    ∀ (s : Scan) (skip : Nat), skip ≤ bs.length →
      (∀ c ∈ bs.take skip, c = 0x80 ∨ c = 0xA8 ∨ c = 0xA9) →
      (compactFrom lim s skip bs).length + insignificants lim s bs + skip =
        bs.length + 5 * bs.countP isHtml + 3 * separators bs := by
  induction bs with
  | nil =>
      intro s skip hle _
      have hskip : skip = 0 := by simpa using hle
      subst hskip
      rfl
  | cons c cs ih =>
      intro s skip hle hskip
      rw [insignificants, separators, List.countP_cons, List.length_cons]
      -- the octets behind a separator were paid for when it was replaced
      cases skip with
      | succ k =>
          obtain ⟨hhtml, hsep, hspace⟩ := inert_of_tail (hskip c (by simp)) s cs
          have hcs := ih (step lim s c) k (by simpa using hle)
            (fun d hd => hskip d (by simp [hd]))
          rw [compactFrom, hhtml, hsep, hspace]
          simp only [Bool.toNat_false, Bool.false_eq_true, if_false]
          omega
      | zero =>
          rw [compactFrom]
          -- an octet of HTML costs five more, a separator three, and white space is saved
          by_cases hhtml : isHtml c = true
          · have hsep : atSeparator (c :: cs) = false := by
              cases hs : atSeparator (c :: cs) with
              | false => rfl
              | true =>
                  rcases cs with _ | ⟨b, _ | ⟨d, rest⟩⟩ <;>
                    simp only [atSeparator, Bool.false_eq_true, Bool.and_eq_true, beq_iff_eq] at hs
                  rw [hs.1.1] at hhtml
                  exact absurd hhtml (by decide)
            have hspace : insignificant s c = false := by
              simp only [isHtml, Bool.or_eq_true, beq_iff_eq] at hhtml
              rcases hhtml with (rfl | rfl) | rfl <;> rfl
            have hcs := ih (step lim s c) 0 (by omega) (by simp)
            rw [if_pos hhtml, hhtml, hsep, hspace]
            simp only [List.length_append, escape6, List.length_cons, List.length_nil,
              Bool.toNat_false, if_true]
            omega
          · by_cases hsep : atSeparator (c :: cs) = true
            · obtain ⟨d, rest, rfl, hd⟩ := tail_of_atSeparator hsep
              have hspace : insignificant s c = false := by
                simp only [atSeparator, Bool.and_eq_true, beq_iff_eq] at hsep
                rw [hsep.1.1]
                rfl
              have hcs := ih (step lim s c) 2 (by simp) (by
                intro x hx
                have hx' : x = 0x80 ∨ x = d := by simpa using hx
                rcases hx' with rfl | rfl
                · exact Or.inl rfl
                · exact Or.inr hd)
              rw [if_neg hhtml, if_pos hsep, hsep, hspace]
              simp only [List.length_append, escapeSeparator, List.length_cons, List.length_nil,
                Bool.toNat_false, Bool.toNat_true, hhtml, Bool.false_eq_true, if_false] at hcs ⊢
              omega
            · have hcs := ih (step lim s c) 0 (by omega) (by simp)
              rw [if_neg hhtml, if_neg hsep, eq_false_of_ne_true hhtml, eq_false_of_ne_true hsep]
              by_cases hspace : insignificant s c = true
              · rw [if_pos hspace, hspace]
                simp only [Bool.toNat_false, Bool.toNat_true, Bool.false_eq_true, if_false]
                omega
              · rw [if_neg hspace, eq_false_of_ne_true hspace]
                simp only [Bool.toNat_false, Bool.false_eq_true, if_false, List.length_cons]
                omega

theorem insignificants_le (lim : Nat) (s : Scan) (bs : Bytes) : insignificants lim s bs ≤ bs.length := by
  induction bs generalizing s with
  | nil => exact Nat.le_refl 0
  | cons c cs ih =>
      have hrest := ih (step lim s c)
      have hone := Bool.toNat_le (insignificant s c)
      rw [insignificants, List.length_cons]
      omega

/-- **The size of a re-encoded value**: white space between tokens goes, every HTML octet grows by
five and every separator by three. -/
def compactSize (lim : Nat) (bs : Bytes) : Nat :=
  bs.length - insignificants lim init bs + 5 * bs.countP isHtml + 3 * separators bs

theorem length_compact {lim : Nat} {bs out : Bytes} (h : compact lim bs = some out) :
    out.length = compactSize lim bs := by
  unfold compact at h
  split at h
  · obtain rfl := Option.some.inj h
    have hsize := length_compactFrom lim bs init 0 (by omega) (by simp)
    have hle := insignificants_le lim init bs
    rw [compactSize]
    omega
  · exact absurd h (by simp)

theorem compact_isSome {lim : Nat} {bs : Bytes} (h : valid lim bs = true) :
    compact lim bs = some (compactFrom lim init 0 bs) := if_pos h

/-! ## A compacted value is a value -/

theorem step_lit {lim : Nat} {s : Scan} {c : UInt8} {left : Bytes} (hs : s.Lettered) (hmode : s.mode = .lit left)
    (hc : ¬ (0x61 ≤ c ∧ c ≤ 0x7a)) : (step lim s c).mode = .error := by
  obtain ⟨hne, hleft⟩ := hs left hmode
  obtain ⟨b, left', rfl⟩ := List.exists_cons_of_ne_nil hne
  have hb : c ≠ b := fun hcb => hc (hcb ▸ hleft b (by simp))
  cases left' <;> simp only [step, hmode, hb, if_false] <;> rfl

/-- What is replaced stands inside strings only. -/
theorem inString_of_replaced {lim : Nat} {s : Scan} {c : UInt8} (hs : s.Lettered)
    (hc : isHtml c = true ∨ c = 0xE2) (hstep : (step lim s c).mode ≠ .error) : s.mode = .inString := by
  have hcases : c = 0x3c ∨ c = 0x3e ∨ c = 0x26 ∨ c = 0xE2 := by
    simpa only [isHtml, Bool.or_eq_true, beq_iff_eq, or_assoc] using hc
  have hend : ∀ t : Scan, (t.stateEndValue c).mode = .error := by
    intro t
    obtain ⟨m, _ | ⟨_ | _ | _, stk⟩⟩ := t <;> rcases hcases with rfl | rfl | rfl | rfl <;> rfl
  obtain ⟨m, stk⟩ := s
  cases m with
  | inString => rfl
  | lit left =>
      have hletter : ¬ (0x61 ≤ c ∧ c ≤ 0x7a) := by rcases hcases with rfl | rfl | rfl | rfl <;> decide
      exact absurd (step_lit hs rfl hletter) hstep
  | endValue => exact absurd (hend _) hstep
  | _ =>
      refine absurd ?_ hstep
      rcases hcases with rfl | rfl | rfl | rfl <;> first | rfl | exact hend _

/-- White space between tokens: the scanner stays where it is, or a number has ended. -/
theorem step_insignificant {lim : Nat} {s : Scan} {c : UInt8} (hs : s.Lettered) (hc : insignificant s c = true)
    (hstep : (step lim s c).mode ≠ .error) :
    step lim s c = s ∨ (s.mode.numberEnd = true ∧ step lim s c = ⟨.endValue, s.stack⟩) := by
  simp only [insignificant, Bool.and_eq_true, bne_iff_ne, ne_eq] at hc
  obtain ⟨hspace, hmode⟩ := hc
  have hcases : c = 0x20 ∨ c = 0x09 ∨ c = 0x0a ∨ c = 0x0d := by
    simpa only [isSpace, Bool.or_eq_true, beq_iff_eq, or_assoc] using hspace
  obtain ⟨m, stk⟩ := s
  cases m with
  | inString => exact absurd rfl hmode
  | lit left =>
      have hletter : ¬ (0x61 ≤ c ∧ c ≤ 0x7a) := by rcases hcases with rfl | rfl | rfl | rfl <;> decide
      exact absurd (step_lit hs rfl hletter) hstep
  | beginValue => exact Or.inl (if_pos hspace)
  | beginValueOrEmpty => exact Or.inl (by rcases hcases with rfl | rfl | rfl | rfl <;> rfl)
  | beginString => exact Or.inl (if_pos hspace)
  | beginStringOrEmpty => exact Or.inl (if_pos hspace)
  | endValue => exact Or.inl (if_pos hspace)
  | zero => exact Or.inr ⟨rfl, by rcases hcases with rfl | rfl | rfl | rfl <;> rfl⟩
  | int => exact Or.inr ⟨rfl, by rcases hcases with rfl | rfl | rfl | rfl <;> rfl⟩
  | frac => exact Or.inr ⟨rfl, by rcases hcases with rfl | rfl | rfl | rfl <;> rfl⟩
  | expDigits => exact Or.inr ⟨rfl, by rcases hcases with rfl | rfl | rfl | rfl <;> rfl⟩
  | _ =>
      refine absurd ?_ hstep
      rcases hcases with rfl | rfl | rfl | rfl <;> rfl

/-- `t` is where `s` is, or in a number that for `s` has ended by white space `t` was not given. -/
def Follows (s t : Scan) : Prop :=
  t = s ∨ (s.mode = .endValue ∧ s.stack ≠ [] ∧ t.mode.numberEnd = true ∧ t.stack = s.stack)

theorem Follows.of_inString {s t : Scan} (h : Follows s t) (hs : s.mode = .inString) : t = s := by
  rcases h with h | ⟨hmode, _⟩
  · exact h
  · rw [hs] at hmode
    exact absurd hmode (by simp)

/-- A token's octet takes both to the same state, and the value goes on for both. -/
theorem Follows.step_token {lim : Nat} {s t : Scan} (h : Follows s t) {c : UInt8}
    (hc : insignificant s c = false) (hopen : ¬ (s.closed = true ∧ continues s.mode c = false))
    (hstep : (step lim s c).mode ≠ .error) :
    step lim t c = step lim s c ∧ ¬ (t.closed = true ∧ continues t.mode c = false) := by
  rcases h with rfl | ⟨hmode, hstack, hnumber, hsame⟩
  · exact ⟨rfl, hopen⟩
  · have hspace : isSpace c = false := by simpa [insignificant, hmode] using hc
    have hs : step lim s c = s.stateEndValue c := by simp only [step, hmode]
    -- behind the value only a separator or a closing bracket is no error
    have hdelimiter : isDelimiter c = true := by
      rw [hs, stateEndValue, if_neg (by simp [hspace])] at hstep
      simp only [isDelimiter, Bool.or_eq_true, beq_iff_eq]
      repeat' split at hstep
      all_goals first
        | exact absurd rfl hstep
        | simp [*]
    have ht := @step_numberEnd lim t c hnumber (continues_delimiter hdelimiter _)
    refine ⟨by rw [ht, hs, stateEndValue_congr hsame], fun hclosed => ?_⟩
    simp only [closed, Bool.and_eq_true, List.isEmpty_iff] at hclosed
    exact hstack (hsame ▸ hclosed.1.1)

/-- The reader takes the compacted text where it takes the text.  The induction is on the text, through
the octets still to skip. -/
theorem takeValue_compactFrom {lim : Nat} {bs : Bytes} :
    ∀ {s t : Scan} {skip : Nat}, s.Lettered → Follows s t → skip ≤ bs.length →
      (∀ c ∈ bs.take skip, c = 0x80 ∨ c = 0xA8 ∨ c = 0xA9) → (0 < skip → s.mode = .inString) →
      takeValue lim s bs = some (bs, []) →
      takeValue lim t (compactFrom lim s skip bs) = some (compactFrom lim s skip bs, []) := by
  -- `s` reads the text and `t` what is left of it; `t` may still be inside a number that `s` has left
  induction bs with
  | nil =>
      intro s t skip _ hst _ _ _ h
      have hclosed : s.closed = true := takeValue_closed h
      rcases hst with rfl | ⟨_, hstack, _⟩
      · cases skip <;> exact h
      · simp only [closed, Bool.and_eq_true, List.isEmpty_iff] at hclosed
        exact absurd hclosed.1 hstack
  | cons c cs ih =>
      intro s t skip hs hst hle hskip hin h
      rcases takeValue_cons h with ⟨_, _, hnil, _⟩ | ⟨hopen, hstep, v', hv', htake⟩
      · exact absurd hnil (by simp)
      obtain rfl : cs = v' := (List.cons.inj hv').2
      have hs' : (step lim s c).Lettered := lettered_step hs c
      have hstay : plain c = true → s.mode = .inString → step lim s c = s := by
        intro hplain hmode
        have hsame := step_plain lim s.stack hplain
        rwa [← hmode] at hsame
      cases skip with
      | succ k =>
          have hmode := hin (Nat.succ_pos k)
          have hplain : plain c = true := by
            rcases hskip c (by simp) with rfl | rfl | rfl <;> rfl
          have hsame := hstay hplain hmode
          rw [hsame] at htake
          rw [compactFrom, hsame]
          exact ih hs hst (by simpa using hle) (fun d hd => hskip d (by simp [hd])) (fun _ => hmode) htake
      | zero =>
          -- an escape that replaces an octet is read as one octet of the string
          have hunit : ∀ {a b d : UInt8} {rest out : Bytes}, s.mode = .inString → isHex a = true → isHex b = true →
              isHex d = true → takeValue lim s rest = some (out, []) → ∀ e, isHex e = true →
              takeValue lim t (0x5c :: 0x75 :: a :: b :: d :: e :: rest) =
                some (0x5c :: 0x75 :: a :: b :: d :: e :: out, []) := by
            intro a b d rest out hmode ha hb hd hrest e he
            have hs_eq : s = ⟨.inString, s.stack⟩ := by rw [← hmode]
            rw [hst.of_inString hmode, hs_eq, takeValue_unit lim s.stack ha hb hd he, ← hs_eq, hrest]
            rfl
          rw [compactFrom]
          by_cases hhtml : isHtml c = true
          · have hmode := inString_of_replaced hs (Or.inl hhtml) hstep
            have hplain : plain c = true := by
              simp only [isHtml, Bool.or_eq_true, beq_iff_eq] at hhtml
              rcases hhtml with (rfl | rfl) | rfl <;> rfl
            have hsame := hstay hplain hmode
            have hlt : c.toNat < 256 := c.toNat_lt
            rw [hsame] at htake
            rw [if_pos hhtml, hsame]
            exact hunit hmode rfl rfl (isHex_hexDigit (by omega)) (ih hs (Or.inl rfl) (Nat.zero_le _) (by simp)
              (fun h => absurd h (by decide)) htake) _ (isHex_hexDigit (by omega))
          · by_cases hsep : atSeparator (c :: cs) = true
            · obtain ⟨d, rest, rfl, hd⟩ := tail_of_atSeparator hsep
              have hc : c = 0xE2 := by
                simp only [atSeparator, Bool.and_eq_true, beq_iff_eq] at hsep
                exact hsep.1.1
              have hmode := inString_of_replaced hs (Or.inr hc) hstep
              have hsame := hstay (by rw [hc]; rfl) hmode
              rw [hsame] at htake
              rw [if_neg hhtml, if_pos hsep, hsame]
              refine hunit hmode rfl rfl rfl (ih hs (Or.inl rfl) (by simp) ?_ (fun _ => hmode) htake) _
                (isHex_hexDigit (by omega))
              intro x hx
              have hx' : x = 0x80 ∨ x = d := by simpa using hx
              rcases hx' with rfl | rfl
              · exact Or.inl rfl
              · exact Or.inr hd
            · by_cases hspace : insignificant s c = true
              · rw [if_neg hhtml, if_neg hsep, if_pos hspace]
                refine ih hs' ?_ (Nat.zero_le _) (by simp) (fun h => absurd h (by decide)) htake
                -- white space that is dropped may have ended a number
                rcases step_insignificant hs hspace hstep with hsame | ⟨hnumber, hend⟩
                · rw [hsame]
                  exact hst
                · rcases hst with rfl | ⟨hmode, _⟩
                  · rw [hend]
                    refine Or.inr ⟨rfl, fun hnil => hopen ⟨?_, ?_⟩, hnumber, rfl⟩
                    · simp only at hnil
                      simp [closed, hnil, hnumber]
                    · have hdelimiter : isDelimiter c = true := by
                        simp only [insignificant, Bool.and_eq_true] at hspace
                        simp [isDelimiter, hspace.1]
                      exact continues_delimiter hdelimiter _
                  · rw [hmode] at hnumber
                    exact absurd hnumber (by simp [Mode.numberEnd])
              · have hspace' := eq_false_of_ne_true hspace
                obtain ⟨heq, hopen'⟩ := hst.step_token hspace' hopen hstep
                rw [if_neg hhtml, if_neg hsep, if_neg hspace, takeValue_step _ hopen' (by rw [heq]; exact hstep), heq,
                  ih hs' (Or.inl rfl) (Nat.zero_le _) (by simp) (fun h => absurd h (by decide)) htake]
                rfl

/-- Within a bound the loop writes what it writes within every larger one. -/
theorem compactFrom_mono {lim lim' : Nat} (hle : lim ≤ lim') {bs : Bytes} :
    ∀ {s : Scan} {skip : Nat}, (run lim s bs).closed = true → compactFrom lim' s skip bs = compactFrom lim s skip bs := by
  induction bs with
  | nil =>
      intro s skip _
      cases skip <;> rfl
  | cons c cs ih =>
      intro s skip h
      have hstep := step_mono hle (step_ne_error_of_closed h)
      have hrest : ∀ k, compactFrom lim' (step lim s c) k cs = compactFrom lim (step lim s c) k cs := fun _ => ih h
      cases skip with
      | zero => rw [compactFrom, compactFrom, hstep, hrest, hrest]
      | succ k => rw [compactFrom, compactFrom, hstep, hrest]

/-- **A compacted value is a value**, as deep as it was. -/
theorem isValue_compactFrom {lim lim' : Nat} (hle : lim ≤ lim') {v : Bytes} (h : IsValue lim v) :
    IsValue lim (compactFrom lim' init 0 v) := by
  have hclosed : (run lim init v).closed = true := takeValue_closed h.taken
  rw [compactFrom_mono hle hclosed]
  refine ⟨takeValue_compactFrom lettered_init (Or.inl rfl) (Nat.zero_le _) (by simp) (fun h => absurd h (by decide))
    h.taken, ?_⟩
  obtain ⟨c, cs, rfl⟩ := List.exists_cons_of_ne_nil h.ne_nil
  have hbare : isSpace c = false := h.bare c (by simp)
  have hspace : ¬ insignificant init c = true := by simp [insignificant, hbare]
  intro d hd
  rw [compactFrom, if_neg hspace] at hd
  split at hd
  · obtain rfl : 0x5c = d := Option.some.inj hd
    rfl
  split at hd
  · obtain rfl : 0x5c = d := Option.some.inj hd
    rfl
  · obtain rfl : c = d := Option.some.inj hd
    exact hbare

/-! ## What compaction leaves alone -/

/-- White space outside a string does not lead into one. -/
theorem step_space_outside {lim : Nat} {s : Scan} {c : UInt8} (hc : isSpace c = true) (hs : s.mode ≠ .inString) :
    (step lim s c).mode ≠ .inString := by
  have hcases : c = 0x20 ∨ c = 0x09 ∨ c = 0x0a ∨ c = 0x0d := by
    simpa only [isSpace, Bool.or_eq_true, beq_iff_eq, or_assoc] using hc
  have hend : ∀ t : Scan, t.stateEndValue c = { t with mode := .endValue } := fun _ => if_pos hc
  obtain ⟨m, stk⟩ := s
  cases m with
  | inString => exact absurd rfl hs
  | lit left =>
      rcases left with _ | ⟨b, _ | ⟨b', left⟩⟩
      · simp [step, hend]
      · simp only [step]
        split <;> simp [fail]
      · simp only [step]
        split <;> simp [fail]
  | beginValue => simp [step, stateBeginValue, hc]
  | beginString => simp [step, hc]
  | beginStringOrEmpty => simp [step, hc]
  | endValue => simp [step, hend]
  | _ =>
      rcases hcases with rfl | rfl | rfl | rfl <;> simp [step, stateBeginValue, stateEndValue, isSpace, isDigit, isHex,
        hexVal, isEscape, fail]

/-- The first octet the loop writes outside a string is no white space. -/
theorem head_compactFrom {lim : Nat} {bs : Bytes} :
    ∀ {s : Scan}, s.mode ≠ .inString → ∀ d ∈ (compactFrom lim s 0 bs).head?, isSpace d = false := by
  induction bs with
  | nil => simp [compactFrom]
  | cons c cs ih =>
      intro s hs d hd
      rw [compactFrom] at hd
      split at hd
      · obtain rfl : 0x5c = d := Option.some.inj hd
        rfl
      split at hd
      · obtain rfl : 0x5c = d := Option.some.inj hd
        rfl
      split at hd
      · next hspace =>
        simp only [insignificant, Bool.and_eq_true] at hspace
        exact ih (step_space_outside hspace.1 hs) d hd
      · next hspace =>
        obtain rfl : c = d := Option.some.inj hd
        simpa [insignificant, hs] using hspace

/-- **Compaction changes nothing exactly where there is nothing to drop or replace.** -/
theorem compactFrom_eq_self {lim : Nat} {bs : Bytes} : ∀ {s : Scan}, compactFrom lim s 0 bs = bs ↔
    insignificants lim s bs = 0 ∧ bs.countP isHtml = 0 ∧ separators bs = 0 := by
  induction bs with
  | nil => simp [compactFrom, insignificants, separators]
  | cons c cs ih =>
      intro s
      rw [compactFrom, insignificants, separators, List.countP_cons]
      by_cases hhtml : isHtml c = true
      · rw [if_pos hhtml]
        have hne : c ≠ 0x5c := by
          rintro rfl
          exact absurd hhtml (by decide)
        refine iff_of_false (fun h => hne ?_) (by simp [hhtml])
        exact (List.cons.inj h).1.symm
      by_cases hsep : atSeparator (c :: cs) = true
      · rw [if_neg hhtml, if_pos hsep]
        have hne : c ≠ 0x5c := by
          rintro rfl
          obtain ⟨d, rest, rfl, _⟩ := tail_of_atSeparator hsep
          exact absurd hsep (by simp [atSeparator])
        refine iff_of_false (fun h => hne ?_) (by simp [hsep])
        exact (List.cons.inj h).1.symm
      by_cases hspace : insignificant s c = true
      · rw [if_neg hhtml, if_neg hsep, if_pos hspace]
        refine iff_of_false (fun h => ?_) (by simp [hspace])
        simp only [insignificant, Bool.and_eq_true, bne_iff_ne, ne_eq] at hspace
        have hhead := head_compactFrom (step_space_outside hspace.1 hspace.2) c (by rw [h]; rfl)
        rw [hspace.1] at hhead
        exact absurd hhead (by decide)
      · rw [if_neg hhtml, if_neg hsep, if_neg hspace, List.cons.injEq, ih]
        simp [hhtml, hsep, hspace]

end LocalPlatform.Codec.Json
