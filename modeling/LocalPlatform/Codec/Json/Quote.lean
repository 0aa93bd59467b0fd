/-
# LocalPlatform.Codec.Json.Quote — JSON string literals, written and read.

`quote` is what `json.Marshal` writes for a Go string, HTML escaping on: quotes, backslashes and
control octets escaped, `<`, `>`, `&`, `U+2028` and `U+2029` as six-octet `\u` escapes, and `U+FFFD` itself for
a malformed octet.  `unquote` is how the decoder reads a literal back: escapes resolved, surrogate
pairs joined, unpaired surrogates and malformed octets replaced by `U+FFFD`.

Two facts carry everything above this module.  A quoted string is one JSON value, whatever the string
(`isValue_quote`), so it can be spliced into any object.  And a well-formed string is read back as it
was written (`unquote_quote`); a malformed one is not, which is why that hypothesis is there.
-/
import LocalPlatform.Codec.Utf8
import LocalPlatform.Codec.Json.Scan

namespace LocalPlatform.Codec.Json

open Scan

/-! ## Writing -/

/-- `\u00XX` for one octet. -/
def escape6 (c : UInt8) : Bytes :=
  [0x5c, 0x75, 0x30, 0x30, hexDigit (c.toNat / 16), hexDigit (c.toNat % 16)]

/-- `<`, `>` and `&`, which `json.Marshal` escapes so that its output can stand inside HTML. -/
def isHtml (c : UInt8) : Bool := c == 0x3c || c == 0x3e || c == 0x26

/-- How `json.Marshal` writes one rune of a string. -/
def quoteRune : Rune → Bytes
  | .one c =>
    if c = 0x22 ∨ c = 0x5c then [0x5c, c]
    else if c = 0x08 then [0x5c, 0x62]
    else if c = 0x0c then [0x5c, 0x66]
    else if c = 0x0a then [0x5c, 0x6e]
    else if c = 0x0d then [0x5c, 0x72]
    else if c = 0x09 then [0x5c, 0x74]
    else if c < 0x20 ∨ isHtml c = true then escape6 c
    else [c]
  | .two a b => [a, b]
  | .three a b c =>
    if a = 0xE2 ∧ b = 0x80 ∧ (c = 0xA8 ∨ c = 0xA9) then
      [0x5c, 0x75, 0x32, 0x30, 0x32, hexDigit (c.toNat % 16)]  -- U+2028 and U+2029
    else [a, b, c]
  | .four a b c d => [a, b, c, d]
  | .bad _ => [0xEF, 0xBF, 0xBD]

/-- The inside of the literal `json.Marshal` writes for a string. -/
def quoteBody (s : Bytes) : Bytes := (runes s).flatMap quoteRune

/-- **`quote s`** — `json.Marshal` of a Go string. -/
def quote (s : Bytes) : Bytes := 0x22 :: quoteBody s ++ [0x22]

/-- What `json.Marshal` spends on a rune: one octet for a plain ASCII octet, two for a short escape, six
for a `\u` escape, three for a malformed octet, and the rune's own width otherwise. -/
def quoteCost : Rune → Nat
  | .one c =>
    if c = 0x22 ∨ c = 0x5c ∨ c = 0x08 ∨ c = 0x0c ∨ c = 0x0a ∨ c = 0x0d ∨ c = 0x09 then 2
    else if c < 0x20 ∨ isHtml c = true then 6
    else 1
  | .two _ _ => 2
  | .three a b c => if a = 0xE2 ∧ b = 0x80 ∧ (c = 0xA8 ∨ c = 0xA9) then 6 else 3
  | .four _ _ _ _ => 4
  | .bad _ => 3

theorem length_quoteRune (r : Rune) : (quoteRune r).length = quoteCost r := by
  cases r with
  | one c =>
      by_cases hshort : c = 0x22 ∨ c = 0x5c ∨ c = 0x08 ∨ c = 0x0c ∨ c = 0x0a ∨ c = 0x0d ∨ c = 0x09
      · rcases hshort with rfl | rfl | rfl | rfl | rfl | rfl | rfl <;> rfl
      · have hcost : quoteCost (.one c) = if c < 0x20 ∨ isHtml c = true then 6 else 1 := if_neg hshort
        simp only [not_or] at hshort
        obtain ⟨h1, h2, h3, h4, h5, h6, h7⟩ := hshort
        rw [hcost, quoteRune]
        simp only [h1, h2, h3, h4, h5, h6, h7, or_self, if_false]
        split <;> rfl
  | two a b => rfl
  | three a b c =>
      simp only [quoteRune, quoteCost]
      split <;> rfl
  | four a b c d => rfl
  | bad a => rfl

/-- The octets `json.Marshal` writes for a string, quotes included. -/
def quoteSize (s : Bytes) : Nat := 2 + ((runes s).map quoteCost).sum

theorem length_quote (s : Bytes) : (quote s).length = quoteSize s := by
  have hbody : (quoteBody s).length = ((runes s).map quoteCost).sum := by
    rw [quoteBody, List.length_flatMap]
    simp only [length_quoteRune]
  rw [quote, quoteSize, List.length_append, List.length_cons, hbody, List.length_singleton]
  omega

/-! ## Reading -/

/-- `utf8.AppendRune`: the octets of a code point, `U+FFFD` for a value that is none. -/
def encodeRune (n : Nat) : Rune :=
  if n < 0x80 then .one (UInt8.ofNat n)
  else if n < 0x800 then .two (UInt8.ofNat (0xC0 + n / 64)) (UInt8.ofNat (0x80 + n % 64))
  else if (0xD800 ≤ n ∧ n < 0xE000) ∨ 0x110000 ≤ n then .three 0xEF 0xBF 0xBD
  else if n < 0x10000 then
    .three (UInt8.ofNat (0xE0 + n / 4096)) (UInt8.ofNat (0x80 + n / 64 % 64))
      (UInt8.ofNat (0x80 + n % 64))
  else
    .four (UInt8.ofNat (0xF0 + n / 262144)) (UInt8.ofNat (0x80 + n / 4096 % 64))
      (UInt8.ofNat (0x80 + n / 64 % 64)) (UInt8.ofNat (0x80 + n % 64))

/-- The value of a rune that is a hexadecimal digit. -/
def hexOf : Rune → Nat
  | .one c => (hexVal c).getD 0
  | _ => 0

/-- The value of four hexadecimal digits. -/
def hex4 (a b c d : Rune) : Nat := ((hexOf a * 16 + hexOf b) * 16 + hexOf c) * 16 + hexOf d

/-- `U+FFFD`. -/
def replacement : Rune := .three 0xEF 0xBF 0xBD

/-- A malformed octet is read as `U+FFFD`. -/
def repair : Rune → Rune
  | .bad _ => replacement
  | r => r

/-- The rune a one-letter escape stands for. -/
def unescape : Rune → Rune
  | .one c =>
    .one (if c = 0x62 then 0x08 else if c = 0x66 then 0x0c else if c = 0x6e then 0x0a
      else if c = 0x72 then 0x0d else if c = 0x74 then 0x09 else c)
  | r => repair r

/-- What the inside of a literal is made of: plain runes and `\uXXXX` code units. -/
inductive Token where
  | plain (r : Rune)
  | unit (n : Nat)
  deriving DecidableEq, Repr

/-- The tokens of a literal's inside.  A scanned literal has a letter behind every backslash and four
digits behind every `\u`; the two fall-through cases never meet one. -/
def tokens : List Rune → List Token
  | [] => []
  | r :: t =>
    if r = .one 0x5c then
      match t with
      | [] => []
      | e :: t₁ =>
        if e = .one 0x75 then
          match t₁ with
          | h₁ :: h₂ :: h₃ :: h₄ :: t₂ => .unit (hex4 h₁ h₂ h₃ h₄) :: tokens t₂
          | _ => []
        else .plain (unescape e) :: tokens t₁
    else .plain (repair r) :: tokens t

def isHighSurrogate (n : Nat) : Bool := 0xD800 ≤ n && n < 0xDC00
def isLowSurrogate (n : Nat) : Bool := 0xDC00 ≤ n && n < 0xE000

/-- The runes the tokens stand for: a high surrogate is joined with a low surrogate right behind it,
an unpaired one becomes `U+FFFD`. -/
def joinUnits : List Token → List Rune
  | [] => []
  | .plain r :: t => r :: joinUnits t
  | .unit n :: t =>
    match t with
    | .unit m :: t₁ =>
      if isHighSurrogate n && isLowSurrogate m then
        encodeRune (0x10000 + (n - 0xD800) * 1024 + (m - 0xDC00)) :: joinUnits t₁
      else encodeRune n :: joinUnits (.unit m :: t₁)
    | t => encodeRune n :: joinUnits t

/-- The string denoted by the inside of a literal. -/
def unquoteBody (body : Bytes) : Bytes := (joinUnits (tokens (runes body))).flatMap Rune.bytes

/-- **`unquote lit`** — the string a literal denotes, `lit` including its quotes. -/
def unquote (lit : Bytes) : Bytes := unquoteBody (lit.drop 1).dropLast

/-! ## A quoted string is one JSON value -/

/-- An octet that stands for itself inside a literal. -/
def plain (c : UInt8) : Bool := 0x20 ≤ c && c != 0x22 && c != 0x5c

section Scanning

variable (lim : Nat) (stk : List Frame)

/-- The octets the reader consumed, put back in front of what it goes on to take. -/
def prepend (a : Bytes) (o : Option (Bytes × Bytes)) : Option (Bytes × Bytes) :=
  o.map fun p => (a ++ p.1, p.2)

theorem prepend_prepend (a b : Bytes) (o : Option (Bytes × Bytes)) :
    prepend a (prepend b o) = prepend (a ++ b) o := by
  cases o <;> simp [prepend]

/-- Inside a literal nothing has ended yet, so the reader takes the next octet. -/
theorem takeValue_inside (s' : Scan) {s : Scan} {c : UInt8} (hs : s.closed = false)
    (hstep : step lim s c = s') (hs' : s'.mode ≠ .error) (rest : Bytes) :
    takeValue lim s (c :: rest) = prepend [c] (takeValue lim s' rest) := by
  subst hstep
  rw [takeValue_step rest (by simp [hs]) hs']
  rfl

theorem step_plain {c : UInt8} (hc : plain c = true) :
    step lim ⟨.inString, stk⟩ c = ⟨.inString, stk⟩ := by
  simp only [plain, Bool.and_eq_true, decide_eq_true_eq, bne_iff_ne, ne_eq] at hc
  have hlt : ¬ c < 0x20 := by
    have := UInt8.le_iff_toNat_le.mp hc.1.1
    rw [UInt8.lt_iff_toNat_lt]
    omega
  simp only [step, hc.1.2, hc.2, hlt, if_false]

theorem takeValue_plain {a : Bytes} (ha : a.all plain = true) (rest : Bytes) :
    takeValue lim ⟨.inString, stk⟩ (a ++ rest) =
      prepend a (takeValue lim ⟨.inString, stk⟩ rest) := by
  induction a with
  | nil => simp [prepend]
  | cons c cs ih =>
      rw [List.all_cons, Bool.and_eq_true] at ha
      rw [List.cons_append, takeValue_inside lim ⟨.inString, stk⟩ (by simp [closed, Mode.numberEnd])
        (step_plain lim stk ha.1) (by simp), ih ha.2, prepend_prepend, List.singleton_append]

theorem takeValue_escape {e : UInt8} (he : isEscape e = true) (rest : Bytes) :
    takeValue lim ⟨.inString, stk⟩ (0x5c :: e :: rest) =
      prepend [0x5c, e] (takeValue lim ⟨.inString, stk⟩ rest) := by
  have hu : e ≠ 0x75 := by
    rintro rfl
    exact absurd he (by decide)
  rw [takeValue_inside lim ⟨.esc, stk⟩ (by simp [closed, Mode.numberEnd]) rfl (by simp),
    takeValue_inside lim ⟨.inString, stk⟩ (by simp [closed, Mode.numberEnd])
      (by simp [step, hu, he]) (by simp), prepend_prepend, List.singleton_append]

theorem takeValue_unit {a b c d : UInt8} (ha : isHex a = true) (hb : isHex b = true)
    (hc : isHex c = true) (hd : isHex d = true) (rest : Bytes) :
    takeValue lim ⟨.inString, stk⟩ (0x5c :: 0x75 :: a :: b :: c :: d :: rest) =
      prepend [0x5c, 0x75, a, b, c, d] (takeValue lim ⟨.inString, stk⟩ rest) := by
  have hopen : ∀ n, closed ⟨.escU n, stk⟩ = false := by simp [closed, Mode.numberEnd]
  rw [takeValue_inside lim ⟨.esc, stk⟩ (by simp [closed, Mode.numberEnd]) rfl (by simp),
    takeValue_inside lim ⟨.escU 4, stk⟩ (by simp [closed, Mode.numberEnd]) rfl (by simp),
    takeValue_inside lim ⟨.escU 3, stk⟩ (hopen 4) (by simp [step, ha]) (by simp),
    takeValue_inside lim ⟨.escU 2, stk⟩ (hopen 3) (by simp [step, hb]) (by simp),
    takeValue_inside lim ⟨.escU 1, stk⟩ (hopen 2) (by simp [step, hc]) (by simp),
    takeValue_inside lim ⟨.inString, stk⟩ (hopen 1) (by simp [step, hd]) (by simp)]
  simp only [prepend_prepend, List.cons_append, List.nil_append]

end Scanning

theorem plain_of_high {c : UInt8} (h : 0x80 ≤ c) : plain c = true := by
  have h1 := UInt8.le_iff_toNat_le.mp h
  simp only [plain, Bool.and_eq_true, decide_eq_true_eq, bne_iff_ne, ne_eq]
  refine ⟨⟨?_, ?_⟩, ?_⟩
  · rw [UInt8.le_iff_toNat_le]
    simp at h1 ⊢
    omega
  · rintro rfl
    simp at h1
  · rintro rfl
    simp at h1

/-- Each rune `json.Marshal` writes keeps the scanner inside the literal. -/
theorem takeValue_quoteRune (lim : Nat) (stk : List Frame) {r : Rune}
    (hr : r.wellFormed = true ∨ ∃ a, r = .bad a) (rest : Bytes) :
    takeValue lim ⟨.inString, stk⟩ (quoteRune r ++ rest) =
      prepend (quoteRune r) (takeValue lim ⟨.inString, stk⟩ rest) := by
  -- outside ASCII the scanner takes every octet as it is
  have hhigh : r.wellFormed = true → (∀ a, r ≠ .one a) → r.bytes.all plain = true :=
    fun hw hne => List.all_eq_true.mpr fun c hc => plain_of_high (Rune.high_of_mem_bytes hw hne hc)
  cases r with
  | one c =>
      have hnib : ∀ n, n < 16 → isHex (hexDigit n) = true := fun n hn => isHex_hexDigit hn
      have hlt : c.toNat < 256 := c.toNat_lt
      simp only [quoteRune]
      split
      · next h =>
        rcases h with rfl | rfl
        · exact takeValue_escape lim stk rfl rest
        · exact takeValue_escape lim stk rfl rest
      · next hq =>
        split
        · exact takeValue_escape lim stk rfl rest
        split
        · exact takeValue_escape lim stk rfl rest
        split
        · exact takeValue_escape lim stk rfl rest
        split
        · exact takeValue_escape lim stk rfl rest
        split
        · exact takeValue_escape lim stk rfl rest
        split
        · exact takeValue_unit lim stk rfl rfl (hnib _ (by omega)) (hnib _ (by omega)) rest
        · next hc =>
          rw [not_or] at hq hc
          refine takeValue_plain lim stk ?_ rest
          simp [plain, hq.1, hq.2, UInt8.not_lt.mp hc.1]
  | two a b =>
      rcases hr with hw | ⟨_, hb⟩
      · exact takeValue_plain lim stk (hhigh hw (by simp)) rest
      · exact absurd hb (by simp)
  | three a b c =>
      rcases hr with hw | ⟨_, hb⟩
      · simp only [quoteRune]
        split
        · exact takeValue_unit lim stk rfl rfl rfl (isHex_hexDigit (by omega)) rest
        · exact takeValue_plain lim stk (hhigh hw (by simp)) rest
      · exact absurd hb (by simp)
  | four a b c d =>
      rcases hr with hw | ⟨_, hb⟩
      · exact takeValue_plain lim stk (hhigh hw (by simp)) rest
      · exact absurd hb (by simp)
  | bad a => exact takeValue_plain lim stk rfl rest

theorem takeValue_flatMap_quoteRune (lim : Nat) (stk : List Frame) :
    ∀ {rs : List Rune}, (∀ r ∈ rs, r.wellFormed = true ∨ ∃ a, r = .bad a) → ∀ rest,
      takeValue lim ⟨.inString, stk⟩ (rs.flatMap quoteRune ++ rest) =
        prepend (rs.flatMap quoteRune) (takeValue lim ⟨.inString, stk⟩ rest)
  | [], _, rest => by simp [prepend]
  | r :: rs, h, rest => by
      have hrs := takeValue_flatMap_quoteRune lim stk
        (fun q hq => h q (List.mem_cons_of_mem r hq)) rest
      rw [List.flatMap_cons, List.append_assoc, takeValue_quoteRune lim stk (h r (by simp)), hrs,
        prepend_prepend]

/-- A literal with its inside already known to stay inside is one value. -/
theorem isValue_literal {lim : Nat} {body : Bytes}
    (h : ∀ rest, takeValue lim ⟨.inString, []⟩ (body ++ rest) =
      prepend body (takeValue lim ⟨.inString, []⟩ rest)) :
    IsValue lim (0x22 :: body ++ [0x22]) := by
  have hopen : closed ⟨.inString, []⟩ = false := by simp [closed, Mode.numberEnd]
  have hend : takeValue lim ⟨.endValue, []⟩ [] = some ([], []) := rfl
  refine ⟨?_, fun c hc => ?_⟩
  · rw [List.cons_append, takeValue_inside lim ⟨.inString, []⟩
      (by simp [closed, init, Mode.numberEnd]) rfl (by simp), h,
      takeValue_inside lim ⟨.endValue, []⟩ hopen rfl (by simp), hend]
    simp [prepend]
  · obtain rfl : 0x22 = c := by simpa using hc
    rfl

/-- **A quoted string is one JSON value**, for every string. -/
theorem isValue_quote (lim : Nat) (s : Bytes) : IsValue lim (quote s) :=
  isValue_literal fun rest =>
    takeValue_flatMap_quoteRune lim [] (fun _ hr => wellFormed_or_bad_of_mem_runes hr) rest

/-- A literal whose inside needs no escape is one JSON value. -/
theorem isValue_plain (lim : Nat) {body : Bytes} (h : body.all plain = true) :
    IsValue lim (0x22 :: body ++ [0x22]) :=
  isValue_literal fun rest => takeValue_plain lim [] h rest

/-! ## A well-formed string is read back -/

theorem runes_ascii_cons {c : UInt8} (h : c < 0x80) (t : Bytes) :
    runes (c :: t) = .one c :: runes t := by
  have hw : (Rune.one c).wellFormed = true := by simpa [Rune.wellFormed] using h
  exact runes_bytes_append hw t

theorem hexDigit_ascii {n : Nat} (h : n < 16) : hexDigit n < 0x80 := by
  interval_cases n <;> decide

theorem hexOf_hexDigit {n : Nat} (h : n < 16) : hexOf (.one (hexDigit n)) = n := by
  simp [hexOf, hexVal_hexDigit h]

theorem tokens_cons (r : Rune) (t : List Rune) :
    tokens (r :: t) =
      if r = .one 0x5c then
        match t with
        | [] => []
        | e :: t₁ =>
          if e = .one 0x75 then
            match t₁ with
            | h₁ :: h₂ :: h₃ :: h₄ :: t₂ => .unit (hex4 h₁ h₂ h₃ h₄) :: tokens t₂
            | _ => []
          else .plain (unescape e) :: tokens t₁
      else .plain (repair r) :: tokens t := by
  conv_lhs => rw [tokens.eq_def]

/-- A one-letter escape is one token. -/
theorem tokens_escape {e : UInt8} (he : e < 0x80) (hu : e ≠ 0x75) (t : Bytes) :
    tokens (runes (0x5c :: e :: t)) = .plain (unescape (.one e)) :: tokens (runes t) := by
  rw [runes_ascii_cons (by decide), runes_ascii_cons he, tokens_cons, if_pos rfl]
  simp [hu]

/-- A `\uXXXX` escape is one token. -/
theorem tokens_unit {a b c d : UInt8} (ha : a < 0x80) (hb : b < 0x80) (hc : c < 0x80)
    (hd : d < 0x80) (t : Bytes) :
    tokens (runes (0x5c :: 0x75 :: a :: b :: c :: d :: t)) =
      .unit (hex4 (.one a) (.one b) (.one c) (.one d)) :: tokens (runes t) := by
  rw [runes_ascii_cons (by decide), runes_ascii_cons (by decide), runes_ascii_cons ha,
    runes_ascii_cons hb, runes_ascii_cons hc, runes_ascii_cons hd, tokens_cons, if_pos rfl]
  simp

/-- A code unit that is no high surrogate stands for itself, whatever follows. -/
theorem joinUnits_unit {n : Nat} (h : isHighSurrogate n = false) (t : List Token) :
    joinUnits (.unit n :: t) = encodeRune n :: joinUnits t := by
  cases t with
  | nil => rfl
  | cons x t =>
      cases x with
      | plain r => rfl
      | unit m => simp [joinUnits, h]

theorem encodeRune_ascii {c : UInt8} (h : c < 0x80) : encodeRune c.toNat = .one c := by
  have hlt : c.toNat < 0x80 := by simpa using UInt8.lt_iff_toNat_lt.mp h
  simp [encodeRune, hlt]

theorem tokens_of_ne {r : Rune} (hr : r ≠ .one 0x5c) (t : List Rune) :
    tokens (r :: t) = .plain (repair r) :: tokens t := by
  rw [tokens_cons, if_neg hr]

theorem repair_of_wellFormed {r : Rune} (h : r.wellFormed = true) : repair r = r := by
  cases r <;> simp_all [repair, Rune.wellFormed]

/-- Reading back what was written for one rune gives that rune. -/
theorem joinUnits_quoteRune {r : Rune} (h : r.wellFormed = true) (t : Bytes) :
    joinUnits (tokens (runes (quoteRune r ++ t))) = r :: joinUnits (tokens (runes t)) := by
  cases r with
  | one c =>
      have hc : c < 0x80 := by simpa [Rune.wellFormed] using h
      have hlt : c.toNat < 0x80 := by simpa using UInt8.lt_iff_toNat_lt.mp hc
      simp only [quoteRune]
      split
      · next hq =>
        rcases hq with rfl | rfl
        · rw [List.cons_append, List.cons_append, List.nil_append,
            tokens_escape (by decide) (by decide)]
          rfl
        · rw [List.cons_append, List.cons_append, List.nil_append,
            tokens_escape (by decide) (by decide)]
          rfl
      · next hq =>
        rw [not_or] at hq
        split
        · next he => subst he; exact congrArg joinUnits (tokens_escape (by decide) (by decide) t)
        split
        · next he => subst he; exact congrArg joinUnits (tokens_escape (by decide) (by decide) t)
        split
        · next he => subst he; exact congrArg joinUnits (tokens_escape (by decide) (by decide) t)
        split
        · next he => subst he; exact congrArg joinUnits (tokens_escape (by decide) (by decide) t)
        split
        · next he => subst he; exact congrArg joinUnits (tokens_escape (by decide) (by decide) t)
        split
        · have h1 : c.toNat / 16 < 16 := by omega
          have h2 : c.toNat % 16 < 16 := by omega
          have hz : hexOf (.one 0x30) = 0 := rfl
          -- the two hex digits spell the octet
          have hval : hex4 (.one 0x30) (.one 0x30) (.one (hexDigit (c.toNat / 16)))
              (.one (hexDigit (c.toNat % 16))) = c.toNat := by
            rw [hex4, hz, hexOf_hexDigit h1, hexOf_hexDigit h2]
            omega
          have htok := tokens_unit (a := 0x30) (b := 0x30) (by decide) (by decide)
            (hexDigit_ascii h1) (hexDigit_ascii h2) t
          rw [hval] at htok
          rw [escape6, List.cons_append, List.cons_append, List.cons_append, List.cons_append,
            List.cons_append, List.cons_append, List.nil_append, htok, joinUnits_unit,
            encodeRune_ascii hc]
          simp only [isHighSurrogate, Bool.and_eq_false_iff, decide_eq_false_iff_not]
          omega
        · rw [List.singleton_append, runes_ascii_cons hc, tokens_of_ne (by simpa using hq.2)]
          rfl
  | three a b c =>
      simp only [quoteRune]
      split
      · next hl =>
        -- the two separators, which are written as escapes
        obtain ⟨rfl, rfl, rfl | rfl⟩ := hl
        · exact (congrArg joinUnits (tokens_unit (by decide) (by decide) (by decide) (by decide)
            t)).trans (joinUnits_unit rfl _)
        · exact (congrArg joinUnits (tokens_unit (by decide) (by decide) (by decide) (by decide)
            t)).trans (joinUnits_unit rfl _)
      · have hb : runes ([a, b, c] ++ t) = .three a b c :: runes t := runes_bytes_append h t
        rw [hb, tokens_of_ne (by simp), repair_of_wellFormed h]
        rfl
  | two a b =>
      have hb : runes ([a, b] ++ t) = .two a b :: runes t := runes_bytes_append h t
      rw [quoteRune, hb, tokens_of_ne (by simp), repair_of_wellFormed h]
      rfl
  | four a b c d =>
      have hb : runes ([a, b, c, d] ++ t) = .four a b c d :: runes t := runes_bytes_append h t
      rw [quoteRune, hb, tokens_of_ne (by simp), repair_of_wellFormed h]
      rfl
  | bad a => simp [Rune.wellFormed] at h

theorem joinUnits_flatMap_quoteRune :
    ∀ {rs : List Rune}, rs.all Rune.wellFormed = true →
      joinUnits (tokens (runes (rs.flatMap quoteRune))) = rs
  | [], _ => rfl
  | r :: rs, h => by
      rw [List.all_cons, Bool.and_eq_true] at h
      rw [List.flatMap_cons, joinUnits_quoteRune h.1, joinUnits_flatMap_quoteRune h.2]

theorem inside_quote (s : Bytes) : ((quote s).drop 1).dropLast = quoteBody s := by
  rw [quote, List.cons_append, List.drop_one, List.tail_cons, List.dropLast_concat]

/-- **The round trip of a string**: `json.Unmarshal` of `json.Marshal(s)` is `s`, for valid UTF-8. -/
theorem unquote_quote {s : Bytes} (h : validUtf8 s = true) : unquote (quote s) = s := by
  rw [unquote, inside_quote, unquoteBody, quoteBody, joinUnits_flatMap_quoteRune h,
    flatMap_bytes_runes]

/-! ## A decoded string is well formed -/

/-- An octet `json.Marshal` writes as it is: graphic ASCII or a blank, no quote, backslash or HTML. -/
def safe (c : UInt8) : Bool := plain c && c < 0x80 && !isHtml c

theorem quoteRune_safe {c : UInt8} (h : safe c = true) : quoteRune (.one c) = [c] := by
  simp only [safe, plain, Bool.and_eq_true, decide_eq_true_eq, bne_iff_ne, ne_eq, Bool.not_eq_true'] at h
  obtain ⟨⟨⟨⟨hlo, hq⟩, hb⟩, _⟩, hhtml⟩ := h
  have hne : ∀ d : UInt8, d < 0x20 → c ≠ d := by
    rintro d hd rfl
    exact absurd hlo (UInt8.not_le.mpr hd)
  simp [quoteRune, hq, hb, hne 0x08 (by decide), hne 0x0c (by decide), hne 0x0a (by decide),
    hne 0x0d (by decide), hne 0x09 (by decide), hhtml, UInt8.not_lt.mpr hlo]

/-- A string of such octets is written as it is. -/
theorem quote_safe {s : Bytes} (h : s.all safe = true) : quote s = 0x22 :: s ++ [0x22] := by
  have hbody : quoteBody s = s := by
    induction s with
    | nil => rfl
    | cons c cs ih =>
        rw [List.all_cons, Bool.and_eq_true] at h
        have hc : c < 0x80 := by
          have hsafe := h.1
          simp only [safe, Bool.and_eq_true, decide_eq_true_eq] at hsafe
          exact hsafe.1.2
        have hcs : (runes cs).flatMap quoteRune = cs := ih h.2
        rw [quoteBody, runes_ascii_cons hc, List.flatMap_cons, quoteRune_safe h.1, hcs]
        rfl
  rw [quote, hbody]

/-- A literal of such octets is read as it stands. -/
theorem unquote_safe {s : Bytes} (h : s.all safe = true) : unquote (0x22 :: s ++ [0x22]) = s := by
  have hutf8 : validUtf8 s = true := validUtf8_of_ascii fun c hc => by
    have hsafe := List.all_eq_true.mp h c hc
    simp only [safe, Bool.and_eq_true, decide_eq_true_eq] at hsafe
    exact hsafe.1.2
  rw [← quote_safe h, unquote_quote hutf8]

theorem wellFormed_encodeRune (n : Nat) : (encodeRune n).wellFormed = true := by
  unfold encodeRune
  split
  · next h => simp [Rune.wellFormed, UInt8.lt_iff_toNat_lt]; omega
  split
  · next h1 h2 =>
    simp [Rune.wellFormed, Rune.isTwo, Rune.cont, UInt8.le_iff_toNat_le]
    omega
  split
  · rfl
  split
  · next h1 h2 h3 h4 =>
    simp only [Rune.wellFormed, Rune.isThree, Rune.cont, UInt8.le_iff_toNat_le, ← UInt8.toNat_inj,
      Bool.and_eq_true, Bool.or_eq_true, decide_eq_true_eq, beq_iff_eq]
    simp
    omega
  · next h1 h2 h3 h4 =>
    simp only [Rune.wellFormed, Rune.isFour, Rune.cont, UInt8.le_iff_toNat_le, ← UInt8.toNat_inj,
      Bool.and_eq_true, Bool.or_eq_true, decide_eq_true_eq, beq_iff_eq]
    simp
    omega

theorem wellFormed_repair {r : Rune} (h : r.wellFormed = true ∨ ∃ a, r = .bad a) :
    (repair r).wellFormed = true := by
  rcases h with h | ⟨a, rfl⟩
  · rw [repair_of_wellFormed h]
    exact h
  · rfl

theorem wellFormed_unescape {r : Rune} (h : r.wellFormed = true ∨ ∃ a, r = .bad a) :
    (unescape r).wellFormed = true := by
  cases r with
  | one c =>
      have hc : c < 0x80 := by
        rcases h with h | ⟨_, h⟩
        · simpa [Rune.wellFormed] using h
        · exact absurd h (by simp)
      simp only [unescape, Rune.wellFormed, decide_eq_true_eq]
      split_ifs <;> first | decide | exact hc
  | two a b => exact wellFormed_repair h
  | three a b c => exact wellFormed_repair h
  | four a b c d => exact wellFormed_repair h
  | bad a => exact wellFormed_repair h

/-- Every plain token the lexer emits is well formed. -/
theorem wellFormed_of_plain_mem_tokens {rs : List Rune}
    (h : ∀ r ∈ rs, r.wellFormed = true ∨ ∃ a, r = .bad a) {r : Rune} (hr : .plain r ∈ tokens rs) :
    r.wellFormed = true := by
  induction hn : rs.length using Nat.strong_induction_on generalizing rs with
  | _ n ih =>
    cases rs with
    | nil => simp [tokens] at hr
    | cons q t =>
        rw [tokens_cons] at hr
        have hstep : ∀ t' : List Rune, t'.length < n → (∀ r ∈ t', r ∈ q :: t) →
            Token.plain r ∈ tokens t' → r.wellFormed = true := fun t' hlt hsub hmem =>
          ih _ hlt (fun x hx => h x (hsub x hx)) hmem rfl
        by_cases hq : q = .one 0x5c
        · rw [if_pos hq] at hr
          cases t with
          | nil => simp at hr
          | cons e t₁ =>
              by_cases he : e = .one 0x75
              · simp only [he, if_true] at hr
                split at hr
                · next h₁ h₂ h₃ h₄ t₂ =>
                  simp only [List.mem_cons, reduceCtorEq, false_or] at hr
                  exact hstep t₂ (by simp only [List.length_cons] at hn; omega) (by grind) hr
                · simp at hr
              · simp only [he, if_false, List.mem_cons, Token.plain.injEq] at hr
                rcases hr with rfl | hr
                · exact wellFormed_unescape (h e (by simp))
                · exact hstep t₁ (by simp only [List.length_cons] at hn; omega) (by grind) hr
        · rw [if_neg hq] at hr
          simp only [List.mem_cons, Token.plain.injEq] at hr
          rcases hr with rfl | hr
          · exact wellFormed_repair (h q (by simp))
          · exact hstep t (by simp only [List.length_cons] at hn; omega) (by grind) hr

theorem wellFormed_of_mem_joinUnits {ts : List Token}
    (h : ∀ r, Token.plain r ∈ ts → r.wellFormed = true) {r : Rune} (hr : r ∈ joinUnits ts) :
    r.wellFormed = true := by
  fun_induction joinUnits ts with
  | case1 => simp at hr
  | case2 q t ih =>
      rcases List.mem_cons.mp hr with rfl | hr
      · exact h _ (by simp)
      · exact ih (fun x hx => h x (by simp [hx])) hr
  | case3 n m t _ ih =>
      rcases List.mem_cons.mp hr with heq | hr
      · rw [heq]
        exact wellFormed_encodeRune _
      · exact ih (fun x hx => h x (by simp [hx])) hr
  | case4 n m t _ ih =>
      rcases List.mem_cons.mp hr with heq | hr
      · rw [heq]
        exact wellFormed_encodeRune _
      · exact ih (fun x hx => h x (List.mem_cons_of_mem _ hx)) hr
  | case5 n t _ ih =>
      rcases List.mem_cons.mp hr with heq | hr
      · rw [heq]
        exact wellFormed_encodeRune _
      · exact ih (fun x hx => h x (List.mem_cons_of_mem _ hx)) hr

theorem validUtf8_bytes {r : Rune} (h : r.wellFormed = true) : validUtf8 r.bytes = true := by
  have := validUtf8_bytes_append h []
  rwa [List.append_nil] at this

/-- **A decoded Go string is valid UTF-8**, whatever octets the literal held. -/
theorem validUtf8_unquote (lit : Bytes) : validUtf8 (unquote lit) = true :=
  validUtf8_flatMap fun _ hr => validUtf8_bytes
    (wellFormed_of_mem_joinUnits
      (fun _ hx => wellFormed_of_plain_mem_tokens (fun _ hy => wellFormed_or_bad_of_mem_runes hy) hx)
      hr)

end LocalPlatform.Codec.Json
