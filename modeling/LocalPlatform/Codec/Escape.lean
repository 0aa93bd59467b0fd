/-
# LocalPlatform.Codec.Escape — percent escapes, and the unpadded URL-safe base64.

`escape` is the one of `net/url`: an octet stands for itself or is written as `%XX`, and which octets stand for
themselves depends on the part of the URL the text is put into; in a query a blank is written as `+`.  Whatever the part,
an escaped text is at least as long as the text and at most three times as long.
-/
import LocalPlatform.Codec.Base64

namespace LocalPlatform.Codec.Escape

/-- The part of a URL a text is put into: `encodeUserPassword`, `encodeHost` or `encodeQueryComponent`. -/
inductive Mode where
  | userPassword
  | host
  | queryComponent
  deriving DecidableEq

/-- A letter or a digit. -/
def isAlphanumeric (c : UInt8) : Bool :=
  decide (0x61 ≤ c ∧ c ≤ 0x7a ∨ 0x41 ≤ c ∧ c ≤ 0x5a ∨ 0x30 ≤ c ∧ c ≤ 0x39)

/-- The octets a host may hold besides letters and digits: the sub-delimiters, a colon, brackets and quotes. -/
def hostPunctuation : Bytes := ascii "!$&'()*+,;=:[]<>\""

/-- `shouldEscape` -/
def shouldEscape (c : UInt8) (mode : Mode) : Bool :=
  if isAlphanumeric c = true then false
  else if mode = .host ∧ c ∈ hostPunctuation then false
  else if c ∈ ascii "-_.~" then false
  else if c ∈ ascii "$&+,/:;=?@" then
    match mode with
    | .userPassword => c == 0x40 || c == 0x2f || c == 0x3f || c == 0x3a
    | .host | .queryComponent => true
  else true

/-- A hexadecimal digit in upper case. -/
def upperHex (n : Nat) : UInt8 := if n < 10 then UInt8.ofNat (48 + n) else UInt8.ofNat (55 + n)

/-- What is written for an octet. -/
def escapeOctet (mode : Mode) (c : UInt8) : Bytes :=
  if shouldEscape c mode = true then
    if c = 0x20 ∧ mode = .queryComponent then [0x2b] else [0x25, upperHex (c.toNat / 16), upperHex (c.toNat % 16)]
  else [c]

/-- **`escape s mode`** -/
def escape (s : Bytes) (mode : Mode) : Bytes := s.flatMap (escapeOctet mode)

/-- `url.QueryEscape` -/
def queryEscape (s : Bytes) : Bytes := escape s .queryComponent

/-- `url.UserPassword(username, password).String()` -/
def userPassword (username password : Bytes) : Bytes :=
  escape username .userPassword ++ 0x3a :: escape password .userPassword

theorem length_escapeOctet (mode : Mode) (c : UInt8) : 1 ≤ (escapeOctet mode c).length ∧ (escapeOctet mode c).length ≤ 3 := by
  unfold escapeOctet
  split
  · split
    · exact ⟨by simp, by simp⟩
    · exact ⟨by simp, by simp⟩
  · exact ⟨by simp, by simp⟩

/-- **No shorter than the text, and no longer than three times the text.** -/
theorem length_escape (s : Bytes) (mode : Mode) :
    s.length ≤ (escape s mode).length ∧ (escape s mode).length ≤ 3 * s.length := by
  induction s with
  | nil => exact ⟨le_refl 0, le_refl 0⟩
  | cons c s ih =>
    have hc := length_escapeOctet mode c
    have hcons : escape (c :: s) mode = escapeOctet mode c ++ escape s mode := rfl
    rw [hcons, List.length_append, List.length_cons]
    omega

theorem hexVal_upperHex {n : Nat} (h : n < 16) : hexVal (upperHex n) = some n := by
  interval_cases n <;> rfl

/-- **What is escaped does not occur in an escaped text**, unless an escape is made of it. -/
theorem notMem_escape {d : UInt8} {mode : Mode} (hescaped : shouldEscape d mode = true) (hpercent : d ≠ 0x25) (hplus : d ≠ 0x2b)
    (hhex : hexVal d = none) (s : Bytes) : d ∉ escape s mode := by
  intro h
  obtain ⟨c, -, hc⟩ := List.mem_flatMap.mp h
  have hlt := c.toNat_lt
  have hdigit : ∀ n, n < 16 → d ≠ upperHex n := by
    rintro n hn rfl
    rw [hexVal_upperHex hn] at hhex
    cases hhex
  unfold escapeOctet at hc
  split at hc
  · split at hc
    · exact hplus (List.mem_singleton.mp hc)
    · simp only [List.mem_cons, List.not_mem_nil, or_false] at hc
      rcases hc with hc | hc | hc
      · exact hpercent hc
      · exact hdigit _ (by omega) hc
      · exact hdigit _ (by omega) hc
  · next hplain =>
    rw [← List.mem_singleton.mp hc] at hplain
    exact hplain hescaped

/-! ## Reading an escaped text -/

/-- `unescape s mode`, of any part but a host. -/
def unescape (mode : Mode) : Bytes → Option Bytes
  | 0x25 :: a :: b :: rest =>
    (hexVal a).bind fun i => (hexVal b).bind fun j => (unescape mode rest).map (UInt8.ofNat (16 * i + j) :: ·)
  | c :: rest =>
    if c = 0x25 then none
    else (unescape mode rest).map ((if c = 0x2b ∧ mode = .queryComponent then 0x20 else c) :: ·)
  | [] => some []

theorem unescape_cons {mode : Mode} {c : UInt8} (h : c ≠ 0x25) (rest : Bytes) :
    unescape mode (c :: rest) = (unescape mode rest).map ((if c = 0x2b ∧ mode = .queryComponent then 0x20 else c) :: ·) := by
  rw [unescape]
  · rw [if_neg h]
  · rintro a b rest' rfl -
    exact h rfl

theorem unescape_escapeOctet (mode : Mode) (c : UInt8) (rest : Bytes) :
    unescape mode (escapeOctet mode c ++ rest) = (unescape mode rest).map (c :: ·) := by
  have hlt := c.toNat_lt
  unfold escapeOctet
  split
  · split
    · next hblank =>
      rw [hblank.1, hblank.2, List.singleton_append, unescape_cons (by decide)]
      rfl
    · have hoctet : UInt8.ofNat (16 * (c.toNat / 16) + c.toNat % 16) = c := by
        rw [Nat.div_add_mod]
        exact UInt8.ofNat_toNat
      simp only [List.cons_append, List.nil_append, unescape, hexVal_upperHex (show c.toNat / 16 < 16 by omega),
        hexVal_upperHex (Nat.mod_lt c.toNat (by decide : 0 < 16)), Option.bind_some, hoctet]
  · next hplain =>
    have hpercent : c ≠ 0x25 := by
      rintro rfl
      exact hplain (by cases mode <;> decide)
    have hplus : ¬ (c = 0x2b ∧ mode = .queryComponent) := by
      rintro ⟨rfl, rfl⟩
      exact hplain (by decide)
    rw [List.singleton_append, unescape_cons hpercent, if_neg hplus]

/-- **An escaped text is read back.** -/
theorem unescape_escape (mode : Mode) (s : Bytes) : unescape mode (escape s mode) = some s := by
  induction s with
  | nil => rfl
  | cons c s ih =>
    have hcons : escape (c :: s) mode = escapeOctet mode c ++ escape s mode := rfl
    rw [hcons, unescape_escapeOctet mode, ih, Option.map_some]

end LocalPlatform.Codec.Escape

namespace LocalPlatform.Codec.Base64

/-! ## The URL-safe alphabet without padding -/

/-- A letter of the URL-safe alphabet. -/
def urlLetter (c : UInt8) : UInt8 := if c = 0x2b then 0x2d else if c = 0x2f then 0x5f else c

/-- **`base64.RawURLEncoding.EncodeToString`** -/
def encodeRawURL (bs : Bytes) : Bytes := ((encode bs).filter (· ≠ pad)).map urlLetter

/-- The sextet of a letter of the URL-safe alphabet. -/
def urlSextet (c : UInt8) : Option Nat :=
  if c = 0x2d then some 62 else if c = 0x5f then some 63 else if c = 0x2b ∨ c = 0x2f then none else sextet c

/-- The octets four sextets carry, and those a last group of two or three carries. -/
def joinSextets : List Nat → Bytes
  | i :: j :: k :: l :: rest =>
    UInt8.ofNat (i * 4 + j / 16) :: UInt8.ofNat (j % 16 * 16 + k / 4) :: UInt8.ofNat (k % 4 * 64 + l) :: joinSextets rest
  | [i, j, k] => [UInt8.ofNat (i * 4 + j / 16), UInt8.ofNat (j % 16 * 16 + k / 4)]
  | [i, j] => [UInt8.ofNat (i * 4 + j / 16)]
  | _ => []

/-- **`base64.RawURLEncoding.DecodeString`**, which passes over line ends. -/
def decodeRawURL (cs : Bytes) : Option Bytes := do
  let sextets ← (cs.filter fun c => c ≠ 0x0a ∧ c ≠ 0x0d).mapM urlSextet
  if sextets.length % 4 = 1 then none else some (joinSextets sextets)

/-- Four letters for three octets, and what a last group of one or two takes. -/
theorem length_encodeRawURL (bs : Bytes) : (encodeRawURL bs).length = (4 * bs.length + 2) / 3 := by
  have hletter : ∀ n, n < 64 → (fun c => decide (c ≠ pad)) (letter n) = true := fun n hn =>
    decide_eq_true (letter_ne_pad hn)
  have hpad : (fun c => decide (c ≠ pad)) pad = false := by decide
  unfold encodeRawURL
  rw [List.length_map]
  induction bs using encode.induct with
  | case1 => rfl
  | case2 a =>
    have ha := a.toNat_lt
    rw [encode]
    simp only [List.filter_cons, List.filter_nil, hletter _ (show a.toNat / 4 < 64 by omega),
      hletter _ (show a.toNat % 4 * 16 < 64 by omega), hpad, if_true, Bool.false_eq_true, if_false]
    simp
  | case3 a b =>
    have ha := a.toNat_lt
    have hb := b.toNat_lt
    rw [encode]
    simp only [List.filter_cons, List.filter_nil, hletter _ (show a.toNat / 4 < 64 by omega),
      hletter _ (show a.toNat % 4 * 16 + b.toNat / 16 < 64 by omega), hletter _ (show b.toNat % 16 * 4 < 64 by omega),
      hpad, if_true, Bool.false_eq_true, if_false]
    simp
  | case4 a b c rest ih =>
    have ha := a.toNat_lt
    have hb := b.toNat_lt
    have hc := c.toNat_lt
    rw [encode]
    simp only [List.filter_cons, hletter _ (show a.toNat / 4 < 64 by omega),
      hletter _ (show a.toNat % 4 * 16 + b.toNat / 16 < 64 by omega),
      hletter _ (show b.toNat % 16 * 4 + c.toNat / 64 < 64 by omega), hletter _ (show c.toNat % 64 < 64 by omega),
      if_true, List.length_cons, ih]
    omega

end LocalPlatform.Codec.Base64
