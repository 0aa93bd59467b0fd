/-
# LocalPlatform.Codec.Json.Scan — the JSON scanner as a pushdown automaton.

`encoding/json` validates, delimits and compacts JSON text with one byte-at-a-time scanner: a mode
(the `step` function of `scanner.go`) and a stack of the composite values still open.  `Scan` is that
scanner; `step` is total and feeds it one octet; an error is a mode that nothing leaves.

Two readers sit on top of it.  `valid` is `json.Valid`: the whole text is one value with white space
around it.  `takeValue` delimits the value at the front of a text and leaves the rest, which is how
the decoder captures a `json.RawMessage`.  The facts a capture needs are proved once: what is taken is
a prefix of the text, it is a value on its own, and it is taken again from any text it is put in front
of, as long as that text does not go on with a number.

The nesting bound (`maxNestingDepth`) is a parameter, because a value captured inside an object is
scanned with one level less than the same value alone.
-/
import LocalPlatform.Codec.Bytes

namespace LocalPlatform.Codec.Json

/-- White space between the tokens of a JSON text. -/
def isSpace (c : UInt8) : Bool := c == 0x20 || c == 0x09 || c == 0x0a || c == 0x0d

/-- What the scanner expects next. -/
inductive Mode where
  | beginValue
  /-- After `[`: a value, or `]` at once. -/
  | beginValueOrEmpty
  | beginString
  /-- After an opening brace: a key, or the closing brace at once. -/
  | beginStringOrEmpty
  | endValue
  | inString
  | esc
  /-- Inside `\uXXXX` with so many hexadecimal digits to come. -/
  | escU (left : Nat)
  /-- After `-`. -/
  | neg
  /-- After a leading `0`. -/
  | zero
  | int
  /-- After the decimal point. -/
  | dot
  | frac
  | exp
  | expSign
  | expDigits
  /-- Inside `true`, `false` or `null`, with these octets to come. -/
  | lit (left : Bytes)
  | error
  deriving DecidableEq, Repr

/-- A number may end in this mode. -/
def Mode.numberEnd : Mode → Bool
  | .zero | .int | .frac | .expDigits => true
  | _ => false

/-- A composite value still open, and which part of it the scanner is in. -/
inductive Frame where
  | key
  | value
  | array
  deriving DecidableEq, Repr

/-- The scanner: what it expects, and the composites it is inside of, innermost first. -/
structure Scan where
  mode : Mode
  stack : List Frame
  deriving DecidableEq, Repr

namespace Scan

/-- The scanner in front of a text. -/
def init : Scan := ⟨.beginValue, []⟩

def fail (s : Scan) : Scan := { s with mode := .error }

/-- Enter a composite value, within the nesting bound. -/
def push (lim : Nat) (s : Scan) (f : Frame) (m : Mode) : Scan :=
  if s.stack.length < lim then ⟨m, f :: s.stack⟩ else s.fail

/-- The first octet of a value. -/
def stateBeginValue (lim : Nat) (s : Scan) (c : UInt8) : Scan :=
  if isSpace c then s
  else if c = 0x7b then s.push lim .key .beginStringOrEmpty   -- '{'
  else if c = 0x5b then s.push lim .array .beginValueOrEmpty  -- '['
  else if c = 0x22 then { s with mode := .inString }          -- '"'
  else if c = 0x2d then { s with mode := .neg }               -- '-'
  else if c = 0x30 then { s with mode := .zero }              -- '0'
  else if c = 0x74 then { s with mode := .lit [0x72, 0x75, 0x65] }        -- t|rue
  else if c = 0x66 then { s with mode := .lit [0x61, 0x6c, 0x73, 0x65] }  -- f|alse
  else if c = 0x6e then { s with mode := .lit [0x75, 0x6c, 0x6c] }        -- n|ull
  else if 0x31 ≤ c ∧ c ≤ 0x39 then { s with mode := .int }
  else s.fail

/-- The octet after a complete value: it closes, continues or separates the innermost composite. -/
def stateEndValue (s : Scan) (c : UInt8) : Scan :=
  if isSpace c then { s with mode := .endValue }
  else match s.stack with
    | [] => s.fail
    | .key :: up => if c = 0x3a then ⟨.beginValue, .value :: up⟩ else s.fail  -- ':'
    | .value :: up =>
      if c = 0x2c then ⟨.beginString, .key :: up⟩  -- ','
      else if c = 0x7d then ⟨.endValue, up⟩        -- '}'
      else s.fail
    | .array :: up =>
      if c = 0x2c then ⟨.beginValue, .array :: up⟩
      else if c = 0x5d then ⟨.endValue, up⟩        -- ']'
      else s.fail

/-- The octets that may follow a backslash in a string, `u` apart. -/
def isEscape (c : UInt8) : Bool :=
  c == 0x62 || c == 0x66 || c == 0x6e || c == 0x72 || c == 0x74 || c == 0x5c || c == 0x2f || c == 0x22

/-- **`step lim s c`** — the scanner after one more octet. -/
def step (lim : Nat) (s : Scan) (c : UInt8) : Scan :=
  match s.mode with
  | .beginValue => s.stateBeginValue lim c
  | .beginValueOrEmpty =>
    if c = 0x5d then s.stateEndValue c else s.stateBeginValue lim c
  | .beginString =>
    if isSpace c then s else if c = 0x22 then { s with mode := .inString } else s.fail
  | .beginStringOrEmpty =>
    if isSpace c then s
    else if c = 0x22 then { s with mode := .inString }
    else if c = 0x7d then ({ s with stack := .value :: s.stack.tail } : Scan).stateEndValue c
    else s.fail
  | .endValue => s.stateEndValue c
  | .inString =>
    if c = 0x22 then { s with mode := .endValue }
    else if c = 0x5c then { s with mode := .esc }
    else if c < 0x20 then s.fail
    else s
  | .esc =>
    if c = 0x75 then { s with mode := .escU 4 }
    else if isEscape c then { s with mode := .inString }
    else s.fail
  | .escU n =>
    if isHex c then { s with mode := if n ≤ 1 then .inString else .escU (n - 1) } else s.fail
  | .neg =>
    if c = 0x30 then { s with mode := .zero }
    else if 0x31 ≤ c ∧ c ≤ 0x39 then { s with mode := .int }
    else s.fail
  | .zero =>
    if c = 0x2e then { s with mode := .dot }
    else if c = 0x65 ∨ c = 0x45 then { s with mode := .exp }
    else s.stateEndValue c
  | .int =>
    if isDigit c then s
    else if c = 0x2e then { s with mode := .dot }
    else if c = 0x65 ∨ c = 0x45 then { s with mode := .exp }
    else s.stateEndValue c
  | .dot => if isDigit c then { s with mode := .frac } else s.fail
  | .frac =>
    if isDigit c then s
    else if c = 0x65 ∨ c = 0x45 then { s with mode := .exp }
    else s.stateEndValue c
  | .exp =>
    if c = 0x2b ∨ c = 0x2d then { s with mode := .expSign }
    else if isDigit c then { s with mode := .expDigits }
    else s.fail
  | .expSign => if isDigit c then { s with mode := .expDigits } else s.fail
  | .expDigits => if isDigit c then s else s.stateEndValue c
  | .lit [] => s.stateEndValue c
  | .lit [b] => if c = b then { s with mode := .endValue } else s.fail
  | .lit (b :: left) => if c = b then { s with mode := .lit left } else s.fail
  | .error => s

/-- The scanner after a whole text. -/
def run (lim : Nat) (s : Scan) (bs : Bytes) : Scan := bs.foldl (step lim) s

/-- Nothing is open: what was read so far is a complete value. -/
def closed (s : Scan) : Bool := s.stack.isEmpty && (s.mode == .endValue || s.mode.numberEnd)

/-- The octet goes on with the number the scanner is in. -/
def continues (m : Mode) (c : UInt8) : Bool :=
  match m with
  | .zero => c == 0x2e || c == 0x65 || c == 0x45
  | .int => isDigit c || c == 0x2e || c == 0x65 || c == 0x45
  | .frac => isDigit c || c == 0x65 || c == 0x45
  | .expDigits => isDigit c
  | _ => false

@[simp] theorem run_nil (lim : Nat) (s : Scan) : run lim s [] = s := rfl

@[simp] theorem run_cons (lim : Nat) (s : Scan) (c : UInt8) (cs : Bytes) :
    run lim s (c :: cs) = run lim (step lim s c) cs := rfl

theorem run_append (lim : Nat) (s : Scan) (a b : Bytes) :
    run lim s (a ++ b) = run lim (run lim s a) b := List.foldl_append

/-! ## Errors are final -/

theorem run_error (lim : Nat) {s : Scan} (h : s.mode = .error) (bs : Bytes) :
    run lim s bs = s := by
  induction bs with
  | nil => rfl
  | cons c cs ih =>
      have hstep : step lim s c = s := by simp only [step, h]
      rw [run_cons, hstep, ih]

theorem closed_ne_error {s : Scan} (h : s.closed = true) : s.mode ≠ .error := by
  intro he
  simp [closed, he, Mode.numberEnd] at h

/-- A scan that ends on a complete value met no error on the way. -/
theorem step_ne_error_of_closed {lim : Nat} {s : Scan} {c : UInt8} {cs : Bytes}
    (h : (run lim s (c :: cs)).closed = true) : (step lim s c).mode ≠ .error := by
  intro he
  rw [run_cons, run_error lim he] at h
  exact closed_ne_error h he

/-! ## The nesting bound only ever refuses -/

theorem push_mono {lim lim' : Nat} (hle : lim ≤ lim') {s : Scan} {f : Frame} {m : Mode}
    (h : (s.push lim f m).mode ≠ .error) : s.push lim' f m = s.push lim f m := by
  unfold push at h ⊢
  by_cases hlt : s.stack.length < lim
  · rw [if_pos hlt, if_pos (Nat.lt_of_lt_of_le hlt hle)]
  · rw [if_neg hlt] at h
    exact absurd rfl h

theorem stateBeginValue_mono {lim lim' : Nat} (hle : lim ≤ lim') {s : Scan} {c : UInt8}
    (h : (s.stateBeginValue lim c).mode ≠ .error) :
    s.stateBeginValue lim' c = s.stateBeginValue lim c := by
  unfold stateBeginValue at h ⊢
  by_cases h1 : isSpace c = true
  · rw [if_pos h1, if_pos h1]
  · rw [if_neg h1] at h
    rw [if_neg h1, if_neg h1]
    by_cases h2 : c = 0x7b
    · rw [if_pos h2] at h
      rw [if_pos h2, if_pos h2]
      exact push_mono hle h
    · rw [if_neg h2] at h
      rw [if_neg h2, if_neg h2]
      by_cases h3 : c = 0x5b
      · rw [if_pos h3] at h
        rw [if_pos h3, if_pos h3]
        exact push_mono hle h
      · rw [if_neg h3, if_neg h3]

theorem step_mono {lim lim' : Nat} (hle : lim ≤ lim') {s : Scan} {c : UInt8}
    (h : (step lim s c).mode ≠ .error) : step lim' s c = step lim s c := by
  obtain ⟨m, st⟩ := s
  cases m with
  | beginValue => exact stateBeginValue_mono hle h
  | beginValueOrEmpty =>
      simp only [step] at h ⊢
      by_cases hc : c = 0x5d
      · rw [if_pos hc, if_pos hc]
      · rw [if_neg hc] at h
        rw [if_neg hc, if_neg hc]
        exact stateBeginValue_mono hle h
  | lit left =>
      cases left with
      | nil => rfl
      | cons b left => cases left <;> rfl
  | _ => rfl

/-- A scan that succeeds within a bound succeeds, step for step, within every larger bound. -/
theorem run_mono {lim lim' : Nat} (hle : lim ≤ lim') {s : Scan} {bs : Bytes}
    (h : (run lim s bs).closed = true) : run lim' s bs = run lim s bs := by
  induction bs generalizing s with
  | nil => rfl
  | cons c cs ih =>
      rw [run_cons, run_cons, step_mono hle (step_ne_error_of_closed h)]
      exact ih h

end Scan

open Scan

/-! ## `json.Valid` -/

/-- The depth at which `encoding/json` gives up. -/
def maxNestingDepth : Nat := 10000

/-- **`valid lim bs`** — `json.Valid`: `bs` is one JSON value, white space around it allowed. -/
def valid (lim : Nat) (bs : Bytes) : Bool := (run lim init bs).closed

theorem valid_mono {lim lim' : Nat} (hle : lim ≤ lim') {bs : Bytes} (h : valid lim bs = true) :
    valid lim' bs = true := by
  rw [valid, run_mono hle h]
  exact h

/-! ## Delimiting one value -/

/-- **`takeValue lim s bs`** — goes on with the value the scanner is in and splits `bs` where the
value ends; `none` when it does not end or is no JSON. -/
def takeValue (lim : Nat) (s : Scan) : Bytes → Option (Bytes × Bytes)
  | [] => if s.closed then some ([], []) else none
  | c :: cs =>
    if s.closed && !continues s.mode c then some ([], c :: cs)
    else if (step lim s c).mode = .error then none
    else (takeValue lim (step lim s c) cs).map fun p => (c :: p.1, p.2)

/-- The one inversion of `takeValue` on a non-empty text: the value ended, or it goes on. -/
theorem takeValue_cons {lim : Nat} {s : Scan} {c : UInt8} {cs v r : Bytes}
    (h : takeValue lim s (c :: cs) = some (v, r)) :
    (s.closed = true ∧ continues s.mode c = false ∧ v = [] ∧ r = c :: cs) ∨
    (¬ (s.closed = true ∧ continues s.mode c = false) ∧ (step lim s c).mode ≠ .error ∧
      ∃ v', v = c :: v' ∧ takeValue lim (step lim s c) cs = some (v', r)) := by
  rw [takeValue] at h
  by_cases hc : s.closed = true ∧ continues s.mode c = false
  · rw [if_pos (by simp [hc])] at h
    obtain ⟨rfl, rfl⟩ := Prod.mk.injEq .. ▸ Option.some.injEq .. ▸ h
    exact Or.inl ⟨hc.1, hc.2, rfl, rfl⟩
  · rw [if_neg (by simpa using hc)] at h
    by_cases he : (step lim s c).mode = .error
    · rw [if_pos he] at h
      exact absurd h (by simp)
    · rw [if_neg he] at h
      obtain ⟨⟨v', r'⟩, hp, hvr⟩ := Option.map_eq_some_iff.mp h
      obtain ⟨rfl, rfl⟩ := Prod.mk.injEq .. ▸ hvr
      exact Or.inr ⟨hc, he, v', rfl, hp⟩

/-- The step of `takeValue` inside a value that has not ended. -/
theorem takeValue_step {lim : Nat} {s : Scan} {c : UInt8} (cs : Bytes)
    (hc : ¬ (s.closed = true ∧ continues s.mode c = false)) (he : (step lim s c).mode ≠ .error) :
    takeValue lim s (c :: cs) =
      (takeValue lim (step lim s c) cs).map fun p => (c :: p.1, p.2) := by
  rw [takeValue, if_neg (by simpa using hc), if_neg he]

theorem takeValue_eq_append {lim : Nat} {s : Scan} {bs v r : Bytes}
    (h : takeValue lim s bs = some (v, r)) : bs = v ++ r := by
  induction bs generalizing s v with
  | nil =>
      unfold takeValue at h
      split at h
      · obtain ⟨rfl, rfl⟩ := Prod.mk.injEq .. ▸ Option.some.injEq .. ▸ h
        rfl
      · exact absurd h (by simp)
  | cons c cs ih =>
      rcases takeValue_cons h with ⟨_, _, rfl, rfl⟩ | ⟨_, _, v', rfl, hv'⟩
      · rfl
      · rw [List.cons_append, ← ih hv']

/-- What is taken leaves the scanner on a complete value. -/
theorem takeValue_closed {lim : Nat} {s : Scan} {bs v r : Bytes}
    (h : takeValue lim s bs = some (v, r)) : (run lim s v).closed = true := by
  induction bs generalizing s v with
  | nil =>
      unfold takeValue at h
      split at h
      · next hs =>
        obtain ⟨rfl, rfl⟩ := Prod.mk.injEq .. ▸ Option.some.injEq .. ▸ h
        exact hs
      · exact absurd h (by simp)
  | cons c cs ih =>
      rcases takeValue_cons h with ⟨hs, _, rfl, rfl⟩ | ⟨_, _, v', rfl, hv'⟩
      · exact hs
      · rw [run_cons]
        exact ih hv'

/-- A value is taken again from any text it is put in front of, unless that text goes on with it. -/
theorem takeValue_append {lim : Nat} {s : Scan} {bs v r : Bytes}
    (h : takeValue lim s bs = some (v, r)) {rest : Bytes}
    (hrest : ∀ c ∈ rest.head?, continues (run lim s v).mode c = false) :
    takeValue lim s (v ++ rest) = some (v, rest) := by
  induction bs generalizing s v with
  | nil =>
      have hs := takeValue_closed h
      have hv : v = [] := (List.append_eq_nil_iff.mp (takeValue_eq_append h).symm).1
      subst hv
      cases rest with
      | nil => rw [List.append_nil, takeValue, if_pos (by simpa using hs)]
      | cons c cs =>
          have hc := hrest c (by simp)
          rw [List.nil_append, takeValue, if_pos]
          simp only [run_nil] at hs hc
          rw [hs, hc]
          rfl
  | cons c cs ih =>
      rcases takeValue_cons h with ⟨hs, _, rfl, rfl⟩ | ⟨hc, he, v', rfl, hv'⟩
      · cases rest with
        | nil => rw [List.append_nil, takeValue, if_pos hs]
        | cons d ds =>
            have hd := hrest d (by simp)
            rw [run_nil] at hd
            rw [List.nil_append, takeValue, if_pos (by rw [hs, hd]; rfl)]
      · rw [List.cons_append, takeValue_step _ hc he, ih hv' (by simpa using hrest)]
        rfl

/-- **`IsValue lim v`** — `v` is exactly one JSON value, with no white space around it. -/
structure IsValue (lim : Nat) (v : Bytes) : Prop where
  taken : takeValue lim init v = some (v, [])
  bare : ∀ c ∈ v.head?, isSpace c = false

/-- What is taken from a token on is a value on its own. -/
theorem isValue_of_takeValue {lim : Nat} {bs v r : Bytes} (h : takeValue lim init bs = some (v, r))
    (hbare : ∀ c ∈ bs.head?, isSpace c = false) : IsValue lim v := by
  have hv : takeValue lim init (v ++ []) = some (v, []) := takeValue_append h (by simp)
  rw [List.append_nil] at hv
  refine ⟨hv, fun c hc => hbare c ?_⟩
  rw [takeValue_eq_append h]
  cases v with
  | nil => simp at hc
  | cons d ds => simpa using hc

theorem IsValue.valid {lim : Nat} {v : Bytes} (h : IsValue lim v) : valid lim v = true :=
  takeValue_closed h.taken

theorem IsValue.ne_nil {lim : Nat} {v : Bytes} (h : IsValue lim v) : v ≠ [] := by
  rintro rfl
  exact absurd h.taken (by simp [takeValue, closed, init, Mode.numberEnd])

/-- An octet no number goes on with: a separator, a closing bracket, white space. -/
def isDelimiter (c : UInt8) : Bool :=
  c == 0x2c || c == 0x7d || c == 0x5d || c == 0x3a || isSpace c

theorem continues_delimiter {c : UInt8} (h : isDelimiter c = true) (m : Mode) :
    continues m c = false := by
  simp only [isDelimiter, isSpace, Bool.or_eq_true, beq_iff_eq] at h
  rcases h with (((rfl | rfl) | rfl) | rfl) | ((rfl | rfl) | rfl) | rfl <;> cases m <;> rfl

/-- **A captured value can be put anywhere**: in front of a delimiter it is delimited again. -/
theorem IsValue.takeValue_append {lim : Nat} {v : Bytes} (h : IsValue lim v) {c : UInt8}
    (hc : isDelimiter c = true) (rest : Bytes) :
    takeValue lim init (v ++ c :: rest) = some (v, c :: rest) := by
  refine Json.takeValue_append h.taken ?_
  intro d hd
  obtain rfl : c = d := by simpa using hd
  exact continues_delimiter hc _

/-- Behind a number that ends, what counts is the composite around it. -/
theorem step_numberEnd {lim : Nat} {s : Scan} {c : UInt8} (hs : s.mode.numberEnd = true)
    (hc : continues s.mode c = false) : step lim s c = s.stateEndValue c := by
  obtain ⟨m, st⟩ := s
  cases m with
  | zero =>
      simp only [continues, Bool.or_eq_false_iff, beq_eq_false_iff_ne, ne_eq] at hc
      simp only [step, hc, or_self, if_false]
  | int =>
      simp only [continues, Bool.or_eq_false_iff, beq_eq_false_iff_ne, ne_eq] at hc
      simp only [step, hc, or_self, if_false, Bool.false_eq_true]
  | frac =>
      simp only [continues, Bool.or_eq_false_iff, beq_eq_false_iff_ne, ne_eq] at hc
      simp only [step, hc, or_self, if_false, Bool.false_eq_true]
  | expDigits =>
      simp only [continues] at hc
      simp only [step, hc, if_false, Bool.false_eq_true]
  | _ => exact absurd hs (by simp [Mode.numberEnd])

theorem stateEndValue_congr {s t : Scan} (h : s.stack = t.stack) (c : UInt8) :
    s.stateEndValue c = t.stateEndValue c := by
  obtain ⟨m, st⟩ := s
  obtain ⟨m', st'⟩ := t
  obtain rfl : st = st' := h
  rfl

/-! ## No NUL -/

namespace Scan

/-- A literal the scanner is inside of has lower-case letters to come. -/
def Lettered (s : Scan) : Prop := ∀ left, s.mode = .lit left → left ≠ [] ∧ ∀ b ∈ left, 0x61 ≤ b ∧ b ≤ 0x7a

theorem lettered_of_mode {s : Scan} (h : ∀ left, s.mode ≠ .lit left) : s.Lettered := fun left hl => absurd hl (h left)

theorem lettered_fail (s : Scan) : s.fail.Lettered := lettered_of_mode (by simp [fail])

theorem lettered_init : init.Lettered := lettered_of_mode (by simp [init])

theorem lettered_ite {p : Prop} [Decidable p] {a b : Scan} (ha : a.Lettered) (hb : b.Lettered) :
    (if p then a else b).Lettered := by
  split
  · exact ha
  · exact hb

theorem lettered_lit {left : Bytes} (h : left ≠ [] ∧ ∀ b ∈ left, 0x61 ≤ b ∧ b ≤ 0x7a) (stk : List Frame) :
    (Scan.mk (.lit left) stk).Lettered := by
  intro left' hl
  obtain rfl := Mode.lit.inj hl
  exact h

theorem lettered_stateEndValue (s : Scan) (c : UInt8) : (s.stateEndValue c).Lettered := by
  apply lettered_of_mode
  intro left
  unfold stateEndValue
  repeat' split
  all_goals simp [fail]

theorem lettered_stateBeginValue {lim : Nat} {s : Scan} (hs : s.Lettered) (c : UInt8) :
    (s.stateBeginValue lim c).Lettered := by
  have hpush : ∀ f m, (∀ left, m ≠ .lit left) → (s.push lim f m).Lettered := by
    intro f m hm
    exact lettered_ite (lettered_of_mode hm) (lettered_fail s)
  unfold stateBeginValue
  refine lettered_ite hs (lettered_ite (hpush _ _ (by simp)) (lettered_ite (hpush _ _ (by simp)) ?_))
  repeat' apply lettered_ite
  all_goals first
    | exact lettered_lit (by decide +kernel) _
    | exact lettered_of_mode (by simp [fail])

theorem lettered_step {lim : Nat} {s : Scan} (hs : s.Lettered) (c : UInt8) : (step lim s c).Lettered := by
  cases hmode : s.mode with
  | lit left =>
      rcases left with _ | ⟨b, _ | ⟨b', left⟩⟩
      · simp only [step, hmode]
        exact lettered_stateEndValue s c
      · simp only [step, hmode]
        exact lettered_ite (lettered_of_mode (by simp)) (lettered_fail s)
      · simp only [step, hmode]
        obtain ⟨_, hleft⟩ := hs _ hmode
        exact lettered_ite (lettered_lit ⟨by simp, fun d hd => hleft d (List.mem_cons_of_mem b hd)⟩ _) (lettered_fail s)
  | _ =>
      simp only [step, hmode]
      repeat' split
      all_goals first
        | exact lettered_stateBeginValue hs c
        | exact lettered_stateEndValue _ c
        | exact lettered_fail s
        | exact hs
        | exact lettered_of_mode (by simp)

/-- A literal the scanner is inside of has no NUL octet to come. -/
def NulFree (s : Scan) : Prop := ∀ left, s.mode = .lit left → (0 : UInt8) ∉ left

theorem Lettered.nulFree {s : Scan} (hs : s.Lettered) : s.NulFree := by
  intro left hl hmem
  exact absurd ((hs left hl).2 0 hmem).1 (by decide)

/-- No JSON goes on with a NUL octet. -/
theorem step_nul {lim : Nat} {s : Scan} (hs : s.NulFree) : (step lim s 0).mode = .error := by
  have hend : ∀ t : Scan, (t.stateEndValue 0).mode = .error := by
    intro t
    unfold stateEndValue
    rw [if_neg (by decide)]
    split <;> rfl
  cases hmode : s.mode with
  | lit left =>
      rcases left with _ | ⟨b, left⟩
      · simp only [step, hmode]
        exact hend s
      · have hb : (0 : UInt8) ≠ b := fun h0 => hs _ hmode (by rw [h0]; exact List.mem_cons_self)
        cases left <;> simp only [step, hmode, hb, if_false] <;> rfl
  | error =>
      simp only [step, hmode]
  | _ =>
      simp only [step, hmode]
      first
        | rfl
        | exact hend _

end Scan

/-- **JSON holds no NUL octet.** -/
theorem nul_notMem_of_valid {lim : Nat} {bs : Bytes} (h : valid lim bs = true) : (0 : UInt8) ∉ bs := by
  have hrun : ∀ bs : Bytes, ∀ s : Scan, s.Lettered → (run lim s bs).closed = true → (0 : UInt8) ∉ bs := by
    intro bs
    induction bs with
    | nil => simp
    | cons c cs ih =>
        intro s hs hclosed hmem
        rw [run_cons] at hclosed
        rcases List.mem_cons.mp hmem with rfl | hmem
        · rw [run_error lim (step_nul hs.nulFree)] at hclosed
          exact closed_ne_error hclosed (step_nul hs.nulFree)
        · exact ih (step lim s c) (lettered_step hs c) hclosed hmem
  exact hrun bs init lettered_init h

end LocalPlatform.Codec.Json
