/-
# LocalPlatform.Python.Json — writing a value as JSON, and reading a text of JSON.

`dumps` is `json.dump` with an indent of two, sorted keys and every other option left alone: a character
outside the printable ASCII ones is written as `\u` escapes, one beyond the basic plane as two of them.
`loads` is `json.loads`: besides JSON it takes `NaN` and `Infinity`, the last of equal keys wins, two
escapes that make a surrogate pair are one character, and an integer of more than 4300 digits is refused.

What is written is read back as the same value with its keys sorted (`loads_dumps`); the exception is a
string that holds the two halves of a pair side by side, which come back as the character they make.
-/
import LocalPlatform.Python.Decimal
import Mathlib.Data.List.Sort

namespace LocalPlatform.Python.Json

open Value (hexOf)

/-! ## Strings -/

/-- The first half of a surrogate pair. -/
def high (c : Nat) : Bool := 0xd800 ≤ c && c ≤ 0xdbff

/-- The second half of a surrogate pair. -/
def low (c : Nat) : Bool := 0xdc00 ≤ c && c ≤ 0xdfff

/-- The character two halves make. -/
def combine (h l : Nat) : Nat := 0x10000 + (h - 0xd800) * 0x400 + (l - 0xdc00)

/-- The `\u` escape of a code unit. -/
def unitEscape (n : Nat) : Str := lit "\\u" ++ hexOf 4 n

/-- What is written for a character inside the quotes. -/
def escape (c : Nat) : Str :=
  if c = 0x22 then lit "\\\""
  else if c = 0x5c then lit "\\\\"
  else if c = 0x0a then lit "\\n"
  else if c = 0x0d then lit "\\r"
  else if c = 0x09 then lit "\\t"
  else if c = 0x0c then lit "\\f"
  else if c = 0x08 then lit "\\b"
  else if 0x20 ≤ c ∧ c ≤ 0x7e then [c]
  else if c < 0x10000 then unitEscape c
  else unitEscape (0xd800 + (c - 0x10000) / 0x400) ++ unitEscape (0xdc00 + (c - 0x10000) % 0x400)

/-- A string in its quotes. -/
def quote (s : Str) : Str := [0x22] ++ s.flatMap escape ++ [0x22]

/-! ## Writing -/

/-- A new line, indented by two blanks a level. -/
def newline (level : Nat) : Str := 0x0a :: List.replicate (2 * level) 0x20

/-- Texts with a separator between them. -/
def joinWith (sep : Str) : List Str → Str
  | [] => []
  | [x] => x
  | x :: y :: xs => x ++ sep ++ joinWith sep (y :: xs)

/-- Texts between brackets, each on a line of its own. -/
def block (opening closing : Nat) (level : Nat) (texts : List Str) : Str :=
  if texts = [] then [opening, closing]
  else [opening] ++ newline (level + 1) ++ joinWith (lit "," ++ newline (level + 1)) texts ++ newline level ++ [closing]

/-- A float. -/
def floatText : Double → Str
  | .nan => lit "NaN"
  | .infinite negative => if negative then lit "-Infinity" else lit "Infinity"
  | x => x.repr

/-- Items by their keys. -/
def byKey {α : Type} (p q : Str × α) : Bool := decide (p.1 ≤ q.1)

mutual

/-- The text of a value at a level. -/
def dump (level : Nat) : Value → Str
  | .null => lit "null"
  | .bool b => if b then lit "true" else lit "false"
  | .int n => Value.reprInt n
  | .float x => floatText x
  | .str s => quote s
  | .list xs => block 0x5b 0x5d level (dumpAll (level + 1) xs)
  | .dict items =>
    block 0x7b 0x7d level (((dumpItems (level + 1) items).mergeSort byKey).map fun p => quote p.1 ++ lit ": " ++ p.2)

def dumpAll (level : Nat) : List Value → List Str
  | [] => []
  | x :: xs => dump level x :: dumpAll level xs

def dumpItems (level : Nat) : List (Str × Value) → List (Str × Str)
  | [] => []
  | (k, v) :: items => (k, dump level v) :: dumpItems level items

end

/-- `json.dump(v, file, indent=2, sort_keys=True)`, the text that goes to the file. -/
def dumps (v : Value) : Str := dump 0 v

/-! ## Reading -/

/-- JSON's blanks. -/
def isBlank (c : Nat) : Bool := c == 0x20 || c == 0x09 || c == 0x0a || c == 0x0d

/-- What is left behind blanks. -/
def skip (s : Str) : Str := s.dropWhile isBlank

/-- A character of a string as it stands in the text. -/
inductive CodeUnit where
  | raw (c : Nat)
  | escaped (n : Nat)

/-- The value of a hexadecimal digit. -/
def hexValue (c : Nat) : Option Nat :=
  if 0x30 ≤ c ∧ c ≤ 0x39 then some (c - 0x30)
  else if 0x61 ≤ c ∧ c ≤ 0x66 then some (c - 0x57)
  else if 0x41 ≤ c ∧ c ≤ 0x46 then some (c - 0x37)
  else none

/-- Four hexadecimal digits. -/
def hexFour (a b c d : Nat) : Option Nat :=
  (hexValue a).bind fun i => (hexValue b).bind fun j => (hexValue c).bind fun k => (hexValue d).map fun l =>
    4096 * i + 256 * j + 16 * k + l

/-- The escapes of one letter. -/
def letterEscape (c : Nat) : Option Nat :=
  if c = 0x22 ∨ c = 0x5c ∨ c = 0x2f then some c
  else if c = 0x62 then some 0x08
  else if c = 0x66 then some 0x0c
  else if c = 0x6e then some 0x0a
  else if c = 0x72 then some 0x0d
  else if c = 0x74 then some 0x09
  else none

/-- A string behind its opening quote, as it stands in the text, and what follows the closing one. -/
def scanUnits : Str → Option (List CodeUnit × Str)
  | 0x22 :: r => some ([], r)
  | 0x5c :: 0x75 :: a :: b :: c :: d :: r =>
    (hexFour a b c d).bind fun n => (scanUnits r).map fun p => (.escaped n :: p.1, p.2)
  | 0x5c :: e :: r => (letterEscape e).bind fun c => (scanUnits r).map fun p => (.raw c :: p.1, p.2)
  | c :: r => if c < 0x20 ∨ c = 0x5c then none else (scanUnits r).map fun p => (.raw c :: p.1, p.2)
  | [] => none

/-- Two escapes that make a pair are one character. -/
def joinUnits : List CodeUnit → Str
  | .escaped h :: .escaped l :: r =>
    if high h && low l then combine h l :: joinUnits r else h :: joinUnits (.escaped l :: r)
  | .escaped n :: r => n :: joinUnits r
  | .raw c :: r => c :: joinUnits r
  | [] => []

/-- `scanstring`, behind the opening quote -/
def scanString (s : Str) : Py (Str × Str) :=
  match scanUnits s with
  | some (units, r) => .ok (joinUnits units, r)
  | none => .error .jsonDecodeError

/-- `d[key] = v`: a key that is there keeps its place. -/
def setItem (d : Dict) (key : Str) (v : Value) : Dict :=
  if d.any fun p => p.1 == key then d.map fun p => if p.1 == key then (key, v) else p else d ++ [(key, v)]

/-- A fraction, if a digit follows the point. -/
def scanFraction : Str → Str × Str
  | 0x2e :: c :: r => if isDigit c then ((c :: r).takeWhile isDigit, (c :: r).dropWhile isDigit) else ([], 0x2e :: c :: r)
  | r => ([], r)

/-- An exponent, if a digit follows it. -/
def scanExponent (s : Str) : Option ℤ × Str :=
  match s with
  | e :: r =>
    if e = 0x65 ∨ e = 0x45 then
      let (negative, digits) := match r with
        | 0x2d :: ds => (true, ds)
        | 0x2b :: ds => (false, ds)
        | ds => (false, ds)
      let n := digits.takeWhile isDigit
      if n = [] then (none, s)
      else (some (if negative then -(Decimal.digitsValue n : ℤ) else Decimal.digitsValue n), digits.dropWhile isDigit)
    else (none, s)
  | [] => (none, s)

/-- A number behind its sign; `int` refuses more than 4300 digits. -/
def scanNumber (negative : Bool) (s : Str) : Py (Value × Str) :=
  let whole := if s.head? = some 0x30 then [0x30] else s.takeWhile isDigit
  if whole = [] then .error .jsonDecodeError
  else
    let (fraction, r) := scanFraction (s.drop whole.length)
    let (exponent, r) := scanExponent r
    if fraction = [] ∧ exponent = none then
      if 4300 < whole.length then .error .valueError
      else
        let n : ℤ := Decimal.digitsValue whole
        .ok (.int (if negative then -n else n), r)
    else
      let q : ℚ := Decimal.digitsValue (whole ++ fraction) * 10 ^ (exponent.getD 0 - fraction.length)
      .ok (.float (Double.ofMagnitude negative q), r)

/-- A constant. -/
def scanConstant (name : Str) (v : Value) (s : Str) : Py (Value × Str) :=
  if name.isPrefixOf s then .ok (v, s.drop name.length) else .error .jsonDecodeError

mutual

/-- `scan_once`.  Each call takes a character of the text, so that its length is fuel enough. -/
def scan : Nat → Str → Py (Value × Str)
  | 0, _ => .error .jsonDecodeError
  | n + 1, s =>
    match s with
    | 0x22 :: r => do
      let (t, r) ← scanString r
      return (.str t, r)
    | 0x7b :: r =>
      match skip r with
      | 0x7d :: r => .ok (.dict [], r)
      | r => do
        let (items, r) ← scanMembers n r
        return (.dict (items.foldl (fun d p => setItem d p.1 p.2) []), r)
    | 0x5b :: r =>
      match skip r with
      | 0x5d :: r => .ok (.list [], r)
      | r => do
        let (xs, r) ← scanElements n r
        return (.list xs, r)
    | 0x6e :: _ => scanConstant (lit "null") .null s
    | 0x74 :: _ => scanConstant (lit "true") (.bool true) s
    | 0x66 :: _ => scanConstant (lit "false") (.bool false) s
    | 0x4e :: _ => scanConstant (lit "NaN") (.float .nan) s
    | 0x49 :: _ => scanConstant (lit "Infinity") (.float (.infinite false)) s
    | 0x2d :: 0x49 :: _ => scanConstant (lit "-Infinity") (.float (.infinite true)) s
    | 0x2d :: r => scanNumber true r
    | s => scanNumber false s

/-- The elements of an array, to its end. -/
def scanElements : Nat → Str → Py (List Value × Str)
  | 0, _ => .error .jsonDecodeError
  | n + 1, s => do
    let (x, r) ← scan n s
    match skip r with
    | 0x5d :: r => return ([x], r)
    | 0x2c :: r => do
      let (xs, r) ← scanElements n (skip r)
      return (x :: xs, r)
    | _ => throw .jsonDecodeError

/-- The members of an object, to its end. -/
def scanMembers : Nat → Str → Py (List (Str × Value) × Str)
  | 0, _ => .error .jsonDecodeError
  | n + 1, s => do
    match s with
    | 0x22 :: r => do
      let (key, r) ← scanString r
      match skip r with
      | 0x3a :: r => do
        let (v, r) ← scan n (skip r)
        match skip r with
        | 0x7d :: r => return ([(key, v)], r)
        | 0x2c :: r => do
          let (items, r) ← scanMembers n (skip r)
          return ((key, v) :: items, r)
        | _ => throw .jsonDecodeError
      | _ => throw .jsonDecodeError
    | _ => throw .jsonDecodeError

end

/-- `json.loads` -/
def loads (s : Str) : Py Value :=
  match s with
  | 0xfeff :: _ => .error .jsonDecodeError
  | s => do
    let (v, r) ← scan (s.length + 1) (skip s)
    if skip r = [] then return v else throw .jsonDecodeError

/-! ## What is written comes back -/

/-- The two halves of a pair, side by side in a string, as the character they make. -/
def pairUp : Str → Str
  | h :: l :: r => if high h && low l then combine h l :: pairUp r else h :: pairUp (l :: r)
  | [c] => [c]
  | [] => []

/-- Every element is a code point. -/
def CodePoints (s : Str) : Prop := ∀ c ∈ s, c < 0x110000

instance (s : Str) : Decidable (CodePoints s) := inferInstanceAs (Decidable (∀ c ∈ s, c < 0x110000))

mutual

/-- A value as it is read back: keys sorted, pairs joined. -/
def readBack : Value → Value
  | .str s => .str (pairUp s)
  | .list xs => .list (readBackAll xs)
  | .dict items => .dict ((readBackItems items).mergeSort byKey)
  | v => v

def readBackAll : List Value → List Value
  | [] => []
  | x :: xs => readBack x :: readBackAll xs

def readBackItems : List (Str × Value) → List (Str × Value)
  | [] => []
  | (k, v) :: items => (k, readBack v) :: readBackItems items

end

/-- A value whose text is read back: no float, no integer `int` refuses, keys apart and without a pair in two
halves. -/
inductive Writable : Value → Prop
  | null : Writable .null
  | bool (b : Bool) : Writable (.bool b)
  | int (n : ℤ) (h : (decimal n.natAbs).length ≤ 4300) : Writable (.int n)
  | str (s : Str) (h : CodePoints s) : Writable (.str s)
  | list (xs : List Value) (h : ∀ x ∈ xs, Writable x) : Writable (.list xs)
  | dict (items : Dict) (hkeys : ∀ p ∈ items, CodePoints p.1 ∧ pairUp p.1 = p.1)
      (hnodup : (items.map Prod.fst).Nodup) (h : ∀ p ∈ items, Writable p.2) : Writable (.dict items)

/-! ### Strings -/

/-- What a character is in the text. -/
def unitsOf (c : Nat) : List CodeUnit :=
  if c = 0x22 ∨ c = 0x5c ∨ c = 0x0a ∨ c = 0x0d ∨ c = 0x09 ∨ c = 0x0c ∨ c = 0x08 ∨ 0x20 ≤ c ∧ c ≤ 0x7e then [.raw c]
  else if c < 0x10000 then [.escaped c]
  else [.escaped (0xd800 + (c - 0x10000) / 0x400), .escaped (0xdc00 + (c - 0x10000) % 0x400)]

/-- A character written as one escape. -/
theorem unitsOf_basic {c : Nat} (hletter : ¬ (c = 0x22 ∨ c = 0x5c ∨ c = 0x0a ∨ c = 0x0d ∨ c = 0x09 ∨ c = 0x0c ∨ c = 0x08))
    (hplain : ¬ (0x20 ≤ c ∧ c ≤ 0x7e)) (hbasic : c < 0x10000) : unitsOf c = [.escaped c] := by
  have hnot : ¬ (c = 0x22 ∨ c = 0x5c ∨ c = 0x0a ∨ c = 0x0d ∨ c = 0x09 ∨ c = 0x0c ∨ c = 0x08 ∨ 0x20 ≤ c ∧ c ≤ 0x7e) := by
    omega
  rw [unitsOf, if_neg hnot, if_pos hbasic]

/-- A character written as two escapes. -/
theorem unitsOf_pair {c : Nat} (hbasic : ¬ c < 0x10000) :
    unitsOf c = [.escaped (0xd800 + (c - 0x10000) / 0x400), .escaped (0xdc00 + (c - 0x10000) % 0x400)] := by
  have hnot : ¬ (c = 0x22 ∨ c = 0x5c ∨ c = 0x0a ∨ c = 0x0d ∨ c = 0x09 ∨ c = 0x0c ∨ c = 0x08 ∨ 0x20 ≤ c ∧ c ≤ 0x7e) := by
    omega
  rw [unitsOf, if_neg hnot, if_neg hbasic]

/-- The two escapes make the character. -/
theorem pair_combine {c h l : Nat} (hbasic : ¬ c < 0x10000) (hmax : c < 0x110000) (hh : h = 0xd800 + (c - 0x10000) / 0x400)
    (hl : l = 0xdc00 + (c - 0x10000) % 0x400) : (high h && low l) = true ∧ combine h l = c ∧ low h = false := by
  have h1 : 0xd800 ≤ h ∧ h ≤ 0xdbff := by omega
  have h2 : 0xdc00 ≤ l ∧ l ≤ 0xdfff := by omega
  refine ⟨?_, ?_, ?_⟩
  · unfold high low
    simp only [Bool.and_eq_true, decide_eq_true_eq]
    exact ⟨h1, h2⟩
  · unfold combine
    omega
  · unfold low
    simp only [Bool.and_eq_false_iff, decide_eq_false_iff_not]
    omega

theorem hexValue_hexDigit {n : Nat} (h : n < 16) : hexValue (Value.hexDigit n) = some n := by
  interval_cases n <;> rfl

/-- A written escape is read back. -/
theorem scanUnits_unitEscape {n : Nat} (h : n < 0x10000) (r : Str) :
    scanUnits (unitEscape n ++ r) = (scanUnits r).map fun p => (.escaped n :: p.1, p.2) := by
  show (hexFour (Value.hexDigit (n / 16 ^ 3 % 16)) (Value.hexDigit (n / 16 ^ 2 % 16)) (Value.hexDigit (n / 16 ^ 1 % 16))
    (Value.hexDigit (n / 16 ^ 0 % 16))).bind (fun n => (scanUnits r).map fun p => (.escaped n :: p.1, p.2)) = _
  unfold hexFour
  rw [hexValue_hexDigit (Nat.mod_lt _ (by decide)), hexValue_hexDigit (Nat.mod_lt _ (by decide)),
    hexValue_hexDigit (Nat.mod_lt _ (by decide)), hexValue_hexDigit (Nat.mod_lt _ (by decide))]
  simp only [Option.bind_some, Option.map_some]
  have hn : 4096 * (n / 16 ^ 3 % 16) + 256 * (n / 16 ^ 2 % 16) + 16 * (n / 16 ^ 1 % 16) + n / 16 ^ 0 % 16 = n := by
    omega
  rw [hn]

/-- A character that stands for itself. -/
theorem scanUnits_plain {c : Nat} (h : 0x20 ≤ c) (hquote : c ≠ 0x22) (hslash : c ≠ 0x5c) (r : Str) :
    scanUnits (c :: r) = (scanUnits r).map fun p => (.raw c :: p.1, p.2) := by
  rw [scanUnits]
  · rw [if_neg (by omega)]
  · exact hquote
  · intro _ _ _ _ _ heq _
    exact hslash heq
  · intro _ _ heq _
    exact hslash heq

theorem scanUnits_escape {c : Nat} (h : c < 0x110000) (r : Str) :
    scanUnits (escape c ++ r) = (scanUnits r).map fun p => (unitsOf c ++ p.1, p.2) := by
  by_cases hletter : c = 0x22 ∨ c = 0x5c ∨ c = 0x0a ∨ c = 0x0d ∨ c = 0x09 ∨ c = 0x0c ∨ c = 0x08
  · rcases hletter with rfl | rfl | rfl | rfl | rfl | rfl | rfl <;> rfl
  · obtain ⟨h1, h2, h3, h4, h5, h6, h7⟩ : c ≠ 0x22 ∧ c ≠ 0x5c ∧ c ≠ 0x0a ∧ c ≠ 0x0d ∧ c ≠ 0x09 ∧ c ≠ 0x0c ∧ c ≠ 0x08 := by
      omega
    unfold escape
    rw [if_neg h1, if_neg h2, if_neg h3, if_neg h4, if_neg h5, if_neg h6, if_neg h7]
    by_cases hplain : 0x20 ≤ c ∧ c ≤ 0x7e
    · have hraw : unitsOf c = [.raw c] := by
        rw [unitsOf, if_pos]
        omega
      rw [if_pos hplain, hraw]
      exact scanUnits_plain hplain.1 h1 h2 r
    · rw [if_neg hplain]
      by_cases hbasic : c < 0x10000
      · rw [if_pos hbasic, unitsOf_basic hletter hplain hbasic, scanUnits_unitEscape hbasic]
        rfl
      · have hh : 0xd800 + (c - 0x10000) / 0x400 < 0x10000 := by omega
        have hl : 0xdc00 + (c - 0x10000) % 0x400 < 0x10000 := by omega
        rw [if_neg hbasic, unitsOf_pair hbasic, List.append_assoc, scanUnits_unitEscape hh, scanUnits_unitEscape hl,
          Option.map_map]
        rfl

theorem scanUnits_flatMap {s : Str} (h : CodePoints s) (r : Str) :
    scanUnits (s.flatMap escape ++ 0x22 :: r) = some (s.flatMap unitsOf, r) := by
  induction s with
  | nil => rfl
  | cons c s ih =>
    rw [List.flatMap_cons, List.append_assoc, scanUnits_escape (h c List.mem_cons_self),
      ih fun d hd => h d (List.mem_cons_of_mem _ hd)]
    rfl

/-- The character behind does not join the one in front. -/
def Apart (c : Nat) (units : List CodeUnit) : Prop :=
  high c = true → ∀ n r, units = .escaped n :: r → low n = false

theorem joinUnits_escaped {h l : Nat} (hpair : (high h && low l) = true) (units : List CodeUnit) :
    joinUnits (.escaped h :: .escaped l :: units) = combine h l :: joinUnits units := by
  rw [joinUnits, if_pos hpair]

theorem joinUnits_unitsOf {c : Nat} (h : c < 0x110000) {units : List CodeUnit} (hapart : Apart c units) :
    joinUnits (unitsOf c ++ units) = c :: joinUnits units := by
  by_cases hraw : unitsOf c = [.raw c]
  · rw [hraw]
    rfl
  · have hnot : ¬ (c = 0x22 ∨ c = 0x5c ∨ c = 0x0a ∨ c = 0x0d ∨ c = 0x09 ∨ c = 0x0c ∨ c = 0x08 ∨ 0x20 ≤ c ∧ c ≤ 0x7e) :=
      fun hc => hraw (if_pos hc)
    by_cases hbasic : c < 0x10000
    · rw [unitsOf_basic (by omega) (by omega) hbasic, List.singleton_append]
      cases units with
      | nil => rfl
      | cons u units =>
        cases u with
        | raw d => rfl
        | escaped n =>
          rw [joinUnits, if_neg]
          rw [Bool.and_eq_true, not_and]
          intro hhigh
          rw [hapart hhigh n units rfl]
          exact Bool.false_ne_true
    · obtain ⟨hpair, hcombine, -⟩ := pair_combine hbasic h rfl rfl
      rw [unitsOf_pair hbasic, List.cons_append, List.singleton_append, joinUnits_escaped hpair, hcombine]

/-- The first unit of a character is no second half, unless the character is one. -/
theorem apart_unitsOf {c d : Nat} (h : (high c && low d) = false) (hd : d < 0x110000) (rest : List CodeUnit) :
    Apart c (unitsOf d ++ rest) := by
  intro hhigh n r heq
  rw [hhigh, Bool.true_and] at h
  by_cases hbasic : d < 0x10000
  · rw [unitsOf] at heq
    split at heq
    · cases heq
    · cases heq
      exact h
  · rw [unitsOf_pair hbasic, List.cons_append] at heq
    obtain ⟨-, -, hlow⟩ := pair_combine hbasic hd rfl rfl
    have hn := CodeUnit.escaped.inj (List.cons.inj heq).1
    rw [← hn]
    exact hlow

/-- **The units of a string come back as its characters, pairs joined.** -/
theorem joinUnits_flatMap {s : Str} (h : CodePoints s) : joinUnits (s.flatMap unitsOf) = pairUp s := by
  induction s using pairUp.induct with
  | case1 a b r hpair ih =>
    have hhalves := hpair
    unfold high low at hhalves
    simp only [Bool.and_eq_true, decide_eq_true_eq] at hhalves
    have hunits : ∀ c, 0xd800 ≤ c → c < 0x10000 → unitsOf c = [.escaped c] := by
      intro c h1 h2
      exact unitsOf_basic (by omega) (by omega) h2
    rw [List.flatMap_cons, List.flatMap_cons, hunits a (by omega) (by omega), hunits b (by omega) (by omega),
      List.singleton_append, List.singleton_append, joinUnits_escaped hpair, pairUp, if_pos hpair,
      ih fun d hd => h d (List.mem_cons_of_mem _ (List.mem_cons_of_mem _ hd))]
  | case2 a b r hpair ih =>
    rw [List.flatMap_cons, pairUp, if_neg hpair, ← ih fun d hd => h d (List.mem_cons_of_mem _ hd)]
    apply joinUnits_unitsOf (h a List.mem_cons_self)
    rw [List.flatMap_cons]
    exact apart_unitsOf (by simpa using hpair) (h b (by simp)) _
  | case3 c =>
    rw [List.flatMap_cons, List.flatMap_nil]
    exact joinUnits_unitsOf (h c List.mem_cons_self) (fun _ n r heq => by cases heq)
  | case4 => rfl

/-- A written string is read back. -/
theorem scanString_quote {s : Str} (h : CodePoints s) (r : Str) :
    scanString (s.flatMap escape ++ 0x22 :: r) = .ok (pairUp s, r) := by
  rw [scanString, scanUnits_flatMap h]
  show (Except.ok (joinUnits (s.flatMap unitsOf), r) : Py (Str × Str)) = _
  rw [joinUnits_flatMap h]

/-! ### Numbers and blanks -/

/-- What follows a value in a written text: not a character a number goes on with. -/
def Ends (r : Str) : Prop := ∀ c ∈ r.head?, isDigit c = false ∧ c ≠ 0x2e ∧ c ≠ 0x65 ∧ c ≠ 0x45

theorem decimal_head {n : Nat} (h : n ≠ 0) : ∃ c r, decimal n = c :: r ∧ isDigit c = true ∧ c ≠ 0x30 := by
  induction n using Nat.strong_induction_on with
  | _ n ih =>
    by_cases hlt : n < 10
    · rw [Decimal.decimal_of_lt hlt]
      refine ⟨0x30 + n, [], rfl, ?_, by omega⟩
      unfold isDigit
      simp only [Bool.and_eq_true, decide_eq_true_eq]
      omega
    · obtain ⟨c, r, heq, hc, hne⟩ := ih (n / 10) (by omega) (by omega)
      rw [Decimal.decimal_snoc (by omega), heq]
      exact ⟨c, r ++ [0x30 + n % 10], rfl, hc, hne⟩

theorem scanFraction_ends {r : Str} (h : Ends r) : scanFraction r = ([], r) := by
  unfold scanFraction
  split
  · exact absurd rfl (h 0x2e rfl).2.1
  · rfl

theorem scanExponent_ends {r : Str} (h : Ends r) : scanExponent r = (none, r) := by
  cases r with
  | nil => rfl
  | cons c r =>
    obtain ⟨-, -, h1, h2⟩ := h c rfl
    unfold scanExponent
    dsimp only
    rw [if_neg (by simp [h1, h2])]

/-- A written number is read back. -/
theorem scanNumber_decimal (negative : Bool) {n : Nat} (hlen : (decimal n).length ≤ 4300) {r : Str} (h : Ends r) :
    scanNumber negative (decimal n ++ r) = .ok (.int (if negative then -(n : ℤ) else n), r) := by
  have hwhole : (if (decimal n ++ r).head? = some 0x30 then [0x30] else (decimal n ++ r).takeWhile isDigit) = decimal n := by
    by_cases hzero : n = 0
    · rw [hzero]
      exact if_pos rfl
    · obtain ⟨c, s, heq, hc, hne⟩ := decimal_head hzero
      rw [if_neg]
      · exact (Decimal.takeWhile_digits (fun _ => isDigit_of_mem_decimal) fun c hc => (h c hc).1).1
      · rw [heq]
        intro hhead
        exact hne (Option.some.inj hhead)
  unfold scanNumber
  simp only [hwhole, List.drop_left, scanFraction_ends h, scanExponent_ends h]
  rw [if_neg (decimal_ne_nil n), if_pos ⟨trivial, trivial⟩, if_neg (by omega), Decimal.digitsValue_decimal]

/-- A digit begins no other value. -/
theorem scan_digit {c : Nat} (h : isDigit c = true) (n : Nat) (r : Str) :
    scan (n + 1) (c :: r) = scanNumber false (c :: r) := by
  unfold isDigit at h
  simp only [Bool.and_eq_true, decide_eq_true_eq] at h
  obtain ⟨h1, h2⟩ := h
  interval_cases c <;> rfl

theorem scan_int (n : Nat) {k : ℤ} (hlen : (decimal k.natAbs).length ≤ 4300) {r : Str} (h : Ends r) :
    scan (n + 1) (Value.reprInt k ++ r) = .ok (.int k, r) := by
  unfold Value.reprInt
  split
  · next hneg =>
    have hpos : k.natAbs ≠ 0 := by omega
    obtain ⟨c, s, heq, hc, -⟩ := decimal_head hpos
    -- a minus and a digit go to the number, and not to `-Infinity`
    have hsign : scan (n + 1) (0x2d :: (c :: s ++ r)) = scanNumber true (c :: s ++ r) := by
      unfold isDigit at hc
      simp only [Bool.and_eq_true, decide_eq_true_eq] at hc
      obtain ⟨h1, h2⟩ := hc
      interval_cases c <;> rfl
    show scan (n + 1) (0x2d :: (decimal k.natAbs ++ r)) = _
    rw [heq, hsign, ← heq, scanNumber_decimal true hlen h]
    congr 3
    show -(k.natAbs : ℤ) = k
    omega
  · next hneg =>
    obtain ⟨c, s, heq⟩ := List.exists_cons_of_ne_nil (decimal_ne_nil k.natAbs)
    have hc : isDigit c = true := isDigit_of_mem_decimal (n := k.natAbs) (by rw [heq]; exact List.mem_cons_self)
    have hdigit := scan_digit hc n (s ++ r)
    rw [← List.cons_append, ← heq] at hdigit
    rw [hdigit, scanNumber_decimal false hlen h]
    congr 3
    show (k.natAbs : ℤ) = k
    omega

/-- No blank is skipped where the text begins with none. -/
theorem skip_of_head {s : Str} (h : ∀ c ∈ s.head?, isBlank c = false) : skip s = s :=
  Str.dropWhile_eq_self_of_head h

/-- A new line is skipped. -/
theorem skip_newline (level : Nat) {s : Str} (h : ∀ c ∈ s.head?, isBlank c = false) : skip (newline level ++ s) = s := by
  unfold skip newline
  rw [List.cons_append, List.dropWhile_cons_of_pos rfl, List.dropWhile_append_of_pos]
  · exact skip_of_head h
  · intro c hc
    rw [List.eq_of_mem_replicate hc]
    rfl

/-! ### Lists and dictionaries -/

theorem readBackAll_eq_map (xs : List Value) : readBackAll xs = xs.map readBack := by
  induction xs with
  | nil => rfl
  | cons x xs ih => rw [readBackAll, ih, List.map_cons]

theorem readBackItems_eq_map (items : Dict) : readBackItems items = items.map fun p => (p.1, readBack p.2) := by
  induction items with
  | nil => rfl
  | cons p items ih => rw [readBackItems, ih, List.map_cons]

theorem dumpAll_eq_map (level : Nat) (xs : List Value) : dumpAll level xs = xs.map (dump level) := by
  induction xs with
  | nil => rfl
  | cons x xs ih => rw [dumpAll, ih, List.map_cons]

theorem dumpItems_eq_map (level : Nat) (items : Dict) :
    dumpItems level items = items.map fun p => (p.1, dump level p.2) := by
  induction items with
  | nil => rfl
  | cons p items ih => rw [dumpItems, ih, List.map_cons]

/-- The text of a dictionary: a line for each item, in the order of the keys. -/
theorem dump_dict (level : Nat) (items : Dict) : dump level (.dict items) =
    block 0x7b 0x7d level ((items.mergeSort byKey).map fun p => quote p.1 ++ lit ": " ++ dump (level + 1) p.2) := by
  have hsort := List.map_mergeSort (r := byKey) (s := byKey) (f := fun p : Str × Value => (p.1, dump (level + 1) p.2))
    (l := items) (fun _ _ _ _ => rfl)
  rw [dump, dumpItems_eq_map, ← hsort, List.map_map]
  rfl

/-- A dictionary as it is read back: its items in the order of the keys. -/
theorem readBack_dict (items : Dict) :
    readBack (.dict items) = .dict ((items.mergeSort byKey).map fun p => (p.1, readBack p.2)) := by
  have hsort := List.map_mergeSort (r := byKey) (s := byKey) (f := fun p : Str × Value => (p.1, readBack p.2))
    (l := items) (fun _ _ _ _ => rfl)
  rw [readBack, readBackItems_eq_map, hsort]

/-- Items with keys apart are set one behind the other. -/
theorem foldl_setItem {items d : Dict} (h : ((d ++ items).map Prod.fst).Nodup) :
    items.foldl (fun d p => setItem d p.1 p.2) d = d ++ items := by
  induction items generalizing d with
  | nil => rw [List.append_nil]; rfl
  | cons p items ih =>
    have hfresh : ¬ (d.any fun q => q.1 == p.1) = true := by
      intro hany
      obtain ⟨q, hq, hkey⟩ := List.any_eq_true.mp hany
      rw [List.map_append, List.nodup_append] at h
      exact h.2.2 q.1 (List.mem_map.mpr ⟨q, hq, rfl⟩) p.1 (by simp) (beq_iff_eq.mp hkey)
    rw [List.foldl_cons, setItem, if_neg hfresh, ih]
    · rw [List.append_assoc]
      rfl
    · rw [List.append_assoc]
      exact h

/-- A character that may begin a value: in ASCII, no blank and no closing bracket. -/
def begins (c : Nat) : Bool := !isBlank c && c != 0x5d && c != 0x7d && decide (c < 0x80)

/-- A text that begins with such a character, as that of a value does. -/
def Visible (s : Str) : Prop := ∃ c r, s = c :: r ∧ begins c = true

theorem Visible.head {s : Str} (h : Visible s) (r : Str) : ∀ c ∈ (s ++ r).head?, isBlank c = false := by
  obtain ⟨d, t, rfl, hd⟩ := h
  intro c hc
  cases hc
  unfold begins at hd
  simp only [Bool.and_eq_true] at hd
  exact Bool.not_eq_true' _ ▸ hd.1.1.1

/-- The text of a value does not close what it stands in. -/
theorem Visible.avoids {s : Str} (h : Visible s) (r : Str) : ∀ c ∈ (s ++ r).head?, c ≠ 0x5d ∧ c ≠ 0x7d := by
  obtain ⟨d, t, rfl, hd⟩ := h
  intro c hc
  cases hc
  unfold begins at hd
  simp only [Bool.and_eq_true, bne_iff_ne] at hd
  exact ⟨hd.1.1.2, hd.1.2⟩

theorem visible_digit {c : Nat} (h : isDigit c = true) (s : Str) : Visible (c :: s) := by
  refine ⟨c, s, rfl, ?_⟩
  unfold isDigit at h
  simp only [Bool.and_eq_true, decide_eq_true_eq] at h
  obtain ⟨h1, h2⟩ := h
  interval_cases c <;> rfl

theorem visible_decimal (n : Nat) : Visible (decimal n) := by
  obtain ⟨c, s, heq⟩ := List.exists_cons_of_ne_nil (decimal_ne_nil n)
  rw [heq]
  exact visible_digit (isDigit_of_mem_decimal (n := n) (by rw [heq]; exact List.mem_cons_self)) s

theorem visible_block {opening : Nat} (h : begins opening = true) (closing level : Nat) (texts : List Str) :
    Visible (block opening closing level texts) := by
  unfold block
  split
  · exact ⟨_, _, rfl, h⟩
  · exact ⟨_, _, rfl, h⟩

theorem visible_dump {v : Value} (h : Writable v) (level : Nat) : Visible (dump level v) := by
  cases h with
  | null => exact ⟨_, _, rfl, rfl⟩
  | bool b => cases b <;> exact ⟨_, _, rfl, rfl⟩
  | int n hlen =>
    rw [dump, Value.reprInt]
    split
    · exact ⟨_, _, rfl, rfl⟩
    · exact visible_decimal _
  | str s hs => exact ⟨_, _, rfl, rfl⟩
  | list xs hxs => exact visible_block rfl _ _ _
  | dict items _ _ _ => exact visible_block rfl _ _ _

/-- A value is read back from its text, at every level and with fuel for the text, whatever ends it. -/
def ReadsBack (v : Value) : Prop :=
  ∀ level n r, (dump level v).length ≤ n → Ends r → scan n (dump level v ++ r) = .ok (readBack v, r)

theorem ends_newline (level : Nat) (r : Str) : Ends (newline level ++ r) := by
  intro c hc
  cases hc
  decide

theorem ends_comma (r : Str) : Ends (lit "," ++ r) := by
  intro c hc
  cases hc
  decide

/-- The last element, and the end of the list. -/
theorem scanElements_last {n : Nat} {s t r : Str} {x : Value} (h : scan n s = .ok (x, t)) (ht : skip t = 0x5d :: r) :
    scanElements (n + 1) s = .ok ([x], r) := by
  simp only [scanElements, h, ht, bind, Except.bind, pure, Except.pure]

/-- An element with another behind it. -/
theorem scanElements_next {n : Nat} {s t r r' : Str} {x : Value} {xs : List Value} (h : scan n s = .ok (x, t))
    (ht : skip t = 0x2c :: r) (hrest : scanElements n (skip r) = .ok (xs, r')) :
    scanElements (n + 1) s = .ok (x :: xs, r') := by
  simp only [scanElements, h, ht, hrest, bind, Except.bind, pure, Except.pure]

/-- The last member, and the end of the object. -/
theorem scanMembers_last {n : Nat} {s t₁ t₂ t₃ r key : Str} {v : Value} (hkey : scanString s = .ok (key, t₁))
    (hcolon : skip t₁ = 0x3a :: t₂) (hvalue : scan n (skip t₂) = .ok (v, t₃)) (ht : skip t₃ = 0x7d :: r) :
    scanMembers (n + 1) (0x22 :: s) = .ok ([(key, v)], r) := by
  simp only [scanMembers, hkey, hcolon, hvalue, ht, bind, Except.bind, pure, Except.pure]

/-- A member with another behind it. -/
theorem scanMembers_next {n : Nat} {s t₁ t₂ t₃ r r' key : Str} {v : Value} {items : Dict}
    (hkey : scanString s = .ok (key, t₁)) (hcolon : skip t₁ = 0x3a :: t₂) (hvalue : scan n (skip t₂) = .ok (v, t₃))
    (ht : skip t₃ = 0x2c :: r) (hrest : scanMembers n (skip r) = .ok (items, r')) :
    scanMembers (n + 1) (0x22 :: s) = .ok ((key, v) :: items, r') := by
  simp only [scanMembers, hkey, hcolon, hvalue, ht, hrest, bind, Except.bind, pure, Except.pure]

/-- Two texts and more, the first apart. -/
theorem joinWith_cons (sep x y : Str) (xs : List Str) :
    joinWith sep (x :: y :: xs) = x ++ (sep ++ joinWith sep (y :: xs)) := by
  rw [joinWith, List.append_assoc]

theorem visible_joinWith (sep : Str) {x : Str} (h : Visible x) (xs : List Str) : Visible (joinWith sep (x :: xs)) := by
  cases xs with
  | nil => exact h
  | cons y ys =>
    obtain ⟨c, r, heq, hc⟩ := h
    rw [joinWith_cons, heq]
    exact ⟨c, _, rfl, hc⟩

/-- The elements of a written list are read back. -/
theorem scanElements_joinWith (level closing : Nat) (r : Str) {x : Value} {xs : List Value}
    (hx : ∀ y ∈ x :: xs, ReadsBack y ∧ Visible (dump level y)) {n : Nat}
    (hn : (joinWith (lit "," ++ newline level) ((x :: xs).map (dump level))).length < n) :
    scanElements n (joinWith (lit "," ++ newline level) ((x :: xs).map (dump level)) ++ (newline closing ++ 0x5d :: r))
      = .ok ((x :: xs).map readBack, r) := by
  induction xs generalizing n x with
  | nil =>
    obtain ⟨m, rfl⟩ : ∃ m, n = m + 1 := ⟨n - 1, by omega⟩
    obtain ⟨hread, -⟩ := hx x List.mem_cons_self
    exact scanElements_last (hread level m _ (Nat.le_of_lt_succ hn) (ends_newline _ _))
      (skip_newline closing fun c hc => by cases hc; rfl)
  | cons y ys ih =>
    obtain ⟨m, rfl⟩ : ∃ m, n = m + 1 := ⟨n - 1, by omega⟩
    obtain ⟨hread, -⟩ := hx x List.mem_cons_self
    obtain ⟨-, hvisible⟩ := hx y (List.mem_cons_of_mem _ List.mem_cons_self)
    rw [List.map_cons, List.map_cons, joinWith_cons] at hn
    rw [List.map_cons, List.map_cons, joinWith_cons, List.append_assoc, List.append_assoc]
    simp only [List.length_append] at hn
    have hcomma : 0 < (lit ",").length := by decide
    refine scanElements_next (hread level m _ (by omega) (ends_comma _))
      (skip_of_head fun c hc => by cases hc; rfl) ?_
    show scanElements m (skip (newline level ++ _)) = _
    rw [skip_newline level ((visible_joinWith _ hvisible _).head _)]
    exact ih (fun z hz => hx z (List.mem_cons_of_mem _ hz)) (by
      rw [List.map_cons]
      omega)

/-- The line of an item. -/
def itemText (level : Nat) (p : Str × Value) : Str := quote p.1 ++ lit ": " ++ dump level p.2

theorem visible_itemText (level : Nat) (p : Str × Value) : Visible (itemText level p) := ⟨_, _, rfl, rfl⟩

/-- An item begins with its key in quotes, and a colon. -/
theorem itemText_append (level : Nat) (p : Str × Value) (r : Str) : itemText level p ++ r =
    0x22 :: (p.1.flatMap escape ++ 0x22 :: (0x3a :: 0x20 :: (dump level p.2 ++ r))) := by
  unfold itemText quote
  simp only [List.append_assoc, List.cons_append, List.nil_append]
  rfl

/-- The members of a written dictionary are read back. -/
theorem scanMembers_joinWith (level closing : Nat) (r : Str) {p : Str × Value} {items : Dict}
    (hx : ∀ q ∈ p :: items, (CodePoints q.1 ∧ pairUp q.1 = q.1) ∧ ReadsBack q.2 ∧ Visible (dump level q.2)) {n : Nat}
    (hn : (joinWith (lit "," ++ newline level) ((p :: items).map (itemText level))).length < n) :
    scanMembers n (joinWith (lit "," ++ newline level) ((p :: items).map (itemText level)) ++ (newline closing ++ 0x7d :: r))
      = .ok ((p :: items).map fun p => (p.1, readBack p.2), r) := by
  have hlen : ∀ q : Str × Value, (dump level q.2).length ≤ (itemText level q).length := by
    intro q
    unfold itemText
    simp only [List.length_append]
    omega
  have hkeyed : ∀ q ∈ p :: items, ∀ t, scanString (q.1.flatMap escape ++ 0x22 :: t) = .ok (q.1, t) := by
    intro q hq t
    obtain ⟨⟨hcode, hpair⟩, -⟩ := hx q hq
    rw [scanString_quote hcode, hpair]
  have hcolon : ∀ t, skip (0x3a :: t) = 0x3a :: t := fun t => skip_of_head fun c hc => by cases hc; rfl
  have hblank : ∀ q ∈ p :: items, ∀ t, skip (0x20 :: (dump level q.2 ++ t)) = dump level q.2 ++ t := by
    intro q hq t
    exact (List.dropWhile_cons_of_pos rfl).trans (skip_of_head ((hx q hq).2.2.head t))
  induction items generalizing n p with
  | nil =>
    obtain ⟨m, rfl⟩ : ∃ m, n = m + 1 := ⟨n - 1, by omega⟩
    have hp : p ∈ [p] := List.mem_cons_self
    have hm : (dump level p.2).length ≤ m := le_trans (hlen p) (Nat.le_of_lt_succ hn)
    show scanMembers (m + 1) (itemText level p ++ _) = _
    rw [itemText_append]
    refine scanMembers_last (hkeyed p hp _) (hcolon _) ?_ (skip_newline closing fun c hc => by cases hc; rfl)
    rw [hblank p hp]
    exact (hx p hp).2.1 level m _ hm (ends_newline _ _)
  | cons q qs ih =>
    obtain ⟨m, rfl⟩ : ∃ m, n = m + 1 := ⟨n - 1, by omega⟩
    have hp : p ∈ p :: q :: qs := List.mem_cons_self
    rw [List.map_cons, List.map_cons, joinWith_cons] at hn
    rw [List.map_cons, List.map_cons, joinWith_cons, List.append_assoc, List.append_assoc, itemText_append]
    simp only [List.length_append] at hn
    have hp' := hlen p
    have hcomma : 0 < (lit ",").length := by decide
    refine scanMembers_next (hkeyed p hp _) (hcolon _)
      (by
        rw [hblank p hp]
        exact (hx p hp).2.1 level m _ (by omega) (ends_comma _))
      (skip_of_head fun c hc => by cases hc; rfl) ?_
    show scanMembers m (skip (newline level ++ _)) = _
    rw [skip_newline level ((visible_joinWith _ (visible_itemText level q) _).head _)]
    have htail : ∀ z ∈ q :: qs, z ∈ p :: q :: qs := fun z hz => List.mem_cons_of_mem _ hz
    exact ih (fun z hz => hx z (htail z hz)) (by
      rw [List.map_cons]
      omega) (fun z hz => hkeyed z (htail z hz)) (fun z hz => hblank z (htail z hz))

/-! ### Values -/

/-- A list that is not empty. -/
theorem scan_list {n : Nat} {s t r : Str} {xs : List Value} (hskip : skip s = t) (ht : ∀ c ∈ t.head?, c ≠ 0x5d ∧ c ≠ 0x7d)
    (h : scanElements n t = .ok (xs, r)) : scan (n + 1) (0x5b :: s) = .ok (.list xs, r) := by
  simp only [scan, hskip]
  split
  · exact absurd rfl (ht 0x5d rfl).1
  · simp only [h, bind, Except.bind, pure, Except.pure]

/-- A dictionary that is not empty. -/
theorem scan_dict {n : Nat} {s t r : Str} {items : Dict} (hskip : skip s = t) (ht : ∀ c ∈ t.head?, c ≠ 0x5d ∧ c ≠ 0x7d)
    (h : scanMembers n t = .ok (items, r)) :
    scan (n + 1) (0x7b :: s) = .ok (.dict (items.foldl (fun d p => setItem d p.1 p.2) []), r) := by
  simp only [scan, hskip]
  split
  · exact absurd rfl (ht 0x7d rfl).2
  · simp only [h, bind, Except.bind, pure, Except.pure]

theorem length_joinWith_lt_block {opening closing level : Nat} {x : Str} {xs : List Str} {n : Nat}
    (h : (block opening closing level (x :: xs)).length ≤ n + 1) :
    (joinWith (lit "," ++ newline (level + 1)) (x :: xs)).length < n := by
  rw [block, if_neg (List.cons_ne_nil _ _)] at h
  simp only [List.length_append, List.length_cons, List.length_nil] at h
  have hline : 0 < (newline level).length := Nat.succ_pos _
  omega

/-- The text of a block of lines, with what is behind it. -/
theorem block_append {opening closing level : Nat} (x : Str) (xs : List Str) (r : Str) :
    block opening closing level (x :: xs) ++ r = opening :: (newline (level + 1) ++
      (joinWith (lit "," ++ newline (level + 1)) (x :: xs) ++ (newline level ++ closing :: r))) := by
  rw [block, if_neg (List.cons_ne_nil _ _)]
  simp only [List.append_assoc, List.cons_append, List.nil_append]

/-- The order the items of a dictionary are written in loses none. -/
theorem mem_sorted {items : Dict} {p : Str × Value} : p ∈ items.mergeSort byKey ↔ p ∈ items := List.mem_mergeSort

theorem readsBack_list {xs : List Value} (h : ∀ x ∈ xs, ReadsBack x ∧ ∀ level, Visible (dump level x)) :
    ReadsBack (.list xs) := by
  intro level n r hn _
  rw [dump, dumpAll_eq_map] at hn
  rw [dump, dumpAll_eq_map, readBack, readBackAll_eq_map]
  cases xs with
  | nil =>
    obtain ⟨m, rfl⟩ : ∃ m, n = m + 1 := ⟨n - 1, (Nat.sub_add_cancel (le_trans (Nat.succ_pos _) hn)).symm⟩
    rfl
  | cons x xs =>
    rw [List.map_cons] at hn
    obtain ⟨m, rfl⟩ : ∃ m, n = m + 1 := by
      refine ⟨n - 1, (Nat.sub_add_cancel (le_trans ?_ hn)).symm⟩
      rw [block, if_neg (List.cons_ne_nil _ _)]
      exact Nat.succ_pos _
    have helements := scanElements_joinWith (level + 1) level r
      (fun y hy => ⟨(h y hy).1, (h y hy).2 _⟩) (length_joinWith_lt_block hn)
    have hvisible := visible_joinWith (lit "," ++ newline (level + 1)) ((h x List.mem_cons_self).2 (level + 1))
      (xs.map (dump (level + 1)))
    rw [List.map_cons, block_append]
    exact scan_list (skip_newline (level + 1) (hvisible.head _)) (hvisible.avoids _) helements

theorem readsBack_dict {items : Dict} (hkeys : ∀ p ∈ items, CodePoints p.1 ∧ pairUp p.1 = p.1)
    (hnodup : (items.map Prod.fst).Nodup) (h : ∀ p ∈ items, ReadsBack p.2 ∧ ∀ level, Visible (dump level p.2)) :
    ReadsBack (.dict items) := by
  intro level n r hn _
  have hdump : dump level (.dict items) = block 0x7b 0x7d level ((items.mergeSort byKey).map (itemText (level + 1))) :=
    dump_dict level items
  have hperm := (List.mergeSort_perm items byKey).map Prod.fst
  have hfresh : (((items.mergeSort byKey).map fun p => (p.1, readBack p.2)).map Prod.fst).Nodup := by
    rw [List.map_map]
    exact hperm.nodup_iff.mpr hnodup
  have hall : ∀ q ∈ items.mergeSort byKey,
      (CodePoints q.1 ∧ pairUp q.1 = q.1) ∧ ReadsBack q.2 ∧ Visible (dump (level + 1) q.2) := by
    intro q hq
    have hq := mem_sorted.mp hq
    exact ⟨hkeys q hq, (h q hq).1, (h q hq).2 _⟩
  rw [hdump] at hn ⊢
  rw [readBack_dict]
  cases hitems : items.mergeSort byKey with
  | nil =>
    rw [hitems] at hn
    obtain ⟨m, rfl⟩ : ∃ m, n = m + 1 := ⟨n - 1, (Nat.sub_add_cancel (le_trans (Nat.succ_pos _) hn)).symm⟩
    rfl
  | cons p ps =>
    rw [hitems] at hn hall hfresh
    rw [List.map_cons] at hn
    obtain ⟨m, rfl⟩ : ∃ m, n = m + 1 := by
      refine ⟨n - 1, (Nat.sub_add_cancel (le_trans ?_ hn)).symm⟩
      rw [block, if_neg (List.cons_ne_nil _ _)]
      exact Nat.succ_pos _
    have hmembers := scanMembers_joinWith (level + 1) level r hall (length_joinWith_lt_block hn)
    have hvisible := visible_joinWith (lit "," ++ newline (level + 1)) (visible_itemText (level + 1) p)
      (ps.map (itemText (level + 1)))
    rw [List.map_cons, block_append]
    have hscan := scan_dict (skip_newline (level + 1) (hvisible.head _)) (hvisible.avoids _) hmembers
    rw [foldl_setItem hfresh, List.nil_append] at hscan
    exact hscan

/-- **A written value is read back**, at every level and whatever ends it. -/
theorem readsBack_of_writable {v : Value} (h : Writable v) : ReadsBack v := by
  induction h with
  | null =>
    intro level n r hn _
    obtain ⟨m, rfl⟩ : ∃ m, n = m + 1 := ⟨n - 1, (Nat.sub_add_cancel (le_trans (Nat.succ_pos _) hn)).symm⟩
    rfl
  | bool b =>
    intro level n r hn _
    cases b with
    | false =>
      obtain ⟨m, rfl⟩ : ∃ m, n = m + 1 := ⟨n - 1, (Nat.sub_add_cancel (le_trans (Nat.succ_pos _) hn)).symm⟩
      rfl
    | true =>
      obtain ⟨m, rfl⟩ : ∃ m, n = m + 1 := ⟨n - 1, (Nat.sub_add_cancel (le_trans (Nat.succ_pos _) hn)).symm⟩
      rfl
  | int k hlen =>
    intro level n r hn hr
    obtain ⟨c, s, heq, -⟩ := visible_dump (.int k hlen) level
    rw [heq] at hn
    obtain ⟨m, rfl⟩ : ∃ m, n = m + 1 := ⟨n - 1, (Nat.sub_add_cancel (le_trans (Nat.succ_pos _) hn)).symm⟩
    exact scan_int m hlen hr
  | str s hs =>
    intro level n r hn _
    obtain ⟨m, rfl⟩ : ∃ m, n = m + 1 := ⟨n - 1, (Nat.sub_add_cancel (le_trans (Nat.succ_pos _) hn)).symm⟩
    have htext : dump level (.str s) ++ r = 0x22 :: (s.flatMap escape ++ 0x22 :: r) := by
      rw [dump, quote]
      simp only [List.append_assoc, List.cons_append, List.nil_append]
    rw [htext]
    show (scanString _ >>= _) = _
    rw [scanString_quote hs]
    rfl
  | list xs hxs ih => exact readsBack_list fun x hx => ⟨ih x hx, visible_dump (hxs x hx)⟩
  | dict items hkeys hnodup h ih => exact readsBack_dict hkeys hnodup fun p hp => ⟨ih p hp, visible_dump (h p hp)⟩

/-- **What `json.dump` wrote, `json.loads` reads**, with the keys sorted and pairs joined. -/
theorem loads_dumps {v : Value} (h : Writable v) : loads (dumps v ++ lit "\n") = .ok (readBack v) := by
  obtain ⟨c, s, heq, hc⟩ := visible_dump h 0
  have hskip : skip (dumps v ++ lit "\n") = dumps v ++ lit "\n" := skip_of_head ((visible_dump h 0).head _)
  have hends : Ends (lit "\n") := by
    intro d hd
    cases hd
    decide
  have hscan : scan ((dumps v ++ lit "\n").length + 1) (dumps v ++ lit "\n") = .ok (readBack v, lit "\n") := by
    apply readsBack_of_writable h 0 _ _ _ hends
    rw [List.length_append]
    show (dumps v).length ≤ _
    omega
  -- the text begins with a printable character, so with no byte order mark
  have hmark : ∀ r, dumps v ++ lit "\n" ≠ 0xfeff :: r := by
    intro r hr
    have hfirst := (heq ▸ hr : c :: s ++ lit "\n" = 0xfeff :: r)
    rw [(List.cons.inj hfirst).1] at hc
    cases hc
  unfold loads
  split
  · next r hr => exact absurd hr (hmark r)
  · rw [hskip, hscan]
    rfl

/-! ## What comes back is equal -/

/-- A string the reader gives back as it was. -/
def Intact (s : Str) : Prop := CodePoints s ∧ pairUp s = s

theorem intact_of_ascii {s : Str} (h : ∀ c ∈ s, c < 0x80) : Intact s := by
  refine ⟨fun c hc => lt_trans (h c hc) (by decide), ?_⟩
  induction s using pairUp.induct with
  | case1 a b r hpair ih =>
    have ha := h a List.mem_cons_self
    unfold high at hpair
    simp only [Bool.and_eq_true, decide_eq_true_eq] at hpair
    omega
  | case2 a b r hpair ih =>
    rw [pairUp, if_neg hpair, ih fun c hc => h c (List.mem_cons_of_mem _ hc)]
  | case3 c => rfl
  | case4 => rfl

/-- Joining pairs shortens a string, or leaves it as it is. -/
theorem pairUp_eq_or_length_lt (s : Str) : pairUp s = s ∨ (pairUp s).length < s.length := by
  induction s using pairUp.induct with
  | case1 a b r hpair ih =>
    right
    have hr : (pairUp r).length ≤ r.length := by
      rcases ih with ih | ih
      · rw [ih]
      · exact Nat.le_of_lt ih
    rw [pairUp, if_pos hpair]
    simp only [List.length_cons]
    omega
  | case2 a b r hpair ih =>
    rw [pairUp, if_neg hpair]
    rcases ih with ih | ih
    · exact Or.inl (by rw [ih])
    · exact Or.inr (by simpa using ih)
  | case3 c => exact Or.inl rfl
  | case4 => exact Or.inl rfl

theorem readBack_str {s : Str} (h : Intact s) : readBack (.str s) = .str s := by
  show Value.str (pairUp s) = _
  rw [h.2]

/-- A writable value whose strings are given back as they were. -/
inductive Faithful : Value → Prop
  | null : Faithful .null
  | bool (b : Bool) : Faithful (.bool b)
  | int (n : ℤ) (h : (decimal n.natAbs).length ≤ 4300) : Faithful (.int n)
  | str (s : Str) (h : Intact s) : Faithful (.str s)
  | list (xs : List Value) (h : ∀ x ∈ xs, Faithful x) : Faithful (.list xs)
  | dict (items : Dict) (hkeys : ∀ p ∈ items, Intact p.1) (hnodup : (items.map Prod.fst).Nodup)
      (h : ∀ p ∈ items, Faithful p.2) : Faithful (.dict items)

theorem Faithful.writable {v : Value} (h : Faithful v) : Writable v := by
  induction h with
  | null => exact .null
  | bool b => exact .bool b
  | int n hlen => exact .int n hlen
  | str s hs => exact .str s hs.1
  | list xs _ ih => exact .list xs ih
  | dict items hkeys hnodup _ ih => exact .dict items hkeys hnodup ih

/-- Lists are equal when each element is equal to the one in its place. -/
theorem sameAll_map {f : Value → Value} {xs : List Value} (h : ∀ x ∈ xs, Value.same x (f x) = true) :
    Value.sameAll xs (xs.map f) = true := by
  induction xs with
  | nil => rfl
  | cons x xs ih =>
    show (Value.same x (f x) && Value.sameAll xs (xs.map f)) = true
    rw [h x List.mem_cons_self, ih fun y hy => h y (List.mem_cons_of_mem _ hy)]
    rfl

theorem sameAll_of_map {f : Value → Value} {xs : List Value} (h : ∀ x ∈ xs, Value.same (f x) x = true) :
    Value.sameAll (xs.map f) xs = true := by
  induction xs with
  | nil => rfl
  | cons x xs ih =>
    show (Value.same (f x) x && Value.sameAll (xs.map f) xs) = true
    rw [h x List.mem_cons_self, ih fun y hy => h y (List.mem_cons_of_mem _ hy)]
    rfl

theorem sameItems_iff {d e : Dict} :
    Value.sameItems d e = true ↔ ∀ p ∈ d, ∃ w, e.lookup p.1 = some w ∧ Value.same p.2 w = true := by
  induction d with
  | nil => exact ⟨fun _ _ h => absurd h List.not_mem_nil, fun _ => rfl⟩
  | cons p d ih =>
    rw [List.forall_mem_cons, ← ih]
    conv_lhs => unfold Value.sameItems
    rw [Bool.and_eq_true]
    apply and_congr_left
    intro _
    cases hw : e.lookup p.1 with
    | none => simp
    | some w => simp

/-- What a sorted dictionary holds under a key. -/
theorem lookup_sorted {items : Dict} (h : (items.map Prod.fst).Nodup) (k : Str) :
    ((items.mergeSort byKey).map fun p => (p.1, readBack p.2)).lookup k = (items.lookup k).map readBack := by
  have hperm := (List.mergeSort_perm items byKey).map Prod.fst
  have hsorted : (((items.mergeSort byKey).map fun p => (p.1, readBack p.2)).map Prod.fst).Nodup := by
    rw [List.map_map]
    exact hperm.nodup_iff.mpr h
  apply Option.ext
  intro w
  rw [lookup_eq_some_iff_mem hsorted, List.mem_map, Option.map_eq_some_iff]
  constructor
  · rintro ⟨⟨k', v⟩, hmem, heq⟩
    obtain ⟨rfl, rfl⟩ := Prod.mk.inj heq
    exact ⟨v, (lookup_eq_some_iff_mem h).mpr (mem_sorted.mp hmem), rfl⟩
  · rintro ⟨v, hv, rfl⟩
    exact ⟨(k, v), mem_sorted.mpr ((lookup_eq_some_iff_mem h).mp hv), rfl⟩

theorem same_self {v : Value} (h : Writable v) : Value.same v v = true := by
  induction h with
  | null => rfl
  | bool b => cases b <;> rfl
  | int n _ => simp [Value.same, Value.amount]
  | str s _ => exact beq_self_eq_true s
  | list xs _ ih =>
    have hall := sameAll_map (f := id) ih
    rw [List.map_id] at hall
    exact hall
  | dict items _ hnodup _ ih =>
    show (items.length == items.length && Value.sameItems items items) = true
    rw [beq_self_eq_true, Bool.true_and, sameItems_iff]
    intro p hp
    exact ⟨p.2, (lookup_eq_some_iff_mem hnodup).mpr hp, ih p hp⟩

/-- **A faithful value is equal to what comes back of it.** -/
theorem same_readBack {v : Value} (h : Faithful v) : Value.same v (readBack v) = true := by
  induction h with
  | null => rfl
  | bool b => cases b <;> rfl
  | int n _ => simp [readBack, Value.same, Value.amount]
  | str s hs =>
    rw [readBack_str hs]
    exact beq_self_eq_true s
  | list xs _ ih =>
    rw [readBack, readBackAll_eq_map]
    exact sameAll_map ih
  | dict items _ hnodup _ ih =>
    rw [readBack_dict]
    show (items.length == ((items.mergeSort byKey).map fun p => (p.1, readBack p.2)).length && Value.sameItems items _) = true
    rw [List.length_map, List.length_mergeSort, beq_self_eq_true, Bool.true_and, sameItems_iff]
    intro p hp
    refine ⟨readBack p.2, ?_, ih p hp⟩
    rw [lookup_sorted hnodup, (lookup_eq_some_iff_mem hnodup).mpr hp]
    rfl

/-- What comes back is equal to it, the other way round. -/
theorem readBack_same {v : Value} (h : Faithful v) : Value.same (readBack v) v = true := by
  induction h with
  | null => rfl
  | bool b => cases b <;> rfl
  | int n _ => simp [readBack, Value.same, Value.amount]
  | str s hs =>
    rw [readBack_str hs]
    exact beq_self_eq_true s
  | list xs _ ih =>
    rw [readBack, readBackAll_eq_map]
    exact sameAll_of_map ih
  | dict items _ hnodup _ ih =>
    rw [readBack_dict]
    show (((items.mergeSort byKey).map fun p => (p.1, readBack p.2)).length == items.length && Value.sameItems _ items) = true
    rw [List.length_map, List.length_mergeSort, beq_self_eq_true, Bool.true_and, sameItems_iff]
    intro p hp
    obtain ⟨q, hq, rfl⟩ := List.mem_map.mp hp
    have hq := mem_sorted.mp hq
    exact ⟨q.2, (lookup_eq_some_iff_mem hnodup).mpr hq, ih q hq⟩

end LocalPlatform.Python.Json
