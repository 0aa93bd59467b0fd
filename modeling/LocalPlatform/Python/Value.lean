/-
# LocalPlatform.Python.Value — the values a JSON document is read to, and what scripts do with them.

`None` (`null`), booleans, integers, floats, strings, lists and dictionaries.  The operations are Python's: `==`
compares numbers across their types, dictionaries without their order, and a `bool` is a number; `.get`,
subscripts, iteration, membership and `>` raise where the value is not of a kind that has them, so they
return in `Py`.  A dictionary is the list of its items in the order of insertion; the first item with a
key is the item, and whatever builds one keeps its keys apart.
-/
import LocalPlatform.Python.Double

namespace LocalPlatform.Python

/-- What a script ends with when it does not return: an exception of the language or a library, or the
script's own error with its message. -/
inductive Exn where
  | attributeError | typeError | keyError | valueError | overflowError | arithmeticError | osError | jsonDecodeError
  | own (message : Str)
  deriving DecidableEq

/-- What a call comes to. -/
abbrev Py := Except Exn

/-- A value. -/
inductive Value where
  | null
  | bool (b : Bool)
  | int (n : ℤ)
  | float (x : Double)
  | str (s : Str)
  | list (xs : List Value)
  | dict (items : List (Str × Value))

/-- The items of a dictionary. -/
abbrev Dict := List (Str × Value)

/-- Of items with different keys, looking a key up finds the item with it. -/
theorem lookup_eq_some_iff_mem {β : Type} {l : List (Str × β)} (h : (l.map Prod.fst).Nodup) {k : Str} {v : β} :
    l.lookup k = some v ↔ (k, v) ∈ l := by
  induction l with
  | nil => simp
  | cons p l ih =>
    obtain ⟨k', v'⟩ := p
    rw [List.map_cons, List.nodup_cons] at h
    rw [List.lookup_cons, List.mem_cons, Prod.mk.injEq]
    by_cases hk : k = k'
    · subst hk
      rw [beq_self_eq_true]
      constructor
      · intro hv
        exact Or.inl ⟨rfl, (Option.some.inj hv).symm⟩
      · rintro (⟨-, rfl⟩ | hmem)
        · rfl
        · exact absurd (List.mem_map.mpr ⟨(k, v), hmem, rfl⟩) h.1
    · rw [beq_false_of_ne hk]
      show l.lookup k = some v ↔ _
      rw [ih h.2]
      exact ⟨Or.inr, fun h => h.resolve_left fun he => hk he.1⟩

/-- Items some of which are left out, their keys apart. -/
theorem lookup_filterMap {β : Type} {l : List (Str × Option β)} (h : (l.map Prod.fst).Nodup) (k : Str) :
    (l.filterMap fun p => p.2.map fun v => (p.1, v)).lookup k = (l.lookup k).join := by
  induction l with
  | nil => rfl
  | cons p l ih =>
    obtain ⟨k', v⟩ := p
    rw [List.map_cons, List.nodup_cons] at h
    have hrest := ih h.2
    cases v with
    | none =>
      show (l.filterMap fun p => p.2.map fun v => (p.1, v)).lookup k = _
      rw [hrest, List.lookup_cons]
      cases hk : k == k' with
      | false => rfl
      | true =>
        rw [beq_iff_eq] at hk
        subst hk
        rw [List.lookup_eq_none_iff.mpr]
        · rfl
        · rintro p hp
          rw [bne_iff_ne]
          rintro rfl
          exact h.1 (List.mem_map.mpr ⟨p, hp, rfl⟩)
    | some w =>
      show ((k', w) :: l.filterMap fun p => p.2.map fun v => (p.1, v)).lookup k = _
      rw [List.lookup_cons, List.lookup_cons, hrest]
      cases k == k' <;> rfl

namespace Value

/-! ## Truth and equality -/

/-- `bool(v)` -/
def truthy : Value → Bool
  | .null => false
  | .bool b => b
  | .int n => n != 0
  | .float x => x != .finite 0 && x != .negativeZero
  | .str s => !s.isEmpty
  | .list xs => !xs.isEmpty
  | .dict items => !items.isEmpty

/-- What a number is worth; a `bool` counts as one. -/
def amount : Value → Option Double
  | .bool b => some (.finite (if b then 1 else 0))
  | .int n => some (.finite n)
  | .float .negativeZero => some (.finite 0)
  | .float x => some x
  | _ => none

mutual

/-- Equality inside a container, which a `nan` has with itself: the reader makes only one. -/
def same : Value → Value → Bool
  | .null, .null => true
  | .str s, .str t => s == t
  | .list xs, .list ys => sameAll xs ys
  | .dict d, .dict e => d.length == e.length && sameItems d e
  | v, w => v.amount.isSome && v.amount == w.amount

def sameAll : List Value → List Value → Bool
  | [], [] => true
  | x :: xs, y :: ys => same x y && sameAll xs ys
  | _, _ => false

def sameItems : List (Str × Value) → List (Str × Value) → Bool
  | [], _ => true
  | (k, v) :: d, e => (match e.lookup k with
    | some w => same v w
    | none => false) && sameItems d e

end

/-- `v == w` -/
def eq (v w : Value) : Bool :=
  if v.amount = some .nan ∧ w.amount = some .nan then false else same v w

mutual

/-- `v > w` -/
def gt : Value → Value → Py Bool
  | .str s, .str t => .ok (decide (t < s))
  | .list xs, .list ys => gtAll xs ys
  | v, w => match v.amount, w.amount with
    | some x, some y => .ok (y.lt x)
    | _, _ => .error .typeError

/-- Lists compare at the first place where they differ. -/
def gtAll : List Value → List Value → Py Bool
  | [], _ => .ok false
  | _ :: _, [] => .ok true
  | x :: xs, y :: ys => if same x y then gtAll xs ys else gt x y

end

/-! ## Looking into a value -/

/-- `v.get(key, default)` -/
def getD (v : Value) (key : Str) (default : Value) : Py Value :=
  match v with
  | .dict items => .ok ((items.lookup key).getD default)
  | _ => .error .attributeError

/-- `v.get(key)` -/
def get (v : Value) (key : Str) : Py Value := v.getD key .null

/-- `v[key]` -/
def item (v : Value) (key : Str) : Py Value :=
  match v with
  | .dict items => match items.lookup key with
    | some w => .ok w
    | none => .error .keyError
  | _ => .error .typeError

/-- `v or w` -/
def or (v w : Value) : Value := if v.truthy then v else w

/-- What `for x in v` goes through. -/
def iter : Value → Py (List Value)
  | .list xs => .ok xs
  | .dict items => .ok (items.map fun p => .str p.1)
  | .str s => .ok (s.map fun c => .str [c])
  | _ => .error .typeError

/-- A value that may be a key: neither a list nor a dictionary. -/
def hashable : Value → Bool
  | .list _ => false
  | .dict _ => false
  | _ => true

/-! ## Showing a value -/

/-- A hexadecimal digit. -/
def hexDigit (n : Nat) : Nat := if n < 10 then 0x30 + n else 0x57 + n

/-- `n` in `width` hexadecimal digits. -/
def hexOf (width n : Nat) : Str := (List.range width).reverse.map fun i => hexDigit (n / 16 ^ i % 16)

section Show

-- `str.isprintable` of one character, from the Unicode tables
variable (printable : Nat → Bool)

/-- One character inside the quotes. -/
def reprChar (quote c : Nat) : Str :=
  if c = quote ∨ c = 0x5c then [0x5c, c]
  else if c = 0x09 then lit "\\t"
  else if c = 0x0a then lit "\\n"
  else if c = 0x0d then lit "\\r"
  else if c < 0x20 ∨ c = 0x7f then lit "\\x" ++ hexOf 2 c
  else if c < 0x7f ∨ printable c = true then [c]
  else if c < 0x100 then lit "\\x" ++ hexOf 2 c
  else if c < 0x10000 then lit "\\u" ++ hexOf 4 c
  else lit "\\U" ++ hexOf 8 c

/-- `repr` of a string: in double quotes when it holds a single one and no double one. -/
def reprStr (s : Str) : Str :=
  let quote := if 0x27 ∈ s ∧ 0x22 ∉ s then 0x22 else 0x27
  [quote] ++ s.flatMap (reprChar printable quote) ++ [quote]

/-- `repr` of an integer -/
def reprInt (n : ℤ) : Str := if n < 0 then lit "-" ++ decimal n.natAbs else decimal n.natAbs

mutual

/-- `repr(v)` -/
def repr : Value → Str
  | .null => lit "None"
  | .bool b => if b then lit "True" else lit "False"
  | .int n => reprInt n
  | .float x => x.repr
  | .str s => reprStr printable s
  | .list xs => lit "[" ++ reprAll xs ++ lit "]"
  | .dict items => lit "\x7b" ++ reprItems items ++ lit "\x7d"

def reprAll : List Value → Str
  | [] => []
  | [x] => repr x
  | x :: xs => repr x ++ lit ", " ++ reprAll xs

def reprItems : List (Str × Value) → Str
  | [] => []
  | [(k, v)] => reprStr printable k ++ lit ": " ++ repr v
  | (k, v) :: items => reprStr printable k ++ lit ": " ++ repr v ++ lit ", " ++ reprItems items

end

/-- `str(v)` -/
def text : Value → Str
  | .str s => s
  | v => repr printable v

end Show

/-! ## The small facts -/

@[simp] theorem getD_dict (items : Dict) (key : Str) (default : Value) :
    (Value.dict items).getD key default = .ok ((items.lookup key).getD default) := rfl

@[simp] theorem get_dict (items : Dict) (key : Str) :
    (Value.dict items).get key = .ok ((items.lookup key).getD .null) := rfl

theorem item_eq_ok {v w : Value} {key : Str} (h : v.item key = .ok w) :
    ∃ items, v = .dict items ∧ items.lookup key = some w := by
  cases v with
  | dict items =>
    refine ⟨items, rfl, ?_⟩
    cases hu : items.lookup key with
    | some u =>
      rw [item, hu] at h
      rw [Except.ok.inj h]
    | none =>
      rw [item, hu] at h
      cases h
  | _ => cases h

theorem eq_dict (d e : Dict) : (Value.dict d).eq (.dict e) = same (.dict d) (.dict e) :=
  if_neg fun h => by cases h.1

/-- A string equals only itself. -/
theorem eq_str {v : Value} {s : Str} : v.eq (.str s) = true ↔ v = .str s := by
  have hnan : ¬ (v.amount = some .nan ∧ (Value.str s).amount = some .nan) := fun h => by cases h.2
  rw [eq, if_neg hnan]
  cases v with
  | str t => simp [same]
  | null => simp [same, amount]
  | bool b => simp [same, amount]
  | int n => simp [same, amount]
  | float x => cases x <;> simp [same, amount]
  | list xs => simp [same, amount]
  | dict items => simp [same, amount]

end Value

end LocalPlatform.Python
