/-
# LocalPlatform.Python.JsonHook — reading JSON with a hook for the objects.

`loadsWith hook` is `json.loads(…, object_pairs_hook=hook)`: what an object is made of is the hook's business, everything
else is read as ever.

A text need not come from `json.dump` to be read: `Reads hook t v` says of any text that `scan_once` reads it as the value,
whatever follows that could not be a part of it.  Such texts are closed under what writers of JSON do: lists and objects in
the layout of an indented text, the members in any order, are read part by part.  So whatever `json.dump` writes is read, if
the hook takes objects of which the keys are apart (`reads_dump`): floats as floats, strings with their pairs joined, everything
else as it was (`Back`).  Without floats what comes back is known (`loadsWith_dumps`).
-/
import LocalPlatform.Python.JsonFloat

namespace LocalPlatform.Python.Json

mutual

/-- `scan_once`, with a hook -/
def scanWith (hook : List (Str × Value) → Py Value) : Nat → Str → Py (Value × Str)
  | 0, _ => .error .jsonDecodeError
  | n + 1, s =>
    match s with
    | 0x22 :: r => do
      let (t, r) ← scanString r
      return (.str t, r)
    | 0x7b :: r =>
      match skip r with
      | 0x7d :: r => do
        let v ← hook []
        return (v, r)
      | r => do
        let (items, r) ← scanMembersWith hook n r
        let v ← hook items
        return (v, r)
    | 0x5b :: r =>
      match skip r with
      | 0x5d :: r => .ok (.list [], r)
      | r => do
        let (xs, r) ← scanElementsWith hook n r
        return (.list xs, r)
    | 0x6e :: _ => scanConstant (lit "null") .null s
    | 0x74 :: _ => scanConstant (lit "true") (.bool true) s
    | 0x66 :: _ => scanConstant (lit "false") (.bool false) s
    | 0x4e :: _ => scanConstant (lit "NaN") (.float .nan) s
    | 0x49 :: _ => scanConstant (lit "Infinity") (.float (.infinite false)) s
    | 0x2d :: 0x49 :: _ => scanConstant (lit "-Infinity") (.float (.infinite true)) s
    | 0x2d :: r => scanNumber true r
    | s => scanNumber false s

/-- The elements of an array, to its end. -/
def scanElementsWith (hook : List (Str × Value) → Py Value) : Nat → Str → Py (List Value × Str)
  | 0, _ => .error .jsonDecodeError
  | n + 1, s => do
    let (x, r) ← scanWith hook n s
    match skip r with
    | 0x5d :: r => return ([x], r)
    | 0x2c :: r => do
      let (xs, r) ← scanElementsWith hook n (skip r)
      return (x :: xs, r)
    | _ => throw .jsonDecodeError

/-- The members of an object, to its end. -/
def scanMembersWith (hook : List (Str × Value) → Py Value) : Nat → Str → Py (List (Str × Value) × Str)
  | 0, _ => .error .jsonDecodeError
  | n + 1, s => do
    match s with
    | 0x22 :: r => do
      let (key, r) ← scanString r
      match skip r with
      | 0x3a :: r => do
        let (v, r) ← scanWith hook n (skip r)
        match skip r with
        | 0x7d :: r => return ([(key, v)], r)
        | 0x2c :: r => do
          let (items, r) ← scanMembersWith hook n (skip r)
          return ((key, v) :: items, r)
        | _ => throw .jsonDecodeError
      | _ => throw .jsonDecodeError
    | _ => throw .jsonDecodeError

end

/-- **`json.loads(s, object_pairs_hook=hook)`**, of a text that is decoded. -/
def loadsWith (hook : List (Str × Value) → Py Value) (s : Str) : Py Value := do
  let (v, r) ← scanWith hook (s.length + 1) (skip s)
  if skip r = [] then return v else throw .jsonDecodeError

variable {hook : List (Str × Value) → Py Value}

/-- The text is read as the value, with fuel for the text, and begins as that of a value does. -/
structure Reads (hook : List (Str × Value) → Py Value) (t : Str) (v : Value) : Prop where
  scan : ∀ n r, t.length ≤ n → Ends r → scanWith hook n (t ++ r) = .ok (v, r)
  visible : Visible t

/-! ## Parts -/

theorem scanWith_digit {c : Nat} (h : isDigit c = true) (n : Nat) (r : Str) :
    scanWith hook (n + 1) (c :: r) = scanNumber false (c :: r) := by
  unfold isDigit at h
  simp only [Bool.and_eq_true, decide_eq_true_eq] at h
  obtain ⟨h1, h2⟩ := h
  interval_cases c <;> rfl

/-- A digit behind a sign. -/
theorem scanWith_minus {c : Nat} (h : isDigit c = true) (n : Nat) (r : Str) :
    scanWith hook (n + 1) (0x2d :: c :: r) = scanNumber true (c :: r) := by
  unfold isDigit at h
  simp only [Bool.and_eq_true, decide_eq_true_eq] at h
  obtain ⟨h1, h2⟩ := h
  interval_cases c <;> rfl

/-- Fuel for a text that is not empty. -/
theorem fuel_of_visible {t : Str} (h : Visible t) {n : Nat} (hn : t.length ≤ n) : ∃ m, n = m + 1 := by
  obtain ⟨c, s, rfl, -⟩ := h
  exact ⟨n - 1, (Nat.sub_add_cancel (le_trans (Nat.succ_pos _) hn)).symm⟩

/-- A count. -/
theorem reads_decimal {k : Nat} (hlen : (decimal k).length ≤ 4300) : Reads hook (decimal k) (.int k) where
  visible := visible_decimal k
  scan := by
    intro n r hn hr
    obtain ⟨c, s, heq⟩ := List.exists_cons_of_ne_nil (decimal_ne_nil k)
    have hc : isDigit c = true := isDigit_of_mem_decimal (n := k) (by rw [heq]; exact List.mem_cons_self)
    obtain ⟨m, rfl⟩ := fuel_of_visible (visible_decimal k) hn
    have hdigit : scanWith hook (m + 1) (decimal k ++ r) = scanNumber false (decimal k ++ r) := by
      rw [heq, List.cons_append]
      exact scanWith_digit hc m (s ++ r)
    rw [hdigit, scanNumber_decimal false hlen hr]
    rfl

/-- An integer. -/
theorem reads_int {k : ℤ} (hlen : (decimal k.natAbs).length ≤ 4300) : Reads hook (Value.reprInt k) (.int k) := by
  by_cases hneg : k < 0
  · have hminus : Value.reprInt k = 0x2d :: decimal k.natAbs := if_pos hneg
    refine ⟨fun n r hn hr => ?_, ⟨_, _, hminus, rfl⟩⟩
    have hpos : k.natAbs ≠ 0 := by omega
    obtain ⟨c, s, heq, hc, -⟩ := decimal_head hpos
    rw [hminus] at hn ⊢
    obtain ⟨m, rfl⟩ : ∃ m, n = m + 1 := ⟨n - 1, (Nat.sub_add_cancel (le_trans (Nat.succ_pos _) hn)).symm⟩
    have hsign : scanWith hook (m + 1) (0x2d :: (c :: s ++ r)) = scanNumber true (c :: s ++ r) := scanWith_minus hc m _
    rw [List.cons_append, heq, hsign, ← heq, scanNumber_decimal true hlen hr]
    congr 3
    show -(k.natAbs : ℤ) = k
    omega
  · have hplain : Value.reprInt k = decimal k.natAbs := if_neg hneg
    have habs : (k.natAbs : ℤ) = k := by omega
    rw [hplain, ← habs]
    exact reads_decimal hlen

/-- A string, with its pairs joined. -/
theorem reads_quote {s : Str} (hcodes : CodePoints s) : Reads hook (quote s) (.str (pairUp s)) where
  visible := ⟨_, _, rfl, rfl⟩
  scan := by
    intro n r hn _
    obtain ⟨m, rfl⟩ : ∃ m, n = m + 1 := ⟨n - 1, (Nat.sub_add_cancel (le_trans (Nat.succ_pos _) hn)).symm⟩
    have htext : quote s ++ r = 0x22 :: (s.flatMap escape ++ 0x22 :: r) := by
      unfold quote
      simp only [List.append_assoc, List.cons_append, List.nil_append]
    rw [htext]
    show (scanString _ >>= _) = _
    rw [scanString_quote hcodes]
    rfl

/-! ## Lists -/

theorem scanElementsWith_last {n : Nat} {s t r : Str} {x : Value} (h : scanWith hook n s = .ok (x, t)) (ht : skip t = 0x5d :: r) :
    scanElementsWith hook (n + 1) s = .ok ([x], r) := by
  simp only [scanElementsWith, h, ht, bind, Except.bind, pure, Except.pure]

theorem scanElementsWith_next {n : Nat} {s t r r' : Str} {x : Value} {xs : List Value} (h : scanWith hook n s = .ok (x, t))
    (ht : skip t = 0x2c :: r) (hrest : scanElementsWith hook n (skip r) = .ok (xs, r')) :
    scanElementsWith hook (n + 1) s = .ok (x :: xs, r') := by
  simp only [scanElementsWith, h, ht, hrest, bind, Except.bind, pure, Except.pure]

/-- The elements are read one after another. -/
theorem scanElementsWith_joinWith (level closing : Nat) (r : Str) {p : Str × Value} {parts : List (Str × Value)}
    (h : ∀ q ∈ p :: parts, Reads hook q.1 q.2) {n : Nat}
    (hn : (joinWith (lit "," ++ newline level) ((p :: parts).map Prod.fst)).length < n) :
    scanElementsWith hook n (joinWith (lit "," ++ newline level) ((p :: parts).map Prod.fst) ++ (newline closing ++ 0x5d :: r))
      = .ok ((p :: parts).map Prod.snd, r) := by
  induction parts generalizing n p with
  | nil =>
    obtain ⟨m, rfl⟩ : ∃ m, n = m + 1 := ⟨n - 1, by omega⟩
    exact scanElementsWith_last ((h p List.mem_cons_self).scan m _ (Nat.le_of_lt_succ hn) (ends_newline _ _))
      (skip_newline closing fun c hc => by cases hc; rfl)
  | cons q parts ih =>
    obtain ⟨m, rfl⟩ : ∃ m, n = m + 1 := ⟨n - 1, by omega⟩
    have hq := (h q (List.mem_cons_of_mem _ List.mem_cons_self)).visible
    rw [List.map_cons, List.map_cons, joinWith_cons] at hn
    rw [List.map_cons, List.map_cons, joinWith_cons, List.append_assoc, List.append_assoc]
    simp only [List.length_append] at hn
    have hcomma : 0 < (lit ",").length := by decide
    refine scanElementsWith_next ((h p List.mem_cons_self).scan m _ (by omega) (ends_comma _))
      (skip_of_head fun c hc => by cases hc; rfl) ?_
    show scanElementsWith hook m (skip (newline level ++ _)) = _
    rw [skip_newline level ((visible_joinWith _ hq _).head _)]
    exact ih (fun z hz => h z (List.mem_cons_of_mem _ hz)) (by
      rw [List.map_cons]
      omega)

theorem scanWith_list {n : Nat} {s t r : Str} {xs : List Value} (hskip : skip s = t) (ht : ∀ c ∈ t.head?, c ≠ 0x5d ∧ c ≠ 0x7d)
    (h : scanElementsWith hook n t = .ok (xs, r)) : scanWith hook (n + 1) (0x5b :: s) = .ok (.list xs, r) := by
  simp only [scanWith, hskip]
  split
  · exact absurd rfl (ht 0x5d rfl).1
  · simp only [h, bind, Except.bind, pure, Except.pure]

/-- Fuel for a block of lines is fuel for more than the lines. -/
theorem fuel_of_block {opening closing level : Nat} {x : Str} {xs : List Str} {n : Nat}
    (h : (block opening closing level (x :: xs)).length ≤ n) :
    ∃ m, n = m + 1 ∧ (joinWith (lit "," ++ newline (level + 1)) (x :: xs)).length < m := by
  obtain ⟨m, rfl⟩ : ∃ m, n = m + 1 := by
    refine ⟨n - 1, (Nat.sub_add_cancel (le_trans ?_ h)).symm⟩
    rw [block, if_neg (List.cons_ne_nil _ _)]
    exact Nat.succ_pos _
  exact ⟨m, rfl, length_joinWith_lt_block h⟩

/-- **A list** is read as its parts are. -/
theorem reads_list (level : Nat) (parts : List (Str × Value)) (h : ∀ p ∈ parts, Reads hook p.1 p.2) :
    Reads hook (block 0x5b 0x5d level (parts.map Prod.fst)) (.list (parts.map Prod.snd)) where
  visible := visible_block rfl _ _ _
  scan := by
    intro n r hn _
    cases parts with
    | nil =>
      obtain ⟨m, rfl⟩ : ∃ m, n = m + 1 := ⟨n - 1, (Nat.sub_add_cancel (le_trans (Nat.succ_pos _) hn)).symm⟩
      rfl
    | cons p parts =>
      obtain ⟨m, rfl, hm⟩ := fuel_of_block hn
      have helements := scanElementsWith_joinWith (level + 1) level r h hm
      have hvisible := visible_joinWith (lit "," ++ newline (level + 1)) (h p List.mem_cons_self).visible (parts.map Prod.fst)
      rw [List.map_cons, block_append]
      exact scanWith_list (skip_newline (level + 1) (hvisible.head _)) (hvisible.avoids _) helements

/-! ## Objects -/

/-- A part of an object: its key, the text of its value, and the value. -/
structure Part where
  key : Str
  text : Str
  value : Value

namespace Part

/-- Its line. -/
def line (m : Part) : Str := quote m.key ++ lit ": " ++ m.text

def item (m : Part) : Str × Value := (m.key, m.value)

/-- What is read of it. -/
def read (m : Part) : Str × Value := (pairUp m.key, m.value)

/-- Its key has characters, and its text is read as its value. -/
structure Good (hook : List (Str × Value) → Py Value) (m : Part) : Prop where
  codes : CodePoints m.key
  reads : Reads hook m.text m.value

theorem visible_line (m : Part) : Visible m.line := ⟨_, _, rfl, rfl⟩

theorem line_append (m : Part) (r : Str) :
    m.line ++ r = 0x22 :: (m.key.flatMap escape ++ 0x22 :: (0x3a :: 0x20 :: (m.text ++ r))) := by
  unfold line quote
  simp only [List.append_assoc, List.cons_append, List.nil_append]
  rfl

theorem length_text_le (m : Part) : m.text.length ≤ m.line.length := by
  unfold line
  simp only [List.length_append]
  omega

end Part

theorem scanMembersWith_last {n : Nat} {s t₁ t₂ t₃ r key : Str} {v : Value} (hkey : scanString s = .ok (key, t₁))
    (hcolon : skip t₁ = 0x3a :: t₂) (hvalue : scanWith hook n (skip t₂) = .ok (v, t₃)) (ht : skip t₃ = 0x7d :: r) :
    scanMembersWith hook (n + 1) (0x22 :: s) = .ok ([(key, v)], r) := by
  simp only [scanMembersWith, hkey, hcolon, hvalue, ht, bind, Except.bind, pure, Except.pure]

theorem scanMembersWith_next {n : Nat} {s t₁ t₂ t₃ r r' key : Str} {v : Value} {items : Dict}
    (hkey : scanString s = .ok (key, t₁)) (hcolon : skip t₁ = 0x3a :: t₂) (hvalue : scanWith hook n (skip t₂) = .ok (v, t₃))
    (ht : skip t₃ = 0x2c :: r) (hrest : scanMembersWith hook n (skip r) = .ok (items, r')) :
    scanMembersWith hook (n + 1) (0x22 :: s) = .ok ((key, v) :: items, r') := by
  simp only [scanMembersWith, hkey, hcolon, hvalue, ht, hrest, bind, Except.bind, pure, Except.pure]

theorem skip_colon (t : Str) : skip (0x3a :: t) = 0x3a :: t := skip_of_head fun c hc => by cases hc; rfl

theorem Part.Good.scanString {m : Part} (h : m.Good hook) (t : Str) :
    scanString (m.key.flatMap escape ++ 0x22 :: t) = .ok (pairUp m.key, t) := scanString_quote h.codes t

/-- The value behind the blank. -/
theorem Part.Good.skip {m : Part} (h : m.Good hook) (t : Str) : skip (0x20 :: (m.text ++ t)) = m.text ++ t :=
  (List.dropWhile_cons_of_pos rfl).trans (skip_of_head (h.reads.visible.head t))

/-- The members are read one after another. -/
theorem scanMembersWith_joinWith (level closing : Nat) (r : Str) {m : Part} {members : List Part}
    (h : ∀ q ∈ m :: members, q.Good hook) {n : Nat}
    (hn : (joinWith (lit "," ++ newline level) ((m :: members).map Part.line)).length < n) :
    scanMembersWith hook n (joinWith (lit "," ++ newline level) ((m :: members).map Part.line) ++ (newline closing ++ 0x7d :: r))
      = .ok ((m :: members).map Part.read, r) := by
  have hm := h m List.mem_cons_self
  have hlen := m.length_text_le
  -- on the members behind the first, which is the one being read
  induction members generalizing n m with
  | nil =>
    obtain ⟨k, rfl⟩ : ∃ k, n = k + 1 := ⟨n - 1, by omega⟩
    show scanMembersWith hook (k + 1) (m.line ++ _) = _
    rw [m.line_append]
    refine scanMembersWith_last (hm.scanString _) (skip_colon _) ?_ (skip_newline closing fun c hc => by cases hc; rfl)
    rw [hm.skip]
    exact hm.reads.scan k _ (le_trans hlen (Nat.le_of_lt_succ hn)) (ends_newline _ _)
  | cons q members ih =>
    obtain ⟨k, rfl⟩ : ∃ k, n = k + 1 := ⟨n - 1, by omega⟩
    rw [List.map_cons, List.map_cons, joinWith_cons] at hn
    rw [List.map_cons, List.map_cons, joinWith_cons, List.append_assoc, List.append_assoc, m.line_append]
    simp only [List.length_append] at hn
    have hcomma : 0 < (lit ",").length := by decide
    refine scanMembersWith_next (hm.scanString _) (skip_colon _)
      (by
        rw [hm.skip]
        exact hm.reads.scan k _ (by omega) (ends_comma _))
      (skip_of_head fun c hc => by cases hc; rfl) ?_
    show scanMembersWith hook k (skip (newline level ++ _)) = _
    rw [skip_newline level ((visible_joinWith _ q.visible_line _).head _)]
    have hq : ∀ z ∈ q :: members, z.Good hook := fun z hz => h z (List.mem_cons_of_mem _ hz)
    exact ih hq (by
      rw [List.map_cons]
      omega) (hq q List.mem_cons_self) q.length_text_le

theorem scanWith_dict {n : Nat} {s t r : Str} {items : List (Str × Value)} {v : Value} (hskip : skip s = t)
    (ht : ∀ c ∈ t.head?, c ≠ 0x5d ∧ c ≠ 0x7d) (h : scanMembersWith hook n t = .ok (items, r)) (hv : hook items = .ok v) :
    scanWith hook (n + 1) (0x7b :: s) = .ok (v, r) := by
  simp only [scanWith, hskip]
  split
  · exact absurd rfl (ht 0x7d rfl).2
  · simp only [h, hv, bind, Except.bind, pure, Except.pure]

/-- **An object** is read as the hook makes of its parts, in the order they stand in. -/
theorem reads_object (level : Nat) (parts : List Part) {v : Value} (h : ∀ q ∈ parts, q.Good hook)
    (hv : hook (parts.map Part.read) = .ok v) : Reads hook (block 0x7b 0x7d level (parts.map Part.line)) v where
  visible := visible_block rfl _ _ _
  scan := by
    intro n r hn _
    cases parts with
    | nil =>
      obtain ⟨k, rfl⟩ : ∃ k, n = k + 1 := ⟨n - 1, (Nat.sub_add_cancel (le_trans (Nat.succ_pos _) hn)).symm⟩
      show (hook [] >>= fun v => pure (v, r)) = _
      rw [show hook [] = .ok v from hv]
      rfl
    | cons m members =>
      obtain ⟨k, rfl, hk⟩ := fuel_of_block hn
      have hmembers := scanMembersWith_joinWith (level + 1) level r h hk
      have hvisible := visible_joinWith (lit "," ++ newline (level + 1)) m.visible_line (members.map Part.line)
      rw [List.map_cons, block_append]
      exact scanWith_dict (skip_newline (level + 1) (hvisible.head _)) (hvisible.avoids _) hmembers hv

/-! ## Documents -/

/-- A constant. -/
theorem reads_null : Reads hook (lit "null") .null :=
  ⟨fun n r hn _ => by obtain ⟨m, rfl⟩ := fuel_of_visible ⟨_, _, rfl, rfl⟩ hn; rfl, ⟨_, _, rfl, rfl⟩⟩

theorem reads_bool (b : Bool) : Reads hook (if b then lit "true" else lit "false") (.bool b) := by
  have hvisible : Visible (if b then lit "true" else lit "false") := by cases b <;> exact ⟨_, _, rfl, rfl⟩
  refine ⟨fun n r hn _ => ?_, hvisible⟩
  obtain ⟨m, rfl⟩ := fuel_of_visible hvisible hn
  cases b <;> rfl

/-- The texts of a float that is no number. -/
theorem reads_constant (x : Double) (h : x = .nan ∨ ∃ negative, x = .infinite negative) : Reads hook (floatText x) (.float x) := by
  rcases h with rfl | ⟨negative, rfl⟩
  · refine ⟨fun n r hn _ => ?_, ⟨_, _, rfl, rfl⟩⟩
    obtain ⟨m, rfl⟩ := fuel_of_visible ⟨_, _, rfl, rfl⟩ hn
    rfl
  · have hvisible : Visible (floatText (.infinite negative)) := by cases negative <;> exact ⟨_, _, rfl, rfl⟩
    refine ⟨fun n r hn _ => ?_, hvisible⟩
    obtain ⟨m, rfl⟩ := fuel_of_visible hvisible hn
    cases negative <;> rfl

/-- A float without a sign. -/
theorem reads_unsigned {t : Str} (h : IsFloat t) : ∃ y, Reads hook t (.float y) := by
  obtain ⟨y, hy⟩ := scanNumber_float false h
  obtain ⟨c, s, rfl, hc⟩ := h.head
  have hvisible : Visible (c :: s) := visible_digit hc s
  refine ⟨y, fun n r hn hr => ?_, hvisible⟩
  obtain ⟨m, rfl⟩ := fuel_of_visible hvisible hn
  rw [List.cons_append, scanWith_digit hc]
  exact hy r hr

/-- A float behind its sign. -/
theorem reads_negative {t : Str} (h : IsFloat t) : ∃ y, Reads hook (0x2d :: t) (.float y) := by
  obtain ⟨y, hy⟩ := scanNumber_float true h
  obtain ⟨c, s, rfl, hc⟩ := h.head
  have hvisible : Visible (0x2d :: c :: s) := ⟨_, _, rfl, rfl⟩
  refine ⟨y, fun n r hn hr => ?_, hvisible⟩
  obtain ⟨m, rfl⟩ := fuel_of_visible hvisible hn
  rw [List.cons_append, List.cons_append, scanWith_minus hc]
  exact hy r hr

/-- **Every float that is written is read as one.** -/
theorem reads_float (x : Double) : ∃ y, Reads hook (floatText x) (.float y) := by
  rcases floatText_cases x with hconstant | ⟨t, ht, heq | heq⟩
  · exact ⟨x, reads_constant x hconstant⟩
  · rw [heq]
    exact reads_unsigned ht
  · rw [heq]
    exact reads_negative ht

/-- A value that `json.dump` writes and a reader can tell apart: no integer that `int` refuses, and in no dictionary two keys
that are read back as one. -/
inductive Written : Value → Prop
  | null : Written .null
  | bool (b : Bool) : Written (.bool b)
  | int (n : ℤ) (h : (decimal n.natAbs).length ≤ 4300) : Written (.int n)
  | float (x : Double) : Written (.float x)
  | str (s : Str) (h : CodePoints s) : Written (.str s)
  | list (xs : List Value) (h : ∀ x ∈ xs, Written x) : Written (.list xs)
  | dict (items : Dict) (hkeys : ∀ p ∈ items, CodePoints p.1) (hapart : (items.map fun p => pairUp p.1).Nodup)
      (h : ∀ p ∈ items, Written p.2) : Written (.dict items)

/-- What comes back of a value: of a float a float, of a string the one with its pairs joined, of a dictionary its items in the
order of the keys. -/
inductive Back : Value → Value → Prop
  | null : Back .null .null
  | bool (b : Bool) : Back (.bool b) (.bool b)
  | int (n : ℤ) : Back (.int n) (.int n)
  | float (x y : Double) : Back (.float x) (.float y)
  | str (s : Str) : Back (.str s) (.str (pairUp s))
  | list {xs : List Value} {f : Value → Value} (h : ∀ x ∈ xs, Back x (f x)) : Back (.list xs) (.list (xs.map f))
  | dict {items : Dict} {f : Value → Value} (h : ∀ p ∈ items, Back p.2 (f p.2)) :
      Back (.dict items) (.dict ((items.mergeSort byKey).map fun p => (pairUp p.1, f p.2)))

theorem Writable.written {v : Value} (h : Writable v) : Written v := by
  induction h with
  | null => exact .null
  | bool b => exact .bool b
  | int n hlen => exact .int n hlen
  | str s hs => exact .str s hs
  | list xs _ ih => exact .list xs ih
  | dict items hkeys hnodup _ ih =>
    refine .dict items (fun p hp => (hkeys p hp).1) ?_ ih
    rw [List.map_congr_left fun p hp => (hkeys p hp).2]
    exact hnodup

/-- Where there is no float and no pair in a key, what comes back is known. -/
theorem Back.eq_readBack {v w : Value} (h : Writable v) (hback : Back v w) : w = readBack v := by
  induction h generalizing w with
  | null =>
    cases hback
    rw [readBack] <;> simp
  | bool b =>
    cases hback
    rw [readBack] <;> simp
  | int n _ =>
    cases hback
    rw [readBack] <;> simp
  | str s _ =>
    cases hback
    rw [readBack]
  | list xs _ ih =>
    cases hback with
    | list hf =>
      rw [readBack, readBackAll_eq_map, List.map_congr_left fun x hx => ih x hx (hf x hx)]
  | dict items hkeys _ _ ih =>
    cases hback with
    | dict hf =>
      rw [readBack_dict]
      refine congrArg Value.dict (List.map_congr_left fun p hp => ?_)
      have hp := mem_sorted.mp hp
      rw [(hkeys p hp).2, ih p hp (hf p hp)]

/-- **Whatever `json.dump` writes is read**, at every level. -/
theorem reads_dump (hhook : ∀ items : Dict, (items.map Prod.fst).Nodup → hook items = .ok (.dict items)) {v : Value} (h : Written v) :
    ∀ level, ∃ w, Back v w ∧ Reads hook (dump level v) w := by
  induction h with
  | null => exact fun _ => ⟨_, .null, reads_null⟩
  | bool b => exact fun _ => ⟨_, .bool b, reads_bool b⟩
  | int k hlen => exact fun _ => ⟨_, .int k, reads_int hlen⟩
  | float x =>
    intro level
    obtain ⟨y, hy⟩ : ∃ y, Reads hook (floatText x) (.float y) := reads_float x
    exact ⟨_, .float x y, hy⟩
  | str s hs => exact fun _ => ⟨_, .str s, reads_quote hs⟩
  | list xs _ ih =>
    intro level
    choose! f hback hreads using fun x hx => ih x hx (level + 1)
    have hparts := reads_list level (xs.map fun x => (dump (level + 1) x, f x)) (by
      intro p hp
      obtain ⟨x, hx, rfl⟩ := List.mem_map.mp hp
      exact hreads x hx)
    rw [List.map_map, List.map_map] at hparts
    refine ⟨_, .list hback, ?_⟩
    rw [dump, dumpAll_eq_map]
    exact hparts
  | dict items hkeys hapart _ ih =>
    intro level
    -- the members are read with what their values read back as, in the order they were sorted to
    have hvalues : ∀ v ∈ items.map Prod.snd, ∃ w, Back v w ∧ Reads hook (dump (level + 1) v) w := by
      intro v hv
      obtain ⟨p, hp, rfl⟩ := List.mem_map.mp hv
      exact ih p hp (level + 1)
    choose! f hback hreads using hvalues
    have hparts := reads_object level ((items.mergeSort byKey).map fun p => ⟨p.1, dump (level + 1) p.2, f p.2⟩)
      (v := .dict ((items.mergeSort byKey).map fun p => (pairUp p.1, f p.2))) (by
        intro m hm
        obtain ⟨p, hp, rfl⟩ := List.mem_map.mp hm
        have hp := mem_sorted.mp hp
        exact ⟨hkeys p hp, hreads _ (List.mem_map_of_mem hp)⟩) (by
        rw [List.map_map]
        refine hhook _ ?_
        rw [List.map_map]
        exact ((List.mergeSort_perm items byKey).map fun p => pairUp p.1).nodup_iff.mpr hapart)
    rw [List.map_map] at hparts
    refine ⟨_, .dict fun p hp => hback _ (List.mem_map_of_mem hp), ?_⟩
    rw [dump_dict]
    exact hparts

/-- **A text with a line end behind it** is read. -/
theorem loadsWith_reads {t : Str} {v : Value} (h : Reads hook t v) : loadsWith hook (t ++ lit "\n") = .ok v := by
  have hends : Ends (lit "\n") := by
    intro c hc
    cases hc
    decide
  unfold loadsWith
  rw [skip_of_head (h.visible.head _), h.scan _ _ (by rw [List.length_append]; omega) hends]
  rfl

/-- **What `json.dump` wrote is read** with a hook that takes objects of which the keys are apart. -/
theorem loadsWith_dumps (hhook : ∀ items : Dict, (items.map Prod.fst).Nodup → hook items = .ok (.dict items)) {v : Value}
    (h : Writable v) : loadsWith hook (dumps v ++ lit "\n") = .ok (readBack v) := by
  obtain ⟨w, hback, hreads⟩ := reads_dump hhook h.written 0
  rw [← hback.eq_readBack h]
  exact loadsWith_reads hreads

end LocalPlatform.Python.Json
