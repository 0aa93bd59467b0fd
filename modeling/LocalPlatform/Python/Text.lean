/-
# LocalPlatform.Python.Text — Python strings.

A Python `str` is a sequence of code points, and nothing keeps a surrogate out of one: the JSON reader
puts a lone surrogate escape there as it stands.  So a `Str` is a list of numbers, not of `Char`s.  The
operations here are the ones the staging scripts call on strings, under Python's names for them.
-/
import Mathlib.Data.List.Infix
import Mathlib.Data.List.TakeWhile

namespace LocalPlatform.Python

/-- A Python `str`, by its code points. -/
abbrev Str := List Nat

instance : LawfulBEq Str := inferInstance

/-- The code points of a literal. -/
def lit (s : String) : Str := s.toList.map Char.toNat

namespace Str

/-- `sub in s`. -/
def contains (sub s : Str) : Bool := decide (sub <:+: s)

/-- `s.startswith(front)`. -/
def startswith (front s : Str) : Bool := front.isPrefixOf s

/-- `s.endswith(back)`. -/
def endswith (back s : Str) : Bool := back.isSuffixOf s

/-- `s.removesuffix(back)`. -/
def removesuffix (back s : Str) : Str := if endswith back s then s.take (s.length - back.length) else s

@[simp] theorem contains_iff {sub s : Str} : contains sub s = true ↔ sub <:+: s := decide_eq_true_iff

@[simp] theorem startswith_iff {front s : Str} : startswith front s = true ↔ front <+: s :=
  List.isPrefixOf_iff_prefix

@[simp] theorem endswith_iff {back s : Str} : endswith back s = true ↔ back <:+ s :=
  List.isSuffixOf_iff_suffix

/-! ## Names of files -/

/-- `path.suffix` of a path with this name: what begins at the last point, unless nothing but points stands in front. -/
def suffix (name : Str) : Str :=
  let behind := name.reverse.takeWhile (· != 0x2e)
  let front := (name.reverse.dropWhile (· != 0x2e)).tail
  if front.all (· == 0x2e) then [] else 0x2e :: behind.reverse

theorem suffix_append {stem extension : Str} (h : 0x2e ∉ extension) :
    suffix (stem ++ 0x2e :: extension) = if stem.all (· == 0x2e) then [] else 0x2e :: extension := by
  have hother : ∀ c ∈ extension.reverse, (c != 0x2e) = true := by
    intro c hc
    rw [bne_iff_ne]
    rintro rfl
    exact h (List.mem_reverse.mp hc)
  have hrev : (stem ++ 0x2e :: extension).reverse = extension.reverse ++ 0x2e :: stem.reverse := by simp
  unfold suffix
  rw [hrev, List.takeWhile_append_of_pos hother, List.dropWhile_append_of_pos hother, List.takeWhile_cons_of_neg (by simp),
    List.dropWhile_cons_of_neg (by simp), List.append_nil]
  dsimp only
  rw [List.reverse_reverse, List.tail_cons, List.all_reverse]

/-- A name with a point in it, cut at its last one. -/
theorem exists_of_point {name : Str} (h : 0x2e ∈ name) : ∃ stem extension, name = stem ++ 0x2e :: extension ∧ 0x2e ∉ extension := by
  obtain ⟨behind, front, hsplit, hnot⟩ := List.eq_append_cons_of_mem (List.mem_reverse.mpr h)
  refine ⟨front.reverse, behind.reverse, ?_, fun hmem => hnot (List.mem_reverse.mp hmem)⟩
  rw [← List.reverse_reverse name, hsplit]
  simp

/-- **The suffix of a name.** -/
theorem suffix_eq_iff {name extension : Str} (h : 0x2e ∉ extension) :
    suffix name = 0x2e :: extension ↔ ∃ stem, name = stem ++ 0x2e :: extension ∧ stem.all (· == 0x2e) = false := by
  constructor
  · intro hsuffix
    by_cases hpoint : 0x2e ∈ name
    · obtain ⟨stem, extension', rfl, hnot⟩ := exists_of_point hpoint
      rw [suffix_append hnot] at hsuffix
      split at hsuffix
      · cases hsuffix
      · next hstem =>
        obtain rfl : extension' = extension := List.tail_eq_of_cons_eq hsuffix
        exact ⟨stem, rfl, eq_false_of_ne_true hstem⟩
    · have hnone : name.reverse.dropWhile (· != 0x2e) = [] := by
        apply List.dropWhile_eq_nil_iff.mpr
        intro c hc
        rw [bne_iff_ne]
        rintro rfl
        exact hpoint (List.mem_reverse.mp hc)
      unfold suffix at hsuffix
      rw [hnone] at hsuffix
      cases hsuffix
  · rintro ⟨stem, rfl, hstem⟩
    rw [suffix_append h, hstem]
    rfl

/-! ## Blanks -/

/-- `c.isspace()` -/
def isspace (c : Nat) : Bool :=
  decide (0x09 ≤ c ∧ c ≤ 0x0d ∨ 0x1c ≤ c ∧ c ≤ 0x20 ∨ c = 0x85 ∨ c = 0xa0 ∨ c = 0x1680 ∨ 0x2000 ≤ c ∧ c ≤ 0x200a
    ∨ c = 0x2028 ∨ c = 0x2029 ∨ c = 0x202f ∨ c = 0x205f ∨ c = 0x3000)

/-- `s.strip()` -/
def strip (s : Str) : Str := ((s.dropWhile isspace).reverse.dropWhile isspace).reverse

theorem dropWhile_eq_self_of_head {p : Nat → Bool} {s : Str} (h : ∀ c ∈ s.head?, p c = false) : s.dropWhile p = s := by
  cases s with
  | nil => rfl
  | cons c s => exact List.dropWhile_cons_of_neg (by simp [h c rfl])

theorem head_dropWhile (p : Nat → Bool) (s : Str) : ∀ c ∈ (s.dropWhile p).head?, p c = false := by
  intro c hc
  have := List.head?_dropWhile_not p s
  rw [Option.mem_def.mp hc] at this
  simpa using this

/-- What is stripped begins with no blank: stripping the end of it takes nothing from the front. -/
theorem head_strip (s : Str) : ∀ c ∈ (strip s).head?, isspace c = false := by
  intro c hc
  unfold strip at hc
  generalize hfront : s.dropWhile isspace = front at hc
  obtain ⟨tail, htail⟩ : ∃ tail, front = (front.reverse.dropWhile isspace).reverse ++ tail := by
    refine ⟨(front.reverse.takeWhile isspace).reverse, ?_⟩
    rw [← List.reverse_append, List.takeWhile_append_dropWhile, List.reverse_reverse]
  apply head_dropWhile isspace s c
  rw [hfront, htail]
  cases hmid : (front.reverse.dropWhile isspace).reverse with
  | nil =>
    rw [hmid] at hc
    cases hc
  | cons d mid =>
    rw [hmid] at hc
    exact hc

theorem strip_strip (s : Str) : strip (strip s) = strip s := by
  have hfront : (strip s).dropWhile isspace = strip s := dropWhile_eq_self_of_head (head_strip s)
  show (((strip s).dropWhile isspace).reverse.dropWhile isspace).reverse = _
  rw [hfront]
  show ((((s.dropWhile isspace).reverse.dropWhile isspace).reverse.reverse).dropWhile isspace).reverse = _
  rw [List.reverse_reverse, dropWhile_eq_self_of_head (head_dropWhile _ _)]
  rfl

theorem length_strip_le (s : Str) : (strip s).length ≤ s.length := by
  unfold strip
  rw [List.length_reverse]
  apply le_trans (List.dropWhile_suffix isspace).length_le
  rw [List.length_reverse]
  exact (List.dropWhile_suffix isspace).length_le

theorem mem_of_mem_strip {s : Str} {c : Nat} (h : c ∈ strip s) : c ∈ s := by
  have h1 := (List.dropWhile_suffix isspace).subset (List.mem_reverse.mp h)
  exact (List.dropWhile_suffix isspace).subset (List.mem_reverse.mp h1)

end Str

end LocalPlatform.Python
