/-
# LocalPlatform.Python.Files — paths, and what a script finds on the disk.

A `Path` is its parts.  The disk is whatever answers the questions a script asks of it: whether a path is
a symbolic link, whether it is a file, and what can be read there.  Text is read as UTF-8, strictly, with
every kind of line end as `\n`.
-/
import LocalPlatform.Codec.Utf8
import LocalPlatform.Python.Value

namespace LocalPlatform.Python

open Codec (Bytes Rune runes validUtf8)

/-- A `Path`. -/
structure Path where
  absolute : Bool
  parts : List Str
  deriving DecidableEq

namespace Path

/-- `p.parent` -/
def parent (p : Path) : Path := { p with parts := p.parts.dropLast }

/-- `p.name` -/
def name (p : Path) : Str := p.parts.getLastD []

/-- `p / name`, for a name without a separator. -/
def child (p : Path) (name : Str) : Path := { p with parts := p.parts ++ [name] }

/-- `p in q.parents` -/
def inParents (p q : Path) : Bool := p.absolute == q.absolute && p.parts.isPrefixOf q.parts && p.parts != q.parts

theorem inParents_iff {p q : Path} :
    p.inParents q = true ↔ p.absolute = q.absolute ∧ p.parts <+: q.parts ∧ p.parts ≠ q.parts := by
  unfold inParents
  rw [Bool.and_eq_true, Bool.and_eq_true, beq_iff_eq, List.isPrefixOf_iff_prefix, bne_iff_ne, and_assoc]

/-- What has a parent is shortened by going there. -/
theorem length_parent_lt {p q : Path} (h : p.inParents q = true) : q.parent.parts.length < q.parts.length := by
  obtain ⟨-, hfront, hne⟩ := inParents_iff.mp h
  have hpos : 0 < q.parts.length := by
    apply List.length_pos_of_ne_nil
    rintro hnil
    rw [hnil, List.prefix_nil] at hfront
    exact hne (hfront.trans hnil.symm)
  show q.parts.dropLast.length < q.parts.length
  rw [List.length_dropLast]
  omega

/-- `str(p)` -/
def text (p : Path) : Str :=
  if p.absolute then lit "/" ++ (lit "/").intercalate p.parts
  else if p.parts = [] then lit "."
  else (lit "/").intercalate p.parts

end Path

/-- Why nothing was read: `FileNotFoundError`, or another `OSError`. -/
inductive Unread where
  | missing
  | failed
  deriving DecidableEq

/-- The disk, as it is while a script runs. -/
structure Disk where
  cwd : List Str
  isSymlink : Path → Bool
  isFile : Path → Bool
  readBytes : Path → Except Unread Bytes

/-- `p.absolute()` -/
def Disk.absolute (disk : Disk) (p : Path) : Path :=
  if p.absolute then p else { absolute := true, parts := disk.cwd ++ p.parts }

/-! ## Text -/

/-- The code point of a rune. -/
def codePoint : Rune → Nat
  | .one a => a.toNat
  | .two a b => (a.toNat - 0xc0) * 64 + (b.toNat - 0x80)
  | .three a b c => (a.toNat - 0xe0) * 4096 + (b.toNat - 0x80) * 64 + (c.toNat - 0x80)
  | .four a b c d => (a.toNat - 0xf0) * 262144 + (b.toNat - 0x80) * 4096 + (c.toNat - 0x80) * 64 + (d.toNat - 0x80)
  | .bad _ => 0xfffd

/-- `data.decode("utf-8")` -/
def decode (data : Bytes) : Py Str := if validUtf8 data then .ok ((runes data).map codePoint) else .error .valueError

/-- Line ends as a text file is read with. -/
def universalNewlines : Str → Str
  | 0x0d :: 0x0a :: r => 0x0a :: universalNewlines r
  | 0x0d :: r => 0x0a :: universalNewlines r
  | c :: r => c :: universalNewlines r
  | [] => []

example : decode [0x7b, 0xc3, 0xa9, 0xe2, 0x82, 0xac] = .ok [0x7b, 0xe9, 0x20ac] := by decide

end LocalPlatform.Python
