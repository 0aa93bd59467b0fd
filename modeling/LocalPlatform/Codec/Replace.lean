/-
# LocalPlatform.Codec.Replace — every occurrence of a text replaced.

`replaceAll` is `strings.ReplaceAll`: occurrences from the left, none overlapping another.  What is put in their place stands
between two marks that the texts looked for do not have.  Such a text can then not arise across a replacement: it is in
what is left of the original, or between the marks (`infix_of_replaceAll`), and the text that was replaced is in neither
(`notInfix_replaceAll`).
-/
import LocalPlatform.Codec.Bytes
import Mathlib.Data.List.Infix

namespace LocalPlatform.Codec

/-- `strings.Cut`, with a separator of any length: what is in front of the first occurrence and what is behind it. -/
def cutAt (old : Bytes) : Bytes → Option (Bytes × Bytes)
  | [] => if old = [] then some ([], []) else none
  | c :: cs => if old.isPrefixOf (c :: cs) = true then some ([], (c :: cs).drop old.length) else (cutAt old cs).map fun p => (c :: p.1, p.2)

/-- The rest of a text, the first octets of which were replaced with something before them. -/
def replaceFrom (old new : Bytes) : Nat → Bytes → Bytes
  | _, [] => []
  | n + 1, _ :: cs => replaceFrom old new n cs
  | 0, c :: cs => if old.isPrefixOf (c :: cs) = true then new ++ replaceFrom old new (old.length - 1) cs else c :: replaceFrom old new 0 cs

/-- **`strings.ReplaceAll(s, old, new)`**, where `old` is not empty. -/
def replaceAll (s old new : Bytes) : Bytes := replaceFrom old new 0 s

example : replaceAll (ascii "aXbXXc") (ascii "X") (ascii "[R]") = ascii "a[R]b[R][R]c" := by decide

/-! ## The first occurrence -/

theorem replaceFrom_eq_drop (old new : Bytes) (n : Nat) (s : Bytes) : replaceFrom old new n s = replaceFrom old new 0 (s.drop n) := by
  induction n generalizing s with
  | zero => rw [List.drop_zero]
  | succ n ih =>
    cases s with
    | nil => rw [List.drop_nil, replaceFrom, replaceFrom]
    | cons c cs => rw [replaceFrom, ih, List.drop_succ_cons]

/-- Replacing is replacing the first occurrence, and then the rest. -/
theorem replaceAll_eq_cutAt {old : Bytes} (hold : old ≠ []) (new s : Bytes) :
    replaceAll s old new =
      match cutAt old s with
      | none => s
      | some (front, back) => front ++ new ++ replaceAll back old new := by
  unfold replaceAll
  induction s with
  | nil => rw [cutAt, if_neg hold, replaceFrom]
  | cons c cs ih =>
    rw [cutAt, replaceFrom]
    split
    · obtain ⟨n, hn⟩ := Nat.exists_eq_succ_of_ne_zero (fun h => hold (List.length_eq_zero_iff.mp h))
      rw [replaceFrom_eq_drop, hn]
      rfl
    · rw [ih]
      cases cutAt old cs with
      | none => rfl
      | some p => rfl

theorem cutAt_eq_none {old s : Bytes} (h : cutAt old s = none) : ¬ old <:+: s := by
  induction s with
  | nil =>
    rw [cutAt] at h
    split at h
    · cases h
    · next hne => exact fun hoccurs => hne (List.infix_nil.mp hoccurs)
  | cons c cs ih =>
    rw [cutAt] at h
    split at h
    · cases h
    · next hprefix =>
      intro hoccurs
      rcases List.infix_cons_iff.mp hoccurs with hp | hoccurs
      · exact hprefix (List.isPrefixOf_iff_prefix.mpr hp)
      · exact ih (Option.map_eq_none_iff.mp h) hoccurs

/-- The text in front of the first occurrence has none. -/
theorem cutAt_eq_some {old s front back : Bytes} (hold : old ≠ []) (h : cutAt old s = some (front, back)) :
    s = front ++ old ++ back ∧ ¬ old <:+: front := by
  induction s generalizing front with
  | nil =>
    rw [cutAt, if_neg hold] at h
    cases h
  | cons c cs ih =>
    rw [cutAt] at h
    split at h
    · next hprefix =>
      obtain ⟨rest, hrest⟩ := List.isPrefixOf_iff_prefix.mp hprefix
      cases h
      refine ⟨?_, fun hoccurs => hold (List.infix_nil.mp hoccurs)⟩
      rw [List.nil_append, ← hrest, List.drop_left]
    · next hprefix =>
      obtain ⟨p, hp, heq⟩ := Option.map_eq_some_iff.mp h
      cases heq
      obtain ⟨hs, hnone⟩ := ih (hp : cutAt old cs = some (p.1, p.2))
      refine ⟨by rw [hs]; rfl, fun hoccurs => ?_⟩
      rcases List.infix_cons_iff.mp hoccurs with hfront | hfront
      · -- an occurrence at the very front would have been the first
        refine hprefix (List.isPrefixOf_iff_prefix.mpr (hfront.trans ?_))
        rw [hs, List.append_assoc]
        exact ⟨old ++ p.2, rfl⟩
      · exact hnone hfront

/-- **Either nothing is replaced, or the first occurrence is** and the rest of the text, which is shorter. -/
theorem replaceAll_cases {old : Bytes} (hold : old ≠ []) (new s : Bytes) :
    ¬ old <:+: s ∧ replaceAll s old new = s ∨
      ∃ front back, s = front ++ old ++ back ∧ ¬ old <:+: front ∧ back.length < s.length ∧
        replaceAll s old new = front ++ new ++ replaceAll back old new := by
  have hreplace := replaceAll_eq_cutAt hold new s
  cases hcut : cutAt old s with
  | none =>
    rw [hcut] at hreplace
    exact .inl ⟨cutAt_eq_none hcut, hreplace⟩
  | some p =>
    rw [hcut] at hreplace
    obtain ⟨hs, hfront⟩ := cutAt_eq_some hold (hcut : cutAt old s = some (p.1, p.2))
    have hpos := List.length_pos_of_ne_nil hold
    refine .inr ⟨p.1, p.2, hs, hfront, ?_, hreplace⟩
    rw [congrArg List.length hs, List.length_append, List.length_append]
    omega

/-! ## Texts without a mark -/

theorem prefix_append_cons {w x y : Bytes} {c : UInt8} (h : w <+: x ++ c :: y) (hc : c ∉ w) : w <+: x := by
  rcases List.prefix_or_prefix_of_prefix h (List.prefix_append x (c :: y)) with hle | ⟨t, rfl⟩
  · exact hle
  · have ht : t <+: c :: y := (List.prefix_append_right_inj x).mp h
    cases t with
    | nil => rw [List.append_nil]
    | cons d t =>
      obtain ⟨rest, hrest⟩ := ht
      obtain rfl := (List.cons.inj hrest).1
      exact absurd (List.mem_append_right x List.mem_cons_self) hc

/-- A text that lies across a mark has the mark. -/
theorem infix_append_cons {w x y : Bytes} {c : UInt8} (h : w <:+: x ++ c :: y) (hc : c ∉ w) : w <:+: x ∨ w <:+: y := by
  induction x with
  | nil =>
    rcases List.infix_cons_iff.mp h with hp | hi
    · exact .inl (prefix_append_cons (x := []) hp hc).isInfix
    · exact .inr hi
  | cons d x ih =>
    rcases List.infix_cons_iff.mp h with hp | hi
    · exact .inl (prefix_append_cons (x := d :: x) hp hc).isInfix
    · exact (ih hi).imp (fun h => h.trans (List.suffix_cons d x).isInfix) id

section Marked

variable {opening closing : UInt8} {inner old : Bytes}

/-- What lies in a text with something between the marks lies on one side of it or between them. -/
theorem infix_of_marked {w front rest : Bytes} (hopening : opening ∉ w) (hclosing : closing ∉ w)
    (h : w <:+: front ++ (opening :: inner ++ [closing]) ++ rest) : w <:+: front ∨ w <:+: inner ∨ w <:+: rest := by
  have hsplit : front ++ (opening :: inner ++ [closing]) ++ rest = front ++ opening :: (inner ++ closing :: rest) := by simp
  rw [hsplit] at h
  exact (infix_append_cons h hopening).imp id fun h => infix_append_cons h hclosing

/-- **Without the marks nothing new arises**: a text in the result was in the original, or is between the marks. -/
theorem infix_of_replaceAll (hold : old ≠ []) {w : Bytes} (hopening : opening ∉ w) (hclosing : closing ∉ w) {s : Bytes}
    (h : w <:+: replaceAll s old (opening :: inner ++ [closing])) : w <:+: s ∨ w <:+: inner := by
  -- by induction on the length: what follows the first occurrence is shorter
  induction hn : s.length using Nat.strong_induction_on generalizing s with
  | _ n ih =>
    rcases replaceAll_cases hold (opening :: inner ++ [closing]) s with ⟨-, heq⟩ | ⟨front, back, hs, -, hlt, heq⟩
    · rw [heq] at h
      exact .inl h
    · rw [heq] at h
      have hfront : front <:+: s := ⟨[], old ++ back, by rw [hs]; simp⟩
      have hback : back <:+: s := ⟨front ++ old, [], by rw [hs]; simp⟩
      rcases infix_of_marked hopening hclosing h with h | h | h
      · exact .inl (h.trans hfront)
      · exact .inr h
      · exact (ih back.length (hn ▸ hlt) h rfl).imp (fun h => h.trans hback) id

/-- **What was replaced is gone.** -/
theorem notInfix_replaceAll (hopening : opening ∉ old) (hclosing : closing ∉ old) (hinner : ¬ old <:+: inner) (s : Bytes) :
    ¬ old <:+: replaceAll s old (opening :: inner ++ [closing]) := by
  have hold : old ≠ [] := by
    rintro rfl
    exact hinner (List.nil_infix)
  intro h
  induction hn : s.length using Nat.strong_induction_on generalizing s with
  | _ n ih =>
    rcases replaceAll_cases hold (opening :: inner ++ [closing]) s with ⟨hnone, heq⟩ | ⟨front, back, -, hfront, hlt, heq⟩
    · rw [heq] at h
      exact hnone h
    · rw [heq] at h
      rcases infix_of_marked hopening hclosing h with h | h | h
      · exact hfront h
      · exact hinner h
      · exact ih back.length (hn ▸ hlt) back h rfl

end Marked

end LocalPlatform.Codec
