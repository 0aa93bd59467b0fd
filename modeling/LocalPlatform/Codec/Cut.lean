/-
# LocalPlatform.Codec.Cut — a text cut in the middle.

Cutting a well-formed text at an octet can leave the front of a rune at its end.  None of those octets
begins a rune of its own, so dropping what is malformed leaves whole runes of the text
(`toValidUtf8_take`).
-/
import LocalPlatform.Codec.Utf8

namespace LocalPlatform.Codec

open Rune

/-- `strings.ToValidUTF8(s, "")`. -/
def toValidUtf8 (s : Bytes) : Bytes := ((runes s).filter Rune.wellFormed).flatMap Rune.bytes

theorem validUtf8_toValidUtf8 (s : Bytes) : validUtf8 (toValidUtf8 s) = true := by
  refine validUtf8_flatMap fun r hr => ?_
  have hwf : r.wellFormed = true := (List.mem_filter.mp hr).2
  have happ := validUtf8_bytes_append hwf []
  rwa [List.append_nil, validUtf8_nil] at happ

theorem length_toValidUtf8_le (s : Bytes) : (toValidUtf8 s).length ≤ s.length := by
  have hfilter : ∀ rs : List Rune, ((rs.filter Rune.wellFormed).flatMap Rune.bytes).length ≤ (rs.flatMap Rune.bytes).length := by
    intro rs
    induction rs with
    | nil => exact Nat.le_refl _
    | cons r rs ih =>
        rw [List.filter_cons, List.flatMap_cons, List.length_append]
        split
        · rw [List.flatMap_cons, List.length_append]
          omega
        · omega
  have hle := hfilter (runes s)
  rwa [flatMap_bytes_runes] at hle

/-! ## The front of a rune -/

/-- An octet that continues a rune starts none. -/
theorem not_isTwo_of_cont {b : UInt8} (h : b ≤ 0xBF) (c : UInt8) : isTwo b c = false := by
  have h1 := UInt8.le_iff_toNat_le.mp h
  simp only [isTwo, Bool.and_eq_false_iff, decide_eq_false_iff_not]
  refine Or.inl (Or.inl ?_)
  rw [UInt8.le_iff_toNat_le]
  simp at h1 ⊢
  omega

theorem second_of_isFour {a b c d : UInt8} (h : isFour a b c d = true) : b ≤ 0xBF := by
  simp only [isFour, cont, Bool.and_eq_true, Bool.or_eq_true, decide_eq_true_eq, beq_iff_eq] at h
  rcases h.2 with (⟨_, hb⟩ | ⟨_, _, hb⟩) | ⟨_, hb⟩
  · exact hb
  · exact hb
  · exact UInt8.le_trans hb (by decide)

theorem runes_single {a : UInt8} (ha : 0x80 ≤ a) : runes [a] = [.bad a] := by
  rw [runes_cons, if_neg (UInt8.not_lt.mpr ha)]

theorem runes_pair {a b : UInt8} (ha : 0x80 ≤ a) (hab : isTwo a b = false) : runes [a, b] = .bad a :: runes [b] := by
  rw [runes_cons, if_neg (UInt8.not_lt.mpr ha)]
  simp only [hab, Bool.false_eq_true, if_false]

theorem runes_triple {a b c : UInt8} (ha : 0x80 ≤ a) (hab : isTwo a b = false) (habc : isThree a b c = false) :
    runes [a, b, c] = .bad a :: runes [b, c] := by
  rw [runes_cons, if_neg (UInt8.not_lt.mpr ha)]
  simp only [hab, habc, Bool.false_eq_true, if_false]

/-- **The front of a rune holds no rune.** -/
theorem toValidUtf8_front {r : Rune} (h : r.wellFormed = true) {k : Nat} (hk : k < r.bytes.length) :
    toValidUtf8 (r.bytes.take k) = [] := by
  have hhigh : (∀ a, r ≠ .one a) → ∀ c ∈ r.bytes, 0x80 ≤ c := fun hr c hc => high_of_mem_bytes h hr hc
  -- a front part of a rune is made of octets that stand for nothing, and each is dropped
  cases r with
  | one a =>
      obtain rfl : k = 0 := by simpa [bytes] using hk
      rfl
  | two a b =>
      have hbytes := hhigh (by simp)
      have ha := hbytes a (by simp [bytes])
      simp only [bytes, List.length_cons, List.length_nil] at hk ⊢
      interval_cases k
      · rfl
      · show toValidUtf8 [a] = []
        rw [toValidUtf8, runes_single ha]
        rfl
  | three a b c =>
      have hbytes := hhigh (by simp)
      have ha := hbytes a (by simp [bytes])
      have hb := hbytes b (by simp [bytes])
      have hab := not_isTwo_of_lead (b := b) (lead_of_isThree h)
      simp only [bytes, List.length_cons, List.length_nil] at hk ⊢
      interval_cases k
      · rfl
      · show toValidUtf8 [a] = []
        rw [toValidUtf8, runes_single ha]
        rfl
      · show toValidUtf8 [a, b] = []
        rw [toValidUtf8, runes_pair ha hab, runes_single hb]
        rfl
  | four a b c d =>
      have hbytes := hhigh (by simp)
      have ha := hbytes a (by simp [bytes])
      have hb := hbytes b (by simp [bytes])
      have hc := hbytes c (by simp [bytes])
      have hlead : 0xE0 ≤ a := UInt8.le_trans (by decide) (lead_of_isFour h)
      have hab := not_isTwo_of_lead (b := b) hlead
      have habc := not_isThree_of_lead (b := b) (c := c) (lead_of_isFour h)
      have hbc := not_isTwo_of_cont (second_of_isFour h) c
      simp only [bytes, List.length_cons, List.length_nil] at hk ⊢
      interval_cases k
      · rfl
      · show toValidUtf8 [a] = []
        rw [toValidUtf8, runes_single ha]
        rfl
      · show toValidUtf8 [a, b] = []
        rw [toValidUtf8, runes_pair ha hab, runes_single hb]
        rfl
      · show toValidUtf8 [a, b, c] = []
        rw [toValidUtf8, runes_triple ha hab habc, runes_pair hb hbc, runes_single hc]
        rfl
  | bad a => exact absurd h (by simp [wellFormed])

/-- **What is left of a text that was cut is a prefix of it.** -/
theorem toValidUtf8_take {s : Bytes} (h : validUtf8 s = true) (n : Nat) : toValidUtf8 (s.take n) <+: s := by
  induction s using runes_induction generalizing n with
  | nil => simp [toValidUtf8, runes]
  | cons r rest hr ih =>
      rw [validUtf8, hr, List.all_cons, Bool.and_eq_true] at h
      by_cases hn : n < r.bytes.length
      · rw [List.take_append_of_le_length (Nat.le_of_lt hn), toValidUtf8_front h.1 hn]
        exact List.nil_prefix
      · obtain ⟨k, rfl⟩ : ∃ k, n = r.bytes.length + k := ⟨n - r.bytes.length, by omega⟩
        obtain ⟨q, hq⟩ := ih h.2 k
        rw [List.take_length_add_append, toValidUtf8, runes_bytes_append h.1, List.filter_cons_of_pos h.1,
          List.flatMap_cons]
        exact ⟨q, by rw [List.append_assoc]; exact congrArg (r.bytes ++ ·) hq⟩

end LocalPlatform.Codec
