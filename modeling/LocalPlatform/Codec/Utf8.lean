/-
# LocalPlatform.Codec.Utf8 — well-formed UTF-8, decoded one rune at a time.

`runes` cuts an arbitrary byte string the way Go's `utf8.DecodeRune` walks it: a well-formed
sequence of one to four octets is one rune, and any octet that starts no such sequence is a `bad`
rune of width one (Go's `RuneError, 1`).  Everything a Go program does to text rune by rune (validity,
trimming white space, JSON quoting) is then a function of this one cut.

The cut loses nothing (`flatMap_bytes_runes`), and it is local at a rune boundary
(`runes_bytes_append`), which is what makes well-formed texts closed under concatenation.
-/
import LocalPlatform.Codec.Bytes

namespace LocalPlatform.Codec

/-- One step of `utf8.DecodeRune`: the octets of a well-formed sequence, or one malformed octet. -/
inductive Rune where
  | one (a : UInt8)
  | two (a b : UInt8)
  | three (a b c : UInt8)
  | four (a b c d : UInt8)
  | bad (a : UInt8)
  deriving DecidableEq, Repr

namespace Rune

/-- The octets the rune was read from. -/
def bytes : Rune → Bytes
  | one a => [a]
  | two a b => [a, b]
  | three a b c => [a, b, c]
  | four a b c d => [a, b, c, d]
  | bad a => [a]

/-- A continuation octet, `10xxxxxx`. -/
def cont (b : UInt8) : Bool := 0x80 ≤ b && b ≤ 0xBF

def isTwo (a b : UInt8) : Bool := 0xC2 ≤ a && a ≤ 0xDF && cont b

/-- Three octets, without the overlong forms (`E0 80..9F`) and the surrogates (`ED A0..BF`). -/
def isThree (a b c : UInt8) : Bool :=
  cont c &&
    ((a == 0xE0 && 0xA0 ≤ b && b ≤ 0xBF) || (0xE1 ≤ a && a ≤ 0xEC && cont b) ||
      (a == 0xED && 0x80 ≤ b && b ≤ 0x9F) || (0xEE ≤ a && a ≤ 0xEF && cont b))

/-- Four octets, without the overlong forms (`F0 80..8F`) and the values past `U+10FFFF`. -/
def isFour (a b c d : UInt8) : Bool :=
  cont c && cont d &&
    ((a == 0xF0 && 0x90 ≤ b && b ≤ 0xBF) || (0xF1 ≤ a && a ≤ 0xF3 && cont b) ||
      (a == 0xF4 && 0x80 ≤ b && b ≤ 0x8F))

/-- The rune is a well-formed sequence of the width it claims. -/
def wellFormed : Rune → Bool
  | one a => a < 0x80
  | two a b => isTwo a b
  | three a b c => isThree a b c
  | four a b c d => isFour a b c d
  | bad _ => false

end Rune

open Rune

/-- **`runes s`** — the runes of `s`, as a `range` loop over a Go string meets them. -/
def runes : Bytes → List Rune
  | [] => []
  | a :: t =>
    if a < 0x80 then .one a :: runes t
    else match t with
      | [] => [.bad a]
      | b :: t₂ =>
        if isTwo a b then .two a b :: runes t₂
        else match t₂ with
          | [] => .bad a :: runes [b]
          | c :: t₃ =>
            if isThree a b c then .three a b c :: runes t₃
            else match t₃ with
              | [] => .bad a :: runes [b, c]
              | d :: t₄ =>
                if isFour a b c d then .four a b c d :: runes t₄
                else .bad a :: runes (b :: c :: d :: t₄)

theorem runes_cons (a : UInt8) (t : Bytes) :
    runes (a :: t) =
      if a < 0x80 then .one a :: runes t
      else match t with
        | [] => [.bad a]
        | b :: t₂ =>
          if isTwo a b then .two a b :: runes t₂
          else match t₂ with
            | [] => .bad a :: runes [b]
            | c :: t₃ =>
              if isThree a b c then .three a b c :: runes t₃
              else match t₃ with
                | [] => .bad a :: runes [b, c]
                | d :: t₄ =>
                  if isFour a b c d then .four a b c d :: runes t₄
                  else .bad a :: runes (b :: c :: d :: t₄) := by
  conv_lhs => rw [runes.eq_def]
  rfl

/-- The one inversion of `runes`: a non-empty text is one rune, which is well formed or a lone
malformed octet, in front of the runes of the rest. -/
theorem runes_cases (a : UInt8) (t : Bytes) :
    ∃ r rest, a :: t = r.bytes ++ rest ∧ runes (a :: t) = r :: runes rest ∧
      (r.wellFormed = true ∨ r = .bad a) := by
  rw [runes_cons]
  split
  · next h => exact ⟨.one a, t, rfl, rfl, Or.inl (by simpa [wellFormed] using h)⟩
  · split
    · exact ⟨.bad a, [], rfl, rfl, Or.inr rfl⟩
    · next b t₂ =>
      split
      · next h => exact ⟨.two a b, t₂, rfl, rfl, Or.inl h⟩
      · split
        · exact ⟨.bad a, [b], rfl, rfl, Or.inr rfl⟩
        · next c t₃ =>
          split
          · next h => exact ⟨.three a b c, t₃, rfl, rfl, Or.inl h⟩
          · split
            · exact ⟨.bad a, [b, c], rfl, rfl, Or.inr rfl⟩
            · next d t₄ =>
              split
              · next h => exact ⟨.four a b c d, t₄, rfl, rfl, Or.inl h⟩
              · exact ⟨.bad a, b :: c :: d :: t₄, rfl, rfl, Or.inr rfl⟩

theorem Rune.bytes_ne_nil (r : Rune) : r.bytes ≠ [] := by cases r <;> simp [bytes]

/-- Induction along the runes of a text. -/
theorem runes_induction {motive : Bytes → Prop} (nil : motive [])
    (cons : ∀ r rest, runes (r.bytes ++ rest) = r :: runes rest → motive rest →
      motive (r.bytes ++ rest)) : ∀ s, motive s := by
  intro s
  induction hn : s.length using Nat.strong_induction_on generalizing s with
  | _ n ih =>
    cases s with
    | nil => exact nil
    | cons a t =>
        obtain ⟨r, rest, hs, hr, _⟩ := runes_cases a t
        rw [hs] at hr ⊢
        have hlen : rest.length < n := by
          have hpos := List.length_pos_of_ne_nil r.bytes_ne_nil
          rw [← hn, hs, List.length_append]
          omega
        exact cons r rest hr (ih _ hlen rest rfl)

/-- Cutting into runes loses no octet. -/
theorem flatMap_bytes_runes (s : Bytes) : (runes s).flatMap bytes = s := by
  induction s using runes_induction with
  | nil => rfl
  | cons r rest hr ih => rw [hr, List.flatMap_cons, ih]

/-- Every rune of a text is well formed or one malformed octet. -/
theorem wellFormed_or_bad_of_mem_runes {s : Bytes} {r : Rune} (h : r ∈ runes s) :
    r.wellFormed = true ∨ ∃ a, r = .bad a := by
  induction hn : s.length using Nat.strong_induction_on generalizing s with
  | _ n ih =>
    cases s with
    | nil => simp [runes] at h
    | cons a t =>
        obtain ⟨q, rest, hs, hr, hq⟩ := runes_cases a t
        rw [hr] at h
        rcases List.mem_cons.mp h with rfl | h
        · exact hq.imp id fun hb => ⟨a, hb⟩
        · have hpos := List.length_pos_of_ne_nil q.bytes_ne_nil
          have hlen : rest.length < n := by
            rw [← hn, hs, List.length_append]
            omega
          exact ih _ hlen h rfl

/-- A lead octet of a longer sequence is not ASCII. -/
theorem Rune.not_ascii_of_isTwo {a b : UInt8} (h : isTwo a b = true) : ¬ a < 0x80 := by
  simp only [isTwo, Bool.and_eq_true, decide_eq_true_eq] at h
  have h1 := UInt8.le_iff_toNat_le.mp h.1.1
  rw [UInt8.lt_iff_toNat_lt]
  simp at h1 ⊢
  omega

theorem Rune.lead_of_isThree {a b c : UInt8} (h : isThree a b c = true) : 0xE0 ≤ a := by
  simp only [isThree, Bool.and_eq_true, Bool.or_eq_true, decide_eq_true_eq, beq_iff_eq] at h
  rw [UInt8.le_iff_toNat_le]
  rcases h.2 with ((⟨⟨rfl, _⟩, _⟩ | ⟨⟨h1, _⟩, _⟩) | ⟨⟨rfl, _⟩, _⟩) | ⟨⟨h1, _⟩, _⟩
  · simp
  · have := UInt8.le_iff_toNat_le.mp h1
    simp at this ⊢
    omega
  · simp
  · have := UInt8.le_iff_toNat_le.mp h1
    simp at this ⊢
    omega

theorem Rune.lead_of_isFour {a b c d : UInt8} (h : isFour a b c d = true) : 0xF0 ≤ a := by
  simp only [isFour, Bool.and_eq_true, Bool.or_eq_true, decide_eq_true_eq, beq_iff_eq] at h
  rw [UInt8.le_iff_toNat_le]
  rcases h.2 with (⟨⟨rfl, _⟩, _⟩ | ⟨⟨h1, _⟩, _⟩) | ⟨⟨rfl, _⟩, _⟩
  · simp
  · have := UInt8.le_iff_toNat_le.mp h1
    simp at this ⊢
    omega
  · simp

theorem Rune.not_isTwo_of_lead {a b : UInt8} (h : 0xE0 ≤ a) : isTwo a b = false := by
  have h1 := UInt8.le_iff_toNat_le.mp h
  simp only [isTwo, Bool.and_eq_false_iff, decide_eq_false_iff_not]
  refine Or.inl (Or.inr ?_)
  rw [UInt8.le_iff_toNat_le]
  simp at h1 ⊢
  omega

theorem Rune.not_isThree_of_lead {a b c : UInt8} (h : 0xF0 ≤ a) : isThree a b c = false := by
  have h1 := UInt8.le_iff_toNat_le.mp h
  simp at h1
  cases hc : isThree a b c with
  | false => rfl
  | true =>
      simp only [isThree, Bool.and_eq_true, Bool.or_eq_true, decide_eq_true_eq, beq_iff_eq] at hc
      rcases hc.2 with ((⟨⟨rfl, _⟩, _⟩ | ⟨⟨⟨_, h2⟩, _⟩⟩) | ⟨⟨rfl, _⟩, _⟩) | ⟨⟨_, h2⟩, _⟩
      · simp at h1
      · have := UInt8.le_iff_toNat_le.mp h2
        simp at this
        omega
      · simp at h1
      · have := UInt8.le_iff_toNat_le.mp h2
        simp at this
        omega

theorem Rune.high_of_cont {b : UInt8} (h : cont b = true) : 0x80 ≤ b := by
  simp only [cont, Bool.and_eq_true, decide_eq_true_eq] at h
  exact h.1

theorem Rune.high_of_le {a b : UInt8} (hab : a ≤ b) (ha : 0x80 ≤ a) : 0x80 ≤ b :=
  UInt8.le_trans ha hab

/-- The second octet of a sequence is at least `0x80` whichever range its lead allows. -/
theorem Rune.high_second_of_isThree {a b c : UInt8} (h : isThree a b c = true) : 0x80 ≤ b := by
  simp only [isThree, Bool.and_eq_true, Bool.or_eq_true, decide_eq_true_eq, beq_iff_eq] at h
  rcases h.2 with ((⟨⟨_, hb⟩, _⟩ | ⟨_, hb⟩) | ⟨⟨_, hb⟩, _⟩) | ⟨_, hb⟩
  · exact high_of_le hb (by decide)
  · exact high_of_cont hb
  · exact hb
  · exact high_of_cont hb

theorem Rune.high_second_of_isFour {a b c d : UInt8} (h : isFour a b c d = true) : 0x80 ≤ b := by
  simp only [isFour, Bool.and_eq_true, Bool.or_eq_true, decide_eq_true_eq, beq_iff_eq] at h
  rcases h.2 with (⟨⟨_, hb⟩, _⟩ | ⟨_, hb⟩) | ⟨⟨_, hb⟩, _⟩
  · exact high_of_le hb (by decide)
  · exact high_of_cont hb
  · exact hb

/-- Every octet of a longer sequence lies outside ASCII. -/
theorem Rune.high_of_mem_bytes {r : Rune} (h : r.wellFormed = true) (hr : ∀ a, r ≠ .one a)
    {c : UInt8} (hc : c ∈ r.bytes) : 0x80 ≤ c := by
  cases r with
  | one a => exact absurd rfl (hr a)
  | two a b =>
      have hab : isTwo a b = true := h
      simp only [isTwo, Bool.and_eq_true, decide_eq_true_eq] at hab
      simp only [bytes, List.mem_cons, List.not_mem_nil, or_false] at hc
      rcases hc with rfl | rfl
      · exact high_of_le hab.1.1 (by decide)
      · exact high_of_cont hab.2
  | three a b d =>
      have habd : isThree a b d = true := h
      have hd : cont d = true := by
        simp only [isThree, Bool.and_eq_true] at habd
        exact habd.1
      simp only [bytes, List.mem_cons, List.not_mem_nil, or_false] at hc
      rcases hc with rfl | rfl | rfl
      · exact high_of_le (lead_of_isThree h) (by decide)
      · exact high_second_of_isThree h
      · exact high_of_cont hd
  | four a b d e =>
      have habde : isFour a b d e = true := h
      have hde : cont d = true ∧ cont e = true := by
        simp only [isFour, Bool.and_eq_true] at habde
        exact habde.1
      simp only [bytes, List.mem_cons, List.not_mem_nil, or_false] at hc
      rcases hc with rfl | rfl | rfl | rfl
      · exact high_of_le (lead_of_isFour h) (by decide)
      · exact high_second_of_isFour h
      · exact high_of_cont hde.1
      · exact high_of_cont hde.2
  | bad a => simp [wellFormed] at h

/-- The cut is local: a well-formed rune in front of any text is its first rune. -/
theorem runes_bytes_append {r : Rune} (h : r.wellFormed = true) (t : Bytes) :
    runes (r.bytes ++ t) = r :: runes t := by
  cases r with
  | one a =>
      have ha : a < 0x80 := by simpa [wellFormed] using h
      rw [bytes, List.singleton_append, runes_cons, if_pos ha]
  | two a b =>
      have ha := not_ascii_of_isTwo h
      have hb : isTwo a b = true := h
      simp only [bytes, List.cons_append, List.nil_append]
      rw [runes_cons, if_neg ha]
      simp only [hb, if_true]
  | three a b c =>
      have hlead := lead_of_isThree h
      have hb : isThree a b c = true := h
      have ha : ¬ a < 0x80 := by
        have := UInt8.le_iff_toNat_le.mp hlead
        rw [UInt8.lt_iff_toNat_lt]
        simp at this ⊢
        omega
      simp only [bytes, List.cons_append, List.nil_append]
      rw [runes_cons, if_neg ha]
      simp only [not_isTwo_of_lead hlead, Bool.false_eq_true, if_false, hb, if_true]
  | four a b c d =>
      have hlead := lead_of_isFour h
      have hb : isFour a b c d = true := h
      have he0 : 0xE0 ≤ a := by
        have := UInt8.le_iff_toNat_le.mp hlead
        rw [UInt8.le_iff_toNat_le]
        simp at this ⊢
        omega
      have ha : ¬ a < 0x80 := by
        have := UInt8.le_iff_toNat_le.mp hlead
        rw [UInt8.lt_iff_toNat_lt]
        simp at this ⊢
        omega
      simp only [bytes, List.cons_append, List.nil_append]
      rw [runes_cons, if_neg ha]
      simp only [not_isTwo_of_lead he0, not_isThree_of_lead hlead, Bool.false_eq_true, if_false,
        hb, if_true]
  | bad a => simp [wellFormed] at h

/-! ## Well-formed texts -/

/-- **`validUtf8 s`** — `utf8.ValidString`: no malformed octet. -/
def validUtf8 (s : Bytes) : Bool := (runes s).all wellFormed

@[simp] theorem validUtf8_nil : validUtf8 [] = true := rfl

theorem validUtf8_bytes_append {r : Rune} (h : r.wellFormed = true) (t : Bytes) :
    validUtf8 (r.bytes ++ t) = validUtf8 t := by
  simp [validUtf8, runes_bytes_append h, h]

theorem runes_append {s : Bytes} (h : validUtf8 s = true) (t : Bytes) :
    runes (s ++ t) = runes s ++ runes t := by
  induction s using runes_induction with
  | nil => rfl
  | cons r rest hr ih =>
      rw [validUtf8, hr, List.all_cons, Bool.and_eq_true] at h
      rw [List.append_assoc, runes_bytes_append h.1, ih h.2, hr, List.cons_append]

theorem validUtf8_append {s t : Bytes} (hs : validUtf8 s = true) (ht : validUtf8 t = true) :
    validUtf8 (s ++ t) = true := by
  rw [validUtf8, runes_append hs, List.all_append]
  simp only [validUtf8] at hs ht
  rw [hs, ht, Bool.and_self]

theorem validUtf8_flatMap {α : Type*} {f : α → Bytes} :
    ∀ {l : List α}, (∀ x ∈ l, validUtf8 (f x) = true) → validUtf8 (l.flatMap f) = true
  | [], _ => rfl
  | x :: xs, h => by
      rw [List.flatMap_cons]
      exact validUtf8_append (h x (by simp))
        (validUtf8_flatMap fun y hy => h y (List.mem_cons_of_mem x hy))

/-- A text of ASCII octets is well formed. -/
theorem validUtf8_of_ascii {s : Bytes} (h : ∀ c ∈ s, c < 0x80) : validUtf8 s = true := by
  induction s with
  | nil => rfl
  | cons c cs ih =>
      have hc : (Rune.one c).wellFormed = true := by simpa [wellFormed] using h c (by simp)
      have := validUtf8_bytes_append hc cs
      rw [bytes, List.singleton_append] at this
      rw [this]
      exact ih fun d hd => h d (List.mem_cons_of_mem c hd)

/-! ## White space -/

/-- `unicode.IsSpace` of a rune: the ASCII spaces, `U+0085`, `U+00A0` and the Unicode spaces. -/
def Rune.isSpace : Rune → Bool
  | one a => (0x09 ≤ a && a ≤ 0x0d) || a == 0x20
  | two a b => a == 0xC2 && (b == 0x85 || b == 0xA0)
  | three a b c =>
    (a == 0xE1 && b == 0x9A && c == 0x80) ||
    (a == 0xE2 && b == 0x80 && ((0x80 ≤ c && c ≤ 0x8A) || c == 0xA8 || c == 0xA9 || c == 0xAF)) ||
    (a == 0xE2 && b == 0x81 && c == 0x9F) || (a == 0xE3 && b == 0x80 && c == 0x80)
  | four _ _ _ _ => false
  | bad _ => false

/-- **`isBlank s`** — `strings.TrimSpace(s) == ""`. -/
def isBlank (s : Bytes) : Bool := (runes s).all Rune.isSpace

/-- **`strings.TrimSpace s`**. -/
def trimSpace (s : Bytes) : Bytes :=
  ((((runes s).dropWhile Rune.isSpace).reverse.dropWhile Rune.isSpace).reverse).flatMap bytes

/-- `strings.Fields`, as octets: the maximal runs of runes that are no white space. -/
def fields (s : Bytes) : List Bytes :=
  ((runes s).splitOnP Rune.isSpace).map (List.flatMap bytes) |>.filter (· ≠ [])

theorem isSpace_graphic {a : UInt8} (h : 0x21 ≤ a) : (Rune.one a).isSpace = false := by
  have h' := UInt8.le_iff_toNat_le.mp h
  simp at h'
  simp only [Rune.isSpace, Bool.or_eq_false_iff, Bool.and_eq_false_iff, decide_eq_false_iff_not,
    beq_eq_false_iff_ne]
  refine ⟨Or.inr ?_, ?_⟩
  · rw [UInt8.le_iff_toNat_le]
    simp
    omega
  · rintro rfl
    simp at h'

/-- A text with an octet that is no part of any white space is not blank. -/
theorem not_isBlank_of_head {a : UInt8} {t : Bytes} (hlo : 0x21 ≤ a) (hhi : a < 0x80) :
    isBlank (a :: t) = false := by
  have hw : (Rune.one a).wellFormed = true := by simpa [wellFormed] using hhi
  have hr := runes_bytes_append hw t
  rw [bytes, List.singleton_append] at hr
  rw [isBlank, hr, List.all_cons, isSpace_graphic hlo, Bool.false_and]

/-- A graphic ASCII octet is a rune of its own and no white space. -/
theorem runes_graphic {s : Bytes} (h : ∀ c ∈ s, 0x21 ≤ c ∧ c < 0x80) :
    runes s = s.map Rune.one := by
  induction s with
  | nil => rfl
  | cons a t ih =>
      have hw : (Rune.one a).wellFormed = true := by simpa [wellFormed] using (h a (by simp)).2
      have hr := runes_bytes_append hw t
      rw [bytes, List.singleton_append] at hr
      rw [hr, ih fun c hc => h c (List.mem_cons_of_mem a hc), List.map_cons]

/-- A text of graphic ASCII octets has nothing to trim. -/
theorem trimSpace_graphic {s : Bytes} (h : ∀ c ∈ s, 0x21 ≤ c ∧ c < 0x80) : trimSpace s = s := by
  have hkeep : ∀ rs : List Rune, (∀ r ∈ rs, r.isSpace = false) → rs.dropWhile Rune.isSpace = rs := by
    intro rs hrs
    cases rs with
    | nil => rfl
    | cons r rs => rw [List.dropWhile_cons_of_neg (by simp [hrs r (by simp)])]
  have hspace : ∀ r ∈ s.map Rune.one, r.isSpace = false := by
    intro r hr
    obtain ⟨c, hc, rfl⟩ := List.mem_map.mp hr
    exact isSpace_graphic (h c hc).1
  unfold trimSpace
  rw [runes_graphic h, hkeep _ hspace, hkeep _ fun r hr => hspace r (List.mem_reverse.mp hr), List.reverse_reverse,
    List.flatMap_map]
  exact List.flatMap_singleton' s

/-- A text of graphic ASCII is one field. -/
theorem fields_graphic {s : Bytes} (hne : s ≠ []) (h : ∀ c ∈ s, 0x21 ≤ c ∧ c < 0x80) :
    fields s = [s] := by
  have hsplit : (s.map Rune.one).splitOnP Rune.isSpace = [s.map Rune.one] := by
    refine List.splitOnP_eq_singleton fun r hr => ?_
    obtain ⟨c, hc, rfl⟩ := List.mem_map.mp hr
    exact isSpace_graphic (h c hc).1
  have hback : (s.map Rune.one).flatMap bytes = s := by
    rw [← runes_graphic h, flatMap_bytes_runes]
  rw [fields, runes_graphic h, hsplit, List.map_singleton, hback]
  simp [hne]

/-! ## Behind an ASCII octet -/

theorem cont_ascii {c : UInt8} (h : c < 0x80) : cont c = false := by
  have hc : ¬ 0x80 ≤ c := UInt8.not_le.mpr h
  simp [cont, hc]

theorem isTwo_ascii {c : UInt8} (h : c < 0x80) (a : UInt8) : isTwo a c = false := by simp [isTwo, cont_ascii h]

/-- An octet below `0x80` goes on no sequence, at any of its places. -/
theorem isThree_ascii {c : UInt8} (h : c < 0x80) (a b : UInt8) : isThree a b c = false := by simp [isThree, cont_ascii h]

theorem isThree_second_ascii {c : UInt8} (h : c < 0x80) (a b : UInt8) : isThree a c b = false := by
  have h80 : ¬ 0x80 ≤ c := UInt8.not_le.mpr h
  have hA0 : ¬ 0xA0 ≤ c := fun hc => h80 (UInt8.le_trans (by decide) hc)
  simp [isThree, cont_ascii h, h80, hA0]

theorem isFour_third_ascii {c : UInt8} (h : c < 0x80) (a b d : UInt8) : isFour a b c d = false := by
  simp [isFour, cont_ascii h]

theorem isFour_last_ascii {c : UInt8} (h : c < 0x80) (a b d : UInt8) : isFour a b d c = false := by
  simp [isFour, cont_ascii h]

theorem isFour_second_ascii {c : UInt8} (h : c < 0x80) (a b d : UInt8) : isFour a c b d = false := by
  have h80 : ¬ 0x80 ≤ c := UInt8.not_le.mpr h
  have h90 : ¬ 0x90 ≤ c := fun hc => h80 (UInt8.le_trans (by decide) hc)
  simp [isFour, cont_ascii h, h80, h90]

theorem runes_bad_ascii {a c : UInt8} (ha : ¬ a < 0x80) (h : c < 0x80) (t : Bytes) :
    runes (a :: c :: t) = .bad a :: runes (c :: t) := by
  rw [runes_cons, if_neg ha]
  simp only [isTwo_ascii h, isThree_second_ascii h, isFour_second_ascii h]
  cases t with
  | nil => rfl
  | cons d t => cases t <;> rfl

/-- **A text ends where an ASCII octet follows it**, whatever it breaks off in. -/
theorem runes_append_ascii {c : UInt8} (h : c < 0x80) (s t : Bytes) :
    runes (s ++ c :: t) = runes s ++ runes (c :: t) := by
  -- an ASCII octet ends whatever was begun before it
  induction s using runes.induct with
  | case1 => rfl
  | case2 a s ha ih =>
      rw [List.cons_append, runes_cons, if_pos ha, ih, runes_cons a s, if_pos ha]
      rfl
  | case3 a ha =>
      show runes (a :: c :: t) = _
      rw [runes_bad_ascii ha h, runes_cons a [], if_neg ha]
      rfl
  | case4 a ha b s hab ih =>
      show runes (a :: b :: (s ++ c :: t)) = _
      rw [runes_cons, if_neg ha]
      simp only [hab, if_true]
      rw [ih, runes_cons a, if_neg ha]
      simp only [hab, if_true, List.cons_append]
  | case5 a ha b hab ih =>
      show runes (a :: b :: c :: t) = _
      rw [runes_cons, if_neg ha, runes_cons a [b], if_neg ha]
      simp only [hab, isThree_ascii h, isFour_third_ascii h]
      have ih' : runes (b :: c :: t) = runes [b] ++ runes (c :: t) := ih
      cases t <;> simp [ih']
  | case6 a ha b hab c' s habc ih =>
      show runes (a :: b :: c' :: (s ++ c :: t)) = _
      rw [runes_cons, if_neg ha, runes_cons a (b :: c' :: s), if_neg ha]
      simp only [hab, habc, if_true, Bool.false_eq_true, if_false, ih, List.cons_append]
  | case7 a ha b hab c' habc ih =>
      show runes (a :: b :: c' :: c :: t) = _
      rw [runes_cons, if_neg ha, runes_cons a [b, c'], if_neg ha]
      simp only [hab, habc, isFour_last_ascii h, Bool.false_eq_true, if_false, List.cons_append]
      exact congrArg _ ih
  | case8 a ha b hab c' habc d s hfour ih =>
      show runes (a :: b :: c' :: d :: (s ++ c :: t)) = _
      rw [runes_cons, if_neg ha, runes_cons a (b :: c' :: d :: s), if_neg ha]
      simp only [hab, habc, hfour, if_true, Bool.false_eq_true, if_false, ih, List.cons_append]
  | case9 a ha b hab c' habc d s hfour ih =>
      show runes (a :: b :: c' :: d :: (s ++ c :: t)) = _
      rw [runes_cons, if_neg ha, runes_cons a (b :: c' :: d :: s), if_neg ha]
      simp only [hab, habc, hfour, Bool.false_eq_true, if_false, List.cons_append]
      exact congrArg _ ih

/-- The entries on both sides of a blank. -/
theorem fields_append_space (s t : Bytes) : fields (s ++ 0x20 :: t) = fields s ++ fields t := by
  have hspace : (Rune.one 0x20).isSpace = true := by decide
  have htail : runes (0x20 :: t) = .one 0x20 :: runes t := by
    rw [runes_cons, if_pos (by decide)]
  rw [fields, runes_append_ascii (by decide), htail, List.splitOnP_append_cons _ _ hspace, List.map_append,
    List.filter_append]
  rfl

end LocalPlatform.Codec
