/-
# LocalPlatform.Codec.Json.Nest — values inside values.

A value does not notice what it is inside of: with composites open around it the scanner goes through
the same modes, on top of their frames (`step_under`).  So an object written member by member from JSON
values is itself a JSON value, one level deeper (`isValue_writeObject`).
-/
import LocalPlatform.Codec.Json.Object

namespace LocalPlatform.Codec.Json

namespace Scan

/-- The scanner with further composites open around what it is inside of. -/
def under (s : Scan) (stk : List Frame) : Scan := ⟨s.mode, s.stack ++ stk⟩

/-- The mode behind an opening brace belongs to an open object. -/
def Nested (s : Scan) : Prop := s.mode = .beginStringOrEmpty → s.stack ≠ []

theorem push_under (lim : Nat) (s : Scan) (stk : List Frame) (f : Frame) (m : Mode) :
    (s.under stk).push (lim + stk.length) f m = (s.push lim f m).under stk := by
  have hlt : s.stack.length + stk.length < lim + stk.length ↔ s.stack.length < lim := by omega
  unfold push under
  simp only [List.length_append, hlt]
  split <;> rfl

theorem stateBeginValue_under (lim : Nat) (s : Scan) (stk : List Frame) (c : UInt8) :
    (s.under stk).stateBeginValue (lim + stk.length) c = (s.stateBeginValue lim c).under stk := by
  unfold stateBeginValue
  simp only [push_under, apply_ite (fun t : Scan => t.under stk)]
  rfl

theorem stateEndValue_under {s : Scan} (stk : List Frame) {c : UInt8} (h : (s.stateEndValue c).mode ≠ .error) :
    (s.under stk).stateEndValue c = (s.stateEndValue c).under stk := by
  obtain ⟨m, st⟩ := s
  unfold stateEndValue at h ⊢
  by_cases hs : isSpace c = true
  · rw [if_pos hs, if_pos hs]
    rfl
  rw [if_neg hs] at h
  rw [if_neg hs, if_neg hs]
  cases st with
  | nil => exact absurd rfl h
  | cons f up =>
      cases f <;> simp only [under, List.cons_append]
      all_goals
        repeat' split
        all_goals rfl

/-- A choice between a mode of the value itself and what lies outside of it. -/
theorem ite_under {p : Prop} [Decidable p] {stk st : List Frame} {m : Mode} {a b : Scan}
    (h : (if p then ⟨m, st⟩ else a : Scan).mode ≠ .error) (hrest : a.mode ≠ .error → b = a.under stk) :
    (if p then ⟨m, st ++ stk⟩ else b) = (if p then ⟨m, st⟩ else a : Scan).under stk := by
  by_cases hp : p
  · rw [if_pos hp, if_pos hp]
    rfl
  · rw [if_neg hp] at h
    rw [if_neg hp, if_neg hp]
    exact hrest h

/-- One octet, with more composites open around it. -/
theorem step_under {lim : Nat} {s : Scan} (stk : List Frame) {c : UInt8} (hs : s.Nested)
    (h : (step lim s c).mode ≠ .error) : step (lim + stk.length) (s.under stk) c = (step lim s c).under stk := by
  obtain ⟨m, st⟩ := s
  -- a scan deeper in a text does the same until it is back at its own bottom
  cases m with
  | beginValue => exact stateBeginValue_under lim _ stk c
  | beginValueOrEmpty =>
      show (if c = 0x5d then _ else _) = Scan.under (if c = 0x5d then _ else _) stk
      have h' : (if c = 0x5d then Scan.stateEndValue ⟨.beginValueOrEmpty, st⟩ c else _).mode ≠ Mode.error := h
      by_cases hc : c = 0x5d
      · rw [if_pos hc] at h'
        rw [if_pos hc, if_pos hc]
        exact stateEndValue_under stk h'
      · rw [if_neg hc, if_neg hc]
        exact stateBeginValue_under lim _ stk c
  | beginStringOrEmpty =>
      cases st with
      | nil => exact absurd rfl (hs rfl)
      | cons f up =>
          simp only [step, under, List.cons_append, List.tail_cons] at h ⊢
          by_cases h1 : isSpace c = true
          · rw [if_pos h1, if_pos h1]
            rfl
          rw [if_neg h1] at h
          rw [if_neg h1, if_neg h1]
          by_cases h2 : c = 0x22
          · rw [if_pos h2, if_pos h2]
            rfl
          rw [if_neg h2] at h
          rw [if_neg h2, if_neg h2]
          by_cases h3 : c = 0x7d
          · rw [if_pos h3] at h
            rw [if_pos h3, if_pos h3]
            exact stateEndValue_under stk h
          · rw [if_neg h3, if_neg h3]
            rfl
  | endValue => exact stateEndValue_under stk h
  | zero => exact ite_under h fun h => ite_under h fun h => stateEndValue_under stk h
  | int => exact ite_under h fun h => ite_under h fun h => ite_under h fun h => stateEndValue_under stk h
  | frac => exact ite_under h fun h => ite_under h fun h => stateEndValue_under stk h
  | expDigits => exact ite_under h fun h => stateEndValue_under stk h
  | lit left =>
      rcases left with _ | ⟨b, _ | ⟨b', left⟩⟩
      · exact stateEndValue_under stk h
      · simp only [step, under]
        split <;> rfl
      · simp only [step, under]
        split <;> rfl
  | _ =>
      simp only [step, under]
      repeat' split
      all_goals rfl

theorem nested_of_mode {s : Scan} (h : s.mode ≠ .beginStringOrEmpty) : s.Nested := fun hm => absurd hm h

theorem nested_fail (s : Scan) : s.fail.Nested := nested_of_mode (by simp [fail])

theorem nested_ite {p : Prop} [Decidable p] {a b : Scan} (ha : a.Nested) (hb : b.Nested) :
    (if p then a else b).Nested := by
  split
  · exact ha
  · exact hb

theorem nested_stateEndValue (s : Scan) (c : UInt8) : (s.stateEndValue c).Nested := by
  apply nested_of_mode
  unfold stateEndValue
  repeat' split
  all_goals simp [fail]

theorem nested_stateBeginValue {lim : Nat} {s : Scan} (hs : s.Nested) (c : UInt8) :
    (s.stateBeginValue lim c).Nested := by
  have hpush : ∀ f m, (s.push lim f m).Nested := by
    intro f m
    unfold push
    split
    · exact fun _ => List.cons_ne_nil _ _
    · exact nested_fail s
  unfold stateBeginValue
  refine nested_ite hs (nested_ite (hpush _ _) (nested_ite (hpush _ _) ?_))
  repeat' apply nested_ite
  all_goals exact nested_of_mode (by simp [fail])

/-- Only an opening brace leads behind an opening brace. -/
theorem nested_step {lim : Nat} {s : Scan} (hs : s.Nested) (c : UInt8) : (step lim s c).Nested := by
  cases hmode : s.mode with
  | lit left =>
      rcases left with _ | ⟨b, _ | ⟨b', left⟩⟩
      · simp only [step, hmode]
        exact nested_stateEndValue s c
      · simp only [step, hmode]
        split
        · exact nested_of_mode (by simp)
        · exact nested_fail s
      · simp only [step, hmode]
        split
        · exact nested_of_mode (by simp)
        · exact nested_fail s
  | escU n =>
      simp only [step, hmode]
      repeat' split
      · exact nested_of_mode (by simp)
      · exact nested_of_mode (by simp)
      · exact nested_fail s
  | _ =>
      simp only [step, hmode]
      repeat' split
      all_goals first
        | exact nested_stateBeginValue hs c
        | exact nested_stateEndValue _ c
        | exact nested_fail s
        | exact hs
        | exact nested_of_mode (by simp)

end Scan

open Scan

/-- Inside a composite nothing has ended, so a reader goes through the whole of a value. -/
theorem takeValue_under {lim : Nat} {stk : List Frame} (hstk : stk ≠ []) {v : Bytes} (rest : Bytes) :
    ∀ {s : Scan}, s.Nested → (run lim s v).mode ≠ .error →
      takeValue (lim + stk.length) (s.under stk) (v ++ rest) =
        prepend v (takeValue (lim + stk.length) ((run lim s v).under stk) rest) := by
  induction v with
  | nil =>
      intro s _ _
      show _ = prepend [] (takeValue _ (s.under stk) rest)
      cases htake : takeValue (lim + stk.length) (s.under stk) ([] ++ rest) <;>
        rw [List.nil_append] at htake <;> simp [prepend, htake]
  | cons c cs ih =>
      intro s hs h
      have hstep : (step lim s c).mode ≠ .error := by
        intro he
        rw [run_cons, run_error lim he] at h
        exact h he
      have hopen : (s.under stk).closed = false := by simp [closed, under, hstk]
      rw [List.cons_append, takeValue_inside _ ((step lim s c).under stk) hopen (step_under stk hs hstep) hstep,
        ih (nested_step hs c) h, prepend_prepend, run_cons, List.singleton_append]

/-- What separates or closes behind a complete value, inside a composite. -/
theorem step_closed_under {lim : Nat} {s : Scan} (hs : s.closed = true) (stk : List Frame) {c : UInt8}
    (hc : c = 0x3a ∨ c = 0x2c ∨ c = 0x7d) : step lim (s.under stk) c = stateEndValue ⟨.endValue, stk⟩ c := by
  simp only [closed, Bool.and_eq_true, List.isEmpty_iff, Bool.or_eq_true, beq_iff_eq] at hs
  obtain ⟨hstack, hm⟩ := hs
  have hunder : (s.under stk).stack = stk := by simp [under, hstack]
  rcases hm with hm | hm
  · have hend : s.under stk = ⟨.endValue, stk⟩ := by simp [under, hstack, hm]
    rw [hend]
    rfl
  · have hdelimiter : isDelimiter c = true := by rcases hc with rfl | rfl | rfl <;> rfl
    have hstep := @step_numberEnd lim (s.under stk) c hm (continues_delimiter hdelimiter _)
    rw [hstep]
    exact stateEndValue_congr hunder c

/-- A value inside one open composite, and the octet behind it. -/
theorem IsValue.takeValue_inside {lim : Nat} {v : Bytes} (h : IsValue lim v) (f : Frame) {c : UInt8}
    (hc : c = 0x3a ∨ c = 0x2c ∨ c = 0x7d) (hstep : (stateEndValue ⟨.endValue, [f]⟩ c).mode ≠ .error) (rest : Bytes) :
    takeValue (lim + 1) ⟨.beginValue, [f]⟩ (v ++ c :: rest) =
      prepend (v ++ [c]) (takeValue (lim + 1) (stateEndValue ⟨.endValue, [f]⟩ c) rest) := by
  have hclosed : (run lim init v).closed = true := takeValue_closed h.taken
  have hopen : ((run lim init v).under [f]).closed = false := by simp [closed, under]
  have hnested : init.Nested := fun hm => absurd hm (by simp [init])
  have hv := takeValue_under (List.cons_ne_nil f []) (c :: rest) hnested (closed_ne_error hclosed)
  have hinit : init.under [f] = ⟨.beginValue, [f]⟩ := rfl
  rw [hinit] at hv
  show takeValue (lim + [f].length) _ _ = _
  rw [hv, Json.takeValue_inside _ _ hopen (step_closed_under hclosed [f] hc) hstep, prepend_prepend]
  rfl

/-- A key literal stands where any value could, except that an object may ask for a key. -/
theorem takeValue_key {lim : Nat} {k : Bytes} (hquoted : k.head? = some 0x22) {m : Mode}
    (hm : m = .beginString ∨ m = .beginStringOrEmpty) (rest : Bytes) :
    takeValue lim ⟨m, [.key]⟩ (k ++ rest) = takeValue lim ⟨.beginValue, [.key]⟩ (k ++ rest) := by
  obtain ⟨ks, rfl⟩ : ∃ ks, k = 0x22 :: ks := by
    cases k with
    | nil => simp at hquoted
    | cons d ks =>
        obtain rfl : d = 0x22 := by simpa using hquoted
        exact ⟨ks, rfl⟩
  have hquote : ∀ m, step lim ⟨m, [.key]⟩ 0x22 = ⟨.inString, [.key]⟩ →
      takeValue lim ⟨m, [.key]⟩ (0x22 :: ks ++ rest) =
        prepend [0x22] (takeValue lim ⟨.inString, [.key]⟩ (ks ++ rest)) := by
    intro m hstep
    rw [List.cons_append, takeValue_inside lim ⟨.inString, [.key]⟩ (by simp [closed]) hstep (by simp)]
  rw [hquote .beginValue rfl]
  rcases hm with rfl | rfl
  · exact hquote .beginString rfl
  · exact hquote .beginStringOrEmpty rfl

/-- One member, up to the octet behind it. -/
theorem takeValue_member {lim : Nat} {x : Member} (hx : IsMember lim x) {m : Mode}
    (hm : m = .beginString ∨ m = .beginStringOrEmpty) {c : UInt8} (hc : c = 0x2c ∨ c = 0x7d) (rest : Bytes) :
    takeValue (lim + 1) ⟨m, [.key]⟩ (x.1 ++ 0x3a :: (x.2 ++ c :: rest)) =
      prepend (x.1 ++ 0x3a :: (x.2 ++ [c]))
        (takeValue (lim + 1) (if c = 0x2c then ⟨.beginString, [.key]⟩ else ⟨.endValue, []⟩) rest) := by
  have hcolon : stateEndValue ⟨.endValue, [.key]⟩ 0x3a = ⟨.beginValue, [.value]⟩ := rfl
  have hafter : stateEndValue ⟨.endValue, [.value]⟩ c =
      if c = 0x2c then ⟨.beginString, [.key]⟩ else ⟨.endValue, []⟩ := by
    rcases hc with rfl | rfl <;> rfl
  have hlive : (stateEndValue ⟨.endValue, [.value]⟩ c).mode ≠ .error := by
    rcases hc with rfl | rfl <;> simp [stateEndValue, isSpace]
  rw [takeValue_key hx.quoted hm, hx.key.takeValue_inside .key (Or.inl rfl) (by rw [hcolon]; simp), hcolon,
    hx.value.takeValue_inside .value (Or.inr hc) hlive, prepend_prepend, hafter]
  simp only [List.append_assoc, List.singleton_append]

/-- The members of an object, up to its closing brace. -/
theorem takeValue_joinMembers {lim : Nat} (ms : List Member) (hne : ms ≠ []) (h : ∀ x ∈ ms, IsMember lim x) :
    ∀ {m : Mode}, m = .beginString ∨ m = .beginStringOrEmpty →
      takeValue (lim + 1) ⟨m, [.key]⟩ (joinMembers ms ++ [0x7d]) = some (joinMembers ms ++ [0x7d], []) := by
  induction ms with
  | nil => exact absurd rfl hne
  | cons x ms ih =>
      intro m hm
      have hx := h x (by simp)
      cases ms with
      | nil =>
          have htext : joinMembers [x] ++ [0x7d] = x.1 ++ 0x3a :: (x.2 ++ 0x7d :: []) := by simp [joinMembers]
          have hend : takeValue (lim + 1) ⟨.endValue, []⟩ [] = some ([], []) := rfl
          rw [htext, takeValue_member hx hm (Or.inr rfl), if_neg (by decide), hend]
          simp [prepend]
      | cons y ms =>
          have htext : joinMembers (x :: y :: ms) ++ [0x7d] =
              x.1 ++ 0x3a :: (x.2 ++ 0x2c :: (joinMembers (y :: ms) ++ [0x7d])) := by simp [joinMembers]
          rw [htext, takeValue_member hx hm (Or.inl rfl), if_pos rfl,
            ih (by simp) (fun z hz => h z (List.mem_cons_of_mem x hz)) (Or.inl rfl)]
          simp [prepend]

/-- **An object written from values is a value**, nested one level deeper. -/
theorem isValue_writeObject {lim : Nat} {ms : List Member} (hne : ms ≠ []) (h : ∀ x ∈ ms, IsMember lim x) :
    IsValue (lim + 1) (writeObject ms) := by
  refine ⟨?_, fun c hc => ?_⟩
  · have hstep : step (lim + 1) init 0x7b = ⟨.beginStringOrEmpty, [.key]⟩ := by
      show init.push (lim + 1) .key .beginStringOrEmpty = _
      exact if_pos (Nat.succ_pos lim)
    have hopen : init.closed = false := rfl
    rw [writeObject, Json.takeValue_inside _ _ hopen hstep (by simp),
      takeValue_joinMembers ms hne h (Or.inr rfl)]
    rfl
  · obtain rfl : 0x7b = c := by simpa [writeObject] using hc
    rfl

/-! ## Numbers -/

theorem takeValue_digits (lim : Nat) {ds : Bytes} (h : ∀ c ∈ ds, isDigit c = true) :
    takeValue lim ⟨.int, []⟩ ds = some (ds, []) := by
  induction ds with
  | nil => rfl
  | cons c cs ih =>
      have hc := h c (by simp)
      have hstep : step lim ⟨.int, []⟩ c = ⟨.int, []⟩ := if_pos hc
      have hgoes : continues .int c = true := by simp [continues, hc]
      rw [takeValue_step cs (by simp [hgoes]) (by rw [hstep]; simp), hstep,
        ih fun d hd => h d (List.mem_cons_of_mem c hd)]
      rfl

/-- An integer from its first digit on, where a value or a sign stands in front of it. -/
theorem takeValue_dec (lim : Nat) {m : Mode} (hm : m = .beginValue ∨ m = .neg) (n : Nat) :
    takeValue lim ⟨m, []⟩ (dec n) = some (dec n, []) := by
  have hopen : closed ⟨m, []⟩ = false := by rcases hm with rfl | rfl <;> rfl
  by_cases hn : n = 0
  · subst hn
    have hstep : step lim ⟨m, []⟩ 0x30 = ⟨.zero, []⟩ := by rcases hm with rfl | rfl <;> rfl
    show takeValue lim ⟨m, []⟩ [0x30] = _
    rw [takeValue_inside lim _ hopen hstep (by simp)]
    rfl
  · obtain ⟨d, ds, hd, hlo, hhi, hds⟩ := dec_cons n hn
    have hstep : step lim ⟨m, []⟩ (digit d) = ⟨.int, []⟩ := by
      rcases hm with rfl | rfl <;> interval_cases d <;> rfl
    rw [hd, takeValue_inside lim _ hopen hstep (by simp), takeValue_digits lim hds]
    rfl

theorem isValue_dec (lim n : Nat) : IsValue lim (dec n) := by
  refine ⟨takeValue_dec lim (Or.inl rfl) n, fun c hc => ?_⟩
  have hdigit : isDigit c = true := isDigit_of_mem_dec (List.mem_of_mem_head? hc)
  cases hs : isSpace c with
  | false => rfl
  | true =>
      simp only [isSpace, Bool.or_eq_true, beq_iff_eq] at hs
      rcases hs with ((rfl | rfl) | rfl) | rfl <;> exact absurd hdigit (by decide)

theorem isValue_decInt (lim : Nat) (n : Int) : IsValue lim (decInt n) := by
  unfold decInt
  split
  · refine ⟨?_, fun c hc => ?_⟩
    · rw [takeValue_inside lim ⟨.neg, []⟩ rfl rfl (by simp), takeValue_dec lim (Or.inr rfl)]
      rfl
    · obtain rfl : 0x2d = c := by simpa using hc
      rfl
  · exact isValue_dec lim n.natAbs

end LocalPlatform.Codec.Json
