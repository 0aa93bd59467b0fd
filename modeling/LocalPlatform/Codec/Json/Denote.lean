/-
# LocalPlatform.Codec.Json.Denote — what a string literal says before it is repaired.

The decoder replaces malformed octets and unpaired surrogates by `U+FFFD`, so different literals come out
as one string.  `denoted` keeps them apart: a malformed octet stays, and an unpaired surrogate becomes the
three octets its number would take.  Where nothing needs repair the two readings are the same
(`unquote_of_sound`).  Beside it stands the rule that compares two decodes of one object
(`decodeMembers_rel`).
-/
import LocalPlatform.Codec.Json.Struct

namespace LocalPlatform.Codec.Json

/-! ## Literals -/

/-- The rune behind a backslash, malformed or not. -/
def rawUnescape : Rune → Rune
  | .one c => unescape (.one c)
  | r => r

/-- `tokens`, with nothing repaired. -/
def rawTokens : List Rune → List Token
  | [] => []
  | r :: t =>
    if r = .one 0x5c then
      match t with
      | [] => []
      | e :: t₁ =>
        if e = .one 0x75 then
          match t₁ with
          | h₁ :: h₂ :: h₃ :: h₄ :: t₂ => .unit (hex4 h₁ h₂ h₃ h₄) :: rawTokens t₂
          | _ => []
        else .plain (rawUnescape e) :: rawTokens t₁
    else .plain r :: rawTokens t

/-- A code unit on its own. -/
def encodeUnit (n : Nat) : Rune :=
  if isHighSurrogate n || isLowSurrogate n then
    .three (UInt8.ofNat (0xE0 + n / 4096)) (UInt8.ofNat (0x80 + n / 64 % 64)) (UInt8.ofNat (0x80 + n % 64))
  else encodeRune n

/-- `joinUnits`, with unpaired surrogates kept. -/
def rawUnits : List Token → List Rune
  | [] => []
  | .plain r :: t => r :: rawUnits t
  | .unit n :: t =>
    match t with
    | .unit m :: t₁ =>
      if isHighSurrogate n && isLowSurrogate m then
        encodeRune (0x10000 + (n - 0xD800) * 1024 + (m - 0xDC00)) :: rawUnits t₁
      else encodeUnit n :: rawUnits (.unit m :: t₁)
    | t => encodeUnit n :: rawUnits t

/-- **The runes a literal denotes**, `lit` including its quotes. -/
def denoted (lit : Bytes) : List Rune := rawUnits (rawTokens (runes (lit.drop 1).dropLast))

/-- Nothing in it is malformed and no surrogate is without its other half. -/
def Sound (rs : List Rune) : Prop := ∀ r ∈ rs, r.wellFormed = true

instance (rs : List Rune) : Decidable (Sound rs) := inferInstanceAs (Decidable (∀ r ∈ rs, r.wellFormed = true))

def Token.repair : Token → Token
  | .plain r => .plain (Json.repair r)
  | .unit n => .unit n

theorem repair_rawUnescape (e : Rune) : repair (rawUnescape e) = unescape e := by
  cases e <;> rfl

theorem rawTokens_cons (r : Rune) (t : List Rune) :
    rawTokens (r :: t) =
      if r = .one 0x5c then
        match t with
        | [] => []
        | e :: t₁ =>
          if e = .one 0x75 then
            match t₁ with
            | h₁ :: h₂ :: h₃ :: h₄ :: t₂ => .unit (hex4 h₁ h₂ h₃ h₄) :: rawTokens t₂
            | _ => []
          else .plain (rawUnescape e) :: rawTokens t₁
      else .plain r :: rawTokens t := by
  conv_lhs => rw [rawTokens.eq_def]

/-- Repairing is done token by token. -/
theorem tokens_eq_map (rs : List Rune) : tokens rs = (rawTokens rs).map Token.repair := by
  induction rs using rawTokens.induct with
  | case1 => rfl
  | case2 => rfl
  | case3 h₁ h₂ h₃ h₄ t ih =>
      rw [tokens_cons, rawTokens_cons]
      simp [ih, Token.repair]
  | case4 t hshort =>
      rw [tokens_cons, rawTokens_cons]
      simp only [if_true]
      rfl
  | case5 e t he ih =>
      rw [tokens_cons, rawTokens_cons]
      simp only [he, if_true, if_false, List.map_cons, Token.repair, repair_rawUnescape, ih]
  | case6 r t hr ih =>
      rw [tokens_cons, rawTokens_cons]
      simp only [hr, if_false, List.map_cons, Token.repair, ih]

/-- A lone surrogate is no rune. -/
theorem encodeUnit_of_wellFormed {n : Nat} (h : (encodeUnit n).wellFormed = true) : encodeUnit n = encodeRune n := by
  unfold encodeUnit at h ⊢
  split
  · next hsurrogate =>
    rw [if_pos hsurrogate] at h
    simp only [isHighSurrogate, isLowSurrogate, Bool.or_eq_true, Bool.and_eq_true, decide_eq_true_eq] at hsurrogate
    have hlead : n / 4096 = 13 := by omega
    obtain ⟨k, hk, hlow, hhigh⟩ : ∃ k, n / 64 % 64 = k ∧ 32 ≤ k ∧ k < 64 := ⟨_, rfl, by omega, by omega⟩
    rw [hlead, hk] at h
    exfalso
    interval_cases k <;> simp [Rune.wellFormed, Rune.isThree] at h
  · rfl

theorem Sound.tail {r : Rune} {rs : List Rune} (h : Sound (r :: rs)) : Sound rs :=
  fun q hq => h q (List.mem_cons_of_mem r hq)

/-- **Tokens with nothing to repair are joined as they are.** -/
theorem joinUnits_repair {ts : List Token} (h : Sound (rawUnits ts)) :
    joinUnits (ts.map Token.repair) = rawUnits ts := by
  -- on the tokens, as `rawUnits` pairs them
  induction ts using rawUnits.induct with
  | case1 => rfl
  | case2 r t ih =>
      have hr : r.wellFormed = true := h r (List.mem_cons_self ..)
      show repair r :: joinUnits (t.map Token.repair) = r :: rawUnits t
      rw [repair_of_wellFormed hr, ih h.tail]
  | case3 n m t hpair ih =>
      rw [rawUnits, if_pos hpair] at h ⊢
      simp only [List.map_cons, Token.repair]
      rw [joinUnits, if_pos hpair, ih h.tail]
  | case4 n m t hpair ih =>
      rw [rawUnits, if_neg hpair] at h ⊢
      simp only [List.map_cons, Token.repair] at ih ⊢
      rw [joinUnits, if_neg hpair, ih h.tail, encodeUnit_of_wellFormed (h _ (List.mem_cons_self ..))]
  | case5 n t hlone ih =>
      have hraw : rawUnits (.unit n :: t) = encodeUnit n :: rawUnits t := by
        cases t with
        | nil => rfl
        | cons x t =>
            cases x with
            | plain r => rfl
            | unit m => exact absurd rfl (hlone m t)
      have hjoin : joinUnits (.unit n :: t.map Token.repair) = encodeRune n :: joinUnits (t.map Token.repair) := by
        cases t with
        | nil => rfl
        | cons x t =>
            cases x with
            | plain r => rfl
            | unit m => exact absurd rfl (hlone m t)
      rw [hraw] at h ⊢
      show joinUnits (.unit n :: t.map Token.repair) = _
      rw [hjoin, ih h.tail, encodeUnit_of_wellFormed (h _ (List.mem_cons_self ..))]

/-- **A sound literal is read as what it denotes.** -/
theorem unquote_of_sound {lit : Bytes} (h : Sound (denoted lit)) : unquote lit = (denoted lit).flatMap Rune.bytes := by
  unfold denoted at h ⊢
  rw [unquote, unquoteBody, tokens_eq_map, joinUnits_repair h]

/-! ## Two decodes of one object -/

/-- The same field of two records: the same name, and setters that agree on what they take. -/
def SameField {σ τ : Type} (R : σ → τ → Prop) (f : StructField σ) (g : StructField τ) : Prop :=
  f.name = g.name ∧ ∀ z w raw, R z w → Option.Rel R (f.set z raw) (g.set w raw)

section Rel

variable {σ τ : Type} {R : σ → τ → Prop} {fs : List (StructField σ)} {gs : List (StructField τ)}

theorem find_rel (h : List.Forall₂ (SameField R) fs gs) (p : Bytes → Bool) :
    Option.Rel (SameField R) (fs.find? fun f => p f.name) (gs.find? fun g => p g.name) := by
  induction h with
  | nil => exact .none
  | @cons f g fs gs hfg _ ih =>
      rw [List.find?_cons, List.find?_cons, hfg.1]
      split
      · exact .some hfg
      · exact ih

theorem fieldFor_rel (h : List.Forall₂ (SameField R) fs gs) (key : Bytes) :
    Option.Rel (SameField R) (fieldFor fs key) (fieldFor gs key) := by
  have hexact := find_rel h fun name => name = key
  have hfolded := find_rel h fun name => foldName name = foldName key
  unfold fieldFor
  cases hf : fs.find? fun f => f.name = key with
  | none =>
      cases hg : gs.find? fun g => g.name = key with
      | none => exact hfolded
      | some g => rw [hf, hg] at hexact; cases hexact
  | some f =>
      cases hg : gs.find? fun g => g.name = key with
      | none => rw [hf, hg] at hexact; cases hexact
      | some g => rw [hf, hg] at hexact; exact hexact

/-- **What the fields of two records keep between them, the decodes keep.** -/
theorem decodeMembers_rel (h : List.Forall₂ (SameField R) fs gs) (strict : Bool) (ms : List Member) :
    ∀ {z : σ} {w : τ}, R z w → Option.Rel R (decodeMembers strict fs z ms) (decodeMembers strict gs w ms) := by
  -- on the members; both tables take a member or neither does
  induction ms with
  | nil => exact fun hzw => .some hzw
  | cons m ms ih =>
      intro z w hzw
      have hfield := fieldFor_rel h (unquote m.1)
      rw [decodeMembers, decodeMembers]
      cases hf : fieldFor fs (unquote m.1) with
      | none =>
          cases hg : fieldFor gs (unquote m.1) with
          | some g => rw [hf, hg] at hfield; cases hfield
          | none =>
              cases strict with
              | true => exact .none
              | false => exact ih hzw
      | some f =>
          cases hg : fieldFor gs (unquote m.1) with
          | none => rw [hf, hg] at hfield; cases hfield
          | some g =>
              rw [hf, hg] at hfield
              cases hfield with
              | some hfg =>
                  have hset := hfg.2 z w m.2 hzw
                  simp only
                  cases hz : f.set z m.2 with
                  | none =>
                      cases hw : g.set w m.2 with
                      | none => exact .none
                      | some w' => rw [hz, hw] at hset; cases hset
                  | some z' =>
                      cases hw : g.set w m.2 with
                      | none => rw [hz, hw] at hset; cases hset
                      | some w' =>
                          rw [hz, hw] at hset
                          cases hset with
                          | some hzw' => exact ih hzw'

theorem decodeInto_rel (h : List.Forall₂ (SameField R) fs gs) (strict : Bool) (t : Text) {z : σ} {w : τ} (hzw : R z w) :
    Option.Rel R (decodeInto strict fs z t) (decodeInto strict gs w t) := by
  cases t with
  | object ms => exact decodeMembers_rel h strict ms hzw
  | null => exact .some hzw
  | scalar raw => exact .none

end Rel

/-- A string field that holds what its literal denotes. -/
def denotedField {σ : Type} (name : String) (get : σ → List Rune) (put : σ → List Rune → σ) : StructField σ :=
  ⟨ascii name, fun z raw =>
    if raw = literalNull then some (put z (get z))
    else if raw.head? = some 0x22 then some (put z (denoted raw))
    else none⟩

end LocalPlatform.Codec.Json
