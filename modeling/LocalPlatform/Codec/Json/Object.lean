/-
# LocalPlatform.Codec.Json.Object — the members of an object, with their values left as raw text.

Decoding a JSON object into a Go struct visits its members in order and hands each raw value to the
field the key names.  `whole` and `first` are the part of that which is common to every struct: they
decide whether a text is one JSON value and, for an object, split it into pairs of a key literal and
the raw text of the value.  Values are delimited by the scanner, so a raw value is a JSON value by
construction (`isValue_of_whole`).

The reverse direction is `whole_writeObject`: a text assembled from literals, values and commas,
however the pieces were made, is split back into exactly those pieces.
-/
import LocalPlatform.Codec.Json.Quote

namespace LocalPlatform.Codec.Json

open Scan

/-- Drop the white space in front of a token. -/
def skipSpace (bs : Bytes) : Bytes := bs.dropWhile isSpace

/-- Read one given octet. -/
def expect (c : UInt8) : Bytes → Option Bytes
  | [] => none
  | d :: ds => if d = c then some ds else none

/-- Read a key literal. -/
def takeKey (lim : Nat) : Bytes → Option (Bytes × Bytes)
  | [] => none
  | c :: cs => if c = 0x22 then takeValue lim init (c :: cs) else none

/-- A member: the key as a literal, the value as raw text. -/
abbrev Member := Bytes × Bytes

/-- **`members lim n bs`** — the members of an object from a key on, and the text behind its closing
brace.  `lim` bounds the nesting of the values; `n` counts down the members still allowed, and the
length of the text is always enough of them. -/
def members (lim : Nat) : Nat → Bytes → Option (List Member × Bytes)
  | 0, _ => none
  | n + 1, bs =>
    match takeKey lim (skipSpace bs) with
    | none => none
    | some (key, bs₁) =>
      match expect 0x3a (skipSpace bs₁) with
      | none => none
      | some bs₂ =>
        match takeValue lim init (skipSpace bs₂) with
        | none => none
        | some (value, bs₃) =>
          match skipSpace bs₃ with
          | [] => none
          | c :: rest =>
            if c = 0x2c then
              (members lim n rest).map fun p => ((key, value) :: p.1, p.2)
            else if c = 0x7d then some ([(key, value)], rest)
            else none

/-- An object from its opening brace on. -/
def object (lim : Nat) (bs : Bytes) : Option (List Member × Bytes) :=
  match expect 0x7b bs with
  | none => none
  | some rest =>
    match expect 0x7d (skipSpace rest) with
    | some rest' => some ([], rest')
    | none => members (lim - 1) rest.length rest

/-- One JSON value at the front of a text, an object split into its members. -/
inductive Text where
  | object (ms : List Member)
  | null
  /-- Any other value. -/
  | scalar (raw : Bytes)
  deriving DecidableEq, Repr

def literalNull : Bytes := [0x6e, 0x75, 0x6c, 0x6c]

/-- **`first lim bs`** — the first JSON value of a text and what follows it: the reading of
`Decoder.Decode`. -/
def first (lim : Nat) (bs : Bytes) : Option (Text × Bytes) :=
  match object lim (skipSpace bs) with
  | some (ms, rest) => some (.object ms, rest)
  | none =>
    match takeValue lim init (skipSpace bs) with
    | none => none
    | some (raw, rest) =>
      if raw.head? = some 0x7b then none
      else some (if raw = literalNull then .null else .scalar raw, rest)

/-- **`whole lim bs`** — a text that is one JSON value and white space: the reading of
`json.Unmarshal`. -/
def whole (lim : Nat) (bs : Bytes) : Option Text :=
  match first lim bs with
  | none => none
  | some (t, rest) => if rest.all isSpace then some t else none

/-! ## What is captured is a value -/

theorem skipSpace_bare (bs : Bytes) : ∀ c ∈ (skipSpace bs).head?, isSpace c = false := by
  intro c hc
  have := List.head?_dropWhile_not isSpace bs
  rw [skipSpace] at hc
  rw [Option.mem_def.mp hc] at this
  simpa using this

theorem skipSpace_of_bare {bs : Bytes} (h : ∀ c ∈ bs.head?, isSpace c = false) :
    skipSpace bs = bs := by
  cases bs with
  | nil => rfl
  | cons c cs => simp [skipSpace, h c (by simp)]

/-- The one inversion of `members`: a member, and a comma with more of them or the closing brace. -/
theorem members_succ {lim n : Nat} {bs rest : Bytes} {ms : List Member}
    (h : members lim (n + 1) bs = some (ms, rest)) :
    ∃ key value bs₁ bs₂ bs₃ rest₁ ms₁,
      takeKey lim (skipSpace bs) = some (key, bs₁) ∧
      expect 0x3a (skipSpace bs₁) = some bs₂ ∧
      takeValue lim init (skipSpace bs₂) = some (value, bs₃) ∧
      ms = (key, value) :: ms₁ ∧
      ((skipSpace bs₃ = 0x2c :: rest₁ ∧ members lim n rest₁ = some (ms₁, rest)) ∨
        (skipSpace bs₃ = 0x7d :: rest₁ ∧ ms₁ = [] ∧ rest = rest₁)) := by
  rw [members] at h
  split at h
  · exact absurd h (by simp)
  next key bs₁ hk =>
  split at h
  · exact absurd h (by simp)
  next bs₂ hc =>
  split at h
  · exact absurd h (by simp)
  next value bs₃ hv =>
  split at h
  · exact absurd h (by simp)
  next c rest₁ hs =>
  split at h
  · next hcomma =>
    obtain ⟨⟨ms₁, r⟩, hm, hmr⟩ := Option.map_eq_some_iff.mp h
    obtain ⟨rfl, rfl⟩ := Prod.mk.injEq .. ▸ hmr
    exact ⟨key, value, bs₁, bs₂, bs₃, rest₁, ms₁, hk, hc, hv, rfl,
      Or.inl ⟨by rw [hs, hcomma], hm⟩⟩
  · split at h
    · next hbrace =>
      obtain ⟨rfl, rfl⟩ := Prod.mk.injEq .. ▸ Option.some.injEq .. ▸ h
      exact ⟨key, value, bs₁, bs₂, bs₃, rest₁, [], hk, hc, hv, rfl,
        Or.inr ⟨by rw [hs, hbrace], rfl, rfl⟩⟩
    · exact absurd h (by simp)

theorem isValue_of_mem_members {lim n : Nat} {bs rest : Bytes} {ms : List Member}
    (h : members lim n bs = some (ms, rest)) {m : Member} (hm : m ∈ ms) : IsValue lim m.2 := by
  induction n generalizing bs ms with
  | zero => simp [members] at h
  | succ n ih =>
      obtain ⟨key, value, _, bs₂, _, _, ms₁, _, _, hv, rfl, hmore⟩ := members_succ h
      rcases List.mem_cons.mp hm with rfl | hm
      · exact isValue_of_takeValue hv (skipSpace_bare _)
      · rcases hmore with ⟨_, hrest⟩ | ⟨_, rfl, _⟩
        · exact ih hrest hm
        · simp at hm

theorem isValue_of_mem_object {lim : Nat} {bs rest : Bytes} {ms : List Member}
    (h : object lim bs = some (ms, rest)) {m : Member} (hm : m ∈ ms) : IsValue (lim - 1) m.2 := by
  unfold object at h
  split at h
  · exact absurd h (by simp)
  · split at h
    · obtain ⟨rfl, _⟩ := Prod.mk.injEq .. ▸ Option.some.injEq .. ▸ h
      simp at hm
    · exact isValue_of_mem_members h hm

/-- **Every raw value a decoder is handed is one JSON value.** -/
theorem isValue_of_first {lim : Nat} {bs rest : Bytes} {ms : List Member}
    (h : first lim bs = some (.object ms, rest)) {m : Member} (hm : m ∈ ms) :
    IsValue (lim - 1) m.2 := by
  unfold first at h
  split at h
  · next ms' rest' hobj =>
    obtain ⟨hms, _⟩ := Prod.mk.injEq .. ▸ Option.some.injEq .. ▸ h
    obtain rfl := Text.object.inj hms
    exact isValue_of_mem_object hobj hm
  · split at h
    · exact absurd h (by simp)
    · split at h
      · exact absurd h (by simp)
      · split at h <;> simp at h

theorem isValue_of_whole {lim : Nat} {bs : Bytes} {ms : List Member}
    (h : whole lim bs = some (.object ms)) {m : Member} (hm : m ∈ ms) : IsValue (lim - 1) m.2 := by
  unfold whole at h
  split at h
  · exact absurd h (by simp)
  next t rest hfirst =>
  split at h
  · obtain rfl := Option.some.inj h
    exact isValue_of_first hfirst hm
  · exact absurd h (by simp)

/-! ## Assembling an object -/

/-- The members of an object, separated by commas, as an encoder writes them. -/
def joinMembers : List Member → Bytes
  | [] => []
  | [(k, v)] => k ++ 0x3a :: v
  | (k, v) :: m :: ms => k ++ 0x3a :: (v ++ 0x2c :: joinMembers (m :: ms))

/-- A JSON key as the encoders write it. -/
def keyLiteral (name : String) : Bytes := 0x22 :: ascii name ++ [0x22]

theorem length_keyLiteral (name : String) : (keyLiteral name).length = (ascii name).length + 2 := by
  simp [keyLiteral]

/-- A member an encoder may write: a string literal and a value. -/
structure IsMember (lim : Nat) (m : Member) : Prop where
  key : IsValue lim m.1
  quoted : m.1.head? = some 0x22
  value : IsValue lim m.2

theorem isMember_quote {lim : Nat} {name : String} (h : (ascii name).all plain = true) (s : Bytes) :
    IsMember lim (keyLiteral name, quote s) :=
  ⟨isValue_plain lim h, rfl, isValue_quote lim s⟩

theorem IsValue.skipSpace_append {lim : Nat} {v : Bytes} (h : IsValue lim v) (rest : Bytes) :
    skipSpace (v ++ rest) = v ++ rest := by
  refine skipSpace_of_bare fun c hc => h.bare c ?_
  obtain ⟨d, ds, rfl⟩ := List.exists_cons_of_ne_nil h.ne_nil
  simpa using hc

theorem IsMember.takeKey {lim : Nat} {m : Member} (h : IsMember lim m) (rest : Bytes) :
    takeKey lim (skipSpace (m.1 ++ 0x3a :: rest)) = some (m.1, 0x3a :: rest) := by
  rw [h.key.skipSpace_append]
  have htake := h.key.takeValue_append (c := 0x3a) rfl rest
  obtain ⟨d, ds, hd⟩ := List.exists_cons_of_ne_nil h.key.ne_nil
  have hq : d = 0x22 := by simpa [hd] using h.quoted
  rw [hd, List.cons_append] at htake ⊢
  rw [Json.takeKey, if_pos hq]
  exact htake

/-- A member as an encoder writes it is read back, up to the separator behind it. -/
theorem members_member {lim n : Nat} {m : Member} (h : IsMember lim m) {c : UInt8}
    (hc : isDelimiter c = true) (hbare : isSpace c = false) (rest : Bytes) :
    members lim (n + 1) (m.1 ++ 0x3a :: (m.2 ++ c :: rest)) =
      if c = 0x2c then (members lim n rest).map fun p => (m :: p.1, p.2)
      else if c = 0x7d then some ([m], rest) else none := by
  have hcolon : skipSpace (0x3a :: (m.2 ++ c :: rest)) = 0x3a :: (m.2 ++ c :: rest) :=
    skipSpace_of_bare (by simp; rfl)
  have hend : skipSpace (c :: rest) = c :: rest := skipSpace_of_bare (by simpa using hbare)
  rw [members, h.takeKey]
  simp only [hcolon, expect, if_true, h.value.skipSpace_append, h.value.takeValue_append hc, hend]

/-- **Splitting undoes joining.** -/
theorem members_join {lim : Nat} (ms : List Member) (hne : ms ≠ []) (h : ∀ m ∈ ms, IsMember lim m)
    {n : Nat} (hn : ms.length ≤ n) (rest : Bytes) :
    members lim n (joinMembers ms ++ 0x7d :: rest) = some (ms, rest) := by
  induction ms generalizing n with
  | nil => exact absurd rfl hne
  | cons m ms ih =>
      obtain ⟨n, rfl⟩ : ∃ k, n = k + 1 := ⟨n - 1, by simp at hn; omega⟩
      have hm := h m (by simp)
      cases ms with
      | nil =>
          have happ : joinMembers [m] ++ 0x7d :: rest = m.1 ++ 0x3a :: (m.2 ++ 0x7d :: rest) := by
            simp [joinMembers]
          rw [happ, members_member hm rfl rfl]
          rfl
      | cons m' ms =>
          have happ : joinMembers (m :: m' :: ms) ++ 0x7d :: rest =
              m.1 ++ 0x3a :: (m.2 ++ 0x2c :: (joinMembers (m' :: ms) ++ 0x7d :: rest)) := by
            simp [joinMembers]
          rw [happ, members_member hm rfl rfl, if_pos rfl,
            ih (by simp) (fun x hx => h x (List.mem_cons_of_mem m hx)) (by simpa using hn)]
          rfl

theorem length_le_joinMembers {lim : Nat} (ms : List Member) (h : ∀ m ∈ ms, IsMember lim m) :
    ms.length ≤ (joinMembers ms).length := by
  induction ms with
  | nil => simp
  | cons m ms ih =>
      have hms := ih fun x hx => h x (List.mem_cons_of_mem m hx)
      cases ms with
      | nil => simp [joinMembers]; omega
      | cons m' ms =>
          simp only [joinMembers, List.length_append, List.length_cons] at hms ⊢
          omega

/-- An object written member by member. -/
def writeObject (ms : List Member) : Bytes := 0x7b :: (joinMembers ms ++ [0x7d])

/-- **Decoding an encoded object gives back its members**, keys as literals and values as the raw
text that was written. -/
theorem first_writeObject {lim : Nat} (ms : List Member) (hne : ms ≠ [])
    (h : ∀ m ∈ ms, IsMember (lim - 1) m) : first lim (writeObject ms) = some (.object ms, []) := by
  have hfront : skipSpace (writeObject ms) = writeObject ms := skipSpace_of_bare (by
    simp [writeObject]; rfl)
  have hnotEmpty : expect 0x7d (skipSpace (joinMembers ms ++ [0x7d])) = none := by
    obtain ⟨m, ms, rfl⟩ := List.exists_cons_of_ne_nil hne
    have hm := h m (by simp)
    obtain ⟨d, ds, hd⟩ := List.exists_cons_of_ne_nil hm.key.ne_nil
    have hq : d = 0x22 := by simpa [hd] using hm.quoted
    obtain ⟨tail, htail⟩ : ∃ tail, joinMembers (m :: ms) ++ [0x7d] = 0x22 :: tail := by
      cases ms with
      | nil => exact ⟨ds ++ 0x3a :: m.2 ++ [0x7d], by simp [joinMembers, hd, hq]⟩
      | cons m' ms =>
          exact ⟨ds ++ 0x3a :: (m.2 ++ 0x2c :: joinMembers (m' :: ms)) ++ [0x7d],
            by simp [joinMembers, hd, hq]⟩
    rw [htail, skipSpace_of_bare (by simp; rfl)]
    rfl
  have hobj : object lim (writeObject ms) = some (ms, []) := by
    have hopen : expect 0x7b (writeObject ms) = some (joinMembers ms ++ [0x7d]) := rfl
    simp only [object, hopen, hnotEmpty]
    refine members_join ms hne h ?_ []
    rw [List.length_append]
    exact Nat.le_add_right_of_le (length_le_joinMembers ms h)
  rw [first, hfront, hobj]

theorem whole_writeObject {lim : Nat} (ms : List Member) (hne : ms ≠ [])
    (h : ∀ m ∈ ms, IsMember (lim - 1) m) : whole lim (writeObject ms) = some (.object ms) := by
  rw [whole, first_writeObject ms hne h]
  rfl

/-- What a member takes: its two texts, a colon, and a comma or a brace. -/
def memberSize (m : Member) : Nat := m.1.length + m.2.length + 2

theorem length_writeObject {ms : List Member} (hne : ms ≠ []) :
    (writeObject ms).length = 1 + (ms.map memberSize).sum := by
  have hjoin : (joinMembers ms).length + 1 = (ms.map memberSize).sum := by
    induction ms with
    | nil => exact absurd rfl hne
    | cons m rest ih =>
        cases rest with
        | nil =>
            simp only [joinMembers, List.length_append, List.length_cons, List.map_cons, List.map_nil,
              List.sum_cons, List.sum_nil, memberSize]
            omega
        | cons m' rest =>
            have hrest := ih (by simp)
            rw [joinMembers, List.map_cons, List.sum_cons, ← hrest, memberSize]
            simp only [List.length_append, List.length_cons]
            omega
  rw [writeObject, List.length_cons, List.length_append, List.length_singleton]
  omega

end LocalPlatform.Codec.Json
