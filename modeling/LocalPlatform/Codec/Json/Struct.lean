/-
# LocalPlatform.Codec.Json.Struct — decoding an object into a record.

`encoding/json` visits the members of an object in order and hands each raw value to the field its key
names: the field of exactly that name, or else the first one equal to it under case folding.  A later
member overwrites what an earlier one set.  A key that names no field is skipped, or makes the whole
decode fail when unknown fields are disallowed.

A record type takes part by listing its fields: a name, and a setter that is given the record and the
raw value and may refuse.
-/
import LocalPlatform.Codec.Base64
import LocalPlatform.Codec.Json.Object

namespace LocalPlatform.Codec.Json

/-- A field of a record: its JSON name, and what a raw value does to the record. -/
structure StructField (σ : Type) where
  name : Bytes
  set : σ → Bytes → Option σ

/-- `foldName` on one rune: ASCII letters lose their case, and the two runes outside ASCII that fold to
an ASCII letter become it. -/
def foldRune : Rune → Bytes
  | .one c => [if 0x41 ≤ c ∧ c ≤ 0x5a then c + 0x20 else c]
  | .two a b => if a = 0xC5 ∧ b = 0xBF then [0x73] else [a, b]                      -- U+017F
  | .three a b c => if a = 0xE2 ∧ b = 0x84 ∧ c = 0xAA then [0x6b] else [a, b, c]    -- U+212A
  | .four a b c d => [a, b, c, d]
  | .bad a => [a]

/-- A key up to case. -/
def foldName (key : Bytes) : Bytes := (runes key).flatMap foldRune

/-- The field a key names. -/
def fieldFor {σ : Type} (fields : List (StructField σ)) (key : Bytes) : Option (StructField σ) :=
  match fields.find? fun f => f.name = key with
  | some f => some f
  | none => fields.find? fun f => foldName f.name = foldName key

/-- The members of an object, one after the other. -/
def decodeMembers {σ : Type} (strict : Bool) (fields : List (StructField σ)) :
    σ → List Member → Option σ
  | z, [] => some z
  | z, m :: ms =>
    match fieldFor fields (unquote m.1) with
    | some f =>
      match f.set z m.2 with
      | some z' => decodeMembers strict fields z' ms
      | none => none
    | none => if strict then none else decodeMembers strict fields z ms

/-- **`decodeInto strict fields z t`** — decode a JSON value into a record that starts as `z`: `null`
leaves it alone, and no other value than an object fits. -/
def decodeInto {σ : Type} (strict : Bool) (fields : List (StructField σ)) (z : σ) : Text → Option σ
  | .object ms => decodeMembers strict fields z ms
  | .null => some z
  | .scalar _ => none

/-- A string field: `null` leaves it alone, and no other value than a string literal fits. -/
def setString (old raw : Bytes) : Option Bytes :=
  if raw = literalNull then some old
  else if raw.head? = some 0x22 then some (unquote raw)
  else none

/-- A field that holds a Go string. -/
def stringField {σ : Type} (name : String) (get : σ → Bytes) (put : σ → Bytes → σ) : StructField σ :=
  ⟨ascii name, fun z raw => (setString (get z) raw).map (put z)⟩

/-- An integer field: `null` leaves it alone, and no other value than an integer literal of 64 bits fits. -/
def setInt (old : Int) (raw : Bytes) : Option Int := if raw = literalNull then some old else parseInt raw

/-- A Boolean field. -/
def setBool (old : Bool) (raw : Bytes) : Option Bool :=
  if raw = literalNull then some old
  else if raw = ascii "true" then some true
  else if raw = ascii "false" then some false
  else none

/-- A field of octets: `null` empties it, a string literal is base64.  An array of numbers fits as well;
no encoder writes one, and none is read here. -/
def setBytes (raw : Bytes) : Option (Option Bytes) :=
  if raw = literalNull then some none
  else if raw.head? = some 0x22 then (Base64.decode (unquote raw)).map some
  else none

/-- A key that is a field's own name names that field. -/
theorem fieldFor_name {σ : Type} {fields : List (StructField σ)}
    (hnames : (fields.map StructField.name).Nodup) {f : StructField σ} (hf : f ∈ fields) :
    fieldFor fields f.name = some f := by
  have hfind : fields.find? (fun g => g.name = f.name) = some f := by
    induction fields with
    | nil => simp at hf
    | cons g gs ih =>
        rw [List.map_cons, List.nodup_cons] at hnames
        rcases List.mem_cons.mp hf with rfl | hf
        · simp
        · have hne : g.name ≠ f.name := fun heq => hnames.1 (heq ▸ List.mem_map_of_mem hf)
          rw [List.find?_cons_of_neg (by simpa using hne)]
          exact ih hnames.2 hf
  rw [fieldFor, hfind]

/-- **What every setter keeps, the decode keeps.** -/
theorem decodeMembers_induction {σ : Type} {strict : Bool} {fields : List (StructField σ)}
    {P : σ → Prop} {Q : Bytes → Prop}
    (hset : ∀ f ∈ fields, ∀ z raw z', P z → Q raw → f.set z raw = some z' → P z') :
    ∀ {ms : List Member} {z z' : σ}, (∀ m ∈ ms, Q m.2) → P z →
      decodeMembers strict fields z ms = some z' → P z' := by
  intro ms
  induction ms with
  | nil =>
      intro z z' _ hz h
      rw [← Option.some.inj h]
      exact hz
  | cons m ms ih =>
      intro z z' hq hz h
      have hq' : ∀ x ∈ ms, Q x.2 := fun x hx => hq x (List.mem_cons_of_mem m hx)
      rw [decodeMembers] at h
      split at h
      · next f hf =>
        have hmem : f ∈ fields := by
          unfold fieldFor at hf
          split at hf
          · next g hg =>
            obtain rfl := Option.some.inj hf
            exact List.mem_of_find?_eq_some hg
          · exact List.mem_of_find?_eq_some hf
        split at h
        · next z₁ hz₁ => exact ih hq' (hset f hmem z m.2 z₁ hz (hq m (by simp)) hz₁) h
        · exact absurd h (by simp)
      · split at h
        · exact absurd h (by simp)
        · exact ih hq' hz h

/-- A member whose key is written as a field's own name sets that field. -/
theorem decodeMembers_cons {σ : Type} {strict : Bool} {fields : List (StructField σ)} {key : Bytes}
    {f : StructField σ} (h : fieldFor fields (unquote key) = some f) (z : σ) (value : Bytes)
    (ms : List Member) :
    decodeMembers strict fields z ((key, value) :: ms) =
      (f.set z value).bind fun z' => decodeMembers strict fields z' ms := by
  rw [decodeMembers, h]
  cases hset : f.set z value <;> simp only [hset] <;> rfl

/-- A string that was set is well-formed UTF-8, if it was so before. -/
theorem validUtf8_of_setString {old raw s : Bytes} (h : setString old raw = some s)
    (hold : validUtf8 old = true) : validUtf8 s = true := by
  unfold setString at h
  split at h
  · exact Option.some.inj h ▸ hold
  · split at h
    · exact Option.some.inj h ▸ validUtf8_unquote raw
    · exact absurd h (by simp)

/-- A string literal `json.Marshal` wrote is taken whatever it was written from. -/
theorem setString_quote_unquote (old s : Bytes) : setString old (quote s) = some (unquote (quote s)) := by
  have hnull : quote s ≠ literalNull := by
    intro hq
    have hhead := congrArg List.head? hq
    simp [quote, literalNull] at hhead
  rw [setString, if_neg hnull, if_pos (by simp [quote])]

/-- A string literal `json.Marshal` wrote sets the string it was written from. -/
theorem setString_quote (old : Bytes) {s : Bytes} (h : validUtf8 s = true) :
    setString old (quote s) = some s := by
  rw [setString_quote_unquote, unquote_quote h]

/-- An integer that was written sets itself. -/
theorem setInt_decInt (old : Int) {n : Int} (hlo : -2 ^ 63 ≤ n) (hhi : n < 2 ^ 63) : setInt old (decInt n) = some n := by
  have hnull : decInt n ≠ literalNull := by
    intro hn
    have hmem : (0x6e : UInt8) ∈ decInt n := by simp [hn, literalNull]
    rcases mem_decInt hmem with h | h <;> exact absurd h (by decide)
  rw [setInt, if_neg hnull, parseInt_decInt hlo hhi]

theorem setInt_dec (old : Int) {n : Nat} (h : n < 2 ^ 63) : setInt old (dec n) = some (n : Int) := by
  rw [← decInt_natCast]
  exact setInt_decInt old (by omega) (by omega)

/-- A key written as a field's own name names that field. -/
theorem fieldFor_keyLiteral {σ : Type} {fields : List (StructField σ)}
    (hnames : (fields.map StructField.name).Nodup) {f : StructField σ} {name : String} (hf : f ∈ fields)
    (hname : f.name = ascii name) (hsafe : (ascii name).all safe = true) :
    fieldFor fields (unquote (keyLiteral name)) = some f := by
  rw [keyLiteral, unquote_safe hsafe, ← hname, fieldFor_name hnames hf]

/-- A member that is written for a field sets that field. -/
theorem decode_field {σ : Type} (strict : Bool) {fields : List (StructField σ)}
    (hnames : (fields.map StructField.name).Nodup) {f : StructField σ} {name : String} (hf : f ∈ fields)
    (hname : f.name = ascii name) (hsafe : (ascii name).all safe = true) (z : σ) (value : Bytes) (ms : List Member) :
    decodeMembers strict fields z ((keyLiteral name, value) :: ms) =
      (f.set z value).bind fun z' => decodeMembers strict fields z' ms :=
  decodeMembers_cons (fieldFor_keyLiteral hnames hf hname hsafe) z value ms

/-- A member with a quoted string sets the string field it names. -/
theorem decode_stringField {σ : Type} (strict : Bool) {fields : List (StructField σ)}
    (hnames : (fields.map StructField.name).Nodup) (name : String) (get : σ → Bytes) (put : σ → Bytes → σ)
    (hf : stringField name get put ∈ fields) (hsafe : (ascii name).all safe = true) {s : Bytes}
    (hs : validUtf8 s = true) (z : σ) (ms : List Member) :
    decodeMembers strict fields z ((keyLiteral name, quote s) :: ms) =
      decodeMembers strict fields (put z s) ms := by
  rw [decode_field strict hnames hf rfl hsafe, stringField]
  simp only [setString_quote _ hs, Option.map_some, Option.bind_some]

end LocalPlatform.Codec.Json
