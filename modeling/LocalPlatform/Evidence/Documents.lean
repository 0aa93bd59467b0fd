/-
# LocalPlatform.Evidence.Documents — a document that was scanned has no credential in any of its strings.

The scan sees octets; what a reader of the packet cares about are the documents in it.  A document that `json.dump` wrote is
read back by the scan, whatever is in its strings, so an accepted artifact that is such a document holds no credential in
any string at any depth, nor in what those strings carry in turn (`clean_of_document`).
-/
import LocalPlatform.Evidence.Carriers

namespace LocalPlatform.Evidence

open Codec Logic Python

/-! ## What is written is ASCII -/

/-- ASCII characters, none of them zero or a carriage return. -/
def Plain (s : Str) : Prop := ∀ c ∈ s, (0 < c ∧ c ≠ 0x0d) ∧ c < 0x80

namespace Plain

theorem append {s t : Str} (hs : Plain s) (ht : Plain t) : Plain (s ++ t) := fun c hc =>
  (List.mem_append.mp hc).elim (hs c) (ht c)

theorem newline (level : Nat) : Plain (Json.newline level) := by
  intro c hc
  rcases List.mem_cons.mp hc with rfl | hc
  · decide
  · obtain rfl := List.eq_of_mem_replicate hc
    decide

theorem lit {s : Str} (h : s.all (fun c => (0 < c ∧ c ≠ 0x0d) ∧ c < 0x80) = true) : Plain s := fun c hc =>
  of_decide_eq_true (List.all_eq_true.mp h c hc)

theorem joinWith {sep : Str} (hsep : Plain sep) : ∀ {texts : List Str}, (∀ t ∈ texts, Plain t) → Plain (Json.joinWith sep texts)
  | [], _ => fun _ hc => absurd hc List.not_mem_nil
  | [t], h => h t List.mem_cons_self
  | t :: u :: texts, h => by
    rw [Json.joinWith_cons]
    exact (h t List.mem_cons_self).append (hsep.append (joinWith hsep fun w hw => h w (List.mem_cons_of_mem t hw)))

theorem block {opening closing : Nat} (h : Plain [opening, closing]) (level : Nat) {texts : List Str} (htexts : ∀ t ∈ texts, Plain t) :
    Plain (Json.block opening closing level texts) := by
  have hopening : Plain [opening] := fun c hc => h c (by rw [List.mem_singleton.mp hc]; simp)
  have hclosing : Plain [closing] := fun c hc => h c (by rw [List.mem_singleton.mp hc]; simp)
  unfold Json.block
  split
  · exact h
  · exact (((hopening.append (newline _)).append (joinWith ((lit (by decide)).append (newline _)) htexts)).append (newline _)).append
      hclosing

theorem unitEscape (n : Nat) : Plain (Json.unitEscape n) := by
  refine (lit (by decide)).append fun c hc => ?_
  obtain ⟨i, -, rfl⟩ := List.mem_map.mp hc
  have hlt := Nat.mod_lt (n / 16 ^ i) (by decide : 0 < 16)
  unfold Value.hexDigit
  split <;> omega

theorem escape (n : Nat) : Plain (Json.escape n) := by
  unfold Json.escape
  repeat' split
  all_goals first
    | exact lit (by decide)
    | exact unitEscape n
    | exact (unitEscape _).append (unitEscape _)
    | exact fun c hc => by rw [List.mem_singleton.mp hc]; omega

theorem quote (s : Str) : Plain (Json.quote s) := by
  refine ((lit (by decide)).append fun c hc => ?_).append (lit (by decide))
  obtain ⟨n, -, hc⟩ := List.mem_flatMap.mp hc
  exact escape n c hc

theorem reprInt (n : ℤ) : Plain (Value.reprInt n) := by
  have hdecimal : ∀ k, Plain (decimal k) := by
    intro k c hc
    have hdigit := isDigit_of_mem_decimal hc
    unfold Python.isDigit at hdigit
    simp only [Bool.and_eq_true, decide_eq_true_eq] at hdigit
    omega
  unfold Value.reprInt
  split
  · exact (lit (by decide)).append (hdecimal _)
  · exact hdecimal _

theorem isFloat {s : Str} (h : Json.IsFloat s) : Plain s := by
  have hdigits : ∀ {t : Str}, Json.Digits t → Plain t := by
    intro t ht c hc
    have hdigit := ht.digits c hc
    unfold Python.isDigit at hdigit
    simp only [Bool.and_eq_true, decide_eq_true_eq] at hdigit
    omega
  have hexponent : ∀ {sign : Nat} {t : Str}, (sign = 0x2b ∨ sign = 0x2d) → Json.Digits t → Plain (0x65 :: sign :: t) := by
    rintro sign t (rfl | rfl) ht
    · exact (lit (s := [0x65, 0x2b]) (by decide)).append (hdigits ht)
    · exact (lit (s := [0x65, 0x2d]) (by decide)).append (hdigits ht)
  have hpoint : ∀ {t : Str}, Plain t → Plain (0x2e :: t) := (lit (s := [0x2e]) (by decide)).append
  cases h with
  | fraction hwhole hfraction => exact (hdigits hwhole.toDigits).append (hpoint (hdigits hfraction))
  | exponent hwhole hsign hpower => exact (hdigits hwhole.toDigits).append (hexponent hsign hpower)
  | both hwhole hfraction hsign hpower =>
    exact (hdigits hwhole.toDigits).append (hpoint ((hdigits hfraction).append (hexponent hsign hpower)))

theorem floatText (x : Double) : Plain (Json.floatText x) := by
  rcases Json.floatText_cases x with (rfl | ⟨negative, rfl⟩) | ⟨t, ht, heq | heq⟩
  · exact lit (by decide)
  · cases negative <;> exact lit (by decide)
  · exact heq ▸ isFloat ht
  · exact heq ▸ (lit (s := [0x2d]) (by decide)).append (isFloat ht)

/-- **What `json.dump` writes is ASCII**, whatever the strings. -/
theorem dump {v : Value} (h : Json.Written v) : ∀ level, Plain (Json.dump level v) := by
  induction h with
  | null =>
    intro _
    rw [Json.dump]
    exact lit (by decide)
  | bool b =>
    intro _
    rw [Json.dump]
    split <;> exact lit (by decide)
  | int n _ => exact fun _ => reprInt n
  | float x => exact fun _ => floatText x
  | str s _ => exact fun _ => quote s
  | list xs _ ih =>
    intro level
    rw [Json.dump, Json.dumpAll_eq_map]
    refine block (lit (by decide)) level fun t ht => ?_
    obtain ⟨x, hx, rfl⟩ := List.mem_map.mp ht
    exact ih x hx (level + 1)
  | dict items _ _ _ ih =>
    intro level
    rw [Json.dump, Json.dumpItems_eq_map]
    refine block (lit (by decide)) level fun t ht => ?_
    obtain ⟨p, hp, rfl⟩ := List.mem_map.mp ht
    obtain ⟨q, hq, rfl⟩ := List.mem_map.mp (List.mem_mergeSort.mp hp)
    exact ((quote q.1).append (lit (by decide))).append (ih q hq (level + 1))

end Plain

/-! ## The strings of a document -/

/-- A string of a document: a value or a key, at any depth. -/
inductive Mentions : Value → Str → Prop
  | str (s : Str) : Mentions (.str s) s
  | element {xs : List Value} {x : Value} {s : Str} (hx : x ∈ xs) (h : Mentions x s) : Mentions (.list xs) s
  | value {items : Dict} {p : Str × Value} {s : Str} (hp : p ∈ items) (h : Mentions p.2 s) : Mentions (.dict items) s
  | key {items : Dict} {p : Str × Value} (hp : p ∈ items) : Mentions (.dict items) p.1

/-- A string that can be encoded has no halves of pairs to join. -/
theorem pairUp_of_encode {s : Str} {b : Bytes} (h : encode s = .ok b) : Json.pairUp s = s := by
  have hnone : ∀ c ∈ s, Json.high c = false := by
    intro c hc
    unfold encode at h
    split at h
    · cases h
    · next hsurrogates =>
      have hc := (List.any_eq_false.mp (Bool.eq_false_iff.mpr hsurrogates)) c hc
      unfold isSurrogate at hc
      exact (Bool.or_eq_false_iff.mp (Bool.eq_false_iff.mpr hc)).1
  clear h
  induction s using Json.pairUp.induct with
  | case1 c d r hpair ih =>
    rw [hnone c List.mem_cons_self] at hpair
    cases hpair
  | case2 c d r hpair ih => rw [Json.pairUp, if_neg hpair, ih fun e he => hnone e (List.mem_cons_of_mem c he)]
  | case3 c => rfl
  | case4 => rfl

/-- What a document mentions what comes back of it holds. -/
theorem holds_of_back {v w : Value} (hback : Json.Back v w) {s : Str} (hs : Mentions v s) {b : Bytes} (hb : encode s = .ok b) : Holds w b := by
  induction hs generalizing w with
  | str s =>
    cases hback
    rw [pairUp_of_encode hb]
    exact .str hb
  | element hx _ ih =>
    cases hback with
    | list hf => exact .element (List.mem_map_of_mem hx) (ih (hf _ hx) hb)
  | @value items p s hp _ ih =>
    cases hback with
    | dict hf => exact .value (List.mem_map_of_mem (List.mem_mergeSort.mpr hp)) (ih (hf p hp) hb)
  | @key items p hp =>
    cases hback with
    | @dict _ f hf =>
      refine .key (p := (Json.pairUp p.1, f p.2)) (List.mem_map.mpr ⟨p, List.mem_mergeSort.mpr hp, rfl⟩) ?_
      rw [pairUp_of_encode hb]
      exact hb

/-! ## A document that was accepted -/

/-- What `write_json_atomic` writes. -/
def document (v : Value) : Bytes := (Json.dumps v ++ lit "\n").map UInt8.ofNat

/-- Where the keys are apart the hook refuses nothing. -/
theorem uniqueJsonObject_of_nodup {items : Dict} (h : (items.map Prod.fst).Nodup) : uniqueJsonObject items = .ok (.dict items) := by
  -- over what was read before, for every rest
  have hfold : ∀ (items d : Dict), ((d ++ items).map Prod.fst).Nodup → items.foldlM (fun d p =>
      if d.any (·.1 == p.1) = true then (.error (.own (lit "duplicate JSON object key")) : Py Dict) else .ok (Json.setItem d p.1 p.2)) d =
        .ok (d ++ items) := by
    intro items
    induction items with
    | nil => exact fun d _ => by rw [List.append_nil]; rfl
    | cons p items ih =>
      intro d hnodup
      have hnew : d.any (·.1 == p.1) = false := by
        rw [List.map_append, List.map_cons] at hnodup
        have hnotmem := (List.nodup_middle.mp hnodup).notMem
        rw [Bool.eq_false_iff]
        intro hany
        obtain ⟨q, hq, hkey⟩ := List.any_eq_true.mp hany
        exact hnotmem (List.mem_append_left _ (List.mem_map.mpr ⟨q, hq, eq_of_beq hkey⟩))
      rw [List.foldlM_cons, hnew, if_neg Bool.false_ne_true]
      show items.foldlM _ (Json.setItem d p.1 p.2) = _
      rw [Json.setItem, hnew, if_neg Bool.false_ne_true, ih _ (by rwa [List.append_assoc, List.singleton_append]),
        List.append_assoc, List.singleton_append]
  unfold uniqueJsonObject
  rw [hfold items [] h]
  rfl

theorem plain_document {v : Value} (h : Json.Written v) : Plain (Json.dumps v ++ lit "\n") :=
  (Plain.dump h 0).append (Plain.lit (by decide))

theorem toNat_plain {s : Str} (h : Plain s) : (s.map UInt8.ofNat).map UInt8.toNat = s := by
  rw [List.map_map]
  refine (List.map_congr_left fun c hc => ?_).trans (List.map_id s)
  have hlt := (h c hc).2
  show (UInt8.ofNat c).toNat = c
  rw [UInt8.toNat_ofNat', Nat.mod_eq_of_lt (by omega)]

/-- The octets of a plain text are decoded to it. -/
theorem decodeDetected_plain {s : Str} (h : Plain s) : decodeDetected (s.map UInt8.ofNat) = .ok s := by
  have hplain : ∀ d ∈ s.map UInt8.ofNat, 0 < d ∧ d < 0x80 := by
    intro d hd
    have hmem : d.toNat ∈ s := by
      rw [← toNat_plain h]
      exact List.mem_map_of_mem hd
    have hbounds := h d.toNat hmem
    rw [UInt8.lt_iff_toNat_lt, UInt8.lt_iff_toNat_lt]
    exact ⟨hbounds.1.1, hbounds.2⟩
  rw [decodeDetected_ascii (fun d hd => (hplain d hd).2) (fun d hd => (hplain d (List.mem_of_mem_take hd)).1), toNat_plain h]

/-- No document begins as a line of the log of a pod does. -/
theorem dumps_ne_pod {v : Value} (h : Json.Written v) (r : Str) : Json.dumps v ++ lit "\n" ≠ 0x5b :: 0x70 :: r := by
  intro hr
  cases h with
  | null => cases hr
  | bool b => cases b <;> cases hr
  | int n _ =>
    -- the bracket would be a digit, a sign or the line's end
    have hmem : (0x5b : Nat) ∈ Value.reprInt n ++ lit "\n" := by
      have hmem' : (0x5b : Nat) ∈ Json.dumps (.int n) ++ lit "\n" := hr ▸ List.mem_cons_self
      exact hmem'
    rcases List.mem_append.mp hmem with hmem | hmem
    · unfold Value.reprInt at hmem
      have hdigit : ∀ k, (0x5b : Nat) ∉ decimal k := fun k hk => absurd (isDigit_of_mem_decimal hk) (by decide)
      split at hmem
      · exact (List.mem_append.mp hmem).elim (by decide) (hdigit _)
      · exact hdigit _ hmem
    · exact absurd hmem (by decide)
  | float x =>
    have hfloat : Json.floatText x ++ lit "\n" = 0x5b :: 0x70 :: r := hr
    rcases Json.floatText_cases x with (rfl | ⟨negative, rfl⟩) | ⟨t, ht, heq | heq⟩
    · cases hfloat
    · cases negative <;> cases hfloat
    · obtain ⟨c, s, rfl, hc⟩ := ht.head
      rw [heq] at hfloat
      obtain rfl : c = 0x5b := (List.cons.inj hfloat).1
      cases hc
    · rw [heq] at hfloat
      cases (List.cons.inj hfloat).1
  | str s _ => cases hr
  | list xs _ =>
    unfold Json.dumps at hr
    rw [Json.dump] at hr
    unfold Json.block at hr
    split at hr <;> cases hr
  | dict items _ _ _ =>
    unfold Json.dumps at hr
    rw [Json.dump] at hr
    unfold Json.block at hr
    split at hr <;> cases hr

theorem stripPod_document {v : Value} (h : Json.Written v) : stripPod (document v) = document v := by
  unfold stripPod
  split
  · next hpod =>
    obtain ⟨r, hr⟩ := List.isPrefixOf_iff_prefix.mp hpod
    have htext := toNat_plain (plain_document h)
    rw [show (Json.dumps v ++ lit "\n").map UInt8.ofNat = ascii "[pod/" ++ r from hr.symm, List.map_append] at htext
    exact absurd htext.symm (dumps_ne_pod h _)
  · rfl

/-- The scan reads a document as what it is. -/
theorem readLine_document {v : Value} (h : Json.Written v) : ∃ w, Json.Back v w ∧ readLine (stripPod (document v)) = .ok w := by
  obtain ⟨w, hback, hreads⟩ := Json.reads_dump (fun _ => uniqueJsonObject_of_nodup) h 0
  refine ⟨w, hback, ?_⟩
  unfold readLine
  rw [stripPod_document h, show decodeDetected (document v) = _ from decodeDetected_plain (plain_document h)]
  exact Json.loadsWith_reads hreads

/-! ## A file that holds an object -/

/-- **`read_json_object`** of a file that is there; `error` is what the decoder says. -/
def readJsonObject (_path description error : Str) (data : Bytes) : Py Dict := do
  let text ← decode data
  let text := universalNewlines text
  match (if text.head? = some 0xfeff then throw .jsonDecodeError else Json.loadsWith uniqueJsonObject text : Py Value) with
  | .ok (.dict value) => return value
  | .ok _ => throw (.own (description ++ lit " must be a JSON object"))
  | .error .jsonDecodeError => throw (.own (description ++ lit " is invalid JSON: " ++ error))
  | .error e => throw e

theorem universalNewlines_plain {s : Str} (h : Plain s) : universalNewlines s = s := by
  induction s with
  | nil => rfl
  | cons c s ih =>
    have hc := (h c List.mem_cons_self).1.2
    rw [universalNewlines, ih fun d hd => h d (List.mem_cons_of_mem c hd)]
    · rintro _ rfl
      exact absurd rfl hc
    · exact hc

theorem decode_plain {s : Str} (h : Plain s) : decode (s.map UInt8.ofNat) = .ok s := by
  have hascii : ∀ d ∈ s.map UInt8.ofNat, d < 0x80 := by
    intro d hd
    obtain ⟨c, hc, rfl⟩ := List.mem_map.mp hd
    have hlt := (h c hc).2
    rw [UInt8.lt_iff_toNat_lt, UInt8.toNat_ofNat', Nat.mod_eq_of_lt (by omega)]
    exact hlt
  have hrunes : ∀ b : Bytes, (∀ d ∈ b, d < 0x80) → (runes b).map codePoint = b.map UInt8.toNat := by
    intro b hb
    induction b with
    | nil => rfl
    | cons c b ih =>
      rw [Codec.Json.runes_ascii_cons (hb c List.mem_cons_self), List.map_cons, ih fun d hd => hb d (List.mem_cons_of_mem c hd)]
      rfl
  rw [decode, if_pos (validUtf8_of_ascii hascii), hrunes _ hascii, toNat_plain h]

/-- A plain text that is read as an object. -/
theorem readJsonObject_plain {s : Str} (h : Plain s) {path description error : Str} {value : Dict}
    (hread : Json.loadsWith uniqueJsonObject s = .ok (.dict value)) :
    readJsonObject path description error (s.map UInt8.ofNat) = .ok value := by
  have hmark : s.head? ≠ some 0xfeff := by
    intro hhead
    have hlt := (h 0xfeff (List.mem_of_mem_head? hhead)).2
    omega
  unfold readJsonObject
  rw [decode_plain h]
  show (match (if (universalNewlines s).head? = some 0xfeff then throw .jsonDecodeError
    else Json.loadsWith uniqueJsonObject (universalNewlines s) : Py Value) with
    | .ok (.dict value) => pure value
    | .ok _ => throw _
    | .error .jsonDecodeError => throw _
    | .error e => throw e : Py Dict) = _
  rw [universalNewlines_plain h, if_neg hmark, hread]
  rfl

section Accepted

variable {hexdigest : Bytes → Str} {entries : List ScanEntry} {filename : Str}

/-- **An accepted document has no credential in any of its strings**, nor in what they carry. -/
theorem clean_of_document {fuel : Nat} {v : Value} (hv : Json.Written v)
    (h : scanSecretBytes hexdigest fuel (document v) entries filename = some (.ok ())) {s : Str} (hs : Mentions v s) {b text : Bytes}
    (hb : encode s = .ok b) (hcarried : Relation.ReflTransGen Carries b text) : ¬ Leaks hexdigest entries text := by
  obtain ⟨w, hback, hread⟩ := readLine_document hv
  have hfirst : Carries (document v) b := ⟨document v, List.mem_cons_self, w, hread, holds_of_back hback hs hb⟩
  exact clean_of_scan h (hcarried.head hfirst)

end Accepted

/-- A document with a mapping in it, a float, and a string that carries another. -/
def sessionPlan : Value :=
  .dict [(lit "run", .dict [(lit "cap_usd", .float (.finite (5 / 4))), (lit "notes", .list [.str (lit "[\"rollback\"]")])])]

/-- The fingerprint of one credential. -/
def onePassword : ScanEntry := ⟨lit "DATABASE_PASSWORD", lit "raw", 16, lit "f"⟩

/-- A hash that tells it from everything else. -/
def tellsPassword (b : Bytes) : Str := if b = ascii "password-of-mine" then lit "f" else lit "g"

/-- The document is accepted, and what its note carries is clean. -/
theorem clean_of_document_nested : Carries (ascii "[\"rollback\"]") (ascii "rollback") ∧
    ¬ Leaks tellsPassword [onePassword] (ascii "rollback") := by
  have hwritten : Json.Written sessionPlan := by
    refine .dict _ (by decide) (by decide) fun p hp => ?_
    obtain rfl := List.mem_singleton.mp hp
    refine .dict _ (by decide) (by decide) fun p hp => ?_
    rcases List.mem_cons.mp hp with rfl | hp
    · exact .float _
    · obtain rfl := List.mem_singleton.mp hp
      refine .list _ fun x hx => ?_
      obtain rfl := List.mem_singleton.mp hx
      exact .str _ (by decide)
  have hdocument : document sessionPlan = ascii ("\x7b\n  \"run\": \x7b\n    \"cap_usd\": 1.25,\n    \"notes\": [\n" ++
      "      \"[\\\"rollback\\\"]\"\n    ]\n  \x7d\n\x7d\n") := by
    unfold document Json.dumps sessionPlan
    simp only [Json.dump, Json.dumpItems, Json.dumpAll, List.mergeSort_singleton]
    rw [List.mergeSort_of_pairwise (by decide)]
    decide +kernel
  have haccepted : scanSecretBytes tellsPassword 40 (document sessionPlan) [onePassword] (lit "00-session.json") = some (.ok ()) := by
    rw [hdocument]
    decide +kernel
  have hmentions : Mentions sessionPlan (lit "[\"rollback\"]") :=
    .value List.mem_cons_self (.value (List.mem_cons_of_mem _ List.mem_cons_self) (.element List.mem_cons_self (.str _)))
  have hcarries : Carries (ascii "[\"rollback\"]") (ascii "rollback") := by
    have hfound : lineCarriers 0 (ascii "[\"rollback\"]") = .ok [(ascii "rollback", 1)] := by decide +kernel
    obtain ⟨-, w, hread, hholds⟩ := (mem_lineCarriers hfound (ascii "rollback", 1)).mp List.mem_cons_self
    exact ⟨_, List.mem_cons_self, w, hread, hholds⟩
  exact ⟨hcarries, clean_of_document hwritten haccepted hmentions (by decide) (.single hcarries)⟩

end LocalPlatform.Evidence
