/-
# LocalPlatform.Bootstrap.Agreement — the receipt between the two programs.

The bootstrap writes the receipt and may be cut off at any point; the evidence script loads it, of a run that succeeded, of one
that failed and of one that never began.  Whatever point of whatever run: what is on disk is a receipt that the evidence script
takes, and it takes it as complete just if its state says so; then all forms of the three credentials of the run are in it
(`receipt_loads`).

The lengths of the forms, the names, the digests and the size of the file are each bounded twice, once in either program; that
the bounds fit is in `Sound` and `Regular`.
-/
import LocalPlatform.Bootstrap.Guarantees
import LocalPlatform.Bootstrap.ReceiptText

namespace LocalPlatform.Bootstrap

open Codec Logic Python Evidence

/-! ## How long a receipt is -/

theorem length_joinWith_le (sep : Bytes) (texts : List Bytes) :
    (Codec.Json.Indent.joinWith sep texts).length ≤ (texts.map fun t => t.length + sep.length).sum := by
  induction texts using Codec.Json.Indent.joinWith.induct with
  | case1 => exact Nat.zero_le _
  | case2 x => simp [Codec.Json.Indent.joinWith]
  | case3 x y xs ih =>
    rw [Codec.Json.Indent.joinWith, List.length_append, List.length_append, List.map_cons, List.sum_cons]
    omega

theorem length_block_le (opening closing : UInt8) (level : Nat) (texts : List Bytes) :
    (Codec.Json.Indent.block opening closing level texts).length ≤
      (texts.map fun t => t.length + (2 * level + 4)).sum + (4 * level + 6) := by
  unfold Codec.Json.Indent.block
  split
  · show 2 ≤ _
    omega
  · have hjoin := length_joinWith_le (ascii "," ++ Codec.Json.Indent.newline (level + 1)) texts
    have hsep : (ascii "," ++ Codec.Json.Indent.newline (level + 1)).length = 2 * level + 4 := by
      simp [Codec.Json.Indent.newline, ascii]
      omega
    rw [hsep] at hjoin
    have hline : (Codec.Json.Indent.newline (level + 1)).length = 2 * level + 3 := by
      simp [Codec.Json.Indent.newline]
      omega
    have hline' : (Codec.Json.Indent.newline level).length = 2 * level + 1 := by simp [Codec.Json.Indent.newline]
    simp only [List.length_append, List.length_singleton, hline, hline']
    omega

theorem length_quote_le (b : Bytes) : (Codec.Json.quote b).length ≤ 6 * b.length + 2 := by
  have hbody := (length_flatMap_runes width_quoteRune b).2
  show ((0x22 :: Codec.Json.quoteBody b) ++ [0x22]).length ≤ _
  rw [List.length_append, List.length_cons, List.length_singleton]
  unfold Codec.Json.quoteBody
  omega

theorem length_field (name : String) (value : Bytes) :
    (Codec.Json.Indent.field name value).length = (ascii name).length + value.length + 4 := by
  have hcolon : (ascii ": ").length = 2 := rfl
  rw [Codec.Json.Indent.field, List.length_append, List.length_append, Codec.Json.length_keyLiteral, hcolon]
  omega

theorem length_dec_le {n : Nat} (h : n < 10 ^ 5) : (dec n).length ≤ 5 := by
  by_cases hzero : n = 0
  · rw [hzero]
    decide
  · have hbounds := Decimal.decimal_length_bounds hzero
    have hlen : (decimal n).length = (dec n).length := List.length_map _
    rw [hlen] at hbounds
    by_contra hlong
    have hpow : 10 ^ 5 ≤ 10 ^ ((dec n).length - 1) := Nat.pow_le_pow_right (by decide) (by omega)
    omega

/-! ## Receipts of a run -/

theorem alike_hex (hash : Bytes) : Alike (hex hash) := by
  refine List.all_eq_true.mpr fun c hc => ?_
  obtain ⟨n, hn, rfl⟩ := exists_of_mem_hex hc
  have hdigits : ∀ n < 16, isAlike (hexDigit n) = true := by decide
  exact hdigits n hn

/-- An entry that the evidence script takes. -/
structure Sound (e : ScanEntry) : Prop where
  name : e.name ∈ credentialNames
  length : 16 ≤ e.length ∧ e.length ≤ 24576
  digest : ∃ hash : Bytes, hash.length = 32 ∧ e.digest = hex hash

namespace Sound

variable {e : ScanEntry}

theorem length_digest (h : Sound e) : e.digest.length = 64 := by
  obtain ⟨hash, hlen, hdigest⟩ := h.digest
  rw [hdigest, length_hex, hlen]

theorem alike (h : Sound e) : e.Alike := by
  refine ⟨?_, ?_, ?_⟩
  · have hnames : ∀ name ∈ credentialNames, Alike name := by decide
    exact hnames e.name h.name
  · obtain ⟨hash, -, hdigest⟩ := h.digest
    exact hdigest ▸ alike_hex hash
  · exact (length_dec_le (lt_of_le_of_lt h.length.2 (by decide))).trans (by decide)

/-- It takes no more than this. -/
theorem length_text (h : Sound e) : (e.text 2).length ≤ 700 := by
  have hname : e.name.length ≤ 17 := by
    have hnames : ∀ name ∈ credentialNames, name.length ≤ 17 := by decide
    exact hnames e.name h.name
  have hform : e.representation.name.length ≤ 10 := by cases e.representation <;> decide
  have hlength : (dec e.length).length ≤ 5 := length_dec_le (lt_of_le_of_lt h.length.2 (by decide))
  have hdigest := h.length_digest
  have h1 := length_quote_le e.name
  have h2 := length_quote_le e.representation.name
  have h3 := length_quote_le e.digest
  have hkeys : (ascii "name").length = 4 ∧ (ascii "representation").length = 14 ∧ (ascii "byte_length").length = 11 ∧
      (ascii "sha256").length = 6 := by decide
  unfold ScanEntry.text
  refine (length_block_le _ _ _ _).trans ?_
  simp only [List.map_cons, List.map_nil, List.sum_cons, List.sum_nil, length_field, hkeys]
  omega

end Sound

/-- A receipt that the evidence script takes: its texts, its entries, and that no form is there twice. -/
structure Regular (s : SecretScan) : Prop where
  runID : isRunID s.runID = true
  commit : isCommit s.commit = true
  sessionHash : ∃ hash : Bytes, hash.length = 32 ∧ s.sessionHash = hex hash
  entries : ∀ e ∈ s.entries, Sound e
  apart : (s.entries.map fun e => (e.name, e.representation)).Nodup

theorem isAlike_of_isDigit {c : UInt8} (h : Codec.isDigit c = true) : isAlike c = true := by
  have hdigits : ∀ n < 256, Codec.isDigit (UInt8.ofNat n) = true → isAlike (UInt8.ofNat n) = true := by decide +kernel
  rw [← UInt8.ofNat_toNat (x := c)] at h ⊢
  exact hdigits _ c.toNat_lt h

theorem alike_of_isRunID {s : Bytes} (h : isRunID s = true) : s.length = 16 ∧ Alike s := by
  unfold isRunID at h
  simp only [Bool.and_eq_true, beq_iff_eq] at h
  obtain ⟨⟨⟨⟨hlen, hdate⟩, hT⟩, htime⟩, hZ⟩ := h
  refine ⟨hlen, List.all_eq_true.mpr fun c hc => ?_⟩
  obtain ⟨i, hi, rfl⟩ := List.getElem_of_mem hc
  -- the part of the stamp the character is in
  by_cases hd : i < 8
  · exact isAlike_of_isDigit (List.all_eq_true.mp hdate _ (List.mem_take_iff_getElem.mpr ⟨i, by omega, rfl⟩))
  · by_cases hT' : i = 8
    · subst hT'
      rw [(List.getElem?_eq_some_iff.mp hT).2]
      decide
    · by_cases ht : i < 15
      · refine isAlike_of_isDigit (List.all_eq_true.mp htime _ (List.mem_take_iff_getElem.mpr ⟨i - 9, ?_, ?_⟩))
        · rw [List.length_drop]
          omega
        · rw [List.getElem_drop]
          congr 1
          omega
      · obtain rfl : i = 15 := by omega
        rw [(List.getElem?_eq_some_iff.mp hZ).2]
        decide

theorem alike_of_isCommit {s : Bytes} (h : isCommit s = true) : s.length = 40 ∧ Alike s := by
  unfold isCommit at h
  rw [Bool.and_eq_true, beq_iff_eq] at h
  have hhex : ∀ n < 256, isLowerHex (UInt8.ofNat n) = true → isAlike (UInt8.ofNat n) = true := by decide +kernel
  refine ⟨h.1, List.all_eq_true.mpr fun c hc => ?_⟩
  have hc := List.all_eq_true.mp h.2 c hc
  rw [← UInt8.ofNat_toNat (x := c)] at hc ⊢
  exact hhex _ c.toNat_lt hc

namespace Regular

variable {s : SecretScan}

theorem alike (h : Regular s) : s.Alike := by
  obtain ⟨hash, -, hsession⟩ := h.sessionHash
  exact ⟨(alike_of_isRunID h.runID).2, (alike_of_isCommit h.commit).2, hsession ▸ alike_hex hash, fun e he => (h.entries e he).alike⟩

/-- Three names in seven forms. -/
theorem length_entries (h : Regular s) : s.entries.length ≤ 21 := by
  have hsub : (s.entries.map fun e => (e.name, e.representation)) ⊆ credentialNames.product Form.all := by
    intro p hp
    obtain ⟨e, he, rfl⟩ := List.mem_map.mp hp
    exact List.pair_mem_product.mpr ⟨(h.entries e he).name, Form.mem_all _⟩
  have hlen := (List.subperm_of_subset h.apart hsub).length_le
  rw [List.length_map] at hlen
  exact hlen

/-- **A receipt is never too long** for the evidence script. -/
theorem length_text (h : Regular s) : s.text.length ≤ 32768 := by
  have hrun := (alike_of_isRunID h.runID).1
  have hcommit := (alike_of_isCommit h.commit).1
  obtain ⟨hash, hhash, hsession⟩ := h.sessionHash
  have hsessionLength : s.sessionHash.length = 64 := by rw [hsession, length_hex, hhash]
  have hstate : s.state.text.length ≤ 11 := by cases s.state <;> decide
  have hprofile : profile.length = 28 := by decide
  have h1 := length_quote_le s.runID
  have h2 := length_quote_le s.commit
  have h3 := length_quote_le s.sessionHash
  have h4 := length_quote_le s.state.text
  have h5 := length_quote_le profile
  -- at most 21 entries, each of at most 706 octets with its indentation
  have hentries : (Codec.Json.Indent.block 0x5b 0x5d 1 (s.entries.map (ScanEntry.text 2))).length ≤ 21 * 706 + 10 := by
    refine (length_block_le _ _ _ _).trans ?_
    have hsum : ((s.entries.map (ScanEntry.text 2)).map fun t => t.length + (2 * 1 + 4)).sum ≤ s.entries.length * 706 := by
      rw [List.map_map]
      refine (List.sum_le_card_nsmul _ 706 fun n hn => ?_).trans (by rw [List.length_map]; exact Nat.le_refl _)
      obtain ⟨e, he, rfl⟩ := List.mem_map.mp hn
      have hlen := (h.entries e he).length_text
      show (e.text 2).length + (2 * 1 + 4) ≤ 706
      omega
    have hcount := h.length_entries
    omega
  have hone : (dec 1).length = 1 := by decide
  have hkeys : (ascii "schema_version").length = 14 ∧ (ascii "run_id").length = 6 ∧ (ascii "commit").length = 6 ∧
      (ascii "session_sha256").length = 14 ∧ (ascii "profile").length = 7 ∧ (ascii "state").length = 5 ∧ (ascii "entries").length = 7 := by
    decide
  unfold SecretScan.text
  rw [List.length_append]
  have hblock := length_block_le 0x7b 0x7d 0 [Codec.Json.Indent.field "schema_version" (dec 1),
    Codec.Json.Indent.field "run_id" (Codec.Json.quote s.runID), Codec.Json.Indent.field "commit" (Codec.Json.quote s.commit),
    Codec.Json.Indent.field "session_sha256" (Codec.Json.quote s.sessionHash), Codec.Json.Indent.field "profile" (Codec.Json.quote profile),
    Codec.Json.Indent.field "state" (Codec.Json.quote s.state.text),
    Codec.Json.Indent.field "entries" (Codec.Json.Indent.block 0x5b 0x5d 1 (s.entries.map (ScanEntry.text 2)))]
  simp only [List.map_cons, List.map_nil, List.sum_cons, List.sum_nil, length_field, hkeys] at hblock
  refine (Nat.add_le_add_right hblock _).trans ?_
  rw [List.length_singleton]
  omega

end Regular

/-! ## What the evidence script makes of it -/

/-- An entry as the script reads it. -/
def ScanEntry.read (e : ScanEntry) : Evidence.ScanEntry := ⟨chars e.name, chars e.representation.name, e.length, chars e.digest⟩

theorem readEntry_dict (e : ScanEntry) : readEntry (.dict e.dict) = some e.read := by
  unfold readEntry
  dsimp only
  rw [e.keys_dict, if_pos (by decide)]
  rfl

theorem isHexText_hex {hash : Bytes} (h : hash.length = 32) : isHexText 64 (chars (hex hash)) = true := by
  have hdigits : ∀ n < 16, Evidence.isHex (hexDigit n).toNat = true := by decide
  unfold isHexText
  rw [Bool.and_eq_true, beq_iff_eq]
  refine ⟨by rw [chars, List.length_map, length_hex, h], List.all_eq_true.mpr fun c hc => ?_⟩
  obtain ⟨d, hd, rfl⟩ := List.mem_map.mp hc
  obtain ⟨n, hn, rfl⟩ := exists_of_mem_hex hd
  exact hdigits n hn

theorem Sound.valid {e : ScanEntry} (h : Sound e) : e.read.valid = true := by
  obtain ⟨hash, hhash, hdigest⟩ := h.digest
  have hnames : ∀ name ∈ credentialNames, secretNames.contains (chars name) = true := by decide
  have hforms : Evidence.secretRepresentations.contains (chars e.representation.name) = true := by cases e.representation <;> decide
  have hhex : isHexText 64 (chars e.digest) = true := hdigest ▸ isHexText_hex hhash
  have hlength : (16 : ℤ) ≤ e.length ∧ (e.length : ℤ) ≤ 24576 := by exact_mod_cast h.length
  unfold Evidence.ScanEntry.valid
  rw [Bool.and_eq_true, Bool.and_eq_true, Bool.and_eq_true, decide_eq_true_eq]
  exact ⟨⟨⟨hnames e.name h.name, hforms⟩, hlength⟩, hhex⟩

theorem checkEntry_dict {e : ScanEntry} (h : Sound e) {seen : List Coverage} (hnew : e.read.coverage ∉ seen) :
    checkEntry seen (.dict e.dict) = .ok (e.read.coverage :: seen) := by
  unfold checkEntry
  dsimp only
  rw [e.keys_dict, if_pos (by decide), readEntry_dict]
  exact if_pos ⟨h.valid, hnew⟩

/-- The entries are gone through, and each is new. -/
theorem foldlM_checkEntry {entries : List ScanEntry} (h : ∀ e ∈ entries, Sound e) {seen : List Coverage}
    (hapart : ((entries.map fun e => e.read.coverage).reverse ++ seen).Nodup) :
    (entries.map fun e => Value.dict e.dict).foldlM checkEntry seen = .ok ((entries.map fun e => e.read.coverage).reverse ++ seen) := by
  induction entries generalizing seen with
  | nil => rfl
  | cons e entries ih =>
    have hcons : ((e :: entries).map fun e => e.read.coverage).reverse ++ seen =
        (entries.map fun e => e.read.coverage).reverse ++ (e.read.coverage :: seen) := by simp
    rw [hcons] at hapart ⊢
    have hnew : e.read.coverage ∉ seen := fun hmem =>
      (List.nodup_cons.mp (List.nodup_append.mp hapart).2.1).1 hmem
    rw [List.map_cons, List.foldlM_cons, checkEntry_dict (h e List.mem_cons_self) hnew]
    exact ih (fun e' he' => h e' (List.mem_cons_of_mem e he')) hapart

/-- The directory of the run, of which the receipt is `data`; what is renamed onto it was made for its owner alone. -/
def withReceipt (dir : Directory) (path error : Str) (data : Bytes) : Directory :=
  { dir with secretScan := ⟨path, false, true, 0o600, data.length, readJsonObject path (lit "secret scan") error data⟩ }

/-- What the script knows of the run besides the receipt. -/
structure KnownTo (dir : Directory) (runID commit sessionHash : Bytes) : Prop where
  preflight : ∃ preflight, validatePreflight dir.beneath dir.preflight (chars runID) = .ok preflight ∧
    (Value.dict preflight).item (lit "commit") = .ok (.str (chars commit))
  session : dir.session = .ok (chars sessionHash)

theorem bindScan_of_presents {dir : Directory} {s : SecretScan} {scan preflight : Dict} (hscan : s.Presents scan)
    (hcommit : (Value.dict preflight).item (lit "commit") = .ok (.str (chars s.commit))) (hsession : dir.session = .ok (chars s.sessionHash)) :
    dir.bindScan (chars s.runID) scan preflight = .ok (chars s.state.text) := by
  have hstate : chars s.state.text ∈ scanStates := by cases s.state <;> decide
  have heq : ∀ t : Str, (Value.str t).eq (.str t) = true := fun t => Value.eq_str.mpr rfl
  unfold Directory.bindScan
  simp only [hscan.fields]
  refine bind_eq_ok_iff.mpr ⟨(), require_pos hscan.keys, ?_⟩
  refine bind_eq_ok_iff.mpr ⟨(), require_pos rfl, bind_eq_ok_iff.mpr ⟨(), require_pos (heq _), ?_⟩⟩
  refine bind_eq_ok_iff.mpr ⟨_, hcommit, bind_eq_ok_iff.mpr ⟨(), require_pos (heq _), ?_⟩⟩
  refine bind_eq_ok_iff.mpr ⟨_, hsession, bind_eq_ok_iff.mpr ⟨(), require_pos (heq _), ?_⟩⟩
  refine bind_eq_ok_iff.mpr ⟨(), require_pos (heq _), ?_⟩
  exact bind_eq_ok_iff.mpr ⟨(), require_pos hstate, rfl⟩

/-- What the script reads as coverage. -/
def SecretScan.coverages (s : SecretScan) : List Coverage := s.entries.map fun e => e.read.coverage

theorem Regular.nodup_coverages {s : SecretScan} (h : Regular s) : s.coverages.Nodup := by
  have hinj : ∀ e ∈ s.entries, ∀ e' ∈ s.entries, e.read.coverage = e'.read.coverage →
      (e.name, e.representation) = (e'.name, e'.representation) := by
    have hnames : ∀ n ∈ credentialNames, ∀ n' ∈ credentialNames, chars n = chars n' → n = n' := by decide
    intro e he e' he' heq
    obtain ⟨hname, hform⟩ := Prod.mk.inj heq
    have hforms : ∀ f ∈ Form.all, ∀ f' ∈ Form.all, chars f.name = chars f'.name → f = f' := by decide
    rw [hnames _ (h.entries e he).name _ (h.entries e' he').name hname, hforms _ (Form.mem_all _) _ (Form.mem_all _) hform]
  have hapart := h.apart
  unfold SecretScan.coverages
  rw [List.Nodup, List.pairwise_map] at hapart ⊢
  exact hapart.imp_of_mem fun he he' hne heq => hne (hinj _ he _ he' heq)

/-- All three names in all seven forms. -/
def Full (s : SecretScan) : Prop := ∀ name ∈ credentialNames, ∀ form : Form, ∃ e ∈ s.entries, e.name = name ∧ e.representation = form

theorem sameSet_of_full {s : SecretScan} (h : Regular s) (hfull : Full s) : sameSet s.coverages.reverse fullCoverage = true := by
  have hin : ∀ name ∈ credentialNames, ∀ form ∈ Form.all, (chars name, chars form.name) ∈ fullCoverage := by decide
  have hout : ∀ c ∈ fullCoverage, ∃ name ∈ credentialNames, ∃ form ∈ Form.all, c = (chars name, chars form.name) := by decide
  unfold sameSet
  rw [Bool.and_eq_true]
  constructor
  · refine List.all_eq_true.mpr fun c hc => List.contains_iff_mem.mpr ?_
    obtain ⟨e, he, rfl⟩ := List.mem_map.mp (List.mem_reverse.mp hc)
    exact hin _ (h.entries e he).name _ (Form.mem_all _)
  · refine List.all_eq_true.mpr fun c hc => List.contains_iff_mem.mpr ?_
    obtain ⟨name, hname, form, -, rfl⟩ := hout c hc
    obtain ⟨e, he, rfl, rfl⟩ := hfull name hname form
    exact List.mem_reverse.mpr (List.mem_map.mpr ⟨e, he, rfl⟩)

theorem ScanState.text_eq_notStarted {state : ScanState} : chars state.text = lit "not_started" ↔ state = .notStarted := by
  cases state <;> decide

theorem ScanState.text_eq_complete {state : ScanState} : chars state.text = lit "complete" ↔ state = .complete := by
  cases state <;> decide

/-- **The script loads the receipt** of a run that it knows, and loads it as complete just if it is. -/
theorem loadSecretScan_of_presents (dir : Directory) {s : SecretScan} (hregular : Regular s)
    (hknown : KnownTo dir s.runID s.commit s.sessionHash) (hstate : s.state = .notStarted → s.entries = [])
    (hfull : s.state = .complete → Full s) {path error : Str} {data : Bytes} {scan : Dict}
    (hobject : readJsonObject path (lit "secret scan") error data = .ok scan) (hscan : s.Presents scan) (hlength : data.length ≤ 32768)
    (complete : Bool) :
    (withReceipt dir path error data).loadSecretScan (chars s.runID) complete = .ok scan ↔ (complete = true → s.state = .complete) := by
  obtain ⟨preflight, hpreflight, hcommit⟩ := hknown.preflight
  have hentries : scanEntries scan = .ok (s.entries.map fun e => .dict e.dict) := by
    unfold scanEntries
    rw [hscan.fields]
    refine if_pos ?_
    rw [List.length_map]
    exact hregular.length_entries
  have hfold : (s.entries.map fun e => Value.dict e.dict).foldlM checkEntry [] = .ok s.coverages.reverse := by
    have hapart : (s.coverages.reverse ++ []).Nodup := by
      rw [List.append_nil]
      exact List.nodup_reverse.mpr hregular.nodup_coverages
    have hsteps := foldlM_checkEntry hregular.entries hapart
    rwa [List.append_nil] at hsteps
  have hbegun : ¬ (chars s.state.text = lit "not_started" ∧ (s.entries.map fun e => Value.dict e.dict) ≠ []) := fun ⟨htext, hsome⟩ =>
    hsome (List.map_eq_nil_iff.mpr (hstate (ScanState.text_eq_notStarted.mp htext)))
  -- all but the last check pass, whatever is asked for
  have hload : (withReceipt dir path error data).loadSecretScan (chars s.runID) complete =
      (require (complete = true ∨ chars s.state.text = lit "complete" → chars s.state.text = lit "complete" ∧
        sameSet s.coverages.reverse fullCoverage = true) (Exn.own (lit "secret scan coverage is incomplete")) >>= fun _ => .ok scan) := by
    unfold Directory.loadSecretScan withReceipt
    refine (bind_of_eq_ok (require_pos ⟨rfl, rfl, rfl, hlength⟩)).trans ?_
    refine (bind_of_eq_ok hobject).trans ((bind_of_eq_ok hpreflight).trans ?_)
    refine (bind_of_eq_ok (bindScan_of_presents hscan hcommit hknown.session)).trans ?_
    exact (bind_of_eq_ok hentries).trans ((bind_of_eq_ok hfold).trans (bind_of_eq_ok (require_pos hbegun)))
  rw [hload, bind_eq_ok_iff]
  constructor
  · rintro ⟨_, hrequire, -⟩ hc
    exact ScanState.text_eq_complete.mp (require_eq_ok_iff.mp hrequire (.inl hc)).1
  · intro h
    refine ⟨(), require_pos ?_, rfl⟩
    rintro (hc | hc)
    · exact ⟨ScanState.text_eq_complete.mpr (h hc), sameSet_of_full hregular (hfull (h hc))⟩
    · exact ⟨hc, sameSet_of_full hregular (hfull (ScanState.text_eq_complete.mp hc))⟩

/-! ## Receipts of a run -/

section Records

variable {sha256 : Hash} {values : List (Bytes × Bytes)} {entries : List ScanEntry}

/-- Every entry is a form of one of the values. -/
theorem Records.origin (h : Records sha256 values entries) {e : ScanEntry} (he : e ∈ entries) :
    ∃ named ∈ values, ∃ form, e = entryOf sha256 named.1 named.2 form := by
  induction h with
  | nil => cases he
  | @snoc values entries _ name value order _ _ ih =>
    rcases List.mem_append.mp he with he | he
    · obtain ⟨named, hnamed, form, heq⟩ := ih he
      exact ⟨named, List.mem_append_left _ hnamed, form, heq⟩
    · obtain ⟨form, -, rfl⟩ := List.mem_map.mp he
      exact ⟨(name, value), List.mem_append_right _ (List.mem_singleton_self _), form, rfl⟩

/-- Of values whose names are apart no form is there twice. -/
theorem Records.apart (h : Records sha256 values entries) (hnames : (values.map Prod.fst).Nodup) :
    (entries.map fun e => (e.name, e.representation)).Nodup := by
  induction h with
  | nil => exact List.nodup_nil
  | @snoc values entries hrecords name value order horder _ ih =>
    rw [List.map_append, List.nodup_append] at hnames
    obtain ⟨hvalues, -, hdisjoint⟩ := hnames
    have hforms : ((order.map (entryOf sha256 name value)).map fun e => (e.name, e.representation)) = order.map fun form => (name, form) := by
      rw [List.map_map]
      rfl
    rw [List.map_append, hforms, List.nodup_append]
    refine ⟨ih hvalues, (horder.nodup_iff.mpr (by decide)).map (fun f f' h => (Prod.mk.inj h).2), ?_⟩
    rintro p hp q hq rfl
    obtain ⟨e, he, rfl⟩ := List.mem_map.mp hp
    obtain ⟨form, -, heq⟩ := List.mem_map.mp hq
    obtain ⟨named, hnamed, form', rfl⟩ := hrecords.origin he
    exact hdisjoint _ (List.mem_map_of_mem hnamed) name (by simp) (Prod.mk.inj heq).1.symm

theorem Records.sound (h : Records sha256 values entries) (hnames : values.map Prod.fst <+: credentialNames) : ∀ e ∈ entries, Sound e := by
  intro e he
  obtain ⟨named, hnamed, form, rfl⟩ := h.origin he
  exact ⟨hnames.subset (List.mem_map_of_mem hnamed), recordable_representations (h.length_le hnamed) form,
    ⟨_, (sha256 (form.text named.2)).2, rfl⟩⟩

end Records

section Runs

variable {sha256 : Hash} {runID commit region : Bytes}

theorem regular_of_ofRun (hrun : isRunID runID = true) (hcommit : isCommit commit = true) {past : List (Event Answer)} {s : SecretScan}
    (h : OfRun sha256 runID commit past s) : Regular s ∧ (s.state = .complete → Full s) := by
  obtain ⟨values, hrecords, hnames, hcomplete⟩ := h.records
  obtain ⟨data, -, hsession⟩ := h.session
  have hnodup : (values.map Prod.fst).Nodup := hnames.sublist.nodup (by decide)
  refine ⟨⟨h.run.1.symm ▸ hrun, h.run.2.symm ▸ hcommit, ⟨_, (sha256 data).2, hsession⟩, hrecords.sound hnames, hrecords.apart hnodup⟩, ?_⟩
  intro hstate name hname form
  obtain ⟨c, rfl, -⟩ := hcomplete hstate
  have hvalues : c.values.map Prod.fst = credentialNames := rfl
  rw [← hvalues] at hname
  obtain ⟨named, hnamed, rfl⟩ := List.mem_map.mp hname
  exact ⟨_, hrecords.mem hnamed form, rfl, rfl⟩

/-- What is on disk is what was there, or a receipt of the run. -/
def Kept (sha256 : Hash) (runID commit initial : Bytes) (s : Watch) : Prop :=
  ∃ data, s.disk = some data ∧ (data = initial ∨ ∃ receipt : SecretScan, data = receipt.text ∧ OfRun sha256 runID commit s.past receipt)

/-- **Every allowed question keeps it.** -/
theorem kept_next {initial : Bytes} (s : Watch) (q : Ask) (r : Answer q) (h : Kept sha256 runID commit initial s)
    (hrule : Rule sha256 runID commit region s q) : Kept sha256 runID commit initial (s.next q r) := by
  have hpast : s.past <+: (s.next q r).past := by
    rw [past_next]
    exact List.prefix_append _ _
  obtain ⟨data, hdisk, hdata⟩ := h
  have hsame : (s.next q r).disk = s.disk → Kept sha256 runID commit initial (s.next q r) := fun heq =>
    ⟨data, heq.trans hdisk, hdata.imp id fun ⟨receipt, htext, hofRun⟩ => ⟨receipt, htext, hofRun.mono hpast⟩⟩
  -- only a rename that succeeds puts another text in place, and by the rule it is a receipt's
  cases q with
  | rename path =>
    cases r with
    | true =>
      obtain ⟨-, receipt, htemp, hofRun⟩ := hrule
      exact ⟨receipt.text, htemp, .inr ⟨receipt, rfl, hofRun.mono hpast⟩⟩
    | false => exact hsame rfl
  | _ => exact hsame rfl

/-- **At every point of every run.** -/
theorem kept_of_reaches (initial : Bytes) {es : List (Event Answer)} {p' : Prog Ask Answer (Except Failure Unit)}
    (h : Prog.Reaches (run sha256 runID commit region : Prog Ask Answer (Except Failure Unit)) es p') :
    Kept sha256 runID commit initial (Watch.after sha256 runID commit region (some initial) es) :=
  Prog.invariant_of_wp (I := Kept sha256 runID commit initial) (fun s q r hs hallowed => kept_next s q r hs hallowed) h
    (wp_run _) ⟨initial, rfl, .inl rfl⟩

/-! ## The receipt at every point -/

/-- The receipt that `start_session` writes behind the session receipt. -/
def startReceipt (sha256 : Hash) (runID commit session : Bytes) : SecretScan :=
  ⟨runID, commit, hexDigest sha256 session, .notStarted, []⟩

/-- What it writes. -/
def startData (sha256 : Hash) (runID commit session : Bytes) : Bytes :=
  document (.dict (startReceipt sha256 runID commit session).dict)

theorem regular_startReceipt (sha256 : Hash) (hrun : isRunID runID = true) (hcommit : isCommit commit = true) (session : Bytes) :
    Regular (startReceipt sha256 runID commit session) :=
  ⟨hrun, hcommit, ⟨_, (sha256 session).2, rfl⟩, fun _ he => absurd he List.not_mem_nil, List.nodup_nil⟩

theorem item_eq_ok {d : Dict} {key : Str} {v : Value} (h : (Value.dict d).item key = .ok v) : dictGet d key = v := by
  unfold Value.item at h
  unfold dictGet
  dsimp only at h
  cases hlookup : d.lookup key with
  | none =>
    rw [hlookup] at h
    cases h
  | some w =>
    rw [hlookup] at h
    exact Except.ok.inj h

/-- The commit of a run with a preflight is one. -/
theorem KnownTo.isCommit {dir : Directory} {sessionHash : Bytes} (h : KnownTo dir runID commit sessionHash) : isCommit commit = true := by
  obtain ⟨preflight, hpreflight, hitem⟩ := h.preflight
  unfold validatePreflight at hpreflight
  obtain ⟨_, -, hpreflight⟩ := bind_eq_ok_iff.mp hpreflight
  obtain ⟨_, -, hpreflight⟩ := bind_eq_ok_iff.mp hpreflight
  obtain ⟨receipt, -, hpreflight⟩ := bind_eq_ok_iff.mp hpreflight
  obtain ⟨_, hrequire, hpreflight⟩ := bind_eq_ok_iff.mp hpreflight
  obtain rfl := Except.ok.inj hpreflight
  have htext := (require_eq_ok_iff.mp hrequire).2.2.2
  rw [item_eq_ok hitem] at htext
  have hhex : isHexText 40 (chars commit) = true := htext
  unfold isHexText at hhex
  rw [Bool.and_eq_true, beq_iff_eq, chars, List.length_map, List.all_map] at hhex
  unfold Bootstrap.isCommit
  rw [Bool.and_eq_true, beq_iff_eq]
  -- the two alphabets are the same, one of octets and one of code points
  refine ⟨hhex.1, List.all_eq_true.mpr fun c hc => ?_⟩
  have hc := List.all_eq_true.mp hhex.2 c hc
  unfold isLowerHex
  rw [decide_eq_true_eq]
  simpa [Evidence.isHex, UInt8.le_iff_toNat_le] using hc

/-- The state that the script reads. -/
theorem SecretScan.Presents.complete_iff {s : SecretScan} {scan : Dict} (h : s.Presents scan) :
    dictGet scan (lit "state") = .str (lit "complete") ↔ s.state = .complete := by
  have hstate : dictGet scan (lit "state") = .str (chars s.state.text) := h.fields _
  rw [hstate, ← ScanState.text_eq_complete]
  exact ⟨Value.str.inj, congrArg Value.str⟩

/-- The receipt of a run, as the script reads it. -/
theorem loads_of_ofRun (hrun : isRunID runID = true) {dir : Directory} {session : Bytes}
    (hknown : KnownTo dir runID commit (hexDigest sha256 session)) {past : List (Event Answer)}
    (hsession : ∀ data, (⟨.readFile (evidencePath runID ++ [ascii "00-session.json"]), some data⟩ : Event Answer) ∈ past → data = session)
    {receipt : SecretScan} (h : OfRun sha256 runID commit past receipt) (path error : Str) (complete : Bool) :
    (withReceipt dir path error receipt.text).loadSecretScan (chars runID) complete = .ok receipt.dict ↔
      (complete = true → receipt.state = .complete) := by
  obtain ⟨hregular, hfull⟩ := regular_of_ofRun hrun hknown.isCommit h
  obtain ⟨data, hread, hhash⟩ := h.session
  obtain rfl := hsession data hread
  rw [← hhash, ← h.run.1, ← h.run.2] at hknown
  rw [← h.run.1]
  exact loadSecretScan_of_presents dir hregular hknown (fun hstate => absurd hstate h.started) hfull
    (SecretScan.readJsonObject_text hregular.alike _ _ _) receipt.presents_dict hregular.length_text complete

/-- **The receipt is never one that the script refuses.**  At whatever point of whatever run it is looked at, the session receipt
being the same throughout, the script takes what is on disk.  It takes it as complete just if its state says so, and just if it
has all forms of the credentials of the run and was completed: the fingerprints alone, which are there a save earlier, are not
enough. -/
theorem receipt_loads (hrun : isRunID runID = true) {dir : Directory} {session : Bytes}
    (hknown : KnownTo dir runID commit (hexDigest sha256 session)) {es : List (Event Answer)} {p' : Prog Ask Answer (Except Failure Unit)}
    (hsession : ∀ data, (⟨.readFile (evidencePath runID ++ [ascii "00-session.json"]), some data⟩ : Event Answer) ∈ es → data = session)
    (h : Prog.Reaches (run sha256 runID commit region : Prog Ask Answer (Except Failure Unit)) es p') (path error : Str) :
    ∃ data scan, (Watch.after sha256 runID commit region (some (startData sha256 runID commit session)) es).disk = some data ∧
      (withReceipt dir path error data).loadSecretScan (chars runID) false = .ok scan ∧
        ((withReceipt dir path error data).loadSecretScan (chars runID) true = .ok scan ↔
          dictGet scan (lit "state") = .str (lit "complete")) ∧
        ((withReceipt dir path error data).loadSecretScan (chars runID) true = .ok scan ↔
          ∃ c, Fingerprinted sha256 runID commit (Watch.after sha256 runID commit region (some (startData sha256 runID commit session)) es) c) := by
  generalize hs : Watch.after sha256 runID commit region (some (startData sha256 runID commit session)) es = s
  have hpast : s.past = es := by
    rw [← hs]
    exact past_after (Watch.start _)
  -- a receipt that has everything is taken as complete, wherever it comes from
  have hcomplete : ∀ data scan c, s.disk = some data → readJsonObject path (lit "secret scan") error data = .ok scan →
      Fingerprinted sha256 runID commit s c → (withReceipt dir path error data).loadSecretScan (chars runID) true = .ok scan := by
    rintro data scan c hdata hread ⟨receipt, ⟨hdisk, hofRun⟩, hstate, -⟩
    obtain rfl := Option.some.inj (hdata.symm.trans hdisk)
    have hdict := SecretScan.readJsonObject_text (regular_of_ofRun hrun hknown.isCommit hofRun).1.alike path (lit "secret scan") error
    rw [← Except.ok.inj (hdict.symm.trans hread)]
    exact (loads_of_ofRun hrun hknown (hpast ▸ hsession) hofRun path error true).mpr fun _ => hstate
  obtain ⟨data, hdisk, hdata⟩ := kept_of_reaches (startData sha256 runID commit session) h
  rw [hs] at hdisk hdata
  rcases hdata with rfl | ⟨receipt, rfl, hofRun⟩
  · have hregular := regular_startReceipt sha256 hrun hknown.isCommit session
    obtain ⟨scan, hread, hpresents⟩ := SecretScan.readJsonObject_document hregular.alike rfl path (lit "secret scan") error
    have hlength : (startData sha256 runID commit session).length ≤ 32768 :=
      (SecretScan.length_document hregular.alike rfl).symm ▸ hregular.length_text
    have hload := loadSecretScan_of_presents dir hregular hknown (fun _ => rfl) (fun h => by cases h) hread hpresents hlength
    refine ⟨_, scan, hdisk, (hload false).mpr Bool.noConfusion, (hload true).trans (imp_iff_right rfl |>.trans hpresents.complete_iff.symm),
      fun h => ?_, fun ⟨c, hc⟩ => hcomplete _ _ c hdisk hread hc⟩
    have hstate := (hload true).mp h rfl
    cases hstate
  · have hload := loads_of_ofRun hrun hknown (hpast ▸ hsession) hofRun path error
    refine ⟨_, receipt.dict, hdisk, (hload false).mpr Bool.noConfusion,
      (hload true).trans (imp_iff_right rfl |>.trans receipt.presents_dict.complete_iff.symm), fun h => ?_, fun ⟨c, hc⟩ => ?_⟩
    · have hstate := (hload true).mp h rfl
      obtain ⟨values, hrecords, -, hcredentials⟩ := hofRun.records
      obtain ⟨c, rfl, hsupplied⟩ := hcredentials hstate
      exact ⟨c, receipt, ⟨hdisk, hofRun⟩, hstate, hrecords, hsupplied⟩
    · exact hcomplete _ _ c hdisk (SecretScan.readJsonObject_text (regular_of_ofRun hrun hknown.isCommit hofRun).1.alike _ _ _) hc

end Runs

namespace Rehearsal

/-- The run's directory, the receipt apart. -/
def directory : Directory where
  beneath := .ok ()
  preflight := ⟨lit "preflight.json", false, true, 0o600, 200, .ok [(lit "schema_version", .int 1), (lit "run_id", .str (chars runID)),
    (lit "result", .str (lit "passed")), (lit "commit", .str (chars commit))]⟩
  session := .ok (chars (hexDigest flatHash session))
  secretScan := ⟨[], false, false, 0, 0, .error .valueError⟩

theorem knownTo_directory : KnownTo directory runID commit (hexDigest flatHash session) := by
  refine ⟨⟨_, bind_eq_ok_iff.mpr ⟨(), rfl, bind_eq_ok_iff.mpr ⟨(), require_pos ⟨rfl, rfl⟩, bind_eq_ok_iff.mpr ⟨_, rfl, bind_eq_ok_iff.mpr
    ⟨(), require_pos (by decide +kernel), rfl⟩⟩⟩⟩, rfl⟩, rfl⟩

end Rehearsal

namespace Rehearsal

/-- What is read of the session in a part of the rehearsal is the session. -/
theorem session_of_sameSession {es : List (Event Answer)} (h : es.all sameSession = true) :
    ∀ data, (⟨.readFile (evidencePath runID ++ [ascii "00-session.json"]), some data⟩ : Event Answer) ∈ es → data = session := by
  intro data hmem
  have heq := List.all_eq_true.mp h _ hmem
  simpa [sameSession] using heq

end Rehearsal

/-- In the rehearsal the script does not take the receipt as complete before the bootstrap begins, and takes it as complete when the
credentials go into the cluster. -/
theorem receipt_loads_rehearsal :
    (∃ data scan, (Watch.after Rehearsal.flatHash Rehearsal.runID Rehearsal.commit Rehearsal.region
        (some (startData Rehearsal.flatHash Rehearsal.runID Rehearsal.commit Rehearsal.session)) []).disk = some data ∧
      (withReceipt Rehearsal.directory [] [] data).loadSecretScan (chars Rehearsal.runID) false = .ok scan ∧
      (withReceipt Rehearsal.directory [] [] data).loadSecretScan (chars Rehearsal.runID) true ≠ .ok scan) ∧
    ∃ es p', Prog.Reaches (run Rehearsal.flatHash Rehearsal.runID Rehearsal.commit Rehearsal.region : Prog Ask Answer (Except Failure Unit))
      es p' ∧ ∃ data scan, (Watch.after Rehearsal.flatHash Rehearsal.runID Rehearsal.commit Rehearsal.region
        (some (startData Rehearsal.flatHash Rehearsal.runID Rehearsal.commit Rehearsal.session)) es).disk = some data ∧
      (withReceipt Rehearsal.directory [] [] data).loadSecretScan (chars Rehearsal.runID) true = .ok scan ∧
      dictGet scan (lit "state") = .str (lit "complete") := by
  obtain ⟨all, p', hreach, -, happlies, -, -, hsession⟩ := Rehearsal.exists_run
  constructor
  · obtain ⟨data, scan, hdisk, hload, -, hiff⟩ := receipt_loads (by decide) Rehearsal.knownTo_directory
      (fun data h => absurd h List.not_mem_nil) (.refl _) [] []
    refine ⟨data, scan, hdisk, hload, fun hcomplete => ?_⟩
    -- nothing was read yet that could be recorded
    obtain ⟨c, receipt, -, -, -, targets, ⟨_, _, hout, -⟩, -⟩ := hiff.mp hcomplete
    cases hout
  · obtain ⟨es, ⟨q, r⟩, es', rfl, he⟩ := Rehearsal.exists_split happlies
    obtain ⟨p₁, hreach₁, -⟩ := hreach.split
    rw [List.all_append, Bool.and_eq_true] at hsession
    obtain ⟨data, scan, hdisk, -, hstate, hiff⟩ := receipt_loads (by decide) Rehearsal.knownTo_directory
      (Rehearsal.session_of_sameSession hsession.1) hreach₁ [] []
    cases q with
    | run c =>
      cases c with
      | applySecret manifest =>
        obtain ⟨c, hfingerprinted, -⟩ := (rule_of_reaches _ hreach).2
        have hload := hiff.mpr ⟨c, hfingerprinted⟩
        exact ⟨es, p₁, hreach₁, data, scan, hdisk, hload, hstate.mp hload⟩
      | _ => cases he
    | _ => cases he

end LocalPlatform.Bootstrap
