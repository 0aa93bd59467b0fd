/-
# LocalPlatform.Bootstrap.ReceiptText — what Python reads in the receipt that Go writes.

The bootstrap writes the receipt with `json.MarshalIndent`, and the evidence script reads it with `json.loads`.  The two
writers of JSON lay a document out alike and write the same escapes for most of ASCII, so a receipt of which all texts are of
that kind is read as the object that has its fields (`loadsWith_text`).  The first receipt of a run is Python's own, which has
its keys in order: it is read as the same object (`readJsonObject_document`).
-/
import LocalPlatform.Bootstrap.SecretScan
import LocalPlatform.Evidence.Documents

namespace LocalPlatform.Bootstrap

open Codec Python

/-- The characters of octets that are ASCII. -/
def chars (b : Bytes) : Str := b.map UInt8.toNat

/-! ## The two layouts -/

theorem chars_append (a b : Bytes) : chars (a ++ b) = chars a ++ chars b := List.map_append

theorem chars_newline (level : Nat) : chars (Codec.Json.Indent.newline level) = Json.newline level := by
  unfold chars Codec.Json.Indent.newline Json.newline
  rw [List.map_cons, List.map_replicate]
  rfl

theorem chars_joinWith (sep : Bytes) (texts : List Bytes) :
    chars (Codec.Json.Indent.joinWith sep texts) = Json.joinWith (chars sep) (texts.map chars) := by
  induction texts using Codec.Json.Indent.joinWith.induct with
  | case1 => rfl
  | case2 x => rfl
  | case3 x y xs ih =>
    rw [Codec.Json.Indent.joinWith, chars_append, chars_append, ih]
    rfl

theorem chars_block (opening closing : UInt8) (level : Nat) (texts : List Bytes) :
    chars (Codec.Json.Indent.block opening closing level texts) =
      Json.block opening.toNat closing.toNat level (texts.map chars) := by
  unfold Codec.Json.Indent.block Json.block
  by_cases hempty : texts = []
  · rw [hempty]
    rfl
  · rw [if_neg hempty, if_neg (fun h => hempty (List.map_eq_nil_iff.mp h))]
    simp only [chars_append, chars_newline, chars_joinWith]
    rfl

/-! ## The two quotes -/

/-- The octets for which both write the same. -/
def isAlike (c : UInt8) : Bool := decide (c < 0x7f) && !Codec.Json.isHtml c

/-- A text of such octets. -/
def Alike (b : Bytes) : Prop := b.all isAlike = true

instance (b : Bytes) : Decidable (Alike b) := inferInstanceAs (Decidable (_ = true))

namespace Alike

variable {b : Bytes}

theorem lt (h : Alike b) : ∀ c ∈ b, c < 0x7f ∧ Codec.Json.isHtml c = false := by
  intro c hc
  have halike := List.all_eq_true.mp h c hc
  unfold isAlike at halike
  rwa [Bool.and_eq_true, decide_eq_true_eq, Bool.not_eq_true'] at halike

theorem ascii (h : Alike b) : ∀ c ∈ chars b, c < 0x80 := by
  intro c hc
  obtain ⟨d, hd, rfl⟩ := List.mem_map.mp hc
  exact (UInt8.lt_iff_toNat_lt.mp (h.lt d hd).1).trans (by decide)

theorem quote (h : Alike b) : chars (Codec.Json.quote b) = Json.quote (chars b) := by
  have hbody : chars (Codec.Json.quoteBody b) = (chars b).flatMap Json.escape := by
    have hlt := h.lt
    clear h
    induction b with
    | nil => rfl
    | cons c b ih =>
      obtain ⟨hc, hhtml⟩ := hlt c List.mem_cons_self
      -- the two writers differ only from DEL on and in the three characters Go escapes for HTML
      have hplain : asciiRune (.one c) = Codec.Json.quoteRune (.one c) := by
        unfold asciiRune
        have hlow : ¬ 127 ≤ Python.codePoint (.one c) := Nat.not_le.mpr (UInt8.lt_iff_toNat_lt.mp hc)
        rw [if_neg hlow]
        dsimp only
        rw [if_neg (by rw [hhtml]; exact Bool.false_ne_true)]
      have hescape := map_asciiRune_one c.toNat (UInt8.lt_iff_toNat_lt.mp hc)
      rw [UInt8.ofNat_toNat, hplain] at hescape
      have hrunes : Codec.Json.quoteBody (c :: b) = Codec.Json.quoteRune (.one c) ++ Codec.Json.quoteBody b := by
        unfold Codec.Json.quoteBody
        rw [Codec.Json.runes_ascii_cons (UInt8.lt_trans hc (by decide)), List.flatMap_cons]
      rw [hrunes, chars_append, ih fun d hd => hlt d (List.mem_cons_of_mem c hd)]
      exact congrArg (· ++ _) hescape
  show chars ([0x22] ++ Codec.Json.quoteBody b ++ [0x22]) = _
  rw [chars_append, chars_append, hbody]
  rfl

/-- **Such a text is read back.** -/
theorem reads {hook : List (Str × Value) → Py Value} (h : Alike b) : Json.Reads hook (chars (Codec.Json.quote b)) (.str (chars b)) := by
  obtain ⟨hcodes, hpair⟩ := Json.intact_of_ascii h.ascii
  have hquote : Json.Reads hook (Json.quote (chars b)) (.str (Json.pairUp (chars b))) := Json.reads_quote hcodes
  rwa [hpair, ← h.quote] at hquote

end Alike

/-! ## The receipt -/

/-- A field of which the name is written alike. -/
theorem chars_field {name : String} (hname : chars (Codec.Json.keyLiteral name) = Json.quote (lit name)) (value : Bytes) (v : Value) :
    chars (Codec.Json.Indent.field name value) = (Json.Part.mk (lit name) (chars value) v).line := by
  unfold Codec.Json.Indent.field Json.Part.line
  rw [chars_append, chars_append, hname]
  rfl

/-- The members of an entry. -/
def ScanEntry.members (e : ScanEntry) : List Json.Part :=
  [⟨lit "name", chars (Codec.Json.quote e.name), .str (chars e.name)⟩,
   ⟨lit "representation", chars (Codec.Json.quote e.representation.name), .str (chars e.representation.name)⟩,
   ⟨lit "byte_length", chars (dec e.length), .int e.length⟩,
   ⟨lit "sha256", chars (Codec.Json.quote e.digest), .str (chars e.digest)⟩]

/-- An entry as it is read. -/
def ScanEntry.dict (e : ScanEntry) : Dict := e.members.map Json.Part.item

theorem ScanEntry.keys_dict (e : ScanEntry) : e.dict.map Prod.fst = Evidence.entryKeys := rfl

theorem ScanEntry.chars_text (e : ScanEntry) (level : Nat) : chars (e.text level) = Json.block 0x7b 0x7d level (e.members.map Json.Part.line) := by
  unfold ScanEntry.text
  rw [chars_block]
  simp only [List.map_cons, List.map_nil, ScanEntry.members]
  rw [chars_field (by decide), chars_field (by decide), chars_field (by decide), chars_field (by decide)]
  rfl

theorem alike_name (form : Form) : Alike form.name := by cases form <;> decide

/-- An entry of which the texts are alike. -/
def ScanEntry.Alike (e : ScanEntry) : Prop := Bootstrap.Alike e.name ∧ Bootstrap.Alike e.digest ∧ (dec e.length).length ≤ 4300

section Hook

variable {hook : List (Str × Value) → Py Value}

/-- A part of a known key. -/
theorem good_part {key text : Str} {v : Value} (hkey : ∀ c ∈ key, c < 0x80) (h : Json.Reads hook text v) :
    (Json.Part.mk key text v).Good hook := ⟨(Json.intact_of_ascii hkey).1, h⟩

theorem ScanEntry.good (e : ScanEntry) (h : e.Alike) : ∀ m ∈ e.members, m.Good hook := by
  intro m hm
  simp only [ScanEntry.members, List.mem_cons, List.not_mem_nil, or_false] at hm
  rcases hm with rfl | rfl | rfl | rfl
  · exact good_part (by decide) h.1.reads
  · exact good_part (by decide) (alike_name _).reads
  · exact good_part (by decide) (Json.reads_decimal (by rw [decimal, List.length_map]; exact h.2.2))
  · exact good_part (by decide) h.2.1.reads

theorem ScanEntry.reads (e : ScanEntry) (h : e.Alike) (hhook : hook e.dict = .ok (.dict e.dict)) (level : Nat) :
    Json.Reads hook (chars (e.text level)) (.dict e.dict) := by
  rw [e.chars_text]
  exact Json.reads_object level _ (e.good h) hhook

end Hook

namespace SecretScan

/-- The members of a receipt. -/
def members (s : SecretScan) : List Json.Part :=
  [⟨lit "schema_version", chars (dec 1), .int 1⟩,
   ⟨lit "run_id", chars (Codec.Json.quote s.runID), .str (chars s.runID)⟩,
   ⟨lit "commit", chars (Codec.Json.quote s.commit), .str (chars s.commit)⟩,
   ⟨lit "session_sha256", chars (Codec.Json.quote s.sessionHash), .str (chars s.sessionHash)⟩,
   ⟨lit "profile", chars (Codec.Json.quote profile), .str (chars profile)⟩,
   ⟨lit "state", chars (Codec.Json.quote s.state.text), .str (chars s.state.text)⟩,
   ⟨lit "entries", chars (Codec.Json.Indent.block 0x5b 0x5d 1 (s.entries.map (ScanEntry.text 2))), .list (s.entries.map fun e => .dict e.dict)⟩]

/-- A receipt as it is read. -/
def dict (s : SecretScan) : Dict := s.members.map Json.Part.item

theorem keys_dict (s : SecretScan) : s.dict.map Prod.fst = Evidence.scanKeys := rfl

theorem chars_text (s : SecretScan) : chars s.text = Json.block 0x7b 0x7d 0 (s.members.map Json.Part.line) ++ lit "\n" := by
  unfold SecretScan.text
  rw [chars_append, chars_block]
  simp only [List.map_cons, List.map_nil, members]
  rw [chars_field (by decide), chars_field (by decide), chars_field (by decide), chars_field (by decide), chars_field (by decide),
    chars_field (by decide), chars_field (by decide)]
  rfl

/-- A receipt of which the texts are alike. -/
structure Alike (s : SecretScan) : Prop where
  runID : Bootstrap.Alike s.runID
  commit : Bootstrap.Alike s.commit
  sessionHash : Bootstrap.Alike s.sessionHash
  entries : ∀ e ∈ s.entries, e.Alike

/-- **The receipt is read as the object of its fields.** -/
theorem loadsWith_text {s : SecretScan} (h : s.Alike) :
    Json.loadsWith Evidence.uniqueJsonObject (chars s.text) = .ok (.dict s.dict) := by
  have hentries : Json.Reads Evidence.uniqueJsonObject
      (chars (Codec.Json.Indent.block 0x5b 0x5d 1 (s.entries.map (ScanEntry.text 2)))) (.list (s.entries.map fun e => .dict e.dict)) := by
    have hparts := Json.reads_list 1 (s.entries.map fun e => (chars (e.text 2), Value.dict e.dict))
      (by
        intro p hp
        obtain ⟨e, he, rfl⟩ := List.mem_map.mp hp
        exact e.reads (h.entries e he) (Evidence.uniqueJsonObject_of_nodup (by rw [e.keys_dict]; decide)) 2)
    rw [List.map_map, List.map_map] at hparts
    rw [chars_block, List.map_map]
    exact hparts
  have hgood : ∀ m ∈ s.members, m.Good Evidence.uniqueJsonObject := by
    intro m hm
    simp only [members, List.mem_cons, List.not_mem_nil, or_false] at hm
    rcases hm with rfl | rfl | rfl | rfl | rfl | rfl | rfl
    · exact good_part (by decide) (Json.reads_decimal (by decide))
    · exact good_part (by decide) h.runID.reads
    · exact good_part (by decide) h.commit.reads
    · exact good_part (by decide) h.sessionHash.reads
    · exact good_part (by decide) (Bootstrap.Alike.reads (by decide))
    · exact good_part (by decide) (Bootstrap.Alike.reads (by cases s.state <;> decide))
    · exact good_part (by decide) hentries
  rw [chars_text]
  exact Json.loadsWith_reads (Json.reads_object 0 _ hgood (Evidence.uniqueJsonObject_of_nodup (s.keys_dict ▸ (by decide : Evidence.scanKeys.Nodup))))

theorem plain_parts {parts : List Json.Part} (h : ∀ m ∈ parts, Evidence.Plain m.text) (level : Nat) :
    Evidence.Plain (Json.block 0x7b 0x7d level (parts.map Json.Part.line)) := by
  refine .block (.lit (by decide)) level fun line hline => ?_
  obtain ⟨m, hm, rfl⟩ := List.mem_map.mp hline
  exact ((Evidence.Plain.quote _).append (.lit (by decide))).append (h m hm)

/-- The receipt is ASCII. -/
theorem plain_text {s : SecretScan} (h : s.Alike) : Evidence.Plain (chars s.text) := by
  have hquote : ∀ {b : Bytes}, Bootstrap.Alike b → Evidence.Plain (chars (Codec.Json.quote b)) := fun hb => hb.quote ▸ .quote _
  have hdec : ∀ n : Nat, Evidence.Plain (chars (dec n)) := fun n => Evidence.Plain.reprInt (n : ℤ)
  have hentries : Evidence.Plain (chars (Codec.Json.Indent.block 0x5b 0x5d 1 (s.entries.map (ScanEntry.text 2)))) := by
    rw [chars_block]
    refine .block (.lit (by decide)) 1 fun line hline => ?_
    rw [List.map_map] at hline
    obtain ⟨e, he, rfl⟩ := List.mem_map.mp hline
    obtain ⟨hname, hdigest, -⟩ := h.entries e he
    show Evidence.Plain (chars (e.text 2))
    rw [e.chars_text]
    refine plain_parts (fun m hm => ?_) 2
    simp only [ScanEntry.members, List.mem_cons, List.not_mem_nil, or_false] at hm
    rcases hm with rfl | rfl | rfl | rfl
    · exact hquote hname
    · exact hquote (alike_name _)
    · exact hdec _
    · exact hquote hdigest
  rw [chars_text]
  refine (plain_parts (fun m hm => ?_) 0).append (.lit (by decide))
  simp only [members, List.mem_cons, List.not_mem_nil, or_false] at hm
  rcases hm with rfl | rfl | rfl | rfl | rfl | rfl | rfl
  · exact hdec 1
  · exact hquote h.runID
  · exact hquote h.commit
  · exact hquote h.sessionHash
  · exact hquote (by decide)
  · exact hquote (by cases s.state <;> decide)
  · exact hentries

/-- **What the bootstrap writes the evidence script reads.** -/
theorem readJsonObject_text {s : SecretScan} (h : s.Alike) (path description error : Str) :
    Evidence.readJsonObject path description error s.text = .ok s.dict := by
  have hoctets : (chars s.text).map UInt8.ofNat = s.text := by
    unfold chars
    rw [List.map_map]
    exact (List.map_congr_left fun c _ => UInt8.ofNat_toNat).trans (List.map_id _)
  have hread : Evidence.readJsonObject path description error ((chars s.text).map UInt8.ofNat) = .ok s.dict :=
    Evidence.readJsonObject_plain (plain_text h) (loadsWith_text h)
  rwa [hoctets] at hread

/-- An object that has the fields of a receipt, in whatever order. -/
structure Presents (s : SecretScan) (scan : Dict) : Prop where
  keys : Evidence.sameSet (scan.map Prod.fst) Evidence.scanKeys = true
  fields : ∀ key, Evidence.dictGet scan key = Evidence.dictGet s.dict key

theorem presents_dict (s : SecretScan) : s.Presents s.dict := ⟨by rw [s.keys_dict]; decide, fun _ => rfl⟩

/-! ### The receipt that Python writes -/

/-- What is written of a receipt without entries are the lines that Go writes, by their keys. -/
theorem lines_dict {s : SecretScan} (h : s.Alike) (hempty : s.entries = []) :
    s.members.map Json.Part.line = s.dict.map (Json.itemText 1) := by
  have htext : ∀ m ∈ s.members, m.text = Json.dump 1 m.value := by
    intro m hm
    simp only [members, List.mem_cons, List.not_mem_nil, or_false] at hm
    rcases hm with rfl | rfl | rfl | rfl | rfl | rfl | rfl
    · rfl
    · exact h.runID.quote
    · exact h.commit.quote
    · exact h.sessionHash.quote
    · exact Bootstrap.Alike.quote (by decide)
    · exact Bootstrap.Alike.quote (by cases s.state <;> decide)
    · show chars (Codec.Json.Indent.block 0x5b 0x5d 1 (s.entries.map (ScanEntry.text 2))) = Json.dump 1 (.list (s.entries.map fun e => .dict e.dict))
      rw [hempty, List.map_nil, List.map_nil, Json.dump]
      rfl
  unfold dict
  rw [List.map_map]
  refine List.map_congr_left fun m hm => ?_
  show m.line = Json.itemText 1 m.item
  unfold Json.Part.line Json.itemText
  rw [htext m hm]
  rfl

theorem length_joinWith (sep : Str) (texts : List Str) :
    (Json.joinWith sep texts).length = (texts.map List.length).sum + sep.length * (texts.length - 1) := by
  induction texts using Json.joinWith.induct with
  | case1 => rfl
  | case2 x => simp [Json.joinWith]
  | case3 x y xs ih =>
    rw [Json.joinWith, List.length_append, List.length_append, ih]
    simp only [List.map_cons, List.sum_cons, List.length_cons, Nat.add_sub_cancel, Nat.mul_add, Nat.mul_one]
    omega

/-- How long a block is does not depend on the order in it. -/
theorem length_block_perm (opening closing level : Nat) {texts texts' : List Str} (h : texts.Perm texts') :
    (Json.block opening closing level texts).length = (Json.block opening closing level texts').length := by
  unfold Json.block
  by_cases hempty : texts = []
  · obtain rfl : texts' = texts := hempty ▸ (hempty ▸ h).nil_eq.symm
    rfl
  · have hempty' : texts' ≠ [] := fun h' => hempty (h' ▸ h).eq_nil
    rw [if_neg hempty, if_neg hempty']
    simp only [List.length_append, length_joinWith, (h.map List.length).sum_eq, h.length_eq]

/-- **The two programs' receipts of a new session are equally long.** -/
theorem length_document {s : SecretScan} (h : s.Alike) (hempty : s.entries = []) :
    (Evidence.document (.dict s.dict)).length = s.text.length := by
  have hchars : s.text.length = (chars s.text).length := (List.length_map _).symm
  have hperm : ((s.dict.mergeSort Json.byKey).map (Json.itemText 1)).Perm (s.members.map Json.Part.line) := by
    rw [lines_dict h hempty]
    exact (List.mergeSort_perm _ _).map _
  rw [hchars, chars_text]
  unfold Evidence.document Json.dumps
  rw [List.length_map, Json.dump_dict, List.length_append, List.length_append]
  exact congrArg (· + (lit "\n").length) (length_block_perm 0x7b 0x7d 0 hperm)

/-- A receipt without entries is written and read. -/
theorem writable_dict {s : SecretScan} (h : s.Alike) (hempty : s.entries = []) :
    Json.Writable (.dict s.dict) ∧ ∀ p ∈ s.dict, Json.readBack p.2 = p.2 := by
  have hstr : ∀ {b : Bytes}, Bootstrap.Alike b → Json.Writable (.str (chars b)) ∧ Json.readBack (.str (chars b)) = .str (chars b) := by
    intro b hb
    obtain ⟨hcodes, hpair⟩ := Json.intact_of_ascii hb.ascii
    refine ⟨.str _ hcodes, ?_⟩
    rw [Json.readBack, hpair]
  have hitem : ∀ m ∈ s.members, Json.Writable m.value ∧ Json.readBack m.value = m.value := by
    intro m hm
    simp only [members, List.mem_cons, List.not_mem_nil, or_false] at hm
    rcases hm with rfl | rfl | rfl | rfl | rfl | rfl | rfl
    · exact ⟨.int 1 (by decide), by rw [Json.readBack] <;> simp⟩
    · exact hstr h.runID
    · exact hstr h.commit
    · exact hstr h.sessionHash
    · exact hstr (by decide)
    · exact hstr (by cases s.state <;> decide)
    · rw [hempty]
      exact ⟨.list _ fun _ hx => absurd hx List.not_mem_nil, by rw [Json.readBack]; rfl⟩
  have hkeys : ∀ key ∈ s.dict.map Prod.fst, ∀ c ∈ key, c < 0x80 := by
    rw [s.keys_dict]
    decide
  refine ⟨.dict _ (fun p hp => Json.intact_of_ascii (hkeys p.1 (List.mem_map_of_mem hp))) (s.keys_dict ▸ (by decide : Evidence.scanKeys.Nodup))
    fun p hp => ?_, fun p hp => ?_⟩
  all_goals
    obtain ⟨m, hm, rfl⟩ := List.mem_map.mp hp
  · exact (hitem m hm).1
  · exact (hitem m hm).2

/-- **The receipt of a new session is read back**, its fields in the order of their keys. -/
theorem readJsonObject_document {s : SecretScan} (h : s.Alike) (hempty : s.entries = []) (path description error : Str) :
    ∃ scan, Evidence.readJsonObject path description error (Evidence.document (.dict s.dict)) = .ok scan ∧ s.Presents scan := by
  obtain ⟨hwritable, hback⟩ := writable_dict h hempty
  have hnodup : (s.dict.map Prod.fst).Nodup := s.keys_dict ▸ (by decide : Evidence.scanKeys.Nodup)
  have hread := Json.loadsWith_dumps (fun _ => Evidence.uniqueJsonObject_of_nodup) hwritable
  rw [Json.readBack_dict] at hread
  refine ⟨_, Evidence.readJsonObject_plain (Evidence.plain_document hwritable.written) hread, ?_, fun key => ?_⟩
  · have hperm := (List.mergeSort_perm s.dict Json.byKey).map Prod.fst
    rw [s.keys_dict] at hperm
    unfold Evidence.sameSet
    rw [Bool.and_eq_true, List.map_map]
    exact ⟨List.all_eq_true.mpr fun k hk => List.contains_iff_mem.mpr (hperm.mem_iff.mp hk),
      List.all_eq_true.mpr fun k hk => List.contains_iff_mem.mpr (hperm.mem_iff.mpr hk)⟩
  · unfold Evidence.dictGet
    rw [Json.lookup_sorted hnodup]
    cases hlookup : s.dict.lookup key with
    | none => rfl
    | some v =>
      have hv := hback _ (Evidence.mem_of_lookup hlookup)
      exact hv

end SecretScan

end LocalPlatform.Bootstrap
