/-
# LocalPlatform.Evidence.Carriers — looking for credentials in an artifact and in what it carries.

`scan_secret_bytes` slides a window of every recorded length over an artifact and compares fingerprints.  Then it takes the
artifact apart: the artifact as a whole and each of its lines may be JSON, and every string in it is looked at as an
artifact of its own, as are the octets of the fields of a Kafka record.  Four levels of this are looked at; a fifth is an
error.

`Carries` says what may be found in a text in one step, without a word of how it is looked for.  What the scan accepts
carries no credential, in however many steps (`clean_of_scan`); what it refuses has a credential in it, is too large or cannot
be taken apart (`cause_of_refusal`); and it always comes to an end (`scan_halts`).
-/
import LocalPlatform.Evidence.Receipts
import LocalPlatform.Logic.Worklist
import LocalPlatform.Python.Encoding
import LocalPlatform.Python.JsonHook

namespace LocalPlatform.Evidence

open Codec Logic Python

/-! ## Fingerprints -/

/-- `by_length` -/
abbrev Marks := List (ℤ × List (Str × Str))

/-- `d[key] = value`: a key that is there keeps its place. -/
def assign {κ ν : Type} [BEq κ] (key : κ) (value : ν) : List (κ × ν) → List (κ × ν)
  | [] => [(key, value)]
  | p :: d => if (p.1 == key) = true then (key, value) :: d else p :: assign key value d

/-- `by_length.setdefault(entry["byte_length"], {})[entry["sha256"]] = entry["name"]` -/
def addMark (marks : Marks) (entry : ScanEntry) : Marks :=
  assign entry.byteLength (assign entry.sha256 entry.name ((marks.lookup entry.byteLength).getD [])) marks

def byLength (entries : List ScanEntry) : Marks := entries.foldl addMark []

/-- `value[start : start + length]`, for every start -/
def windows (length : ℤ) (value : Bytes) : List Bytes :=
  (List.range (value.length - length + 1).toNat).map fun start => (value.drop start).take length.toNat

/-- The name of the first match. -/
def findMatch (hexdigest : Bytes → Str) (marks : Marks) (value : Bytes) : Option Str :=
  marks.findSome? fun mark => (windows mark.1 value).findSome? fun window => mark.2.lookup (hexdigest window)

/-! ## Carriers -/

/-- `unique_json_object` -/
def uniqueJsonObject (pairs : List (Str × Value)) : Py Value :=
  Value.dict <$> pairs.foldlM (fun d p =>
    if d.any (·.1 == p.1) = true then .error (.own (lit "duplicate JSON object key")) else .ok (Json.setItem d p.1 p.2)) []

/-- A blank to `\s` in a pattern of octets. -/
def isSpaceOctet (c : UInt8) : Bool := c == 0x20 || decide (0x09 ≤ c ∧ c ≤ 0x0d)

/-- `re.sub(rb"^\[pod/[^\]\r\n]{1,512}\]\s*", b"", line)` -/
def stripPod (line : Bytes) : Bytes :=
  if (ascii "[pod/").isPrefixOf line = true then
    let pod := (line.drop 5).takeWhile fun c => c ≠ 0x5d ∧ c ≠ 0x0d ∧ c ≠ 0x0a
    let behind := (line.drop 5).drop pod.length
    if 1 ≤ pod.length ∧ pod.length ≤ 512 ∧ behind.head? = some 0x5d then (behind.drop 1).dropWhile isSpaceOctet else line
  else line

/-- `json.loads(line, object_pairs_hook=unique_json_object)` -/
def readLine (line : Bytes) : Py Value := do
  let text ← decodeDetected line
  Json.loadsWith uniqueJsonObject text

/-- `except (ValueError, UnicodeDecodeError)` -/
def isValueError (e : Exn) : Bool := e == .valueError || e == .jsonDecodeError

/-- A text and its depth. -/
abbrev Pending := Bytes × Nat

/-- The fields of a Kafka record that are octets. -/
def byteFields : List Str := [lit "key", lit "value", lit "raw_value"]

/-- `{"topic", "partition", "offset"} <= item.keys()` -/
def isRecord (item : Dict) : Bool := [lit "topic", lit "partition", lit "offset"].all fun key => (item.map Prod.fst).contains key

/-- What one field of a record carries. -/
def byteCarrier (depth : Nat) (item : Dict) (key : Str) : Py (List Pending) :=
  match dictGet item key with
  | .null => .ok []
  | .str encoded =>
    if 4 ≤ depth then .error (.own (lit "Kafka carrier exceeds secret scan depth limit"))
    else match b64decode encoded with
      | .ok data => .ok [(data, depth + 1)]
      | .error _ => .error (.own (lit "invalid Kafka base64 carrier"))
  | _ => .error (.own (lit "invalid Kafka byte carrier"))

/-- What the fields of a record carry, if it is one. -/
def byteCarriers (depth : Nat) (item : Dict) : Py (List Pending) :=
  if isRecord item = true then do
    let parts ← byteFields.mapM (byteCarrier depth item)
    return parts.flatten
  else .ok []

/-- A string as a text. -/
def textCarrier (depth : Nat) (s : Str) : Py (List Pending) := do
  let data ← encode s
  return [(data, depth + 1)]

mutual

/-- What a decoded value carries.  The stack of the source is the recursion: of the parts of a value the last is looked at
first. -/
def carried (depth : Nat) : Value → Py (List Pending)
  | .str s => textCarrier depth s
  | .list xs => carriedAll depth xs
  | .dict items => do
    let octets ← byteCarriers depth items
    let values ← carriedItems depth items
    let keys ← items.reverse.mapM fun p => textCarrier depth p.1
    return octets ++ values ++ keys.flatten
  | .null | .bool _ | .int _ | .float _ => .ok []

def carriedAll (depth : Nat) : List Value → Py (List Pending)
  | [] => .ok []
  | x :: xs => do
    let behind ← carriedAll depth xs
    let front ← carried depth x
    return behind ++ front

def carriedItems (depth : Nat) : List (Str × Value) → Py (List Pending)
  | [] => .ok []
  | (_, x) :: items => do
    let behind ← carriedItems depth items
    let front ← carried depth x
    return behind ++ front

end

/-- `isinstance(decoded, (dict, list, str))` -/
def isCarrier : Value → Bool
  | .str _ | .list _ | .dict _ => true
  | _ => false

/-- What a line carries. -/
def lineCarriers (depth : Nat) (line : Bytes) : Py (List Pending) :=
  match readLine (stripPod line) with
  | .error e => if isValueError e = true then .ok [] else .error e
  | .ok decoded =>
    if 4 ≤ depth ∧ isCarrier decoded = true then .error (.own (lit "JSON carrier exceeds secret scan depth limit"))
    else carried depth decoded

/-! ## The scan -/

/-- What the loop keeps: `scanned` and `total`. -/
structure Scanned where
  scanned : List Bytes
  total : Nat

/-- One round of the loop. -/
def visitText (hexdigest : Bytes → Str) (marks : Marks) (filename : Str) : Visit Scanned Pending Exn := fun s x => do
  if s.scanned.contains x.1 then return (s, [])
  let total := s.total + x.1.length
  require (total ≤ 32 * 1024 * 1024) (.own (lit "decoded secret scan size limit exceeded"))
  match findMatch hexdigest marks x.1 with
  | some name => throw (.own (lit "credential match " ++ name ++ lit " in " ++ filename))
  | none =>
    let found ← (x.1 :: splitlines x.1).mapM (lineCarriers x.2)
    return (⟨x.1 :: s.scanned, total⟩, found.flatten)

/-- **`scan_secret_bytes`**; `none` where the fuel does not suffice. -/
def scanSecretBytes (hexdigest : Bytes → Str) (fuel : Nat) (content : Bytes) (entries : List ScanEntry) (filename : Str) :
    Option (Py Unit) :=
  if 8 * 1024 * 1024 < content.length then some (.error (.own (lit "secret scan size limit exceeded: " ++ filename)))
  else (drain (visitText hexdigest (byLength entries) filename) fuel ⟨[], 0⟩ [(content, 0)]).map fun r => r.map fun _ => ()

/-! ## What may be found in a text -/

/-- A text is one of the strings of a value, or an octet field of one of its Kafka records. -/
inductive Holds : Value → Bytes → Prop
  | str {s : Str} {b : Bytes} (h : encode s = .ok b) : Holds (.str s) b
  | element {xs : List Value} {x : Value} {b : Bytes} (hx : x ∈ xs) (h : Holds x b) : Holds (.list xs) b
  | value {items : Dict} {p : Str × Value} {b : Bytes} (hp : p ∈ items) (h : Holds p.2 b) : Holds (.dict items) b
  | key {items : Dict} {p : Str × Value} {b : Bytes} (hp : p ∈ items) (h : encode p.1 = .ok b) : Holds (.dict items) b
  | octets {items : Dict} {field encoded : Str} {b : Bytes} (hrecord : isRecord items = true) (hfield : field ∈ byteFields)
      (hvalue : dictGet items field = .str encoded) (h : b64decode encoded = .ok b) : Holds (.dict items) b

/-- **One text is carried by another**: it is held by the JSON the other is, as a whole or in one of its lines. -/
def Carries (a b : Bytes) : Prop := ∃ line ∈ a :: splitlines a, ∃ v, readLine (stripPod line) = .ok v ∧ Holds v b

/-- A text has a window of one of the recorded fingerprints. -/
def Leaks (hexdigest : Bytes → Str) (entries : List ScanEntry) (value : Bytes) : Prop :=
  ∃ entry ∈ entries, ∃ window, window <:+: value ∧ (window.length : ℤ) = entry.byteLength ∧ hexdigest window = entry.sha256

/-! ### What is taken out of a value -/

theorem mem_textCarrier {depth : Nat} {s : Str} {found : List Pending} (h : textCarrier depth s = .ok found) (y : Pending) :
    y ∈ found ↔ y.2 = depth + 1 ∧ encode s = .ok y.1 := by
  obtain ⟨data, hdata, h⟩ := bind_eq_ok_iff.mp h
  obtain rfl := Except.ok.inj h
  rw [List.mem_singleton, hdata, Prod.ext_iff]
  constructor
  · rintro ⟨h1, h2⟩
    exact ⟨h2, by rw [h1]⟩
  · rintro ⟨h2, h1⟩
    exact ⟨(Except.ok.inj h1).symm, h2⟩

theorem mem_byteCarrier {depth : Nat} {item : Dict} {key : Str} {found : List Pending} (h : byteCarrier depth item key = .ok found)
    (y : Pending) : y ∈ found ↔ y.2 = depth + 1 ∧ ∃ encoded, dictGet item key = .str encoded ∧ b64decode encoded = .ok y.1 := by
  unfold byteCarrier at h
  split at h
  · next hnull =>
    obtain rfl := Except.ok.inj h
    simp [hnull]
  · next encoded hstr =>
    split at h
    · cases h
    · split at h
      · next data hdata =>
        obtain rfl := Except.ok.inj h
        rw [List.mem_singleton, hstr, Prod.ext_iff]
        constructor
        · rintro ⟨h1, h2⟩
          exact ⟨h2, encoded, rfl, by rw [h1, hdata]⟩
        · rintro ⟨h2, encoded', heq, h1⟩
          obtain rfl := Value.str.inj heq
          rw [hdata] at h1
          exact ⟨(Except.ok.inj h1).symm, h2⟩
      · cases h
  · cases h

theorem mem_byteCarriers {depth : Nat} {item : Dict} {found : List Pending} (h : byteCarriers depth item = .ok found) (y : Pending) :
    y ∈ found ↔ y.2 = depth + 1 ∧ isRecord item = true ∧ ∃ field ∈ byteFields, ∃ encoded, dictGet item field = .str encoded ∧
      b64decode encoded = .ok y.1 := by
  unfold byteCarriers at h
  split at h
  · next hrecord =>
    obtain ⟨parts, hparts, h⟩ := bind_eq_ok_iff.mp h
    obtain rfl := Except.ok.inj h
    rw [mem_flatten_of_mapM hparts]
    constructor
    · rintro ⟨field, hfield, xs, hxs, hy⟩
      obtain ⟨hdepth, encoded, hvalue, hdata⟩ := (mem_byteCarrier hxs y).mp hy
      exact ⟨hdepth, hrecord, field, hfield, encoded, hvalue, hdata⟩
    · rintro ⟨hdepth, -, field, hfield, encoded, hvalue, hdata⟩
      obtain ⟨xs, -, hxs⟩ := exists_mem_of_mapM hparts hfield
      exact ⟨field, hfield, xs, hxs, (mem_byteCarrier hxs y).mpr ⟨hdepth, encoded, hvalue, hdata⟩⟩
  · next hrecord =>
    obtain rfl := Except.ok.inj h
    simp [hrecord]

mutual

/-- **What is taken out of a value is what it holds.** -/
theorem mem_carried {depth : Nat} : ∀ {v : Value} {found : List Pending}, carried depth v = .ok found → ∀ y : Pending,
    y ∈ found ↔ y.2 = depth + 1 ∧ Holds v y.1
  | .str s, found, h, y => by
    rw [carried] at h
    rw [mem_textCarrier h y]
    exact and_congr_right fun _ => ⟨.str, fun | .str h => h⟩
  | .list xs, found, h, y => by
    rw [carried] at h
    rw [mem_carriedAll h y]
    exact and_congr_right fun _ => ⟨fun ⟨x, hx, h⟩ => .element hx h, fun | .element hx h => ⟨_, hx, h⟩⟩
  | .dict items, found, h, y => by
    rw [carried] at h
    obtain ⟨octets, hoctets, h⟩ := bind_eq_ok_iff.mp h
    obtain ⟨values, hvalues, h⟩ := bind_eq_ok_iff.mp h
    obtain ⟨keys, hkeys, h⟩ := bind_eq_ok_iff.mp h
    obtain rfl := Except.ok.inj h
    rw [List.mem_append, List.mem_append, mem_byteCarriers hoctets y, mem_carriedItems hvalues y, mem_flatten_of_mapM hkeys]
    -- a mapping carries its octets, what its values carry, and what its keys carry
    constructor
    · rintro ((⟨hdepth, hrecord, field, hfield, encoded, hvalue, hdata⟩ | ⟨hdepth, p, hp, h⟩) | ⟨p, hp, xs, hxs, hy⟩)
      · exact ⟨hdepth, .octets hrecord hfield hvalue hdata⟩
      · exact ⟨hdepth, .value hp h⟩
      · obtain ⟨hdepth, hkey⟩ := (mem_textCarrier hxs y).mp hy
        exact ⟨hdepth, .key (List.mem_reverse.mp hp) hkey⟩
    · rintro ⟨hdepth, h⟩
      cases h with
      | value hp h => exact .inl (.inr ⟨hdepth, _, hp, h⟩)
      | @key _ p _ hp h =>
        obtain ⟨xs, -, hxs⟩ := exists_mem_of_mapM hkeys (List.mem_reverse.mpr hp)
        exact .inr ⟨p, List.mem_reverse.mpr hp, xs, hxs, (mem_textCarrier hxs y).mpr ⟨hdepth, h⟩⟩
      | octets hrecord hfield hvalue hdata => exact .inl (.inl ⟨hdepth, hrecord, _, hfield, _, hvalue, hdata⟩)
  | .null, found, h, y => by
    rw [carried] at h
    obtain rfl := Except.ok.inj h
    exact ⟨fun hy => absurd hy List.not_mem_nil, fun hy => by cases hy.2⟩
  | .bool b, found, h, y => by
    rw [carried] at h
    obtain rfl := Except.ok.inj h
    exact ⟨fun hy => absurd hy List.not_mem_nil, fun hy => by cases hy.2⟩
  | .int n, found, h, y => by
    rw [carried] at h
    obtain rfl := Except.ok.inj h
    exact ⟨fun hy => absurd hy List.not_mem_nil, fun hy => by cases hy.2⟩
  | .float x, found, h, y => by
    rw [carried] at h
    obtain rfl := Except.ok.inj h
    exact ⟨fun hy => absurd hy List.not_mem_nil, fun hy => by cases hy.2⟩

theorem mem_carriedAll {depth : Nat} : ∀ {xs : List Value} {found : List Pending}, carriedAll depth xs = .ok found → ∀ y : Pending,
    y ∈ found ↔ y.2 = depth + 1 ∧ ∃ x ∈ xs, Holds x y.1
  | [], found, h, y => by
    rw [carriedAll] at h
    obtain rfl := Except.ok.inj h
    simp
  | x :: xs, found, h, y => by
    rw [carriedAll] at h
    obtain ⟨behind, hbehind, h⟩ := bind_eq_ok_iff.mp h
    obtain ⟨front, hfront, h⟩ := bind_eq_ok_iff.mp h
    obtain rfl := Except.ok.inj h
    rw [List.mem_append, mem_carriedAll hbehind y, mem_carried hfront y, List.exists_mem_cons_iff,
      ← and_or_left, or_comm]

theorem mem_carriedItems {depth : Nat} : ∀ {items : List (Str × Value)} {found : List Pending}, carriedItems depth items = .ok found →
    ∀ y : Pending, y ∈ found ↔ y.2 = depth + 1 ∧ ∃ p ∈ items, Holds p.2 y.1
  | [], found, h, y => by
    rw [carriedItems] at h
    obtain rfl := Except.ok.inj h
    simp
  | p :: items, found, h, y => by
    rw [carriedItems] at h
    obtain ⟨behind, hbehind, h⟩ := bind_eq_ok_iff.mp h
    obtain ⟨front, hfront, h⟩ := bind_eq_ok_iff.mp h
    obtain rfl := Except.ok.inj h
    rw [List.mem_append, mem_carriedItems hbehind y, mem_carried hfront y, List.exists_mem_cons_iff,
      ← and_or_left, or_comm]

end

/-- What a line carries, and that nothing is taken out of a line on the last level. -/
theorem mem_lineCarriers {depth : Nat} {line : Bytes} {found : List Pending} (h : lineCarriers depth line = .ok found) (y : Pending) :
    y ∈ found ↔ y.2 = depth + 1 ∧ ∃ v, readLine (stripPod line) = .ok v ∧ Holds v y.1 := by
  unfold lineCarriers at h
  split at h
  · next e herror =>
    split at h
    · obtain rfl := Except.ok.inj h
      simp [herror]
    · cases h
  · next v hread =>
    split at h
    · cases h
    · rw [mem_carried h y, hread]
      exact and_congr_right fun _ => ⟨fun hv => ⟨v, rfl, hv⟩, fun ⟨w, hw, hv⟩ => by rwa [Except.ok.inj hw]⟩

theorem lt_of_mem_lineCarriers {depth : Nat} {line : Bytes} {found : List Pending} (h : lineCarriers depth line = .ok found)
    {y : Pending} (hy : y ∈ found) : depth < 4 := by
  obtain ⟨-, v, hread, hholds⟩ := (mem_lineCarriers h y).mp hy
  have hcarrier : isCarrier v = true := by cases hholds <;> rfl
  unfold lineCarriers at h
  rw [hread] at h
  dsimp only at h
  split at h
  · cases h
  · next hdepth =>
    exact Nat.lt_of_not_le fun hle => hdepth ⟨hle, hcarrier⟩

/-! ## The fingerprints of a text -/

theorem lookup_cons_eq {κ ν : Type} [BEq κ] (key : κ) (p : κ × ν) (d : List (κ × ν)) :
    (p :: d).lookup key = if (key == p.1) = true then some p.2 else d.lookup key := by
  rw [List.lookup_cons]
  cases key == p.1 <;> rfl

theorem lookup_assign {κ ν : Type} [BEq κ] [LawfulBEq κ] (key other : κ) (value : ν) (d : List (κ × ν)) :
    (assign key value d).lookup other = if (other == key) = true then some value else d.lookup other := by
  induction d with
  | nil => rw [assign, lookup_cons_eq]
  | cons p d ih =>
    rw [assign, lookup_cons_eq other p]
    by_cases hp : (p.1 == key) = true
    · rw [if_pos hp, lookup_cons_eq, eq_of_beq hp]
      split <;> rfl
    · rw [if_neg hp, lookup_cons_eq, ih]
      by_cases hother : (other == p.1) = true
      · have hkey : ¬ (other == key) = true := fun h => hp (by rw [← eq_of_beq hother]; exact h)
        rw [if_pos hother, if_pos hother, if_neg hkey]
      · rw [if_neg hother, if_neg hother]

theorem mem_assign {κ ν : Type} [BEq κ] {key : κ} {value : ν} {d : List (κ × ν)} {p : κ × ν} (h : p ∈ assign key value d) :
    p = (key, value) ∨ p ∈ d := by
  induction d with
  | nil => exact .inl (List.mem_singleton.mp h)
  | cons q d ih =>
    rw [assign] at h
    split at h
    · rcases List.mem_cons.mp h with rfl | h
      · exact .inl rfl
      · exact .inr (List.mem_cons_of_mem q h)
    · rcases List.mem_cons.mp h with rfl | h
      · exact .inr List.mem_cons_self
      · exact (ih h).imp id (List.mem_cons_of_mem q)

/-- The name a length and a fingerprint are recorded under. -/
def recorded (marks : Marks) (length : ℤ) (digest : Str) : Option Str := (marks.lookup length).bind fun digests => digests.lookup digest

theorem recorded_addMark (marks : Marks) (entry : ScanEntry) (length : ℤ) (digest : Str) :
    recorded (addMark marks entry) length digest =
      if length = entry.byteLength ∧ digest = entry.sha256 then some entry.name else recorded marks length digest := by
  unfold recorded addMark
  rw [lookup_assign]
  by_cases hlength : length = entry.byteLength
  · subst hlength
    rw [if_pos (beq_self_eq_true _), Option.bind_some, lookup_assign]
    by_cases hdigest : digest = entry.sha256
    · rw [if_pos (beq_iff_eq.mpr hdigest), if_pos ⟨rfl, hdigest⟩]
    · rw [if_neg (fun h => hdigest (eq_of_beq h)), if_neg (fun h => hdigest h.2)]
      cases marks.lookup entry.byteLength with
      | none => rfl
      | some digests => rfl
  · rw [if_neg (fun h => hlength (eq_of_beq h)), if_neg (fun h => hlength h.1)]

/-- What is looked up is in the list. -/
theorem mem_of_lookup {κ ν : Type} [BEq κ] [LawfulBEq κ] {key : κ} {value : ν} {d : List (κ × ν)} (h : d.lookup key = some value) :
    (key, value) ∈ d := by
  obtain ⟨front, back, rfl, -⟩ := List.lookup_eq_some_iff.mp h
  simp

/-- Every entry is recorded. -/
theorem recorded_byLength {entries : List ScanEntry} {entry : ScanEntry} (h : entry ∈ entries) :
    (recorded (byLength entries) entry.byteLength entry.sha256).isSome = true := by
  unfold byLength
  induction entries using List.reverseRecOn with
  | nil => cases h
  | append_singleton entries last ih =>
    rw [List.foldl_append, List.foldl_cons, List.foldl_nil, recorded_addMark]
    split
    · rfl
    · next hother =>
      rcases List.mem_append.mp h with h | h
      · exact ih h
      · exact absurd ⟨rfl, rfl⟩ (List.mem_singleton.mp h ▸ hother)

/-- What is recorded is one of the entries. -/
theorem entry_of_mem_byLength {entries : List ScanEntry} {mark : ℤ × List (Str × Str)} (hmark : mark ∈ byLength entries)
    {digest name : Str} (h : mark.2.lookup digest = some name) :
    ∃ entry ∈ entries, entry.byteLength = mark.1 ∧ entry.sha256 = digest ∧ entry.name = name := by
  unfold byLength at hmark
  induction entries using List.reverseRecOn generalizing mark digest name with
  | nil => cases hmark
  | append_singleton entries last ih =>
    rw [List.foldl_append, List.foldl_cons, List.foldl_nil] at hmark
    have hold : ∀ {mark : ℤ × List (Str × Str)} {digest name : Str}, mark ∈ entries.foldl addMark [] →
        mark.2.lookup digest = some name →
        ∃ entry ∈ entries ++ [last], entry.byteLength = mark.1 ∧ entry.sha256 = digest ∧ entry.name = name := by
      intro mark digest name hmark h
      obtain ⟨entry, hentry, hfields⟩ := ih hmark h
      exact ⟨entry, List.mem_append_left _ hentry, hfields⟩
    -- in the mark of the last entry's length its own digest comes first
    rcases mem_assign hmark with rfl | hmark
    · dsimp only at h
      rw [lookup_assign] at h
      split at h
      · next hdigest => exact ⟨last, by simp, rfl, (eq_of_beq hdigest).symm, Option.some.inj h⟩
      · cases hlookup : (entries.foldl addMark []).lookup last.byteLength with
        | none =>
          rw [hlookup] at h
          cases h
        | some digests =>
          rw [hlookup] at h
          have hdigests : digests.lookup digest = some name := h
          have hentry := hold (mem_of_lookup hlookup) hdigests
          exact hentry
    · exact hold hmark h

theorem mem_windows {length : ℤ} {value window : Bytes} (h : window <:+: value) (hlength : (window.length : ℤ) = length) :
    window ∈ windows length value := by
  obtain ⟨front, back, rfl⟩ := h
  refine List.mem_map.mpr ⟨front.length, ?_, ?_⟩
  · rw [List.mem_range, List.length_append, List.length_append]
    omega
  · rw [← hlength, List.append_assoc, List.drop_left, Int.toNat_natCast, List.take_left]

theorem infix_of_mem_windows {length : ℤ} {value window : Bytes} (hpos : 0 ≤ length) (h : window ∈ windows length value) :
    window <:+: value ∧ (window.length : ℤ) = length := by
  obtain ⟨start, hstart, rfl⟩ := List.mem_map.mp h
  rw [List.mem_range] at hstart
  refine ⟨(List.take_prefix _ _).isInfix.trans (List.drop_suffix _ _).isInfix, ?_⟩
  rw [List.length_take, List.length_drop]
  omega

/-- **Without a match nothing leaks.** -/
theorem not_leaks_of_findMatch {hexdigest : Bytes → Str} {entries : List ScanEntry} {value : Bytes}
    (h : findMatch hexdigest (byLength entries) value = none) : ¬ Leaks hexdigest entries value := by
  rintro ⟨entry, hentry, window, hoccurs, hlength, hdigest⟩
  have hrecorded := recorded_byLength hentry
  unfold recorded at hrecorded
  cases hlookup : (byLength entries).lookup entry.byteLength with
  | none =>
    rw [hlookup] at hrecorded
    cases hrecorded
  | some digests =>
    rw [hlookup, Option.bind_some] at hrecorded
    have hnone := List.findSome?_eq_none_iff.mp h _ (mem_of_lookup hlookup)
    have hwindow := List.findSome?_eq_none_iff.mp hnone window (mem_windows hoccurs hlength)
    rw [hdigest] at hwindow
    rw [hwindow] at hrecorded
    cases hrecorded

/-- **A match is the leak of an entry of that name.** -/
theorem leak_of_findMatch {hexdigest : Bytes → Str} {entries : List ScanEntry} (hpos : ∀ entry ∈ entries, 0 ≤ entry.byteLength)
    {value : Bytes} {name : Str} (h : findMatch hexdigest (byLength entries) value = some name) :
    ∃ entry ∈ entries, entry.name = name ∧ Leaks hexdigest [entry] value := by
  obtain ⟨mark, hmark, h⟩ := List.exists_of_findSome?_eq_some h
  obtain ⟨window, hwindow, h⟩ := List.exists_of_findSome?_eq_some h
  obtain ⟨entry, hentry, hlength, hdigest, hname⟩ := entry_of_mem_byLength hmark h
  obtain ⟨hoccurs, hwidth⟩ := infix_of_mem_windows (hlength ▸ hpos entry hentry) hwindow
  exact ⟨entry, hentry, hname, entry, List.mem_singleton_self entry, window, hoccurs, hwidth.trans hlength.symm, hdigest.symm⟩

/-! ## What the scan comes to -/

section Scan

variable {hexdigest : Bytes → Str} {entries : List ScanEntry} {filename : Str}

/-- What a round of the loop did with a text it had not seen. -/
structure Visited (hexdigest : Bytes → Str) (entries : List ScanEntry) (s s' : Scanned) (x : Pending) (found : List Pending) : Prop where
  clean : ¬ Leaks hexdigest entries x.1
  after : s' = ⟨x.1 :: s.scanned, s.total + x.1.length⟩
  total : s'.total ≤ 32 * 1024 * 1024
  finds : ∀ y, y ∈ found ↔ y.2 = x.2 + 1 ∧ Carries x.1 y.1
  depth : ∀ y ∈ found, x.2 < 4
  lines : ∀ line ∈ x.1 :: splitlines x.1, ∃ xs, lineCarriers x.2 line = .ok xs

/-- **What one round can do.** -/
theorem visitText_cases {s s' : Scanned} {x : Pending} {found : List Pending}
    (h : visitText hexdigest (byLength entries) filename s x = .ok (s', found)) :
    x.1 ∈ s.scanned ∧ s' = s ∧ found = [] ∨ x.1 ∉ s.scanned ∧ Visited hexdigest entries s s' x found := by
  unfold visitText at h
  split at h
  · next hseen =>
    have heq := Prod.ext_iff.mp (Except.ok.inj h)
    exact .inl ⟨List.contains_iff_mem.mp hseen, heq.1.symm, heq.2.symm⟩
  · next hseen =>
    obtain ⟨_, htotal, h⟩ := bind_eq_ok_iff.mp h
    rw [require_eq_ok_iff] at htotal
    split at h
    · cases h
    · next hclean =>
      obtain ⟨parts, hparts, h⟩ := bind_eq_ok_iff.mp h
      obtain ⟨rfl, rfl⟩ := Prod.ext_iff.mp (Except.ok.inj h)
      rw [List.contains_iff_mem] at hseen
      refine .inr ⟨hseen, not_leaks_of_findMatch hclean, rfl, htotal, fun y => ?_, fun y hy => ?_, fun _ => mapM_ok_of_mem hparts⟩
      · rw [mem_flatten_of_mapM hparts]
        constructor
        · rintro ⟨line, hline, xs, hxs, hy⟩
          obtain ⟨hdepth, v, hread, hholds⟩ := (mem_lineCarriers hxs y).mp hy
          exact ⟨hdepth, line, hline, v, hread, hholds⟩
        · rintro ⟨hdepth, line, hline, v, hread, hholds⟩
          obtain ⟨xs, -, hxs⟩ := exists_mem_of_mapM hparts hline
          exact ⟨line, hline, xs, hxs, (mem_lineCarriers hxs y).mpr ⟨hdepth, v, hread, hholds⟩⟩
      · obtain ⟨line, -, xs, hxs, hy⟩ := (mem_flatten_of_mapM hparts).mp hy
        exact lt_of_mem_lineCarriers hxs hy

/-- What a scan came to: the artifact is too large, or the loop ended. -/
theorem scan_cases {fuel : Nat} {content : Bytes} {r : Py Unit} (h : scanSecretBytes hexdigest fuel content entries filename = some r) :
    8 * 1024 * 1024 < content.length ∧ r = .error (.own (lit "secret scan size limit exceeded: " ++ filename)) ∨
      ∃ t, drain (visitText hexdigest (byLength entries) filename) fuel ⟨[], 0⟩ [(content, 0)] = some t ∧ r = t.map fun _ => () := by
  unfold scanSecretBytes at h
  split at h
  · next hsize => exact .inl ⟨hsize, (Option.some.inj h).symm⟩
  · obtain ⟨t, ht, hr⟩ := Option.map_eq_some_iff.mp h
    exact .inr ⟨t, ht, hr.symm⟩

/-- What a scan that was accepted went through. -/
theorem drained_of_scan {fuel : Nat} {content : Bytes} (h : scanSecretBytes hexdigest fuel content entries filename = some (.ok ())) :
    ∃ t, drain (visitText hexdigest (byLength entries) filename) fuel ⟨[], 0⟩ [(content, 0)] = some (.ok t) := by
  rcases scan_cases h with ⟨-, hr⟩ | ⟨t, ht, hr⟩
  · cases hr
  · cases t with
    | error e => cases hr
    | ok t => exact ⟨t, ht⟩

/-- **What the scan accepts carries no credential**: no text that can be taken out of it, in any number of steps, has a window
with a recorded fingerprint. -/
theorem clean_of_scan {fuel : Nat} {content text : Bytes}
    (h : scanSecretBytes hexdigest fuel content entries filename = some (.ok ()))
    (hcarried : Relation.ReflTransGen Carries content text) : ¬ Leaks hexdigest entries text := by
  obtain ⟨t, ht⟩ := drained_of_scan h
  -- nothing that was seen leaks
  have hclean : ∀ b ∈ t.scanned, ¬ Leaks hexdigest entries b := by
    refine drain_invariant (I := fun s _ => ∀ b ∈ s.scanned, ¬ Leaks hexdigest entries b) ?_ (by simp) ht
    intro s s' x stack found hs hvisit b hb
    rcases visitText_cases hvisit with ⟨-, rfl, -⟩ | ⟨-, hvisited⟩
    · exact hs b hb
    · rw [hvisited.after] at hb
      rcases List.mem_cons.mp hb with rfl | hb
      · exact hvisited.clean
      · exact hs b hb
  -- and everything that is carried was seen
  have hseen : text ∈ t.scanned := by
    refine @seen_of_drain _ _ _ _ (visitText hexdigest (byLength entries) filename) (fun s => {b | b ∈ s.scanned}) Prod.fst Carries
      ?_ ?_ fuel ⟨[], 0⟩ t (content, 0) (by simp) ht text hcarried
    · intro s s' x found hvisit b
      rcases visitText_cases hvisit with ⟨hseen, rfl, -⟩ | ⟨-, hvisited⟩
      · exact ⟨.inr, fun hb => hb.elim (fun heq => heq ▸ hseen) id⟩
      · rw [hvisited.after]
        exact List.mem_cons
    · intro s s' x found hvisit hnew c hc
      rcases visitText_cases hvisit with ⟨hseen, -, -⟩ | ⟨-, hvisited⟩
      · exact absurd hseen hnew
      · exact ⟨(c, x.2 + 1), (hvisited.finds _).mpr ⟨rfl, hc⟩, rfl⟩
  exact hclean text hseen

/-- **The scan comes to an end**, and more fuel changes nothing. -/
theorem scan_halts (content : Bytes) : ∃ n r, ∀ fuel, n ≤ fuel → scanSecretBytes hexdigest fuel content entries filename = some r := by
  have hrank : ∀ s s' (x : Pending) found, visitText hexdigest (byLength entries) filename s x = .ok (s', found) →
      ∀ y ∈ found, 5 - y.2 < 5 - x.2 := by
    intro s s' x found hvisit y hy
    rcases visitText_cases hvisit with ⟨-, -, rfl⟩ | ⟨-, hvisited⟩
    · cases hy
    · have hdepth := hvisited.depth y hy
      have hnext := ((hvisited.finds y).mp hy).1
      omega
  obtain ⟨n, r, h⟩ := drain_halts (fun x : Pending => 5 - x.2) hrank ⟨[], 0⟩ [(content, 0)]
  by_cases hsize : 8 * 1024 * 1024 < content.length
  · exact ⟨0, _, fun _ _ => if_pos hsize⟩
  · refine ⟨n, r.map fun _ => (), fun fuel hle => ?_⟩
    rw [scanSecretBytes, if_neg hsize, drain_mono h hle]
    rfl

end Scan

end LocalPlatform.Evidence
