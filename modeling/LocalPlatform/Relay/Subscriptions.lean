/-
# LocalPlatform.Relay.Subscriptions — the endpoints a tenant's events go to.

`forTenant` reads the active rows of one tenant and refuses to return a row whose URL is not one relay
should POST to.  The authority of a URL is read by the standard library; that part is a parameter, and
nothing here depends on it.
-/
import LocalPlatform.Codec.Utf8
import LocalPlatform.Relay.Error

namespace LocalPlatform.Relay.Subscriptions

open Codec

/-- One endpoint belonging to one tenant. -/
structure Subscription where
  id : Int
  tenantID : Bytes
  url : Bytes
  secret : Bytes
  deriving DecidableEq, Repr

/-- `String` names the subscription and leaves its secret out. -/
def Subscription.string (s : Subscription) : Bytes :=
  ascii "subscription " ++ decInt s.id ++ ascii " (tenant " ++ s.tenantID ++ ascii " -> " ++ s.url ++
    ascii ")"

/-! ## URLs -/

/-- What of the standard library is not spelled out: the host behind a scheme, or the text of the
error, and how `%q` prints a string. -/
structure Library where
  host : Bytes → Except Bytes Bytes
  quoted : Bytes → Bytes

def isLetter (c : UInt8) : Bool := (0x61 ≤ c && c ≤ 0x7a) || (0x41 ≤ c && c ≤ 0x5a)

def isSchemeTail (c : UInt8) : Bool := isDigit c || c == 0x2b || c == 0x2d || c == 0x2e

/-- The loop of `getScheme`, with the octets already passed. -/
def getSchemeFrom (raw passed : Bytes) : Bytes → Except Bytes (Bytes × Bytes)
  | [] => .ok ([], raw)
  | c :: cs =>
    if isLetter c then getSchemeFrom raw (passed ++ [c]) cs
    else if isSchemeTail c then
      if passed = [] then .ok ([], raw) else getSchemeFrom raw (passed ++ [c]) cs
    else if c = 0x3a then
      if passed = [] then .error (ascii "missing protocol scheme") else .ok (passed, cs)
    else .ok ([], raw)

/-- **`getScheme raw`** — the scheme, empty when there is none, and what follows it. -/
def getScheme (raw : Bytes) : Except Bytes (Bytes × Bytes) := getSchemeFrom raw [] raw

def toLower (s : Bytes) : Bytes := s.map fun c => if 0x41 ≤ c && c ≤ 0x5a then c + 0x20 else c

/-- A URL, as far as relay looks at it. -/
structure URL where
  scheme : Bytes
  host : Bytes
  deriving DecidableEq, Repr

/-- A URL up to its fragment. -/
def withoutFragment (raw : Bytes) : Bytes :=
  match cut 0x23 raw with
  | some (front, _) => front
  | none => raw

/-- A URL's fragment. -/
def fragment (raw : Bytes) : Bytes :=
  match cut 0x23 raw with
  | some (_, back) => back
  | none => []

/-- What stands where an escape should and is none, as an `EscapeError` has it. -/
def badEscape : Bytes → Option Bytes
  | 0x25 :: a :: b :: rest => if isHex a && isHex b then badEscape rest else some [0x25, a, b]
  | [0x25, a] => some [0x25, a]
  | [0x25] => some [0x25]
  | _ :: rest => badEscape rest
  | [] => none

/-- **`url.Parse`**: the fragment is cut off, then the scheme is read, then the authority, and last the fragment.  Only
an error of the fragment is one of the whole text. -/
def parseURL (lib : Library) (raw : Bytes) : Except Bytes URL :=
  let failed (url e : Bytes) : Except Bytes URL := .error (ascii "parse " ++ lib.quoted url ++ ascii ": " ++ e)
  if (withoutFragment raw).any fun c => c < 0x20 || c == 0x7f then
    failed (withoutFragment raw) (ascii "net/url: invalid control character in URL")
  else match getScheme (withoutFragment raw) with
    | .error e => failed (withoutFragment raw) e
    | .ok (scheme, rest) =>
      match lib.host rest with
      | .error e => failed (withoutFragment raw) e
      | .ok host =>
        match badEscape (fragment raw) with
        | some escape => failed raw (ascii "invalid URL escape " ++ lib.quoted escape)
        | none => .ok ⟨toLower scheme, host⟩

/-- **`validateURL raw`** — `none` for a URL relay may POST to. -/
def validateURL (lib : Library) (raw : Bytes) : Option Err :=
  match parseURL lib raw with
  | .error e => some (.new (ascii "unparseable url " ++ lib.quoted raw ++ ascii ": " ++ e))
  | .ok u =>
    if u.scheme ≠ ascii "http" ∧ u.scheme ≠ ascii "https" then
      some (.new (ascii "url " ++ lib.quoted raw ++ ascii " has scheme " ++ lib.quoted u.scheme ++
        ascii ", want http or https"))
    else if u.host = [] then some (.new (ascii "url " ++ lib.quoted raw ++ ascii " has no host"))
    else none

/-! ## The query -/

/-- What the database answers: a failed query, or rows and how reading them ended. -/
inductive Answer where
  | failed (e : Err)
  | rows (rows : List Subscription) (ended : Option Err)

/-- The loop over the rows. -/
def scan (lib : Library) (tenantID : Bytes) (ended : Option Err) :
    List Subscription → Except Err (List Subscription)
  | [] => match ended with
    | some e => .error (e.wrap (ascii "read subscriptions for " ++ lib.quoted tenantID ++ ascii ": "))
    | none => .ok []
  | sub :: rest => match validateURL lib sub.url with
    | some e => .error (e.wrap (sub.string ++ ascii ": "))
    | none => match scan lib tenantID ended rest with
      | .error e => .error e
      | .ok out => .ok (sub :: out)

/-- **`forTenant tenantID`** — the tenant's active subscriptions, in the order of the rows. -/
def forTenant (lib : Library) (tenantID : Bytes) (answer : Answer) : Except Err (List Subscription) :=
  if isBlank tenantID then .error (.new (ascii "subscriptions: empty tenant id"))
  else match answer with
    | .failed e => .error (e.wrap (ascii "query subscriptions for " ++ lib.quoted tenantID ++ ascii ": "))
    | .rows rows ended => scan lib tenantID ended rows

/-! ## What is returned -/

theorem scan_ok {lib : Library} {tenantID : Bytes} {ended : Option Err} {rows out : List Subscription}
    (h : scan lib tenantID ended rows = .ok out) :
    out = rows ∧ ended = none ∧ ∀ sub ∈ rows, validateURL lib sub.url = none := by
  induction rows generalizing out with
  | nil =>
      cases ended with
      | some e => exact absurd h (by simp [scan])
      | none => exact ⟨(Except.ok.inj h).symm, rfl, by simp⟩
  | cons sub rest ih =>
      rw [scan] at h
      split at h
      · exact absurd h (by simp)
      next hurl =>
      split at h
      · exact absurd h (by simp)
      next out' hrest =>
      obtain ⟨rfl, hended, hall⟩ := ih hrest
      refine ⟨(Except.ok.inj h).symm, hended, fun s hs => ?_⟩
      rcases List.mem_cons.mp hs with rfl | hs
      · exact hurl
      · exact hall s hs

/-- **What `forTenant` returns**: the rows as they are, every URL of which relay may POST to. -/
theorem forTenant_ok {lib : Library} {tenantID : Bytes} {answer : Answer} {subs : List Subscription}
    (h : forTenant lib tenantID answer = .ok subs) :
    isBlank tenantID = false ∧ answer = .rows subs none ∧ ∀ sub ∈ subs, validateURL lib sub.url = none := by
  unfold forTenant at h
  split at h
  · exact absurd h (by simp)
  next htenant =>
  split at h
  · exact absurd h (by simp)
  next rows ended =>
  obtain ⟨rfl, rfl, hall⟩ := scan_ok h
  exact ⟨by simpa using htenant, rfl, hall⟩

theorem scan_of_valid {lib : Library} {tenantID : Bytes} {rows : List Subscription}
    (h : ∀ sub ∈ rows, validateURL lib sub.url = none) : scan lib tenantID none rows = .ok rows := by
  induction rows with
  | nil => rfl
  | cons sub rest ih =>
      rw [scan, h sub List.mem_cons_self, ih fun s hs => h s (List.mem_cons_of_mem _ hs)]

/-- A scheme begins with a letter. -/
theorem letter_of_getScheme {raw scheme rest : Bytes} (h : getScheme raw = .ok (scheme, rest))
    (hne : scheme ≠ []) : ∃ c cs, raw = c :: cs ∧ isLetter c = true := by
  unfold getScheme at h
  cases raw with
  | nil => exact absurd (congrArg Prod.fst (Except.ok.inj h)).symm hne
  | cons c cs =>
      rw [getSchemeFrom] at h
      split at h
      · next hletter => exact ⟨c, cs, rfl, hletter⟩
      · split at h
        · exact absurd (congrArg Prod.fst (Except.ok.inj h)).symm hne
        · split at h
          · exact absurd h (by simp)
          · exact absurd (congrArg Prod.fst (Except.ok.inj h)).symm hne

/-- A URL begins as it does without its fragment. -/
theorem cons_of_withoutFragment {raw cs : Bytes} {c : UInt8} (h : withoutFragment raw = c :: cs) :
    ∃ cs', raw = c :: cs' := by
  unfold withoutFragment at h
  split at h
  · next front back hcut =>
    rw [eq_append_of_cut hcut, h]
    exact ⟨_, rfl⟩
  · exact ⟨cs, h⟩

theorem scheme_of_parseURL {lib : Library} {raw : Bytes} {u : URL} (h : parseURL lib raw = .ok u)
    (hne : u.scheme ≠ []) : ∃ c cs, raw = c :: cs ∧ isLetter c = true := by
  unfold parseURL at h
  split at h
  · exact absurd h (by simp)
  split at h
  · exact absurd h (by simp)
  next scheme rest hget =>
  split at h
  · exact absurd h (by simp)
  split at h
  · exact absurd h (by simp)
  have hscheme : scheme ≠ [] := by
    rintro rfl
    exact hne (by rw [← Except.ok.inj h]; rfl)
  obtain ⟨c, cs, hfront, hletter⟩ := letter_of_getScheme hget hscheme
  obtain ⟨cs', hraw⟩ := cons_of_withoutFragment hfront
  exact ⟨c, cs', hraw, hletter⟩

/-- **A URL relay may POST to is not blank.** -/
theorem not_blank_of_validateURL {lib : Library} {raw : Bytes} (h : validateURL lib raw = none) :
    isBlank raw = false := by
  unfold validateURL at h
  split at h
  · exact absurd h (by simp)
  next u hu =>
  split at h
  · exact absurd h (by simp)
  next hs =>
  have hne : u.scheme ≠ [] := by
    intro hnil
    rw [hnil] at hs
    exact hs ⟨by decide, by decide⟩
  obtain ⟨c, cs, rfl, hletter⟩ := scheme_of_parseURL hu hne
  simp only [isLetter, Bool.or_eq_true, Bool.and_eq_true, decide_eq_true_eq, UInt8.le_iff_toNat_le,
    UInt8.reduceToNat] at hletter
  refine not_isBlank_of_head ?_ ?_
  · simp only [UInt8.le_iff_toNat_le, UInt8.reduceToNat]
    omega
  · simp only [UInt8.lt_iff_toNat_lt, UInt8.reduceToNat]
    omega

end LocalPlatform.Relay.Subscriptions
