/-
# LocalPlatform.Relay.TraceHeaders — Kafka headers as the carrier of a trace.

The headers of a record are a list that permits repeats.  The carrier makes a case-insensitive map of it:
`get` reads from the end, and `set` filters the list in its own backing array while it ranges over it,
puts the new header where the first match stood and drops every other match.

`setLoop` is that loop, with the array and the two indices; it comes to `replaceFirst` (`set_eq`), which
walks the list once, and the laws of a map are proved of that.
-/
import LocalPlatform.Codec.Bytes

namespace LocalPlatform.Relay.TraceHeaders

open Codec

/-- `kafka.Header` -/
structure Header where
  key : Bytes
  value : Bytes
  deriving DecidableEq, Repr

section Carrier

-- `strings.EqualFold`
variable (equalFold : Bytes → Bytes → Bool)

/-- **`Get`** — the value of the last match, or the empty string. -/
def get (headers : List Header) (key : Bytes) : Bytes :=
  match headers.reverse.find? fun h => equalFold h.key key with
  | some h => h.value
  | none => []

/-- The loop of `Set`: the backing array, how much of it is kept, whether the header was put in, and the index the range
has reached. -/
structure Loop where
  backing : List Header
  kept : Nat
  replaced : Bool

/-- `kept = append(kept, h)`, within the capacity of the backing array. -/
def Loop.keep (l : Loop) (h : Header) : Loop := { l with backing := l.backing.set l.kept h, kept := l.kept + 1 }

/-- One turn of the range, at an index. -/
def Loop.turn (key value : Bytes) (l : Loop) (i : Nat) : Loop :=
  match l.backing[i]? with
  | none => l
  | some header =>
    if equalFold header.key key = false then l.keep header
    else if l.replaced then l
    else { l.keep ⟨key, value⟩ with replaced := true }

/-- **`Set`** -/
def set (headers : List Header) (key value : Bytes) : List Header :=
  let l := (List.range headers.length).foldl (Loop.turn equalFold key value) ⟨headers, 0, false⟩
  if l.replaced then l.backing.take l.kept else l.backing.take l.kept ++ [⟨key, value⟩]

/-- `Keys` -/
def keys (headers : List Header) : List Bytes := headers.map Header.key

/-! ## The loop -/

/-- What the range keeps of the headers it has still to see. -/
def keepRest (key value : Bytes) : Bool → List Header → List Header
  | _, [] => []
  | replaced, h :: hs =>
    if equalFold h.key key = false then h :: keepRest key value replaced hs
    else if replaced then keepRest key value replaced hs
    else ⟨key, value⟩ :: keepRest key value true hs

/-- The list with its first match replaced and every other match dropped, or with the header behind it. -/
def replaceFirst (headers : List Header) (key value : Bytes) : List Header :=
  if headers.any fun h => equalFold h.key key then keepRest equalFold key value false headers
  else headers ++ [⟨key, value⟩]

variable {equalFold} {key value : Bytes}

/-- What is kept is written over headers the range has seen: behind it the array is as it was. -/
theorem set_behind (kept junk : List Header) (h x : Header) (hs : List Header) :
    ∃ junk', junk'.length = junk.length ∧
      (kept ++ junk ++ h :: hs).set kept.length x = (kept ++ [x]) ++ junk' ++ hs := by
  cases junk with
  | nil => exact ⟨[], rfl, by simp⟩
  | cons j js => exact ⟨js ++ [h], by simp, by simp⟩

theorem turn_of_seen (l : Loop) {i : Nat} {header : Header} (h : l.backing[i]? = some header) :
    l.turn equalFold key value i =
      if equalFold header.key key = false then l.keep header
      else if l.replaced then l
      else { l.keep ⟨key, value⟩ with replaced := true } := by
  unfold Loop.turn
  rw [h]

/-- **The run of the loop** — from what is kept and the headers still to see, with whatever stands between. -/
theorem foldl_turn (rest kept junk : List Header) (replaced : Bool) :
    ∃ junk', (List.range' (kept.length + junk.length) rest.length).foldl (Loop.turn equalFold key value)
        ⟨kept ++ junk ++ rest, kept.length, replaced⟩ =
      ⟨kept ++ keepRest equalFold key value replaced rest ++ junk',
        (kept ++ keepRest equalFold key value replaced rest).length,
        replaced || rest.any fun h => equalFold h.key key⟩ := by
  induction rest generalizing kept junk replaced with
  | nil => exact ⟨junk, by simp [keepRest]⟩
  | cons h hs ih =>
    have hseen : (kept ++ junk ++ h :: hs)[kept.length + junk.length]? = some h := by
      rw [← List.length_append, List.getElem?_append_right (le_refl _), Nat.sub_self]
      rfl
    rw [List.length_cons, List.range'_succ, List.foldl_cons]
    rw [turn_of_seen ⟨kept ++ junk ++ h :: hs, kept.length, replaced⟩ hseen]
    cases hmatch : equalFold h.key key with
    | false =>
      obtain ⟨junk₁, hlen, hset⟩ := set_behind kept junk h h hs
      obtain ⟨junk₂, hrun⟩ := ih (kept ++ [h]) junk₁ replaced
      refine ⟨junk₂, ?_⟩
      rw [if_pos rfl]
      have hstep : (⟨kept ++ junk ++ h :: hs, kept.length, replaced⟩ : Loop).keep h =
          ⟨(kept ++ [h]) ++ junk₁ ++ hs, (kept ++ [h]).length, replaced⟩ := by
        unfold Loop.keep
        rw [hset, List.length_append]
        rfl
      have hindex : kept.length + junk.length + 1 = (kept ++ [h]).length + junk₁.length := by
        rw [List.length_append, List.length_singleton]
        omega
      rw [hstep, hindex, hrun]
      simp [keepRest, hmatch]
    | true =>
      rw [if_neg (by simp)]
      cases replaced with
      | true =>
        -- a match after the first leaves the loop as it is: the header joins what stands between
        obtain ⟨junk₂, hrun⟩ := ih kept (junk ++ [h]) true
        refine ⟨junk₂, ?_⟩
        have hindex : kept.length + junk.length + 1 = kept.length + (junk ++ [h]).length := by
          rw [List.length_append, List.length_singleton]
          omega
        have hsame : kept ++ junk ++ h :: hs = kept ++ (junk ++ [h]) ++ hs := by simp
        rw [if_pos rfl, hindex, hsame, hrun]
        simp [keepRest, hmatch]
      | false =>
        obtain ⟨junk₁, hlen, hset⟩ := set_behind kept junk h ⟨key, value⟩ hs
        obtain ⟨junk₂, hrun⟩ := ih (kept ++ [⟨key, value⟩]) junk₁ true
        refine ⟨junk₂, ?_⟩
        have hstep : ({ (⟨kept ++ junk ++ h :: hs, kept.length, false⟩ : Loop).keep ⟨key, value⟩ with
              replaced := true } : Loop) =
            ⟨(kept ++ [⟨key, value⟩]) ++ junk₁ ++ hs, (kept ++ [(⟨key, value⟩ : Header)]).length, true⟩ := by
          unfold Loop.keep
          rw [hset, List.length_append]
          rfl
        have hindex : kept.length + junk.length + 1 =
            (kept ++ [(⟨key, value⟩ : Header)]).length + junk₁.length := by
          rw [List.length_append, List.length_singleton]
          omega
        rw [if_neg (by simp), hstep, hindex, hrun]
        simp [keepRest, hmatch]

theorem keepRest_of_none (headers : List Header) (replaced : Bool)
    (h : (headers.any fun h => equalFold h.key key) = false) :
    keepRest equalFold key value replaced headers = headers := by
  induction headers generalizing replaced with
  | nil => rfl
  | cons header hs ih =>
    rw [List.any_cons, Bool.or_eq_false_iff] at h
    show (if equalFold header.key key = false then _ else _) = _
    rw [if_pos h.1, ih replaced h.2]

theorem set_eq (headers : List Header) (key value : Bytes) :
    set equalFold headers key value = replaceFirst equalFold headers key value := by
  obtain ⟨junk, hrun⟩ := @foldl_turn equalFold key value headers [] [] false
  unfold set replaceFirst
  rw [List.range_eq_range']
  have hstart : (⟨[] ++ [] ++ headers, ([] : List Header).length, false⟩ : Loop) = ⟨headers, 0, false⟩ := rfl
  have hzero : ([] : List Header).length + ([] : List Header).length = 0 := rfl
  rw [hstart, hzero] at hrun
  rw [hrun]
  simp only [List.nil_append, List.take_left, Bool.false_or]
  cases hany : headers.any fun h => equalFold h.key key with
  | true => rfl
  | false =>
    rw [if_neg (by simp), if_neg (by simp), keepRest_of_none headers false hany]

/-! ## What matches and what does not -/

/-- The header that matches is put in once, and nothing that does not match is touched. -/
theorem filter_keepRest (hrefl : equalFold key key = true) (headers : List Header) (replaced : Bool) :
    ((keepRest equalFold key value replaced headers).filter fun h => equalFold h.key key) =
        (if replaced = false ∧ (headers.any fun h => equalFold h.key key) = true then [⟨key, value⟩] else []) ∧
      ((keepRest equalFold key value replaced headers).filter fun h => !equalFold h.key key) =
        headers.filter fun h => !equalFold h.key key := by
  induction headers generalizing replaced with
  | nil => exact ⟨by simp [keepRest], rfl⟩
  | cons h hs ih =>
    obtain ⟨hmatching, hothers⟩ := ih replaced
    cases hmatch : equalFold h.key key with
    | false => exact ⟨by simp [keepRest, hmatch, hmatching], by simp [keepRest, hmatch, hothers]⟩
    | true =>
      cases replaced with
      | true => exact ⟨by simpa [keepRest, hmatch] using hmatching, by simpa [keepRest, hmatch] using hothers⟩
      | false =>
        obtain ⟨hnone, hrest⟩ := ih true
        exact ⟨by simpa [keepRest, hmatch, hrefl] using hnone, by simpa [keepRest, hmatch, hrefl] using hrest⟩

theorem filter_set_matching (hrefl : equalFold key key = true) (headers : List Header) :
    ((set equalFold headers key value).filter fun h => equalFold h.key key) = [⟨key, value⟩] := by
  rw [set_eq]
  unfold replaceFirst
  cases hany : headers.any fun h => equalFold h.key key with
  | true =>
    rw [if_pos rfl, (filter_keepRest hrefl headers false).1, if_pos ⟨rfl, hany⟩]
  | false =>
    have hnone : (headers.filter fun h => equalFold h.key key) = [] := by
      simpa [List.any_eq_false] using hany
    rw [if_neg (by simp), List.filter_append, hnone]
    simp [hrefl]

theorem filter_set_others (hrefl : equalFold key key = true) (headers : List Header) :
    ((set equalFold headers key value).filter fun h => !equalFold h.key key) =
      headers.filter fun h => !equalFold h.key key := by
  rw [set_eq]
  unfold replaceFirst
  split
  · exact (filter_keepRest hrefl headers false).2
  · rw [List.filter_append]
    simp [hrefl]

/-- `Get` sees only the headers that match. -/
theorem get_eq (headers : List Header) (key : Bytes) :
    get equalFold headers key =
      match (headers.filter fun h => equalFold h.key key).reverse.head? with
      | some h => h.value
      | none => [] := by
  unfold get
  rw [← List.filter_reverse, List.head?_filter]

theorem set_of_matching {headers : List Header}
    (h : (headers.filter fun h => equalFold h.key key) = [⟨key, value⟩]) :
    keepRest equalFold key value false headers = headers := by
  induction headers with
  | nil => rfl
  | cons header hs ih =>
    show (if equalFold header.key key = false then _ else _) = _
    cases hmatch : equalFold header.key key with
    | false =>
      rw [List.filter_cons, hmatch] at h
      rw [if_pos rfl, ih h]
    | true =>
      -- the one header that matches stands first, so none behind it does
      rw [List.filter_cons, hmatch, if_pos rfl, List.cons.injEq] at h
      have hnone : (hs.any fun h => equalFold h.key key) = false := by
        simpa [List.any_eq_false] using h.2
      rw [if_neg (by simp), if_neg (by simp), keepRest_of_none hs true hnone, h.1]

end Carrier

/-! ## A map -/

/-- `strings.EqualFold` on ASCII keys. -/
def asciiFold (a b : Bytes) : Bool :=
  let lower := List.map fun c : UInt8 => if 65 ≤ c ∧ c ≤ 90 then c + 32 else c
  lower a == lower b

theorem asciiFold_equivalence : Equivalence fun a b => asciiFold a b = true where
  refl _ := beq_iff_eq.mpr rfl
  symm h := beq_iff_eq.mpr (beq_iff_eq.mp h).symm
  trans h h' := beq_iff_eq.mpr ((beq_iff_eq.mp h).trans (beq_iff_eq.mp h'))

section Laws

variable {equalFold : Bytes → Bytes → Bool}

/-- **A map with one value a key** — the value that was set under the key, every other as it was. -/
theorem get_set (hfold : Equivalence fun a b => equalFold a b = true) (headers : List Header)
    (key value spelling : Bytes) :
    get equalFold (set equalFold headers key value) spelling =
      if equalFold key spelling = true then value else get equalFold headers spelling := by
  have hrefl : equalFold key key = true := hfold.refl key
  by_cases hspelling : equalFold key spelling = true
  · have hsame : (fun h : Header => equalFold h.key spelling) = fun h => equalFold h.key key := by
      funext h
      rw [Bool.eq_iff_iff]
      exact ⟨fun hm => hfold.trans hm (hfold.symm hspelling), fun hm => hfold.trans hm hspelling⟩
    rw [if_pos hspelling, get_eq, hsame, filter_set_matching hrefl]
    rfl
  · have hother : ∀ hs : List Header, (hs.filter fun h => equalFold h.key spelling) =
        (hs.filter fun h => !equalFold h.key key).filter fun h => equalFold h.key spelling := by
      intro hs
      rw [List.filter_filter]
      refine List.filter_congr fun h _ => ?_
      cases hkey : equalFold h.key key with
      | false => simp
      | true =>
        have : equalFold h.key spelling = false :=
          Bool.eq_false_iff.mpr fun hm => hspelling (hfold.trans (hfold.symm hkey) hm)
        simp [this]
    rw [if_neg hspelling, get_eq, get_eq, hother, filter_set_others hrefl, ← hother]

/-- **The trace headers are a case-insensitive map** — under any case folding that is an equivalence. -/
theorem set_laws (hfold : Equivalence fun a b => equalFold a b = true) (headers : List Header)
    (key value : Bytes) :
    (∀ spelling, equalFold key spelling = true →
      get equalFold (set equalFold headers key value) spelling = value) ∧
    ((set equalFold headers key value).countP fun h => equalFold h.key key) = 1 ∧
    ((set equalFold headers key value).filter fun h => !equalFold h.key key) =
      (headers.filter fun h => !equalFold h.key key) ∧
    set equalFold (set equalFold headers key value) key value = set equalFold headers key value ∧
    ∀ other value', equalFold key other = false → ∀ spelling,
      get equalFold (set equalFold (set equalFold headers key value) other value') spelling =
        get equalFold (set equalFold (set equalFold headers other value') key value) spelling := by
  have hrefl : equalFold key key = true := hfold.refl key
  have hmatching := @filter_set_matching equalFold key value hrefl headers
  refine ⟨?_, ?_, filter_set_others hrefl headers, ?_, ?_⟩
  · intro spelling hspelling
    rw [get_set hfold, if_pos hspelling]
  · rw [List.countP_eq_length_filter, hmatching]
    rfl
  -- the second call finds the header the first one left, and replaces it by itself
  · have hany : ((set equalFold headers key value).any fun h => equalFold h.key key) = true := by
      rw [List.any_eq_true]
      have hmem : (⟨key, value⟩ : Header) ∈
          (set equalFold headers key value).filter fun h => equalFold h.key key := by
        rw [hmatching]
        exact List.mem_singleton.mpr rfl
      exact ⟨⟨key, value⟩, (List.mem_filter.mp hmem).1, hrefl⟩
    rw [set_eq (set equalFold headers key value)]
    unfold replaceFirst
    rw [if_pos hany, set_of_matching hmatching]
  · intro other value' hother spelling
    rw [get_set hfold, get_set hfold, get_set hfold, get_set hfold]
    -- a spelling belongs to one of the two keys at most
    by_cases hkey : equalFold key spelling = true
    · have : ¬equalFold other spelling = true := fun ho => by
        rw [hfold.trans hkey (hfold.symm ho)] at hother
        exact Bool.noConfusion hother
      rw [if_pos hkey, if_neg this, if_pos hkey]
    · rw [if_neg hkey, if_neg hkey]

/-- Two spellings of `traceparent`, the later one shadowing: one is left, with the value that was set. -/
theorem set_laws_traceparent :
    let headers : List Header :=
      [⟨ascii "traceparent", ascii "00-11"⟩, ⟨ascii "unrelated", ascii "kept"⟩, ⟨ascii "TraceParent", ascii "00-22"⟩]
    set asciiFold headers (ascii "traceparent") (ascii "00-33") =
        [⟨ascii "traceparent", ascii "00-33"⟩, ⟨ascii "unrelated", ascii "kept"⟩] ∧
      get asciiFold (set asciiFold headers (ascii "traceparent") (ascii "00-33")) (ascii "TRACEPARENT") =
        ascii "00-33" :=
  ⟨by decide, (set_laws asciiFold_equivalence _ _ _).1 (ascii "TRACEPARENT") (by decide)⟩

end Laws

end LocalPlatform.Relay.TraceHeaders
