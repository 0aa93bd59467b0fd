/-
# LocalPlatform.Stage.PriceReceipt — how long an accepted price check stays acceptable.

The receipt of an accepted input is taken apart and put together again: its rates are the texts of the
decimals the input's rates were read to, its time is the text of the time, its reviewer is stripped.  The
second validation makes the same decimals of these texts, the same time and the same reviewer, so what it
computes is the receipt, unless it refuses a text.  It refuses the text of a decimal that is written with
an exponent, which the expression for rates does not admit.
-/
import LocalPlatform.Python.Json
import LocalPlatform.Stage.Price

namespace LocalPlatform.Stage

open LocalPlatform.Python LocalPlatform.Logic

/-! ## What the checks accept -/

theorem decimalRate_eq_ok_iff {value : Value} {name : Str} {d : Decimal} :
    decimalRate value name = .ok d ↔ ∃ s, value = .str s ∧ rateText s = true ∧ Decimal.ofStr s = some d := by
  cases value with
  | str s =>
    show (require _ _ >>= fun _ => _) = _ ↔ _
    rw [bind_eq_ok_iff]
    constructor
    · rintro ⟨_, hrate, hd⟩
      refine ⟨s, rfl, require_eq_ok_iff.mp hrate, ?_⟩
      cases hs : Decimal.ofStr s with
      | none =>
        rw [hs] at hd
        cases hd
      | some e =>
        rw [hs] at hd
        rw [Except.ok.inj hd]
    · rintro ⟨t, ht, hrate, hd⟩
      cases ht
      rw [hd]
      exact ⟨(), require_eq_ok_iff.mpr hrate, rfl⟩
  | _ => exact ⟨nofun, fun ⟨_, h, _⟩ => by cases h⟩

/-- What the expression for rates admits: digits, or digits around a point. -/
theorem rateText_iff {s : Str} : rateText s = true ↔ s.takeWhile isDigit ≠ [] ∧
    (s.dropWhile isDigit = [] ∨ ∃ f, s.dropWhile isDigit = 0x2e :: f ∧ f ≠ [] ∧ f.all isDigit = true) := by
  unfold rateText
  rw [Bool.and_eq_true, bne_iff_ne]
  apply and_congr_right
  intro _
  split
  · next h => simp [h]
  · next f h =>
    rw [h, Bool.and_eq_true, bne_iff_ne]
    constructor
    · rintro ⟨hne, hall⟩
      exact Or.inr ⟨f, rfl, hne, hall⟩
    · rintro (hnil | ⟨g, hg, hne, hall⟩)
      · cases hnil
      · cases hg
        exact ⟨hne, hall⟩
  · next hnil hpoint =>
    constructor
    · nofun
    · rintro (h | ⟨f, h, -⟩)
      · exact absurd h hnil
      · exact absurd h (hpoint f)

/-- An admitted text holds digits and a point. -/
theorem mem_of_rateText {s : Str} (h : rateText s = true) {c : Nat} (hc : c ∈ s) : isDigit c = true ∨ c = 0x2e := by
  obtain ⟨-, hrest⟩ := rateText_iff.mp h
  rw [← List.takeWhile_append_dropWhile (p := isDigit) (l := s)] at hc
  rcases List.mem_append.mp hc with hc | hc
  · exact Or.inl (List.mem_takeWhile_imp hc)
  · rcases hrest with hnil | ⟨f, hf, -, hall⟩
    · rw [hnil] at hc
      cases hc
    · rw [hf] at hc
      rcases List.mem_cons.mp hc with rfl | hc
      · exact Or.inr rfl
      · exact Or.inl (List.all_eq_true.mp hall c hc)

/-- An admitted text is read as a decimal with no power of ten. -/
theorem exponent_nonpos {s : Str} {d : Decimal} (h : rateText s = true) (hd : Decimal.ofStr s = some d) :
    d.exponent ≤ 0 := by
  obtain ⟨hne, hrest⟩ := rateText_iff.mp h
  unfold Decimal.ofStr at hd
  rcases hrest with hnil | ⟨f, hf, -, hall⟩
  · rw [hnil] at hd
    simp only [Decimal.readFraction, Decimal.readExponent, List.append_nil, if_neg hne, Option.map_some] at hd
    rw [← Option.some.inj hd]
    simp
  · have hdrop : f.dropWhile isDigit = [] := by
      rw [List.dropWhile_eq_nil_iff]
      exact List.all_eq_true.mp hall
    have happend : s.takeWhile isDigit ++ f.takeWhile isDigit ≠ [] := fun h => hne (List.append_eq_nil_iff.mp h).1
    rw [hf] at hd
    simp only [Decimal.readFraction, hdrop, Decimal.readExponent, if_neg happend, Option.map_some] at hd
    rw [← Option.some.inj hd]
    simp

/-- **The text of a decimal is admitted unless an exponent is written.** -/
theorem rateText_text (d : Decimal) (h : d.exponent ≤ 0) : rateText d.text = true ↔ d.Ordinary := by
  rw [← Decimal.plain_iff h]
  constructor
  · intro hrate
    cases hplain : d.plain with
    | true => rfl
    | false =>
      have hmem := mem_of_rateText hrate (Decimal.exponent_mem_text hplain)
      exact absurd hmem (by decide)
  · intro hplain
    have hstops : Decimal.Stops [] := fun c hc => by cases hc
    rcases Decimal.text_of_plain hplain with ⟨w, htext, hne, hw, -⟩ | ⟨w, f, htext, hne, hfne, hw, hf, -⟩
    · obtain ⟨htake, hdrop⟩ := Decimal.takeWhile_digits hw hstops
      rw [List.append_nil] at htake hdrop
      rw [htext, rateText_iff, htake, hdrop]
      exact ⟨hne, Or.inl rfl⟩
    · have hpoint : Decimal.Stops (lit "." ++ f) := by
        intro c hc
        cases hc
        rfl
      obtain ⟨htake, hdrop⟩ := Decimal.takeWhile_digits hw hpoint
      rw [htext, List.append_assoc, rateText_iff, htake, hdrop]
      exact ⟨hne, Or.inr ⟨f, rfl, hfne, List.all_eq_true.mpr hf⟩⟩

/-- The time in a text that has one. -/
theorem realUtc_eq_ok_iff {s description : Str} {t : DateTime} : realUtc s description = .ok t ↔ strptime s = .ok t := by
  unfold realUtc
  split
  · next h => simp [h]
  · exact Iff.rfl

/-- A recent time: real, at most five minutes ahead, and not too old; five minutes from now there is a calendar. -/
theorem parseRecentUtc_eq_ok_iff {value : Value} {description : Str} {now checked : DateTime} {age : ℤ} :
    parseRecentUtc value description now age = .ok checked ↔ ∃ s, value = .str s ∧ strptime s = .ok checked ∧
      (now.micros + DateTime.minutes 5 < Codec.Time.calendarDays * dayMicros) ∧
      checked.micros ≤ now.micros + DateTime.minutes 5 ∧ now.sub checked ≤ age := by
  cases value with
  | str s =>
    show (realUtc s description >>= fun _ => _) = _ ↔ _
    simp only [bind_eq_ok_iff, realUtc_eq_ok_iff, require_eq_ok_iff]
    constructor
    · rintro ⟨t, ht, limit, hlimit, _, hahead, _, hage, heq⟩
      cases heq
      have hexists := (DateTime.exists_add_iff (by decide)).mp ⟨limit, hlimit⟩
      rw [DateTime.add_eq_ok_iff] at hlimit
      exact ⟨s, rfl, ht, hexists, by omega, hage⟩
    · rintro ⟨_, heq, ht, hroom, hahead, hage⟩
      cases heq
      obtain ⟨limit, hlimit⟩ := (DateTime.exists_add_iff (by decide)).mpr hroom
      have hmicros := DateTime.add_eq_ok_iff.mp hlimit
      exact ⟨checked, ht, limit, hlimit, (), by omega, (), hage, rfl⟩
  | _ =>
    constructor
    · intro h
      cases h
    · rintro ⟨_, heq, -⟩
      cases heq

/-- What the header has to say. -/
structure Headed (value : Dict) (runId commit region : Str) : Prop where
  schema : (field value (lit "schema_version")).eq (.int 1) = true
  run : field value (lit "run_id") = .str runId
  source : field value (lit "source_commit") = .str commit
  place : field value (lit "region") = .str region
  east : region = lit "us-east-1"
  currency : field value (lit "currency") = .str (lit "USD")
  confirmed : field value (lit "confirmed") = .bool true

theorem checkHeader_eq_ok_iff {value : Dict} {runId commit region : Str} {u : Unit} :
    checkHeader value runId commit region = .ok u ↔ Headed value runId commit region := by
  unfold checkHeader
  simp only [bind_eq_ok_iff, require_eq_ok_iff, Value.eq_str]
  constructor
  · rintro ⟨_, hschema, _, ⟨hrun, hcommit⟩, _, ⟨hregion, hplace⟩, _, hcurrency, hconfirmed⟩
    split at hconfirmed
    · next heq => exact ⟨hschema, hrun, hcommit, hregion, hplace, hcurrency, heq⟩
    · cases hconfirmed
  · rintro ⟨hschema, hrun, hcommit, hregion, hplace, hcurrency, hconfirmed⟩
    rw [hconfirmed]
    exact ⟨(), hschema, (), ⟨hrun, hcommit⟩, (), ⟨hregion, hplace⟩, (), hcurrency, rfl⟩

theorem priceReviewer_eq_ok_iff {value : Dict} {reviewer : Str} : priceReviewer value = .ok reviewer ↔
    field value (lit "checked_by") = .str reviewer ∧ Str.strip reviewer ≠ [] ∧ 0x0a ∉ reviewer := by
  unfold priceReviewer
  constructor
  · intro h
    split at h
    · next s heq =>
      obtain ⟨_, hnamed, hs⟩ := bind_eq_ok_iff.mp h
      cases hs
      exact ⟨heq, require_eq_ok_iff.mp hnamed⟩
    · cases h
  · rintro ⟨heq, hnamed⟩
    rw [heq]
    exact bind_eq_ok_iff.mpr ⟨(), require_eq_ok_iff.mpr hnamed, rfl⟩

theorem validatePriceInput_eq_ok_iff {value receipt : Dict} {runId commit region : Str} {now : DateTime} :
    validatePriceInput value runId commit region now = .ok receipt ↔ Headed value runId commit region ∧
      ∃ reviewer, priceReviewer value = .ok reviewer ∧
      ∃ checked, parseCheckedAt (field value (lit "checked_at")) now = .ok checked ∧
      (field value (lit "sources")).eq (.dict priceSources) = true ∧
      ∃ parsed, parsedRates value = .ok parsed ∧
        priceReceipt runId commit region checked reviewer parsed = .ok receipt := by
  unfold validatePriceInput checkSources
  simp only [bind_eq_ok_iff, require_eq_ok_iff, checkHeader_eq_ok_iff]
  constructor
  · rintro ⟨_, hheaded, reviewer, hreviewer, checked, hchecked, _, hsources, parsed, hparsed, hreceipt⟩
    exact ⟨hheaded, reviewer, hreviewer, checked, hchecked, hsources, parsed, hparsed, hreceipt⟩
  · rintro ⟨hheaded, reviewer, hreviewer, checked, hchecked, hsources, parsed, hparsed, hreceipt⟩
    exact ⟨(), hheaded, reviewer, hreviewer, checked, hchecked, (), hsources, parsed, hparsed, hreceipt⟩

/-! ## Rates and items -/

theorem parsedRates_eq_ok_iff {value : Dict} {parsed : List (Str × Decimal)} : parsedRates value = .ok parsed ↔
    ∃ rates, field value (lit "rates") = .dict rates ∧
      ((∀ p ∈ rates, p.1 ∈ priceRateNames) ∧ ∀ name ∈ priceRateNames, name ∈ rates.map Prod.fst) ∧
      rates.mapM parsedRate = .ok parsed := by
  unfold parsedRates
  constructor
  · intro h
    split at h
    · next rates heq =>
      obtain ⟨_, hnames, hparsed⟩ := bind_eq_ok_iff.mp h
      exact ⟨rates, heq, require_eq_ok_iff.mp hnames, hparsed⟩
    · cases h
  · rintro ⟨rates, heq, hnames, hparsed⟩
    rw [heq]
    exact bind_eq_ok_iff.mpr ⟨(), require_eq_ok_iff.mpr hnames, hparsed⟩

theorem parsedRate_eq_ok_iff {p : Str × Value} {q : Str × Decimal} :
    parsedRate p = .ok q ↔ q.1 = p.1 ∧ decimalRate p.2 p.1 = .ok q.2 := by
  unfold parsedRate
  rw [bind_eq_ok_iff]
  constructor
  · rintro ⟨d, hd, heq⟩
    cases heq
    exact ⟨rfl, hd⟩
  · rintro ⟨hname, hd⟩
    refine ⟨q.2, hd, ?_⟩
    rw [← hname]
    rfl

/-- The decimal kept under a name is read from the first rate with it. -/
theorem lookup_parsed {rates : Dict} {parsed : List (Str × Decimal)} (h : rates.mapM parsedRate = .ok parsed)
    (name : Str) (d : Decimal) :
    parsed.lookup name = some d ↔ ∃ v, rates.lookup name = some v ∧ decimalRate v name = .ok d := by
  induction rates generalizing parsed with
  | nil =>
    cases h
    simp
  | cons p rates ih =>
    rw [List.mapM_cons] at h
    obtain ⟨⟨name', d'⟩, hq, hrest⟩ := bind_eq_ok_iff.mp h
    obtain ⟨parsed', hparsed, heq⟩ := bind_eq_ok_iff.mp hrest
    obtain ⟨rfl, hd⟩ := parsedRate_eq_ok_iff.mp hq
    rw [← Except.ok.inj heq]
    obtain ⟨name', v⟩ := p
    by_cases hname : name = name'
    · subst hname
      rw [List.lookup_cons_self, List.lookup_cons_self]
      constructor
      · intro he
        rw [← Option.some.inj he]
        exact ⟨v, rfl, hd⟩
      · rintro ⟨w, hw, he⟩
        cases hw
        rw [← Except.ok.inj (hd.symm.trans he)]
    · rw [List.lookup_cons, List.lookup_cons, beq_false_of_ne hname]
      exact ih hparsed

/-- The rate of a component. -/
def rateOf (parsed : List (Str × Decimal)) (c : Component) : Decimal := (parsed.lookup c.rateName).getD ⟨0, 0⟩

theorem rateName_mem : ∀ c ∈ components, c.rateName ∈ priceRateNames := by decide

theorem rateNames : components.map Component.rateName = priceRateNames := rfl

theorem rateNames_nodup : priceRateNames.Nodup := by decide

/-- An accepted input has a rate for every component. -/
theorem lookup_rateOf {value : Dict} {parsed : List (Str × Decimal)} (h : parsedRates value = .ok parsed)
    {c : Component} (hc : c ∈ components) : parsed.lookup c.rateName = some (rateOf parsed c) := by
  obtain ⟨rates, -, ⟨-, hevery⟩, hparsed⟩ := parsedRates_eq_ok_iff.mp h
  obtain ⟨p, hp, hname⟩ := List.mem_map.mp (hevery c.rateName (rateName_mem c hc))
  obtain ⟨v, hv⟩ : ∃ v, rates.lookup c.rateName = some v := by
    rw [← Option.isSome_iff_exists, List.lookup_isSome_iff]
    exact ⟨p, hp, by rw [hname]; exact beq_self_eq_true _⟩
  have hmem : (c.rateName, v) ∈ rates := by
    obtain ⟨l₁, l₂, heq, -⟩ := List.lookup_eq_some_iff.mp hv
    rw [heq]
    exact List.mem_append_right _ List.mem_cons_self
  obtain ⟨q, hq⟩ := mapM_ok_of_mem hparsed hmem
  have hd := (lookup_parsed hparsed c.rateName q.2).mpr ⟨v, hv, (parsedRate_eq_ok_iff.mp hq).2⟩
  unfold rateOf
  rw [hd]
  rfl

/-- What the receipt keeps of a rate. -/
def keptRate (parsed : List (Str × Decimal)) (c : Component) : Str × Value :=
  (c.rateName, .str (rateOf parsed c).text)

theorem eq_itemFields {parsed : List (Str × Decimal)} {c : Component} {item : Value} (h : priceItem parsed c = .ok item) :
    ∃ hourly, item = .dict (itemFields c (rateOf parsed c) hourly) := by
  unfold priceItem at h
  split at h
  · next rate hrate =>
    obtain ⟨_, -, h⟩ := bind_eq_ok_iff.mp h
    obtain ⟨hourly, -, h⟩ := bind_eq_ok_iff.mp h
    refine ⟨hourly, ?_⟩
    rw [← Except.ok.inj h, rateOf, hrate]
    rfl
  · cases h

/-- An item that still says which rate it has, and its text. -/
def Keeps (f : Value → Value) : Prop :=
  ∀ c ∈ components, ∀ rate hourly : Decimal, ∃ d, f (.dict (itemFields c rate hourly)) = .dict d ∧
    field d (lit "rate_name") = .str c.rateName ∧ field d (lit "rate_usd") = .str rate.text

/-- **The rates in the items of a receipt** are the texts of the rates the items were made of. -/
theorem itemRates_items {parsed : List (Str × Decimal)} {f : Value → Value} (hf : Keeps f) {cs : List Component}
    (hcs : ∀ c ∈ cs, c ∈ components) {items : List Value} (h : cs.mapM (priceItem parsed) = .ok items) {rates : Dict}
    (hnodup : (rates.map Prod.fst ++ cs.map Component.rateName).Nodup) :
    itemRates (items.map f) rates = .ok (rates ++ cs.map (keptRate parsed)) := by
  induction cs generalizing items rates with
  | nil =>
    obtain rfl : items = [] := (Except.ok.inj h).symm
    rw [List.map_nil, List.map_nil, List.append_nil]
    rfl
  | cons c cs ih =>
    rw [List.mapM_cons] at h
    obtain ⟨item, hitem, hrest⟩ := bind_eq_ok_iff.mp h
    obtain ⟨items', hitems, heq⟩ := bind_eq_ok_iff.mp hrest
    rw [← Except.ok.inj heq, List.map_cons]
    obtain ⟨hourly, rfl⟩ := eq_itemFields hitem
    obtain ⟨d, hd, hname, husd⟩ := hf c (hcs c List.mem_cons_self) (rateOf parsed c) hourly
    have hfresh : c.rateName ∉ rates.map Prod.fst := by
      rw [List.map_cons, List.nodup_append] at hnodup
      intro hmem
      exact hnodup.2.2 _ hmem c.rateName List.mem_cons_self rfl
    have hnodup' : ((rates ++ [keptRate parsed c]).map Prod.fst ++ cs.map Component.rateName).Nodup := by
      rw [List.map_append, List.append_assoc]
      exact hnodup
    have hnext := ih (fun c hc => hcs c (List.mem_cons_of_mem _ hc)) hitems hnodup'
    rw [List.append_assoc] at hnext
    rw [hd]
    unfold itemRates
    simp only [hname, husd]
    rw [require_pos hfresh]
    exact hnext

/-! ## The receipt -/

theorem priceReceipt_eq_ok_iff {runId commit region reviewer : Str} {checked : DateTime}
    {parsed : List (Str × Decimal)} {receipt : Dict} :
    priceReceipt runId commit region checked reviewer parsed = .ok receipt ↔
      ∃ items, components.mapM (priceItem parsed) = .ok items ∧
      ∃ total, items.foldlM (fun total item => do total.add (← hourlyUsd item)) (⟨0, 0⟩ : Decimal) = .ok total ∧
        total.gt maximumHourlyUsd = false ∧ receipt = receiptValue runId commit region checked reviewer items total := by
  unfold priceReceipt
  simp only [bind_eq_ok_iff, require_eq_ok_iff]
  constructor
  · rintro ⟨items, hitems, total, htotal, _, hlimit, heq⟩
    exact ⟨items, hitems, total, htotal, hlimit, (Except.ok.inj heq).symm⟩
  · rintro ⟨items, hitems, total, htotal, hlimit, rfl⟩
    exact ⟨items, hitems, total, htotal, (), hlimit, rfl⟩

/-- The receipt depends on the rates under the names of the components, and on the stripped reviewer. -/
theorem priceReceipt_congr {runId commit region reviewer reviewer' : Str} {checked : DateTime}
    {parsed parsed' : List (Str × Decimal)}
    (h : ∀ c ∈ components, parsed.lookup c.rateName = parsed'.lookup c.rateName)
    (hreviewer : Str.strip reviewer = Str.strip reviewer') :
    priceReceipt runId commit region checked reviewer parsed = priceReceipt runId commit region checked reviewer' parsed' := by
  have hitem : ∀ c ∈ components, priceItem parsed c = priceItem parsed' c := by
    intro c hc
    unfold priceItem
    rw [h c hc]
  unfold priceReceipt receiptValue
  rw [mapM_congr hitem, hreviewer]

/-- The rates of a receipt, read again. -/
theorem mapM_keptRate {parsed : List (Str × Decimal)}
    (h : ∀ c ∈ components, (rateOf parsed c).exponent ≤ 0 ∧ (rateOf parsed c).Ordinary) :
    (components.map (keptRate parsed)).mapM parsedRate = .ok (components.map fun c => (c.rateName, rateOf parsed c)) := by
  rw [List.mapM_map]
  apply mapM_ok
  intro c hc
  obtain ⟨hexp, hord⟩ := h c hc
  have hrate : decimalRate (.str (rateOf parsed c).text) c.rateName = .ok (rateOf parsed c) :=
    decimalRate_eq_ok_iff.mpr ⟨_, rfl, (rateText_text _ hexp).mpr hord, Decimal.ofStr_text _⟩
  exact parsedRate_eq_ok_iff.mpr ⟨rfl, hrate⟩

/-- The decimal of a component in a list of them. -/
theorem lookup_components {parsed : List (Str × Decimal)} {c : Component} (hc : c ∈ components) :
    (components.map fun c => (c.rateName, rateOf parsed c)).lookup c.rateName = some (rateOf parsed c) := by
  rw [lookup_eq_some_iff_mem]
  · exact List.mem_map.mpr ⟨c, hc, rfl⟩
  · rw [List.map_map]
    exact rateNames_nodup

/-- The rates of an accepted input have no power of ten. -/
theorem exponent_rateOf {value : Dict} {parsed : List (Str × Decimal)} (h : parsedRates value = .ok parsed)
    {c : Component} (hc : c ∈ components) : (rateOf parsed c).exponent ≤ 0 := by
  obtain ⟨rates, -, -, hparsed⟩ := parsedRates_eq_ok_iff.mp h
  obtain ⟨v, -, hrate⟩ := (lookup_parsed hparsed _ _).mp (lookup_rateOf h hc)
  obtain ⟨s, -, hs, hd⟩ := decimalRate_eq_ok_iff.mp hrate
  exact exponent_nonpos hs hd

/-! ## Checking it again -/

theorem revalidatePriceReceipt_eq_ok_iff {r e : Dict} {runId commit region : Str} {now : DateTime} :
    revalidatePriceReceipt r runId commit region now = .ok e ↔ ∃ items rates,
      field r (lit "items") = .list items ∧ itemRates items [] = .ok rates ∧
      validatePriceInput (receiptInput r rates) runId commit region now = .ok e ∧
      (Value.dict e).eq (.dict r) = true := by
  unfold revalidatePriceReceipt
  constructor
  · intro h
    split at h
    · next items heq =>
      simp only [bind_eq_ok_iff, require_eq_ok_iff] at h
      obtain ⟨rates, hrates, expected, hexpected, _, hsame, hok⟩ := h
      cases hok
      exact ⟨items, rates, heq, hrates, hexpected, hsame⟩
    · cases h
  · rintro ⟨items, rates, heq, hrates, hexpected, hsame⟩
    rw [heq]
    simp only [bind_eq_ok_iff, require_eq_ok_iff]
    exact ⟨rates, hrates, e, hexpected, (), hsame, rfl⟩

/-- What a receipt has to hold for the second validation to find the first one's input in it. -/
structure Holds (r : Dict) (runId commit region : Str) (checked : DateTime) (reviewer : Str)
    (parsed : List (Str × Decimal)) : Prop where
  items : ∃ items, field r (lit "items") = .list items ∧ itemRates items [] = .ok (components.map (keptRate parsed))
  schema : field r (lit "schema_version") = .int 1
  run : field r (lit "run_id") = .str runId
  source : field r (lit "source_commit") = .str commit
  place : field r (lit "region") = .str region
  currency : field r (lit "currency") = .str (lit "USD")
  checkedAt : field r (lit "checked_at") = .str checked.strftime
  checkedBy : field r (lit "checked_by") = .str reviewer
  sources : (field r (lit "sources")).eq (.dict priceSources) = true

/-- When a time counts as recent. -/
def Recent (checked now : DateTime) : Prop :=
  now.micros + DateTime.minutes 5 < Codec.Time.calendarDays * dayMicros ∧
    checked.micros ≤ now.micros + DateTime.minutes 5 ∧ now.sub checked ≤ DateTime.hours 24

theorem parseCheckedAt_eq_ok_iff {value : Value} {now checked : DateTime} :
    parseCheckedAt value now = .ok checked ↔ ∃ s, value = .str s ∧ strptime s = .ok checked ∧ Recent checked now :=
  parseRecentUtc_eq_ok_iff

/-- **The second validation computes the receipt of the first one.** -/
theorem revalidate_eq {value r receipt : Dict} {runId commit region reviewer : Str} {checked now : DateTime}
    {parsed : List (Str × Decimal)} (hr : Holds r runId commit region checked (Str.strip reviewer) parsed)
    (heast : region = lit "us-east-1") (hnamed : Str.strip reviewer ≠ [] ∧ 0x0a ∉ reviewer)
    (hreal : strptime checked.strftime = .ok checked) (hrecent : Recent checked now)
    (hparsed : parsedRates value = .ok parsed) (hord : ∀ c ∈ components, (rateOf parsed c).Ordinary)
    (hreceipt : priceReceipt runId commit region checked reviewer parsed = .ok receipt)
    (hsame : (Value.dict receipt).eq (.dict r) = true) :
    revalidatePriceReceipt r runId commit region now = .ok receipt := by
  obtain ⟨items, hitems, hrates⟩ := hr.items
  rw [revalidatePriceReceipt_eq_ok_iff]
  -- the input the receipt stands for is accepted again, and gives the same receipt
  refine ⟨items, _, hitems, hrates, ?_, hsame⟩
  rw [validatePriceInput_eq_ok_iff]
  refine ⟨?_, Str.strip reviewer, ?_, checked, ?_, hr.sources, components.map fun c => (c.rateName, rateOf parsed c),
    ?_, ?_⟩
  · exact ⟨by
      show (field r (lit "schema_version")).eq (.int 1) = true
      rw [hr.schema]
      rfl, hr.run, hr.source, hr.place, heast, hr.currency, rfl⟩
  · rw [priceReviewer_eq_ok_iff, Str.strip_strip]
    exact ⟨hr.checkedBy, hnamed.1, fun hmem => hnamed.2 (Str.mem_of_mem_strip hmem)⟩
  · exact parseCheckedAt_eq_ok_iff.mpr ⟨_, hr.checkedAt, hreal, hrecent⟩
  · rw [parsedRates_eq_ok_iff]
    refine ⟨_, rfl, ?_, mapM_keptRate fun c hc => ⟨exponent_rateOf hparsed hc, hord c hc⟩⟩
    have hnames : (components.map (keptRate parsed)).map Prod.fst = priceRateNames := rateNames
    constructor
    · intro p hp
      rw [← hnames]
      exact List.mem_map.mpr ⟨p, hp, rfl⟩
    · intro name hname
      rw [hnames]
      exact hname
  · rw [← hreceipt]
    apply priceReceipt_congr
    · intro c hc
      rw [lookup_components hc, lookup_rateOf hparsed hc]
    · exact Str.strip_strip reviewer

/-! ## The receipt as it is handed on -/

/-- The receipt as it is read back from its file. -/
def back (receipt : Dict) : Dict := (receipt.mergeSort Json.byKey).map fun p => (p.1, Json.readBack p.2)

theorem field_back {receipt : Dict} (h : (receipt.map Prod.fst).Nodup) (key : Str) :
    field (back receipt) key = Json.readBack (field receipt key) := by
  unfold field back
  rw [Json.lookup_sorted h]
  cases receipt.lookup key with
  | none => rfl
  | some v => rfl

theorem intact_decimal (d : Decimal) : Json.Intact d.text := Json.intact_of_ascii fun _ => Decimal.ascii_text

/-- A string of ASCII. -/
def asciiText : Value → Bool
  | .str s => s.all fun c => decide (c < 0x80)
  | _ => false

theorem asciiText_str {s : Str} (h : ∀ c ∈ s, c < 0x80) : asciiText (.str s) = true :=
  List.all_eq_true.mpr fun c hc => decide_eq_true (h c hc)

/-- A dictionary of ASCII strings under ASCII keys. -/
theorem faithful_texts {d : Dict} (hkeys : ∀ p ∈ d, ∀ c ∈ p.1, c < 0x80) (hnodup : (d.map Prod.fst).Nodup)
    (h : ∀ p ∈ d, asciiText p.2 = true) : Json.Faithful (.dict d) := by
  refine .dict d (fun p hp => Json.intact_of_ascii (hkeys p hp)) hnodup ?_
  intro p hp
  have hp := h p hp
  unfold asciiText at hp
  split at hp
  · next s heq =>
    rw [heq]
    exact .str s (Json.intact_of_ascii fun c hc => of_decide_eq_true (List.all_eq_true.mp hp c hc))
  · cases hp

theorem faithful_sources : Json.Faithful (.dict priceSources) :=
  faithful_texts (by decide +kernel) (by decide) (by decide +kernel)

/-- The texts of the components are ASCII. -/
theorem ascii_component : ∀ c ∈ components, asciiText (.str c.label) = true ∧ asciiText (.str c.rateName) = true ∧
    asciiText (.str c.unit) = true ∧ asciiText ((priceSources.lookup c.source).getD .null) = true := by
  decide +kernel

theorem ascii_decimal (d : Decimal) : asciiText (.str d.text) = true := asciiText_str fun _ => Decimal.ascii_text

/-- The keys of an item. -/
def itemKeys : List Str :=
  [lit "item", lit "rate_name", lit "rate_usd", lit "rate_unit", lit "quantity", lit "hourly_divisor",
    lit "hourly_usd", lit "source"]

theorem keys_itemFields (c : Component) (rate hourly : Decimal) : (itemFields c rate hourly).map Prod.fst = itemKeys := rfl

theorem itemKeys_nodup : itemKeys.Nodup := by decide

theorem ascii_itemKeys : ∀ k ∈ itemKeys, ∀ c ∈ k, c < 0x80 := by decide

theorem faithful_item {c : Component} (hc : c ∈ components) (rate hourly : Decimal) :
    Json.Faithful (.dict (itemFields c rate hourly)) := by
  obtain ⟨hlabel, hname, hunit, hsource⟩ := ascii_component c hc
  apply faithful_texts
  · intro p hp
    apply ascii_itemKeys
    rw [← keys_itemFields c rate hourly]
    exact List.mem_map.mpr ⟨p, hp, rfl⟩
  · rw [keys_itemFields]
    exact itemKeys_nodup
  · unfold itemFields
    simp only [List.forall_mem_cons]
    exact ⟨hlabel, hname, ascii_decimal rate, hunit, ascii_decimal _, ascii_decimal _, ascii_decimal hourly, hsource,
      fun p hp => absurd hp List.not_mem_nil⟩

/-- The items of a receipt. -/
theorem faithful_items {parsed : List (Str × Decimal)} {items : List Value}
    (h : components.mapM (priceItem parsed) = .ok items) : Json.Faithful (.list items) := by
  refine .list _ fun x hx => ?_
  obtain ⟨c, hc, hitem⟩ := exists_of_mem_mapM h hx
  obtain ⟨hourly, rfl⟩ := eq_itemFields hitem
  exact faithful_item hc _ _

/-- The keys of a receipt. -/
def receiptKeys : List Str :=
  [lit "schema_version", lit "run_id", lit "source_commit", lit "region", lit "currency", lit "checked_at",
    lit "checked_by", lit "sources", lit "items", lit "total_hourly_usd", lit "maximum_hourly_usd",
    lit "maximum_total_usd", lit "gate"]

theorem keys_receiptValue (runId commit region : Str) (checked : DateTime) (reviewer : Str) (items : List Value)
    (total : Decimal) : (receiptValue runId commit region checked reviewer items total).map Prod.fst = receiptKeys := rfl

theorem receiptKeys_nodup : receiptKeys.Nodup := by decide

theorem ascii_receiptKeys : ∀ k ∈ receiptKeys, ∀ c ∈ k, c < 0x80 := by decide

section Values

variable {runId commit region reviewer : Str} {checked : DateTime} {parsed : List (Str × Decimal)} {items : List Value}
  {total : Decimal}

theorem intact_receiptKeys : ∀ p ∈ receiptValue runId commit region checked reviewer items total, Json.Intact p.1 := by
  intro p hp
  apply Json.intact_of_ascii
  apply ascii_receiptKeys
  rw [← keys_receiptValue runId commit region checked reviewer items total]
  exact List.mem_map.mpr ⟨p, hp, rfl⟩

/-- The values of a receipt: the texts the caller and the reviewer chose, and what is faithful. -/
theorem forall_receiptValue {P : Value → Prop} (hrun : P (.str runId)) (hcommit : P (.str commit))
    (hreviewer : P (.str (Str.strip reviewer))) (hrest : ∀ v, Json.Faithful v → P v) (heast : region = lit "us-east-1")
    (hitems : components.mapM (priceItem parsed) = .ok items) :
    ∀ p ∈ receiptValue runId commit region checked reviewer items total, P p.2 := by
  have htext : ∀ s, (∀ c ∈ s, c < 0x80) → P (.str s) := fun s h => hrest _ (.str s (Json.intact_of_ascii h))
  have hdecimal : ∀ d : Decimal, P (.str d.text) := fun d => htext _ fun _ => Decimal.ascii_text
  have hgate : Json.Faithful (.dict [(lit "passed", .bool true), (lit "failures", .list [])]) := by
    refine .dict _ (fun p hp => Json.intact_of_ascii ?_) (by decide) ?_
    · have hkeys : ∀ q ∈ [lit "passed", lit "failures"], ∀ c ∈ q, c < 0x80 := by decide
      exact hkeys _ (List.mem_map.mpr ⟨p, hp, rfl⟩)
    · simp only [List.forall_mem_cons]
      exact ⟨.bool true, .list [] fun _ h => absurd h List.not_mem_nil, fun _ h => absurd h List.not_mem_nil⟩
  unfold receiptValue
  simp only [List.forall_mem_cons]
  refine ⟨hrest _ (.int 1 (by decide)), hrun, hcommit, htext _ ?_, htext _ (by decide), htext _ checked.ascii_strftime,
    hreviewer, hrest _ faithful_sources, hrest _ (faithful_items hitems), hdecimal _, hdecimal _, hdecimal _,
    hrest _ hgate, fun _ h => absurd h List.not_mem_nil⟩
  rw [heast]
  decide

theorem writable_receiptValue (hrun : Json.CodePoints runId) (hcommit : Json.CodePoints commit)
    (hreviewer : Json.CodePoints reviewer) (heast : region = lit "us-east-1")
    (hitems : components.mapM (priceItem parsed) = .ok items) :
    Json.Writable (.dict (receiptValue runId commit region checked reviewer items total)) := by
  have hstrip : Json.CodePoints (Str.strip reviewer) := fun c hc => hreviewer c (Str.mem_of_mem_strip hc)
  exact .dict _ intact_receiptKeys receiptKeys_nodup
    (forall_receiptValue (.str _ hrun) (.str _ hcommit) (.str _ hstrip) (fun _ h => h.writable) heast hitems)

theorem faithful_receiptValue (hrun : Json.Intact runId) (hcommit : Json.Intact commit)
    (hreviewer : Json.Intact (Str.strip reviewer)) (heast : region = lit "us-east-1")
    (hitems : components.mapM (priceItem parsed) = .ok items) :
    Json.Faithful (.dict (receiptValue runId commit region checked reviewer items total)) :=
  .dict _ intact_receiptKeys receiptKeys_nodup
    (forall_receiptValue (.str _ hrun) (.str _ hcommit) (.str _ hreviewer) (fun _ h => h) heast hitems)

end Values

/-! ## What a receipt holds -/

theorem keeps_id : Keeps id := fun _ _ _ _ => ⟨_, rfl, rfl, rfl⟩

theorem keeps_readBack : Keeps Json.readBack := by
  intro c hc rate hourly
  have hnodup : ((itemFields c rate hourly).map Prod.fst).Nodup := by
    rw [keys_itemFields]
    exact itemKeys_nodup
  have hname : ∀ x ∈ c.rateName, x < 0x80 := by
    have hname := (ascii_component c hc).2.1
    exact fun x hx => of_decide_eq_true (List.all_eq_true.mp hname x hx)
  refine ⟨_, Json.readBack_dict _, ?_, ?_⟩
  · exact (field_back hnodup _).trans (Json.readBack_str (Json.intact_of_ascii hname))
  · exact (field_back hnodup _).trans (Json.readBack_str (intact_decimal rate))

section Holding

variable {runId commit region reviewer : Str} {checked : DateTime} {parsed : List (Str × Decimal)} {items : List Value}
  {total : Decimal}

theorem itemRates_kept {f : Value → Value} (hf : Keeps f) (hitems : components.mapM (priceItem parsed) = .ok items) :
    itemRates (items.map f) [] = .ok (components.map (keptRate parsed)) :=
  itemRates_items hf (fun _ h => h) hitems rateNames_nodup

theorem holds_receipt (hitems : components.mapM (priceItem parsed) = .ok items) :
    Holds (receiptValue runId commit region checked reviewer items total) runId commit region checked
      (Str.strip reviewer) parsed where
  items := by
    have hrates := itemRates_kept keeps_id hitems
    rw [List.map_id] at hrates
    exact ⟨items, rfl, hrates⟩
  schema := rfl
  run := rfl
  source := rfl
  place := rfl
  currency := rfl
  checkedAt := rfl
  checkedBy := rfl
  sources := (Value.eq_dict _ _).trans (Json.same_self faithful_sources.writable)

theorem field_backReceipt (key : Str) : field (back (receiptValue runId commit region checked reviewer items total)) key =
    Json.readBack (field (receiptValue runId commit region checked reviewer items total) key) := by
  apply field_back
  rw [keys_receiptValue]
  exact receiptKeys_nodup

/-- Read back, a receipt holds the same where its texts come back as they were. -/
theorem holds_back (hrun : Json.Intact runId) (hcommit : Json.Intact commit) (hreviewer : Json.Intact (Str.strip reviewer))
    (heast : region = lit "us-east-1") (hitems : components.mapM (priceItem parsed) = .ok items) :
    Holds (back (receiptValue runId commit region checked reviewer items total)) runId commit region checked
      (Str.strip reviewer) parsed where
  items := by
    refine ⟨items.map Json.readBack, ?_, itemRates_kept keeps_readBack hitems⟩
    rw [field_backReceipt]
    show Value.list (Json.readBackAll items) = _
    rw [Json.readBackAll_eq_map]
  schema := field_backReceipt _
  run := (field_backReceipt _).trans (Json.readBack_str hrun)
  source := (field_backReceipt _).trans (Json.readBack_str hcommit)
  place := by
    apply (field_backReceipt _).trans
    apply Json.readBack_str
    rw [heast]
    exact Json.intact_of_ascii (by decide)
  currency := (field_backReceipt _).trans (Json.readBack_str (Json.intact_of_ascii (by decide)))
  checkedAt := (field_backReceipt _).trans (Json.readBack_str (Json.intact_of_ascii checked.ascii_strftime))
  checkedBy := (field_backReceipt _).trans (Json.readBack_str hreviewer)
  sources := by
    rw [field_backReceipt]
    show (Json.readBack (.dict priceSources)).eq _ = true
    have hsame := Json.readBack_same faithful_sources
    rw [Json.readBack_dict] at hsame ⊢
    exact (Value.eq_dict _ _).trans hsame

end Holding

/-! ## How long a receipt is good -/

/-- The check time of an input. -/
def CheckedAt (value : Dict) (checked : DateTime) : Prop :=
  ∃ s, field value (lit "checked_at") = .str s ∧ strptime s = .ok checked

/-- A receipt handed in at a time is accepted, and what is recomputed equals the original. -/
def AcceptedAgain (original handed : Dict) (runId commit region : Str) (now : DateTime) : Prop :=
  ∃ expected, revalidatePriceReceipt handed runId commit region now = .ok expected ∧
    (Value.dict expected).eq (.dict original) = true

/-- From the acceptance of the input until the check is 24 hours old the receipt is accepted, as it was returned and
as it is read back from its file. -/
def StaysAcceptable (value receipt : Dict) (runId commit region : Str) (now : DateTime) : Prop :=
  ∀ checked t : DateTime, CheckedAt value checked → now.micros ≤ t.micros → t.sub checked ≤ DateTime.hours 24 →
    AcceptedAgain receipt receipt runId commit region t ∧
    ∃ handed, Json.loads (Json.dumps (.dict receipt) ++ lit "\n") = .ok (.dict handed) ∧
      AcceptedAgain receipt handed runId commit region t

/-- What the second validation relies on: rates written without an exponent, texts that come back from JSON as they
were, and a calendar that reaches five minutes beyond the last moment. -/
structure Lasting (value : Dict) (runId commit : Str) : Prop where
  rates : ∀ rates, field value (lit "rates") = .dict rates → ∀ name ∈ priceRateNames, ∀ s, field rates name = .str s →
    ∀ d, Decimal.ofStr s = some d → d.Ordinary
  run : Json.pairUp runId = runId
  source : Json.pairUp commit = commit
  reviewer : ∀ s, field value (lit "checked_by") = .str s → Json.pairUp (Str.strip s) = Str.strip s
  room : ∀ checked, CheckedAt value checked →
    checked.micros + DateTime.hours 24 + DateTime.minutes 5 < Codec.Time.calendarDays * dayMicros

theorem loads_receipt {receipt : Dict} (h : Json.Writable (.dict receipt)) :
    Json.loads (Json.dumps (.dict receipt) ++ lit "\n") = .ok (.dict (back receipt)) := by
  rw [Json.loads_dumps h, Json.readBack_dict]
  rfl

/-- The rate a component takes from an accepted input. -/
theorem ofStr_rateOf {value : Dict} {parsed : List (Str × Decimal)} (h : parsedRates value = .ok parsed) {rates : Dict}
    (hrates : field value (lit "rates") = .dict rates) {c : Component} (hc : c ∈ components) :
    ∃ s, field rates c.rateName = .str s ∧ Decimal.ofStr s = some (rateOf parsed c) := by
  obtain ⟨rates', heq, -, hparsed⟩ := parsedRates_eq_ok_iff.mp h
  cases hrates.symm.trans heq
  obtain ⟨v, hv, hrate⟩ := (lookup_parsed hparsed _ _).mp (lookup_rateOf h hc)
  obtain ⟨s, rfl, -, hd⟩ := decimalRate_eq_ok_iff.mp hrate
  refine ⟨s, ?_, hd⟩
  unfold field
  rw [hv]
  rfl

/-- The rates are ordinary, in the input or in what was parsed of it. -/
theorem ordinary_iff {value : Dict} {parsed : List (Str × Decimal)} (h : parsedRates value = .ok parsed) :
    (∀ rates, field value (lit "rates") = .dict rates → ∀ name ∈ priceRateNames, ∀ s, field rates name = .str s →
      ∀ d, Decimal.ofStr s = some d → d.Ordinary) ↔ ∀ c ∈ components, (rateOf parsed c).Ordinary := by
  constructor
  · intro hall c hc
    obtain ⟨rates, hrates, -⟩ := parsedRates_eq_ok_iff.mp h
    obtain ⟨s, hs, hd⟩ := ofStr_rateOf h hrates hc
    exact hall rates hrates _ (rateName_mem c hc) s hs _ hd
  · intro hall rates hrates name hname s hs d hd
    rw [← rateNames] at hname
    obtain ⟨c, hc, rfl⟩ := List.mem_map.mp hname
    obtain ⟨s', hs', hd'⟩ := ofStr_rateOf h hrates hc
    cases hs.symm.trans hs'
    cases hd.symm.trans hd'
    exact hall c hc

/-- How an accepted input became its receipt. -/
structure Accepted (value receipt : Dict) (runId commit region : Str) (now : DateTime) (reviewer : Str)
    (checked : DateTime) (parsed : List (Str × Decimal)) (items : List Value) (total : Decimal) : Prop where
  headed : Headed value runId commit region
  reviewed : field value (lit "checked_by") = .str reviewer
  named : Str.strip reviewer ≠ [] ∧ 0x0a ∉ reviewer
  checkedAt : CheckedAt value checked
  recent : Recent checked now
  rates : parsedRates value = .ok parsed
  made : priceReceipt runId commit region checked reviewer parsed = .ok receipt
  listed : components.mapM (priceItem parsed) = .ok items
  returned : receipt = receiptValue runId commit region checked reviewer items total

theorem exists_accepted {value receipt : Dict} {runId commit region : Str} {now : DateTime}
    (h : validatePriceInput value runId commit region now = .ok receipt) :
    ∃ reviewer checked parsed items total,
      Accepted value receipt runId commit region now reviewer checked parsed items total := by
  obtain ⟨hheaded, reviewer, hreviewer, checked, hchecked, -, parsed, hparsed, hmade⟩ := validatePriceInput_eq_ok_iff.mp h
  obtain ⟨hreviewed, hnamed⟩ := priceReviewer_eq_ok_iff.mp hreviewer
  obtain ⟨s, hs, htime, hrecent⟩ := parseCheckedAt_eq_ok_iff.mp hchecked
  obtain ⟨items, hitems, total, -, -, hreceipt⟩ := priceReceipt_eq_ok_iff.mp hmade
  exact ⟨reviewer, checked, parsed, items, total, hheaded, hreviewed, hnamed, ⟨s, hs, htime⟩, hrecent, hparsed, hmade,
    hitems, hreceipt⟩

section Lasting

variable {value receipt : Dict} {runId commit region reviewer : Str} {now checked : DateTime}
  {parsed : List (Str × Decimal)} {items : List Value} {total : Decimal}

theorem CheckedAt.unique {t u : DateTime} (ht : CheckedAt value t) (hu : CheckedAt value u) : t = u := by
  obtain ⟨s, hs, ht⟩ := ht
  obtain ⟨s', hs', hu⟩ := hu
  cases hs.symm.trans hs'
  exact Except.ok.inj (ht.symm.trans hu)

/-- The text of the check time is read back as the check time. -/
theorem CheckedAt.real (h : CheckedAt value checked) : strptime checked.strftime = .ok checked := by
  obtain ⟨s, -, hs⟩ := h
  exact DateTime.strptime_strftime_of_strptime hs

theorem staysAcceptable_of_lasting (ha : Accepted value receipt runId commit region now reviewer checked parsed items total)
    (hrun : Json.CodePoints runId) (hcommit : Json.CodePoints commit) (hreviewer : Json.CodePoints reviewer)
    (hl : Lasting value runId commit) : StaysAcceptable value receipt runId commit region now := by
  intro checked' t hchecked' hle hage
  obtain rfl := ha.checkedAt.unique hchecked'
  have hord := (ordinary_iff ha.rates).mp hl.rates
  -- at `t` the check is neither in the future nor older than a day
  have hrecent : Recent checked t := by
    obtain ⟨-, hahead, -⟩ := ha.recent
    have hroom := hl.room checked ha.checkedAt
    unfold DateTime.sub at hage
    exact ⟨by omega, by omega, hage⟩
  have hintact : Json.Intact (Str.strip reviewer) :=
    ⟨fun c hc => hreviewer c (Str.mem_of_mem_strip hc), hl.reviewer reviewer ha.reviewed⟩
  have hfaithful : Json.Faithful (.dict receipt) := by
    rw [ha.returned]
    exact faithful_receiptValue ⟨hrun, hl.run⟩ ⟨hcommit, hl.source⟩ hintact ha.headed.east ha.listed
  -- the receipt is equal to itself, as Python compares it
  have hself : (Value.dict receipt).eq (.dict receipt) = true :=
    (Value.eq_dict _ _).trans (Json.same_self hfaithful.writable)
  refine ⟨⟨receipt, ?_, hself⟩, back receipt, loads_receipt hfaithful.writable, receipt, ?_, hself⟩
  · have hholds : Holds receipt runId commit region checked (Str.strip reviewer) parsed := by
      rw [ha.returned]
      exact holds_receipt ha.listed
    exact revalidate_eq hholds ha.headed.east ha.named ha.checkedAt.real hrecent ha.rates hord ha.made hself
  · have hholds : Holds (back receipt) runId commit region checked (Str.strip reviewer) parsed := by
      rw [ha.returned]
      exact holds_back ⟨hrun, hl.run⟩ ⟨hcommit, hl.source⟩ hintact ha.headed.east ha.listed
    have hsame := Json.same_readBack hfaithful
    rw [Json.readBack_dict] at hsame
    exact revalidate_eq hholds ha.headed.east ha.named ha.checkedAt.real hrecent ha.rates hord ha.made
      ((Value.eq_dict _ _).trans hsame)

/-- What is refused the second time: a rate whose text the expression does not admit. -/
theorem ordinary_of_again (ha : Accepted value receipt runId commit region now reviewer checked parsed items total)
    {t : DateTime} (h : AcceptedAgain receipt receipt runId commit region t) : ∀ c ∈ components, (rateOf parsed c).Ordinary := by
  obtain ⟨e, he, -⟩ := h
  obtain ⟨items', rates, hitems, hrates, hvalid, -⟩ := revalidatePriceReceipt_eq_ok_iff.mp he
  have hholds : Holds receipt runId commit region checked (Str.strip reviewer) parsed := by
    rw [ha.returned]
    exact holds_receipt ha.listed
  obtain ⟨items'', hitems'', hkept⟩ := hholds.items
  cases hitems.symm.trans hitems''
  cases hrates.symm.trans hkept
  obtain ⟨-, _, -, _, -, -, parsed', hparsed', -⟩ := validatePriceInput_eq_ok_iff.mp hvalid
  obtain ⟨rates', hrates', -, hmap⟩ := parsedRates_eq_ok_iff.mp hparsed'
  obtain rfl : components.map (keptRate parsed) = rates' := Value.dict.inj hrates'
  intro c hc
  obtain ⟨q, hq⟩ := mapM_ok_of_mem hmap (List.mem_map.mpr ⟨c, hc, rfl⟩)
  obtain ⟨s, hs, htext, -⟩ := decimalRate_eq_ok_iff.mp (parsedRate_eq_ok_iff.mp hq).2
  obtain rfl : (rateOf parsed c).text = s := Value.str.inj hs
  exact (rateText_text _ (exponent_rateOf ha.rates hc)).mp htext

/-- The second validation needs a calendar five minutes beyond its time. -/
theorem room_of_again {r : Dict} {t : DateTime} (h : AcceptedAgain receipt r runId commit region t) :
    t.micros + DateTime.minutes 5 < Codec.Time.calendarDays * dayMicros := by
  obtain ⟨e, he, -⟩ := h
  obtain ⟨_, _, -, -, hvalid, -⟩ := revalidatePriceReceipt_eq_ok_iff.mp he
  obtain ⟨-, _, -, _, htime, -⟩ := validatePriceInput_eq_ok_iff.mp hvalid
  obtain ⟨_, -, -, hroom, -⟩ := parseCheckedAt_eq_ok_iff.mp htime
  exact hroom

/-- The last moment the check is not too old, or the last of the calendar. -/
theorem exists_last (h : Recent checked now) : ∃ t : DateTime, now.micros ≤ t.micros ∧ t.sub checked ≤ DateTime.hours 24 ∧
    ((t.micros : ℤ) = checked.micros + DateTime.hours 24 ∨ (t.micros : ℤ) + 1 = Codec.Time.calendarDays * dayMicros) := by
  obtain ⟨-, -, hage⟩ := h
  have hstart := now.from_year_one
  have hend := now.in_calendar
  unfold DateTime.sub at hage
  -- a day after the check, or the last instant of the calendar if that comes first
  by_cases hroom : (checked.micros : ℤ) + DateTime.hours 24 < Codec.Time.calendarDays * dayMicros
  · refine ⟨⟨(checked.micros + DateTime.hours 24).toNat, by omega, by omega⟩, ?_, ?_, ?_⟩
    · show now.micros ≤ (checked.micros + DateTime.hours 24).toNat
      omega
    · show ((checked.micros + DateTime.hours 24).toNat : ℤ) - checked.micros ≤ _
      omega
    · left
      show ((checked.micros + DateTime.hours 24).toNat : ℤ) = _
      omega
  · refine ⟨⟨Codec.Time.calendarDays * dayMicros - 1, by omega, by omega⟩, ?_, ?_, ?_⟩
    · show now.micros ≤ Codec.Time.calendarDays * dayMicros - 1
      omega
    · show ((Codec.Time.calendarDays * dayMicros - 1 : ℕ) : ℤ) - checked.micros ≤ _
      omega
    · right
      show ((Codec.Time.calendarDays * dayMicros - 1 : ℕ) : ℤ) + 1 = _
      omega

/-- Read back, a receipt that is accepted and recomputed to the original has the original's texts. -/
theorem texts_of_again (ha : Accepted value receipt runId commit region now reviewer checked parsed items total)
    {t : DateTime} (h : AcceptedAgain receipt (back receipt) runId commit region t) :
    Json.pairUp runId = runId ∧ Json.pairUp commit = commit ∧ Json.pairUp (Str.strip reviewer) = Str.strip reviewer := by
  obtain ⟨e, he, hsame⟩ := h
  obtain ⟨_, _, -, -, hvalid, -⟩ := revalidatePriceReceipt_eq_ok_iff.mp he
  have hfield : ∀ key, field (back receipt) key = Json.readBack (field receipt key) := by
    intro key
    rw [ha.returned]
    exact field_backReceipt key
  obtain ⟨hheaded, reviewer', hreviewer', checked', -, -, parsed', -, hmade⟩ := validatePriceInput_eq_ok_iff.mp hvalid
  obtain ⟨items', -, total', -, -, he'⟩ := priceReceipt_eq_ok_iff.mp hmade
  have hrun : Value.str (Json.pairUp runId) = .str runId := by
    have hrun := (hfield _).symm.trans hheaded.run
    rw [ha.returned] at hrun
    exact hrun
  have hsource : Value.str (Json.pairUp commit) = .str commit := by
    have hsource := (hfield _).symm.trans hheaded.source
    rw [ha.returned] at hsource
    exact hsource
  have hby : Value.str (Json.pairUp (Str.strip reviewer)) = .str reviewer' := by
    have hby := (hfield _).symm.trans (priceReviewer_eq_ok_iff.mp hreviewer').1
    rw [ha.returned] at hby
    exact hby
  refine ⟨Value.str.inj hrun, Value.str.inj hsource, ?_⟩
  -- what was recomputed names the reviewer of the original
  have hnamed : Str.strip reviewer' = Str.strip reviewer := by
    rw [Value.eq_dict] at hsame
    have hitems := (Bool.and_eq_true _ _ ▸ hsame : _ ∧ Value.sameItems e receipt = true).2
    obtain ⟨w, hw, heq⟩ := Json.sameItems_iff.mp hitems (lit "checked_by", .str (Str.strip reviewer')) (by
      rw [he']
      simp [receiptValue])
    rw [ha.returned] at hw
    obtain rfl : Value.str (Str.strip reviewer) = w := Option.some.inj hw
    exact beq_iff_eq.mp heq
  obtain rfl := Value.str.inj hby
  rcases Json.pairUp_eq_or_length_lt (Str.strip reviewer) with hpair | hlt
  · exact hpair
  · have hle := Str.length_strip_le (Json.pairUp (Str.strip reviewer))
    rw [hnamed] at hle
    omega

theorem lasting_of_staysAcceptable
    (ha : Accepted value receipt runId commit region now reviewer checked parsed items total)
    (hrun : Json.CodePoints runId) (hcommit : Json.CodePoints commit) (hreviewer : Json.CodePoints reviewer)
    (h : StaysAcceptable value receipt runId commit region now) : Lasting value runId commit := by
  have hwritable : Json.Writable (.dict receipt) := by
    rw [ha.returned]
    exact writable_receiptValue hrun hcommit hreviewer ha.headed.east ha.listed
  obtain ⟨hagain, handed, hloads, hback⟩ := h checked now ha.checkedAt (le_refl _) ha.recent.2.2
  obtain rfl : back receipt = handed := Value.dict.inj (Except.ok.inj ((loads_receipt hwritable).symm.trans hloads))
  obtain ⟨hrunText, hcommitText, hreviewerText⟩ := texts_of_again ha hback
  refine ⟨(ordinary_iff ha.rates).mpr (ordinary_of_again ha hagain), hrunText, hcommitText, ?_, ?_⟩
  · intro s hs
    obtain rfl := Value.str.inj (ha.reviewed.symm.trans hs)
    exact hreviewerText
  · intro checked' hchecked'
    obtain rfl := ha.checkedAt.unique hchecked'
    obtain ⟨t, hle, hage, hlast⟩ := exists_last ha.recent
    have hroom := room_of_again (h checked t ha.checkedAt hle hage).1
    have hminutes : (0 : ℤ) < DateTime.minutes 5 := by decide
    rcases hlast with hlast | hlast
    · omega
    · omega

end Lasting

/-- **How long an accepted price check stays acceptable.**  The receipt of an input that was accepted is accepted again,
to an equal one and also when it has been written and read back, until the check is 24 hours old, exactly when the
input is lasting. -/
theorem staysAcceptable_iff {value receipt : Dict} {runId commit region : Str} {now : DateTime}
    (h : validatePriceInput value runId commit region now = .ok receipt) (hrun : Json.CodePoints runId)
    (hcommit : Json.CodePoints commit)
    (hreviewer : ∀ s, field value (lit "checked_by") = .str s → Json.CodePoints s) :
    StaysAcceptable value receipt runId commit region now ↔ Lasting value runId commit := by
  obtain ⟨reviewer, checked, parsed, items, total, ha⟩ := exists_accepted h
  have hreviewer := hreviewer reviewer ha.reviewed
  constructor
  · exact lasting_of_staysAcceptable ha hrun hcommit hreviewer
  · exact staysAcceptable_of_lasting ha hrun hcommit hreviewer

/-- An input in which every rate is five cents but the one of a public address. -/
def reviewedInput (publicIpv4 : Str) : Dict :=
  [(lit "schema_version", .int 1), (lit "run_id", .str (lit "20250102T030405Z")),
    (lit "source_commit", .str (lit "4f3c2b1a")), (lit "region", .str (lit "us-east-1")),
    (lit "currency", .str (lit "USD")), (lit "confirmed", .bool true),
    (lit "checked_at", .str (lit "2025-01-02T03:04:05Z")), (lit "checked_by", .str (lit "reviewer ")),
    (lit "sources", .dict priceSources),
    (lit "rates", .dict (priceRateNames.map fun name =>
      (name, .str (if name = lit "public_ipv4_hour" then publicIpv4 else lit "0.05"))))]

/-- A minute after that check. -/
def minuteLater : DateTime := ⟨63903006305000000, by decide, by decide⟩

theorem exists_of_isOk {α : Type} {m : Py α} (h : m.isOk = true) : ∃ a, m = .ok a := by
  cases m with
  | ok a => exact ⟨a, rfl⟩
  | error e => cases h

theorem staysAcceptable_iff_fiveCents : ∃ receipt,
    validatePriceInput (reviewedInput (lit "0.05")) (lit "20250102T030405Z") (lit "4f3c2b1a") (lit "us-east-1") minuteLater
      = .ok receipt ∧
    (StaysAcceptable (reviewedInput (lit "0.05")) receipt (lit "20250102T030405Z") (lit "4f3c2b1a") (lit "us-east-1")
      minuteLater ↔ Lasting (reviewedInput (lit "0.05")) (lit "20250102T030405Z") (lit "4f3c2b1a")) := by
  obtain ⟨receipt, h⟩ := exists_of_isOk (m := validatePriceInput (reviewedInput (lit "0.05")) (lit "20250102T030405Z")
    (lit "4f3c2b1a") (lit "us-east-1") minuteLater) (by decide +kernel)
  have hreviewer : ∀ s, field (reviewedInput (lit "0.05")) (lit "checked_by") = .str s → Json.CodePoints s := by
    intro s hs
    obtain rfl : lit "reviewer " = s := Value.str.inj hs
    decide
  exact ⟨receipt, h, staysAcceptable_iff h (by decide) (by decide) hreviewer⟩

/-- A rate of nothing, with the ten places a price list prints, is accepted and then refused: its text is `0E-10`. -/
theorem not_staysAcceptable_zeroRate : ∃ receipt,
    validatePriceInput (reviewedInput (lit "0.0000000000")) (lit "20250102T030405Z") (lit "4f3c2b1a") (lit "us-east-1")
      minuteLater = .ok receipt ∧
    ¬ StaysAcceptable (reviewedInput (lit "0.0000000000")) receipt (lit "20250102T030405Z") (lit "4f3c2b1a")
      (lit "us-east-1") minuteLater := by
  have hrefused : (match validatePriceInput (reviewedInput (lit "0.0000000000")) (lit "20250102T030405Z") (lit "4f3c2b1a")
      (lit "us-east-1") minuteLater with
    | .ok r => !(revalidatePriceReceipt r (lit "20250102T030405Z") (lit "4f3c2b1a") (lit "us-east-1") minuteLater).isOk
    | .error _ => false) = true := by
    decide +kernel
  split at hrefused
  · next receipt h =>
    refine ⟨receipt, h, ?_⟩
    intro hstays
    obtain ⟨_, checked, _, _, _, ha⟩ := exists_accepted h
    obtain ⟨⟨e, he, -⟩, -⟩ := hstays checked minuteLater ha.checkedAt (le_refl _) ha.recent.2.2
    rw [he] at hrefused
    cases hrefused
  · cases hrefused

end LocalPlatform.Stage
