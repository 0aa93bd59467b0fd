/-
# LocalPlatform.Stage.Price — the price check of a run, and checking it again.

Before anything is staged a reviewer writes down the current rate of every priced component.
`validatePriceInput` checks the input and makes the receipt that is kept as evidence: what each component
costs an hour, the total, and its gate.  Whoever needs the receipt later does not trust it:
`revalidatePriceReceipt` takes an input out of it, validates that, and compares.

The receipt holds the texts of decimals, and what the second validation reads are these texts.  The limit
of the total, the age of the check and the failing arithmetic of Python are all part of what raises.
-/
import LocalPlatform.Logic.Guards
import LocalPlatform.Python.DateTime
import LocalPlatform.Python.Decimal

namespace LocalPlatform.Stage

open LocalPlatform.Python LocalPlatform.Logic

/-! ## What is fixed -/

/-- `PRICE_SOURCES` -/
def priceSources : Dict :=
  [(lit "msk", .str (lit "https://aws.amazon.com/msk/pricing/")),
    (lit "eks", .str (lit "https://aws.amazon.com/eks/pricing/")),
    (lit "ec2", .str (lit "https://aws.amazon.com/ec2/pricing/on-demand/")),
    (lit "vpc", .str (lit "https://aws.amazon.com/vpc/pricing/")),
    (lit "rds", .str (lit "https://aws.amazon.com/rds/postgresql/pricing/"))]

/-- `PRICE_RATE_NAMES` -/
def priceRateNames : List Str :=
  [lit "msk_serverless_cluster_hour", lit "msk_partition_hour", lit "eks_standard_cluster_hour", lit "t3_medium_hour",
    lit "nat_gateway_hour", lit "public_ipv4_hour", lit "rds_t4g_micro_hour", lit "rds_gp3_gb_month"]

/-- `MAXIMUM_HOURLY_USD` -/
def maximumHourlyUsd : Decimal := ⟨125, -2⟩

/-- `MAXIMUM_TOTAL_USD` -/
def maximumTotalUsd : Decimal := ⟨500, -2⟩

/-- A row of `components`. -/
structure Component where
  label : Str
  rateName : Str
  quantity : Decimal
  divisor : Decimal
  unit : Str
  source : Str

/-- `components` -/
def components : List Component :=
  [⟨lit "MSK Serverless cluster", lit "msk_serverless_cluster_hour", ⟨1, 0⟩, ⟨1, 0⟩, lit "cluster-hour", lit "msk"⟩,
    ⟨lit "MSK partitions", lit "msk_partition_hour", ⟨13, 0⟩, ⟨1, 0⟩, lit "partition-hour", lit "msk"⟩,
    ⟨lit "EKS standard-support control plane", lit "eks_standard_cluster_hour", ⟨1, 0⟩, ⟨1, 0⟩, lit "cluster-hour",
      lit "eks"⟩,
    ⟨lit "t3.medium on-demand upper bound", lit "t3_medium_hour", ⟨3, 0⟩, ⟨1, 0⟩, lit "instance-hour", lit "ec2"⟩,
    ⟨lit "NAT gateway", lit "nat_gateway_hour", ⟨1, 0⟩, ⟨1, 0⟩, lit "gateway-hour", lit "vpc"⟩,
    ⟨lit "NAT public IPv4 address", lit "public_ipv4_hour", ⟨1, 0⟩, ⟨1, 0⟩, lit "address-hour", lit "vpc"⟩,
    ⟨lit "RDS db.t4g.micro", lit "rds_t4g_micro_hour", ⟨1, 0⟩, ⟨1, 0⟩, lit "instance-hour", lit "rds"⟩,
    ⟨lit "RDS gp3 storage", lit "rds_gp3_gb_month", ⟨20, 0⟩, ⟨730, 0⟩, lit "GB-month", lit "rds"⟩]

/-! ## Rates and times -/

/-- `[0-9]+(?:\.[0-9]+)?`, the whole text. -/
def rateText (s : Str) : Bool :=
  s.takeWhile isDigit != [] &&
    match s.dropWhile isDigit with
    | [] => true
    | 0x2e :: f => f != [] && f.all isDigit
    | _ => false

/-- `decimal_rate`.  A decimal the expression admits is finite. -/
def decimalRate (value : Value) (name : Str) : Py Decimal :=
  match value with
  | .str s => do
    require (rateText s = true) (.own (lit "price " ++ name ++ lit " must be a non-negative decimal string"))
    match Decimal.ofStr s with
    | some d => return d
    | none => throw (.own (lit "price " ++ name ++ lit " is invalid"))
  | _ => throw (.own (lit "price " ++ name ++ lit " must be a non-negative decimal string"))

/-- The time in a text, if `strptime` finds one there. -/
def realUtc (s description : Str) : Py DateTime :=
  match strptime s with
  | .error .valueError => .error (.own (description ++ lit " must be a real UTC timestamp"))
  | m => m

/-- `parse_recent_utc` -/
def parseRecentUtc (value : Value) (description : Str) (now : DateTime) (maximumAge : ℤ) : Py DateTime :=
  match value with
  | .str s => do
    let checked ← realUtc s description
    let limit ← now.add (DateTime.minutes 5)
    require (checked.micros ≤ limit.micros) (.own (description ++ lit " is in the future"))
    require (now.sub checked ≤ maximumAge) (.own (description ++ lit " is older than 24 hours"))
    return checked
  | _ => throw (.own (description ++ lit " must use UTC YYYY-MM-DDTHH:MM:SSZ"))

/-- `parse_checked_at` -/
def parseCheckedAt (value : Value) (now : DateTime) : Py DateTime :=
  parseRecentUtc value (lit "price check time") now (DateTime.hours 24)

/-! ## The input -/

/-- `d.get(key)` -/
def field (d : Dict) (key : Str) : Value := (d.lookup key).getD .null

/-- The checks of the input in front of its reviewer. -/
def checkHeader (value : Dict) (runId commit region : Str) : Py Unit := do
  require ((field value (lit "schema_version")).eq (.int 1) = true) (.own (lit "price input schema_version must be 1"))
  require ((field value (lit "run_id")).eq (.str runId) = true ∧ (field value (lit "source_commit")).eq (.str commit) = true)
    (.own (lit "price input does not match the run and approved commit"))
  require ((field value (lit "region")).eq (.str region) = true ∧ region = lit "us-east-1")
    (.own (lit "price input must use us-east-1"))
  require ((field value (lit "currency")).eq (.str (lit "USD")) = true) (.own (lit "price input currency must be USD"))
  match field value (lit "confirmed") with
  | .bool true => return ()
  | _ => throw (.own (lit "price input must be confirmed after checking every source"))

/-- `reviewer`, as it stands in the input. -/
def priceReviewer (value : Dict) : Py Str := do
  match field value (lit "checked_by") with
  | .str s => do
    require (Str.strip s ≠ [] ∧ 0x0a ∉ s) (.own (lit "checked_by must name the price reviewer"))
    return s
  | _ => throw (.own (lit "checked_by must name the price reviewer"))

/-- The check of the sources. -/
def checkSources (value : Dict) : Py Unit :=
  require ((field value (lit "sources")).eq (.dict priceSources) = true)
    (.own (lit "price input must retain the fixed primary-source URLs"))

/-- An entry of `parsed_rates`. -/
def parsedRate (p : Str × Value) : Py (Str × Decimal) := do return (p.1, ← decimalRate p.2 p.1)

/-- `parsed_rates` -/
def parsedRates (value : Dict) : Py (List (Str × Decimal)) := do
  match field value (lit "rates") with
  | .dict rates => do
    require ((∀ p ∈ rates, p.1 ∈ priceRateNames) ∧ ∀ name ∈ priceRateNames, name ∈ rates.map Prod.fst)
      (.own (lit "price input must contain every fixed rate and no unknown rate"))
    rates.mapM parsedRate
  | _ => throw (.own (lit "price input must contain every fixed rate and no unknown rate"))

/-! ## The receipt -/

/-- The fields of an element of `items`. -/
def itemFields (c : Component) (rate hourly : Decimal) : Dict :=
  [(lit "item", .str c.label), (lit "rate_name", .str c.rateName), (lit "rate_usd", .str rate.text),
    (lit "rate_unit", .str c.unit), (lit "quantity", .str c.quantity.text), (lit "hourly_divisor", .str c.divisor.text),
    (lit "hourly_usd", .str hourly.text), (lit "source", (priceSources.lookup c.source).getD .null)]

/-- The turn of the loop that makes an item. -/
def priceItem (parsed : List (Str × Decimal)) (c : Component) : Py Value :=
  match parsed.lookup c.rateName with
  | some rate => do
    let hourly ← (← rate.mul c.quantity).div c.divisor
    return .dict (itemFields c rate hourly)
  | none => throw .keyError

/-- `Decimal(item["hourly_usd"])` -/
def hourlyUsd (item : Value) : Py Decimal := do
  match ← item.item (lit "hourly_usd") with
  | .str s =>
    match Decimal.ofStr s with
    | some d => return d
    | none => throw .arithmeticError
  | _ => throw .typeError

/-- The receipt. -/
def receiptValue (runId commit region : Str) (checked : DateTime) (reviewer : Str) (items : List Value)
    (total : Decimal) : Dict :=
  [(lit "schema_version", .int 1), (lit "run_id", .str runId), (lit "source_commit", .str commit),
    (lit "region", .str region), (lit "currency", .str (lit "USD")), (lit "checked_at", .str checked.strftime),
    (lit "checked_by", .str (Str.strip reviewer)), (lit "sources", .dict priceSources), (lit "items", .list items),
    (lit "total_hourly_usd", .str total.text), (lit "maximum_hourly_usd", .str maximumHourlyUsd.text),
    (lit "maximum_total_usd", .str maximumTotalUsd.text),
    (lit "gate", .dict [(lit "passed", .bool true), (lit "failures", .list [])])]

/-- What `validate_price_input` makes of the rates. -/
def priceReceipt (runId commit region : Str) (checked : DateTime) (reviewer : Str) (parsed : List (Str × Decimal)) :
    Py Dict := do
  let items ← components.mapM (priceItem parsed)
  let total ← items.foldlM (fun total item => do total.add (← hourlyUsd item)) (⟨0, 0⟩ : Decimal)
  require (total.gt maximumHourlyUsd = false)
    (.own (lit "current price total " ++ total.text ++ lit " exceeds the " ++ maximumHourlyUsd.text ++ lit " hourly limit"))
  return receiptValue runId commit region checked reviewer items total

/-- `validate_price_input` -/
def validatePriceInput (value : Dict) (runId commit region : Str) (now : DateTime) : Py Dict := do
  checkHeader value runId commit region
  let reviewer ← priceReviewer value
  let checked ← parseCheckedAt (field value (lit "checked_at")) now
  checkSources value
  let parsed ← parsedRates value
  priceReceipt runId commit region checked reviewer parsed

/-! ## Checking the receipt again -/

/-- The loop of `revalidate_price_receipt`: the rates the items hold. -/
def itemRates : List Value → Dict → Py Dict
  | [], rates => return rates
  | item :: items, rates => do
    match item with
    | .dict fields =>
      match field fields (lit "rate_name") with
      | .str name =>
        require (name ∉ rates.map Prod.fst) (.own (lit "price evidence repeats " ++ name))
        itemRates items (rates ++ [(name, field fields (lit "rate_usd"))])
      | _ => throw (.own (lit "price evidence contains an invalid item"))
    | _ => throw (.own (lit "price evidence contains an invalid item"))

/-- The input in a receipt. -/
def receiptInput (receipt : Dict) (rates : Dict) : Dict :=
  [(lit "schema_version", field receipt (lit "schema_version")), (lit "run_id", field receipt (lit "run_id")),
    (lit "source_commit", field receipt (lit "source_commit")), (lit "region", field receipt (lit "region")),
    (lit "currency", field receipt (lit "currency")), (lit "confirmed", .bool true),
    (lit "checked_at", field receipt (lit "checked_at")), (lit "checked_by", field receipt (lit "checked_by")),
    (lit "sources", field receipt (lit "sources")), (lit "rates", .dict rates)]

/-- `revalidate_price_receipt` -/
def revalidatePriceReceipt (receipt : Dict) (runId commit region : Str) (now : DateTime) : Py Dict := do
  match field receipt (lit "items") with
  | .list items => do
    let rates ← itemRates items []
    let expected ← validatePriceInput (receiptInput receipt rates) runId commit region now
    require ((Value.dict expected).eq (.dict receipt) = true)
      (.own (lit "price evidence does not match the recomputed fixed topology"))
    return expected
  | _ => throw (.own (lit "price evidence has no itemized rates"))

end LocalPlatform.Stage
