/-
# LocalPlatform.Stage.PlanReview — what a plan that passes the gate is, and is not.

`Reviewed` says of a plan, walk by walk, what the five reviews ask of it, and `gate_eq_nil_iff` is the
exact reading: the gate has no failure exactly then.  `Sound` says what a passed plan is to be: it counts
managed resources, where the gate counts data resources with them, and it reads every tag specification,
where the gate keeps the last of each type.  The gate is sound on exactly the plans where these two
differences make none (`Plain`).
-/
import LocalPlatform.Stage.Plan
import Mathlib.Data.List.Find

namespace LocalPlatform.Stage.PlanGate

open LocalPlatform.Python LocalPlatform.Logic Check

/-! ## What is said of a plan -/

/-- The three runtime flags are set. -/
def AllEnabled (shape : Value) : Prop :=
  ∀ flag ∈ [lit "enable_rds", lit "enable_eks", lit "enable_msk"],
    ∃ v, shape.item flag = .ok v ∧ v.truthy = true

/-- The tags under a field carry the Project tag. -/
def TaggedIn (v : Value) (field : Str) : Prop :=
  ∃ items tags, v = .dict items ∧ items.lookup field = some (.dict tags) ∧
    tags.lookup (lit "Project") = some (.str projectName)

/-- The node group the shape reports. -/
def Reports (shape desired maximum capacity : Value) : Prop :=
  ∃ eks, shape.item (lit "eks") = .ok eks ∧ eks.item (lit "node_desired") = .ok desired ∧
    eks.item (lit "node_maximum") = .ok maximum ∧ eks.item (lit "node_capacity_type") = .ok capacity

/-- A node group plans what the shape reports. -/
def Shaped (shape : Value) (r : Resource) : Prop :=
  ∃ desired maximum capacity, Reports shape desired maximum capacity ∧
    (plannedShape r (lit "desired_size")).eq desired = true ∧
    (plannedShape r (lit "max_size")).eq maximum = true ∧
    (plannedShape r (lit "capacity_type")).eq capacity = true

/-- A tag specification for a launched type. -/
def ofKind (kind : Str) : Value → Bool
  | .dict spec => ((spec.lookup (lit "resource_type")).getD .null).eq (.str kind)
  | _ => false

/-- The tag specifications of a launch template. -/
def Resource.specifications (r : Resource) : List Value :=
  match r.value (lit "tag_specifications") with
  | .list specs => specs
  | _ => []

section Networking

variable (printable : Nat → Bool) (plan : Plan)

/-- A pinned add-on of a name. -/
def Pinned (name : Str) : Prop :=
  ∃ p ∈ plan.managed (lit "aws_eks_addon"), addonName printable p.2 = name ∧ addonVersion p.2 ≠ none

/-- Networking is installed by the add-ons: all four pinned, `vpc-cni` placed before compute. -/
def Networked : Prop :=
  (∀ name ∈ eksNetworkAddons, Pinned printable plan name) ∧
    ∀ p ∈ plan.managed (lit "aws_eks_addon"), addonName printable p.2 = lit "vpc-cni" →
      p.2.name = some (lit "before_compute")

/-- The CNI policy is attached in a module. -/
def CniPolicyIn (address : Str) : Prop :=
  ∃ q ∈ plan.walk, q.2.managed = true ∧ attachesCni printable q.2 = true ∧ q.1 = address

/-- **What a plan with all flags set is to be when the gate has no failure.** -/
structure Sound : Prop where
  one : ∀ type ∈ hourlyResourceTypes, (plan.managed type).length = 1
  shaped : ∀ p ∈ plan.managed (lit "aws_eks_node_group"), Shaped plan.shape p.2
  tagged : ∀ type ∈ costTagResourceTypes, ∀ p ∈ plan.managed type, TaggedIn (.dict p.2.values) (lit "tags_all")
  template : (plan.managed (lit "aws_launch_template")).length = 1
  propagated : ∀ p ∈ plan.managed (lit "aws_launch_template"), ∀ kind ∈ launchTypes,
    ∀ spec ∈ p.2.specifications, ofKind kind spec = true → TaggedIn spec (lit "tags")
  kept : ∀ c ∈ plan.resourceChanges, c.type ∈ hourlyResourceTypes → lit "delete" ∉ c.actions
  networked : ∀ p ∈ plan.managed (lit "aws_eks_cluster"),
    p.2.value (lit "bootstrap_self_managed_addons") = .bool false → Networked printable plan
  policy : ∀ p ∈ plan.managed (lit "aws_eks_node_group"), CniPolicyIn printable plan p.1

/-- The gate is sound on a plan. -/
def GateSound : Prop := AllEnabled plan.shape → gate printable plan = .ok [] → Sound printable plan

/-! ## What the reviews ask -/

/-- The reported shape is within the limits of the gate. -/
def WithinLimits (shape : Value) : Prop :=
  ∃ expected maximum kafka total desired largest capacity,
    shape.item (lit "expected_hourly_usd") = .ok expected ∧ shape.item (lit "maximum_hourly_usd") = .ok maximum ∧
    expected.gt maximum = .ok false ∧ shape.item (lit "kafka") = .ok kafka ∧
    kafka.item (lit "total_partitions") = .ok total ∧ total.gt (.int 13) = .ok false ∧
    Reports shape desired largest capacity ∧ capacity.eq (.str (lit "SPOT")) = true ∧
    largest.gt (.int 3) = .ok false ∧ desired.gt largest = .ok false

/-- The specifications of a launch template can be read, and the last of each launched type carries the tag. -/
def Propagates (r : Resource) : Prop :=
  ∃ specs, r.value (lit "tag_specifications") = .list specs ∧
    (∀ spec ∈ specs, ∃ items, spec = .dict items ∧
      ((items.lookup (lit "resource_type")).getD .null).hashable = true) ∧
    ∀ kind ∈ launchTypes, ∃ spec, specs.reverse.find? (ofKind kind) = some spec ∧ TaggedIn spec (lit "tags")

/-- What the five reviews ask of a plan with all flags set. -/
structure Reviewed : Prop where
  planned : ∀ type ∈ hourlyResourceTypes, (plan.walk.filter fun p => p.2.type == type).length = 1
  kept : ∀ c ∈ plan.resourceChanges, c.type ∈ hourlyResourceTypes → lit "delete" ∉ c.actions
  limits : WithinLimits plan.shape
  shaped : ∀ p ∈ plan.managed (lit "aws_eks_node_group"), Shaped plan.shape p.2
  tagged : ∀ type ∈ costTagResourceTypes, ∀ p ∈ plan.managed type, TaggedIn (.dict p.2.values) (lit "tags_all")
  propagated : ∀ p ∈ plan.managed (lit "aws_launch_template"), Propagates p.2
  template : (plan.managed (lit "aws_launch_template")).length = 1
  once : ((plan.managed (lit "aws_eks_addon")).map fun p => addonName printable p.2).Nodup
  cluster : ∃ p, plan.managed (lit "aws_eks_cluster") = [p] ∧
    (p.2.value (lit "bootstrap_self_managed_addons") = .bool true ∨
      p.2.value (lit "bootstrap_self_managed_addons") = .bool false ∧ Networked printable plan)
  nodeGroup : plan.managed (lit "aws_eks_node_group") ≠ []
  policy : ∀ p ∈ plan.managed (lit "aws_eks_node_group"), CniPolicyIn printable plan p.1

/-- The types the gate counts without asking whether a resource is managed, and no other review asks. -/
def countedTypes : List Str := [lit "aws_db_instance", lit "aws_msk_serverless_cluster", lit "aws_nat_gateway"]

/-- Neither a data resource of a counted type, nor an untagged specification of a launched type that a
later one of the same type hides. -/
structure Plain : Prop where
  counted : ∀ p ∈ plan.walk, p.2.type ∈ countedTypes → p.2.managed = true
  unhidden : ∀ p ∈ plan.managed (lit "aws_launch_template"), ∀ kind ∈ launchTypes, ∀ front spec back,
    p.2.specifications = front ++ spec :: back → ofKind kind spec = true →
      (∃ later ∈ back, ofKind kind later = true) → TaggedIn spec (lit "tags")

end Networking

/-! ## The counts, the changes and the limits -/

theorem enabled_of_truthy {rds eks msk : Value} (hr : rds.truthy = true) (he : eks.truthy = true)
    (hm : msk.truthy = true) (type : Str) : enabled rds eks msk type = true := by
  unfold enabled
  split
  · exact hr
  · split
    · exact hm
    · exact he

theorem typeFailures_eq_nil_iff {enabled : Str → Bool} {planned creates : Str → Nat} {type : Str}
    (h : enabled type = true) : typeFailures enabled planned creates type = .ok [] ↔ planned type = 1 := by
  unfold typeFailures
  rw [both_eq_nil_iff, both_eq_nil_iff, ensure_eq_nil_iff, ensure_eq_nil_iff, ensure_eq_nil_iff]
  simp [h]

theorem costFailures_eq_nil_iff {shape : Value} : costFailures shape = .ok [] ↔
    ∃ expected maximum, shape.item (lit "expected_hourly_usd") = .ok expected ∧
      shape.item (lit "maximum_hourly_usd") = .ok maximum ∧ expected.gt maximum = .ok false := by
  unfold costFailures
  rw [after_eq_nil_iff]
  refine exists_congr fun expected => ?_
  rw [after_eq_nil_iff, ← exists_and_left]
  refine exists_congr fun maximum => and_congr_right fun _ => and_congr_right fun _ => ?_
  rw [after_eq_nil_iff]
  constructor
  · rintro ⟨exceeds, hgt, hnil⟩
    cases exceeds with
    | false => exact hgt
    | true =>
      -- the failure is found, or its message cannot be put together
      rw [if_pos rfl, after_eq_nil_iff] at hnil
      obtain ⟨_, -, hnil⟩ := hnil
      rw [after_eq_nil_iff] at hnil
      obtain ⟨_, -, hnil⟩ := hnil
      cases hnil
  · intro hgt
    exact ⟨false, hgt, if_neg Bool.false_ne_true⟩

/-- A check that a value is not over a bound. -/
theorem after_gt_eq_nil_iff {v w : Value} {x : Failure} :
    after (v.gt w) (fun exceeds => ensure (exceeds = false) x) = .ok [] ↔ v.gt w = .ok false := by
  rw [after_eq_nil_iff]
  constructor
  · rintro ⟨exceeds, hgt, hnil⟩
    rw [ensure_eq_nil_iff] at hnil
    rw [hgt, hnil]
  · intro hgt
    exact ⟨false, hgt, ensure_eq_nil_iff.mpr rfl⟩

theorem partitionFailures_eq_nil_iff {shape : Value} : partitionFailures shape = .ok [] ↔
    ∃ kafka total, shape.item (lit "kafka") = .ok kafka ∧ kafka.item (lit "total_partitions") = .ok total ∧
      total.gt (.int 13) = .ok false := by
  unfold partitionFailures
  rw [after_eq_nil_iff]
  refine exists_congr fun kafka => ?_
  rw [after_eq_nil_iff, ← exists_and_left]
  refine exists_congr fun total => and_congr_right fun _ => and_congr_right fun _ => ?_
  exact after_gt_eq_nil_iff

theorem nodeFailures_eq_nil_iff {shape flag : Value} (hflag : shape.item (lit "enable_eks") = .ok flag)
    (htrue : flag.truthy = true) : nodeFailures shape = .ok [] ↔
      ∃ desired largest capacity, Reports shape desired largest capacity ∧
        capacity.eq (.str (lit "SPOT")) = true ∧ largest.gt (.int 3) = .ok false ∧
        desired.gt largest = .ok false := by
  unfold nodeFailures
  rw [after_eq_nil_iff]
  constructor
  · rintro ⟨eks, heks, h⟩
    obtain ⟨flag', hflag', h⟩ := after_eq_nil_iff.mp h
    rw [hflag] at hflag'
    obtain rfl := Except.ok.inj hflag'
    rw [if_pos htrue, both_eq_nil_iff, both_eq_nil_iff] at h
    obtain ⟨hcapacity, hlargest, hdesired⟩ := h
    obtain ⟨capacity, hc, hspot⟩ := after_eq_nil_iff.mp hcapacity
    obtain ⟨largest, hl, hthree⟩ := after_eq_nil_iff.mp hlargest
    obtain ⟨desired, hd, hdesired⟩ := after_eq_nil_iff.mp hdesired
    obtain ⟨largest', hl', hdesired⟩ := after_eq_nil_iff.mp hdesired
    rw [hl] at hl'
    obtain rfl := Except.ok.inj hl'
    exact ⟨desired, largest, capacity, ⟨eks, heks, hd, hl, hc⟩, ensure_eq_nil_iff.mp hspot,
      after_gt_eq_nil_iff.mp hthree, after_gt_eq_nil_iff.mp hdesired⟩
  · rintro ⟨desired, largest, capacity, ⟨eks, heks, hd, hl, hc⟩, hspot, hthree, hdesired⟩
    refine ⟨eks, heks, after_eq_nil_iff.mpr ⟨flag, hflag, ?_⟩⟩
    rw [if_pos htrue, both_eq_nil_iff, both_eq_nil_iff]
    refine ⟨after_eq_nil_iff.mpr ⟨capacity, hc, ensure_eq_nil_iff.mpr hspot⟩,
      after_eq_nil_iff.mpr ⟨largest, hl, after_gt_eq_nil_iff.mpr hthree⟩, ?_⟩
    exact after_eq_nil_iff.mpr ⟨desired, hd, after_eq_nil_iff.mpr ⟨largest, hl, after_gt_eq_nil_iff.mpr hdesired⟩⟩

theorem mem_hourlyChanges {plan : Plan} {c : Change} : c ∈ hourlyChanges plan ↔
    c ∈ plan.resourceChanges ∧ c.type ∈ hourlyResourceTypes ∧ c.actions ≠ [lit "no-op"] := by
  unfold hourlyChanges selectedChanges
  rw [List.mem_mergeSort, List.mem_filter, Bool.and_eq_true, bne_iff_ne, List.contains_iff_mem]

/-- A change of an hourly resource that does nothing deletes nothing. -/
theorem kept_iff {plan : Plan} : (∀ c ∈ hourlyChanges plan, lit "delete" ∉ c.actions) ↔
    ∀ c ∈ plan.resourceChanges, c.type ∈ hourlyResourceTypes → lit "delete" ∉ c.actions := by
  constructor
  · intro h c hc htype hdelete
    refine h c (mem_hourlyChanges.mpr ⟨hc, htype, ?_⟩) hdelete
    intro hnoop
    rw [hnoop] at hdelete
    exact absurd hdelete (by decide)
  · intro h c hc
    obtain ⟨hmem, htype, -⟩ := mem_hourlyChanges.mp hc
    exact h c hmem htype

theorem counts_eq_length (plan : Plan) (type : Str) :
    plannedResourceTypeCounts plan type = (plan.walk.filter fun p => p.2.type == type).length :=
  List.countP_eq_length_filter

theorem gateFailures_eq_nil_iff {plan : Plan} (h : AllEnabled plan.shape) :
    gateFailures plan.shape (plannedResourceTypeCounts plan) (createResourceTypeCounts plan) (hourlyChanges plan)
      = .ok [] ↔
    (∀ type ∈ hourlyResourceTypes, (plan.walk.filter fun p => p.2.type == type).length = 1) ∧
      (∀ c ∈ plan.resourceChanges, c.type ∈ hourlyResourceTypes → lit "delete" ∉ c.actions) ∧
      WithinLimits plan.shape := by
  obtain ⟨rds, hrds, hr⟩ := h (lit "enable_rds") (by decide)
  obtain ⟨eks, heks, he⟩ := h (lit "enable_eks") (by decide)
  obtain ⟨msk, hmsk, hm⟩ := h (lit "enable_msk") (by decide)
  -- with everything enabled every type is expected once
  have henabled := enabled_of_truthy hr he hm
  have hcounts : each (typeFailures (enabled rds eks msk) (plannedResourceTypeCounts plan)
      (createResourceTypeCounts plan)) hourlyResourceTypes = .ok [] ↔
      ∀ type ∈ hourlyResourceTypes, (plan.walk.filter fun p => p.2.type == type).length = 1 := by
    rw [each_eq_nil_iff]
    refine forall₂_congr fun type _ => ?_
    rw [typeFailures_eq_nil_iff (henabled type), counts_eq_length]
  have hchanges : each (fun c : Change => (ensure (¬ (enabled rds eks msk c.type = true ∧ lit "delete" ∈ c.actions))
      (.deletes c.address) : Check Exn Failure)) (hourlyChanges plan) = .ok [] ↔
      ∀ c ∈ plan.resourceChanges, c.type ∈ hourlyResourceTypes → lit "delete" ∉ c.actions := by
    rw [each_eq_nil_iff, ← kept_iff]
    refine forall₂_congr fun c _ => ?_
    rw [ensure_eq_nil_iff]
    simp [henabled]
  -- the three limits are read off the shape one after the other
  have hlimits : costFailures plan.shape = .ok [] ∧ partitionFailures plan.shape = .ok [] ∧
      nodeFailures plan.shape = .ok [] ↔ WithinLimits plan.shape := by
    rw [costFailures_eq_nil_iff, partitionFailures_eq_nil_iff, nodeFailures_eq_nil_iff heks he]
    constructor
    · rintro ⟨⟨expected, maximum, h1, h2, h3⟩, ⟨kafka, total, h4, h5, h6⟩, desired, largest, capacity, h7, h8, h9, h10⟩
      exact ⟨expected, maximum, kafka, total, desired, largest, capacity, h1, h2, h3, h4, h5, h6, h7, h8, h9, h10⟩
    · rintro ⟨expected, maximum, kafka, total, desired, largest, capacity, h1, h2, h3, h4, h5, h6, h7, h8, h9, h10⟩
      exact ⟨⟨expected, maximum, h1, h2, h3⟩, ⟨kafka, total, h4, h5, h6⟩, desired, largest, capacity, h7, h8, h9, h10⟩
  unfold gateFailures
  rw [hrds, heks, hmsk, after_ok, after_ok, after_ok]
  rw [both_eq_nil_iff, both_eq_nil_iff, both_eq_nil_iff, both_eq_nil_iff, hcounts, hchanges, hlimits]

/-! ## The shape of the node groups -/

theorem Reports.unique {shape d₁ m₁ c₁ d₂ m₂ c₂ : Value} (h₁ : Reports shape d₁ m₁ c₁)
    (h₂ : Reports shape d₂ m₂ c₂) : d₁ = d₂ ∧ m₁ = m₂ ∧ c₁ = c₂ := by
  obtain ⟨eks, heks, hd, hm, hc⟩ := h₁
  obtain ⟨eks', heks', hd', hm', hc'⟩ := h₂
  rw [heks] at heks'
  obtain rfl := Except.ok.inj heks'
  rw [hd] at hd'
  rw [hm] at hm'
  rw [hc] at hc'
  exact ⟨Except.ok.inj hd', Except.ok.inj hm', Except.ok.inj hc'⟩

theorem nodeGroupShapeFailures_eq_nil_iff {plan : Plan} {shape flag : Value}
    (hflag : shape.item (lit "enable_eks") = .ok flag) (htrue : flag.truthy = true) :
    nodeGroupShapeFailures plan shape = .ok [] ↔ (∃ desired maximum capacity, Reports shape desired maximum capacity) ∧
      ∀ p ∈ plan.managed (lit "aws_eks_node_group"), Shaped shape p.2 := by
  unfold nodeGroupShapeFailures
  rw [hflag, after_ok, if_pos htrue]
  constructor
  · intro h
    obtain ⟨eks, heks, h⟩ := after_eq_nil_iff.mp h
    obtain ⟨desired, hd, h⟩ := after_eq_nil_iff.mp h
    obtain ⟨maximum, hm, h⟩ := after_eq_nil_iff.mp h
    obtain ⟨capacity, hc, h⟩ := after_eq_nil_iff.mp h
    have hreports : Reports shape desired maximum capacity := ⟨eks, heks, hd, hm, hc⟩
    refine ⟨⟨desired, maximum, capacity, hreports⟩, fun p hp => ⟨desired, maximum, capacity, hreports, ?_⟩⟩
    have hkeys := each_eq_nil_iff.mp (each_eq_nil_iff.mp h p hp)
    refine ⟨ensure_eq_nil_iff.mp (hkeys (lit "desired_size", desired) (by simp)),
      ensure_eq_nil_iff.mp (hkeys (lit "max_size", maximum) (by simp)),
      ensure_eq_nil_iff.mp (hkeys (lit "capacity_type", capacity) (by simp))⟩
  · rintro ⟨⟨desired, maximum, capacity, hreports⟩, hshaped⟩
    have h := hreports
    obtain ⟨eks, heks, hd, hm, hc⟩ := h
    rw [heks, after_ok, hd, after_ok, hm, after_ok, hc, after_ok, each_eq_nil_iff]
    intro p hp
    obtain ⟨_, _, _, hreports', h1, h2, h3⟩ := hshaped p hp
    -- the shape reports one size, so every group is held to the same one
    obtain ⟨rfl, rfl, rfl⟩ := hreports'.unique hreports
    rw [each_eq_nil_iff]
    simp only [List.forall_mem_cons, ensure_eq_nil_iff]
    exact ⟨h1, h2, h3, fun _ h => absurd h List.not_mem_nil⟩

/-! ## The tags -/

theorem carriesProject_eq_true_iff {v : Value} : carriesProject v = .ok true ↔
    ∃ tags, v = .dict tags ∧ tags.lookup (lit "Project") = some (.str projectName) := by
  unfold carriesProject
  constructor
  · intro h
    cases v with
    | dict tags =>
      refine ⟨tags, rfl, ?_⟩
      have heq : ((tags.lookup (lit "Project")).getD .null).eq (.str projectName) = true := Except.ok.inj h
      rw [Value.eq_str] at heq
      cases hlookup : tags.lookup (lit "Project") with
      | none =>
        rw [hlookup] at heq
        cases heq
      | some w =>
        rw [hlookup] at heq
        exact congrArg some heq
    | _ => cases h
  · rintro ⟨tags, rfl, hlookup⟩
    show (Except.ok (((tags.lookup (lit "Project")).getD .null).eq (.str projectName)) : Py Bool) = _
    rw [hlookup]
    exact congrArg Except.ok (Value.eq_str.mpr rfl)

/-- `or {}` adds no tags. -/
theorem carriesProject_or {v : Value} : carriesProject (v.or (.dict [])) = .ok true ↔
    ∃ tags, v = .dict tags ∧ tags.lookup (lit "Project") = some (.str projectName) := by
  rw [carriesProject_eq_true_iff]
  unfold Value.or
  constructor
  · rintro ⟨tags, heq, hlookup⟩
    split at heq
    · exact ⟨tags, heq, hlookup⟩
    · cases heq
      cases hlookup
  · rintro ⟨tags, rfl, hlookup⟩
    refine ⟨tags, if_pos ?_, hlookup⟩
    cases tags with
    | nil => cases hlookup
    | cons _ _ => rfl

theorem taggedIn_iff {items : Dict} {field : Str} : TaggedIn (.dict items) field ↔
    ∃ tags, (items.lookup field).getD .null = .dict tags ∧ tags.lookup (lit "Project") = some (.str projectName) := by
  constructor
  · rintro ⟨items', tags, heq, hfield, hproject⟩
    cases heq
    exact ⟨tags, by rw [hfield]; rfl, hproject⟩
  · rintro ⟨tags, hfield, hproject⟩
    refine ⟨items, tags, rfl, ?_, hproject⟩
    cases hlookup : items.lookup field with
    | none =>
      rw [hlookup] at hfield
      cases hfield
    | some w =>
      rw [hlookup] at hfield
      exact congrArg some hfield

/-- A tag specification can be an item of `by_type`. -/
def Readable (spec : Value) : Prop :=
  ∃ items, spec = .dict items ∧ ((items.lookup (lit "resource_type")).getD .null).hashable = true

/-- The item it is. -/
def itemOf : Value → Value × Value
  | .dict items =>
    ((items.lookup (lit "resource_type")).getD .null, ((items.lookup (lit "tags")).getD .null).or (.dict []))
  | v => (v, .null)

theorem specification_eq_ok_iff (spec : Value) (p : Value × Value) :
    specification spec = .ok p ↔ Readable spec ∧ p = itemOf spec := by
  cases spec with
  | dict items =>
    show (if ((items.lookup (lit "resource_type")).getD .null).hashable = true then
      (Except.ok (itemOf (.dict items)) : Py (Value × Value)) else .error .typeError) = .ok p ↔ _
    constructor
    · intro h
      split at h
      · next hhash => exact ⟨⟨items, rfl, hhash⟩, (Except.ok.inj h).symm⟩
      · cases h
    · rintro ⟨⟨items', heq, hhash⟩, rfl⟩
      cases heq
      rw [if_pos hhash]
  | _ => exact ⟨nofun, fun ⟨⟨_, h, _⟩, _⟩ => by cases h⟩

theorem eq_itemOf {spec : Value} {kind : Str} (h : Readable spec) :
    (itemOf spec).1.eq (.str kind) = ofKind kind spec := by
  obtain ⟨items, rfl, -⟩ := h
  rfl

/-- The last item of a kind is that of the last specification of the kind. -/
theorem lastOf_map {specs : List Value} {kind : Str} (h : ∀ spec ∈ specs, Readable spec) :
    lastOf (specs.map itemOf) kind = (specs.reverse.find? (ofKind kind)).map fun spec => (itemOf spec).2 := by
  unfold lastOf
  rw [← List.map_reverse, List.find?_map, Option.map_map]
  have hfind : specs.reverse.find? ((fun p => p.1.eq (.str kind)) ∘ itemOf) = specs.reverse.find? (ofKind kind) := by
    apply List.find?_congr
    intro spec hspec
    exact eq_itemOf (h spec (List.mem_reverse.mp hspec))
  rw [hfind]
  rfl

theorem carryAll_eq_true_iff {byType : List (Value × Value)} {kinds : List Str} :
    carryAll byType kinds = .ok true ↔
      ∀ kind ∈ kinds, carriesProject ((lastOf byType kind).getD (.dict [])) = .ok true := by
  induction kinds with
  | nil => exact ⟨fun _ _ h => absurd h List.not_mem_nil, fun _ => rfl⟩
  | cons kind kinds ih =>
    rw [List.forall_mem_cons, ← ih, carryAll]
    cases hc : carriesProject ((lastOf byType kind).getD (.dict [])) with
    | error e => exact ⟨nofun, fun h => nomatch h.1⟩
    | ok tagged =>
      cases tagged with
      | true => exact ⟨fun h => ⟨rfl, h⟩, fun h => h.2⟩
      | false => exact ⟨nofun, fun h => nomatch h.1⟩

/-- What is read from a launch template is its list of specifications; anything else has no item, or is no
list. -/
theorem iter_or_eq_ok {v : Value} {l : List Value} (h : (v.or (.list [])).iter = .ok l)
    (hl : ∀ spec ∈ l, Readable spec) (hne : l ≠ []) : v = .list l := by
  unfold Value.or at h
  split at h
  · cases v with
    | list specs => exact congrArg Value.list (Except.ok.inj h)
    | dict items =>
      -- the keys of a dictionary are strings, and a string has no `get`
      obtain rfl := (Except.ok.inj h).symm
      cases items with
      | nil => exact absurd rfl hne
      | cons p items =>
        obtain ⟨_, heq, -⟩ := hl (.str p.1) List.mem_cons_self
        cases heq
    | str s =>
      obtain rfl := (Except.ok.inj h).symm
      cases s with
      | nil => exact absurd rfl hne
      | cons c s =>
        obtain ⟨_, heq, -⟩ := hl (.str [c]) List.mem_cons_self
        cases heq
    | _ => cases h
  · exact absurd (Except.ok.inj h).symm hne

theorem propagates_eq_true_iff {r : Resource} : propagates r = .ok true ↔ Propagates r := by
  -- of the specifications of one kind the last is the one that is looked at
  have hcarry : ∀ {specs : List Value} {kind : Str} {spec : Value}, (∀ s ∈ specs, Readable s) →
      specs.reverse.find? (ofKind kind) = some spec →
        (carriesProject ((lastOf (specs.map itemOf) kind).getD (.dict [])) = .ok true ↔ TaggedIn spec (lit "tags")) := by
    intro specs kind spec hread hfind
    obtain ⟨items, rfl, -⟩ := hread spec (List.mem_reverse.mp (List.mem_of_find?_eq_some hfind))
    rw [lastOf_map hread, hfind, taggedIn_iff]
    exact carriesProject_or
  constructor
  · intro h
    unfold propagates at h
    cases hiter : ((r.value (lit "tag_specifications")).or (.list [])).iter with
    | error e =>
      rw [hiter] at h
      cases h
    | ok specs =>
      cases hmap : specs.mapM specification with
      | error e =>
        rw [hiter] at h
        change (specs.mapM specification >>= _) = _ at h
        rw [hmap] at h
        cases h
      | ok byType =>
        rw [hiter] at h
        change (specs.mapM specification >>= _) = _ at h
        rw [hmap] at h
        obtain ⟨hread, rfl⟩ := (mapM_eq_ok_iff specification_eq_ok_iff).mp hmap
        change (if (launchTypes.all fun kind => (lastOf (specs.map itemOf) kind).isSome) = true then
          carryAll (specs.map itemOf) launchTypes else .ok false) = .ok true at h
        split at h
        · next hall =>
          rw [List.all_eq_true] at hall
          have hfound : ∀ kind ∈ launchTypes, ∃ spec, specs.reverse.find? (ofKind kind) = some spec := by
            intro kind hkind
            have hsome := hall kind hkind
            rw [lastOf_map hread, Option.isSome_map] at hsome
            exact Option.isSome_iff_exists.mp hsome
          -- the value is a list and not the default, since something was found in it
          have hne : specs ≠ [] := by
            rintro rfl
            obtain ⟨_, hnone⟩ := hfound (lit "instance") (by decide)
            cases hnone
          refine ⟨specs, iter_or_eq_ok hiter hread hne, hread, fun kind hkind => ?_⟩
          obtain ⟨spec, hspec⟩ := hfound kind hkind
          exact ⟨spec, hspec, (hcarry hread hspec).mp (carryAll_eq_true_iff.mp h kind hkind)⟩
        · cases h
  · rintro ⟨specs, hvalue, hread, htagged⟩
    have hor : (r.value (lit "tag_specifications")).or (.list []) = .list specs := by
      rw [hvalue]
      cases specs with
      | nil => rfl
      | cons _ _ => rfl
    unfold propagates
    rw [hor]
    change (specs.mapM specification >>= _) = _
    rw [(mapM_eq_ok_iff specification_eq_ok_iff).mpr ⟨hread, rfl⟩]
    change (if (launchTypes.all fun kind => (lastOf (specs.map itemOf) kind).isSome) = true then
      carryAll (specs.map itemOf) launchTypes else .ok false) = .ok true
    rw [if_pos, carryAll_eq_true_iff]
    · intro kind hkind
      obtain ⟨spec, hspec, htag⟩ := htagged kind hkind
      exact (hcarry hread hspec).mpr htag
    · rw [List.all_eq_true]
      intro kind hkind
      obtain ⟨spec, hspec, -⟩ := htagged kind hkind
      rw [lastOf_map hread, hspec]
      rfl

/-- A check that something is so, where finding out may raise. -/
theorem after_ensure_eq_nil_iff {m : Py Bool} {x : Failure} :
    after m (fun b => ensure (b = true) x) = .ok [] ↔ m = .ok true := by
  rw [after_eq_nil_iff]
  constructor
  · rintro ⟨b, hb, hnil⟩
    rw [ensure_eq_nil_iff] at hnil
    rw [hb, hnil]
  · intro hm
    exact ⟨true, hm, ensure_eq_nil_iff.mpr rfl⟩

theorem tagFailures_eq_nil_iff {r : Resource} : tagFailures r = .ok [] ↔ (r.managed = true →
    (r.type ∈ costTagResourceTypes → TaggedIn (.dict r.values) (lit "tags_all")) ∧
      (r.type = lit "aws_launch_template" → Propagates r)) := by
  unfold tagFailures
  split
  · next hmanaged =>
    have hcost : (if costTagResourceTypes.contains r.type = true then
        after (carriesProject ((r.value (lit "tags_all")).or (.dict []))) fun tagged =>
          (ensure (tagged = true) (.projectTag r.shown) : Check Exn Failure)
        else .ok []) = .ok [] ↔ (r.type ∈ costTagResourceTypes → TaggedIn (.dict r.values) (lit "tags_all")) := by
      split
      · next hc =>
        rw [after_ensure_eq_nil_iff, carriesProject_or, taggedIn_iff]
        exact ⟨fun h _ => h, fun h => h (List.contains_iff_mem.mp hc)⟩
      · next hc => exact ⟨fun _ h => absurd (List.contains_iff_mem.mpr h) hc, fun _ => rfl⟩
    have htemplate : (if r.type = lit "aws_launch_template" then
        after (propagates r) fun tagged => (ensure (tagged = true) (.propagatedTags r.shown) : Check Exn Failure)
        else .ok []) = .ok [] ↔ (r.type = lit "aws_launch_template" → Propagates r) := by
      split
      · next ht =>
        rw [after_ensure_eq_nil_iff, propagates_eq_true_iff]
        exact ⟨fun h _ => h, fun h => h ht⟩
      · next ht => exact ⟨fun _ h => absurd h ht, fun _ => rfl⟩
    rw [both_eq_nil_iff, hcost, htemplate]
    exact ⟨fun h _ => h, fun h => h hmanaged⟩
  · next hmanaged => exact ⟨fun _ h => absurd h hmanaged, fun _ => rfl⟩

theorem mem_managed {plan : Plan} {type : Str} {p : Str × Resource} :
    p ∈ plan.managed type ↔ p ∈ plan.walk ∧ p.2.managed = true ∧ p.2.type = type := by
  unfold Plan.managed
  rw [List.mem_filter, Bool.and_eq_true, beq_iff_eq]

theorem projectTagCoverage_eq_nil_iff {plan : Plan} :
    after (projectTagCoverage plan true) (fun coverage => .ok coverage.failures) = .ok [] ↔
      (∀ type ∈ costTagResourceTypes, ∀ p ∈ plan.managed type, TaggedIn (.dict p.2.values) (lit "tags_all")) ∧
      (∀ p ∈ plan.managed (lit "aws_launch_template"), Propagates p.2) ∧
      (plan.managed (lit "aws_launch_template")).length = 1 := by
  -- the summary adds counts, and no failures
  have hfailures : ∀ {c : Check Exn Failure} {f : List Failure → Coverage}, (∀ l, (f l).failures = l) →
      (after (Except.map f c) (fun coverage => (.ok coverage.failures : Check Exn Failure)) = .ok [] ↔ c = .ok []) := by
    intro c f hf
    cases c with
    | error e => exact ⟨nofun, nofun⟩
    | ok l =>
      show (Except.ok (f l).failures : Check Exn Failure) = .ok [] ↔ _
      rw [hf l]
  unfold projectTagCoverage
  rw [hfailures fun l => rfl, both_eq_nil_iff, each_eq_nil_iff, ensure_eq_nil_iff]
  simp only [tagFailures_eq_nil_iff, List.length_map, true_and, not_not, ne_eq]
  constructor
  · rintro ⟨hall, hone⟩
    refine ⟨fun type htype p hp => ?_, fun p hp => ?_, hone⟩
    · obtain ⟨hwalk, hmanaged, rfl⟩ := mem_managed.mp hp
      exact (hall p hwalk hmanaged).1 htype
    · obtain ⟨hwalk, hmanaged, htype⟩ := mem_managed.mp hp
      exact (hall p hwalk hmanaged).2 htype
  · rintro ⟨hcost, htemplate, hone⟩
    refine ⟨fun p hwalk hmanaged => ⟨fun htype => ?_, fun htype => ?_⟩, hone⟩
    · exact hcost p.2.type htype p (mem_managed.mpr ⟨hwalk, hmanaged, rfl⟩)
    · exact htemplate p (mem_managed.mpr ⟨hwalk, hmanaged, htype⟩)

/-! ## The dependency review -/

section Dependencies

variable {printable : Nat → Bool}

/-- The resource plans an add-on. -/
def plansAddon (p : Str × Resource) : Bool := p.2.managed && p.2.type == lit "aws_eks_addon"

theorem plansAddon_iff {p : Str × Resource} :
    plansAddon p = true ↔ p.2.managed = true ∧ p.2.type = lit "aws_eks_addon" := by
  rw [plansAddon, Bool.and_eq_true, beq_iff_eq]

/-- An add-on resource as an item of `addons`. -/
def addonItem (printable : Nat → Bool) (p : Str × Resource) : Str × Addon :=
  (addonName printable p.2, ⟨p.2.name, addonVersion p.2⟩)

theorem step_clusters (s : Review) (p : Str × Resource) : (s.step printable p).clusters =
    s.clusters ++ if (p.2.managed && p.2.type == lit "aws_eks_cluster") = true then [p.2] else [] := by
  unfold Review.step
  by_cases hm : p.2.managed = true
  · by_cases hc : p.2.type = lit "aws_eks_cluster"
    · simp [hm, hc]
    · rw [if_pos hm, if_neg hc]
      split
      · simp [hc]
      · split
        · simp [hc]
        · split <;> simp [hc]
  · simp [hm]

theorem step_nodeGroups (s : Review) (p : Str × Resource) : (s.step printable p).nodeGroups =
    s.nodeGroups ++ if (p.2.managed && p.2.type == lit "aws_eks_node_group") = true then [p.1] else [] := by
  unfold Review.step
  by_cases hm : p.2.managed = true
  · by_cases hn : p.2.type = lit "aws_eks_node_group"
    · have hc : p.2.type ≠ lit "aws_eks_cluster" := by
        rw [hn]
        decide
      rw [if_pos hm, if_neg hc, if_pos hn]
      simp [hm, hn]
    · rw [if_pos hm, if_neg hn]
      split
      · simp [hn]
      · split
        · simp [hn]
        · split <;> simp [hn]
  · simp [hm]

theorem type_of_attachesCni {r : Resource} (h : attachesCni printable r = true) :
    r.type = lit "aws_iam_role_policy_attachment" := by
  rw [attachesCni, Bool.and_eq_true, beq_iff_eq] at h
  exact h.1

theorem step_cniPolicyModules (s : Review) (p : Str × Resource) : (s.step printable p).cniPolicyModules =
    s.cniPolicyModules ++ if (p.2.managed && attachesCni printable p.2) = true then [p.1] else [] := by
  unfold Review.step
  by_cases hm : p.2.managed = true
  · by_cases ha : attachesCni printable p.2 = true
    · have htype := type_of_attachesCni ha
      have hc : p.2.type ≠ lit "aws_eks_cluster" := by
        rw [htype]
        decide
      have hn : p.2.type ≠ lit "aws_eks_node_group" := by
        rw [htype]
        decide
      rw [if_pos hm, if_neg hc, if_neg hn, if_pos ha]
      simp [hm, ha]
    · rw [if_pos hm, if_neg ha]
      split
      · simp [ha]
      · split
        · simp [ha]
        · split <;> simp [ha]
  · simp [hm]

/-- An add-on resource takes no other branch of the loop. -/
theorem step_addon {s : Review} {p : Str × Resource} (h : plansAddon p = true) : s.step printable p =
      { s with
        failures := if (s.addons.lookup (addonName printable p.2)).isSome then
          s.failures ++ [.addonTwice (addonName printable p.2)] else s.failures
        addons := addonItem printable p :: s.addons } := by
  obtain ⟨hm, ht⟩ := plansAddon_iff.mp h
  have hc : p.2.type ≠ lit "aws_eks_cluster" := by
    rw [ht]
    decide
  have hn : p.2.type ≠ lit "aws_eks_node_group" := by
    rw [ht]
    decide
  have ha : ¬ attachesCni printable p.2 = true := by
    intro h
    have htype := type_of_attachesCni h
    rw [ht] at htype
    exact absurd htype (by decide)
  unfold Review.step
  rw [if_pos hm, if_neg hc, if_neg hn, if_neg ha, if_pos ht]
  rfl

/-- A resource that is no managed add-on leaves the add-ons and the failures as they are. -/
theorem step_other {s : Review} {p : Str × Resource} (h : ¬ plansAddon p = true) :
    (s.step printable p).addons = s.addons ∧ (s.step printable p).failures = s.failures := by
  unfold Review.step
  split
  · next hm =>
    split
    · exact ⟨rfl, rfl⟩
    · split
      · exact ⟨rfl, rfl⟩
      · split
        · exact ⟨rfl, rfl⟩
        · rw [if_neg fun ht => h (plansAddon_iff.mpr ⟨hm, ht⟩)]
          exact ⟨rfl, rfl⟩
  · exact ⟨rfl, rfl⟩

theorem step_addons (s : Review) (p : Str × Resource) : (s.step printable p).addons.reverse =
    s.addons.reverse ++ if plansAddon p = true then [addonItem printable p] else [] := by
  by_cases h : plansAddon p = true
  · rw [step_addon h, if_pos h]
    exact List.reverse_cons
  · rw [(step_other h).1, if_neg h, List.append_nil]

/-- The loop has no failure exactly when no two add-ons share a name. -/
theorem failures_eq_nil_iff (l : List (Str × Resource)) (s : Review) :
    (l.foldl (Review.step printable) s).failures = [] ↔ s.failures = [] ∧
      ((l.filter plansAddon).map fun p => addonName printable p.2).Nodup ∧
      ∀ p ∈ l.filter plansAddon, s.addons.lookup (addonName printable p.2) = none := by
  induction l generalizing s with
  | nil => simp
  | cons p l ih =>
    rw [List.foldl_cons, ih]
    -- an add-on fails when its name is taken, and takes its name for the rest
    by_cases h : plansAddon p = true
    · rw [step_addon h, List.filter_cons_of_pos h, List.map_cons, List.nodup_cons, List.forall_mem_cons]
      simp only [addonItem, List.lookup_cons]
      constructor
      · rintro ⟨hfail, hnodup, hnone⟩
        have hfresh : s.addons.lookup (addonName printable p.2) = none := by
          by_contra hsome
          rw [if_pos (Option.isSome_iff_ne_none.mpr hsome)] at hfail
          exact absurd hfail (by simp)
        rw [hfresh] at hfail
        refine ⟨hfail, ⟨?_, hnodup⟩, hfresh, fun q hq => ?_⟩
        · intro hmem
          obtain ⟨q, hq, hname⟩ := List.mem_map.mp hmem
          have := hnone q hq
          simp [hname] at this
        · have := hnone q hq
          split at this
          · cases this
          · exact this
      · rintro ⟨hfail, ⟨hnotMem, hnodup⟩, hfresh, hnone⟩
        refine ⟨?_, hnodup, fun q hq => ?_⟩
        · rw [hfresh]
          exact hfail
        · have hne : (addonName printable q.2 == addonName printable p.2) = false := by
            rw [beq_eq_false_iff_ne]
            intro heq
            exact hnotMem (List.mem_map.mpr ⟨q, hq, heq⟩)
          rw [hne]
          exact hnone q hq
    · rw [(step_other h).1, (step_other h).2, List.filter_cons_of_neg h]

variable {plan : Plan}

theorem review_clusters : (review printable plan).clusters = (plan.managed (lit "aws_eks_cluster")).map (·.2) :=
  foldl_gathers step_clusters plan.walk _

theorem review_nodeGroups :
    (review printable plan).nodeGroups = (plan.managed (lit "aws_eks_node_group")).map (·.1) :=
  foldl_gathers step_nodeGroups plan.walk _

theorem review_cniPolicyModules : (review printable plan).cniPolicyModules =
    (plan.walk.filter fun p => p.2.managed && attachesCni printable p.2).map (·.1) :=
  foldl_gathers step_cniPolicyModules plan.walk _

theorem review_addons : (review printable plan).addons =
    ((plan.managed (lit "aws_eks_addon")).map (addonItem printable)).reverse := by
  have h : (review printable plan).addons.reverse = (plan.walk.filter plansAddon).map (addonItem printable) :=
    @foldl_gathers _ _ _ _ (fun s : Review => s.addons.reverse) _ _ step_addons plan.walk ⟨[], [], [], [], []⟩
  rw [← List.reverse_reverse (review printable plan).addons, h]
  rfl

/-- The add-on found under a name is the one planned with it. -/
theorem lookup_addons
    (once : ((plan.managed (lit "aws_eks_addon")).map fun p => addonName printable p.2).Nodup) {name : Str} {a : Addon} :
    (review printable plan).addons.lookup name = some a ↔
      ∃ p ∈ plan.managed (lit "aws_eks_addon"), addonName printable p.2 = name ∧ a = ⟨p.2.name, addonVersion p.2⟩ := by
  rw [review_addons, lookup_eq_some_iff_mem, List.mem_reverse, List.mem_map]
  · refine exists_congr fun p => and_congr_right fun _ => ?_
    rw [addonItem, Prod.mk.injEq]
    exact and_congr_right fun _ => eq_comm
  · rw [List.map_reverse, List.nodup_reverse, List.map_map]
    exact once

theorem addonFailures_eq_nil_iff
    (once : ((plan.managed (lit "aws_eks_addon")).map fun p => addonName printable p.2).Nodup) {name : Str} :
    addonFailures (review printable plan) name = [] ↔ Pinned printable plan name := by
  unfold addonFailures Pinned
  cases hlookup : (review printable plan).addons.lookup name with
  | none =>
    refine ⟨nofun, ?_⟩
    rintro ⟨p, hp, hname, -⟩
    rw [(lookup_addons once).mpr ⟨p, hp, hname, rfl⟩] at hlookup
    cases hlookup
  | some a =>
    obtain ⟨p, hp, hname, rfl⟩ := (lookup_addons once).mp hlookup
    constructor
    · intro h
      refine ⟨p, hp, hname, fun hversion => ?_⟩
      change (if addonVersion p.2 = none then _ else _) = _ at h
      rw [if_pos hversion] at h
      cases h
    · rintro ⟨q, hq, hqname, hversion⟩
      rw [(lookup_addons once).mpr ⟨q, hq, hqname, rfl⟩] at hlookup
      rw [← Option.some.inj hlookup]
      exact if_neg hversion

theorem clusterFailures_eq_nil_iff
    (once : ((plan.managed (lit "aws_eks_addon")).map fun p => addonName printable p.2).Nodup) :
    clusterFailures (review printable plan) = [] ↔ ∃ p, plan.managed (lit "aws_eks_cluster") = [p] ∧
      (p.2.value (lit "bootstrap_self_managed_addons") = .bool true ∨
        p.2.value (lit "bootstrap_self_managed_addons") = .bool false ∧ Networked printable plan) := by
  unfold clusterFailures
  rw [review_clusters]
  -- no cluster and two clusters are failures of their own
  cases hone : plan.managed (lit "aws_eks_cluster") with
  | nil =>
    constructor
    · intro h
      cases h
    · rintro ⟨_, h, -⟩
      cases h
  | cons p rest =>
    cases rest with
    | cons q rest =>
      constructor
      · intro h
        cases h
      · rintro ⟨_, h, -⟩
        cases h
    | nil =>
      simp only [List.map_cons, List.map_nil]
      constructor
      · intro h
        refine ⟨p, rfl, ?_⟩
        split at h
        · next hfalse =>
          obtain ⟨hpinned, hplaced⟩ := List.append_eq_nil_iff.mp h
          rw [List.flatMap_eq_nil_iff] at hpinned
          refine Or.inr ⟨hfalse, fun name hname => (addonFailures_eq_nil_iff once).mp (hpinned name hname), ?_⟩
          intro q hq hname
          rw [(lookup_addons once).mpr ⟨q, hq, hname, rfl⟩] at hplaced
          by_contra hne
          change (if q.2.name = some (lit "before_compute") then [] else [Failure.placement]) = [] at hplaced
          rw [if_neg hne] at hplaced
          cases hplaced
        · next htrue => exact Or.inl htrue
        · cases h
      · rintro ⟨p', heq, hflag⟩
        obtain rfl := (List.cons.inj heq).1
        rcases hflag with htrue | ⟨hfalse, hpinned, hplaced⟩
        · rw [htrue]
        · rw [hfalse]
          show _ ++ _ = []
          rw [List.append_eq_nil_iff, List.flatMap_eq_nil_iff]
          refine ⟨fun name hname => (addonFailures_eq_nil_iff once).mpr (hpinned name hname), ?_⟩
          cases hlookup : (review printable plan).addons.lookup (lit "vpc-cni") with
          | none => rfl
          | some a =>
            obtain ⟨q, hq, hname, rfl⟩ := (lookup_addons once).mp hlookup
            exact if_pos (hplaced q hq hname)

theorem mem_cniPolicyModules {address : Str} :
    address ∈ (review printable plan).cniPolicyModules ↔ CniPolicyIn printable plan address := by
  rw [review_cniPolicyModules, List.mem_map]
  refine exists_congr fun q => ?_
  rw [List.mem_filter, Bool.and_eq_true, and_assoc, and_assoc]

theorem eksDependencyReview_eq_nil_iff : (eksDependencyReview printable plan true).failures = [] ↔
    ((plan.managed (lit "aws_eks_addon")).map fun p => addonName printable p.2).Nodup ∧
    (∃ p, plan.managed (lit "aws_eks_cluster") = [p] ∧
      (p.2.value (lit "bootstrap_self_managed_addons") = .bool true ∨
        p.2.value (lit "bootstrap_self_managed_addons") = .bool false ∧ Networked printable plan)) ∧
    plan.managed (lit "aws_eks_node_group") ≠ [] ∧
    ∀ p ∈ plan.managed (lit "aws_eks_node_group"), CniPolicyIn printable plan p.1 := by
  have honce : (review printable plan).failures = [] ↔
      ((plan.managed (lit "aws_eks_addon")).map fun p => addonName printable p.2).Nodup := by
    show (plan.walk.foldl (Review.step printable) ⟨[], [], [], [], []⟩).failures = [] ↔ _
    rw [failures_eq_nil_iff]
    exact ⟨fun h => h.2.1, fun h => ⟨rfl, h, fun _ _ => rfl⟩⟩
  have hgroups : (if (review printable plan).nodeGroups = [] then [Failure.nodeGroups] else []) = [] ↔
      plan.managed (lit "aws_eks_node_group") ≠ [] := by
    rw [review_nodeGroups]
    cases plan.managed (lit "aws_eks_node_group") with
    | nil => simp
    | cons _ _ => simp
  have hpolicy : (((review printable plan).nodeGroups.filter
      fun a => !(review printable plan).cniPolicyModules.contains a).map Failure.cniPolicy) = [] ↔
      ∀ p ∈ plan.managed (lit "aws_eks_node_group"), CniPolicyIn printable plan p.1 := by
    rw [List.map_eq_nil_iff, List.filter_eq_nil_iff, review_nodeGroups, List.forall_mem_map]
    refine forall₂_congr fun p _ => ?_
    rw [← mem_cniPolicyModules]
    simp
  show (review printable plan).failures ++ clusterFailures (review printable plan) ++ _ ++ _ = [] ↔ _
  rw [List.append_eq_nil_iff, List.append_eq_nil_iff, List.append_eq_nil_iff, hgroups, hpolicy, honce]
  constructor
  · rintro ⟨⟨⟨once, hcluster⟩, hne⟩, hcni⟩
    exact ⟨once, (clusterFailures_eq_nil_iff once).mp hcluster, hne, hcni⟩
  · rintro ⟨once, hcluster, hne, hcni⟩
    exact ⟨⟨⟨once, (clusterFailures_eq_nil_iff once).mpr hcluster⟩, hne⟩, hcni⟩

/-! ## The gate -/

/-- The gate has no failure exactly when the plan is as its reviews ask. -/
theorem gate_eq_nil_iff (h : AllEnabled plan.shape) : gate printable plan = .ok [] ↔ Reviewed printable plan := by
  obtain ⟨eks, heks, he⟩ := h (lit "enable_eks") (by decide)
  have hdependencies : (.ok (eksDependencyReview printable plan true).failures : Check Exn Failure) = .ok [] ↔
      (eksDependencyReview printable plan true).failures = [] :=
    ⟨Except.ok.inj, congrArg Except.ok⟩
  unfold gate
  rw [both_eq_nil_iff, both_eq_nil_iff, heks, after_ok, he, both_eq_nil_iff, gateFailures_eq_nil_iff h,
    nodeGroupShapeFailures_eq_nil_iff heks he, projectTagCoverage_eq_nil_iff, hdependencies,
    eksDependencyReview_eq_nil_iff]
  constructor
  · rintro ⟨⟨planned, kept, limits⟩, ⟨-, shaped⟩, ⟨tagged, propagated, template⟩, once, cluster, nodeGroup, policy⟩
    exact { planned, kept, limits, shaped, tagged, propagated, template, once, cluster, nodeGroup, policy }
  · intro r
    obtain ⟨_, _, _, _, desired, largest, capacity, _, _, _, _, _, _, hreports, _⟩ := r.limits
    exact ⟨⟨r.planned, r.kept, r.limits⟩, ⟨⟨desired, largest, capacity, hreports⟩, r.shaped⟩,
      ⟨r.tagged, r.propagated, r.template⟩, r.once, r.cluster, r.nodeGroup, r.policy⟩

end Dependencies

/-- A filter that keeps as many as a wider one keeps all the wider one keeps. -/
theorem managed_of_length_eq {plan : Plan} {type : Str}
    (h : (plan.managed type).length = (plan.walk.filter fun p => p.2.type == type).length) {p : Str × Resource}
    (hp : p ∈ plan.walk) (htype : p.2.type = type) : p.2.managed = true := by
  unfold Plan.managed at h
  rw [← List.filter_filter, List.length_filter_eq_length_iff] at h
  exact h p (List.mem_filter.mpr ⟨hp, beq_iff_eq.mpr htype⟩)

theorem length_managed_le (plan : Plan) (type : Str) :
    (plan.managed type).length ≤ (plan.walk.filter fun p => p.2.type == type).length := by
  unfold Plan.managed
  rw [← List.filter_filter]
  exact List.length_filter_le _ _

section Soundness

variable {printable : Nat → Bool} {plan : Plan}

/-- Of a reviewed plan without data resources of the counted types, each hourly type is managed once. -/
theorem Reviewed.one (r : Reviewed printable plan)
    (h : ∀ p ∈ plan.walk, p.2.type ∈ countedTypes → p.2.managed = true) {type : Str}
    (htype : type ∈ hourlyResourceTypes) : (plan.managed type).length = 1 := by
  have hcounted : type ∈ countedTypes → (plan.managed type).length = 1 := by
    intro hmem
    rw [← r.planned type htype]
    unfold Plan.managed
    rw [← List.filter_filter, List.length_filter_eq_length_iff]
    intro p hp
    obtain ⟨hwalk, heq⟩ := List.mem_filter.mp hp
    exact h p hwalk (by rwa [beq_iff_eq.mp heq])
  simp only [hourlyResourceTypes, List.mem_cons, List.not_mem_nil, or_false] at htype
  rcases htype with rfl | rfl | rfl | rfl | rfl
  · exact hcounted (by decide)
  · obtain ⟨p, hone, -⟩ := r.cluster
    rw [hone]
    rfl
  · have hle := length_managed_le plan (lit "aws_eks_node_group")
    rw [r.planned (lit "aws_eks_node_group") (by decide)] at hle
    have hpos := List.length_pos_of_ne_nil r.nodeGroup
    omega
  · exact hcounted (by decide)
  · exact hcounted (by decide)

/-- A specification is the last of its kind, or a later one of the kind hides it. -/
theorem hidden_or_last {specs front back : List Value} {spec : Value} {kind : Str}
    (h : specs = front ++ spec :: back) (hkind : ofKind kind spec = true) :
    (∃ later ∈ back, ofKind kind later = true) ∨ specs.reverse.find? (ofKind kind) = some spec := by
  by_cases hlater : ∃ later ∈ back, ofKind kind later = true
  · exact Or.inl hlater
  · refine Or.inr ?_
    rw [h, List.reverse_append, List.reverse_cons, List.append_assoc, List.find?_append, List.find?_eq_none.mpr]
    · simp [hkind]
    · intro later hmem htrue
      exact hlater ⟨later, List.mem_reverse.mp hmem, htrue⟩

/-- **The gate is sound on a plan exactly when, all flags set and every review content, it has no data
resource of a counted type and no untagged specification that a later one hides.** -/
theorem gateSound_iff (printable : Nat → Bool) (plan : Plan) :
    GateSound printable plan ↔ (AllEnabled plan.shape → Reviewed printable plan → Plain plan) := by
  constructor
  · intro h henabled r
    have hsound := h henabled ((gate_eq_nil_iff henabled).mpr r)
    refine ⟨fun p hp htype => ?_, fun p hp kind hkind front spec back hsplit hof _ => ?_⟩
    · have hhourly : p.2.type ∈ hourlyResourceTypes := by
        have hsub : ∀ t ∈ countedTypes, t ∈ hourlyResourceTypes := by decide
        exact hsub _ htype
      exact managed_of_length_eq ((hsound.one _ hhourly).trans (r.planned _ hhourly).symm) hp rfl
    · refine hsound.propagated p hp kind hkind spec ?_ hof
      rw [hsplit]
      exact List.mem_append_right _ List.mem_cons_self
  · intro h henabled hgate
    have r := (gate_eq_nil_iff henabled).mp hgate
    have hplain := h henabled r
    refine
      { one := fun type htype => r.one hplain.counted htype
        shaped := r.shaped
        tagged := r.tagged
        template := r.template
        propagated := ?_
        kept := r.kept
        networked := ?_
        policy := r.policy }
    · intro p hp kind hkind spec hspec hof
      obtain ⟨specs, hvalue, -, hlast⟩ := r.propagated p hp
      have hspecs : p.2.specifications = specs := by
        unfold Resource.specifications
        rw [hvalue]
      obtain ⟨front, back, hsplit⟩ := List.append_of_mem hspec
      -- a specification is the last of its kind or hidden by a later one
      rcases hidden_or_last (hspecs ▸ hsplit) hof with hhidden | hfind
      · exact hplain.unhidden p hp kind hkind front spec back hsplit hof hhidden
      · obtain ⟨last, hlastEq, htag⟩ := hlast kind hkind
        rw [hfind] at hlastEq
        rwa [Option.some.inj hlastEq]
    · intro p hp hflag
      obtain ⟨q, hone, hself | hnetworked⟩ := r.cluster
      · rw [hone] at hp
        rw [List.mem_singleton.mp hp, hself] at hflag
        cases hflag
      · exact hnetworked.2

end Soundness

/-! ## A plan without a database -/

/-- A tag map with the Project tag. -/
def projectTags : Value := .dict [(lit "Project", .str projectName)]

/-- A managed resource of the root module. -/
def planned (type : String) (values : Dict) : Resource :=
  ⟨some (lit "managed"), lit type, some (lit "this"), some (lit type ++ lit ".this"), .null, values⟩

/-- The shape this repository reports. -/
def reportedShape : Value := .dict [
  (lit "enable_rds", .bool true), (lit "enable_eks", .bool true), (lit "enable_msk", .bool true),
  (lit "expected_hourly_usd", .int 1), (lit "maximum_hourly_usd", .int 2),
  (lit "kafka", .dict [(lit "total_partitions", .int 13)]),
  (lit "eks", .dict [(lit "node_desired", .int 3), (lit "node_maximum", .int 3),
    (lit "node_capacity_type", .str (lit "SPOT"))])]

/-- A specification of the launch template. -/
def launched (kind : String) : Value :=
  .dict [(lit "resource_type", .str (lit kind)), (lit "tags", projectTags)]

/-- A plan that reads a database and creates none. -/
def borrowedDatabase : Plan where
  rootModule := .mk none [
    { planned "aws_db_instance" [] with mode := some (lit "data") },
    planned "aws_eks_cluster" [(lit "tags_all", projectTags), (lit "bootstrap_self_managed_addons", .bool true)],
    planned "aws_eks_node_group" [(lit "tags_all", projectTags),
      (lit "scaling_config", .list [.dict [(lit "desired_size", .int 3), (lit "max_size", .int 3)]]),
      (lit "capacity_type", .str (lit "SPOT"))],
    planned "aws_msk_serverless_cluster" [(lit "tags_all", projectTags)],
    planned "aws_nat_gateway" [(lit "tags_all", projectTags)],
    planned "aws_launch_template"
      [(lit "tag_specifications", .list [launched "instance", launched "volume", launched "network-interface"])],
    planned "aws_iam_role_policy_attachment"
      [(lit "policy_arn", .str (lit "arn:aws:iam::aws:policy/AmazonEKS_CNI_Policy"))]] []
  resourceChanges := []
  shape := reportedShape

/-- The gate passes it: the data resource is counted as the planned database. -/
theorem not_gateSound_borrowedDatabase : ¬ GateSound (fun _ => true) borrowedDatabase := by
  intro h
  have hchanges : hourlyChanges borrowedDatabase = [] := List.mergeSort_nil
  have henabled : AllEnabled borrowedDatabase.shape := by
    intro flag hflag
    simp only [List.mem_cons, List.not_mem_nil, or_false] at hflag
    rcases hflag with rfl | rfl | rfl
    · exact ⟨.bool true, rfl, rfl⟩
    · exact ⟨.bool true, rfl, rfl⟩
    · exact ⟨.bool true, rfl, rfl⟩
  have hgate : gate (fun _ => true) borrowedDatabase = .ok [] := by
    unfold gate
    rw [hchanges]
    rfl
  have hone : 0 = 1 := (h henabled hgate).one (lit "aws_db_instance") (by decide)
  exact absurd hone (by decide)

end LocalPlatform.Stage.PlanGate
