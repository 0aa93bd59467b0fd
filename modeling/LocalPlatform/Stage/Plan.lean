/-
# LocalPlatform.Stage.Plan — the gate a Terraform plan passes before it may be applied.

`check-aws-plan.py` reads the JSON of a saved plan: a tree of modules with the resources they plan, the
changes, and the runtime shape the plan reports.  Five reviews walk the tree, each with its own filter,
and the gate passes when none of them has a failure.

The tree is typed as Terraform documents it; what a provider writes in `values`, and the reported shape,
are values of any kind.  A review is a `Check`: the list of its failures, unless it raises.  `Reviewed`
says of a plan what the five reviews look at, and `Sound` what a passed plan is to be.
-/
import LocalPlatform.Logic.Findings
import LocalPlatform.Python.Value

namespace LocalPlatform.Stage.PlanGate

open LocalPlatform.Python LocalPlatform.Logic Check

/-! ## The plan -/

/-- A planned resource.  An absent or null `values` is the empty one, an absent `index` is `None`. -/
structure Resource where
  mode : Option Str
  type : Str
  name : Option Str
  address : Option Str
  index : Value
  values : Dict

/-- A module with its resources and the modules inside it. -/
inductive Module where
  | mk (address : Option Str) (resources : List Resource) (childModules : List Module)

/-- An element of `resource_changes`. -/
structure Change where
  address : Str
  type : Str
  actions : List Str

/-- A plan: `planned_values.root_module`, `resource_changes`, and the output `runtime_shape`. -/
structure Plan where
  rootModule : Module
  resourceChanges : List Change
  shape : Value

/-- `module.get("address", "")` -/
def Module.address : Module → Str
  | .mk a _ _ => a.getD []

/-- `module.get("resources", [])` -/
def Module.resources : Module → List Resource
  | .mk _ rs _ => rs

mutual

/-- `modules`: the module itself, then those inside it. -/
def modules : Module → List Module
  | .mk a rs children => .mk a rs children :: modulesAll children

def modulesAll : List Module → List Module
  | [] => []
  | m :: ms => modules m ++ modulesAll ms

end

/-- `resource.get("mode", "managed") == "managed"` -/
def Resource.managed (r : Resource) : Bool := r.mode.getD (lit "managed") == lit "managed"

/-- `values.get(field)` -/
def Resource.value (r : Resource) (field : Str) : Value := (r.values.lookup field).getD .null

/-- The resources of all modules, each with the address of its module, as every review goes through them. -/
def Plan.walk (plan : Plan) : List (Str × Resource) :=
  (modules plan.rootModule).flatMap fun m => m.resources.map fun r => (m.address, r)

/-- The managed resources of a type, over all modules. -/
def Plan.managed (plan : Plan) (type : Str) : List (Str × Resource) :=
  plan.walk.filter fun p => p.2.managed && p.2.type == type

/-! ## What the reviews look for -/

/-- `HOURLY_RESOURCE_TYPES` -/
def hourlyResourceTypes : List Str :=
  [lit "aws_db_instance", lit "aws_eks_cluster", lit "aws_eks_node_group", lit "aws_msk_serverless_cluster",
    lit "aws_nat_gateway"]

/-- `COST_TAG_RESOURCE_TYPES` -/
def costTagResourceTypes : List Str :=
  hourlyResourceTypes ++
    [lit "aws_s3_bucket", lit "aws_sns_topic", lit "aws_sqs_queue", lit "aws_ecr_repository",
      lit "aws_eip", lit "aws_cloudwatch_log_group", lit "aws_secretsmanager_secret",
      lit "aws_instance", lit "aws_ebs_volume", lit "aws_ebs_snapshot", lit "aws_kms_key"]

/-- `launch_types` -/
def launchTypes : List Str := [lit "instance", lit "volume", lit "network-interface"]

/-- `EKS_NETWORK_ADDONS` -/
def eksNetworkAddons : List Str :=
  [lit "coredns", lit "eks-pod-identity-agent", lit "kube-proxy", lit "vpc-cni"]

/-- `CNI_POLICY_SUFFIX` -/
def cniPolicySuffix : Str := lit ":policy/AmazonEKS_CNI_Policy"

/-- `Project=my-local-platform` -/
def projectName : Str := lit "my-local-platform"

/-- A failure, with what its message names. -/
inductive Failure where
  /-- `{type} planned count {n} must be 1 when enabled` -/
  | plannedCount (type : Str) (n : Nat)
  /-- `{type} is planned while its flag is disabled` -/
  | plannedDisabled (type : Str)
  /-- `{type} is created while its flag is disabled` -/
  | createdDisabled (type : Str)
  /-- `{address} would delete an enabled hourly resource` -/
  | deletes (address : Str)
  /-- `expected hourly cost {expected} exceeds {maximum}` -/
  | hourlyCost (expected maximum : Value)
  /-- `Kafka partition count {n} exceeds 13` -/
  | partitions (n : Value)
  /-- `EKS node capacity type is not SPOT` -/
  | capacityType
  /-- `EKS node maximum {n} exceeds 3` -/
  | nodeMaximum (n : Value)
  /-- `EKS desired node count exceeds its maximum` -/
  | nodeDesired
  /-- `{address} plans {key} {planned}, but the reported shape says {value}` -/
  | nodeGroup (address key : Str) (planned value : Value)
  /-- `{address} lacks Project=my-local-platform` -/
  | projectTag (address : Str)
  /-- `{address} lacks propagated Project tags` -/
  | propagatedTags (address : Str)
  /-- `EKS requires exactly one reviewed tagged launch template` -/
  | launchTemplates
  /-- `EKS add-on {name} is planned more than once` -/
  | addonTwice (name : Str)
  /-- `EKS dependency review expects exactly one planned cluster` -/
  | clusters
  /-- `EKS add-on {name} is missing while self-managed networking bootstrap is disabled` -/
  | addonMissing (name : Str)
  /-- `EKS add-on {name} has no known version in the saved plan` -/
  | addonUnpinned (name : Str)
  /-- `vpc-cni must be a before_compute add-on` -/
  | placement
  /-- `cannot confirm how EKS networking is installed` -/
  | bootstrap
  /-- `EKS dependency review found no managed node group` -/
  | nodeGroups
  /-- `{address} node group role lacks AmazonEKS_CNI_Policy` -/
  | cniPolicy (address : Str)

/-! ## Counts and changes -/

/-- `planned_resource_type_counts`, as the count of each type. -/
def plannedResourceTypeCounts (plan : Plan) (type : Str) : Nat :=
  plan.walk.countP fun p => p.2.type == type

/-- `create_resource_type_counts`, as the count of each type. -/
def createResourceTypeCounts (plan : Plan) (type : Str) : Nat :=
  plan.resourceChanges.countP fun c => c.actions.contains (lit "create") && c.type == type

/-- `selected_changes` -/
def selectedChanges (plan : Plan) (types : List Str) : List Change :=
  (plan.resourceChanges.filter fun c => types.contains c.type && c.actions != [lit "no-op"]).mergeSort
    fun c d => decide (c.address ≤ d.address)

/-- `hourly_changes` -/
def hourlyChanges (plan : Plan) : List Change := selectedChanges plan hourlyResourceTypes

/-! ## `gate_failures` -/

/-- `enabled`: the flag that stands for a type, one of the hourly ones. -/
def enabled (rds eks msk : Value) (type : Str) : Bool :=
  if type = lit "aws_db_instance" then rds.truthy
  else if type = lit "aws_msk_serverless_cluster" then msk.truthy
  else eks.truthy

/-- The checks of one hourly type. -/
def typeFailures (enabled : Str → Bool) (planned creates : Str → Nat) (type : Str) : Check Exn Failure :=
  both (ensure (¬ (enabled type = true ∧ planned type ≠ 1)) (.plannedCount type (planned type))) <|
  both (ensure (¬ (enabled type = false ∧ planned type ≠ 0)) (.plannedDisabled type)) <|
  ensure (¬ (enabled type = false ∧ creates type ≠ 0)) (.createdDisabled type)

/-- A number in a format string: anything else cannot be shown with four decimals. -/
def fixed (v : Value) : Py Unit :=
  match v, v.amount with
  | _, some _ => .ok ()
  | .str _, _ => .error .valueError
  | _, _ => .error .typeError

/-- The check of the hourly cost. -/
def costFailures (shape : Value) : Check Exn Failure :=
  after (shape.item (lit "expected_hourly_usd")) fun expected =>
  after (shape.item (lit "maximum_hourly_usd")) fun maximum =>
  after (expected.gt maximum) fun exceeds =>
    if exceeds then after (fixed expected) fun _ => after (fixed maximum) fun _ => .ok [.hourlyCost expected maximum]
    else .ok []

/-- The check of the Kafka partitions. -/
def partitionFailures (shape : Value) : Check Exn Failure :=
  after (shape.item (lit "kafka")) fun kafka =>
  after (kafka.item (lit "total_partitions")) fun total =>
  after (total.gt (.int 13)) fun exceeds => ensure (exceeds = false) (.partitions total)

/-- The checks of the reported node group. -/
def nodeFailures (shape : Value) : Check Exn Failure :=
  after (shape.item (lit "eks")) fun eks =>
  after (shape.item (lit "enable_eks")) fun flag =>
    if flag.truthy then
      both (after (eks.item (lit "node_capacity_type")) fun capacity =>
        ensure (capacity.eq (.str (lit "SPOT")) = true) .capacityType) <|
      both (after (eks.item (lit "node_maximum")) fun maximum =>
        after (maximum.gt (.int 3)) fun exceeds => ensure (exceeds = false) (.nodeMaximum maximum)) <|
      after (eks.item (lit "node_desired")) fun desired => after (eks.item (lit "node_maximum")) fun maximum =>
        after (desired.gt maximum) fun exceeds => ensure (exceeds = false) .nodeDesired
    else .ok []

/-- `gate_failures` -/
def gateFailures (shape : Value) (planned creates : Str → Nat) (changes : List Change) : Check Exn Failure :=
  after (shape.item (lit "enable_rds")) fun rds =>
  after (shape.item (lit "enable_eks")) fun eks =>
  after (shape.item (lit "enable_msk")) fun msk =>
    both (each (typeFailures (enabled rds eks msk) planned creates) hourlyResourceTypes) <|
    both (each (fun c => ensure (¬ (enabled rds eks msk c.type = true ∧ lit "delete" ∈ c.actions))
      (.deletes c.address)) changes) <|
    both (costFailures shape) <|
    both (partitionFailures shape) <|
    nodeFailures shape

/-! ## `node_group_shape_failures` -/

/-- The scaling of a node group: the one block of `scaling_config`, or nothing known. -/
def scaling (values : Dict) : Dict :=
  match values.lookup (lit "scaling_config") with
  | some (.list [.dict block]) => block
  | _ => []

/-- `planned`: what a node group plans under a key of `expected`. -/
def plannedShape (r : Resource) (key : Str) : Value :=
  if key = lit "capacity_type" then r.value key else ((scaling r.values).lookup key).getD .null

/-- `node_group_shape_failures` -/
def nodeGroupShapeFailures (plan : Plan) (shape : Value) : Check Exn Failure :=
  after (shape.item (lit "enable_eks")) fun flag =>
    if flag.truthy then
      after (shape.item (lit "eks")) fun eks =>
      after (eks.item (lit "node_desired")) fun desired =>
      after (eks.item (lit "node_maximum")) fun maximum =>
      after (eks.item (lit "node_capacity_type")) fun capacity =>
        each (fun p => each (fun e : Str × Value =>
            ensure ((plannedShape p.2 e.1).eq e.2 = true)
              (.nodeGroup (p.2.address.getD (lit "aws_eks_node_group")) e.1 (plannedShape p.2 e.1) e.2))
          [(lit "desired_size", desired), (lit "max_size", maximum), (lit "capacity_type", capacity)])
          (plan.managed (lit "aws_eks_node_group"))
    else .ok []

/-! ## `project_tag_coverage` -/

/-- `tags.get("Project") == "my-local-platform"` -/
def carriesProject (tags : Value) : Py Bool := do
  let value ← tags.get (lit "Project")
  return value.eq (.str projectName)

/-- One item of `by_type`. -/
def specification (spec : Value) : Py (Value × Value) := do
  let kind ← spec.get (lit "resource_type")
  let tags ← spec.get (lit "tags")
  if kind.hashable then return (kind, tags.or (.dict [])) else throw .typeError

/-- `by_type.get(kind)`: of the items with one key, a dictionary keeps the last. -/
def lastOf (byType : List (Value × Value)) (kind : Str) : Option Value :=
  (byType.reverse.find? fun p => p.1.eq (.str kind)).map (·.2)

/-- Every launched type carries the tag in `by_type`; the first that does not settles it. -/
def carryAll (byType : List (Value × Value)) : List Str → Py Bool
  | [] => return true
  | kind :: kinds => do
    if ← carriesProject ((lastOf byType kind).getD (.dict [])) then carryAll byType kinds else return false

/-- The tags a launch template gives what it launches. -/
def propagates (r : Resource) : Py Bool := do
  let specifications ← ((r.value (lit "tag_specifications")).or (.list [])).iter
  let byType ← specifications.mapM specification
  if launchTypes.all fun kind => (lastOf byType kind).isSome then carryAll byType launchTypes else return false

/-- `resource.get("address", kind)` -/
def Resource.shown (r : Resource) : Str := r.address.getD r.type

/-- The checks of one resource. -/
def tagFailures (r : Resource) : Check Exn Failure :=
  if r.managed then
    both (if costTagResourceTypes.contains r.type then
        after (carriesProject ((r.value (lit "tags_all")).or (.dict []))) fun tagged =>
          ensure (tagged = true) (.projectTag r.shown)
      else .ok []) <|
    if r.type = lit "aws_launch_template" then
      after (propagates r) fun tagged => ensure (tagged = true) (.propagatedTags r.shown)
    else .ok []
  else .ok []

/-- `sorted` of strings -/
def sorted (l : List Str) : List Str := l.mergeSort fun s t => decide (s ≤ t)

/-- What `project_tag_coverage` returns. -/
structure Coverage where
  resources : List Str
  launchTemplates : List Str
  failures : List Failure

/-- `project_tag_coverage` -/
def projectTagCoverage (plan : Plan) (eksEnabled : Bool) : Py Coverage :=
  let launchTemplates := (plan.managed (lit "aws_launch_template")).map (·.2.shown)
  let checked := plan.walk.filter fun p => p.2.managed && costTagResourceTypes.contains p.2.type
  Except.map (fun failures => ⟨sorted (checked.map (·.2.shown)), sorted launchTemplates, failures⟩) <|
    both (each (fun p => tagFailures p.2) plan.walk) <|
    ensure (¬ (eksEnabled = true ∧ launchTemplates.length ≠ 1)) .launchTemplates

/-! ## `eks_dependency_review` -/

/-- An item of `addons`. -/
structure Addon where
  placement : Option Str
  version : Option Str
  deriving DecidableEq

/-- What the walk of `eks_dependency_review` gathers; the add-ons are in the order they were set, the last
first. -/
structure Review where
  clusters : List Resource
  nodeGroups : List Str
  cniPolicyModules : List Str
  addons : List (Str × Addon)
  failures : List Failure

section Dependencies

-- `str.isprintable`, as `str` of a list or a dictionary shows its strings
variable (printable : Nat → Bool)

/-- `name`: the add-on a resource plans. -/
def addonName (r : Resource) : Str := ((r.value (lit "addon_name")).or r.index).text printable

/-- The version a resource pins its add-on to: a string that is not empty. -/
def addonVersion (r : Resource) : Option Str :=
  match r.value (lit "addon_version") with
  | .str s => if s = [] then none else some s
  | _ => none

/-- The resource attaches the CNI policy. -/
def attachesCni (r : Resource) : Bool :=
  r.type == lit "aws_iam_role_policy_attachment"
    && Str.endswith cniPolicySuffix (((r.values.lookup (lit "policy_arn")).getD (.str [])).text printable)

/-- One turn of the loop. -/
def Review.step (s : Review) (p : Str × Resource) : Review :=
  if p.2.managed then
    if p.2.type = lit "aws_eks_cluster" then { s with clusters := s.clusters ++ [p.2] }
    else if p.2.type = lit "aws_eks_node_group" then { s with nodeGroups := s.nodeGroups ++ [p.1] }
    else if attachesCni printable p.2 then { s with cniPolicyModules := s.cniPolicyModules ++ [p.1] }
    else if p.2.type = lit "aws_eks_addon" then
      let name := addonName printable p.2
      { s with
        failures := if (s.addons.lookup name).isSome then s.failures ++ [.addonTwice name] else s.failures
        addons := (name, ⟨p.2.name, addonVersion p.2⟩) :: s.addons }
    else s
  else s

/-- The loop over all resources. -/
def review (plan : Plan) : Review := plan.walk.foldl (Review.step printable) ⟨[], [], [], [], []⟩

/-- What is asked of one add-on where networking is not self-managed. -/
def addonFailures (s : Review) (name : Str) : List Failure :=
  match s.addons.lookup name with
  | none => [.addonMissing name]
  | some addon => if addon.version = none then [.addonUnpinned name] else []

/-- What is asked of the planned cluster. -/
def clusterFailures (s : Review) : List Failure :=
  match s.clusters with
  | [cluster] =>
    match cluster.value (lit "bootstrap_self_managed_addons") with
    | .bool false =>
      eksNetworkAddons.flatMap (addonFailures s) ++
        match s.addons.lookup (lit "vpc-cni") with
        | some cni => if cni.placement = some (lit "before_compute") then [] else [.placement]
        | none => []
    | .bool true => []
    | _ => [.bootstrap]
  | _ => [.clusters]

/-- What `eks_dependency_review` returns. -/
structure DependencyReview where
  required : Bool
  bootstrapSelfManagedAddons : Value
  addons : List (Str × Addon)
  cniPolicyNodeGroups : List Str
  failures : List Failure

/-- The flag of the one planned cluster. -/
def bootstrapOf (s : Review) : Value :=
  match s.clusters with
  | [cluster] => cluster.value (lit "bootstrap_self_managed_addons")
  | _ => .null

/-- `eks_dependency_review` -/
def eksDependencyReview (plan : Plan) (eksEnabled : Bool) : DependencyReview :=
  if eksEnabled then
    let s := review printable plan
    { required := true
      bootstrapSelfManagedAddons := bootstrapOf s
      addons := (sorted (s.addons.map (·.1)).dedup).filterMap fun n => (s.addons.lookup n).map fun a => (n, a)
      cniPolicyNodeGroups := sorted (s.nodeGroups.filter fun a => s.cniPolicyModules.contains a)
      failures := s.failures ++ clusterFailures s ++ (if s.nodeGroups = [] then [.nodeGroups] else [])
        ++ (s.nodeGroups.filter fun a => !s.cniPolicyModules.contains a).map .cniPolicy }
  else ⟨false, .null, [], [], []⟩

/-! ## The combined gate -/

/-- The failures `main` gathers: the gate passes when there are none. -/
def gate (plan : Plan) : Check Exn Failure :=
  both (gateFailures plan.shape (plannedResourceTypeCounts plan) (createResourceTypeCounts plan)
    (hourlyChanges plan)) <|
  both (nodeGroupShapeFailures plan plan.shape) <|
  after (plan.shape.item (lit "enable_eks")) fun flag =>
  both (after (projectTagCoverage plan flag.truthy) fun coverage => .ok coverage.failures) <|
  .ok (eksDependencyReview printable plan flag.truthy).failures

end Dependencies

end LocalPlatform.Stage.PlanGate
