/-
# LocalPlatform.Stage.Inventory — what the AWS inventory finds, and what it is shown and misses.

`collect` asks AWS eleven questions and keeps, of each answer, the entries its filter for that service
takes for the project's; a paid session may end when nothing of nine services was kept.  Each filter is
written out by hand from a mix of name, tag and ARN rules.

The answers are the typed lists AWS documents.  Over them stands one notion of belonging, the same for
every service: by name, by own tags, or by an ARN the Project-tag query returned.  An ARN the answer does
not spell out is a function of the entry that agrees with what the answer does say (`Arns`), so the
results hold for every such naming.  The inventory misses nothing exactly when it kept something anyway
or when no entry is of a kind its service's filter cannot see (`Missed`).
-/
import LocalPlatform.Python.Text
import Mathlib.Data.List.Basic

namespace LocalPlatform.Stage

open LocalPlatform.Python

/-! ## The answers -/

/-- `PROJECT` -/
def project : Str := lit "my-local-platform"

/-- `NAME_PREFIX` -/
def namePrefix : Str := lit "mlp-"

/-- One element of a list of tags. -/
structure Tag where
  /-- `Key` -/
  key : Option Str
  /-- `Value` -/
  value : Option Str
  deriving DecidableEq

/-- An element of `ClusterInfoList`; its `Tags` are a map. -/
structure MskCluster where
  clusterName : Str
  clusterArn : Str
  tags : Option (List (Str × Str))
  deriving DecidableEq

/-- An element of `DBInstances`. -/
structure DbInstance where
  dbInstanceIdentifier : Str
  dbInstanceArn : Str
  tagList : Option (List Tag)
  deriving DecidableEq

/-- An element of a reservation's `Instances`. -/
structure Instance where
  instanceId : Str
  tags : Option (List Tag)
  deriving DecidableEq

/-- An element of `Reservations`. -/
structure Reservation where
  instances : List Instance
  deriving DecidableEq

/-- An element of `Volumes`. -/
structure Volume where
  volumeId : Str
  tags : Option (List Tag)
  deriving DecidableEq

/-- An element of `Addresses`. -/
structure Address where
  allocationId : Str
  tags : Option (List Tag)
  deriving DecidableEq

/-- An element of `LoadBalancers`. -/
structure LoadBalancer where
  loadBalancerName : Str
  loadBalancerArn : Str
  deriving DecidableEq

/-- An element of `repositories`. -/
structure Repository where
  repositoryName : Str
  repositoryArn : Str
  deriving DecidableEq

/-- An element of `NatGateways`. -/
structure NatGateway where
  natGatewayId : Str
  state : Str
  tags : Option (List Tag)
  deriving DecidableEq

/-- An element of `logGroups`. -/
structure LogGroup where
  logGroupName : Str
  arn : Str
  deriving DecidableEq

/-- The complete answers to the eleven questions. -/
structure Answers where
  /-- `ResourceARN` of each element of `ResourceTagMappingList` -/
  resourceTagMappingList : List (Option Str)
  /-- `clusters`, by name -/
  clusters : List Str
  clusterInfoList : List MskCluster
  dbInstances : List DbInstance
  reservations : List Reservation
  volumes : List Volume
  addresses : List Address
  loadBalancers : List LoadBalancer
  repositories : List Repository
  natGateways : List NatGateway
  logGroups : List LogGroup

/-! ## The filters -/

/-- `project_name` -/
def projectName : Option Str → Bool
  | some value => Str.contains namePrefix value
  | none => false

/-- `project_tagged` -/
def projectTagged (tags : List Tag) : Bool :=
  tags.any fun tag =>
    (tag.key == some (lit "Project") && tag.value == some project)
      || tag.key.any (Str.startswith (lit "kubernetes.io/cluster/mlp-"))
      || (tag.key == some (lit "Name") && projectName tag.value)

/-- `instance_tags` -/
def instanceTags (i : Instance) : List Tag := i.tags.getD []

/-- The services whose entries are filtered. -/
inductive Service where
  | eks | msk | rds | ec2 | ebs | eip | elb | ecr | nat | logs
  deriving DecidableEq

/-- What the answer for a service lists. -/
def Entry : Service → Type
  | .eks => Str
  | .msk => MskCluster
  | .rds => DbInstance
  | .ec2 => Instance
  | .ebs => Volume
  | .eip => Address
  | .elb => LoadBalancer
  | .ecr => Repository
  | .nat => NatGateway
  | .logs => LogGroup

namespace Answers

variable (a : Answers)

/-- The entries an answer lists for a service. -/
def listed : (s : Service) → List (Entry s)
  | .eks => a.clusters
  | .msk => a.clusterInfoList
  | .rds => a.dbInstances
  | .ec2 => a.reservations.flatMap (·.instances)
  | .ebs => a.volumes
  | .eip => a.addresses
  | .elb => a.loadBalancers
  | .ecr => a.repositories
  | .nat => a.natGateways
  | .logs => a.logGroups

/-- `tagged_arns` -/
def taggedArns : List Str := a.resourceTagMappingList.filterMap id

/-- The condition under which `collect` keeps an entry of a service. -/
def keeps : (s : Service) → Entry s → Bool
  | .eks, (name : Str) => projectName (some name)
  | .msk, (cluster : MskCluster) =>
    projectName (some cluster.clusterName) || decide (cluster.clusterArn ∈ a.taggedArns)
  | .rds, (database : DbInstance) =>
    projectName (some database.dbInstanceIdentifier) || decide (database.dbInstanceArn ∈ a.taggedArns)
  | .ec2, (i : Instance) => projectTagged (instanceTags i)
  | .ebs, (volume : Volume) => projectTagged (volume.tags.getD [])
  | .eip, (address : Address) => projectTagged (address.tags.getD [])
  | .elb, (loadBalancer : LoadBalancer) =>
    projectName (some loadBalancer.loadBalancerName) || decide (loadBalancer.loadBalancerArn ∈ a.taggedArns)
  | .ecr, (repository : Repository) =>
    projectName (some repository.repositoryName) || decide (repository.repositoryArn ∈ a.taggedArns)
  | .nat, (gateway : NatGateway) => projectTagged (gateway.tags.getD []) && gateway.state != lit "deleted"
  | .logs, (group : LogGroup) => projectName (some group.logGroupName) || decide (group.arn ∈ a.taggedArns)

/-- `resources` -/
def resources (s : Service) : List (Entry s) := (a.listed s).filter (a.keeps s)

end Answers

/-- `RUNTIME_SERVICES` -/
def runtimeServices : List Service := [.eks, .msk, .rds, .ec2, .ebs, .eip, .elb, .nat, .logs]

/-- What `collect` returns. -/
structure Inventory where
  capturedAt : Str
  region : Str
  tagged : List (Option Str)
  resources : (s : Service) → List (Entry s)
  counts : Service → Nat
  runtimeResourcesPresent : List (Service × Nat)
  runtimeEmpty : Bool

/-- `collect`, at the time `captured`; without a region it asks nothing. -/
def collect (region captured : Str) (a : Answers) : Except Str Inventory :=
  if region = [] then .error (lit "AWS_REGION or --region is required")
  else
    let counts := fun s => (a.resources s).length
    let present := (runtimeServices.filter fun s => counts s != 0).map fun s => (s, counts s)
    .ok {
      capturedAt := captured
      region := region
      tagged := a.resourceTagMappingList
      resources := a.resources
      counts := counts
      runtimeResourcesPresent := present
      runtimeEmpty := present.isEmpty }

/-- `require_cleanup_inventory`: after the destroy the image repositories must be gone as well. -/
def requireCleanupInventory (inventory : Inventory) (output : Str) : Inventory :=
  if output = lit "21-inventory-after.json" ∧ inventory.counts .ecr ≠ 0 then
    { inventory with
      runtimeResourcesPresent := inventory.runtimeResourcesPresent ++ [(.ecr, inventory.counts .ecr)]
      runtimeEmpty := false }
  else inventory

/-- The services whose entries must be gone for the verdict written to `output`. -/
def required (output : Str) : List Service :=
  runtimeServices ++ if output = lit "21-inventory-after.json" then [.ecr] else []

/-! ## Belonging -/

/-- A listed resource as its owner sees it. -/
structure Resource where
  name : Option Str
  tags : List Tag
  arn : Str

/-- It belongs to the project: by name, by its own tags, or by its ARN. -/
def Resource.Belongs (tagged : List Str) (r : Resource) : Prop :=
  projectName r.name = true ∨ projectTagged r.tags = true ∨ r.arn ∈ tagged

/-- Own tags and the tag query say the same of the Project tag. -/
def Agree (tagged : List Str) (tags : List Tag) (arn : Str) : Prop :=
  (∃ tag ∈ tags, tag.key = some (lit "Project") ∧ tag.value = some project) ↔ arn ∈ tagged

/-- The tags of a map of tags. -/
def tagsOf (tags : List (Str × Str)) : List Tag := tags.map fun p => ⟨some p.1, some p.2⟩

/-- The ARNs of listed entries, where an answer does not spell them out.  The listed ones are the ARN
itself, but for a log group's, which may end in `:*`. -/
structure Arns (a : Answers) where
  cluster : Str → Str
  instance_ : Instance → Str
  volume : Volume → Str
  address : Address → Str
  natGateway : NatGateway → Str
  cluster_name : ∀ name ∈ a.clusters, lit "cluster/" ++ name <:+ cluster name
  msk_agree : ∀ c ∈ a.clusterInfoList, ∀ tags, c.tags = some tags → Agree a.taggedArns (tagsOf tags) c.clusterArn
  rds_agree : ∀ d ∈ a.dbInstances, ∀ tags, d.tagList = some tags → Agree a.taggedArns tags d.dbInstanceArn
  ec2_agree : ∀ i ∈ a.listed .ec2, ∀ tags, Instance.tags i = some tags → Agree a.taggedArns tags (instance_ i)
  ebs_agree : ∀ v ∈ a.volumes, ∀ tags, v.tags = some tags → Agree a.taggedArns tags (volume v)
  eip_agree : ∀ e ∈ a.addresses, ∀ tags, e.tags = some tags → Agree a.taggedArns tags (address e)
  nat_agree : ∀ g ∈ a.natGateways, ∀ tags, g.tags = some tags → Agree a.taggedArns tags (natGateway g)

namespace Arns

variable {a : Answers} (arns : Arns a)

/-- A listed entry as a resource. -/
def resource : (s : Service) → Entry s → Resource
  | .eks, (name : Str) => ⟨some name, [], arns.cluster name⟩
  | .msk, (c : MskCluster) => ⟨some c.clusterName, tagsOf (c.tags.getD []), c.clusterArn⟩
  | .rds, (d : DbInstance) => ⟨some d.dbInstanceIdentifier, d.tagList.getD [], d.dbInstanceArn⟩
  | .ec2, (i : Instance) => ⟨none, instanceTags i, arns.instance_ i⟩
  | .ebs, (v : Volume) => ⟨none, v.tags.getD [], arns.volume v⟩
  | .eip, (e : Address) => ⟨none, e.tags.getD [], arns.address e⟩
  | .elb, (l : LoadBalancer) => ⟨some l.loadBalancerName, [], l.loadBalancerArn⟩
  | .ecr, (r : Repository) => ⟨some r.repositoryName, [], r.repositoryArn⟩
  | .nat, (g : NatGateway) => ⟨none, g.tags.getD [], arns.natGateway g⟩
  | .logs, (g : LogGroup) => ⟨some g.logGroupName, [], Str.removesuffix (lit ":*") g.arn⟩

/-- A NAT gateway in the state `deleted` is no longer there. -/
def Present : (s : Service) → Entry s → Prop
  | .nat, (g : NatGateway) => g.state ≠ lit "deleted"
  | _, _ => True

/-- A listed entry belongs to the project. -/
def Belongs (s : Service) (e : Entry s) : Prop :=
  Present s e ∧ (arns.resource s e).Belongs a.taggedArns

/-- The entries of the project that the filter of their service cannot see. -/
def Missed : (s : Service) → Entry s → Prop
  -- a cluster found by its tags alone: the filter reads names only
  | .eks, (name : Str) => projectName (some name) = false ∧ arns.cluster name ∈ a.taggedArns
  -- a cluster tag or a `Name` tag, without the Project tag: the filter reads no tags
  | .msk, (c : MskCluster) => a.keeps .msk c = false ∧ projectTagged (tagsOf (c.tags.getD [])) = true
  | .rds, (d : DbInstance) => a.keeps .rds d = false ∧ projectTagged (d.tagList.getD []) = true
  -- an entry that carries no tags, known to the tag query: the filter compares no ARNs
  | .ec2, (i : Instance) => i.tags = none ∧ arns.instance_ i ∈ a.taggedArns
  | .ebs, (v : Volume) => v.tags = none ∧ arns.volume v ∈ a.taggedArns
  | .eip, (e : Address) => e.tags = none ∧ arns.address e ∈ a.taggedArns
  | .nat, (g : NatGateway) => g.state ≠ lit "deleted" ∧ g.tags = none ∧ arns.natGateway g ∈ a.taggedArns
  -- a group found by its tags alone: the listed ARN ends in `:*`, the tagged one does not
  | .logs, (g : LogGroup) =>
    a.keeps .logs g = false ∧ Str.removesuffix (lit ":*") g.arn ∈ a.taggedArns
  | .elb, _ => False
  | .ecr, _ => False

end Arns

/-- **The verdict written to `output` misses nothing of what it was shown.** -/
def MissesNothing (region captured output : Str) {a : Answers} (arns : Arns a) : Prop :=
  ∀ inventory, collect region captured a = .ok inventory →
    (requireCleanupInventory inventory output).runtimeEmpty = true →
      ∀ s ∈ required output, ∀ e ∈ a.listed s, ¬ arns.Belongs s e

/-! ## The verdict -/

theorem projectTagged_of_project {tags : List Tag}
    (h : ∃ tag ∈ tags, tag.key = some (lit "Project") ∧ tag.value = some project) : projectTagged tags = true := by
  obtain ⟨tag, hmem, hkey, hvalue⟩ := h
  apply List.any_eq_true.mpr
  refine ⟨tag, hmem, ?_⟩
  rw [hkey, hvalue]
  simp

theorem length_resources_eq_zero_iff (a : Answers) (s : Service) :
    (a.resources s).length = 0 ↔ ∀ e ∈ a.listed s, a.keeps s e = false := by
  rw [List.length_eq_zero_iff]
  show (a.listed s).filter (a.keeps s) = [] ↔ _
  rw [List.filter_eq_nil_iff]
  simp only [Bool.not_eq_true]

/-- The session may end when nothing was kept of any service the verdict counts. -/
theorem runtimeEmpty_iff {region captured output : Str} {a : Answers} {inventory : Inventory}
    (h : collect region captured a = .ok inventory) :
    (requireCleanupInventory inventory output).runtimeEmpty = true ↔
      ∀ s ∈ required output, ∀ e ∈ a.listed s, a.keeps s e = false := by
  unfold collect at h
  split at h
  · cases h
  · cases h
    have hnine : (((runtimeServices.filter fun s => (a.resources s).length != 0).map
        fun s => (s, (a.resources s).length)).isEmpty = true) ↔
        ∀ s ∈ runtimeServices, ∀ e ∈ a.listed s, a.keeps s e = false := by
      rw [List.isEmpty_iff, List.map_eq_nil_iff, List.filter_eq_nil_iff]
      refine forall₂_congr fun s _ => ?_
      rw [← length_resources_eq_zero_iff]
      simp
    unfold requireCleanupInventory required
    split
    · next hecr =>
      -- the destroy file, with a repository left: the verdict is taken back
      rw [if_pos hecr.1]
      refine ⟨nofun, fun hall => ?_⟩
      exact absurd ((length_resources_eq_zero_iff a .ecr).mpr
        (hall .ecr (List.mem_append_right _ (List.mem_singleton.mpr rfl)))) hecr.2
    · next hecr =>
      refine hnine.trans ⟨fun hall s hs => ?_, fun hall s hs => hall s (List.mem_append_left _ hs)⟩
      rcases List.mem_append.mp hs with hs | hs
      · exact hall s hs
      · split at hs
        · next hout =>
          obtain rfl := List.mem_singleton.mp hs
          apply (length_resources_eq_zero_iff a .ecr).mp
          by_contra hne
          exact hecr ⟨hout, hne⟩
        · exact absurd hs List.not_mem_nil

/-! ## One service at a time -/

namespace Arns

variable {a : Answers} (arns : Arns a)

/-- Where own tags are carried, the tag query adds nothing to them. -/
theorem kept_of_carried {tags : Option (List Tag)} {arn : Str}
    (hagree : ∀ ts, tags = some ts → Agree a.taggedArns ts arn) (hcarried : tags ≠ none) (h : arn ∈ a.taggedArns) :
    projectTagged (tags.getD []) = true := by
  obtain ⟨ts, rfl⟩ := Option.ne_none_iff_exists'.mp hcarried
  exact projectTagged_of_project ((hagree ts rfl).mpr h)

/-- A service whose filter reads tags keeps its own, but for those only the tag query knows. -/
theorem kept_or_uncarried {tags : Option (List Tag)} {arn : Str}
    (hagree : ∀ ts, tags = some ts → Agree a.taggedArns ts arn)
    (h : (⟨none, tags.getD [], arn⟩ : Resource).Belongs a.taggedArns) :
    projectTagged (tags.getD []) = true ∨ tags = none ∧ arn ∈ a.taggedArns := by
  rcases h with hname | htags | harn
  · cases hname
  · exact Or.inl htags
  · by_cases hcarried : tags = none
    · exact Or.inr ⟨hcarried, harn⟩
    · exact Or.inl (kept_of_carried hagree hcarried harn)

/-- A service whose filter reads names and ARNs keeps its own, but for those only their tags tell. -/
theorem kept_or_tagged {name : Str} {tags : List Tag} {arn : Str} {kept : Bool}
    (hkept : kept = (projectName (some name) || decide (arn ∈ a.taggedArns)))
    (h : (⟨some name, tags, arn⟩ : Resource).Belongs a.taggedArns) :
    kept = true ∨ kept = false ∧ projectTagged tags = true := by
  cases hk : kept with
  | true => exact Or.inl rfl
  | false =>
    rw [hk] at hkept
    rcases h with hname | htags | harn
    · simp [show projectName (some name) = true from hname] at hkept
    · exact Or.inr ⟨rfl, htags⟩
    · simp [show arn ∈ a.taggedArns from harn] at hkept

/-- Whatever belongs to the project is kept, or is of a kind its filter cannot see. -/
theorem kept_or_missed {s : Service} {e : Entry s} (he : e ∈ a.listed s) (h : arns.Belongs s e) :
    a.keeps s e = true ∨ arns.Missed s e := by
  obtain ⟨hpresent, hbelongs⟩ := h
  -- a service keeps by name, by tags or by both, and what it does not look at may be missed
  cases s with
  | eks =>
    show projectName (some e) = true ∨ projectName (some e) = false ∧ _
    rcases hbelongs with hname | htags | harn
    · exact Or.inl hname
    · cases htags
    · cases hname : projectName (some e) with
      | true => exact Or.inl rfl
      | false => exact Or.inr ⟨rfl, harn⟩
  | msk => exact kept_or_tagged rfl hbelongs
  | rds => exact kept_or_tagged rfl hbelongs
  | ec2 => exact kept_or_uncarried (arns.ec2_agree e he) hbelongs
  | ebs => exact kept_or_uncarried (arns.ebs_agree e he) hbelongs
  | eip => exact kept_or_uncarried (arns.eip_agree e he) hbelongs
  | elb =>
    refine Or.inl ((@kept_or_tagged _ _ [] _ _ rfl hbelongs).resolve_right ?_)
    rintro ⟨-, htags⟩
    cases htags
  | ecr =>
    refine Or.inl ((@kept_or_tagged _ _ [] _ _ rfl hbelongs).resolve_right ?_)
    rintro ⟨-, htags⟩
    cases htags
  | nat =>
    rcases kept_or_uncarried (arns.nat_agree e he) hbelongs with htags | hquery
    · refine Or.inl ?_
      show (projectTagged (NatGateway.tags e |>.getD []) && NatGateway.state e != lit "deleted") = true
      rw [htags, Bool.true_and, bne_iff_ne]
      exact hpresent
    · exact Or.inr ⟨hpresent, hquery⟩
  | logs =>
    show a.keeps .logs e = true ∨ a.keeps .logs e = false ∧ _
    cases hk : a.keeps .logs e with
    | true => exact Or.inl rfl
    | false =>
      rcases hbelongs with hname | htags | harn
      · have : a.keeps .logs e = true := by
          show (projectName (some (LogGroup.logGroupName e)) || _) = true
          rw [show projectName (some (LogGroup.logGroupName e)) = true from hname, Bool.true_or]
        rw [this] at hk
        cases hk
      · cases htags
      · exact Or.inr ⟨rfl, harn⟩

/-- An entry no filter can see does belong to the project. -/
theorem belongs_of_missed {s : Service} {e : Entry s} (h : arns.Missed s e) : arns.Belongs s e := by
  cases s with
  | eks => exact ⟨trivial, Or.inr (Or.inr h.2)⟩
  | msk => exact ⟨trivial, Or.inr (Or.inl h.2)⟩
  | rds => exact ⟨trivial, Or.inr (Or.inl h.2)⟩
  | ec2 => exact ⟨trivial, Or.inr (Or.inr h.2)⟩
  | ebs => exact ⟨trivial, Or.inr (Or.inr h.2)⟩
  | eip => exact ⟨trivial, Or.inr (Or.inr h.2)⟩
  | elb => exact h.elim
  | ecr => exact h.elim
  | nat => exact ⟨h.1, Or.inr (Or.inr h.2.2)⟩
  | logs => exact ⟨trivial, Or.inr (Or.inr h.2)⟩

end Arns

/-- **The inventory misses nothing exactly when it kept something anyway, or was shown no entry that the
filter of its service cannot see.** -/
theorem missesNothing_iff (region captured output : Str) {a : Answers} (arns : Arns a) :
    MissesNothing region captured output arns ↔
      region = [] ∨ (∃ s ∈ required output, ∃ e ∈ a.listed s, a.keeps s e = true)
        ∨ ∀ s ∈ required output, ∀ e ∈ a.listed s, ¬ arns.Missed s e := by
  constructor
  · intro h
    by_cases hregion : region = []
    · exact Or.inl hregion
    by_cases hkept : ∃ s ∈ required output, ∃ e ∈ a.listed s, a.keeps s e = true
    · exact Or.inr (Or.inl hkept)
    refine Or.inr (Or.inr fun s hs e he hmissed => ?_)
    -- with a region the collection always ends
    obtain ⟨inventory, hcollect⟩ : ∃ inventory, collect region captured a = .ok inventory := by
      unfold collect
      rw [if_neg hregion]
      exact ⟨_, rfl⟩
    refine h inventory hcollect ((runtimeEmpty_iff hcollect).mpr fun s' hs' e' he' => ?_) s hs e he
      (arns.belongs_of_missed hmissed)
    by_contra hk
    exact hkept ⟨s', hs', e', he', by simpa using hk⟩
  · intro h inventory hcollect hempty s hs e he hbelongs
    have hnone := (runtimeEmpty_iff hcollect).mp hempty
    rcases h with hregion | ⟨s', hs', e', he', hk⟩ | hmissed
    · rw [collect, if_pos hregion] at hcollect
      cases hcollect
    · rw [hnone s' hs' e' he'] at hk
      cases hk
    -- what belongs to the project and is listed is kept or missed
    · rcases arns.kept_or_missed he hbelongs with hk | hm
      · rw [hnone s hs e he] at hk
        cases hk
      · exact hmissed s hs e he hm

/-- An account whose one resource is a cluster of another name, tagged with the project's tag. -/
def strayCluster : Answers where
  resourceTagMappingList := [some (lit "arn:aws:eks:us-east-1:111122223333:cluster/analytics")]
  clusters := [lit "analytics"]
  clusterInfoList := []
  dbInstances := []
  reservations := []
  volumes := []
  addresses := []
  loadBalancers := []
  repositories := []
  natGateways := []
  logGroups := []

/-- Its ARNs. -/
def strayArns : Arns strayCluster where
  cluster := fun name => lit "arn:aws:eks:us-east-1:111122223333:cluster/" ++ name
  instance_ := Instance.instanceId
  volume := Volume.volumeId
  address := Address.allocationId
  natGateway := NatGateway.natGatewayId
  cluster_name := fun name _ => by
    show lit "cluster/" ++ name <:+ (lit "arn:aws:eks:us-east-1:111122223333:" ++ lit "cluster/") ++ name
    rw [List.append_assoc]
    exact List.suffix_append _ _
  msk_agree := nofun
  rds_agree := nofun
  ec2_agree := nofun
  ebs_agree := nofun
  eip_agree := nofun
  nat_agree := nofun

/-- The inventory calls that account empty. -/
theorem not_missesNothing_stray :
    ¬ MissesNothing (lit "us-east-1") (lit "2026-09-22T10:00:00Z") (lit "04-inventory-before.json") strayArns := by
  intro h
  refine h _ rfl (by decide) .eks (by decide) (lit "analytics") List.mem_cons_self ⟨trivial, Or.inr (Or.inr ?_)⟩
  exact List.mem_cons_self

end LocalPlatform.Stage
