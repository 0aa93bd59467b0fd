/-
# LocalPlatform.Metrics.Lag — the poller that publishes a consumer group's lag.

One `Refresh` asks the broker four things: the partitions of the topic, the offsets the group has
committed, the ends of every partition, and the members of the group.  What it publishes is a list of
gauge writes; the lag of single partitions is published as far as it could be read, and the total, the
group's assignments and the time of the measurement only together and only when nothing is missing.
-/
import Mathlib.Data.List.Dedup
import LocalPlatform.Metrics.Gauge

namespace LocalPlatform.Metrics

open Codec

/-! ## The broker's answers -/

structure TopicMetadata where
  name : Bytes
  error : Option Bytes
  partitions : List Int
  deriving DecidableEq, Repr

structure OffsetFetchPartition where
  partition : Int
  committedOffset : Int64
  error : Option Bytes
  deriving DecidableEq

structure OffsetFetchResponse where
  error : Option Bytes
  topics : Bytes → List OffsetFetchPartition

structure PartitionOffsets where
  partition : Int
  firstOffset : Int64
  lastOffset : Int64
  error : Option Bytes
  deriving DecidableEq

structure GroupMemberTopic where
  topic : Bytes
  partitions : List Int
  deriving DecidableEq, Repr

structure GroupMember where
  memberID : Bytes
  topics : List GroupMemberTopic
  deriving DecidableEq, Repr

structure Group where
  groupID : Bytes
  error : Option Bytes
  groupState : Bytes
  members : List GroupMember
  deriving DecidableEq, Repr

/-- What one poll is answered: four requests, each of which may fail, and the clock at its end.  An
error is its text. -/
structure Answers where
  metadata : Except Bytes (List TopicMetadata)
  offsetFetch : Except Bytes OffsetFetchResponse
  listOffsets : Except Bytes (Bytes → List PartitionOffsets)
  describeGroups : Except Bytes (List Group)
  now : Int

/-- A refresh that failed, and whether `errGroupAssignmentInTransition` is behind it. -/
structure Failure where
  text : Bytes
  inTransition : Bool
  deriving DecidableEq, Repr

/-- Any other failure. -/
def Failure.new (text : Bytes) : Failure := ⟨text, false⟩

/-- The gauges a refresh sets. -/
inductive Gauge where
  | highWatermark
  | committedOffset
  | consumerLag
  | lagPartitionsMissing
  | consumerLagTotal
  | groupMembers
  | groupUnassignedMembers
  | topicPartitionsUnassigned
  | lagRefreshedAt
  deriving DecidableEq, Repr

structure LagPoller where
  group : Bytes
  topic : Bytes
  deriving DecidableEq, Repr

/-! ## One answer each -/

/-- **`lagFor committed first last`** — what is retained and not committed. -/
def lagFor (committed first last : Int64) : Int64 :=
  let committed := if committed < 0 then first else committed
  let lag := last - committed
  if 0 < lag then lag else 0

/-- The entries of an answer that carry no error. -/
def readable {α : Type} (entries : List (Int × Except Bytes α)) : List (Int × α) :=
  entries.filterMap fun e => match e.2 with
    | .ok v => some (e.1, v)
    | .error _ => none

/-- The errors of an answer, with the partition each is about. -/
def partitionErrs {α : Type} (entries : List (Int × Except Bytes α)) : List Bytes :=
  entries.filterMap fun e => match e.2 with
    | .ok _ => none
    | .error text => some (ascii "partition " ++ decInt e.1 ++ ascii ": " ++ text)

/-- One element of an answer: the partition it is about, and what it says or its error. -/
def entry {α β : Type} (partition : β → Int) (error : β → Option Bytes) (value : β → α) (part : β) :
    Int × Except Bytes α :=
  (partition part, match error part with
    | some e => .error e
    | none => .ok (value part))

/-- What was read of a partition; its last entry counts. -/
def latest {α : Type} (entries : List (Int × Except Bytes α)) (partition : Int) : Option α :=
  (readable entries).reverse.lookup partition

/-- The loop of `committedOffsets` and of `partitionBounds`: a map from partitions to what was read, and
an error when there are only errors. -/
def collect {α : Type} (entries : List (Int × Except Bytes α)) : Except Failure (Int → Option α) :=
  if readable entries = [] ∧ partitionErrs entries ≠ [] then
    .error (.new ([0x0a].intercalate (partitionErrs entries)))
  else .ok (latest entries)

namespace LagPoller

variable (quoted : Bytes → Bytes) (p : LagPoller)

/-- **`partitions`** — the ids the metadata names for the topic. -/
def partitions (a : Answers) : Except Failure (List Int) :=
  match a.metadata with
  | .error e => .error (.new (ascii "topic metadata: " ++ e))
  | .ok topics => match topics.find? fun t => t.name == p.topic with
    | none => .error (.new (ascii "topic " ++ quoted p.topic ++ ascii " not present in metadata"))
    | some topic => match topic.error with
      | some e => .error (.new (ascii "topic " ++ quoted p.topic ++ ascii " metadata: " ++ e))
      | none => .ok topic.partitions

def committedEntry : OffsetFetchPartition → Int × Except Bytes Int64 := entry (·.partition) (·.error) (·.committedOffset)

/-- **`committedOffsets`**. -/
def committedOffsets (a : Answers) : Except Failure (Int → Option Int64) :=
  let failed (e : Bytes) : Except Failure (Int → Option Int64) :=
    .error (.new (ascii "offset fetch for group " ++ quoted p.group ++ ascii ": " ++ e))
  match a.offsetFetch with
  | .error e => failed e
  | .ok res => match res.error with
    | some e => failed e
    | none => collect ((res.topics p.topic).map committedEntry)

structure OffsetBounds where
  first : Int64
  last : Int64
  deriving DecidableEq

def boundsEntry : PartitionOffsets → Int × Except Bytes OffsetBounds :=
  entry (·.partition) (·.error) fun part => ⟨part.firstOffset, part.lastOffset⟩

/-- **`partitionBounds`**. -/
def partitionBounds (a : Answers) : Except Failure (Int → Option OffsetBounds) :=
  match a.listOffsets with
  | .error e => .error (.new (ascii "list offsets for topic " ++ quoted p.topic ++ ascii ": " ++ e))
  | .ok topics => collect ((topics p.topic).map boundsEntry)

/-! ## The group -/

structure AssignmentCoverage where
  members : Nat
  unassignedMembers : Nat
  unassignedPartitions : Int
  deriving DecidableEq, Repr

/-- What a member holds of the topic, in the order it is listed. -/
def held (member : GroupMember) : List Int :=
  (member.topics.filter fun t => t.topic == p.topic).flatMap GroupMemberTopic.partitions

/-- One partition a member holds: it is known, and nobody else holds it. -/
def assign (known : List Int) (member : GroupMember) (assigned : List (Int × Bytes)) (partition : Int) :
    Except Failure (List (Int × Bytes)) :=
  if partition ∉ known then
    .error (.new (ascii "group " ++ quoted p.group ++ ascii " member " ++ quoted member.memberID ++
      ascii " holds unknown partition " ++ decInt partition ++ ascii " of topic " ++ quoted p.topic))
  else match assigned.lookup partition with
    | some owner =>
      if owner ≠ member.memberID then
        .error (.new (ascii "group " ++ quoted p.group ++ ascii " reports partition " ++ decInt partition ++
          ascii " of topic " ++ quoted p.topic ++ ascii " assigned to both " ++ quoted owner ++ ascii " and " ++
          quoted member.memberID))
      else .ok assigned
    | none => .ok ((partition, member.memberID) :: assigned)

/-- One member: the partitions assigned so far, and how many members hold none. -/
def assignMember (known : List Int) (tally : List (Int × Bytes) × Nat) (member : GroupMember) :
    Except Failure (List (Int × Bytes) × Nat) :=
  match (p.held member).foldlM (p.assign quoted known member) tally.1 with
  | .error e => .error e
  | .ok assigned => .ok (assigned, if p.held member = [] then tally.2 + 1 else tally.2)

/-- The assignments of a stable group. -/
def stableCoverage (partitions : List Int) (members : List GroupMember) : Except Failure AssignmentCoverage :=
  match members.foldlM (p.assignMember quoted partitions.dedup) ([], 0) with
  | .error e => .error e
  | .ok (assigned, unassigned) =>
    .ok ⟨members.length, unassigned, partitions.dedup.length - assigned.length⟩

/-- **`groupCoverage`**. -/
def groupCoverage (a : Answers) (partitions : List Int) : Except Failure AssignmentCoverage :=
  match a.describeGroups with
  | .error e => .error (.new (ascii "describe group " ++ quoted p.group ++ ascii ": " ++ e))
  | .ok groups => match groups.find? fun g => g.groupID == p.group with
    | none => .error (.new (ascii "group " ++ quoted p.group ++ ascii " not present in describe response"))
    | some group => match group.error with
      | some e => .error (.new (ascii "describe group " ++ quoted p.group ++ ascii ": " ++ e))
      | none =>
        if group.groupState = ascii "Stable" then p.stableCoverage quoted partitions group.members
        else if group.groupState = ascii "Empty" ∨ group.groupState = ascii "Dead" then
          if group.members.length ≠ 0 then
            .error (.new (ascii "group " ++ quoted p.group ++ ascii " is " ++ group.groupState ++
              ascii " but reports " ++ dec group.members.length ++ ascii " members"))
          else .ok ⟨0, 0, partitions.length⟩
        else .error ⟨ascii "consumer group assignment is in transition: group " ++ quoted p.group ++
          ascii " is " ++ group.groupState ++ ascii "; assignment snapshot is incomplete", true⟩

/-! ## The refresh -/

/-- The loop over the partitions: the writes so far, the running total and the count of the missing. -/
structure Tally where
  writes : List (Write Gauge)
  total : Float64
  missing : Nat

/-- One partition. -/
def visit (committed : Int → Option Int64) (bounds : Int → Option OffsetBounds) (t : Tally) (partition : Int) :
    Tally :=
  match bounds partition with
  | none => { t with missing := t.missing + 1 }
  | some b =>
    -- the end of a partition is published even when its committed offset is missing
    let watermark := ⟨.highWatermark, [p.topic, decInt partition], .ofInt b.last.toInt⟩
    match committed partition with
    | none => { t with writes := t.writes ++ [watermark], missing := t.missing + 1 }
    | some offset =>
      let lag : Float64 := .ofInt (lagFor offset b.first b.last).toInt
      { t with
        writes := t.writes ++ [watermark,
          ⟨.committedOffset, [p.group, p.topic, decInt partition], .ofInt offset.toInt⟩,
          ⟨.consumerLag, [p.group, p.topic, decInt partition], lag⟩]
        total := t.total.add lag }

/-- The measurement: what the four answers say once they were all read. -/
structure Evidence where
  partitions : List Int
  committed : Int → Option Int64
  bounds : Int → Option OffsetBounds
  coverage : AssignmentCoverage

/-- The four requests, in their order; the first that fails ends the refresh. -/
def gather (a : Answers) : Except Failure Evidence :=
  match p.partitions quoted a with
  | .error e => .error e
  | .ok ids =>
    if ids = [] then .error (.new (ascii "topic " ++ quoted p.topic ++ ascii " reports no partitions"))
    else match p.committedOffsets quoted a with
      | .error e => .error e
      | .ok committed => match p.partitionBounds quoted a with
        | .error e => .error e
        | .ok bounds => match p.groupCoverage quoted a ids with
          | .error e => .error e
          | .ok coverage => .ok ⟨ids, committed, bounds, coverage⟩

/-- The five gauges that are only published together. -/
def snapshotWrites (total : Float64) (coverage : AssignmentCoverage) (now : Int) : List (Write Gauge) :=
  [⟨.consumerLagTotal, [p.group, p.topic], total⟩,
    ⟨.groupMembers, [p.group], .ofInt coverage.members⟩,
    ⟨.groupUnassignedMembers, [p.group], .ofInt coverage.unassignedMembers⟩,
    ⟨.topicPartitionsUnassigned, [p.group, p.topic], .ofInt coverage.unassignedPartitions⟩,
    ⟨.lagRefreshedAt, [], .ofInt now⟩]

/-- What is published of a measurement. -/
def publish (e : Evidence) (now : Int) : List (Write Gauge) × Option Failure :=
  let t := e.partitions.foldl (p.visit e.committed e.bounds) ⟨[], 0, 0⟩
  let writes := t.writes ++ [⟨.lagPartitionsMissing, [p.group, p.topic], .ofInt t.missing⟩]
  if 0 < t.missing then
    (writes, some (.new (ascii "lag for " ++ dec t.missing ++ ascii " of " ++ dec e.partitions.length ++
      ascii " partitions on " ++ quoted p.topic ++
      ascii " could not be read; total and refresh timestamp left unchanged")))
  else (writes ++ p.snapshotWrites t.total e.coverage now, none)

/-- **`Refresh`** — the gauges it sets, in order, and its error. -/
def refresh (a : Answers) : List (Write Gauge) × Option Failure :=
  match p.gather quoted a with
  | .error e => ([], some e)
  | .ok e => p.publish quoted e a.now

/-- The registry after a sequence of refreshes in one process. -/
def polled (calls : List Answers) : Registry Gauge :=
  calls.foldl (fun r a => setAll r (p.refresh quoted a).1) fun _ => ∅

/-! ## What a complete measurement is -/

/-- The metadata names these partitions of the topic. -/
def Names (a : Answers) (ids : List Int) : Prop :=
  ∃ topics topic, a.metadata = .ok topics ∧ topics.find? (fun t => t.name == p.topic) = some topic ∧
    topic.error = none ∧ topic.partitions = ids

/-- Every partition a member holds is named, and no two members of different ids hold one partition. -/
def Consistent (ids : List Int) (members : List GroupMember) : Prop :=
  (∀ m ∈ members, ∀ q ∈ p.held m, q ∈ ids) ∧
    ∀ m ∈ members, ∀ n ∈ members, ∀ q, q ∈ p.held m → q ∈ p.held n → m.memberID = n.memberID

/-- The members of the group are known: it is stable and consistently assigned, or it has none. -/
def Covered (a : Answers) (ids : List Int) : Prop :=
  ∃ groups group, a.describeGroups = .ok groups ∧ groups.find? (fun g => g.groupID == p.group) = some group ∧
    group.error = none ∧
    (group.groupState = ascii "Stable" ∧ p.Consistent ids group.members ∨
      (group.groupState = ascii "Empty" ∨ group.groupState = ascii "Dead") ∧ group.members = [])

/-- **A complete measurement**: every partition the metadata names has a committed offset and an offset
range without an error, and the members of the group are known. -/
structure Complete (a : Answers) (ids : List Int) : Prop where
  names : p.Names a ids
  nonempty : ids ≠ []
  committed : ∃ res, a.offsetFetch = .ok res ∧ res.error = none ∧
    ∀ q ∈ ids, ∃ part ∈ res.topics p.topic, part.partition = q ∧ part.error = none
  bounds : ∃ topics, a.listOffsets = .ok topics ∧
    ∀ q ∈ ids, ∃ part ∈ topics p.topic, part.partition = q ∧ part.error = none
  covered : p.Covered a ids

/-- The committed offset an answer gives for a partition. -/
def committedIn (a : Answers) (partition : Int) : Option Int64 :=
  match a.offsetFetch with
  | .ok res => latest ((res.topics p.topic).map committedEntry) partition
  | .error _ => none

/-- The offset range an answer gives for a partition. -/
def boundsIn (a : Answers) (partition : Int) : Option OffsetBounds :=
  match a.listOffsets with
  | .ok topics => latest ((topics p.topic).map boundsEntry) partition
  | .error _ => none

/-- The lag of a partition by these answers. -/
def lagIn (a : Answers) (partition : Int) : Int :=
  match p.boundsIn a partition, p.committedIn a partition with
  | some b, some offset => (lagFor offset b.first b.last).toInt
  | _, _ => 0

end LagPoller

/-! ## The answers, read back -/

theorem lagFor_nonneg (committed first last : Int64) : 0 ≤ (lagFor committed first last).toInt := by
  unfold lagFor
  dsimp only
  generalize last - (if committed < 0 then first else committed) = lag
  split
  · next h =>
    have h := Int64.lt_iff_toInt_lt.mp h
    rw [Int64.toInt_zero] at h
    omega
  · decide

/-- A partition was read when one of its entries carries no error. -/
theorem latest_isSome {α β : Type} {partition : β → Int} {error : β → Option Bytes} {value : β → α} {parts : List β}
    {q : Int} : (latest (parts.map (entry partition error value)) q).isSome ↔
      ∃ part ∈ parts, partition part = q ∧ error part = none := by
  rw [latest, List.lookup_isSome_iff]
  constructor
  · rintro ⟨⟨q', v⟩, hmem, hq⟩
    obtain rfl : q = q' := eq_of_beq hq
    obtain ⟨e, he, heq⟩ := List.mem_filterMap.mp (List.mem_reverse.mp hmem)
    obtain ⟨part, hpart, rfl⟩ := List.mem_map.mp he
    refine ⟨part, hpart, ?_⟩
    cases herror : error part with
    | none =>
        simp only [entry, herror] at heq
        exact ⟨(Prod.mk.inj (Option.some.inj heq)).1, rfl⟩
    | some text => exact absurd heq (by simp [entry, herror])
  · rintro ⟨part, hpart, rfl, herror⟩
    refine ⟨(partition part, value part), List.mem_reverse.mpr ?_, beq_self_eq_true _⟩
    apply List.mem_filterMap.mpr
    exact ⟨_, List.mem_map_of_mem hpart, by simp only [entry, herror]⟩

theorem collect_ok {α : Type} {entries : List (Int × Except Bytes α)} {f : Int → Option α}
    (h : collect entries = .ok f) : f = latest entries := by
  unfold collect at h
  split at h
  · exact absurd h (by simp)
  · exact (Except.ok.inj h).symm

theorem collect_of_latest {α : Type} {entries : List (Int × Except Bytes α)} {q : Int}
    (h : (latest entries q).isSome) : collect entries = .ok (latest entries) := by
  unfold collect
  rw [if_neg]
  rintro ⟨hnil, _⟩
  rw [latest, hnil] at h
  exact absurd h (by simp)

namespace LagPoller

variable {quoted : Bytes → Bytes} {p : LagPoller} {a : Answers} {ids : List Int}

theorem partitions_ok : p.partitions quoted a = .ok ids ↔ p.Names a ids := by
  unfold partitions Names
  constructor
  · intro h
    split at h
    · exact absurd h (by simp)
    next topics hmeta =>
    split at h
    · exact absurd h (by simp)
    next topic hfind =>
    split at h
    · exact absurd h (by simp)
    next herror => exact ⟨topics, topic, hmeta, hfind, herror, Except.ok.inj h⟩
  · rintro ⟨topics, topic, hmeta, hfind, herror, rfl⟩
    simp only [hmeta, hfind, herror]

theorem committedIn_isSome {res : OffsetFetchResponse} (hres : a.offsetFetch = .ok res) {q : Int} :
    (p.committedIn a q).isSome ↔ ∃ part ∈ res.topics p.topic, part.partition = q ∧ part.error = none := by
  simp only [committedIn, hres]
  exact latest_isSome

theorem boundsIn_isSome {topics : Bytes → List PartitionOffsets} (htopics : a.listOffsets = .ok topics) {q : Int} :
    (p.boundsIn a q).isSome ↔ ∃ part ∈ topics p.topic, part.partition = q ∧ part.error = none := by
  simp only [boundsIn, htopics]
  exact latest_isSome

theorem committedOffsets_ok {f : Int → Option Int64} (h : p.committedOffsets quoted a = .ok f) :
    ∃ res, a.offsetFetch = .ok res ∧ res.error = none ∧ f = p.committedIn a := by
  unfold committedOffsets at h
  dsimp only at h
  split at h
  · exact absurd h (by simp)
  next res hres =>
  split at h
  · exact absurd h (by simp)
  next herror =>
  refine ⟨res, hres, herror, ?_⟩
  rw [collect_ok h]
  funext q
  simp only [committedIn, hres]

theorem committedOffsets_of_isSome {res : OffsetFetchResponse} (hres : a.offsetFetch = .ok res)
    (herror : res.error = none) {q : Int} (h : (p.committedIn a q).isSome) :
    p.committedOffsets quoted a = .ok (p.committedIn a) := by
  have heq : p.committedIn a = latest ((res.topics p.topic).map committedEntry) := by
    funext q
    simp only [committedIn, hres]
  rw [heq] at h ⊢
  unfold committedOffsets
  simp only [hres, herror]
  exact collect_of_latest h

theorem partitionBounds_ok {f : Int → Option OffsetBounds} (h : p.partitionBounds quoted a = .ok f) :
    ∃ topics, a.listOffsets = .ok topics ∧ f = p.boundsIn a := by
  unfold partitionBounds at h
  split at h
  · exact absurd h (by simp)
  next topics htopics =>
  refine ⟨topics, htopics, ?_⟩
  rw [collect_ok h]
  funext q
  simp only [boundsIn, htopics]

theorem partitionBounds_of_isSome {topics : Bytes → List PartitionOffsets} (htopics : a.listOffsets = .ok topics)
    {q : Int} (h : (p.boundsIn a q).isSome) : p.partitionBounds quoted a = .ok (p.boundsIn a) := by
  have heq : p.boundsIn a = latest ((topics p.topic).map boundsEntry) := by
    funext q
    simp only [boundsIn, htopics]
  rw [heq] at h ⊢
  unfold partitionBounds
  simp only [htopics]
  exact collect_of_latest h

end LagPoller

end LocalPlatform.Metrics
