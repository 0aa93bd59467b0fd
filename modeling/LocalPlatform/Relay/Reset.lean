/-
# LocalPlatform.Relay.Reset — where a replay starts.

`Reset` asks the broker which partitions a topic has and at which offsets they may be replayed, and commits
those offsets for the group.  What is committed is what came back from the second question, not what was asked
for: a partition the broker leaves out is left out of the commit (`resets_iff`).
-/
import LocalPlatform.Codec.Time
import LocalPlatform.Relay.Error
import Mathlib.Data.List.Sort

namespace LocalPlatform.Relay.Replay

open Codec

/-! ## What the broker answers -/

/-- `kafka.Partition`, as far as it is read. -/
structure PartitionMetadata where
  id : Int
  error : Option Err
  deriving DecidableEq, Repr

structure TopicMetadata where
  name : Bytes
  error : Option Err
  partitions : List PartitionMetadata
  deriving DecidableEq, Repr

/-- `kafka.PartitionOffsets`.  A map is iterated in any order; `offsets` is in the order of this call. -/
structure PartitionOffsets where
  partition : Int
  firstOffset : Int
  lastOffset : Int
  offsets : List (Int × Time)
  error : Option Err
  deriving DecidableEq, Repr

structure OffsetCommitPartition where
  partition : Int
  error : Option Err
  deriving DecidableEq, Repr

/-- What the client's three calls return.  A topic that is no key of a map has the empty list. -/
structure Client where
  metadata : Except Err (List TopicMetadata)
  listOffsets : Except Err (Bytes → List PartitionOffsets)
  offsetCommit : Except Err (Bytes → List OffsetCommitPartition)

/-! ## What is asked -/

/-- `kafka.FirstOffsetOf`, `kafka.TimeOffsetOf` and `kafka.LastOffsetOf`. -/
inductive OffsetRequest where
  | first (partition : Int)
  | time (partition : Int) (at_ : Time)
  | last (partition : Int)
  deriving DecidableEq, Repr

structure OffsetCommit where
  partition : Int
  offset : Int
  deriving DecidableEq, Repr

structure ResetResult where
  partition : Int
  offset : Int
  deriving DecidableEq, Repr

/-- A request to the broker at an address. -/
inductive Request where
  | metadata (addr : Bytes) (topics : List Bytes)
  | listOffsets (addr : Bytes) (topics : List (Bytes × List OffsetRequest))
  | offsetCommit (addr : Bytes) (generationID : Int) (groupID : Bytes) (topics : List (Bytes × List OffsetCommit))
  deriving DecidableEq, Repr

def Request.isCommit : Request → Bool
  | .offsetCommit .. => true
  | _ => false

/-! ## The reset -/

/-- The loop over the partitions of a topic. -/
def partitionIDs : List PartitionMetadata → Except Err (List Int)
  | [] => .ok []
  | p :: ps =>
    match p.error with
    | some e => .error (e.wrap (ascii "read topic metadata for partition " ++ decInt p.id ++ ascii ": "))
    | none => (partitionIDs ps).map (p.id :: ·)

/-- **`topicPartitions`**, `quoted` being `%q`. -/
def topicPartitions (quoted : Bytes → Bytes) (response : List TopicMetadata) (topic : Bytes) : Except Err (List Int) :=
  match response.find? (fun found => found.name = topic) with
  | none => .error (.new (ascii "topic " ++ quoted topic ++ ascii " is absent from broker metadata"))
  | some found =>
    match found.error with
    | some e => .error (e.wrap (ascii "read topic metadata for " ++ quoted topic ++ ascii ": "))
    | none =>
      if found.partitions = [] then .error (.new (ascii "topic " ++ quoted topic ++ ascii " has no partitions"))
      else partitionIDs found.partitions

/-- The offset a partition is replayed from; below zero when there is none. -/
def PartitionOffsets.replayOffset (timestamped : Bool) (p : PartitionOffsets) : Int :=
  if timestamped then
    let offset := match p.offsets with
      | [] => -1
      | (candidate, _) :: _ => candidate
    if offset < 0 then p.lastOffset else offset
  else p.firstOffset

/-- The loop of `offsetsFor`, with what it has collected. -/
def collect (timestamped : Bool) (commits : List OffsetCommit) (results : List ResetResult) :
    List PartitionOffsets → Except Err (List OffsetCommit × List ResetResult)
  | [] => .ok (commits, results)
  | p :: ps =>
    match p.error with
    | some e => .error (e.wrap (ascii "list replay offset for partition " ++ decInt p.partition ++ ascii ": "))
    | none =>
      let offset := p.replayOffset timestamped
      if offset < 0 then
        .error (.new (ascii "broker returned no usable replay offset for partition " ++ decInt p.partition))
      else collect timestamped (commits ++ [⟨p.partition, offset⟩]) (results ++ [⟨p.partition, offset⟩]) ps

/-- **`offsetsFor`**. -/
def offsetsFor (quoted : Bytes → Bytes) (topic : Bytes) (listed : List PartitionOffsets) (timestamped : Bool) :
    Except Err (List OffsetCommit × List ResetResult) :=
  if listed.length = 0 then .error (.new (ascii "broker returned no replay offsets for topic " ++ quoted topic))
  else collect timestamped [] [] listed

/-- The first partition a commit failed for. -/
def firstRejected : List OffsetCommitPartition → Option Err
  | [] => none
  | a :: as =>
    match a.error with
    | some e => some (e.wrap (ascii "commit replay offset for partition " ++ decInt a.partition ++ ascii ": "))
    | none => firstRejected as

def offsetRequests (at_ : Option Time) (partition : Int) : List OffsetRequest :=
  match at_ with
  | none => [.first partition]
  | some t => [.time partition t, .last partition]

/-- `sort.Slice(results, …)`.  Where two partitions are the same their order is left open by the library. -/
def sortResults (results : List ResetResult) : List ResetResult :=
  results.mergeSort fun a b => a.partition ≤ b.partition

/-- **`Reset`** — what it returns, and what it has asked. -/
def reset (quoted : Bytes → Bytes) (c : Client) (addr group topic : Bytes) (at_ : Option Time) :
    Except Err (List ResetResult) × List Request :=
  let metadata : Request := .metadata addr [topic]
  match c.metadata with
  | .error e => (.error (e.wrap (ascii "read topic metadata: ")), [metadata])
  | .ok response =>
    match topicPartitions quoted response topic with
    | .error e => (.error e, [metadata])
    | .ok partitions =>
      let listOffsets : Request := .listOffsets addr [(topic, partitions.flatMap (offsetRequests at_))]
      match c.listOffsets with
      | .error e => (.error (e.wrap (ascii "list replay offsets: ")), [metadata, listOffsets])
      | .ok listed =>
        match offsetsFor quoted topic (listed topic) at_.isSome with
        | .error e => (.error e, [metadata, listOffsets])
        | .ok (commits, results) =>
          let issued := [metadata, listOffsets, .offsetCommit addr (-1) group [(topic, commits)]]
          match c.offsetCommit with
          | .error e => (.error (e.wrap (ascii "commit replay offsets: ")), issued)
          | .ok committed =>
            match firstRejected (committed topic) with
            | some e => (.error e, issued)
            | none => (.ok (sortResults results), issued)

/-! ## What a reset is to do -/

section Answers

variable (quoted : Bytes → Bytes) (c : Client) (topic : Bytes)

/-- The partitions the metadata names; none when it cannot be read. -/
def named : List Int :=
  match c.metadata with
  | .error _ => []
  | .ok response => match topicPartitions quoted response topic with
    | .error _ => []
    | .ok partitions => partitions

def listed : List PartitionOffsets :=
  match c.listOffsets with
  | .error _ => []
  | .ok response => response topic

def acknowledged : List OffsetCommitPartition :=
  match c.offsetCommit with
  | .error _ => []
  | .ok response => response topic

/-- The commit is answered, and no partition in the answer has an error. -/
def Accepted : Prop := c.offsetCommit.isOk = true ∧ ∀ a ∈ acknowledged c topic, a.error = none

end Answers

/-- The partition is listed without an error and with an offset to replay from. -/
def PartitionOffsets.Usable (timestamped : Bool) (p : PartitionOffsets) : Prop :=
  p.error = none ∧ 0 ≤ p.replayOffset timestamped

/-- **The offset is the right one**: the first of the partition, or one found for the timestamp, or the log end
when none was found. -/
def PartitionOffsets.Target (timestamped : Bool) (p : PartitionOffsets) (offset : Int) : Prop :=
  if timestamped then
    (0 ≤ offset ∧ offset ∈ p.offsets.map Prod.fst) ∨
      ((∀ o ∈ p.offsets.map Prod.fst, o < 0) ∧ offset = p.lastOffset)
  else offset = p.firstOffset

/-- The offsets committed by some requests. -/
def committed (requests : List Request) : List OffsetCommit :=
  requests.flatMap fun
    | .offsetCommit _ _ _ topics => topics.flatMap Prod.snd
    | _ => []

/-- **Everything is reset**: what a nil error is to mean. -/
structure Completed (named : List Int) (listed : List PartitionOffsets) (acks : List OffsetCommitPartition)
    (timestamped : Bool) (commits : List OffsetCommit) (results : List ResetResult) : Prop where
  once : ∀ p ∈ named, (commits.map OffsetCommit.partition).count p = 1
  offset : ∀ k ∈ commits, k.partition ∈ named → ∃ q ∈ listed, q.partition = k.partition ∧ q.Target timestamped k.offset
  acknowledged : ∀ p ∈ named, (∃ a ∈ acks, a.partition = p) ∧ ∀ a ∈ acks, a.partition = p → a.error = none
  increasing : (results.map ResetResult.partition).Pairwise (· < ·)
  named : ∀ p, p ∈ results.map ResetResult.partition ↔ p ∈ named

/-- The offset of a named partition could not be listed. -/
def Unlisted (listed : List PartitionOffsets) (timestamped : Bool) (p : Int) : Prop :=
  (∀ q ∈ listed, q.partition ≠ p) ∨ ∃ q ∈ listed, q.partition = p ∧ ¬ q.Usable timestamped

/-- **A reset is complete or reports failure**, and commits nothing when an offset could not be listed. -/
structure Resets (quoted : Bytes → Bytes) (c : Client) (addr group topic : Bytes) (at_ : Option Time) : Prop where
  complete : ∀ results, (reset quoted c addr group topic at_).1 = .ok results →
    Completed (named quoted c topic) (listed c topic) (acknowledged c topic) at_.isSome
      (committed (reset quoted c addr group topic at_).2) results
  refuses : (∃ p ∈ named quoted c topic, Unlisted (listed c topic) at_.isSome p) →
    ∀ r ∈ (reset quoted c addr group topic at_).2, r.isCommit = false

/-- The map of a partition does not hide an offset that was found: what comes up first is one, or there is none,
or the log end is one. -/
def PartitionOffsets.Open (p : PartitionOffsets) : Prop :=
  ∀ o t rest, p.offsets = (o, t) :: rest → o < 0 → (∀ k ∈ rest.map Prod.fst, k < 0) ∨ p.lastOffset ∈ rest.map Prod.fst

/-- **The broker answers for the partitions asked for**, as far as the code gets: when every listed offset is
usable, no partition is left out; and when the commit is accepted as well, each is listed once and answered for,
and no other is. -/
structure Answers (named : List Int) (listed : List PartitionOffsets) (acks : List OffsetCommitPartition)
    (timestamped : Bool) (accepted : Prop) : Prop where
  covered : ∀ p ∈ named, p ∈ listed.map PartitionOffsets.partition
  once : accepted → (listed.map PartitionOffsets.partition).Nodup
  asked : accepted → ∀ p ∈ listed.map PartitionOffsets.partition, p ∈ named
  answered : accepted → ∀ p ∈ named, p ∈ acks.map OffsetCommitPartition.partition
  found : accepted → timestamped = true → ∀ q ∈ listed, q.Open

/-! ## What the code does -/

theorem collect_eq_ok {timestamped : Bool} {ps : List PartitionOffsets} :
    ∀ {commits : List OffsetCommit} {results : List ResetResult} {r : List OffsetCommit × List ResetResult},
      collect timestamped commits results ps = .ok r ↔ (∀ p ∈ ps, p.Usable timestamped) ∧
        r = (commits ++ ps.map (fun p => ⟨p.partition, p.replayOffset timestamped⟩),
          results ++ ps.map (fun p => ⟨p.partition, p.replayOffset timestamped⟩)) := by
  induction ps with
  | nil =>
      intro commits results r
      simp only [collect, List.map_nil, List.append_nil, List.not_mem_nil, false_implies, implies_true, true_and]
      exact ⟨fun h => (Except.ok.inj h).symm, fun h => by rw [h]⟩
  | cons p ps ih =>
      intro commits results r
      rw [collect]
      cases herror : p.error with
      | some e => exact iff_of_false nofun fun h => absurd (herror.symm.trans (h.1 p (List.mem_cons_self ..)).1) nofun
      | none =>
          simp only
          by_cases hoffset : p.replayOffset timestamped < 0
          · rw [if_pos hoffset]
            exact iff_of_false nofun fun h => absurd (h.1 p (List.mem_cons_self ..)).2 (not_le.mpr hoffset)
          · rw [if_neg hoffset, ih]
            have husable : p.Usable timestamped := ⟨herror, not_lt.mp hoffset⟩
            simp only [List.forall_mem_cons, husable, true_and, List.map_cons, List.append_assoc, List.cons_append,
              List.nil_append]

theorem firstRejected_eq_none {as : List OffsetCommitPartition} :
    firstRejected as = none ↔ ∀ a ∈ as, a.error = none := by
  induction as with
  | nil => simp [firstRejected]
  | cons a as ih =>
      rw [firstRejected, List.forall_mem_cons]
      cases herror : a.error with
      | some e => simp
      | none => simp [ih]

theorem partitionIDs_ne_nil {ps : List PartitionMetadata} (h : ps ≠ []) {ids : List Int} (hids : partitionIDs ps = .ok ids) :
    ids ≠ [] := by
  obtain ⟨p, ps, rfl⟩ := List.exists_cons_of_ne_nil h
  rw [partitionIDs] at hids
  cases herror : p.error with
  | some e => rw [herror] at hids; cases hids
  | none =>
      rw [herror] at hids
      simp only at hids
      cases hrest : partitionIDs ps with
      | error e => rw [hrest] at hids; cases hids
      | ok rest =>
          rw [hrest] at hids
          obtain rfl := Except.ok.inj hids
          exact List.cons_ne_nil _ _

/-- Metadata that can be read names a partition. -/
theorem topicPartitions_ne_nil {quoted : Bytes → Bytes} {response : List TopicMetadata} {topic : Bytes} {ids : List Int}
    (h : topicPartitions quoted response topic = .ok ids) : ids ≠ [] := by
  unfold topicPartitions at h
  split at h
  · cases h
  · split at h
    · cases h
    · split at h
      · cases h
      · next hne => exact partitionIDs_ne_nil hne h

/-- What is committed and reported for the listed partitions. -/
def commitsFor (timestamped : Bool) (ps : List PartitionOffsets) : List OffsetCommit :=
  ps.map fun p => ⟨p.partition, p.replayOffset timestamped⟩

def resultsFor (timestamped : Bool) (ps : List PartitionOffsets) : List ResetResult :=
  ps.map fun p => ⟨p.partition, p.replayOffset timestamped⟩

/-- The code gets as far as the commit. -/
def Reaches (named : List Int) (listed : List PartitionOffsets) (timestamped : Bool) : Prop :=
  named ≠ [] ∧ listed ≠ [] ∧ ∀ p ∈ listed, p.Usable timestamped

theorem offsetsFor_eq_ok {quoted : Bytes → Bytes} {topic : Bytes} {ps : List PartitionOffsets} {timestamped : Bool}
    {r : List OffsetCommit × List ResetResult} : offsetsFor quoted topic ps timestamped = .ok r ↔
      (ps ≠ [] ∧ ∀ p ∈ ps, p.Usable timestamped) ∧ r = (commitsFor timestamped ps, resultsFor timestamped ps) := by
  unfold offsetsFor
  by_cases hnil : ps = []
  · rw [if_pos (by rw [hnil]; rfl)]
    exact iff_of_false nofun fun h => h.1.1 hnil
  · rw [if_neg (by rwa [List.length_eq_zero_iff]), collect_eq_ok]
    show _ ∧ r = (commitsFor timestamped ps, resultsFor timestamped ps) ↔ _
    rw [and_iff_right hnil]

section

variable (quoted : Bytes → Bytes) (c : Client) (addr group topic : Bytes) (at_ : Option Time)

/-- **A reset that stops short of the commit** fails and commits nothing. -/
theorem reset_short (h : ¬ Reaches (named quoted c topic) (listed c topic) at_.isSome) :
    (∀ results, (reset quoted c addr group topic at_).1 ≠ .ok results) ∧
      ∀ r ∈ (reset quoted c addr group topic at_).2, r.isCommit = false := by
  unfold Reaches named listed at h
  unfold reset
  -- the calls in their order; each failure ends the reset before its commit
  cases hmetadata : c.metadata with
  | error e => exact ⟨nofun, by simp [Request.isCommit]⟩
  | ok response =>
      rw [hmetadata] at h
      simp only at h ⊢
      cases htopic : topicPartitions quoted response topic with
      | error e => exact ⟨nofun, by simp [Request.isCommit]⟩
      | ok partitions =>
          rw [htopic] at h
          simp only at h ⊢
          cases hlist : c.listOffsets with
          | error e => exact ⟨nofun, by simp [Request.isCommit]⟩
          | ok answer =>
              rw [hlist] at h
              simp only at h ⊢
              cases hoffsets : offsetsFor quoted topic (answer topic) at_.isSome with
              | error e => exact ⟨nofun, by simp [Request.isCommit]⟩
              | ok r => exact absurd ⟨topicPartitions_ne_nil htopic, (offsetsFor_eq_ok.mp hoffsets).1⟩ h

/-- **A reset that gets to the commit** commits what was listed, and succeeds when that is accepted. -/
theorem reset_commits (h : Reaches (named quoted c topic) (listed c topic) at_.isSome) :
    (∃ r ∈ (reset quoted c addr group topic at_).2, r.isCommit = true) ∧
      committed (reset quoted c addr group topic at_).2 = commitsFor at_.isSome (listed c topic) ∧
      ∀ results, (reset quoted c addr group topic at_).1 = .ok results ↔
        Accepted c topic ∧ results = sortResults (resultsFor at_.isSome (listed c topic)) := by
  unfold Reaches named listed at h
  unfold reset listed Accepted acknowledged
  cases hmetadata : c.metadata with
  | error e => rw [hmetadata] at h; exact absurd rfl h.1
  | ok response =>
      rw [hmetadata] at h
      simp only at h ⊢
      cases htopic : topicPartitions quoted response topic with
      | error e => rw [htopic] at h; exact absurd rfl h.1
      | ok partitions =>
          rw [htopic] at h
          simp only at h ⊢
          cases hlist : c.listOffsets with
          | error e => rw [hlist] at h; exact absurd rfl h.2.1
          | ok answer =>
              rw [hlist] at h
              simp only at h ⊢
              rw [offsetsFor_eq_ok.mpr ⟨h.2, rfl⟩]
              simp only
              -- the commit has been sent by now; what is left is how its answer is read
              cases hcommit : c.offsetCommit with
              | error e =>
                  refine ⟨⟨_, List.mem_cons_of_mem _ (List.mem_cons_of_mem _ (List.mem_cons_self ..)), rfl⟩,
                    by simp [committed], fun results => iff_of_false nofun fun hf => absurd hf.1.1 nofun⟩
              | ok acks =>
                  simp only
                  cases hrejected : firstRejected (acks topic) with
                  | some e =>
                      have hbad : ¬ ∀ a ∈ acks topic, a.error = none := fun hall => by
                        rw [firstRejected_eq_none.mpr hall] at hrejected
                        cases hrejected
                      refine ⟨⟨_, List.mem_cons_of_mem _ (List.mem_cons_of_mem _ (List.mem_cons_self ..)), rfl⟩,
                        by simp [committed], fun results => iff_of_false nofun fun hf => hbad hf.1.2⟩
                  | none =>
                      refine ⟨⟨_, List.mem_cons_of_mem _ (List.mem_cons_of_mem _ (List.mem_cons_self ..)), rfl⟩,
                        by simp [committed], fun results => ?_⟩
                      have hgood := firstRejected_eq_none.mp hrejected
                      constructor
                      · intro hok
                        exact ⟨⟨rfl, hgood⟩, (Except.ok.inj hok).symm⟩
                      · rintro ⟨_, rfl⟩
                        rfl

end

/-! ## When a reset is complete -/

theorem map_partition_commitsFor (timestamped : Bool) (ps : List PartitionOffsets) :
    (commitsFor timestamped ps).map OffsetCommit.partition = ps.map PartitionOffsets.partition := by
  simp [commitsFor]

theorem perm_sortResults (timestamped : Bool) (ps : List PartitionOffsets) :
    ((sortResults (resultsFor timestamped ps)).map ResetResult.partition).Perm (ps.map PartitionOffsets.partition) := by
  refine ((List.mergeSort_perm _ _).map _).trans ?_
  rw [resultsFor, List.map_map]
  exact .refl _

/-- Results for different partitions come out in increasing order, and only those do. -/
theorem increasing_sortResults {timestamped : Bool} {ps : List PartitionOffsets} :
    ((sortResults (resultsFor timestamped ps)).map ResetResult.partition).Pairwise (· < ·) ↔
      (ps.map PartitionOffsets.partition).Nodup := by
  have hperm := perm_sortResults timestamped ps
  constructor
  · exact fun h => hperm.nodup_iff.mp (h.imp fun hlt => ne_of_lt hlt)
  · intro hnodup
    have hsorted : (sortResults (resultsFor timestamped ps)).Pairwise fun a b => a.partition ≤ b.partition := by
      have hle := @List.pairwise_mergeSort _ (fun a b : ResetResult => decide (a.partition ≤ b.partition))
        (fun a b e hab hbe => decide_eq_true (le_trans (of_decide_eq_true hab) (of_decide_eq_true hbe)))
        (fun a b => by simpa using le_total a.partition b.partition) (resultsFor timestamped ps)
      exact hle.imp fun h => of_decide_eq_true h
    have hne : ((sortResults (resultsFor timestamped ps)).map ResetResult.partition).Pairwise (· ≠ ·) :=
      hperm.nodup_iff.mpr hnodup
    exact ((List.pairwise_map.mpr hsorted).and hne).imp fun h => lt_of_le_of_ne h.1 h.2

/-- What the code takes for the offset is the right one exactly when the map is open. -/
theorem target_iff {timestamped : Bool} {p : PartitionOffsets} (husable : p.Usable timestamped) :
    p.Target timestamped (p.replayOffset timestamped) ↔ (timestamped = true → p.Open) := by
  obtain ⟨_, hoffset⟩ := husable
  cases timestamped with
  | false => exact iff_of_true rfl nofun
  | true =>
      simp only [PartitionOffsets.Target, PartitionOffsets.replayOffset, if_true, forall_const] at hoffset ⊢
      cases hmap : p.offsets with
      | nil =>
          refine iff_of_true (Or.inr ⟨by simp, rfl⟩) ?_
          intro o t rest heq
          rw [hmap] at heq
          cases heq
      | cons k rest =>
          obtain ⟨o, t⟩ := k
          rw [hmap] at hoffset
          simp only at hoffset ⊢
          -- a negative answer is the end of the partition, and a later one may still be not
          by_cases ho : o < 0
          · rw [if_pos ho] at hoffset ⊢
            constructor
            · rintro (⟨_, hmem⟩ | ⟨hall, _⟩) o' t' rest' heq ho'
              · rw [hmap] at heq
                obtain ⟨⟨rfl, rfl⟩, rfl⟩ : (o = o' ∧ t = t') ∧ rest = rest' := by simpa using heq
                rcases List.mem_cons.mp hmem with hlast | hmem
                · exact absurd hoffset (by rw [hlast]; exact not_le.mpr ho)
                · exact Or.inr hmem
              · rw [hmap] at heq
                obtain ⟨_, rfl⟩ : (o, t) = (o', t') ∧ rest = rest' := by simpa using heq
                exact Or.inl fun k hk => hall k (List.mem_cons_of_mem _ hk)
            · intro hopen
              rcases hopen o t rest hmap ho with hall | hmem
              · exact Or.inr ⟨List.forall_mem_cons.mpr ⟨ho, hall⟩, rfl⟩
              · exact Or.inl ⟨hoffset, List.mem_cons_of_mem _ hmem⟩
          · rw [if_neg ho] at hoffset ⊢
            refine iff_of_true (Or.inl ⟨hoffset, List.mem_cons_self ..⟩) ?_
            intro o' t' rest' heq ho'
            rw [hmap] at heq
            obtain ⟨⟨rfl, rfl⟩, rfl⟩ : (o = o' ∧ t = t') ∧ rest = rest' := by simpa using heq
            exact absurd ho' ho

/-- An accepted commit of usable offsets completes the reset exactly when the broker has answered for what it was
asked. -/
theorem completed_iff {named : List Int} {ps : List PartitionOffsets} {acks : List OffsetCommitPartition}
    {timestamped : Bool} (husable : ∀ p ∈ ps, p.Usable timestamped) (hacks : ∀ a ∈ acks, a.error = none)
    (hcovered : ∀ p ∈ named, p ∈ ps.map PartitionOffsets.partition) :
    Completed named ps acks timestamped (commitsFor timestamped ps) (sortResults (resultsFor timestamped ps)) ↔
      (ps.map PartitionOffsets.partition).Nodup ∧ (∀ p ∈ ps.map PartitionOffsets.partition, p ∈ named) ∧
        (∀ p ∈ named, p ∈ acks.map OffsetCommitPartition.partition) ∧ (timestamped = true → ∀ q ∈ ps, q.Open) := by
  have hmem := fun p => (perm_sortResults timestamped ps).mem_iff (a := p)
  constructor
  · intro h
    have hnodup := increasing_sortResults.mp h.increasing
    have hasked : ∀ p ∈ ps.map PartitionOffsets.partition, p ∈ named := fun p hp => (h.named p).mp ((hmem p).mpr hp)
    refine ⟨hnodup, hasked, fun p hp => ?_, fun htime q hq => ?_⟩
    · obtain ⟨a, ha, rfl⟩ := (h.acknowledged p hp).1
      exact List.mem_map_of_mem ha
    · -- the entry the offset is right for is the one it was taken from
      have hpartition := List.mem_map_of_mem (f := PartitionOffsets.partition) hq
      obtain ⟨q', hq', hsame, htarget⟩ :=
        h.offset ⟨q.partition, q.replayOffset timestamped⟩ (List.mem_map_of_mem hq) (hasked _ hpartition)
      obtain rfl : q' = q := List.inj_on_of_nodup_map hnodup hq' hq hsame
      exact (target_iff (husable _ hq')).mp htarget htime
  · rintro ⟨hnodup, hasked, hanswered, hopen⟩
    refine ⟨fun p hp => ?_, fun k hk _ => ?_, fun p hp => ⟨?_, fun a ha _ => hacks a ha⟩,
      increasing_sortResults.mpr hnodup, fun p => ?_⟩
    · rw [map_partition_commitsFor]
      exact List.count_eq_one_of_mem hnodup (hcovered p hp)
    · obtain ⟨q, hq, rfl⟩ := List.mem_map.mp hk
      exact ⟨q, hq, rfl, (target_iff (husable q hq)).mpr fun htime => hopen htime q hq⟩
    · obtain ⟨a, ha, rfl⟩ := List.mem_map.mp (hanswered p hp)
      exact ⟨a, ha, rfl⟩
    · rw [hmem p]
      exact ⟨hasked p, hcovered p⟩

/-- A usable list leaves a partition unlisted only by leaving it out. -/
theorem unlisted_iff {ps : List PartitionOffsets} {timestamped : Bool} (husable : ∀ p ∈ ps, p.Usable timestamped)
    (p : Int) : Unlisted ps timestamped p ↔ p ∉ ps.map PartitionOffsets.partition := by
  constructor
  · rintro (hnone | ⟨q, hq, _, hbad⟩) hmem
    · obtain ⟨q, hq, rfl⟩ := List.mem_map.mp hmem
      exact hnone q hq rfl
    · exact hbad (husable q hq)
  · intro hmem
    exact Or.inl fun q hq heq => hmem (heq ▸ List.mem_map_of_mem hq)

/-- **A reset is complete or fails exactly where the broker answers for the partitions it was asked for.** -/
theorem resets_iff (quoted : Bytes → Bytes) (c : Client) (addr group topic : Bytes) (at_ : Option Time) :
    Resets quoted c addr group topic at_ ↔
      (Reaches (named quoted c topic) (listed c topic) at_.isSome →
        Answers (named quoted c topic) (listed c topic) (acknowledged c topic) at_.isSome (Accepted c topic)) := by
  by_cases hreaches : Reaches (named quoted c topic) (listed c topic) at_.isSome
  · obtain ⟨hcommit, hcommits, hok⟩ := reset_commits quoted c addr group topic at_ hreaches
    have husable := hreaches.2.2
    rw [imp_iff_right hreaches]
    constructor
    · intro h
      -- an unlisted partition is refused before the commit, but this reset does commit
      have hcovered : ∀ p ∈ named quoted c topic, p ∈ (listed c topic).map PartitionOffsets.partition := by
        intro p hp
        by_contra hout
        obtain ⟨r, hr, hissued⟩ := hcommit
        exact absurd (hissued.symm.trans (h.refuses ⟨p, hp, (unlisted_iff husable p).mpr hout⟩ r hr)) nofun
      -- once accepted, the reset is complete exactly if the four conditions hold
      have hcompleted : Accepted c topic → _ := fun haccepted =>
        (completed_iff husable haccepted.2 hcovered).mp (hcommits ▸ h.complete _ ((hok _).mpr ⟨haccepted, rfl⟩))
      exact ⟨hcovered, fun ha => (hcompleted ha).1, fun ha => (hcompleted ha).2.1, fun ha => (hcompleted ha).2.2.1,
        fun ha => (hcompleted ha).2.2.2⟩
    · intro h
      refine ⟨fun results hresults => ?_, fun ⟨p, hp, hout⟩ => absurd (h.covered p hp) ((unlisted_iff husable p).mp hout)⟩
      obtain ⟨ha, rfl⟩ := (hok results).mp hresults
      rw [hcommits]
      exact (completed_iff husable ha.2 h.covered).mpr ⟨h.once ha, h.asked ha, h.answered ha, h.found ha⟩
  · obtain ⟨hfails, hnone⟩ := reset_short quoted c addr group topic at_ hreaches
    exact iff_of_true ⟨fun results hresults => absurd hresults (hfails results), fun _ => hnone⟩
      fun h => absurd h hreaches

/-- A broker with partitions 0 and 1 that lists only the first, and accepts what is committed. -/
def forgetful : Client where
  metadata := .ok [⟨ascii "events", none, [⟨0, none⟩, ⟨1, none⟩]⟩]
  listOffsets := .ok fun _ => [⟨0, 7, -1, [], none⟩]
  offsetCommit := .ok fun _ => [⟨0, none⟩]

/-- **A partition is skipped without a word.** -/
theorem not_resets_forgetful : ¬ ∀ (quoted : Bytes → Bytes) (c : Client) (addr group topic : Bytes) (at_ : Option Time),
    Resets quoted c addr group topic at_ := by
  intro hall
  have hreaches : Reaches (named id forgetful (ascii "events")) (listed forgetful (ascii "events")) false := by
    refine ⟨by decide, by decide, fun p hp => ?_⟩
    obtain rfl := List.mem_singleton.mp hp
    exact ⟨rfl, by decide⟩
  have haccepted : Accepted forgetful (ascii "events") := ⟨rfl, by decide⟩
  have hok := ((reset_commits id forgetful [] [] (ascii "events") none hreaches).2.2 _).mpr ⟨haccepted, rfl⟩
  have hcomplete := (hall id forgetful [] [] (ascii "events") none).complete _ hok
  exact absurd (hcomplete.once 1 (by decide)) (by decide)

end LocalPlatform.Relay.Replay
