/-
# LocalPlatform.Metrics.Snapshot — a refresh publishes a complete measurement or keeps the last one.

The members of a group are taken when their assignments are consistent (`groupCoverage_isOk`), and a
refresh has no error exactly when its four answers make a complete measurement (`refresh_complete`,
`refresh_of_complete`).  What the five gauges of the snapshot hold after any sequence of refreshes is then
what the last complete one put there.
-/
import Mathlib.Data.List.Induction
import LocalPlatform.Metrics.Lag

namespace LocalPlatform.Metrics

open Codec

namespace LagPoller

variable {quoted : Bytes → Bytes} {p : LagPoller} {a : Answers} {ids : List Int}

/-! ## Assignments -/

/-- The partitions the members hold, each with the id of a member that holds it. -/
def pairs (p : LagPoller) (members : List GroupMember) : List (Int × Bytes) :=
  members.flatMap fun m => (p.held m).map fun q => (q, m.memberID)

theorem pairs_cons (m : GroupMember) (members : List GroupMember) :
    p.pairs (m :: members) = ((p.held m).map fun q => (q, m.memberID)) ++ p.pairs members := rfl

/-- No partition stands with two ids. -/
def Agrees (done : List (Int × Bytes)) : Prop := ∀ q id id', (q, id) ∈ done → (q, id') ∈ done → id = id'

/-- The map of the assigned partitions after these were processed. -/
structure Assigned (assigned done : List (Int × Bytes)) : Prop where
  lookup : ∀ q id, assigned.lookup q = some id ↔ (q, id) ∈ done
  nodup : (assigned.map Prod.fst).Nodup

theorem Assigned.single_owner {assigned done : List (Int × Bytes)} (h : Assigned assigned done) : Agrees done := by
  intro q id id' hid hid'
  exact Option.some.inj (((h.lookup q id).mpr hid).symm.trans ((h.lookup q id').mpr hid'))

/-- One partition of one member. -/
theorem assign_ok {known : List Int} {m : GroupMember} {assigned done : List (Int × Bytes)} {q : Int}
    (h : Assigned assigned done) {assigned' : List (Int × Bytes)}
    (hok : p.assign quoted known m assigned q = .ok assigned') :
    q ∈ known ∧ Assigned assigned' (done ++ [(q, m.memberID)]) := by
  unfold assign at hok
  split at hok
  · exact absurd hok (by simp)
  next hknown =>
  refine ⟨not_not.mp hknown, ?_⟩
  split at hok
  · next owner howner =>
    split at hok
    · exact absurd hok (by simp)
    next hsame =>
    -- the same member again: the map already says so
    obtain rfl := Except.ok.inj hok
    have hold : (q, m.memberID) ∈ done := (h.lookup q _).mp (howner.trans (by rw [not_not.mp hsame]))
    refine ⟨fun q' id => ?_, h.nodup⟩
    rw [h.lookup, List.mem_append, List.mem_singleton]
    constructor
    · exact Or.inl
    · rintro (hmem | heq)
      · exact hmem
      · rwa [heq]
  · next hnone =>
    obtain rfl := Except.ok.inj hok
    constructor
    · intro q' id
      rw [List.mem_append, List.mem_singleton, List.lookup_cons, ← h.lookup]
      by_cases hq : q' = q
      · subst hq
        simp [hnone, eq_comm]
      · have hother : (q' == q) = false := beq_eq_false_iff_ne.mpr hq
        simp [hother, hq]
    · rw [List.map_cons, List.nodup_cons]
      refine ⟨fun hmem => ?_, h.nodup⟩
      obtain ⟨⟨q', id⟩, hpair, rfl⟩ := List.mem_map.mp hmem
      have hne := List.lookup_eq_none_iff.mp hnone (q', id) hpair
      exact absurd hne (by simp)

theorem assign_of_agrees {known : List Int} {m : GroupMember} {assigned done : List (Int × Bytes)} {q : Int}
    (h : Assigned assigned done) (hknown : q ∈ known) (hagrees : Agrees (done ++ [(q, m.memberID)])) :
    ∃ assigned', p.assign quoted known m assigned q = .ok assigned' := by
  unfold assign
  rw [if_neg (not_not.mpr hknown)]
  split
  · next owner howner =>
    have hmem : (q, owner) ∈ done ++ [(q, m.memberID)] := List.mem_append_left _ ((h.lookup q owner).mp howner)
    have hsame : owner = m.memberID := hagrees q owner m.memberID hmem (by simp)
    rw [if_neg (not_not.mpr hsame)]
    exact ⟨_, rfl⟩
  · exact ⟨_, rfl⟩

theorem Agrees.mono {done done' : List (Int × Bytes)} (h : Agrees done') (hsub : ∀ x ∈ done, x ∈ done') :
    Agrees done := fun q id id' hid hid' => h q id id' (hsub _ hid) (hsub _ hid')

/-- All partitions of one member. -/
theorem foldlM_assign_ok {known : List Int} {m : GroupMember} {qs : List Int} {assigned done : List (Int × Bytes)}
    (h : Assigned assigned done) {assigned' : List (Int × Bytes)}
    (hok : qs.foldlM (p.assign quoted known m) assigned = .ok assigned') :
    (∀ q ∈ qs, q ∈ known) ∧ Assigned assigned' (done ++ qs.map fun q => (q, m.memberID)) := by
  induction qs generalizing assigned done with
  | nil =>
      obtain rfl := Except.ok.inj hok
      exact ⟨by simp, by simpa using h⟩
  | cons q qs ih =>
      rw [List.foldlM_cons] at hok
      cases hstep : p.assign quoted known m assigned q with
      | error e => exact absurd hok (by simp [hstep, bind, Except.bind])
      | ok middle =>
          rw [hstep] at hok
          obtain ⟨hknown, hmiddle⟩ := assign_ok h hstep
          obtain ⟨hrest, hlast⟩ := ih hmiddle hok
          rw [List.append_assoc] at hlast
          exact ⟨List.forall_mem_cons.mpr ⟨hknown, hrest⟩, hlast⟩

theorem foldlM_assign_of_agrees {known : List Int} {m : GroupMember} {qs : List Int}
    {assigned done : List (Int × Bytes)} (h : Assigned assigned done) (hknown : ∀ q ∈ qs, q ∈ known)
    (hagrees : Agrees (done ++ qs.map fun q => (q, m.memberID))) :
    ∃ assigned', qs.foldlM (p.assign quoted known m) assigned = .ok assigned' := by
  induction qs generalizing assigned done with
  | nil => exact ⟨assigned, rfl⟩
  | cons q qs ih =>
      have hsplit : done ++ (q :: qs).map (fun q => (q, m.memberID)) =
          done ++ [(q, m.memberID)] ++ qs.map fun q => (q, m.memberID) := by simp
      rw [hsplit] at hagrees
      have hfirst : Agrees (done ++ [(q, m.memberID)]) := hagrees.mono fun x hx => List.mem_append_left _ hx
      obtain ⟨middle, hstep⟩ : ∃ r, p.assign quoted known m assigned q = .ok r :=
        assign_of_agrees h (hknown q (by simp)) hfirst
      obtain ⟨last, hlast⟩ := ih (assign_ok h hstep).2 (fun q' hq' => hknown q' (List.mem_cons_of_mem _ hq')) hagrees
      refine ⟨last, ?_⟩
      rw [List.foldlM_cons, hstep]
      exact hlast

/-- All members. -/
theorem foldlM_assignMember_ok {known : List Int} {members : List GroupMember} {assigned done : List (Int × Bytes)}
    {n : Nat} (h : Assigned assigned done) {tally : List (Int × Bytes) × Nat}
    (hok : members.foldlM (p.assignMember quoted known) (assigned, n) = .ok tally) :
    (∀ x ∈ p.pairs members, x.1 ∈ known) ∧ Assigned tally.1 (done ++ p.pairs members) ∧
      tally.2 = n + members.countP fun m => decide (p.held m = []) := by
  -- on the members that are left, `done` being what the others hold
  induction members generalizing assigned done n with
  | nil =>
      obtain rfl := Except.ok.inj hok
      exact ⟨by simp [pairs], by simpa [pairs] using h, rfl⟩
  | cons m members ih =>
      rw [List.foldlM_cons] at hok
      cases hstep : (p.held m).foldlM (p.assign quoted known m) assigned with
      | error e => exact absurd hok (by simp [assignMember, hstep, bind, Except.bind])
      | ok middle =>
          simp only [assignMember, hstep] at hok
          obtain ⟨hknown, hmiddle⟩ := foldlM_assign_ok h hstep
          obtain ⟨hrest, hlast, hcount⟩ := ih hmiddle hok
          refine ⟨?_, ?_, ?_⟩
          · intro x hx
            rw [pairs_cons] at hx
            rcases List.mem_append.mp hx with hx | hx
            · obtain ⟨q, hq, rfl⟩ := List.mem_map.mp hx
              exact hknown q hq
            · exact hrest x hx
          · rw [List.append_assoc] at hlast
            exact hlast
          · rw [hcount, List.countP_cons]
            by_cases hheld : p.held m = []
            · simp [hheld]
              omega
            · simp [hheld]

theorem foldlM_assignMember_of_agrees {known : List Int} {members : List GroupMember}
    {assigned done : List (Int × Bytes)} {n : Nat} (h : Assigned assigned done)
    (hknown : ∀ x ∈ p.pairs members, x.1 ∈ known) (hagrees : Agrees (done ++ p.pairs members)) :
    ∃ tally, members.foldlM (p.assignMember quoted known) (assigned, n) = .ok tally := by
  induction members generalizing assigned done n with
  | nil => exact ⟨_, rfl⟩
  | cons m members ih =>
      rw [pairs_cons] at hknown hagrees
      rw [← List.append_assoc] at hagrees
      have hfirst : ∀ q ∈ p.held m, q ∈ known := fun q hq =>
        hknown (q, m.memberID) (List.mem_append_left _ (List.mem_map_of_mem hq))
      obtain ⟨middle, hstep⟩ : ∃ r, (p.held m).foldlM (p.assign quoted known m) assigned = .ok r :=
        foldlM_assign_of_agrees h hfirst (hagrees.mono fun x hx => List.mem_append_left _ hx)
      obtain ⟨tally, htally⟩ := ih (foldlM_assign_ok h hstep).2
        (fun x hx => hknown x (List.mem_append_right _ hx)) hagrees
      refine ⟨tally, ?_⟩
      rw [List.foldlM_cons]
      simp only [assignMember, hstep]
      exact htally

theorem assigned_nil : Assigned [] [] := ⟨by simp, List.nodup_nil⟩

theorem mem_pairs {members : List GroupMember} {q : Int} {id : Bytes} :
    (q, id) ∈ p.pairs members ↔ ∃ m ∈ members, q ∈ p.held m ∧ m.memberID = id := by
  unfold pairs
  rw [List.mem_flatMap]
  constructor
  · rintro ⟨m, hm, hmem⟩
    obtain ⟨q', hq, heq⟩ := List.mem_map.mp hmem
    obtain ⟨rfl, rfl⟩ := Prod.mk.inj heq
    exact ⟨m, hm, hq, rfl⟩
  · rintro ⟨m, hm, hq, rfl⟩
    exact ⟨m, hm, List.mem_map_of_mem hq⟩

theorem consistent_iff {members : List GroupMember} :
    p.Consistent ids members ↔ (∀ x ∈ p.pairs members, x.1 ∈ ids.dedup) ∧ Agrees (p.pairs members) := by
  constructor
  · rintro ⟨hknown, hagrees⟩
    constructor
    · rintro ⟨q, id⟩ hx
      obtain ⟨m, hm, hq, _⟩ := mem_pairs.mp hx
      exact List.mem_dedup.mpr (hknown m hm q hq)
    · intro q id id' hid hid'
      obtain ⟨m, hm, hq, rfl⟩ := mem_pairs.mp hid
      obtain ⟨n, hn, hq', rfl⟩ := mem_pairs.mp hid'
      exact hagrees m hm n hn q hq hq'
  · rintro ⟨hknown, hagrees⟩
    constructor
    · intro m hm q hq
      exact List.mem_dedup.mp (hknown (q, m.memberID) (mem_pairs.mpr ⟨m, hm, hq, rfl⟩))
    · intro m hm n hn q hq hq'
      exact hagrees q _ _ (mem_pairs.mpr ⟨m, hm, hq, rfl⟩) (mem_pairs.mpr ⟨n, hn, hq', rfl⟩)

/-- The assignments of a stable group are taken exactly when they are consistent. -/
theorem stableCoverage_isOk {members : List GroupMember} :
    (∃ c, p.stableCoverage quoted ids members = .ok c) ↔ p.Consistent ids members := by
  rw [consistent_iff]
  unfold stableCoverage
  constructor
  · rintro ⟨c, hc⟩
    split at hc
    · exact absurd hc (by simp)
    next assigned unassigned hfold =>
    obtain ⟨hknown, hassigned, _⟩ := foldlM_assignMember_ok assigned_nil hfold
    exact ⟨hknown, hassigned.single_owner⟩
  · rintro ⟨hknown, hagrees⟩
    obtain ⟨⟨assigned, unassigned⟩, htally⟩ : ∃ tally,
        members.foldlM (p.assignMember quoted ids.dedup) ([], 0) = .ok tally :=
      foldlM_assignMember_of_agrees assigned_nil hknown hagrees
    rw [htally]
    exact ⟨_, rfl⟩

/-- What is counted: the members, those that hold nothing, and the named partitions nobody holds. -/
theorem stableCoverage_ok {members : List GroupMember} {c : AssignmentCoverage}
    (h : p.stableCoverage quoted ids members = .ok c) :
    c.members = members.length ∧ c.unassignedMembers = (members.countP fun m => decide (p.held m = [])) ∧
      c.unassignedPartitions = (ids.dedup.countP fun q => decide (∀ m ∈ members, q ∉ p.held m)) := by
  unfold stableCoverage at h
  split at h
  · exact absurd h (by simp)
  next assigned unassigned hfold =>
  obtain rfl := Except.ok.inj h
  obtain ⟨hknown, hassigned, hcount⟩ := foldlM_assignMember_ok assigned_nil hfold
  refine ⟨rfl, by simpa using hcount, ?_⟩
  replace hassigned : Assigned assigned (p.pairs members) := hassigned
  -- a partition is assigned when some member holds it, whoever was entered for it
  have hkey : ∀ q, q ∈ assigned.map Prod.fst ↔ ∃ m ∈ members, q ∈ p.held m := by
    intro q
    constructor
    · intro hq
      obtain ⟨⟨q', id⟩, hmem, rfl⟩ := List.mem_map.mp hq
      obtain ⟨owner, howner⟩ := Option.isSome_iff_exists.mp
        (List.lookup_isSome_iff.mpr ⟨_, hmem, beq_self_eq_true q'⟩)
      obtain ⟨m, hm, hheld, _⟩ := mem_pairs.mp ((hassigned.lookup q' owner).mp howner)
      exact ⟨m, hm, hheld⟩
    · rintro ⟨m, hm, hheld⟩
      have hlookup := (hassigned.lookup q m.memberID).mpr (mem_pairs.mpr ⟨m, hm, hheld, rfl⟩)
      obtain ⟨_, _, hsplit, _⟩ := List.lookup_eq_some_iff.mp hlookup
      have hmem : (q, m.memberID) ∈ assigned := by
        rw [hsplit]
        simp
      exact List.mem_map_of_mem hmem
  have hperm : (assigned.map Prod.fst).Perm (ids.dedup.filter fun q => decide (∃ m ∈ members, q ∈ p.held m)) := by
    apply (List.perm_ext_iff_of_nodup hassigned.nodup (ids.nodup_dedup.filter _)).mpr
    intro q
    rw [hkey, List.mem_filter, decide_eq_true_iff]
    constructor
    · rintro ⟨m, hm, hheld⟩
      exact ⟨hknown (q, m.memberID) (mem_pairs.mpr ⟨m, hm, hheld, rfl⟩), m, hm, hheld⟩
    · exact And.right
  have hlength := hperm.length_eq
  rw [List.length_map, ← List.countP_eq_length_filter] at hlength
  have hsplit := List.length_eq_countP_add_countP (fun q => decide (∃ m ∈ members, q ∈ p.held m)) (l := ids.dedup)
  have hnot : (ids.dedup.countP fun q => decide (∀ m ∈ members, q ∉ p.held m)) =
      ids.dedup.countP fun q => decide ¬ decide (∃ m ∈ members, q ∈ p.held m) = true := by
    congr 1
    funext q
    simp
  rw [hnot]
  simp only
  omega

/-- **The members are known** exactly when `groupCoverage` says who they are. -/
theorem groupCoverage_isOk : (∃ c, p.groupCoverage quoted a ids = .ok c) ↔ p.Covered a ids := by
  unfold groupCoverage Covered
  constructor
  · rintro ⟨c, hc⟩
    split at hc
    · exact absurd hc (by simp)
    next groups hgroups =>
    split at hc
    · exact absurd hc (by simp)
    next group hfind =>
    split at hc
    · exact absurd hc (by simp)
    next herror =>
    refine ⟨groups, group, hgroups, hfind, herror, ?_⟩
    split at hc
    · next hstable => exact Or.inl ⟨hstable, stableCoverage_isOk.mp ⟨c, hc⟩⟩
    next =>
    split at hc
    · next hempty =>
      split at hc
      · exact absurd hc (by simp)
      next hnone => exact Or.inr ⟨hempty, List.eq_nil_of_length_eq_zero (not_not.mp hnone)⟩
    · exact absurd hc (by simp)
  · rintro ⟨groups, group, hgroups, hfind, herror, ⟨hstable, hconsistent⟩ | ⟨hempty, hnone⟩⟩
    · simp only [hgroups, hfind, herror, hstable, if_true]
      exact stableCoverage_isOk.mpr hconsistent
    · have hnot : ¬ group.groupState = ascii "Stable" := by
        rcases hempty with h | h <;> rw [h] <;> decide
      simp only [hgroups, hfind, herror]
      rw [if_neg hnot, if_pos hempty, if_neg (by simp [hnone])]
      exact ⟨_, rfl⟩

/-- The answer describes the group, and the group is stable. -/
structure DescribesStable (p : LagPoller) (a : Answers) (members : List GroupMember) : Prop where
  found : ∃ groups, a.describeGroups = .ok groups ∧
    ∃ group, groups.find? (fun g => g.groupID == p.group) = some group ∧ group.error = none ∧
      group.groupState = ascii "Stable" ∧ group.members = members

/-- Of a stable group only the assignments are looked at. -/
theorem groupCoverage_eq {members : List GroupMember} (h : p.DescribesStable a members) :
    p.groupCoverage quoted a ids = p.stableCoverage quoted ids members := by
  obtain ⟨groups, hgroups, group, hfind, herror, hstable, rfl⟩ := h.found
  unfold groupCoverage
  simp only [hgroups, hfind, herror, hstable, if_true]

/-- **The counts of a stable group are exact.**  Of distinct partitions, the coverage is known when every held one is
listed and has one owner; and then it counts the members, those that hold nothing of the topic, and the listed
partitions nobody holds. -/
theorem groupCoverage_counts {members : List GroupMember} (h : p.DescribesStable a members) (hdistinct : ids.Nodup) :
    ((∃ c, p.groupCoverage quoted a ids = .ok c) ↔
      (∀ m ∈ members, ∀ q ∈ p.held m, q ∈ ids) ∧
      ∀ m ∈ members, ∀ n ∈ members, m.memberID ≠ n.memberID → ∀ q ∈ p.held m, q ∉ p.held n) ∧
    ∀ c, p.groupCoverage quoted a ids = .ok c →
      c.members = members.length ∧
      c.unassignedMembers = (members.countP fun m => decide (p.held m = [])) ∧
      c.unassignedPartitions = (ids.countP fun q => decide (∀ m ∈ members, q ∉ p.held m)) := by
  rw [groupCoverage_eq h]
  constructor
  · rw [stableCoverage_isOk]
    -- two owners of a partition are what makes the coverage unstable
    apply and_congr_right
    intro _
    constructor
    · intro hagree m hm n hn hne q hq hq'
      exact hne (hagree m hm n hn q hq hq')
    · intro hapart m hm n hn q hq hq'
      by_contra hne
      exact hapart m hm n hn hne q hq hq'
  · intro c hc
    have hcounts := stableCoverage_ok hc
    rw [hdistinct.dedup] at hcounts
    exact hcounts

/-- Two members with a partition each; one of the three listed partitions is held by nobody. -/
def twoMembers : Answers where
  metadata := .error []
  offsetFetch := .error []
  listOffsets := .error []
  describeGroups := .ok [⟨ascii "relay", none, ascii "Stable",
    [⟨ascii "a", [⟨ascii "events", [0, 0]⟩, ⟨ascii "other", [7]⟩]⟩, ⟨ascii "b", [⟨ascii "events", [2]⟩]⟩]⟩]
  now := 0

theorem groupCoverage_counts_twoMembers :
    (∃ c, LagPoller.groupCoverage id ⟨ascii "relay", ascii "events"⟩ twoMembers [0, 1, 2] = .ok c) ∧
    ∀ c, LagPoller.groupCoverage id ⟨ascii "relay", ascii "events"⟩ twoMembers [0, 1, 2] = .ok c →
      c.members = 2 ∧ c.unassignedMembers = 0 ∧ c.unassignedPartitions = 1 := by
  have hstable : DescribesStable ⟨ascii "relay", ascii "events"⟩ twoMembers
      [⟨ascii "a", [⟨ascii "events", [0, 0]⟩, ⟨ascii "other", [7]⟩]⟩, ⟨ascii "b", [⟨ascii "events", [2]⟩]⟩] :=
    ⟨⟨_, rfl, _, rfl, rfl, rfl, rfl⟩⟩
  have hdistinct : [(0 : Int), 1, 2].Nodup := by decide
  obtain ⟨hknown, hcounts⟩ := @groupCoverage_counts id _ _ _ _ hstable hdistinct
  exact ⟨hknown.mpr (by decide), hcounts⟩

/-! ## One refresh -/

theorem gather_ok {e : Evidence} : p.gather quoted a = .ok e ↔
    p.partitions quoted a = .ok e.partitions ∧ e.partitions ≠ [] ∧
      p.committedOffsets quoted a = .ok e.committed ∧ p.partitionBounds quoted a = .ok e.bounds ∧
      p.groupCoverage quoted a e.partitions = .ok e.coverage := by
  unfold gather
  constructor
  · intro h
    split at h
    · exact absurd h (by simp)
    next ids hids =>
    split at h
    · exact absurd h (by simp)
    next hne =>
    split at h
    · exact absurd h (by simp)
    next committed hcommitted =>
    split at h
    · exact absurd h (by simp)
    next bounds hbounds =>
    split at h
    · exact absurd h (by simp)
    next coverage hcoverage =>
    obtain rfl := Except.ok.inj h
    exact ⟨hids, hne, hcommitted, hbounds, hcoverage⟩
  · rintro ⟨hids, hne, hcommitted, hbounds, hcoverage⟩
    simp only [hids, hne, if_false, hcommitted, hbounds, hcoverage]

/-- The lag of a partition, when both of its halves were read. -/
def measured (committed : Int → Option Int64) (bounds : Int → Option OffsetBounds) (q : Int) : Option Float64 :=
  match bounds q, committed q with
  | some b, some offset => some (.ofInt (lagFor offset b.first b.last).toInt)
  | _, _ => none

/-- The gauges one partition sets. -/
def partitionWrites (p : LagPoller) (committed : Int → Option Int64) (bounds : Int → Option OffsetBounds) (q : Int) :
    List (Write Gauge) :=
  (p.visit committed bounds ⟨[], 0, 0⟩ q).writes

/-- **The loop over the partitions.** -/
theorem foldl_visit {committed : Int → Option Int64} {bounds : Int → Option OffsetBounds} (t : Tally) :
    ids.foldl (p.visit committed bounds) t =
      ⟨t.writes ++ ids.flatMap (p.partitionWrites committed bounds),
        (ids.filterMap (measured committed bounds)).foldl Float64.add t.total,
        t.missing + ids.countP fun q => (measured committed bounds q).isNone⟩ := by
  induction ids generalizing t with
  | nil => simp
  | cons q ids ih =>
      have hstep : p.visit committed bounds t q =
          ⟨t.writes ++ p.partitionWrites committed bounds q,
            (measured committed bounds q).elim t.total (Float64.add t.total),
            t.missing + if (measured committed bounds q).isNone then 1 else 0⟩ := by
        unfold partitionWrites visit measured
        cases bounds q with
        | none => simp
        | some b => cases committed q <;> simp
      rw [List.foldl_cons, hstep, ih, List.flatMap_cons, List.append_assoc]
      congr 1
      · cases hq : measured committed bounds q with
        | none => rw [List.filterMap_cons_none hq, Option.elim_none]
        | some lag => rw [List.filterMap_cons_some hq, Option.elim_some, List.foldl_cons]
      · show t.missing + _ + _ = _
        rw [List.countP_cons]
        omega

/-- One of the five gauges that are only published together. -/
def inSnapshot (w : Write Gauge) : Bool :=
  w.gauge == .consumerLagTotal || w.gauge == .groupMembers || w.gauge == .groupUnassignedMembers ||
    w.gauge == .topicPartitionsUnassigned || w.gauge == .lagRefreshedAt

theorem not_inSnapshot_of_partition {committed : Int → Option Int64} {bounds : Int → Option OffsetBounds} {q : Int} :
    ∀ w ∈ p.partitionWrites committed bounds q, inSnapshot w = false := by
  intro w hw
  unfold partitionWrites visit at hw
  cases hbounds : bounds q with
  | none => simp [hbounds] at hw
  | some b =>
      cases hcommitted : committed q with
      | none =>
          simp only [hbounds, hcommitted, List.nil_append, List.mem_singleton] at hw
          rw [hw]
          rfl
      | some offset =>
          simp only [hbounds, hcommitted, List.nil_append, List.mem_cons, List.not_mem_nil, or_false] at hw
          rcases hw with rfl | rfl | rfl <;> rfl

/-- The writes of one refresh up to the point where it is known whether something is missing. -/
def spread (p : LagPoller) (e : Evidence) : List (Write Gauge) :=
  e.partitions.flatMap (p.partitionWrites e.committed e.bounds) ++
    [⟨.lagPartitionsMissing, [p.group, p.topic],
      .ofInt (e.partitions.countP fun q => (measured e.committed e.bounds q).isNone : Nat)⟩]

theorem not_inSnapshot_of_spread {e : Evidence} : ∀ w ∈ p.spread e, inSnapshot w = false := by
  intro w hw
  rcases List.mem_append.mp hw with hw | hw
  · obtain ⟨q, _, hw⟩ := List.mem_flatMap.mp hw
    exact not_inSnapshot_of_partition w hw
  · rw [List.mem_singleton.mp hw]
    rfl

theorem publish_cases (e : Evidence) (now : Int) :
    ((p.publish quoted e now).1 = p.spread e ∧ (p.publish quoted e now).2 ≠ none ∧
        ∃ q ∈ e.partitions, measured e.committed e.bounds q = none) ∨
      ((p.publish quoted e now).2 = none ∧ (∀ q ∈ e.partitions, measured e.committed e.bounds q ≠ none) ∧
        (p.publish quoted e now).1 =
          p.spread e ++ p.snapshotWrites (Float64.total (e.partitions.filterMap (measured e.committed e.bounds)))
            e.coverage now) := by
  have hfold := @foldl_visit p e.partitions e.committed e.bounds ⟨[], 0, 0⟩
  unfold publish
  rw [hfold]
  simp only [List.nil_append, Nat.zero_add]
  split
  · next hmissing =>
    obtain ⟨q, hq, hnone⟩ := List.countP_pos_iff.mp hmissing
    exact Or.inl ⟨rfl, by simp, q, hq, Option.isNone_iff_eq_none.mp hnone⟩
  · next hmissing =>
    refine Or.inr ⟨rfl, fun q hq hnone => hmissing ?_, rfl⟩
    exact List.countP_pos_iff.mpr ⟨q, hq, Option.isNone_iff_eq_none.mpr hnone⟩

theorem measured_isSome {q : Int} : measured (p.committedIn a) (p.boundsIn a) q ≠ none ↔
    (p.committedIn a q).isSome ∧ (p.boundsIn a q).isSome := by
  unfold measured
  cases p.boundsIn a q <;> cases p.committedIn a q <;> simp

theorem measured_eq {q : Int} (h : measured (p.committedIn a) (p.boundsIn a) q ≠ none) :
    measured (p.committedIn a) (p.boundsIn a) q = some (.ofInt (p.lagIn a q)) := by
  unfold measured lagIn at *
  cases hb : p.boundsIn a q with
  | none => exact absurd (by rw [hb]) h
  | some b =>
      cases hc : p.committedIn a q with
      | none => exact absurd (by rw [hb, hc]) h
      | some offset => rfl

theorem lagIn_nonneg (a : Answers) (q : Int) : 0 ≤ p.lagIn a q := by
  unfold lagIn
  split
  · exact lagFor_nonneg _ _ _
  · exact le_refl 0

/-- The total of the named partitions' lags. -/
def totalIn (p : LagPoller) (a : Answers) (ids : List Int) : Float64 :=
  Float64.total (ids.map fun q => .ofInt (p.lagIn a q))

/-- **A refresh without an error** read a complete measurement, and publishes it. -/
theorem refresh_complete (h : (p.refresh quoted a).2 = none) : ∃ ids c, p.Complete a ids ∧
    p.groupCoverage quoted a ids = .ok c ∧
      (p.refresh quoted a).1 = p.spread ⟨ids, p.committedIn a, p.boundsIn a, c⟩ ++
        p.snapshotWrites (p.totalIn a ids) c a.now := by
  unfold refresh at h ⊢
  split at h
  · exact absurd h (by simp)
  next e hgather =>
  obtain ⟨hids, hne, hcommitted, hbounds, hcoverage⟩ := gather_ok.mp hgather
  obtain ⟨res, hres, herror, hcommitted⟩ := committedOffsets_ok hcommitted
  obtain ⟨topics, htopics, hbounds⟩ := partitionBounds_ok hbounds
  obtain ⟨_, hfailed, _⟩ | ⟨_, hall, hwrites⟩ := @publish_cases quoted p e a.now
  · exact absurd h hfailed
  obtain ⟨_, _, _, c⟩ := e
  obtain rfl : _ = p.committedIn a := hcommitted
  obtain rfl : _ = p.boundsIn a := hbounds
  -- every partition was measured, so it has an offset and both bounds
  have hread := fun q hq => measured_isSome.mp (hall q hq)
  refine ⟨_, c, ⟨partitions_ok.mp hids, hne, ⟨res, hres, herror, ?_⟩, ⟨topics, htopics, ?_⟩,
    groupCoverage_isOk.mp ⟨_, hcoverage⟩⟩, hcoverage, ?_⟩
  · exact fun q hq => (committedIn_isSome hres).mp (hread q hq).1
  · exact fun q hq => (boundsIn_isSome htopics).mp (hread q hq).2
  · rw [hwrites, totalIn, ← List.filterMap_eq_map]
    congr 2
    exact congrArg Float64.total (List.filterMap_congr fun q hq => measured_eq (hall q hq))

theorem names_unique {ids' : List Int} (h : p.Names a ids) (h' : p.Names a ids') : ids = ids' := by
  obtain ⟨topics, topic, htopics, htopic, _, rfl⟩ := h
  obtain ⟨topics', topic', htopics', htopic', _, rfl⟩ := h'
  obtain rfl := Except.ok.inj (htopics.symm.trans htopics')
  rw [Option.some.inj (htopic.symm.trans htopic')]

/-- In a complete measurement the lag of every named partition is known. -/
theorem measured_of_complete (h : p.Complete a ids) {q : Int} (hq : q ∈ ids) :
    measured (p.committedIn a) (p.boundsIn a) q = some (.ofInt (p.lagIn a q)) := by
  obtain ⟨res, hres, _, hcommitted⟩ := h.committed
  obtain ⟨topics, htopics, hbounds⟩ := h.bounds
  apply measured_eq
  exact measured_isSome.mpr
    ⟨(committedIn_isSome hres).mpr (hcommitted q hq), (boundsIn_isSome htopics).mpr (hbounds q hq)⟩

/-- A refresh that read a complete measurement has no error. -/
theorem refresh_of_complete (h : p.Complete a ids) : (p.refresh quoted a).2 = none := by
  obtain ⟨res, hres, herror, hcommitted⟩ := h.committed
  obtain ⟨topics, htopics, hbounds⟩ := h.bounds
  obtain ⟨c, hc⟩ : ∃ c, p.groupCoverage quoted a ids = .ok c := groupCoverage_isOk.mpr h.covered
  have hread : ∀ q ∈ ids, (p.committedIn a q).isSome ∧ (p.boundsIn a q).isSome := fun q hq =>
    ⟨(committedIn_isSome hres).mpr (hcommitted q hq), (boundsIn_isSome htopics).mpr (hbounds q hq)⟩
  obtain ⟨q, hq⟩ := List.exists_mem_of_ne_nil ids h.nonempty
  have hgather : p.gather quoted a = .ok ⟨ids, p.committedIn a, p.boundsIn a, c⟩ :=
    gather_ok.mpr ⟨partitions_ok.mpr h.names, h.nonempty, committedOffsets_of_isSome hres herror (hread q hq).1,
      partitionBounds_of_isSome htopics (hread q hq).2, hc⟩
  unfold refresh
  rw [hgather]
  obtain ⟨_, _, q', hq', hnone⟩ | ⟨hnone, _⟩ :=
    @publish_cases quoted p ⟨ids, p.committedIn a, p.boundsIn a, c⟩ a.now
  · exact absurd hnone (measured_isSome.mpr (hread q' hq'))
  · exact hnone

/-- A refresh with an error sets none of the five. -/
theorem refresh_failed (h : (p.refresh quoted a).2 ≠ none) : ∀ w ∈ (p.refresh quoted a).1, inSnapshot w = false := by
  unfold refresh at h ⊢
  split
  · simp
  next e hgather =>
  rw [hgather] at h
  obtain ⟨hwrites, _⟩ | ⟨hnone, _⟩ := @publish_cases quoted p e a.now
  · rw [hwrites]
    exact not_inSnapshot_of_spread
  · exact absurd hnone h

/-! ## Sequences of refreshes -/

theorem polled_append (calls : List Answers) (a : Answers) :
    p.polled quoted (calls ++ [a]) = setAll (p.polled quoted calls) (p.refresh quoted a).1 := by
  rw [polled, List.foldl_append]
  rfl

/-- What the five series hold. -/
def snapshot (p : LagPoller) (r : Registry Gauge) : List (Option Float64) :=
  [read r .consumerLagTotal [p.group, p.topic], read r .groupMembers [p.group],
    read r .groupUnassignedMembers [p.group], read r .topicPartitionsUnassigned [p.group, p.topic],
    read r .lagRefreshedAt []]

/-- What a complete measurement puts into them. -/
def figures (p : LagPoller) (a : Answers) (ids : List Int) (c : AssignmentCoverage) : List Float64 :=
  [p.totalIn a ids, .ofInt c.members, .ofInt c.unassignedMembers, .ofInt c.unassignedPartitions, .ofInt a.now]

/-- Writes to other gauges leave the snapshot alone. -/
theorem snapshot_setAll {ws : List (Write Gauge)} (h : ∀ w ∈ ws, inSnapshot w = false) (r : Registry Gauge) :
    p.snapshot (setAll r ws) = p.snapshot r := by
  have hread : ∀ g labels, (∀ w : Write Gauge, w.gauge = g → inSnapshot w = true) →
      read (setAll r ws) g labels = read r g labels := by
    intro g labels hg
    apply read_setAll_of_notMem
    rintro w hw ⟨hgauge, _⟩
    exact absurd (hg w hgauge) (by simp [h w hw])
  unfold snapshot
  rw [hread, hread, hread, hread, hread] <;> intro w hw <;> simp [inSnapshot, hw]

theorem snapshot_snapshotWrites (r : Registry Gauge) (total : Float64) (c : AssignmentCoverage) (now : Int) :
    p.snapshot (setAll r (p.snapshotWrites total c now)) =
      [some total, some (.ofInt c.members), some (.ofInt c.unassignedMembers), some (.ofInt c.unassignedPartitions),
        some (.ofInt now)] := by
  simp [snapshot, snapshotWrites, setAll, read, set, Function.update]

/-- A run of failures leaves the snapshot as it was. -/
theorem snapshot_of_failures {later : List Answers} (h : ∀ x ∈ later, (p.refresh quoted x).2 ≠ none)
    (earlier : List Answers) : p.snapshot (p.polled quoted (earlier ++ later)) = p.snapshot (p.polled quoted earlier) := by
  -- along the run, its last call first
  induction later using List.reverseRecOn with
  | nil => rw [List.append_nil]
  | append_singleton later x ih =>
      rw [← List.append_assoc, polled_append, snapshot_setAll (refresh_failed (h x (by simp)))]
      exact ih fun y hy => h y (List.mem_append_left _ hy)

/-- **One complete measurement or none of it.**  Whatever the broker answered before: a refresh reads a
complete measurement, sets the five gauges together, and they keep its figures however many refreshes
fail after it; or it has an error and sets none of the five. -/
theorem snapshot_atomic (quoted : Bytes → Bytes) (p : LagPoller) (earlier : List Answers) (a : Answers) :
    (∃ ids c, p.Complete a ids ∧ p.groupCoverage quoted a ids = .ok c ∧ (p.refresh quoted a).2 = none ∧
      (p.refresh quoted a).1.filter inSnapshot = p.snapshotWrites (p.totalIn a ids) c a.now ∧
      ((ids.map (p.lagIn a)).sum ≤ 2 ^ 53 → p.totalIn a ids = (ids.map (p.lagIn a)).sum) ∧
      ∀ later, (∀ x ∈ later, (p.refresh quoted x).2 ≠ none) →
        p.snapshot (p.polled quoted (earlier ++ a :: later)) = (p.figures a ids c).map some) ∨
    ((∀ ids, ¬ p.Complete a ids) ∧ (p.refresh quoted a).2 ≠ none ∧
      (p.refresh quoted a).1.filter inSnapshot = [] ∧
      p.snapshot (p.polled quoted (earlier ++ [a])) = p.snapshot (p.polled quoted earlier)) := by
  by_cases hrefresh : (p.refresh quoted a).2 = none
  -- a refresh that ends well writes the whole snapshot, and later failures leave it
  · left
    obtain ⟨ids, c, hcomplete, hc, hwrites⟩ := refresh_complete hrefresh
    have hrest : (p.spread ⟨ids, p.committedIn a, p.boundsIn a, c⟩).filter inSnapshot = [] :=
      List.filter_eq_nil_iff.mpr fun w hw => by simp [not_inSnapshot_of_spread w hw]
    refine ⟨ids, c, hcomplete, hc, hrefresh, ?_, ?_, ?_⟩
    · rw [hwrites, List.filter_append, hrest, List.nil_append]
      rfl
    · intro hsum
      have hlag : ∀ q ∈ ids, 0 ≤ p.lagIn a q := fun q _ => lagIn_nonneg a q
      -- below 2^53 no lag is rounded, and neither is a sum of them
      have hexact : (ids.map fun q => Float64.ofInt (p.lagIn a q)) = ids.map (p.lagIn a) := by
        apply List.map_congr_left
        intro q hq
        apply Float64.ofInt_of_le
        have hle := List.single_le_sum (fun x hx => by
          obtain ⟨q', hq', rfl⟩ := List.mem_map.mp hx
          exact hlag q' hq') _ (List.mem_map_of_mem (f := p.lagIn a) hq)
        have := hlag q hq
        omega
      rw [totalIn, hexact]
      apply Float64.total_of_le _ hsum
      intro x hx
      obtain ⟨q, hq, rfl⟩ := List.mem_map.mp hx
      exact hlag q hq
    · intro later hlater
      have hsplit : earlier ++ a :: later = earlier ++ [a] ++ later := by simp
      rw [hsplit, snapshot_of_failures hlater, polled_append, hwrites, setAll_append, snapshot_snapshotWrites]
      rfl
  -- a refresh that fails has written none of it
  · right
    refine ⟨fun ids hcomplete => hrefresh (refresh_of_complete hcomplete), hrefresh, ?_, ?_⟩
    · exact List.filter_eq_nil_iff.mpr fun w hw => by simp [refresh_failed hrefresh w hw]
    · rw [polled_append, snapshot_setAll (refresh_failed hrefresh)]

end LagPoller

end LocalPlatform.Metrics
