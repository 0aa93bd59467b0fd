/-
# LocalPlatform.Metrics.Series — the published total against the series it is the sum of.

A refresh sets the lag of every partition the metadata names and nothing else, and a series once set is
exported from then on.  So after a complete refresh the total is the sum of the exported series exactly
when what is left over from partitions no longer named adds nothing (`total_matches_iff`).
-/
import LocalPlatform.Metrics.Snapshot

namespace LocalPlatform.Metrics

open Codec

namespace LagPoller

variable {quoted : Bytes → Bytes} {p : LagPoller} {a : Answers} {ids : List Int}

/-- The labels of a series of this group and topic. -/
def own (p : LagPoller) (labels : List Bytes) : Bool := labels.take 2 == [p.group, p.topic]

/-- The labels of the lag of one partition. -/
def series (p : LagPoller) (q : Int) : List Bytes := [p.group, p.topic, decInt q]

/-- The sum of the lag series exported for this group and topic. -/
def exportedLag (p : LagPoller) (r : Registry Gauge) : Int := GaugeVec.exported (r .consumerLag) p.own

/-- The total that is exported is the sum of the lag series that are. -/
def TotalMatches (p : LagPoller) (r : Registry Gauge) : Prop :=
  read r .consumerLagTotal [p.group, p.topic] = some (p.exportedLag r)

/-- A series of this group and topic for none of these partitions. -/
def Stale (p : LagPoller) (ids : List Int) (labels : List Bytes) : Prop :=
  p.own labels = true ∧ labels ∉ ids.map p.series

/-! ## The lag series a refresh sets -/

theorem mem_partitionWrites {committed : Int → Option Int64} {bounds : Int → Option OffsetBounds} {q : Int}
    {w : Write Gauge} (hg : w.gauge = .consumerLag) : w ∈ p.partitionWrites committed bounds q ↔
      w.labels = p.series q ∧ measured committed bounds q = some w.value := by
  obtain ⟨g, labels, value⟩ := w
  subst hg
  unfold partitionWrites visit measured series
  cases bounds q with
  | none => simp
  | some b => cases committed q <;> simp [eq_comm]

theorem mem_spread {e : Evidence} {w : Write Gauge} (hg : w.gauge = .consumerLag) : w ∈ p.spread e ↔
    ∃ q ∈ e.partitions, w.labels = p.series q ∧ measured e.committed e.bounds q = some w.value := by
  unfold spread
  rw [List.mem_append, List.mem_flatMap]
  constructor
  · rintro (⟨q, hq, hw⟩ | hw)
    · exact ⟨q, hq, (mem_partitionWrites hg).mp hw⟩
    · rw [List.mem_singleton.mp hw] at hg
      exact absurd hg (by simp)
  · rintro ⟨q, hq, hw⟩
    exact Or.inl ⟨q, hq, (mem_partitionWrites hg).mpr hw⟩

theorem not_consumerLag {total : Float64} {c : AssignmentCoverage} {now : Int} {w : Write Gauge}
    (hw : w ∈ p.snapshotWrites total c now) : w.gauge ≠ .consumerLag := by
  simp only [snapshotWrites, List.mem_cons, List.not_mem_nil, or_false] at hw
  rcases hw with rfl | rfl | rfl | rfl | rfl <;> simp

/-- Whatever a refresh was answered, the lags it sets are not negative. -/
theorem refresh_nonneg : ∀ w ∈ (p.refresh quoted a).1, w.gauge = .consumerLag → 0 ≤ w.value := by
  have hspread : ∀ e, ∀ w ∈ p.spread e, w.gauge = .consumerLag → 0 ≤ w.value := by
    intro e w hw hg
    obtain ⟨q, _, _, hvalue⟩ := (mem_spread hg).mp hw
    unfold measured at hvalue
    split at hvalue
    · rw [← Option.some.inj hvalue]
      exact Float64.ofInt_nonneg (lagFor_nonneg _ _ _)
    · exact absurd hvalue (by simp)
  unfold refresh
  split
  · simp
  next e _ =>
  obtain ⟨hwrites, _⟩ | ⟨_, _, hwrites⟩ := @publish_cases quoted p e a.now
  · rw [hwrites]
    exact hspread e
  · rw [hwrites]
    intro w hw hg
    rcases List.mem_append.mp hw with hw | hw
    · exact hspread e w hw hg
    · exact absurd hg (not_consumerLag hw)

/-- No exported lag is negative. -/
theorem polled_nonneg (calls : List Answers) : ∀ labels x,
    read (p.polled quoted calls) .consumerLag labels = some x → 0 ≤ x := by
  induction calls using List.reverseRecOn with
  | nil =>
      intro labels x h
      exact absurd h (by simp [polled, read])
  | append_singleton calls a ih =>
      rw [polled_append]
      have hwrites := @refresh_nonneg quoted p a
      generalize (p.refresh quoted a).1 = ws at hwrites
      generalize p.polled quoted calls = r at ih
      induction ws generalizing r with
      | nil => exact ih
      | cons w ws ihw =>
          rw [setAll_cons]
          apply ihw fun v hv => hwrites v (List.mem_cons_of_mem _ hv)
          intro labels x h
          by_cases hw : w.gauge = .consumerLag ∧ w.labels = labels
          · obtain ⟨hg, rfl⟩ := hw
            rw [← hg, read_set_self] at h
            rw [← Option.some.inj h]
            exact hwrites w (by simp) hg
          · rw [read_set_of_ne hw] at h
            exact ih labels x h

/-! ## The total and the series -/

theorem series_injective : Function.Injective p.series := by
  intro q q' h
  unfold series at h
  simp only [List.cons.injEq, and_true, true_and] at h
  exact decInt_injective h

/-- **After a complete refresh** the named partitions' series hold their lags. -/
theorem read_series (hok : (p.refresh quoted a).2 = none) (hnames : p.Names a ids) (r : Registry Gauge) {q : Int}
    (hq : q ∈ ids) : read (setAll r (p.refresh quoted a).1) .consumerLag (p.series q) =
      some (.ofInt (p.lagIn a q)) := by
  obtain ⟨ids', c, hcomplete, _, hwrites⟩ := refresh_complete hok
  obtain rfl : ids' = ids := names_unique hcomplete.names hnames
  have hmeasured := measured_of_complete hcomplete hq
  rw [hwrites]
  apply read_setAll_of_forall
  · intro w hw hg hl
    rcases List.mem_append.mp hw with hw | hw
    · obtain ⟨q', _, hl', hvalue⟩ := (mem_spread hg).mp hw
      obtain rfl : q' = q := series_injective (hl'.symm.trans hl)
      exact Option.some.inj (hvalue.symm.trans hmeasured)
    · exact absurd hg (not_consumerLag hw)
  · left
    refine ⟨⟨.consumerLag, p.series q, .ofInt (p.lagIn a q)⟩, List.mem_append_left _ ?_, rfl, rfl⟩
    exact (mem_spread rfl).mpr ⟨q, hq, rfl, hmeasured⟩

/-- The series of other partitions are what they were. -/
theorem exported_stale (hok : (p.refresh quoted a).2 = none) (hnames : p.Names a ids) (r : Registry Gauge) :
    GaugeVec.exported (setAll r (p.refresh quoted a).1 .consumerLag)
        (fun k => p.own k && !decide (k ∈ ids.map p.series)) =
      GaugeVec.exported (r .consumerLag) (fun k => p.own k && !decide (k ∈ ids.map p.series)) := by
  obtain ⟨ids', c, hcomplete, _, hwrites⟩ := refresh_complete hok
  obtain rfl : ids' = ids := names_unique hcomplete.names hnames
  apply exported_setAll
  intro w hw hg
  rw [hwrites] at hw
  rcases List.mem_append.mp hw with hw | hw
  · obtain ⟨q, hq, hl, _⟩ := (mem_spread hg).mp hw
    have hnamed : w.labels ∈ ids'.map p.series := hl ▸ List.mem_map_of_mem hq
    simp [hnamed]
  · exact absurd hg (not_consumerLag hw)

/-- **When the total is the sum of the exported series.**  After any refreshes, a complete one whose lags
are added up without rounding exports a total that is the sum of the exported lag series if and only if
every exported series of a partition it does not name is zero. -/
theorem total_matches_iff (calls : List Answers) (hok : (p.refresh quoted a).2 = none) (hnames : p.Names a ids)
    (hnodup : ids.Nodup) (hexact : p.totalIn a ids = (ids.map fun q => Float64.ofInt (p.lagIn a q)).sum) :
    p.TotalMatches (p.polled quoted (calls ++ [a])) ↔
      ∀ labels x, read (p.polled quoted calls) .consumerLag labels = some x → p.Stale ids labels → x = 0 := by
  obtain ⟨ids', c, hcomplete, _, hwrites⟩ := refresh_complete hok
  obtain rfl : ids' = ids := names_unique hcomplete.names hnames
  have htotal : read (p.polled quoted (calls ++ [a])) .consumerLagTotal [p.group, p.topic] = some (p.totalIn a ids') := by
    rw [polled_append, hwrites, setAll_append]
    exact (List.cons.inj (snapshot_snapshotWrites _ _ _ _)).1
  have hnamed : GaugeVec.exported (p.polled quoted (calls ++ [a]) .consumerLag)
      (fun k => p.own k && decide (k ∈ ids'.map p.series)) = p.totalIn a ids' := by
    -- every named partition's series is one of this group and topic
    have hown : ∀ k, (p.own k && decide (k ∈ ids'.map p.series)) = decide (k ∈ ids'.map p.series) := by
      intro k
      by_cases hk : k ∈ ids'.map p.series
      · obtain ⟨q, _, rfl⟩ := List.mem_map.mp hk
        simp [own, series]
      · simp [hk]
    let held : List Bytes → Float64 := fun k =>
      (read (setAll (p.polled quoted calls) (p.refresh quoted a).1) .consumerLag k).getD 0
    rw [GaugeVec.exported_congr hown, hexact, polled_append,
      GaugeVec.exported_of_lookup (hnodup.map series_injective) (f := held)]
    · rw [List.map_map]
      congr 1
      apply List.map_congr_left
      intro q hq
      show (read _ _ (p.series q)).getD 0 = _
      rw [read_series hok hnames _ hq, Option.getD_some]
    · intro k hk
      obtain ⟨q, hq, rfl⟩ := List.mem_map.mp hk
      show read _ _ (p.series q) = some ((read _ _ (p.series q)).getD 0)
      rw [read_series hok hnames _ hq]
      rfl
  have hstale := exported_stale hok hnames (p.polled quoted calls)
  rw [← polled_append] at hstale
  have hsplit := GaugeVec.exported_split (p.polled quoted (calls ++ [a]) .consumerLag) p.own
    fun k => decide (k ∈ ids'.map p.series)
  have hzero := @GaugeVec.exported_eq_zero (p.polled quoted calls .consumerLag)
    (fun k => p.own k && !decide (k ∈ ids'.map p.series)) (polled_nonneg calls)
  have hmatches : p.TotalMatches (p.polled quoted (calls ++ [a])) ↔
      GaugeVec.exported (p.polled quoted calls .consumerLag)
        (fun k => p.own k && !decide (k ∈ ids'.map p.series)) = 0 := by
    unfold TotalMatches exportedLag
    rw [htotal, hsplit, hnamed, hstale, Option.some.injEq]
    exact left_eq_add
  rw [hmatches, hzero]
  simp only [Stale, Bool.and_eq_true, Bool.not_eq_true', decide_eq_false_iff_not]
  exact Iff.rfl

/-! ## A topic that shrinks -/

def relayPoller : LagPoller := ⟨ascii "relay", ascii "events"⟩

/-- A broker with these partitions, five records on each and nothing committed, and no consumer. -/
def fresh (ids : List Int) : Answers where
  metadata := .ok [⟨ascii "events", none, ids⟩]
  offsetFetch := .ok ⟨none, fun _ => ids.map fun q => ⟨q, -1, none⟩⟩
  listOffsets := .ok fun _ => ids.map fun q => ⟨q, 0, 5, none⟩
  describeGroups := .ok [⟨ascii "relay", none, ascii "Empty", []⟩]
  now := 100

theorem total_matches_iff_grown :
    relayPoller.TotalMatches (relayPoller.polled id [fresh [0], fresh [0, 1]]) := by
  refine (@total_matches_iff id relayPoller (fresh [0, 1]) [0, 1] [fresh [0]] (by decide)
    ⟨_, _, rfl, rfl, rfl, rfl⟩ (by decide) (by decide)).mpr ?_
  intro labels x hread hstale
  have hzero : labels = relayPoller.series 0 := by
    by_contra hne
    have hpolled : relayPoller.polled id [fresh [0]] .consumerLag =
        (∅ : GaugeVec).insert (relayPoller.series 0) 5 := AList.ext (by decide)
    unfold read at hread
    rw [hpolled, AList.lookup_insert_ne hne] at hread
    exact absurd hread (by simp)
  exact absurd (hzero ▸ List.mem_cons_self) hstale.2

/-- **The series of a partition that is gone is still exported**: a topic of two partitions is created
again with one, and the next complete refresh publishes 5 beside series that add up to 10. -/
theorem not_total_matches_shrunk : ¬ ∀ (quoted : Bytes → Bytes) (p : LagPoller) (calls : List Answers) (a : Answers),
    (p.refresh quoted a).2 = none → p.TotalMatches (p.polled quoted (calls ++ [a])) := by
  intro hall
  have hmatches := hall id relayPoller [fresh [0, 1]] (fresh [0]) (by decide)
  have htotal : read (relayPoller.polled id [fresh [0, 1], fresh [0]]) .consumerLagTotal [ascii "relay", ascii "events"] =
      some 5 := by decide
  have hseries : relayPoller.exportedLag (relayPoller.polled id [fresh [0, 1], fresh [0]]) = 10 := by decide
  unfold TotalMatches at hmatches
  exact absurd (htotal.symm.trans (hmatches.trans (congrArg some hseries))) (by decide)

end LagPoller

end LocalPlatform.Metrics
