/-
# LocalPlatform.Relay.Delivery.Group — the consumer group, across crashes and restarts.

A partition is read from its committed offset by one member at a time.  One step of the group is the
whole life of a member: it fetches records in offset order, `run` processes them, and the life ends with
the run, between two records, or in the middle of one by a crash.  Lives of members that own different
partitions touch different offsets, so listing them one after the other loses nothing.

Inside a life every record but the last was committed, so the position the reader remembers is the
committed offset: a life is a run of visits of the reader of `Logic.Cursor` (`Life.later`), and what that
reader guarantees holds of the group.
-/
import LocalPlatform.Logic.Cursor
import LocalPlatform.Relay.Delivery.Consumer

namespace LocalPlatform.Relay.Delivery

open Codec Subscriptions Kafka Logic

/-- The delivery topic: the record at an offset of a partition, if there is one. -/
structure Topic where
  record : Nat → Nat → Option Message
  placed : ∀ p q m, record p q = some m → m.partition = p ∧ m.offset = q

/-- There is a record at the offset. -/
def Topic.held (topic : Topic) (p q : Nat) : Prop := ∃ m, topic.record p q = some m

/-- Where every record went by its key. -/
def Topic.Keyed (topic : Topic) (balance : Option Bytes → Nat) : Prop :=
  ∀ p q m, topic.record p q = some m → p = balance m.key

/-- **What a reader fetches** that starts at these positions: in every partition the records in the order
of their offsets. -/
inductive Fetches (topic : Topic) : (Nat → Nat) → List Iteration → Prop
  | nil {position} : Fetches topic position []
  | failed {position it rest e} (fetch : it.fetch = .failed e) : Fetches topic position (it :: rest)
  | message {position it rest msg} (fetch : it.fetch = .message msg)
      (here : topic.record msg.partition msg.offset = some msg)
      (first : First (topic.held msg.partition) (position msg.partition) msg.offset)
      (next : Fetches topic (Function.update position msg.partition (msg.offset + 1)) rest) :
      Fetches topic position (it :: rest)

/-- A crash in the middle of a record: only its first events happened, and the commit was not sent. -/
def cutShort (n : Nat) (ps : List Processing) : List Processing :=
  match ps.getLast? with
  | none => []
  | some p => ps.dropLast ++ [{ p with events := p.events.take n, committed := false }]

/-- What a life leaves: all that `run` processed, or less by a crash. -/
def lived (rt : Runtime) (c : Consumer) (its : List Iteration) : Option Nat → List Processing
  | none => (run rt c its).1
  | some n => cutShort n (run rt c its).1

/-- A processing as a visit of the reader. -/
def reading : Reading Processing Nat where
  place p := p.message.partition
  offset p := p.message.offset
  done := Processing.committed

/-- **The group**: the committed offsets, and everything processed so far, one life after the other. -/
def group (rt : Runtime) (c : Consumer) (topic : Topic) (start : Nat → Nat) :
    System (Progress Processing Nat) where
  init s := s = ⟨start, []⟩
  step s t := ∃ its crash, Fetches topic s.next its ∧
    t = (lived rt c its crash).foldl (Progress.visit reading) s

/-! ## A life is a run of visits -/

/-- A processing the reader can make of the topic: the record is the topic's, and a committed one is
finished. -/
structure Sound (d : Deliverer) (topic : Topic) (p : Processing) : Prop where
  here : topic.record p.message.partition p.message.offset = some p.message
  finished : p.committed = true → Finished d p.message p.events

/-- The processings are visits in order, from these positions on, and all sound. -/
inductive Visits (d : Deliverer) (topic : Topic) : Progress Processing Nat → List Processing → Prop
  | nil {s} : Visits d topic s []
  | cons {s p ps} (first : First (topic.held p.message.partition) (s.next p.message.partition) p.message.offset)
      (sound : Sound d topic p) (rest : Visits d topic (s.visit reading p) ps) : Visits d topic s (p :: ps)

theorem visit_next_of_committed {s : Progress Processing Nat} {p : Processing} (h : p.committed = true) :
    (s.visit reading p).next = Function.update s.next p.message.partition (p.message.offset + 1) :=
  if_pos h

/-- **A life's processings are visits in order.**  The induction is on the iterations; as long as the
loop goes on the record was committed, so the remembered position is the committed one. -/
theorem loop_visits {rt : Runtime} {d : Deliverer} {topic : Topic} (its : List Iteration) :
    ∀ s : Progress Processing Nat, Fetches topic s.next its → Visits d topic s (loop rt d its).1 := by
  induction its with
  | nil => exact fun s _ => .nil
  | cons it rest ih =>
      intro s h
      rw [loop]
      cases h with
      | failed fetch =>
          rw [fetch]
          exact .nil
      | @message _ _ _ msg fetch here first next =>
          rw [fetch]
          have hmsg := message_processRecord rt d msg it.answers
          have hsound : Sound d topic (processRecord rt d msg it.answers).1 :=
            ⟨by rw [hmsg]; exact here, fun hc => by rw [hmsg]; exact processRecord_finished hc⟩
          have hcommitted := @committed_of_processRecord rt d msg it.answers
          simp only
          generalize processRecord rt d msg it.answers = result at hmsg hsound hcommitted ⊢
          obtain ⟨p, err⟩ := result
          obtain rfl : p.message = msg := hmsg
          -- only a record that is committed moves the loop on
          cases err with
          | some e => exact .cons first hsound .nil
          | none =>
              simp only
              split
              · exact .cons first hsound .nil
              · refine .cons first hsound (ih _ ?_)
                rw [visit_next_of_committed (hcommitted rfl)]
                exact next

theorem Visits.cutShort {d : Deliverer} {topic : Topic} {s : Progress Processing Nat} {ps : List Processing}
    (h : Visits d topic s ps) (n : Nat) : Visits d topic s (Delivery.cutShort n ps) := by
  induction h with
  | nil => exact .nil
  | @cons s p ps first sound rest ih =>
      cases ps with
      | nil => exact .cons first ⟨sound.here, fun hc => absurd hc (by simp)⟩ .nil
      | cons p' ps' =>
          have hcut : Delivery.cutShort n (p :: p' :: ps') = p :: Delivery.cutShort n (p' :: ps') := by
            unfold Delivery.cutShort
            rw [List.getLast?_cons_cons, List.dropLast_cons_cons]
            cases hlast : (p' :: ps').getLast? with
            | none => exact absurd hlast (by simp)
            | some q => rfl
          rw [hcut]
          exact .cons first sound ih

theorem lived_visits {rt : Runtime} {c : Consumer} {topic : Topic} {its : List Iteration}
    {crash : Option Nat} {s : Progress Processing Nat} (h : Fetches topic s.next its) :
    Visits c.deliverer topic s (lived rt c its crash) := by
  have hrun : Visits c.deliverer topic s (run rt c its).1 := by
    unfold run
    split
    · exact .nil
    · exact loop_visits its s h
  cases crash with
  | none => exact hrun
  | some n => exact hrun.cutShort n

/-- **The group refines the reader**: a life is a run of its visits. -/
theorem Visits.later {d : Deliverer} {topic : Topic} {start : Nat → Nat} {s : Progress Processing Nat}
    {ps : List Processing} (h : Visits d topic s ps) :
    (reader reading topic.held start).Later s (ps.foldl (Progress.visit reading) s) := by
  induction h with
  | nil => exact .refl
  | @cons s p ps first sound rest ih => exact .head ⟨p, first, rfl⟩ ih

theorem reader_of_group {rt : Runtime} {c : Consumer} {topic : Topic} {start : Nat → Nat}
    {s : Progress Processing Nat} (h : (group rt c topic start).Reachable s) :
    (reader reading topic.held start).Reachable s := by
  refine System.invariant (fun s hs => ⟨s, hs, .refl⟩) (fun s t _ hs hstep => ?_) h
  obtain ⟨its, crash, hfetches, rfl⟩ := hstep
  exact hs.later (lived_visits hfetches).later

theorem mem_log_foldl {ps : List Processing} {s : Progress Processing Nat} {p : Processing}
    (h : p ∈ (ps.foldl (Progress.visit reading) s).log) : p ∈ s.log ∨ p ∈ ps := by
  induction ps generalizing s with
  | nil => exact Or.inl h
  | cons q qs ih =>
      rcases ih h with hs | hqs
      · rcases List.mem_append.mp hs with hs | hq
        · exact Or.inl hs
        · exact Or.inr (List.mem_cons.mpr (Or.inl (List.mem_singleton.mp hq)))
      · exact Or.inr (List.mem_cons_of_mem _ hqs)

theorem Visits.sound {d : Deliverer} {topic : Topic} {s : Progress Processing Nat} {ps : List Processing}
    (h : Visits d topic s ps) : ∀ p ∈ ps, Sound d topic p := by
  induction h with
  | nil => simp
  | cons _ sound _ ih =>
      intro p hp
      rcases List.mem_cons.mp hp with rfl | hp
      · exact sound
      · exact ih p hp

/-- **Everything ever processed is sound.** -/
theorem sound_of_reachable {rt : Runtime} {c : Consumer} {topic : Topic} {start : Nat → Nat}
    {s : Progress Processing Nat} (h : (group rt c topic start).Reachable s) :
    ∀ p ∈ s.log, Sound c.deliverer topic p := by
  refine System.invariant (I := fun s => ∀ p ∈ s.log, Sound c.deliverer topic p) (fun s hs => ?_)
    (fun s t _ hs hstep => ?_) h
  · rw [hs]
    simp
  · obtain ⟨its, crash, hfetches, rfl⟩ := hstep
    intro p hp
    rcases mem_log_foldl hp with hold | hnew
    · exact hs p hold
    · exact (lived_visits hfetches).sound p hnew

/-! ## At least once, in order -/

/-- **At-least-once**: an offset is committed for finished records only, and no record before a committed
offset was skipped. -/
structure AtLeastOnce (d : Deliverer) (topic : Topic) (start : Nat → Nat) (s : Progress Processing Nat) :
    Prop where
  committed : ∀ p ∈ s.log, p.committed = true → Finished d p.message p.events
  unskipped : ∀ partition offset m, topic.record partition offset = some m → start partition ≤ offset →
    offset < s.next partition → ∃ p ∈ s.log, p.message = m ∧ p.committed = true ∧ Finished d m p.events

/-- **A committed offset never hides a lost record.** -/
theorem group_atLeastOnce {rt : Runtime} {c : Consumer} {topic : Topic} {start : Nat → Nat}
    {s : Progress Processing Nat} (h : (group rt c topic start).Reachable s) :
    AtLeastOnce c.deliverer topic start s := by
  have hsound := sound_of_reachable h
  refine ⟨fun p hp hc => (hsound p hp).finished hc, fun partition offset m hm hstart hlt => ?_⟩
  obtain ⟨p, hp, hplace, hoffset, hdone⟩ :=
    (inOrder_of_reachable (reader_of_group h)).covered partition offset ⟨m, hm⟩ hstart hlt
  have hmsg : p.message = m := by
    have hhere := (hsound p hp).here
    replace hplace : p.message.partition = partition := hplace
    replace hoffset : p.message.offset = offset := hoffset
    rw [hplace, hoffset, hm] at hhere
    exact (Option.some.inj hhere).symm
  exact ⟨p, hp, hmsg, hdone, hmsg ▸ (hsound p hp).finished hdone⟩

/-- The `demo` schedule, with the deadlines the service runs with. -/
def demoConsumer : Consumer := ⟨⟨⟨[1, 2, 4, 8]⟩, 5, true⟩, 30⟩

/-- A record with no value, which does not decode. -/
def nullMessage (offset : Nat) : Message := ⟨ascii "deliveries", 0, offset, none, none, .ofUnix 0⟩

/-- Two of them, and nothing else. -/
def nullTopic : Topic where
  record p q := if p = 0 ∧ q < 2 then some (nullMessage q) else none
  placed p q m h := by
    split at h
    · next hp =>
      rw [← Option.some.inj h]
      exact ⟨hp.1.symm, rfl⟩
    · exact absurd h (by simp)

/-- An iteration in which every dependency answers. -/
def parkedIteration (offset : Nat) : Iteration where
  fetch := .message (nullMessage offset)
  answers :=
    { decodeError := ascii "unexpected end of JSON input"
      poison := ⟨none, .ofUnix 0⟩
      query := .rows [] none
      subscribers := fun _ => ⟨fun _ => ⟨none, .ofUnix 0, .answered (.ofUnix 0) 200, .ofUnix 0, false, false,
        none, none, none⟩, none, .ofUnix 0⟩
      schedule := []
      commit := .acked }
  stopping := false

/-- The group after one life that processed both. -/
def afterNulls : Progress Processing Nat :=
  (lived plainRuntime demoConsumer [parkedIteration 0, parkedIteration 1] none).foldl
    (Progress.visit reading) ⟨fun _ => 0, []⟩

theorem reachable_afterNulls :
    (group plainRuntime demoConsumer nullTopic fun _ => 0).Reachable afterNulls := by
  refine ⟨_, rfl, .single ⟨[parkedIteration 0, parkedIteration 1], none, ?_, rfl⟩⟩
  have hheld : ∀ q, q < 2 → nullTopic.held 0 q := fun q hq => ⟨nullMessage q, if_pos ⟨rfl, hq⟩⟩
  refine .message rfl rfl ⟨hheld 0 (by omega), Nat.le_refl 0, fun q' hle hlt => ?_⟩
    (.message rfl rfl ⟨hheld 1 (by omega), ?_, fun q' hle hlt => ?_⟩ .nil)
  · exact absurd hlt (Nat.not_lt_zero q')
  · exact Nat.le_refl 1
  · replace hle : 1 ≤ q' := hle
    replace hlt : q' < 1 := hlt
    omega

theorem group_atLeastOnce_nulls : afterNulls.next 0 = 2 ∧
    AtLeastOnce demoConsumer.deliverer nullTopic (fun _ => 0) afterNulls :=
  ⟨by decide, group_atLeastOnce reachable_afterNulls⟩

/-- **Order**: before a record is processed at all, every earlier one of its partition, and of its tenant,
was finished and its commit had taken effect; and none of them is ever processed after it. -/
structure Ordered (d : Deliverer) (topic : Topic) (start : Nat → Nat) (s : Progress Processing Nat) :
    Prop where
  earlier : ∀ pre p post, s.log = pre ++ p :: post → ∀ offset m,
    topic.record p.message.partition offset = some m → start p.message.partition ≤ offset →
    offset < p.message.offset → ∃ p' ∈ pre, p'.message = m ∧ p'.committed = true ∧ Finished d m p'.events
  later : ∀ pre p post, s.log = pre ++ p :: post → ∀ p' ∈ post,
    p'.message.partition = p.message.partition → p.message.offset ≤ p'.message.offset
  tenant : ∀ balance, topic.Keyed balance → ∀ p ∈ s.log, ∀ partition offset m,
    topic.record partition offset = some m → m.key = p.message.key → partition = p.message.partition

/-- **A partition is delivered in order**, across retries, crashes and failed commits. -/
theorem group_ordered {rt : Runtime} {c : Consumer} {topic : Topic} {start : Nat → Nat}
    {s : Progress Processing Nat} (h : (group rt c topic start).Reachable s) :
    Ordered c.deliverer topic start s := by
  have hsound := sound_of_reachable h
  have horder := inOrder_of_reachable (reader_of_group h)
  refine ⟨fun pre p post hsplit offset m hm hstart hlt => ?_, fun pre p post hsplit p' hp' hpart => ?_,
    fun balance hkeyed p hp partition offset m hm hkey => ?_⟩
  -- the messages before it on the partition were finished first
  · obtain ⟨p', hp', hplace, hoffset, hdone⟩ :=
      horder.preceded pre p post hsplit offset ⟨m, hm⟩ hstart hlt
    have hmem : p' ∈ s.log := by
      rw [hsplit]
      exact List.mem_append_left _ hp'
    have hmsg : p'.message = m := by
      have hhere := (hsound p' hmem).here
      replace hplace : p'.message.partition = p.message.partition := hplace
      replace hoffset : p'.message.offset = offset := hoffset
      rw [hplace, hoffset, hm] at hhere
      exact (Option.some.inj hhere).symm
    exact ⟨p', hp', hmsg, hdone, hmsg ▸ (hsound p' hmem).finished hdone⟩
  · have hpair := horder.ordered
    rw [hsplit] at hpair
    have htail := (List.pairwise_append.mp hpair).2.1
    exact (List.pairwise_cons.mp htail).1 p' hp' hpart.symm
  -- with hashed keys a key is always on one partition
  · have hhere := (hsound p hp).here
    rw [hkeyed _ _ _ hm, hkey, ← hkeyed _ _ _ hhere]

theorem group_ordered_nulls : afterNulls.log.map (fun p => p.message.offset) = [0, 1] ∧
    Ordered demoConsumer.deliverer nullTopic (fun _ => 0) afterNulls :=
  ⟨by decide, group_ordered reachable_afterNulls⟩

end LocalPlatform.Relay.Delivery
