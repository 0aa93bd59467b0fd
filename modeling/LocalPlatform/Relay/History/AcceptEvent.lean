/-
# LocalPlatform.Relay.History.AcceptEvent — idempotent acceptance under every interleaving.

`AcceptEvent` reserves a row in one statement and finishes it in a transaction of its own, so between
the two any other request can find the row, publish it, fail, or be cut off by the server.  What holds
all the same is carried by one invariant of each call (`ClientInv`, `TxInv`) and one of the tables
(`Tables`): what a call goes on with is the stored row its request agrees with, and nothing is marked
published whose publication was not acknowledged.

The rows that count are compared by their `core`, because a row's publication is the only part that ever
changes.
-/
import LocalPlatform.Relay.History.Isolation
import Mathlib.Data.List.Pairwise

namespace LocalPlatform.Relay.History

open Codec

variable {J : Type}

/-- The row is in the table, published since or not. -/
def Stored (s : State J) (row : EventRow J) : Prop := ∃ r ∈ s.events, r.core = row.core

/-- The event's publication is committed. -/
def PublishedID (s : State J) (id : Bytes) : Prop := ∃ row ∈ s.events, row.id = id ∧ row.published = true

section Invariant

variable [DecidableEq J] (cfg : Setting J) (s : State J) (c : Nat)

/-- Call `c` compared the row with its request, with this outcome. -/
def Compared (row : EventRow J) (ok : Bool) : Prop :=
  ∃ rec data, cfg.jobs c = .accept rec ∧ cfg.jsonb rec.data = some data ∧
    selects (trimKey rec) row = true ∧ agrees (trimKey rec) data row = ok

/-- Call `c` goes on with this row: it is stored, and the request agrees with it. -/
def Chosen (row : EventRow J) : Prop := Compared cfg c row true ∧ Stored s row

/-- What a call of `AcceptEvent` relies on, by where it is. -/
def ClientInv : Client J → Tx → Prop
  | .read row ok, tx => Compared cfg c row ok ∧ Stored s row ∧
      ((∃ w, tx = .active w ∧ row ∈ s.events) ∨ tx = .aborted false)
  | .published row, _ => Chosen cfg s c row ∧ Acked s row.id
  | .marked row, tx => Chosen cfg s c row ∧ Acked s row.id ∧
      (tx = .active (.publish row.id) ∨ tx = .aborted false)
  | .closing a, tx => ∃ row, Chosen cfg s c row ∧ a.record = row.record cfg.zone ∧
      (PublishedID s row.id ∨ ∀ w, tx = .closing w ∨ tx = .committed w → w = .publish row.id)
  | .done (.accepted a), _ => ∃ row, Chosen cfg s c row ∧ a.record = row.record cfg.zone ∧
      PublishedID s row.id
  | _, _ => True

/-- What a transaction that marks an event published relies on, and what its commit leaves. -/
structure TxInv (tx : Tx) : Prop where
  live : ∀ id, tx.live = some (.publish id) → Acked s id ∧ ∃ row ∈ s.events, row.id = id
  committed : ∀ id, tx = .committed (.publish id) → PublishedID s id

/-- What the tables and the log have in common. -/
structure Tables : Prop where
  events : s.events.Pairwise fun a b => clash a b = false
  keys : ∀ row ∈ s.events, row.claimed = true → row.idempotencyKey ≠ []
  acked : ∀ row ∈ s.events, row.published = true → Acked s row.id
  created : ∀ row ∈ s.events, ∀ c, row.creator = some c → ∃ rec data, cfg.jobs c = .accept rec ∧
    cfg.jsonb rec.data = some data ∧ row.core = newRow c (trimKey rec) data
  log : ∀ p ∈ s.log, ∀ c, p.call = some c → ∃ row, Chosen cfg s c row ∧ p.record = row.record cfg.zone

/-- **The acceptance invariant.** -/
structure AcceptInv : Prop where
  locked : Locked cfg s
  tables : Tables cfg s
  client : ∀ c, ClientInv cfg s c (s.calls c).client (s.calls c).tx
  tx : ∀ c, TxInv s (s.calls c).tx

end Invariant

/-! ## What is permanent -/

theorem Acked.mono {s t : State J} {id : Bytes} (h : Acked s id) (hp : Permanent s t) : Acked t id := by
  obtain ⟨p, hmem, hid, hack⟩ := h
  obtain ⟨new, hlog⟩ := hp.log
  exact ⟨p, by rw [hlog]; exact List.mem_append_left _ hmem, hid, hack⟩

theorem Stored.mono {s t : State J} {row : EventRow J} (h : Stored s row) (hp : Permanent s t) :
    Stored t row := by
  obtain ⟨r, hr, hcore⟩ := h
  obtain ⟨r', hr', hcore'⟩ := hp.stored r hr
  exact ⟨r', hr', hcore'.trans hcore⟩

theorem PublishedID.mono {s t : State J} {id : Bytes} (h : PublishedID s id) (hp : Permanent s t) :
    PublishedID t id := by
  obtain ⟨row, hrow, hid, hpub⟩ := h
  exact ⟨row, hp.published row hrow hpub, hid, hpub⟩

theorem Stored.id {s : State J} {row : EventRow J} (h : Stored s row) : ∃ r ∈ s.events, r.id = row.id := by
  obtain ⟨r, hr, hcore⟩ := h
  have hid : r.core.id = row.core.id := by rw [hcore]
  exact ⟨r, hr, hid⟩

theorem clash_comm (a b : EventRow J) : clash a b = clash b a := by
  simp only [clash, Bool.beq_comm, Bool.and_comm]

instance : Std.Symm fun a b : EventRow J => clash a b = false :=
  ⟨fun a b h => by rw [clash_comm]; exact h⟩

/-- **One row an id**: the primary key. -/
theorem eq_of_id {events : List (EventRow J)} (h : events.Pairwise fun a b => clash a b = false)
    {a b : EventRow J} (ha : a ∈ events) (hb : b ∈ events) (hid : a.id = b.id) : a = b := by
  by_contra hne
  have hclash : clash a b = false := h.forall ha hb hne
  simp [clash, hid] at hclash

/-- **One claimed row a tenant and key**: the partial unique index. -/
theorem eq_of_claim {events : List (EventRow J)} (h : events.Pairwise fun a b => clash a b = false)
    {a b : EventRow J} (ha : a ∈ events) (hb : b ∈ events) (hca : a.claimed = true)
    (hcb : b.claimed = true) (ht : a.tenantID = b.tenantID)
    (hk : a.idempotencyKey = b.idempotencyKey) : a = b := by
  by_contra hne
  have hclash : clash a b = false := h.forall ha hb hne
  simp [clash, hca, hcb, ht, hk] at hclash

theorem pairwise_insertEvent {events : List (EventRow J)}
    (h : events.Pairwise fun a b => clash a b = false) (row : EventRow J) :
    (insertEvent events row).2.Pairwise fun a b => clash a b = false := by
  unfold insertEvent
  split
  · exact h
  · next hfree =>
    refine List.pairwise_append.mpr ⟨h, List.pairwise_singleton _ _, fun a ha b hb => ?_⟩
    rw [List.mem_singleton.mp hb, clash_comm]
    rw [Bool.not_eq_true, List.any_eq_false] at hfree
    exact eq_false_of_ne_true (hfree a ha)

theorem pairwise_markPublished {events : List (EventRow J)}
    (h : events.Pairwise fun a b => clash a b = false) (id : Bytes) :
    (markPublished id events).Pairwise fun a b => clash a b = false := by
  refine List.pairwise_map.mpr (h.imp fun {a b} hab => ?_)
  split <;> split <;> exact hab

/-- A row after the update: as it was, or the marked row published. -/
theorem of_mem_markPublished {id : Bytes} {events : List (EventRow J)} {row : EventRow J}
    (h : row ∈ markPublished id events) :
    ∃ r ∈ events, row.core = r.core ∧ (row.published = true → r.published = true ∨ r.id = id) := by
  obtain ⟨r, hr, rfl⟩ := List.mem_map.mp h
  refine ⟨r, hr, ?_, ?_⟩
  · split <;> rfl
  · split
    · next hid => exact fun _ => Or.inr hid
    · exact fun hp => Or.inl hp

theorem of_mem_insertEvent {events : List (EventRow J)} {row r : EventRow J}
    (h : r ∈ (insertEvent events row).2) : r ∈ events ∨ r = row := by
  unfold insertEvent at h
  split at h
  · exact Or.inl h
  · exact (List.mem_append.mp h).imp_right fun hr => List.mem_singleton.mp hr

theorem insertEvent_fresh {events : List (EventRow J)} {row : EventRow J}
    (h : ∀ r ∈ events, clash row r = false) : insertEvent events row = (1, events ++ [row]) := by
  have hany : events.any (clash row) = false := List.any_eq_false.mpr fun r hr => by simp [h r hr]
  simp [insertEvent, hany]

/-- The row a request made is the one it selects. -/
theorem find_newRow {events : List (EventRow J)} {c : Nat} {rec : Record} {data : J}
    (h : ∀ r ∈ events, clash (newRow c (trimKey rec) data) r = false) :
    (events ++ [newRow c (trimKey rec) data]).find? (selects (trimKey rec)) =
      some (newRow c (trimKey rec) data) := by
  have hnone : events.find? (selects (trimKey rec)) = none := by
    refine List.find?_eq_none.mpr fun r hr hsel => ?_
    have hfree := h r hr
    by_cases hkey : (trimKey rec).idempotencyKey = []
    · simp only [selects, if_pos hkey, beq_iff_eq] at hsel
      simp [clash, newRow, hsel] at hfree
    · simp only [selects, if_neg hkey, Bool.and_eq_true, beq_iff_eq] at hsel
      simp [clash, newRow, hsel, hkey] at hfree
  have hself : selects (trimKey rec) (newRow c (trimKey rec) data) = true := by
    by_cases hkey : (trimKey rec).idempotencyKey = []
    · simp [selects, newRow, hkey]
    · simp [selects, newRow, hkey]
  rw [List.find?_append, hnone, List.find?_cons, hself]
  rfl

/-! ## Carrying the invariant over -/

theorem TxInv.mono {s t : State J} {tx : Tx} (h : TxInv s tx) (hp : Permanent s t) : TxInv t tx where
  live id hl := by
    obtain ⟨hack, row, hrow, hid⟩ := h.live id hl
    obtain ⟨r, hr, hcore⟩ := hp.stored row hrow
    have hid' : r.core.id = row.core.id := by rw [hcore]
    exact ⟨hack.mono hp, r, hr, hid'.trans hid⟩
  committed id hc := (h.committed id hc).mono hp

theorem TxInv.of_live {s : State J} {tx tx' : Tx} (h : TxInv s tx)
    (hlive : ∀ id, tx'.live = some (.publish id) → tx.live = some (.publish id))
    (hcommitted : ∀ id, tx' ≠ .committed (.publish id)) : TxInv s tx' :=
  ⟨fun id hl => h.live id (hlive id hl), fun id hc => absurd hc (hcommitted id)⟩

theorem TxInv.idle (s : State J) : TxInv s .idle :=
  ⟨fun _ h => absurd h (by simp [Tx.live]), fun _ h => absurd h (by simp)⟩

theorem TxInv.begun (s : State J) : TxInv s (.active .nothing) :=
  ⟨fun _ h => absurd h (by simp [Tx.live]), fun _ h => absurd h (by simp)⟩

variable {cfg : Setting J}

/-- A call only comes to read a row by locking it. -/
theorem Local.not_read {s : State J} {c : Nat} {old new : CallState J} (h : Local cfg s c old new)
    (row : EventRow J) (ok : Bool) : new.client ≠ .read row ok := by
  cases h <;> simp

variable [DecidableEq J]

theorem Chosen.mono {s t : State J} {c : Nat} {row : EventRow J} (h : Chosen cfg s c row)
    (hp : Permanent s t) : Chosen cfg t c row := ⟨h.1, h.2.mono hp⟩

/-- What a call relies on survives every step that keeps what is permanent and, while the call's
transaction is active, the row it read. -/
theorem ClientInv.mono {s t : State J} {c : Nat} {client : Client J} {tx : Tx}
    (h : ClientInv cfg s c client tx) (hp : Permanent s t)
    (hrow : ∀ row ok w, client = .read row ok → tx = .active w → row ∈ s.events → row ∈ t.events) :
    ClientInv cfg t c client tx := by
  cases client with
  | read row ok =>
      obtain ⟨hcmp, hst, htx⟩ := h
      refine ⟨hcmp, hst.mono hp, htx.imp_left fun ⟨w, hw, hmem⟩ => ⟨w, hw, ?_⟩⟩
      exact hrow row ok w rfl hw hmem
  | published row => exact ⟨h.1.mono hp, h.2.mono hp⟩
  | marked row => exact ⟨h.1.mono hp, h.2.1.mono hp, h.2.2⟩
  | closing a =>
      obtain ⟨row, hch, hrec, hpub⟩ := h
      exact ⟨row, hch.mono hp, hrec, hpub.imp_left fun hp' => hp'.mono hp⟩
  | done r =>
      cases r with
      | accepted a =>
          obtain ⟨row, hch, hrec, hpub⟩ := h
          exact ⟨row, hch.mono hp, hrec, hpub.mono hp⟩
      | recorded => trivial
      | failed e => trivial
  | start => trivial
  | reserved => trivial
  | begun => trivial
  | locked => trivial
  | inserting => trivial
  | inserted => trivial
  | closingAttempt => trivial

theorem AcceptInv.frame {s t : State J} {c : Nat} (h : AcceptInv cfg s) (hf : Frame s t c) :
    ClientInv cfg t c (t.calls c).client (t.calls c).tx ∧ TxInv t (t.calls c).tx := by
  rw [hf.calls]
  refine ⟨(h.client c).mono hf.permanent fun row ok w hclient htx hmem => ?_,
    (h.tx c).mono hf.permanent⟩
  exact hf.rows row hmem (h.locked.hold c w row.id htx (by rw [hclient]; rfl))

/-! ## The call that moves -/

/-- A local step keeps what its call relies on. -/
theorem Local.acceptInv {s : State J} {c : Nat} {new : CallState J}
    (h : Local cfg s c (s.calls c) new)
    (hclient : ClientInv cfg s c (s.calls c).client (s.calls c).tx) (htx : TxInv s (s.calls c).tx) :
    ClientInv cfg s c new.client new.tx ∧ TxInv s new.tx := by
  generalize s.calls c = old at h hclient htx
  -- most steps end the call or promise nothing; those that bring the answer nearer are written out
  cases h with
  | beginAccept => exact ⟨trivial, TxInv.begun s⟩
  | beginAttempt => exact ⟨trivial, TxInv.begun s⟩
  | invalidAttempt => exact ⟨trivial, TxInv.idle s⟩
  | mismatch => exact ⟨trivial, htx⟩
  | @commitDeduplicated row w published =>
      obtain ⟨hcmp, hst, hact⟩ := hclient
      have hmem : row ∈ s.events := by
        rcases hact with ⟨w', _, hmem⟩ | habort
        · exact hmem
        · exact absurd habort (by simp)
      exact ⟨⟨row, ⟨hcmp, hst⟩, rfl, Or.inl ⟨row, hmem, rfl, published⟩⟩,
        htx.of_live (fun _ hl => hl) (by simp)⟩
  | encodeFailed => exact ⟨trivial, htx⟩
  | @mark row w =>
      obtain ⟨hch, hack⟩ := hclient
      refine ⟨⟨hch, hack, Or.inl rfl⟩, ⟨fun id hl => ?_, by simp⟩⟩
      obtain rfl : row.id = id := by simpa [Tx.live] using hl
      exact ⟨hack, hch.2.id⟩
  | @commitPublished row w =>
      obtain ⟨hch, hack, hact⟩ := hclient
      have hw : w = .publish row.id := by simpa using hact
      refine ⟨⟨row, hch, rfl, Or.inr fun w' hw' => ?_⟩, htx.of_live (fun _ hl => hl) (by simp)⟩
      rcases hw' with hw' | hw'
      · rw [← Tx.closing.inj hw']
        exact hw
      · exact absurd hw' (by simp)
  | notFound => exact ⟨trivial, htx⟩
  | snapshot => exact ⟨trivial, htx⟩
  | insertAttempt => exact ⟨trivial, ⟨fun _ hl => absurd hl (by simp [Tx.live]), by simp⟩⟩
  | violate => exact ⟨trivial, htx⟩
  | commitAttempt => exact ⟨trivial, htx.of_live (fun _ hl => hl) (by simp)⟩
  | @acknowledge a w =>
      obtain ⟨row, hch, hrec, hpub⟩ := hclient
      refine ⟨⟨row, hch, hrec, ?_⟩, htx⟩
      rcases hpub with hpub | hw
      · exact hpub
      · exact htx.committed row.id (by rw [hw w (Or.inr rfl)])
  | acknowledgeAttempt => exact ⟨trivial, htx⟩
  | fail => exact ⟨trivial, htx⟩

theorem trimKey_data (rec : Record) : (trimKey rec).data = rec.data := by
  unfold trimKey
  split <;> rfl

/-! ## The tables -/

/-- The tables' part of the invariant only looks at the rows and the log. -/
theorem Tables.of_eq {s t : State J} (h : Tables cfg s) (hevents : t.events = s.events)
    (hlog : t.log = s.log) : Tables cfg t := by
  have hack : ∀ id, Acked t id ↔ Acked s id := fun id => by unfold Acked; rw [hlog]
  have hchosen : ∀ c row, Chosen cfg t c row ↔ Chosen cfg s c row := fun c row => by
    unfold Chosen Stored
    rw [hevents]
  constructor
  · exact hevents ▸ h.events
  · exact hevents ▸ h.keys
  · intro row hrow hp
    exact (hack row.id).mpr (h.acked row (hevents ▸ hrow) hp)
  · exact hevents ▸ h.created
  · intro p hp c hc
    obtain ⟨row, hch, hrec⟩ := h.log p (hlog ▸ hp) c hc
    exact ⟨row, (hchosen c row).mpr hch, hrec⟩

theorem Tables.insert {s t : State J} {c : Nat} {rec : Record} {data : J} (h : Tables cfg s)
    (hp : Permanent s t) (job : cfg.jobs c = .accept rec) (json : cfg.jsonb rec.data = some data)
    (hevents : t.events = (insertEvent s.events (newRow c (trimKey rec) data)).2)
    (hlog : t.log = s.log) : Tables cfg t := by
  constructor
  · rw [hevents]
    exact pairwise_insertEvent h.events _
  · intro row hrow hclaimed
    rcases of_mem_insertEvent (hevents ▸ hrow) with hold | rfl
    · exact h.keys row hold hclaimed
    · simpa [newRow] using hclaimed
  · intro row hrow hpub
    rcases of_mem_insertEvent (hevents ▸ hrow) with hold | rfl
    · exact (h.acked row hold hpub).mono hp
    · exact absurd hpub (by simp [newRow])
  · intro row hrow c' hc'
    rcases of_mem_insertEvent (hevents ▸ hrow) with hold | rfl
    · exact h.created row hold c' hc'
    · obtain rfl : c = c' := by simpa [newRow] using hc'
      exact ⟨rec, data, job, json, rfl⟩
  · intro p hmem c' hc'
    obtain ⟨row, hch, hrec⟩ := h.log p (hlog ▸ hmem) c' hc'
    exact ⟨row, hch.mono hp, hrec⟩

theorem Tables.publish {s t : State J} {c : Nat} {row : EventRow J} {result : PublishResult}
    (h : Tables cfg s) (hp : Permanent s t) (hch : Chosen cfg s c row) (hevents : t.events = s.events)
    (hlog : t.log = s.log ++ [⟨some c, row.record cfg.zone, result⟩]) : Tables cfg t := by
  constructor
  · exact hevents ▸ h.events
  · exact hevents ▸ h.keys
  · intro r hr hpub
    exact (h.acked r (hevents ▸ hr) hpub).mono hp
  · exact hevents ▸ h.created
  · intro p hmem c' hc'
    rw [hlog, List.mem_append, List.mem_singleton] at hmem
    rcases hmem with hold | rfl
    · obtain ⟨r, hr, hrec⟩ := h.log p hold c' hc'
      exact ⟨r, hr.mono hp, hrec⟩
    · obtain rfl := Option.some.inj hc'
      exact ⟨row, hch.mono hp, rfl⟩

theorem Tables.apply {s t : State J} {w : Write} (h : Tables cfg s) (hp : Permanent s t)
    (hack : ∀ id, w = .publish id → Acked s id) (hevents : t.events = (s.apply w).events)
    (hlog : t.log = s.log) : Tables cfg t := by
  -- only the mark changes a row, and of a row only whether it is published
  cases w with
  | nothing => exact h.of_eq hevents hlog
  | attempt => exact h.of_eq hevents hlog
  | publish id =>
      replace hevents : t.events = markPublished id s.events := hevents
      have hcore : ∀ row ∈ t.events, ∃ r ∈ s.events, row.core = r.core ∧
          (row.published = true → r.published = true ∨ r.id = id) := fun row hrow =>
        of_mem_markPublished (hevents ▸ hrow)
      constructor
      · rw [hevents]
        exact pairwise_markPublished h.events id
      · intro row hrow hclaimed
        obtain ⟨r, hr, hrc, _⟩ := hcore row hrow
        have hkey : row.core.idempotencyKey = r.core.idempotencyKey := by rw [hrc]
        have hcl : row.core.claimed = r.core.claimed := by rw [hrc]
        intro hnil
        exact h.keys r hr (hcl.symm.trans hclaimed) (hkey.symm.trans hnil)
      · intro row hrow hpub
        obtain ⟨r, hr, hrc, hpub'⟩ := hcore row hrow
        have hid : row.core.id = r.core.id := by rw [hrc]
        replace hid : row.id = r.id := hid
        rw [hid]
        rcases hpub' hpub with hold | hmarked
        · exact (h.acked r hr hold).mono hp
        · rw [hmarked]
          exact (hack id rfl).mono hp
      · intro row hrow c hc
        obtain ⟨r, hr, hrc, _⟩ := hcore row hrow
        have hcr : row.core.creator = r.core.creator := by rw [hrc]
        obtain ⟨rec, data, job, json, hnew⟩ := h.created r hr c (hcr.symm.trans hc)
        exact ⟨rec, data, job, json, hrc.trans hnew⟩
      · intro p hmem c hc
        obtain ⟨r, hr, hrec⟩ := h.log p (hlog ▸ hmem) c hc
        exact ⟨r, hr.mono hp, hrec⟩

/-! ## Every step -/

theorem AcceptInv.initial {s : State J} (h : Initial s) : AcceptInv cfg s where
  locked := Locked.initial h
  tables :=
    { events := h.events
      keys := h.keys
      acked := h.acked
      created := fun row hrow c hc => absurd hc (by rw [h.creators row hrow]; simp)
      log := fun p hp c hc => absurd hc (by rw [h.callers p hp]; simp) }
  client c := by
    rw [h.calls c]
    trivial
  tx c := by
    rw [h.calls c]
    exact TxInv.idle s

/-- The call that moves keeps its own part of the invariant. -/
theorem Step.mover {s t : State J} {c : Nat} (hs : AcceptInv cfg s) (h : Step cfg s c t) :
    ClientInv cfg t c (t.calls c).client (t.calls c).tx ∧ TxInv t (t.calls c).tx := by
  have hp : Permanent s t := h.permanent
  have hclient := hs.client c
  have htx := hs.tx c
  -- what the call itself promises; `hp` carries over what no step takes back
  cases h with
  | @call new h =>
      rw [put_self]
      obtain ⟨hc, ht⟩ := h.acceptInv hclient htx
      exact ⟨hc.mono hp fun row _ _ _ _ hrow => hrow, ht.mono hp⟩
  | @insert rec data seen =>
      rw [put_self]
      refine ⟨?_, TxInv.idle _⟩
      unfold afterInsert
      split
      · split <;> trivial
      · trivial
  | @read rec data row w job client json found free =>
      rw [put_self]
      rw [client] at htx
      have hmem : row ∈ s.events := List.mem_of_find?_eq_some found
      refine ⟨⟨⟨rec, data, job, json, ?_, rfl⟩, ⟨row, hmem, rfl⟩, Or.inl ⟨w, rfl, hmem⟩⟩, htx.mono hp⟩
      exact List.find?_some found
  | lockEvent job client =>
      rw [put_self]
      rw [client] at htx
      exact ⟨trivial, htx.mono hp⟩
  | @publish row tx value result client =>
      rw [put_self]
      rw [client] at hclient htx
      refine ⟨?_, htx.mono hp⟩
      cases result with
      | failed => trivial
      | acked =>
          refine ⟨⟨hclient.1, hclient.2.1.mono hp⟩, ⟨some c, row.record cfg.zone, .acked⟩, ?_, rfl, rfl⟩
          simp
  | @commit client w call =>
      rw [put_self]
      rw [call] at hclient htx
      constructor
      · -- only a client that issued the commit waits for it
        cases client with
        | closing a =>
            obtain ⟨row, hch, hrec, hpub⟩ := hclient
            refine ⟨row, hch.mono hp, hrec, ?_⟩
            rcases hpub with hpub | hw
            · exact Or.inl (hpub.mono hp)
            · refine Or.inr fun w' hw' => ?_
              rcases hw' with hw' | hw'
              · exact absurd hw' (by simp)
              · rw [← Tx.committed.inj hw']
                exact hw w (Or.inl rfl)
        | read row ok => exact absurd hclient.2.2 (by simp)
        | marked row => exact absurd hclient.2.2 (by simp)
        | published row => exact ⟨hclient.1.mono hp, hclient.2.mono hp⟩
        | done r =>
            cases r with
            | accepted a =>
                obtain ⟨row, hch, hrec, hpub⟩ := hclient
                exact ⟨row, hch.mono hp, hrec, hpub.mono hp⟩
            | recorded => trivial
            | failed => trivial
        | start => trivial
        | reserved => trivial
        | begun => trivial
        | locked => trivial
        | inserting => trivial
        | inserted => trivial
        | closingAttempt => trivial
      · refine ⟨fun id hl => absurd hl (by simp [Tx.live]), fun id hw => ?_⟩
        obtain rfl : w = .publish id := by simpa using hw
        -- the write that is committed is the mark on a row the broker acknowledged
        obtain ⟨_, row, hrow, hid⟩ := htx.live id rfl
        have hmarked := mem_markPublished id hrow
        rw [if_pos hid] at hmarked
        exact ⟨_, hmarked, hid, rfl⟩
  | @abort client w issued call =>
      rw [put_self]
      rw [call] at hclient
      refine ⟨?_, ⟨fun id hl => absurd hl (by simp [Tx.live]), by simp⟩⟩
      cases client with
      | read row ok =>
          refine ⟨hclient.1, hclient.2.1.mono hp, Or.inr ?_⟩
          cases issued with
          | false => rfl
          | true => exact absurd hclient.2.2 (by simp)
      | published row => exact ⟨hclient.1.mono hp, hclient.2.mono hp⟩
      | marked row =>
          refine ⟨hclient.1.mono hp, hclient.2.1.mono hp, Or.inr ?_⟩
          cases issued with
          | false => rfl
          | true => exact absurd hclient.2.2 (by simp)
      | closing a =>
          obtain ⟨row, hch, hrec, _⟩ := hclient
          exact ⟨row, hch.mono hp, hrec, Or.inr (by simp)⟩
      | done r =>
          cases r with
          | accepted a =>
              obtain ⟨row, hch, hrec, hpub⟩ := hclient
              exact ⟨row, hch.mono hp, hrec, hpub.mono hp⟩
          | recorded => trivial
          | failed => trivial
      | start => trivial
      | reserved => trivial
      | begun => trivial
      | locked => trivial
      | inserting => trivial
      | inserted => trivial
      | closingAttempt => trivial

theorem Step.tables {s t : State J} {c : Nat} (hs : AcceptInv cfg s) (h : Step cfg s c t) :
    Tables cfg t := by
  have hp : Permanent s t := h.permanent
  have hclient := hs.client c
  have htx := hs.tx c
  cases h with
  | call => exact hs.tables.of_eq rfl rfl
  | insert _ job _ json => exact hs.tables.insert hp job json rfl rfl
  | read => exact hs.tables.of_eq rfl rfl
  | lockEvent => exact hs.tables.of_eq rfl rfl
  | publish result client =>
      rw [client] at hclient
      exact hs.tables.publish hp ⟨hclient.1, hclient.2.1⟩ rfl rfl
  | @commit client w call =>
      rw [call] at htx
      exact hs.tables.apply hp (fun id hw => (htx.live id (by rw [hw]; rfl)).1) rfl (by simp)
  | abort => exact hs.tables.of_eq rfl rfl

theorem AcceptInv.step {s t : State J} {c : Nat} (hs : AcceptInv cfg s) (h : Step cfg s c t) :
    AcceptInv cfg t := by
  have hcall : ∀ c', ClientInv cfg t c' (t.calls c').client (t.calls c').tx ∧
      TxInv t (t.calls c').tx := by
    intro c'
    by_cases hc : c' = c
    · rw [hc]
      exact h.mover hs
    · exact hs.frame (h.frame hs.locked hc)
  exact ⟨hs.locked.step h, h.tables hs, fun c' => (hcall c').1, fun c' => (hcall c').2⟩

/-- **The acceptance invariant holds in every reachable state.** -/
theorem acceptInv_of_reachable {s : State J} (h : (system cfg).Reachable s) : AcceptInv cfg s :=
  Logic.System.invariant (fun _ => AcceptInv.initial) (fun _ _ _ hs ⟨_, hstep⟩ => hs.step hstep) h

/-! ## Idempotent acceptance -/

/-- The row is the claimed one of the request's tenant and key. -/
def Claims (rec : Record) (row : EventRow J) : Prop :=
  row.claimed = true ∧ row.tenantID = rec.tenantID ∧ row.idempotencyKey = rec.idempotencyKey

/-- Call `c` read the event before it was published, under a lock the server has since given back, and
can still hand it to the publisher. -/
def Stale (s : State J) (c : Nat) (id : Bytes) : Prop :=
  ∃ row, s.calls c = ⟨.read row true, .aborted false⟩ ∧ row.id = id ∧ row.published = false

/-- **Idempotent acceptance**, as it stands in one state and for all states after it. -/
structure Idempotent (cfg : Setting J) (s : State J) : Prop where
  /-- A tenant and key have one claimed row. -/
  unique : ∀ row ∈ s.events, ∀ row' ∈ s.events, row.claimed = true → row'.claimed = true →
    row.tenantID = row'.tenantID → row.idempotencyKey = row'.idempotencyKey → row = row'
  /-- A row is its creator's request, byte for byte. -/
  original : ∀ row ∈ s.events, ∀ c, row.creator = some c → ∃ rec, cfg.jobs c = .accept rec ∧
    row.id = rec.id ∧ row.tenantID = rec.tenantID ∧ row.eventType = rec.type ∧ row.dataRaw = rec.data
  /-- Every successful call with a key answers with the claimed row. -/
  returned : ∀ c rec a, cfg.jobs c = .accept rec → isBlank rec.idempotencyKey = false →
    (s.calls c).client = .done (.accepted a) → ∃ row ∈ s.events, Claims rec row ∧
      a.record.id = row.id ∧ a.record.type = row.eventType ∧ a.record.data = row.dataRaw
  /-- A request that differs from the claimed row is neither published nor accepted. -/
  refused : ∀ c rec, cfg.jobs c = .accept rec → isBlank rec.idempotencyKey = false →
    ∀ row ∈ s.events, Claims rec row →
      (rec.type ≠ row.eventType ∨ cfg.jsonb rec.data ≠ some row.data) →
      (∀ p ∈ s.log, p.call ≠ some c) ∧ ∀ a, (s.calls c).client ≠ .done (.accepted a)
  /-- Success means an acknowledged publish and a committed `published_at`. -/
  acknowledged : ∀ c a, (s.calls c).client = .done (.accepted a) →
    Acked s a.record.id ∧ PublishedID s a.record.id
  /-- Once `published_at` is committed, only a call that lost its lock before that publishes again. -/
  once : ∀ id, PublishedID s id → ∀ t, (system cfg).Later s t → ∃ new, t.log = s.log ++ new ∧
    ∀ p ∈ new, p.record.id = id → ∃ c, p.call = some c ∧ Stale s c id

theorem trimKey_of_not_blank {rec : Record} (h : isBlank rec.idempotencyKey = false) :
    trimKey rec = rec := by
  simp [trimKey, h]

/-- A request with a key goes on with its claimed row. -/
theorem Compared.claims {c : Nat} {rec : Record} {row : EventRow J} {ok : Bool}
    (h : Compared cfg c row ok) (job : cfg.jobs c = .accept rec)
    (hkey : isBlank rec.idempotencyKey = false) :
    Claims rec row ∧ ∃ data, cfg.jsonb rec.data = some data ∧ agrees rec data row = ok := by
  obtain ⟨rec', data, job', json, hsel, hag⟩ := h
  obtain rfl : rec = rec' := Job.accept.inj (job.symm.trans job')
  rw [trimKey_of_not_blank hkey] at hsel hag
  have hne : rec.idempotencyKey ≠ [] := by
    intro hnil
    rw [hnil] at hkey
    exact absurd hkey (by decide)
  simp only [selects, if_neg hne, Bool.and_eq_true, beq_iff_eq] at hsel
  exact ⟨⟨hsel.2, hsel.1.1, hsel.1.2⟩, data, json, hag⟩

/-- What a chosen row and the claimed row of the same request have in common is everything but the
publication. -/
theorem Tables.core_eq {s : State J} {c : Nat} {rec : Record} {row row' : EventRow J}
    (h : Tables cfg s) (hch : Chosen cfg s c row) (job : cfg.jobs c = .accept rec)
    (hkey : isBlank rec.idempotencyKey = false) (hrow' : row' ∈ s.events) (hcl : Claims rec row') :
    row'.core = row.core := by
  obtain ⟨hcmp, r, hr, hcore⟩ := hch
  obtain ⟨⟨hc, ht, hk⟩, _⟩ := hcmp.claims job hkey
  have hclaimed : r.core.claimed = row.core.claimed := by rw [hcore]
  have htenant : r.core.tenantID = row.core.tenantID := by rw [hcore]
  have hikey : r.core.idempotencyKey = row.core.idempotencyKey := by rw [hcore]
  have hsame : row' = r := eq_of_claim h.events hrow' hr hcl.1 (hclaimed.trans hc)
    (hcl.2.1.trans (htenant.trans ht).symm) (hcl.2.2.trans (hikey.trans hk).symm)
  rw [hsame, hcore]

/-- A call that goes on with a row has a request that does not differ from the claimed one. -/
theorem Tables.not_differs {s : State J} {c : Nat} {rec : Record} {row row' : EventRow J}
    (h : Tables cfg s) (hch : Chosen cfg s c row) (job : cfg.jobs c = .accept rec)
    (hkey : isBlank rec.idempotencyKey = false) (hrow' : row' ∈ s.events) (hcl : Claims rec row') :
    rec.type = row'.eventType ∧ cfg.jsonb rec.data = some row'.data := by
  have hcore := h.core_eq hch job hkey hrow' hcl
  obtain ⟨_, data, json, hag⟩ := hch.1.claims job hkey
  simp only [agrees, Bool.and_eq_true, beq_iff_eq] at hag
  have htype : row'.core.eventType = row.core.eventType := by rw [hcore]
  have hdata : row'.core.data = row.core.data := by rw [hcore]
  exact ⟨hag.1.2.symm.trans htype.symm, json.trans (congrArg some (hag.2.symm.trans hdata.symm))⟩

/-- A call that still has to publish an event whose publication is committed has lost its lock. -/
theorem AcceptInv.stale {s : State J} {c : Nat} {row : EventRow J} (h : AcceptInv cfg s)
    (hclient : (s.calls c).client = .read row true) (hpub : PublishedID s row.id)
    (hrow : row.published = false) : Stale s c row.id := by
  have hinv := h.client c
  rw [hclient] at hinv
  obtain ⟨_, _, ⟨w, _, hmem⟩ | habort⟩ := hinv
  · obtain ⟨r, hr, hid, hp⟩ := hpub
    rw [eq_of_id h.tables.events hr hmem hid, hrow] at hp
    exact absurd hp (by simp)
  · refine ⟨row, ?_, rfl, hrow⟩
    rw [← hclient, ← habort]

/-- What happens to an event after its publication is committed: whoever publishes it again was stale,
and so is whoever still can. -/
structure Settled (s t : State J) (id : Bytes) : Prop where
  log : ∃ new, t.log = s.log ++ new ∧ ∀ p ∈ new, p.record.id = id → ∃ c, p.call = some c ∧ Stale s c id
  readers : ∀ c row, (t.calls c).client = .read row true → row.id = id → row.published = false →
    Stale s c id

theorem Settled.step {s t u : State J} {id : Bytes} {c : Nat} (h : Settled s t id)
    (ht : AcceptInv cfg t) (hpub : PublishedID t id) (hstep : Step cfg t c u) : Settled s u id := by
  have hothers : ∀ c' ≠ c, u.calls c' = t.calls c' := fun c' hc => (hstep.frame ht.locked hc).calls
  -- only the call that moves can have come to read the event
  have hreaders : (∀ row, (u.calls c).client = .read row true → row.id = id → row.published = false →
      Stale s c id) → ∀ c' row, (u.calls c').client = .read row true → row.id = id →
      row.published = false → Stale s c' id := by
    intro hself c' row hclient hid hrow
    by_cases hc : c' = c
    · subst hc
      exact hself row hclient hid hrow
    · rw [hothers c' hc] at hclient
      exact h.readers c' row hclient hid hrow
  cases hstep with
  | call hl =>
      refine ⟨h.log, hreaders fun row hclient => ?_⟩
      rw [put_self] at hclient
      exact absurd hclient (hl.not_read row true)
  | insert seen =>
      refine ⟨h.log, hreaders fun row hclient => ?_⟩
      rw [put_self] at hclient
      unfold afterInsert at hclient
      split at hclient
      · split at hclient <;> exact absurd hclient (by simp)
      · exact absurd hclient (by simp)
  | @read rec data row w job client json found free =>
      refine ⟨h.log, hreaders fun row' hclient hid hrow => ?_⟩
      rw [put_self] at hclient
      injection hclient with hsame
      subst hsame
      obtain ⟨r, hr, hrid, hp⟩ := hpub
      have hmem : row ∈ t.events := List.mem_of_find?_eq_some found
      rw [eq_of_id ht.tables.events hr hmem (hrid.trans hid.symm), hrow] at hp
      exact absurd hp (by simp)
  | lockEvent =>
      refine ⟨h.log, hreaders fun row hclient => ?_⟩
      rw [put_self] at hclient
      exact absurd hclient (by simp)
  | @publish row tx value result client unpublished encoded =>
      refine ⟨?_, hreaders fun row' hclient => ?_⟩
      · obtain ⟨new, hlog, hnew⟩ := h.log
        refine ⟨new ++ [⟨some c, row.record cfg.zone, result⟩], ?_, fun p hp hid => ?_⟩
        · rw [put_log, publishes_log, hlog, List.append_assoc]
        · rw [List.mem_append, List.mem_singleton] at hp
          rcases hp with hold | rfl
          · exact hnew p hold hid
          · exact ⟨c, rfl, h.readers c row (by rw [client]) hid unpublished⟩
      · rw [put_self] at hclient
        cases result <;> exact absurd hclient (by simp [afterPublish])
  | commit call =>
      refine ⟨by simpa using h.log, hreaders fun row hclient => ?_⟩
      rw [put_self] at hclient
      exact h.readers c row (by rw [call]; exact hclient)
  | abort issued call =>
      refine ⟨by simpa using h.log, hreaders fun row hclient => ?_⟩
      rw [put_self] at hclient
      exact h.readers c row (by rw [call]; exact hclient)

theorem settled_of_later {s t : State J} {id : Bytes} (hs : (system cfg).Reachable s)
    (hpub : PublishedID s id) (h : (system cfg).Later s t) : Settled s t id := by
  have hboth : Settled s t id ∧ PublishedID t id := by
    refine Logic.System.later (R := fun s t => Settled s t id ∧ PublishedID t id) hs
      ⟨⟨⟨[], by simp⟩, ?_⟩, hpub⟩ ?_ h
    · intro c row hclient hid hrow
      rw [← hid] at hpub ⊢
      exact (acceptInv_of_reachable hs).stale hclient hpub hrow
    · rintro u v hu ⟨hset, hp⟩ ⟨c, hstep⟩
      exact ⟨hset.step (acceptInv_of_reachable hu) hp hstep, hp.mono hstep.permanent⟩
  exact hboth.1

/-- **Accepting is idempotent under every interleaving**: of any number of calls, with any statement or
publish failing at any moment. -/
theorem acceptEvent_idempotent {s : State J} (hs : (system cfg).Reachable s) : Idempotent cfg s := by
  have inv : AcceptInv cfg s := acceptInv_of_reachable hs
  -- an accepted call answers with the row it chose, and that row is published
  have hdone : ∀ c a, (s.calls c).client = .done (.accepted a) → ∃ row, Chosen cfg s c row ∧
      a.record = row.record cfg.zone ∧ PublishedID s row.id := by
    intro c a hclient
    have hinv := inv.client c
    rw [hclient] at hinv
    exact hinv
  refine ⟨fun row hr row' hr' => eq_of_claim inv.tables.events hr hr', ?_, ?_, ?_, ?_, ?_⟩
  -- the row is what its creator sent
  · intro row hrow c hc
    obtain ⟨rec, data, job, _, hcore⟩ := inv.tables.created row hrow c hc
    have hid : row.core.id = (trimKey rec).id := by rw [hcore]; rfl
    have htenant : row.core.tenantID = (trimKey rec).tenantID := by rw [hcore]; rfl
    have htype : row.core.eventType = (trimKey rec).type := by rw [hcore]; rfl
    have hraw : row.core.dataRaw = (trimKey rec).data := by rw [hcore]; rfl
    refine ⟨rec, job, hid.trans ?_, htenant.trans ?_, htype.trans ?_, hraw.trans (trimKey_data rec)⟩ <;>
      (unfold trimKey; split <;> rfl)
  -- the answer is the claimed row, whoever created it
  · intro c rec a job hkey hclient
    obtain ⟨row, hch, hrec, _⟩ := hdone c a hclient
    obtain ⟨⟨hc, ht, hk⟩, _⟩ := hch.1.claims job hkey
    obtain ⟨r, hr, hcore⟩ := hch.2
    have hid : r.core.id = row.core.id := by rw [hcore]
    have htype : r.core.eventType = row.core.eventType := by rw [hcore]
    have hraw : r.core.dataRaw = row.core.dataRaw := by rw [hcore]
    have hclaimed : r.core.claimed = row.core.claimed := by rw [hcore]
    have htenant : r.core.tenantID = row.core.tenantID := by rw [hcore]
    have hikey : r.core.idempotencyKey = row.core.idempotencyKey := by rw [hcore]
    refine ⟨r, hr, ⟨hclaimed.trans hc, htenant.trans ht, hikey.trans hk⟩, ?_⟩
    rw [hrec]
    exact ⟨hid.symm, htype.symm, hraw.symm⟩
  -- a request that differs under the key chooses no row, so it neither publishes nor is accepted
  · intro c rec job hkey row hrow hcl hdiff
    have hnot : ∀ row', ¬ Chosen cfg s c row' := fun row' hch => by
      obtain ⟨htype, hdata⟩ := inv.tables.not_differs hch job hkey hrow hcl
      exact hdiff.elim (fun h => h htype) (fun h => h hdata)
    constructor
    · intro p hp hc
      obtain ⟨row', hch, _⟩ := inv.tables.log p hp c hc
      exact hnot row' hch
    · intro a hclient
      obtain ⟨row', hch, _⟩ := hdone c a hclient
      exact hnot row' hch
  · intro c a hclient
    obtain ⟨row, _, hrec, hpub⟩ := hdone c a hclient
    rw [hrec]
    obtain ⟨r, hr, hid, hp⟩ := hpub
    refine ⟨?_, r, hr, hid, hp⟩
    have hack := inv.tables.acked r hr hp
    rw [hid] at hack
    exact hack
  · intro id hpub t ht
    exact (settled_of_later hs hpub ht).log

/-! ## A call nobody disturbs -/

/-- **A request of its own, undisturbed, is accepted** with the record it asked for, and that record is on the topic. -/
theorem accept_undisturbed {s : State J} {c : Nat} {rec : Record} {data : J} {value : Bytes}
    (job : cfg.jobs c = .accept rec) (client : s.calls c = ⟨.start, .idle⟩)
    (json : cfg.jsonb rec.data = some data)
    (fresh : ∀ r ∈ s.events, clash (newRow c (trimKey rec) data) r = false)
    (free : s.lock (trimKey rec).id = none)
    (encoded : encodeRecord ((newRow c (trimKey rec) data).record cfg.zone) = .ok value) :
    ∃ t, (system cfg).Later s t ∧ (t.calls c).client =
      .done (.accepted ⟨(newRow c (trimKey rec) data).record cfg.zone, false⟩) ∧
      ⟨some c, (newRow c (trimKey rec) data).record cfg.zone, .acked⟩ ∈ t.log := by
  have hinsert := insertEvent_fresh fresh
  have hfind := find_newRow fresh
  have hagrees : agrees (trimKey rec) data (newRow c (trimKey rec) data) = true := by
    simp [agrees, newRow]
  generalize hrow : newRow c (trimKey rec) data = row at *
  have hid : row.id = (trimKey rec).id := by rw [← hrow]; rfl
  have hunpub : row.published = false := by rw [← hrow]; rfl
  -- the eight steps in turn, each state with what the next step asks of it
  obtain ⟨s₁, h₁, hc₁, he₁, hl₁⟩ : ∃ t, Step cfg s c t ∧ t.calls c = ⟨.reserved, .idle⟩ ∧
      t.events = s.events ++ [row] ∧ t.lock = s.lock := by
    refine ⟨_, .insert true job client json, ?_, ?_, rfl⟩
    · simp [hrow, hinsert, afterInsert]
    · simp [hrow, hinsert]
  obtain ⟨s₂, h₂, hc₂, he₂, hl₂⟩ : ∃ t, Step cfg s₁ c t ∧ t.calls c = ⟨.begun, .active .nothing⟩ ∧
      t.events = s₁.events ∧ t.lock = s₁.lock :=
    ⟨_, .of_local hc₁ .beginAccept, put_self _ _ _, rfl, rfl⟩
  obtain ⟨s₃, h₃, hc₃⟩ : ∃ t, Step cfg s₂ c t ∧ t.calls c = ⟨.read row true, .active .nothing⟩ := by
    have hfound : s₂.events.find? (selects (trimKey rec)) = some row := by
      rw [he₂, he₁]
      exact hfind
    have hfree : s₂.lock row.id = none := by
      rw [hl₂, hl₁, hid]
      exact free
    exact ⟨_, .read job hc₂ json hfound hfree, by rw [put_self, hagrees]⟩
  obtain ⟨s₄, h₄, hc₄, hp₄⟩ : ∃ t, Step cfg s₃ c t ∧ t.calls c = ⟨.published row, .active .nothing⟩ ∧
      ⟨some c, row.record cfg.zone, .acked⟩ ∈ t.log :=
    ⟨_, .publish .acked hc₃ hunpub encoded, put_self _ _ _, List.mem_append_right _ (List.mem_singleton_self _)⟩
  obtain ⟨s₅, h₅, hc₅, hp₅⟩ : ∃ t, Step cfg s₄ c t ∧ t.calls c = ⟨.marked row, .active (.publish row.id)⟩ ∧
      t.log = s₄.log :=
    ⟨_, .of_local hc₄ .mark, put_self _ _ _, rfl⟩
  obtain ⟨s₆, h₆, hc₆, hp₆⟩ : ∃ t, Step cfg s₅ c t ∧
      t.calls c = ⟨.closing ⟨row.record cfg.zone, false⟩, .closing (.publish row.id)⟩ ∧ t.log = s₅.log :=
    ⟨_, .of_local hc₅ .commitPublished, put_self _ _ _, rfl⟩
  obtain ⟨s₇, h₇, hc₇, hp₇⟩ : ∃ t, Step cfg s₆ c t ∧
      t.calls c = ⟨.closing ⟨row.record cfg.zone, false⟩, .committed (.publish row.id)⟩ ∧ t.log = s₆.log :=
    ⟨_, .commit hc₆, put_self _ _ _, rfl⟩
  obtain ⟨s₈, h₈, hc₈, hp₈⟩ : ∃ t, Step cfg s₇ c t ∧
      t.calls c = ⟨.done (.accepted ⟨row.record cfg.zone, false⟩), .committed (.publish row.id)⟩ ∧ t.log = s₇.log :=
    ⟨_, .of_local hc₇ .acknowledge, put_self _ _ _, rfl⟩
  refine ⟨s₈, ?_, by rw [hc₈], by rw [hp₈, hp₇, hp₆, hp₅]; exact hp₄⟩
  exact .head ⟨c, h₁⟩ (.head ⟨c, h₂⟩ (.head ⟨c, h₃⟩ (.head ⟨c, h₄⟩ (.head ⟨c, h₅⟩
    (.head ⟨c, h₆⟩ (.head ⟨c, h₇⟩ (.single ⟨c, h₈⟩)))))))

/-- One small event, under an idempotency key. -/
def ping : Record where
  id := ascii "evt_1"
  tenantID := ascii "acme"
  type := ascii "ping"
  data := ascii "\x7b\x7d"
  occurredAt := .ofUnix 0
  idempotencyKey := ascii "first"

/-- Every call sends it. -/
def pings : Setting Bytes := ⟨some, fun _ => 0, fun _ => .accept ping⟩

theorem acceptEvent_idempotent_ping : ∃ t : State Bytes,
    (t.calls 0).client = .done (.accepted ⟨ping, false⟩) ∧ Idempotent pings t := by
  have hencoded : ∃ value, encodeRecord ping = .ok value := ⟨_, rfl⟩
  obtain ⟨value, hencoded⟩ := hencoded
  obtain ⟨t, ht, hdone, _⟩ := accept_undisturbed (s := unused)
    (rfl : pings.jobs 0 = .accept ping) rfl rfl (fun _ h => absurd h List.not_mem_nil) rfl hencoded
  exact ⟨t, hdone, acceptEvent_idempotent ⟨unused, initial_unused, ht⟩⟩

end LocalPlatform.Relay.History
