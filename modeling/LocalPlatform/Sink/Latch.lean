/-
# LocalPlatform.Sink.Latch — requests parked on a path.

A latch parks the deliveries to one path until it is released.  `enterLatch` counts a request in under the lock; the
handler that was parked counts it out in a deferred call, at its very end, after the latency and the answer.  So
`held` is the number of handlers that entered a latch and have not returned, and a request that was let go is still in
it for as long as its handler runs (`held_eq`).

Any number of handlers run against the latches, one step of one of them at a time.
-/
import LocalPlatform.Codec.Bytes
import LocalPlatform.Logic.Transition
import Mathlib.Data.List.AList
import Mathlib.Data.List.Induction

namespace LocalPlatform.Sink

open Codec Logic

/-- What `latchMu` guards, and the channels there have been: numbered as they are made, and closed by a release. -/
structure Latches where
  latched : AList fun _ : Bytes => Nat
  held : AList fun _ : Bytes => Nat
  made : Nat
  closed : List Nat

namespace Latches

/-- No path is armed, and none ever was. -/
def unarmed : Latches := ⟨∅, ∅, 0, []⟩

/-- `held[path]`; a path that is not in the map reads as zero. -/
def heldAt (l : Latches) (path : Bytes) : Nat := (l.held.lookup path).getD 0

/-- **`enterLatch`** — the channel to wait on, or none when the path is not latched. -/
def enterLatch (l : Latches) (path : Bytes) : Option Nat × Latches :=
  match l.latched.lookup path with
  | none => (none, l)
  | some ch => (some ch, { l with held := l.held.insert path (l.heldAt path + 1) })

/-- **`leaveLatch`** -/
def leaveLatch (l : Latches) (path : Bytes) : Latches :=
  if l.heldAt path > 0 then { l with held := l.held.insert path (l.heldAt path - 1) } else l

/-- **`setLatch`** — a no-op on a path that is armed. -/
def setLatch (l : Latches) (path : Bytes) : Latches :=
  match l.latched.lookup path with
  | some _ => l
  | none => { l with latched := l.latched.insert path l.made, made := l.made + 1 }

/-- **`releaseLatch`** — a no-op on a path that is not. -/
def releaseLatch (l : Latches) (path : Bytes) : Latches :=
  match l.latched.lookup path with
  | none => l
  | some ch => { l with latched := l.latched.erase path, closed := ch :: l.closed }

/-- **`latchState`** — which paths are armed, in order, and the counts. -/
def latchState (l : Latches) : List Bytes × AList fun _ : Bytes => Nat :=
  (l.latched.keys.mergeSort fun p q => !(q.map UInt8.toNat < p.map UInt8.toNat), l.held)

end Latches

/-! ## The handlers -/

/-- Where a handler is: in the `select` on the latch, behind it, on its way out with its deferred call still to come, and
out. -/
inductive Phase where
  | waiting
  | delayed
  | returning
  | done
  deriving DecidableEq, Repr

/-- A delivery past its verification: `latch` is what `enterLatch` answered, `gone` its client's disconnect. -/
structure Handler where
  path : Bytes
  latch : Option Nat
  gone : Bool
  phase : Phase
  deriving DecidableEq, Repr

/-- What happens to one handler.  Latency is how long it stays `delayed`. -/
inductive Move where
  | disconnect
  | released
  | abandoned
  | answered
  | returned
  deriving DecidableEq, Repr

/-- **`handle`**, from the latch on. -/
def Handler.advance (closed : List Nat) (h : Handler) : Move → Option Handler
  | .disconnect => some { h with gone := true }
  | .released =>
    if h.phase = .waiting ∧ h.latch.any (· ∈ closed) then some { h with phase := .delayed } else none
  | .abandoned =>
    if (h.phase = .waiting ∨ h.phase = .delayed) ∧ h.gone then some { h with phase := .returning } else none
  | .answered => if h.phase = .delayed then some { h with phase := .returning } else none
  | .returned => if h.phase = .returning then some { h with phase := .done } else none

/-- The deferred `leaveLatch`, of a handler that entered a latch and returns. -/
def Latches.deferred (l : Latches) (h : Handler) (m : Move) : Latches :=
  if m = .returned ∧ h.latch.isSome then l.leaveLatch h.path else l

/-- The latches and every delivery that reached them. -/
structure Deliveries where
  latches : Latches
  handlers : List Handler

inductive Event where
  | deliver (path : Bytes)
  | move (i : Nat) (m : Move)
  | latch (path : Bytes)
  | release (path : Bytes)
  deriving DecidableEq, Repr

namespace Deliveries

def initial : Deliveries := ⟨.unarmed, []⟩

/-- **One step** — `none` where it cannot be taken. -/
def step (s : Deliveries) : Event → Option Deliveries
  | .deliver path =>
    match s.latches.enterLatch path with
    | (some ch, l) => some ⟨l, s.handlers ++ [⟨path, some ch, false, .waiting⟩]⟩
    | (none, l) => some ⟨l, s.handlers ++ [⟨path, none, false, .delayed⟩]⟩
  | .move i m => do
    let h ← s.handlers[i]?
    let h' ← h.advance s.latches.closed m
    some ⟨s.latches.deferred h m, s.handlers.set i h'⟩
  | .latch path => some { s with latches := s.latches.setLatch path }
  | .release path => some { s with latches := s.latches.releaseLatch path }

end Deliveries

/-- A handler that counted itself in and has not counted itself out. -/
def Handler.entered (h : Handler) : Bool := h.latch.isSome && h.phase != .done

/-- **A parked request** — neither its release nor its client's disconnect has let it go. -/
def Handler.parked (closed : List Nat) (h : Handler) : Bool :=
  h.phase == .waiting && !h.gone && h.latch.any (· ∉ closed)

/-- Let go, and still counted. -/
def Handler.lingers (closed : List Nat) (h : Handler) : Bool := h.entered && !h.parked closed

namespace Deliveries

def count (s : Deliveries) (p : Handler → Bool) (path : Bytes) : Nat :=
  s.handlers.countP fun h => h.path = path && p h

/-- How many requests to a path are parked. -/
def parked (s : Deliveries) (path : Bytes) : Nat := s.count (Handler.parked s.latches.closed) path

def lingering (s : Deliveries) (path : Bytes) : Nat := s.count (Handler.lingers s.latches.closed) path

/-- The step lets a parked request go: a release of its path, or the disconnect of its client. -/
def LetsGo (s : Deliveries) : Event → Prop
  | .move i .disconnect => ∃ h, s.handlers[i]? = some h ∧ h.parked s.latches.closed = true
  | .release path => 0 < s.parked path
  | _ => False

end Deliveries

/-! ## Counting -/

section Counting

variable {α : Type*} {p : α → Bool} {l : List α} {i : Nat} {a b : α}

theorem countP_set_of_eq (h : l[i]? = some a) (heq : p b = p a) : (l.set i b).countP p = l.countP p := by
  obtain ⟨hlt, hget⟩ := List.getElem?_eq_some_iff.mp h
  have hle := List.boole_getElem_le_countP (p := p) hlt
  rw [List.countP_set hlt, hget, heq]
  rw [hget] at hle
  omega

theorem countP_set_of_leave (h : l[i]? = some a) (ha : p a = true) (hb : p b = false) :
    (l.set i b).countP p + 1 = l.countP p := by
  obtain ⟨hlt, hget⟩ := List.getElem?_eq_some_iff.mp h
  have hle := List.boole_getElem_le_countP (p := p) hlt
  rw [List.countP_set hlt, hget, ha, hb]
  rw [hget, ha] at hle
  simp only [if_true, Bool.false_eq_true, if_false] at hle ⊢
  omega

theorem countP_eq_add {p q r : α → Bool} (h : ∀ a, (p a).toNat = (q a).toNat + (r a).toNat) (l : List α) :
    l.countP p = l.countP q + l.countP r := by
  induction l with
  | nil => rfl
  | cons a l ih =>
    have ha := h a
    simp only [List.countP_cons]
    cases hp : p a <;> cases hq : q a <;> cases hr : r a <;> simp [hp, hq, hr] at ha ⊢ <;> omega

end Counting

/-! ## The maps -/

namespace Latches

variable {l : Latches} {path other : Bytes}

theorem heldAt_insert (held : AList fun _ : Bytes => Nat) (n : Nat) :
    ((held.insert path n).lookup other).getD 0 = if other = path then n else (held.lookup other).getD 0 := by
  by_cases h : other = path
  · subst h
    rw [AList.lookup_insert, if_pos rfl]
    rfl
  · rw [AList.lookup_insert_ne h, if_neg h]

theorem heldAt_leaveLatch : (l.leaveLatch path).heldAt other = l.heldAt other - if other = path then 1 else 0 := by
  unfold leaveLatch
  split
  · show ((l.held.insert path _).lookup other).getD 0 = _
    rw [heldAt_insert]
    split
    · next h => rw [h]
    · rfl
  · next h =>
    split
    · next hpath => rw [hpath]; omega
    · omega

theorem deferred_rest (l : Latches) (h : Handler) (m : Move) :
    (l.deferred h m).latched = l.latched ∧ (l.deferred h m).closed = l.closed ∧ (l.deferred h m).made = l.made := by
  unfold deferred leaveLatch
  split
  · split
    · exact ⟨rfl, rfl, rfl⟩
    · exact ⟨rfl, rfl, rfl⟩
  · exact ⟨rfl, rfl, rfl⟩

theorem closed_setLatch (l : Latches) (path : Bytes) : (l.setLatch path).closed = l.closed := by
  unfold setLatch
  split <;> rfl

/-- A path that is armed keeps its channel. -/
theorem lookup_setLatch {ch : Nat} (h : l.latched.lookup other = some ch) :
    (l.setLatch path).latched.lookup other = some ch := by
  unfold setLatch
  split
  · exact h
  · next hnone =>
    have hne : other ≠ path := by
      rintro rfl
      rw [h] at hnone
      cases hnone
    exact (AList.lookup_insert_ne hne).trans h

theorem closed_releaseLatch {ch : Nat} (h : ch ∈ l.closed) : ch ∈ (l.releaseLatch path).closed := by
  unfold releaseLatch
  split
  · exact h
  · exact List.mem_cons_of_mem _ h

/-- A release closes the channel its path is armed with, and any other stays. -/
theorem lookup_releaseLatch {ch : Nat} (h : l.latched.lookup other = some ch)
    (hopen : ch ∉ (l.releaseLatch path).closed) : (l.releaseLatch path).latched.lookup other = some ch := by
  unfold releaseLatch at hopen ⊢
  split at hopen
  · exact h
  · next closing hclosing =>
    have hne : other ≠ path := by
      rintro rfl
      rw [h] at hclosing
      exact hopen (List.mem_cons.mpr (Or.inl (Option.some.inj hclosing)))
    exact (AList.lookup_erase_ne hne).trans h

/-- Channels in use: each armed path has one of its own, that is not closed. -/
structure Inv (l : Latches) : Prop where
  closed_lt : ∀ ch ∈ l.closed, ch < l.made
  armed_lt : ∀ {path ch}, l.latched.lookup path = some ch → ch < l.made
  armed_open : ∀ {path ch}, l.latched.lookup path = some ch → ch ∉ l.closed
  own : ∀ {path other ch}, l.latched.lookup path = some ch → l.latched.lookup other = some ch → path = other

theorem Inv.unarmed : unarmed.Inv where
  closed_lt _ h := absurd h List.not_mem_nil
  armed_lt h := absurd h (by simp [Latches.unarmed])
  armed_open h := absurd h (by simp [Latches.unarmed])
  own h := absurd h (by simp [Latches.unarmed])

theorem Inv.setLatch (h : l.Inv) (path : Bytes) : (l.setLatch path).Inv := by
  unfold Latches.setLatch
  split
  · exact h
  · have hcases : ∀ {other ch}, (l.latched.insert path l.made).lookup other = some ch →
        (other = path ∧ ch = l.made) ∨ l.latched.lookup other = some ch := by
      intro other ch hlookup
      by_cases hpath : other = path
      · rw [hpath, AList.lookup_insert] at hlookup
        exact Or.inl ⟨hpath, (Option.some.inj hlookup).symm⟩
      · rw [AList.lookup_insert_ne hpath] at hlookup
        exact Or.inr hlookup
    refine ⟨?_, ?_, ?_, ?_⟩
    · intro ch hch
      exact Nat.lt_succ_of_lt (h.closed_lt ch hch)
    · intro other ch hlookup
      rcases hcases hlookup with ⟨-, rfl⟩ | hold
      · exact Nat.lt_succ_self _
      · exact Nat.lt_succ_of_lt (h.armed_lt hold)
    · intro other ch hlookup hclosed
      rcases hcases hlookup with ⟨-, rfl⟩ | hold
      · exact absurd (h.closed_lt _ hclosed) (lt_irrefl _)
      · exact h.armed_open hold hclosed
    · intro a b ch ha hb
      rcases hcases ha with ⟨hapath, hach⟩ | haold
      · rcases hcases hb with ⟨hbpath, -⟩ | hbold
        · exact hapath.trans hbpath.symm
        · exact absurd (h.armed_lt hbold) (by omega)
      · rcases hcases hb with ⟨-, hbch⟩ | hbold
        · exact absurd (h.armed_lt haold) (by omega)
        · exact h.own haold hbold

theorem Inv.releaseLatch (h : l.Inv) (path : Bytes) : (l.releaseLatch path).Inv := by
  unfold Latches.releaseLatch
  split
  · exact h
  · next ch hch =>
    -- the latch that is released is no longer armed, and its channel was its own
    have hcases : ∀ {other ch'}, (l.latched.erase path).lookup other = some ch' →
        other ≠ path ∧ l.latched.lookup other = some ch' := by
      intro other ch' hlookup
      have hpath : other ≠ path := by
        rintro rfl
        rw [AList.lookup_erase] at hlookup
        cases hlookup
      rw [AList.lookup_erase_ne hpath] at hlookup
      exact ⟨hpath, hlookup⟩
    refine ⟨?_, ?_, ?_, ?_⟩
    · intro ch' hmem
      rcases List.mem_cons.mp hmem with rfl | hmem
      · exact h.armed_lt hch
      · exact h.closed_lt ch' hmem
    · intro other ch' hlookup
      exact h.armed_lt (hcases hlookup).2
    · intro other ch' hlookup hmem
      obtain ⟨hne, hold⟩ := hcases hlookup
      rcases List.mem_cons.mp hmem with rfl | hmem
      · exact hne (h.own hold hch)
      · exact h.armed_open hold hmem
    · intro a b ch' ha hb
      exact h.own (hcases ha).2 (hcases hb).2

end Latches

/-! ## What every state has -/

theorem Handler.entered_of_phase {h h' : Handler} (hlatch : h'.latch = h.latch) (hphase : h.phase ≠ .done)
    (hphase' : h'.phase ≠ .done) : h'.entered = h.entered := by
  unfold Handler.entered
  rw [hlatch, bne_iff_ne.mpr hphase, bne_iff_ne.mpr hphase']

/-- A move changes neither the path nor the channel, and it is the return that counts a handler out. -/
theorem Handler.advance_eq {closed : List Nat} {h h' : Handler} {m : Move} (hm : h.advance closed m = some h') :
    h'.path = h.path ∧ h'.latch = h.latch ∧ (h'.phase = .waiting → h.phase = .waiting) ∧
      (m = .returned ∧ h.phase = .returning ∧ h'.entered = false ∨ m ≠ .returned ∧ h'.entered = h.entered) := by
  cases m with
  | disconnect =>
    obtain rfl := Option.some.inj hm
    exact ⟨rfl, rfl, id, Or.inr ⟨nofun, rfl⟩⟩
  | released =>
    obtain ⟨⟨hphase, -⟩, rfl⟩ := (Option.ite_none_right_eq_some.mp hm).imp_right Option.some.inj
    exact ⟨rfl, rfl, nofun, Or.inr ⟨nofun, entered_of_phase rfl (by rw [hphase]; decide) nofun⟩⟩
  | abandoned =>
    obtain ⟨⟨hphase, -⟩, rfl⟩ := (Option.ite_none_right_eq_some.mp hm).imp_right Option.some.inj
    refine ⟨rfl, rfl, nofun, Or.inr ⟨nofun, entered_of_phase rfl ?_ nofun⟩⟩
    rcases hphase with hp | hp
    · rw [hp]; decide
    · rw [hp]; decide
  | answered =>
    obtain ⟨hphase, rfl⟩ := (Option.ite_none_right_eq_some.mp hm).imp_right Option.some.inj
    exact ⟨rfl, rfl, nofun, Or.inr ⟨nofun, entered_of_phase rfl (by rw [hphase]; decide) nofun⟩⟩
  | returned =>
    obtain ⟨hphase, rfl⟩ := (Option.ite_none_right_eq_some.mp hm).imp_right Option.some.inj
    exact ⟨rfl, rfl, nofun, Or.inl ⟨rfl, hphase, by simp [Handler.entered]⟩⟩

namespace Deliveries

/-- `held` counts the handlers that entered, and a channel that is open is the one its path is armed with. -/
structure Inv (s : Deliveries) : Prop where
  latches : s.latches.Inv
  held : ∀ path, s.latches.heldAt path = s.count Handler.entered path
  armed : ∀ h ∈ s.handlers, ∀ ch, h.latch = some ch → ch ∉ s.latches.closed → s.latches.latched.lookup h.path = some ch
  waiting : ∀ h ∈ s.handlers, h.phase = .waiting → h.latch.isSome

theorem Inv.initial : initial.Inv where
  latches := .unarmed
  held _ := rfl
  armed _ h := absurd h List.not_mem_nil
  waiting _ h := absurd h List.not_mem_nil

variable {s s' : Deliveries}

theorem count_append (l : Latches) (h : Handler) (p : Handler → Bool) (path : Bytes) :
    (Deliveries.mk l (s.handlers ++ [h])).count p path = s.count p path + if h.path = path ∧ p h then 1 else 0 := by
  unfold count
  rw [List.countP_append, List.countP_singleton]
  simp

theorem Inv.deliver (h : s.Inv) {path : Bytes} (hs : s.step (.deliver path) = some s') : s'.Inv := by
  unfold step Latches.enterLatch at hs
  -- at a path that is not latched nothing is counted; at a latched one the request is counted in as it parks
  cases hlookup : s.latches.latched.lookup path with
  | none =>
    simp only [hlookup] at hs
    obtain rfl := Option.some.inj hs
    refine ⟨h.latches, ?_, ?_, ?_⟩
    · intro other
      rw [count_append, if_neg (by simp [Handler.entered])]
      exact h.held other
    · intro handler hmem ch hch
      rcases List.mem_append.mp hmem with hmem | hmem
      · exact h.armed handler hmem ch hch
      · rw [List.mem_singleton.mp hmem] at hch
        cases hch
    · intro handler hmem hphase
      rcases List.mem_append.mp hmem with hmem | hmem
      · exact h.waiting handler hmem hphase
      · rw [List.mem_singleton.mp hmem] at hphase
        cases hphase
  | some ch =>
    simp only [hlookup] at hs
    obtain rfl := Option.some.inj hs
    refine ⟨⟨h.latches.closed_lt, h.latches.armed_lt, h.latches.armed_open, h.latches.own⟩, ?_, ?_, ?_⟩
    · intro other
      rw [count_append, ← h.held other]
      show ((s.latches.held.insert path _).lookup other).getD 0 = _
      rw [Latches.heldAt_insert]
      by_cases hother : other = path
      · subst hother
        rw [if_pos rfl, if_pos ⟨rfl, rfl⟩]
      · rw [if_neg hother, if_neg (fun hpath => hother hpath.1.symm)]
        rfl
    · intro handler hmem ch' hch hopen
      rcases List.mem_append.mp hmem with hmem | hmem
      · exact h.armed handler hmem ch' hch hopen
      · rw [List.mem_singleton.mp hmem] at hch ⊢
        rw [← Option.some.inj hch]
        exact hlookup
    · intro handler hmem hphase
      rcases List.mem_append.mp hmem with hmem | hmem
      · exact h.waiting handler hmem hphase
      · rw [List.mem_singleton.mp hmem]
        rfl

theorem Inv.move (h : s.Inv) {i : Nat} {m : Move} (hs : s.step (.move i m) = some s') : s'.Inv := by
  obtain ⟨handler, hget, hs⟩ := Option.bind_eq_some_iff.mp hs
  obtain ⟨handler', hadvance, hs⟩ := Option.bind_eq_some_iff.mp hs
  obtain rfl := Option.some.inj hs
  obtain ⟨hpath, hlatch, hwaiting, hentered⟩ := Handler.advance_eq hadvance
  have hmem : handler ∈ s.handlers := List.mem_of_getElem? hget
  obtain ⟨hlatched, hclosed, hmade⟩ := s.latches.deferred_rest handler m
  have hmems : ∀ x ∈ s.handlers.set i handler', x = handler' ∨ x ∈ s.handlers := fun x hx =>
    (List.mem_or_eq_of_mem_set hx).symm
  -- a move changes one handler, and of the latches only the count its deferred call takes down
  refine ⟨⟨?_, ?_, ?_, ?_⟩, ?_, ?_, ?_⟩
  · show ∀ ch ∈ (s.latches.deferred handler m).closed, ch < (s.latches.deferred handler m).made
    rw [hclosed, hmade]
    exact h.latches.closed_lt
  · rw [hlatched, hmade]
    exact h.latches.armed_lt
  · rw [hlatched, hclosed]
    exact h.latches.armed_open
  · rw [hlatched]
    exact h.latches.own
  · intro path
    show (s.latches.deferred handler m).heldAt path =
      (s.handlers.set i handler').countP fun x => x.path = path && x.entered
    have hheld := h.held path
    unfold count at hheld
    by_cases hout : m = .returned ∧ handler.latch.isSome ∧ handler.path = path
    · -- the handler counted itself in, so there is something to count out
      obtain ⟨rfl, hsome, rfl⟩ := hout
      rcases hentered with ⟨-, hphase, hentered⟩ | ⟨hne, -⟩
      · have hcount := countP_set_of_leave (p := fun x : Handler => x.path = handler.path && x.entered) hget
          (by simp [Handler.entered, hsome, hphase]) (b := handler') (by simp [hentered])
        unfold Latches.deferred
        rw [if_pos ⟨rfl, hsome⟩, Latches.heldAt_leaveLatch, if_pos rfl, hheld]
        omega
      · exact absurd rfl hne
    -- otherwise the count stays, and so does what is counted
    · have hkeep : (s.latches.deferred handler m).heldAt path = s.latches.heldAt path := by
        unfold Latches.deferred
        split
        · next hdeferred =>
          have hne : path ≠ handler.path := fun hp => hout ⟨hdeferred.1, hdeferred.2, hp.symm⟩
          rw [Latches.heldAt_leaveLatch, if_neg hne, Nat.sub_zero]
        · rfl
      have hsame : (handler'.path = path && handler'.entered) = (handler.path = path && handler.entered) := by
        rw [hpath]
        by_cases hp : handler.path = path
        · rcases hentered with ⟨hm, -, hentered⟩ | ⟨-, hentered⟩
          · have hnone : handler.latch.isSome = false := Bool.eq_false_iff.mpr fun hl => hout ⟨hm, hl, hp⟩
            rw [hentered, Handler.entered, hnone, Bool.false_and]
          · rw [hentered]
        · rw [decide_eq_false hp, Bool.false_and, Bool.false_and]
      rw [hkeep, hheld, countP_set_of_eq hget hsame]
  · intro x hx ch hch hopen
    show (s.latches.deferred handler m).latched.lookup x.path = some ch
    change ch ∉ (s.latches.deferred handler m).closed at hopen
    rw [hclosed] at hopen
    rw [hlatched]
    rcases hmems x hx with rfl | hx
    · rw [hpath]
      exact h.armed handler hmem ch (hlatch ▸ hch) hopen
    · exact h.armed x hx ch hch hopen
  · intro x hx hphase
    rcases hmems x hx with rfl | hx
    · rw [hlatch]
      exact h.waiting handler hmem (hwaiting hphase)
    · exact h.waiting x hx hphase

theorem Inv.latch (h : s.Inv) {path : Bytes} (hs : s.step (.latch path) = some s') : s'.Inv := by
  obtain rfl := Option.some.inj hs
  refine ⟨h.latches.setLatch path, ?_, ?_, h.waiting⟩
  · intro other
    show (s.latches.setLatch path).heldAt other = s.count Handler.entered other
    rw [← h.held]
    unfold Latches.setLatch
    split <;> rfl
  · intro handler hmem ch hch hopen
    show (s.latches.setLatch path).latched.lookup handler.path = some ch
    change ch ∉ (s.latches.setLatch path).closed at hopen
    rw [Latches.closed_setLatch] at hopen
    exact Latches.lookup_setLatch (h.armed handler hmem ch hch hopen)

theorem Inv.release (h : s.Inv) {path : Bytes} (hs : s.step (.release path) = some s') : s'.Inv := by
  obtain rfl := Option.some.inj hs
  refine ⟨h.latches.releaseLatch path, ?_, ?_, h.waiting⟩
  · intro other
    show (s.latches.releaseLatch path).heldAt other = s.count Handler.entered other
    rw [← h.held]
    unfold Latches.releaseLatch
    split <;> rfl
  · intro handler hmem ch hch hopen
    exact Latches.lookup_releaseLatch
      (h.armed handler hmem ch hch fun hclosed => hopen (Latches.closed_releaseLatch hclosed)) hopen

theorem Inv.step (h : s.Inv) {e : Event} (hs : s.step e = some s') : s'.Inv := by
  cases e with
  | deliver path => exact h.deliver hs
  | move i m => exact h.move hs
  | latch path => exact h.latch hs
  | release path => exact h.release hs

/-- Any number of deliveries, disconnects and control requests, in any order. -/
def system : System Deliveries := .ofMoves (· = initial) Deliveries.step

theorem inv_of_reachable (hs : system.Reachable s) : s.Inv :=
  System.invariant (fun _ h => h ▸ .initial) (fun _ _ _ hinv hstep => hinv.step hstep.choose_spec) hs

/-! ## What `held` counts -/

/-- A parked request waits on a channel that is open, with its client still there. -/
theorem parked_iff {closed : List Nat} {h : Handler} :
    h.parked closed = true ↔ h.phase = .waiting ∧ h.gone = false ∧ ∃ ch, h.latch = some ch ∧ ch ∉ closed := by
  unfold Handler.parked
  simp only [Bool.and_eq_true, beq_iff_eq, Bool.not_eq_true', Option.any_eq_true, decide_eq_true_eq, and_assoc]

theorem entered_of_parked {closed : List Nat} {h : Handler} (hp : h.parked closed = true) : h.entered = true := by
  obtain ⟨hphase, -, ch, hch, -⟩ := parked_iff.mp hp
  unfold Handler.entered
  rw [hch, hphase]
  rfl

theorem lingers_eq_false_iff {closed : List Nat} {h : Handler} :
    h.lingers closed = false ↔ h.entered = false ∨ h.parked closed = true := by
  unfold Handler.lingers
  rw [Bool.and_eq_false_iff, Bool.not_eq_false']

/-- The count that is reported is of the parked requests and of those that were let go and linger. -/
theorem count_entered (s : Deliveries) (path : Bytes) :
    s.count Handler.entered path = s.parked path + s.lingering path := by
  apply countP_eq_add
  intro h
  cases hpath : decide (h.path = path) with
  | false => rfl
  | true =>
    unfold Handler.lingers
    cases hparked : h.parked s.latches.closed with
    | false => simp
    | true => rw [entered_of_parked hparked]; rfl

/-- No request lingers. -/
def Settled (s : Deliveries) : Prop := ∀ h ∈ s.handlers, h.lingers s.latches.closed = false

theorem held_eq (hs : s.Inv) (path : Bytes) : s.latches.heldAt path = s.parked path + s.lingering path := by
  rw [hs.held, count_entered]

theorem held_eq_iff (hs : s.Inv) : (∀ path, s.latches.heldAt path = s.parked path) ↔ s.Settled := by
  constructor
  · intro hexact h hmem
    have hzero : s.lingering h.path = 0 := by
      have heq := hexact h.path
      rw [held_eq hs] at heq
      omega
    have hnot := List.countP_eq_zero.mp hzero h hmem
    simpa using hnot
  · intro hsettled path
    have hzero : s.lingering path = 0 := by
      apply List.countP_eq_zero.mpr
      intro h hmem
      rw [hsettled h hmem, Bool.and_false]
      exact Bool.false_ne_true
    rw [held_eq hs, hzero, Nat.add_zero]

/-! ## Letting go -/

/-- A move of a handler that does not linger leaves it so, unless it is the disconnect of a parked client. -/
theorem lingers_advance {closed : List Nat} {h h' : Handler} {m : Move} (hm : h.advance closed m = some h')
    (hsettled : h.lingers closed = false) (hkeep : ¬(m = .disconnect ∧ h.parked closed = true)) :
    h'.lingers closed = false := by
  rcases lingers_eq_false_iff.mp hsettled with hentered | hparked
  · apply lingers_eq_false_iff.mpr
    left
    obtain ⟨-, -, -, ⟨-, -, hout⟩ | ⟨-, hsame⟩⟩ := Handler.advance_eq hm
    · exact hout
    · rw [hsame, hentered]
  · -- a parked handler can make no other move
    obtain ⟨hphase, hgone, ch, hch, hopen⟩ := parked_iff.mp hparked
    exfalso
    cases m with
    | disconnect => exact hkeep ⟨rfl, hparked⟩
    | released =>
      obtain ⟨⟨-, hclosed⟩, -⟩ := Option.ite_none_right_eq_some.mp hm
      rw [hch] at hclosed
      exact hopen (by simpa using hclosed)
    | abandoned =>
      obtain ⟨⟨-, hg⟩, -⟩ := Option.ite_none_right_eq_some.mp hm
      rw [hgone] at hg
      cases hg
    | answered =>
      have hp := (Option.ite_none_right_eq_some.mp hm).1
      rw [hphase] at hp
      cases hp
    | returned =>
      have hp := (Option.ite_none_right_eq_some.mp hm).1
      rw [hphase] at hp
      cases hp

/-- The channel of another path stays open. -/
theorem open_releaseLatch {l : Latches} (hl : l.Inv) {path other : Bytes} {ch : Nat}
    (h : l.latched.lookup other = some ch) (hne : other ≠ path) : ch ∉ (l.releaseLatch path).closed := by
  unfold Latches.releaseLatch
  split
  · exact hl.armed_open h
  · next closing hclosing =>
    intro hmem
    rcases List.mem_cons.mp hmem with rfl | hmem
    · exact hne (hl.own h hclosing)
    · exact hl.armed_open h hmem

/-- **A step that lets nobody go leaves nobody lingering.** -/
theorem Settled.step (hs : s.Inv) (h : s.Settled) {e : Event} (hstep : s.step e = some s') (hkeep : ¬s.LetsGo e) :
    s'.Settled := by
  cases e with
  | deliver path =>
    unfold Deliveries.step Latches.enterLatch at hstep
    cases hlookup : s.latches.latched.lookup path with
    | none =>
      simp only [hlookup] at hstep
      obtain rfl := Option.some.inj hstep
      intro handler hmem
      rcases List.mem_append.mp hmem with hmem | hmem
      · exact h handler hmem
      · rw [List.mem_singleton.mp hmem]
        rfl
    | some ch =>
      simp only [hlookup] at hstep
      obtain rfl := Option.some.inj hstep
      intro handler hmem
      rcases List.mem_append.mp hmem with hmem | hmem
      · exact h handler hmem
      · rw [List.mem_singleton.mp hmem]
        -- the channel of an armed latch is open, so the new request is parked
        exact lingers_eq_false_iff.mpr (Or.inr (parked_iff.mpr ⟨rfl, rfl, ch, rfl, hs.latches.armed_open hlookup⟩))
  | move i m =>
    obtain ⟨handler, hget, hstep⟩ := Option.bind_eq_some_iff.mp hstep
    obtain ⟨handler', hadvance, hstep⟩ := Option.bind_eq_some_iff.mp hstep
    obtain rfl := Option.some.inj hstep
    intro x hx
    show x.lingers (s.latches.deferred handler m).closed = false
    rw [(s.latches.deferred_rest handler m).2.1]
    rcases List.mem_or_eq_of_mem_set hx with hx | rfl
    · exact h x hx
    · refine lingers_advance hadvance (h handler (List.mem_of_getElem? hget)) ?_
      -- a parked request that leaves is what `hkeep` rules out
      rintro ⟨rfl, hparked⟩
      exact hkeep ⟨handler, hget, hparked⟩
  | latch path =>
    obtain rfl := Option.some.inj hstep
    intro handler hmem
    show handler.lingers (s.latches.setLatch path).closed = false
    rw [Latches.closed_setLatch]
    exact h handler hmem
  | release path =>
    obtain rfl := Option.some.inj hstep
    intro handler hmem
    rcases lingers_eq_false_iff.mp (h handler hmem) with hentered | hparked
    · exact lingers_eq_false_iff.mpr (Or.inl hentered)
    -- nothing is parked at the path that is released
    · have hne : handler.path ≠ path := by
        intro hpath
        have hnone := List.countP_eq_zero.mp (Nat.eq_zero_of_not_pos hkeep) handler hmem
        exact hnone (by rw [hparked, Bool.and_true, decide_eq_true hpath])
      obtain ⟨hphase, hgone, ch, hch, hopen⟩ := parked_iff.mp hparked
      apply lingers_eq_false_iff.mpr
      right
      apply parked_iff.mpr
      exact ⟨hphase, hgone, ch, hch, open_releaseLatch hs.latches (hs.armed handler hmem ch hch hopen) hne⟩

/-- What was let go lingers at once. -/
theorem not_settled_of_letsGo (hs : s.Inv) {e : Event} (hstep : s.step e = some s') (hgo : s.LetsGo e) :
    ¬s'.Settled := by
  intro hsettled
  cases e with
  | deliver path => exact hgo
  | latch path => exact hgo
  | move i m =>
    cases m with
    | disconnect =>
      obtain ⟨handler, hget, hparked⟩ := hgo
      obtain ⟨handler', hget', hstep⟩ := Option.bind_eq_some_iff.mp hstep
      obtain rfl := Option.some.inj (hget.symm.trans hget')
      obtain ⟨gone, hgone, hstep⟩ := Option.bind_eq_some_iff.mp hstep
      obtain rfl := Option.some.inj hgone
      obtain rfl := Option.some.inj hstep
      have hlingers := hsettled { handler with gone := true }
        (List.mem_of_getElem? (List.getElem?_set_self (List.getElem?_eq_some_iff.mp hget).1))
      rcases lingers_eq_false_iff.mp hlingers with hentered | hstill
      · have hin := entered_of_parked hparked
        change handler.entered = false at hentered
        rw [hin] at hentered
        cases hentered
      · obtain ⟨-, hgone, -⟩ := parked_iff.mp hstill
        cases hgone
    | released => exact hgo
    | abandoned => exact hgo
    | answered => exact hgo
    | returned => exact hgo
  | release path =>
    obtain rfl := Option.some.inj hstep
    obtain ⟨handler, hmem, hp⟩ := List.countP_pos_iff.mp hgo
    obtain ⟨hpath, hparked⟩ := Bool.and_eq_true_iff.mp hp
    obtain ⟨-, -, ch, hch, hopen⟩ := parked_iff.mp hparked
    have hlookup := hs.armed handler hmem ch hch hopen
    rw [of_decide_eq_true hpath] at hlookup
    -- the release closes the very channel the request waits on
    have hclosed : ch ∈ (s.latches.releaseLatch path).closed := by
      unfold Latches.releaseLatch
      rw [hlookup]
      exact List.mem_cons_self
    rcases lingers_eq_false_iff.mp (hsettled handler hmem) with hentered | hstill
    · rw [entered_of_parked hparked] at hentered
      cases hentered
    · obtain ⟨-, -, ch', hch', hopen'⟩ := parked_iff.mp hstill
      rw [hch] at hch'
      exact hopen' (Option.some.inj hch' ▸ hclosed)

/-! ## Runs -/

/-- The run of the events from the first state. -/
def run (events : List Event) : Option Deliveries := System.play step initial events

theorem run_append {before after : List Event} (h : run (before ++ after) = some s') :
    ∃ u, run before = some u ∧ System.play step u after = some s' := by
  unfold run System.play at h
  rw [List.foldlM_append] at h
  exact Option.bind_eq_some_iff.mp h

theorem inv_of_run {events : List Event} (h : run events = some s) : s.Inv :=
  inv_of_reachable ⟨initial, rfl, System.later_of_play h⟩

/-- A run that lets nobody go leaves nobody lingering. -/
theorem settled_of_run {events : List Event} (hrun : run events = some s)
    (hkeep : ∀ before e after u, events = before ++ e :: after → run before = some u → ¬u.LetsGo e) : s.Settled := by
  induction events using List.reverseRecOn generalizing s with
  | nil =>
    obtain rfl := Option.some.inj hrun
    exact fun h hmem => absurd hmem List.not_mem_nil
  | append_singleton events e ih =>
    obtain ⟨u, hbefore, hlast⟩ := run_append hrun
    have hu := ih hbefore fun before e' after w hsplit hw =>
      hkeep before e' (after ++ [e]) w (by rw [hsplit, List.append_assoc]; rfl) hw
    have hstep : u.step e = some s := by simpa [System.play] using hlast
    exact hu.step (inv_of_run hbefore) hstep (hkeep events e [] u rfl hbefore)

/-- **`held` counts the parked requests, and those let go whose handlers have not returned** — so it is the number of
the parked ones in every state of a run exactly when no step of the run lets a parked request go. -/
theorem held_exact_iff (events : List Event) (s : Deliveries) (hrun : run events = some s) :
    (∀ path, s.latches.heldAt path = s.parked path + s.lingering path) ∧
    ((∀ before after u, events = before ++ after → run before = some u →
        ∀ path, u.latches.heldAt path = u.parked path) ↔
      ∀ before e after u, events = before ++ e :: after → run before = some u → ¬u.LetsGo e) := by
  refine ⟨held_eq (inv_of_run hrun), ?_, ?_⟩
  · intro hexact before e after u hsplit hbefore hgo
    rw [hsplit] at hrun
    obtain ⟨w, hw, hplay⟩ := run_append hrun
    obtain rfl := Option.some.inj (hbefore.symm.trans hw)
    obtain ⟨s', hstep, -⟩ := Option.bind_eq_some_iff.mp hplay
    -- the state behind the event is one the run comes by
    have hnext : run (before ++ [e]) = some s' := by
      unfold run System.play at hbefore ⊢
      rw [List.foldlM_append, hbefore]
      simpa using hstep
    have hexact' := hexact (before ++ [e]) after s' (by rw [hsplit, List.append_assoc]; rfl) hnext
    exact not_settled_of_letsGo (inv_of_run hbefore) hstep hgo ((held_eq_iff (inv_of_run hnext)).mp hexact')
  · intro hkeep before after u hsplit hbefore
    apply (held_eq_iff (inv_of_run hbefore)).mpr
    exact settled_of_run hbefore fun front e rest w hfront hw =>
      hkeep front e (rest ++ after) w (by rw [hsplit, hfront, List.append_assoc]; rfl) hw

def flaky : Bytes := ascii "/hooks/flaky"

/-- A run in which a request is parked, and none is let go. -/
theorem held_exact_iff_parked :
    ∃ s, run [.latch flaky, .deliver flaky, .latch flaky] = some s ∧
      s.latches.heldAt flaky = s.parked flaky + s.lingering flaky ∧ s.parked flaky = 1 :=
  ⟨_, rfl, (held_exact_iff [.latch flaky, .deliver flaky, .latch flaky] _ rfl).1 flaky, by decide⟩

/-- A request is parked, its path released and armed again: one is held, and nothing is parked on the new latch. -/
theorem not_held_exact :
    ¬ ∀ events s, run events = some s → ∀ path, s.latches.heldAt path = s.parked path := by
  intro h
  have hrearmed := h [.latch flaky, .deliver flaky, .release flaky, .latch flaky] _ rfl flaky
  revert hrearmed
  decide

end Deliveries

end LocalPlatform.Sink
