/-
# LocalPlatform.Relay.Delivery.Readiness — who may say that a consumer is ready.

`Run` keeps three flags.  A mutex guards the methods that write `stopping` and `ready`; `ready` and
`fetchStarted` are atomics and are read without it.  Three threads write: the fetch loop with its deferred
cleanup, the watcher of the group join, and the callback of the context, which may run long after `Run` has
returned.  Here each thread stands at a place of its own program, a method is its list of single writes, and
any thread may go next, so a reader of `ready` sees every state in between.

What a thread may write once it is inside the mutex was settled when it looked at `stopping` (`Inv.checked`);
from that, nothing brings `ready` back once the callback or the cleanup is through (`Inv.stopped`).
-/
import LocalPlatform.Logic.Transition
import Mathlib.Data.List.Infix

namespace LocalPlatform.Relay.Delivery.Readiness

open Logic

/-! ## The flags and the methods under the mutex -/

structure Flags where
  stopping : Bool
  ready : Bool
  fetchStarted : Bool
  deriving DecidableEq, Repr

/-- One step of a method, done while the mutex is held. -/
inductive Effect where
  | setStopping (value : Bool)
  | setReady (value : Bool)
  | setFetchStarted (value : Bool)
  /-- `if ready && c.stopping { return }` -/
  | returnIfStopping (ready : Bool)
  deriving DecidableEq, Repr

/-- The methods that take `readinessMu`. -/
inductive Method where
  | startReadiness
  | stopReadiness
  | markReady (ready : Bool)
  deriving DecidableEq, Repr

/-- What a method does between `Lock` and `Unlock`. -/
def Method.body : Method → List Effect
  | .startReadiness => [.setStopping false, .setReady false, .setFetchStarted false]
  | .stopReadiness => [.setStopping true, .setReady false]
  | .markReady ready => [.returnIfStopping ready, .setReady ready]

/-- One effect, and what is left of its method. -/
def Effect.run (flags : Flags) (rest : List Effect) : Effect → Flags × List Effect
  | .setStopping value => ({ flags with stopping := value }, rest)
  | .setReady value => ({ flags with ready := value }, rest)
  | .setFetchStarted value => ({ flags with fetchStarted := value }, rest)
  | .returnIfStopping ready => (flags, if ready && flags.stopping then [] else rest)

/-! ## The threads -/

inductive Thread where
  | run
  | watcher
  | callback
  deriving DecidableEq, Repr

/-- What `Run` returns: nil, or the error of the part that failed. -/
inductive Exit where
  | stopped
  | recordTimeout
  | fetch
  | record
  deriving DecidableEq, Repr

/-- Where `Run` stands. -/
inductive RunAt where
  | entry
  | starting
  | spawning
  | registering
  | looping
  | fetching
  | marking
  | processing
  /-- `defer stopReadiness()`, the last to be deferred and the first to run. -/
  | deregistering (exit : Exit)
  | cancelling (exit : Exit)
  | joining (exit : Exit)
  | stopping (exit : Exit)
  | returned (exit : Exit)
  deriving DecidableEq, Repr

/-- Where `markReadyAfterGroupJoin` stands. -/
inductive WatcherAt where
  | absent
  | loading
  | asking
  | marking
  | waiting
  | done
  deriving DecidableEq, Repr

/-- Where the function given to `context.AfterFunc` stands. -/
inductive CallbackAt where
  | unregistered
  | registered
  | stopping
  | finished
  | removed
  deriving DecidableEq, Repr

/-- What is seen from outside. -/
inductive Event where
  /-- `c.fetchStarted.Store(true)` -/
  | looping
  /-- `FetchMessage` returned a message. -/
  | fetched
  /-- `c.reader.Stats()` was called by a thread and reported so many rebalances. -/
  | stats (caller : Thread) (rebalances : Int)
  /-- A thread is through with `stopReadiness`. -/
  | stopped (caller : Thread)
  deriving DecidableEq, Repr

structure State where
  flags : Flags
  /-- Who holds the mutex, and what is left of its method. -/
  inside : Option (Thread × List Effect)
  run : RunAt
  watcher : WatcherAt
  callback : CallbackAt
  ctxDone : Bool
  /-- `cancelJoinWatch` was called. -/
  joinCancelled : Bool
  /-- The latest first. -/
  log : List Event
  deriving DecidableEq, Repr

/-- A consumer that was just made, and the call of `Run`. -/
def initial : State := ⟨⟨false, false, false⟩, none, .entry, .absent, .unregistered, false, false, []⟩

/-- The method a thread has called and not yet returned from. -/
def State.calls (s : State) : Thread → Option Method
  | .run => match s.run with
    | .starting => some .startReadiness
    | .marking => some (.markReady true)
    | .stopping _ => some .stopReadiness
    | _ => none
  | .watcher => if s.watcher = .marking then some (.markReady true) else none
  | .callback => if s.callback = .stopping then some .stopReadiness else none

/-- A thread goes on behind the method it called. -/
def State.resume (s : State) : Thread → State
  | .run => match s.run with
    | .starting => { s with run := .spawning }
    | .marking => { s with run := .processing }
    | .stopping exit => { s with run := .returned exit, log := .stopped .run :: s.log }
    | _ => s
  | .watcher => { s with watcher := .done }
  | .callback => { s with callback := .finished, log := .stopped .callback :: s.log }

/-! ## Moves -/

/-- What `FetchMessage` returned. -/
inductive Fetched where
  | message
  /-- `context.Canceled` or `context.DeadlineExceeded`. -/
  | contextError
  | failed
  deriving DecidableEq, Repr

/-- What `processRecord` returned. -/
inductive Processed where
  | done
  | contextError
  | failed
  deriving DecidableEq, Repr

/-- Somebody's next step. -/
inductive Move where
  /-- `Run` goes on where it waits for nobody. -/
  | run
  | fetch (result : Fetched)
  | process (result : Processed)
  | enter (t : Thread)
  | act
  | leave
  /-- The watcher loads `fetchStarted`. -/
  | load
  | stats (rebalances : Int)
  | tick
  | joinDone
  /-- The context calls its callback. -/
  | fire
  | cancel
  deriving DecidableEq, Repr

/-- **`Run` between its calls.** -/
def State.advance (recordTimeout : Int) (s : State) : Option State :=
  match s.run with
  | .entry => some (if recordTimeout ≤ 0 then { s with run := .returned .recordTimeout } else { s with run := .starting })
  | .spawning => some { s with watcher := .loading, run := .registering }
  | .registering => some { s with callback := .registered, run := .looping }
  | .looping => some { s with
      flags := { s.flags with fetchStarted := true }, run := .fetching, log := .looping :: s.log }
  | .deregistering exit =>
    -- a callback that has begun is not waited for
    some { s with callback := if s.callback = .registered then .removed else s.callback, run := .cancelling exit }
  | .cancelling exit => some { s with joinCancelled := true, run := .joining exit }
  | .joining exit => if s.watcher = .done then some { s with run := .stopping exit } else none
  | _ => none

/-- Where `Run` goes with a fetch. -/
def Fetched.next : Fetched → RunAt
  | .message => .marking
  | .contextError => .deregistering .stopped
  | .failed => .deregistering .fetch

/-- Where `Run` goes with a record. -/
def Processed.next (ctxDone : Bool) : Processed → RunAt
  | .done => if ctxDone then .deregistering .stopped else .looping
  | .contextError => .deregistering (if ctxDone then .stopped else .record)
  | .failed => .deregistering .record

/-- **One step of the consumer.** -/
def step (recordTimeout : Int) (s : State) : Move → Option State
  | .run => s.advance recordTimeout
  | .fetch result =>
    if s.run = .fetching then
      some { s with run := result.next, log := if result = .message then .fetched :: s.log else s.log }
    else none
  | .process result =>
    if s.run = .processing then some { s with run := result.next s.ctxDone } else none
  | .enter t =>
    if s.inside = none then (s.calls t).map fun m => { s with inside := some (t, m.body) } else none
  | .act => match s.inside with
    | some (t, effect :: rest) =>
      some { s with flags := (effect.run s.flags rest).1, inside := some (t, (effect.run s.flags rest).2) }
    | _ => none
  | .leave => match s.inside with
    | some (t, []) => some ({ s with inside := none }.resume t)
    | _ => none
  | .load =>
    if s.watcher = .loading then some { s with watcher := if s.flags.fetchStarted then .asking else .waiting } else none
  | .stats rebalances =>
    if s.watcher = .asking then some { s with
      watcher := if 0 < rebalances then .marking else .waiting, log := .stats .watcher rebalances :: s.log }
    else none
  | .tick => if s.watcher = .waiting then some { s with watcher := .loading } else none
  | .joinDone =>
    if s.watcher = .waiting ∧ (s.ctxDone = true ∨ s.joinCancelled = true) then some { s with watcher := .done } else none
  | .fire => if s.callback = .registered ∧ s.ctxDone = true then some { s with callback := .stopping } else none
  | .cancel => some { s with ctxDone := true }

/-- One call of `Run` on a new consumer. -/
def consumer (recordTimeout : Int) : System State := .ofMoves (· = initial) (step recordTimeout)

/-! ## The invariant -/

/-- **There is ground for being ready**: a message was fetched, or the reader reported a rebalance to the
watcher after the loop had started. -/
def Backed (log : List Event) : Prop := .fetched ∈ log ∨
  ∃ n after before, 0 < n ∧ log = after ++ .stats .watcher n :: before ∧ .looping ∈ before

theorem Backed.cons {log : List Event} (h : Backed log) (e : Event) : Backed (e :: log) := by
  rcases h with hfetched | ⟨n, after, before, hn, rfl, hlooping⟩
  · exact Or.inl (List.mem_cons_of_mem e hfetched)
  · exact Or.inr ⟨n, e :: after, before, hn, rfl, hlooping⟩

/-- `Stats` is called by the watcher and after the loop has started. -/
def Asked (log : List Event) : Prop :=
  ∀ t n after before, log = after ++ .stats t n :: before → t = .watcher ∧ .looping ∈ before

theorem Asked.cons {log : List Event} (h : Asked log) {e : Event}
    (he : ∀ t n, e = .stats t n → t = .watcher ∧ .looping ∈ log) : Asked (e :: log) := by
  intro t n after before heq
  cases after with
  | nil =>
      injection heq with hhead htail
      subst htail
      exact he t n hhead
  | cons x after =>
      injection heq with _ htail
      exact h t n after before htail

/-- A method under way: what the flags are when this much of it is left. -/
inductive Held (flags : Flags) : Method → List Effect → Prop where
  | entered (m : Method) : Held flags m m.body
  | unstopped : Held flags .startReadiness [.setReady false, .setFetchStarted false]
  | unready : Held flags .startReadiness [.setFetchStarted false]
  | started : Held flags .startReadiness []
  | stopping (h : flags.stopping = true) : Held flags .stopReadiness [.setReady false]
  | stopped (h : flags.stopping = true) (hready : flags.ready = false) : Held flags .stopReadiness []
  | checked {ready : Bool} (h : ready = true → flags.stopping = false) : Held flags (.markReady ready) [.setReady ready]
  | marked {ready : Bool} : Held flags (.markReady ready) []

/-- The loop's own store leaves a method where it is. -/
theorem Held.congr {flags flags' : Flags} {m : Method} {rest : List Effect} (h : Held flags m rest)
    (hstopping : flags'.stopping = flags.stopping) (hready : flags'.ready = flags.ready) : Held flags' m rest := by
  cases h with
  | entered => exact .entered m
  | unstopped => exact .unstopped
  | unready => exact .unready
  | started => exact .started
  | stopping h => exact .stopping (hstopping.trans h)
  | stopped h hr => exact .stopped (hstopping.trans h) (hready.trans hr)
  | checked h => exact .checked fun hr => hstopping.trans (h hr)
  | marked => exact .marked

/-- **A method goes on.** -/
theorem Held.act {flags : Flags} {m : Method} {effect : Effect} {rest : List Effect}
    (h : Held flags m (effect :: rest)) : Held (effect.run flags rest).1 m (effect.run flags rest).2 := by
  generalize hall : effect :: rest = all at h
  cases h with
  | entered =>
      cases m with
      | startReadiness => cases hall; exact .unstopped
      | stopReadiness => cases hall; exact .stopping rfl
      | markReady ready =>
          cases hall
          show Held flags _ (if ready && flags.stopping then [] else [.setReady ready])
          by_cases hstop : (ready && flags.stopping) = true
          · rw [if_pos hstop]
            exact .marked
          · rw [if_neg hstop]
            refine .checked fun hready => ?_
            simpa [hready] using hstop
  | unstopped => cases hall; exact .unready
  | unready => cases hall; exact .started
  | stopping h => cases hall; exact .stopped h rfl
  | checked h => cases hall; exact .marked
  | started => cases hall
  | stopped => cases hall
  | marked => cases hall

/-- **Where the flags get to in one step of a method**: only `markReady true` makes ready, only
`startReadiness` starts over, and behind `stopping` nothing is made ready. -/
structure Onward (m : Method) (flags flags' : Flags) : Prop where
  ready : flags'.ready = true → flags.ready = true ∨ m = .markReady true
  fetchStarted : flags'.fetchStarted = true → flags.fetchStarted = true
  stopping : m ≠ .startReadiness → flags.stopping = true →
    flags'.stopping = true ∧ (flags.ready = false → flags'.ready = false)

theorem Held.onward {flags : Flags} {m : Method} {effect : Effect} {rest : List Effect}
    (h : Held flags m (effect :: rest)) : Onward m flags (effect.run flags rest).1 := by
  generalize hall : effect :: rest = all at h
  cases h with
  | entered =>
      cases m with
      | startReadiness => cases hall; exact ⟨Or.inl, id, fun hm => absurd rfl hm⟩
      | stopReadiness => cases hall; exact ⟨Or.inl, id, fun _ _ => ⟨rfl, id⟩⟩
      | markReady ready => cases hall; exact ⟨Or.inl, id, fun _ hs => ⟨hs, id⟩⟩
  | unstopped => cases hall; exact ⟨nofun, id, fun hm => absurd rfl hm⟩
  | unready => cases hall; exact ⟨Or.inl, nofun, fun hm => absurd rfl hm⟩
  | stopping h => cases hall; exact ⟨nofun, id, fun _ hs => ⟨hs, fun _ => rfl⟩⟩
  | @checked ready h =>
      cases hall
      refine ⟨fun hready => Or.inr (congrArg Method.markReady hready), id, fun _ hs => ⟨hs, fun _ => ?_⟩⟩
      -- who checked before `stopping` was set would have it unset
      show ready = false
      cases ready with
      | false => rfl
      | true => exact absurd (hs.symm.trans (h rfl)) nofun
  | started => cases hall
  | stopped => cases hall
  | marked => cases hall

/-- `Run` has not begun its work, or refused to. -/
def Idle (s : State) : Prop :=
  s.log = [] ∧ s.watcher = .absent ∧ s.callback = .unregistered ∧ s.inside = none ∧ s.flags.ready = false

/-- **The invariant of a consumer.** -/
structure Inv (s : State) : Prop where
  inside : ∀ t rest, s.inside = some (t, rest) → ∃ m, s.calls t = some m ∧ Held s.flags m rest
  backed : s.flags.ready = true → Backed s.log
  marking : ∀ t, s.calls t = some (.markReady true) → Backed s.log
  started : s.flags.fetchStarted = true → .looping ∈ s.log
  asking : s.watcher = .asking → .looping ∈ s.log
  asked : Asked s.log
  stopped : ∀ t, .stopped t ∈ s.log → s.flags.stopping = true ∧ s.flags.ready = false
  entry : s.run = .entry → Idle s
  fresh : s.run = .starting ∨ s.run = .spawning → s.log = [] ∧ s.watcher = .absent ∧ s.callback = .unregistered
  spawned : s.run = .registering → s.callback = .unregistered
  returned : ∀ exit, s.run = .returned exit → .stopped .run ∈ s.log ∨ Idle s

theorem inv_initial : Inv initial where
  inside := fun t rest h => by cases h
  backed := fun h => by cases h
  marking := fun t h => by cases t <;> exact absurd h (by decide)
  started := fun h => by cases h
  asking := fun h => by cases h
  asked := fun t n after before h => absurd h (by simp [initial])
  stopped := fun t h => by cases h
  entry := fun _ => ⟨rfl, rfl, rfl, rfl, rfl⟩
  fresh := fun _ => ⟨rfl, rfl, rfl⟩
  spawned := fun h => by cases h
  returned := fun exit h => by cases h

/-! ## Steps -/

/-- Which method is called, by whom and where. -/
theorem calls_cases {s : State} {t : Thread} {m : Method} (h : s.calls t = some m) :
    (t = .run ∧ s.run = .starting ∧ m = .startReadiness) ∨ (t = .run ∧ s.run = .marking ∧ m = .markReady true) ∨
    (t = .run ∧ (∃ exit, s.run = .stopping exit) ∧ m = .stopReadiness) ∨
    (t = .watcher ∧ s.watcher = .marking ∧ m = .markReady true) ∨
    (t = .callback ∧ s.callback = .stopping ∧ m = .stopReadiness) := by
  cases t with
  | run =>
      simp only [State.calls] at h
      split at h
      · next hrun => exact Or.inl ⟨rfl, hrun, (Option.some.inj h).symm⟩
      · next hrun => exact Or.inr (Or.inl ⟨rfl, hrun, (Option.some.inj h).symm⟩)
      · next exit hrun => exact Or.inr (Or.inr (Or.inl ⟨rfl, ⟨exit, hrun⟩, (Option.some.inj h).symm⟩))
      · cases h
  | watcher =>
      simp only [State.calls] at h
      split at h
      · next hwatcher => exact Or.inr (Or.inr (Or.inr (Or.inl ⟨rfl, hwatcher, (Option.some.inj h).symm⟩)))
      · cases h
  | callback =>
      simp only [State.calls] at h
      split at h
      · next hcallback => exact Or.inr (Or.inr (Or.inr (Or.inr ⟨rfl, hcallback, (Option.some.inj h).symm⟩)))
      · cases h

/-- What is seen is true of the state. -/
def Seen (s : State) : Event → Prop
  | .looping => True
  | .fetched => True
  | .stats t _ => t = .watcher ∧ .looping ∈ s.log
  | .stopped _ => s.flags.stopping = true ∧ s.flags.ready = false

/-- **A step that writes no flag but `fetchStarted`.**  It lets go of the mutex, or whoever is inside stays
there. -/
structure Quiet (s s' : State) : Prop where
  inside : s'.inside = none ∨ (s'.inside = s.inside ∧ ∀ t m, s.calls t = some m → s'.calls t = some m)
  stopping : s'.flags.stopping = s.flags.stopping
  ready : s'.flags.ready = s.flags.ready
  log : s'.log = s.log ∨ ∃ e, s'.log = e :: s.log ∧ Seen s e

theorem Quiet.mem {s s' : State} (q : Quiet s s') {e : Event} (h : e ∈ s.log) : e ∈ s'.log := by
  rcases q.log with hsame | ⟨e', hcons, _⟩
  · rwa [hsame]
  · rw [hcons]
    exact List.mem_cons_of_mem e' h

theorem Quiet.backed {s s' : State} (q : Quiet s s') (h : Backed s.log) : Backed s'.log := by
  rcases q.log with hsame | ⟨e, hcons, _⟩
  · rwa [hsame]
  · rw [hcons]
    exact h.cons e

/-- What is left to show of a quiet step is about where the threads stand. -/
theorem Inv.quiet {s s' : State} (h : Inv s) (q : Quiet s s')
    (hrun : s'.run = .marking → s.run = .marking ∨ Backed s'.log)
    (hwatcher : s'.watcher = .marking → s.watcher = .marking ∨ Backed s'.log)
    (hstarted : s'.flags.fetchStarted = true → s.flags.fetchStarted = true ∨ .looping ∈ s'.log)
    (hasking : s'.watcher = .asking → s.watcher = .asking ∨ .looping ∈ s'.log)
    (hentry : s'.run = .entry → Idle s')
    (hfresh : s'.run = .starting ∨ s'.run = .spawning →
      s'.log = [] ∧ s'.watcher = .absent ∧ s'.callback = .unregistered)
    (hspawned : s'.run = .registering → s'.callback = .unregistered)
    (hreturned : ∀ exit, s'.run = .returned exit → .stopped .run ∈ s'.log ∨ Idle s') : Inv s' := by
  -- the flags stay, and the log grows by one entry at most
  refine ⟨fun t rest hin => ?_, fun hready => ?_, fun t hcalls => ?_, fun hs => ?_, fun ha => ?_, ?_, fun t hmem => ?_,
    hentry, hfresh, hspawned, hreturned⟩
  · rcases q.inside with hnone | ⟨hsame, hkept⟩
    · exact absurd (hnone.symm.trans hin) nofun
    · obtain ⟨m, hcalls, hheld⟩ := h.inside t rest (hsame ▸ hin)
      exact ⟨m, hkept t m hcalls, hheld.congr q.stopping q.ready⟩
  · apply q.backed
    exact h.backed (q.ready ▸ hready)
  · rcases calls_cases hcalls with ⟨_, _, hm⟩ | ⟨_, hmark, _⟩ | ⟨_, _, hm⟩ | ⟨_, hmark, _⟩ | ⟨_, _, hm⟩
    · cases hm
    · exact (hrun hmark).elim (fun hold => q.backed (h.marking .run (by simp [State.calls, hold]))) id
    · cases hm
    · exact (hwatcher hmark).elim (fun hold => q.backed (h.marking .watcher (by simp [State.calls, hold]))) id
    · cases hm
  · exact (hstarted hs).elim (fun hold => q.mem (h.started hold)) id
  · exact (hasking ha).elim (fun hold => q.mem (h.asking hold)) id
  · rcases q.log with hsame | ⟨e, hcons, hseen⟩
    · rw [hsame]
      exact h.asked
    · rw [hcons]
      refine h.asked.cons fun t n he => ?_
      subst he
      exact hseen
  · rw [q.stopping, q.ready]
    rcases q.log with hsame | ⟨e, hcons, hseen⟩
    · exact h.stopped t (hsame ▸ hmem)
    · rw [hcons] at hmem
      rcases List.mem_cons.mp hmem with rfl | hold
      · exact hseen
      · exact h.stopped t hold

/-- A step of the fetch loop outside the mutex keeps what the others call. -/
theorem calls_of_run {s s' : State} (hrun : s.calls .run = none) (hwatcher : s'.calls .watcher = s.calls .watcher)
    (hcallback : s'.calls .callback = s.calls .callback) : ∀ t m, s.calls t = some m → s'.calls t = some m := by
  intro t m hcalls
  cases t with
  | run => rw [hrun] at hcalls; cases hcalls
  | watcher => exact hwatcher.trans hcalls
  | callback => exact hcallback.trans hcalls

/-- The places of `Run` of which the invariant says nothing. -/
def RunAt.Plain (r : RunAt) : Prop :=
  r ≠ .entry ∧ r ≠ .starting ∧ r ≠ .spawning ∧ r ≠ .registering ∧ r ≠ .marking ∧ ∀ exit, r ≠ .returned exit

theorem plain_looping : RunAt.looping.Plain := ⟨nofun, nofun, nofun, nofun, nofun, nofun⟩

theorem plain_fetching : RunAt.fetching.Plain := ⟨nofun, nofun, nofun, nofun, nofun, nofun⟩

theorem plain_deregistering (exit : Exit) : (RunAt.deregistering exit).Plain :=
  ⟨nofun, nofun, nofun, nofun, nofun, nofun⟩

/-- **The fetch loop goes to such a place.** -/
theorem Inv.plain {s s' : State} (h : Inv s) (q : Quiet s s') (hwatcher : s'.watcher = s.watcher)
    (hstarted : s'.flags.fetchStarted = true → s.flags.fetchStarted = true ∨ .looping ∈ s'.log)
    (hplain : s'.run.Plain) : Inv s' := by
  obtain ⟨hentry, hstarting, hspawning, hregistering, hmarking, hreturned⟩ := hplain
  exact h.quiet q (fun hf => absurd hf hmarking) (fun hm => Or.inl (hwatcher ▸ hm)) hstarted
    (fun ha => Or.inl (hwatcher ▸ ha)) (fun hf => absurd hf hentry) (fun hf => (hf.elim hstarting hspawning).elim)
    (fun hf => absurd hf hregistering) (fun exit hf => absurd hf (hreturned exit))

theorem Inv.advance {recordTimeout : Int} {s s' : State} (h : Inv s) (hstep : s.advance recordTimeout = some s') :
    Inv s' := by
  -- one case for each place of `Run`, in the order of the source
  unfold State.advance at hstep
  split at hstep
  · next hrun =>
    obtain rfl := Option.some.inj hstep
    have hidle := h.entry hrun
    have hnone : s.calls .run = none := by simp [State.calls, hrun]
    by_cases htimeout : recordTimeout ≤ 0
    · -- the timeout is refused before anything begins
      rw [if_pos htimeout]
      exact h.quiet ⟨Or.inr ⟨rfl, calls_of_run hnone rfl rfl⟩, rfl, rfl, Or.inl rfl⟩ nofun Or.inl Or.inl Or.inl nofun
        (fun hf => by rcases hf with hf | hf <;> cases hf) nofun (fun _ _ => Or.inr hidle)
    · rw [if_neg htimeout]
      exact h.quiet ⟨Or.inr ⟨rfl, calls_of_run hnone rfl rfl⟩, rfl, rfl, Or.inl rfl⟩ nofun Or.inl Or.inl Or.inl nofun
        (fun _ => ⟨hidle.1, hidle.2.1, hidle.2.2.1⟩) nofun nofun
  · next hrun =>
    obtain rfl := Option.some.inj hstep
    obtain ⟨_, hwatcher, hcallback⟩ := h.fresh (Or.inr hrun)
    have hnone : s.calls .run = none := by simp [State.calls, hrun]
    have habsent : s.calls .watcher = none := by simp [State.calls, hwatcher]
    exact h.quiet ⟨Or.inr ⟨rfl, calls_of_run hnone habsent.symm rfl⟩, rfl, rfl, Or.inl rfl⟩ nofun nofun Or.inl nofun nofun
      (fun hf => by rcases hf with hf | hf <;> cases hf) (fun _ => hcallback) nofun
  · next hrun =>
    obtain rfl := Option.some.inj hstep
    have hnone : s.calls .run = none := by simp [State.calls, hrun]
    have hunregistered : s.calls .callback = none := by simp [State.calls, h.spawned hrun]
    exact h.plain ⟨Or.inr ⟨rfl, calls_of_run hnone rfl hunregistered.symm⟩, rfl, rfl, Or.inl rfl⟩ rfl Or.inl plain_looping
  · next hrun =>
    obtain rfl := Option.some.inj hstep
    have hnone : s.calls .run = none := by simp [State.calls, hrun]
    exact h.plain ⟨Or.inr ⟨rfl, calls_of_run hnone rfl rfl⟩, rfl, rfl, Or.inr ⟨.looping, rfl, trivial⟩⟩ rfl
      (fun _ => Or.inr (List.mem_cons_self ..)) plain_fetching
  · next exit hrun =>
    obtain rfl := Option.some.inj hstep
    have hnone : s.calls .run = none := by simp [State.calls, hrun]
    have hcallback : (if s.callback = .registered then CallbackAt.removed else s.callback) = .stopping ↔
        s.callback = .stopping := by split <;> simp_all
    refine h.plain ⟨Or.inr ⟨rfl, calls_of_run hnone rfl ?_⟩, rfl, rfl, Or.inl rfl⟩ rfl Or.inl
      ⟨nofun, nofun, nofun, nofun, nofun, nofun⟩
    simp only [State.calls, hcallback]
  · next exit hrun =>
    obtain rfl := Option.some.inj hstep
    have hnone : s.calls .run = none := by simp [State.calls, hrun]
    exact h.plain ⟨Or.inr ⟨rfl, calls_of_run hnone rfl rfl⟩, rfl, rfl, Or.inl rfl⟩ rfl Or.inl
      ⟨nofun, nofun, nofun, nofun, nofun, nofun⟩
  · next exit hrun =>
    split at hstep
    · obtain rfl := Option.some.inj hstep
      have hnone : s.calls .run = none := by simp [State.calls, hrun]
      exact h.plain ⟨Or.inr ⟨rfl, calls_of_run hnone rfl rfl⟩, rfl, rfl, Or.inl rfl⟩ rfl Or.inl
        ⟨nofun, nofun, nofun, nofun, nofun, nofun⟩
    · cases hstep
  · cases hstep

theorem plain_next (ctxDone : Bool) (result : Processed) : (result.next ctxDone).Plain := by
  cases result with
  | done =>
      show (if ctxDone then RunAt.deregistering .stopped else .looping).Plain
      split
      · exact plain_deregistering _
      · exact plain_looping
  | contextError => exact plain_deregistering _
  | failed => exact plain_deregistering _

theorem Inv.fetch {s : State} (h : Inv s) (hrun : s.run = .fetching) (result : Fetched) : Inv { s with
    run := result.next, log := if result = .message then .fetched :: s.log else s.log } := by
  have hnone : s.calls .run = none := by simp [State.calls, hrun]
  cases result with
  | message =>
      exact h.quiet ⟨Or.inr ⟨rfl, calls_of_run hnone rfl rfl⟩, rfl, rfl, Or.inr ⟨.fetched, rfl, trivial⟩⟩
        (fun _ => Or.inr (Or.inl (List.mem_cons_self ..))) Or.inl Or.inl Or.inl nofun
        (fun hf => by rcases hf with hf | hf <;> cases hf) nofun nofun
  | contextError =>
      exact h.plain ⟨Or.inr ⟨rfl, calls_of_run hnone rfl rfl⟩, rfl, rfl, Or.inl rfl⟩ rfl Or.inl (plain_deregistering _)
  | failed =>
      exact h.plain ⟨Or.inr ⟨rfl, calls_of_run hnone rfl rfl⟩, rfl, rfl, Or.inl rfl⟩ rfl Or.inl (plain_deregistering _)

/-- While `Run` has not got past its entry there is no watcher to take a step. -/
theorem Inv.present {s : State} (h : Inv s) (hwatcher : s.watcher ≠ .absent) :
    s.run ≠ .entry ∧ s.run ≠ .starting ∧ s.run ≠ .spawning ∧ ¬ Idle s :=
  ⟨fun hrun => hwatcher (h.entry hrun).2.1, fun hrun => hwatcher (h.fresh (Or.inl hrun)).2.1,
    fun hrun => hwatcher (h.fresh (Or.inr hrun)).2.1, fun hidle => hwatcher hidle.2.1⟩

/-- **The watcher moves outside the mutex.** -/
theorem Inv.watch {s : State} (h : Inv s) (hwatcher : s.watcher ≠ .absent) (hmarking : s.watcher ≠ .marking)
    (w : WatcherAt) (log : List Event)
    (hlog : log = s.log ∨ ∃ e, log = e :: s.log ∧ Seen s e)
    (hmark : w = .marking → Backed log) (hask : w = .asking → .looping ∈ log) :
    Inv { s with watcher := w, log := log } := by
  obtain ⟨hentry, hstarting, hspawning, hidle⟩ := h.present hwatcher
  have hcalls : ∀ t m, s.calls t = some m → State.calls { s with watcher := w, log := log } t = some m := by
    intro t m hm
    cases t with
    | run => exact hm
    | watcher => exact absurd hm (by simp [State.calls, hmarking])
    | callback => exact hm
  have q : Quiet s { s with watcher := w, log := log } := ⟨Or.inr ⟨rfl, hcalls⟩, rfl, rfl, hlog⟩
  refine h.quiet q Or.inl (fun hm => Or.inr (hmark hm)) Or.inl (fun ha => Or.inr (hask ha))
    (fun hf => absurd hf hentry) (fun hf => (hf.elim hstarting hspawning).elim) h.spawned (fun exit hf => Or.inl ?_)
  exact q.mem ((h.returned exit hf).resolve_right hidle)

/-- The context or its callback moves outside the mutex. -/
theorem Inv.outside {s : State} (h : Inv s) (c : CallbackAt) (done : Bool)
    (hc : c = s.callback ∨ (s.callback = .registered ∧ c = .stopping)) :
    Inv { s with callback := c, ctxDone := done } := by
  have hcalls : ∀ t m, s.calls t = some m → State.calls { s with callback := c, ctxDone := done } t = some m := by
    intro t m hm
    cases t with
    | run => exact hm
    | watcher => exact hm
    | callback =>
        rcases hc with rfl | ⟨hregistered, rfl⟩
        · exact hm
        · exact absurd hm (by simp [State.calls, hregistered])
  have hunregistered : s.callback = .unregistered → c = .unregistered := by
    rcases hc with rfl | ⟨hregistered, rfl⟩
    · exact id
    · exact fun hf => absurd (hregistered.symm.trans hf) nofun
  have hidle : Idle s → Idle { s with callback := c, ctxDone := done } :=
    fun hi => ⟨hi.1, hi.2.1, hunregistered hi.2.2.1, hi.2.2.2⟩
  exact h.quiet ⟨Or.inr ⟨rfl, hcalls⟩, rfl, rfl, Or.inl rfl⟩ Or.inl Or.inl Or.inl Or.inl (fun hf => hidle (h.entry hf))
    (fun hf => ⟨(h.fresh hf).1, (h.fresh hf).2.1, hunregistered (h.fresh hf).2.2⟩)
    (fun hf => hunregistered (h.spawned hf)) (fun exit hf => (h.returned exit hf).imp_right hidle)

/-- Before the first method is called nobody calls any, and behind a refused call nobody ever does. -/
theorem Idle.calls {s : State} (h : Idle s) (hrun : s.calls .run = none) (t : Thread) : s.calls t = none := by
  cases t with
  | run => exact hrun
  | watcher => simp [State.calls, h.2.1]
  | callback => simp [State.calls, h.2.2.1]

theorem Inv.enter {s : State} (h : Inv s) {t : Thread} {m : Method} (hcalls : s.calls t = some m) :
    Inv { s with inside := some (t, m.body) } := by
  have hbusy : s.calls .run = none → ¬ Idle s := fun hrun hidle => by
    rw [hidle.calls hrun t] at hcalls
    cases hcalls
  refine { h with inside := ?_, entry := fun hrun => ?_, returned := fun exit hrun => Or.inl ?_ }
  · intro t' rest hin
    obtain ⟨rfl, rfl⟩ := Prod.mk.inj (Option.some.inj hin)
    exact ⟨m, hcalls, .entered m⟩
  · exact absurd (h.entry hrun) (hbusy (by simp [State.calls, show s.run = .entry from hrun]))
  · exact (h.returned exit hrun).resolve_right (hbusy (by simp [State.calls, show s.run = .returned exit from hrun]))

theorem Inv.act {s : State} (h : Inv s) {t : Thread} {effect : Effect} {rest : List Effect}
    (hin : s.inside = some (t, effect :: rest)) : Inv { s with
      flags := (effect.run s.flags rest).1, inside := some (t, (effect.run s.flags rest).2) } := by
  obtain ⟨m, hcalls, hheld⟩ := h.inside t _ hin
  have hbusy : ¬ Idle s := fun hidle => absurd (hin.symm.trans hidle.2.2.2.1) nofun
  have honward := hheld.onward
  refine { h with inside := ?_, backed := fun hready => ?_, started := fun hs => ?_, stopped := fun u hmem => ?_,
                  entry := fun hrun => ?_, returned := fun exit hrun => Or.inl ?_ }
  · intro t' rest' hin'
    obtain ⟨rfl, rfl⟩ := Prod.mk.inj (Option.some.inj hin')
    exact ⟨m, hcalls, hheld.act⟩
  · rcases honward.ready hready with hold | rfl
    · exact h.backed hold
    · exact h.marking t hcalls
  · exact h.started (honward.fetchStarted hs)
  · have hlater : m ≠ .startReadiness := by
      rintro rfl
      rcases calls_cases hcalls with ⟨_, hrun, _⟩ | ⟨_, _, hm⟩ | ⟨_, _, hm⟩ | ⟨_, _, hm⟩ | ⟨_, _, hm⟩
      · have hmem : Event.stopped u ∈ s.log := hmem
        rw [(h.fresh (Or.inl hrun)).1] at hmem
        cases hmem
      all_goals cases hm
    obtain ⟨hstopping, hready⟩ := h.stopped u hmem
    exact (honward.stopping hlater hstopping).imp_right fun hkeep => hkeep hready
  · exact absurd (h.entry hrun) hbusy
  · exact (h.returned exit hrun).resolve_right hbusy

/-- A finished `stopReadiness` has done its work. -/
theorem Held.of_stopReadiness {flags : Flags} (h : Held flags .stopReadiness []) :
    flags.stopping = true ∧ flags.ready = false := by
  cases h with
  | stopped hstopping hready => exact ⟨hstopping, hready⟩

theorem Inv.leave {s : State} (h : Inv s) {t : Thread} (hin : s.inside = some (t, [])) :
    Inv ({ s with inside := none }.resume t) := by
  obtain ⟨m, hcalls, hheld⟩ := h.inside t _ hin
  have hbusy : ¬ Idle s := fun hidle => absurd (hin.symm.trans hidle.2.2.2.1) nofun
  rcases calls_cases hcalls with ⟨rfl, hrun, rfl⟩ | ⟨rfl, hrun, rfl⟩ | ⟨rfl, ⟨exit, hrun⟩, rfl⟩ |
    ⟨rfl, hwatcher, rfl⟩ | ⟨rfl, hcallback, rfl⟩
  · have hresume : { s with inside := none }.resume .run = { s with inside := none, run := .spawning } := by
      simp [State.resume, hrun]
    rw [hresume]
    exact h.quiet ⟨Or.inl rfl, rfl, rfl, Or.inl rfl⟩ nofun Or.inl Or.inl Or.inl nofun
      (fun _ => h.fresh (Or.inl hrun)) nofun nofun
  · have hresume : { s with inside := none }.resume .run = { s with inside := none, run := .processing } := by
      simp [State.resume, hrun]
    rw [hresume]
    exact h.plain ⟨Or.inl rfl, rfl, rfl, Or.inl rfl⟩ rfl Or.inl ⟨nofun, nofun, nofun, nofun, nofun, nofun⟩
  · have hresume : { s with inside := none }.resume .run =
        { s with inside := none, run := .returned exit, log := .stopped .run :: s.log } := by
      simp [State.resume, hrun]
    rw [hresume]
    exact h.quiet ⟨Or.inl rfl, rfl, rfl, Or.inr ⟨.stopped .run, rfl, hheld.of_stopReadiness⟩⟩ nofun Or.inl Or.inl Or.inl
      nofun (fun hf => by rcases hf with hf | hf <;> cases hf) nofun (fun _ _ => Or.inl (List.mem_cons_self ..))
  · obtain ⟨hentry, hstarting, hspawning, hidle⟩ := h.present (by rw [hwatcher]; exact nofun)
    exact h.quiet ⟨Or.inl rfl, rfl, rfl, Or.inl rfl⟩ Or.inl nofun Or.inl nofun (fun hf => absurd hf hentry)
      (fun hf => (hf.elim hstarting hspawning).elim) h.spawned
      (fun e hf => Or.inl ((h.returned e hf).resolve_right hidle))
  · have hregistered : s.callback ≠ .unregistered := by rw [hcallback]; exact nofun
    refine h.quiet ⟨Or.inl rfl, rfl, rfl, Or.inr ⟨.stopped .callback, rfl, hheld.of_stopReadiness⟩⟩ Or.inl Or.inl Or.inl
      Or.inl (fun hf => absurd (h.entry hf).2.2.1 hregistered) (fun hf => absurd (h.fresh hf).2.2 hregistered)
      (fun hf => absurd (h.spawned hf) hregistered) (fun e hf => Or.inl (List.mem_cons_of_mem _ ?_))
    exact (h.returned e hf).resolve_right hbusy

/-- **Every step keeps the invariant.** -/
theorem Inv.step {recordTimeout : Int} {s s' : State} (h : Inv s) {move : Move}
    (hstep : step recordTimeout s move = some s') : Inv s' := by
  -- `Run` and the two gauges have their own lemmas; what is left moves the watcher or the callback
  cases move with
  | run => exact h.advance hstep
  | fetch result =>
      obtain ⟨hrun, heq⟩ := Option.ite_none_right_eq_some.mp hstep
      exact Option.some.inj heq ▸ h.fetch hrun result
  | process result =>
      obtain ⟨hrun, heq⟩ := Option.ite_none_right_eq_some.mp hstep
      obtain rfl := Option.some.inj heq
      have hnone : s.calls .run = none := by simp [State.calls, hrun]
      exact h.plain ⟨Or.inr ⟨rfl, calls_of_run hnone rfl rfl⟩, rfl, rfl, Or.inl rfl⟩ rfl Or.inl (plain_next _ result)
  | enter t =>
      obtain ⟨_, heq⟩ := Option.ite_none_right_eq_some.mp hstep
      obtain ⟨m, hcalls, rfl⟩ := Option.map_eq_some_iff.mp heq
      exact h.enter hcalls
  | act =>
      simp only [Readiness.step] at hstep
      split at hstep
      · next hin => exact Option.some.inj hstep ▸ h.act hin
      · cases hstep
  | leave =>
      simp only [Readiness.step] at hstep
      split at hstep
      · next hin => exact Option.some.inj hstep ▸ h.leave hin
      · cases hstep
  | load =>
      obtain ⟨hwatcher, heq⟩ := Option.ite_none_right_eq_some.mp hstep
      obtain rfl := Option.some.inj heq
      refine h.watch (by rw [hwatcher]; exact nofun) (by rw [hwatcher]; exact nofun) _ s.log (Or.inl rfl) ?_ ?_
      · split <;> exact nofun
      · intro hask
        by_cases hstarted : s.flags.fetchStarted = true
        · exact h.started hstarted
        · rw [if_neg hstarted] at hask
          cases hask
  | stats n =>
      obtain ⟨hwatcher, heq⟩ := Option.ite_none_right_eq_some.mp hstep
      obtain rfl := Option.some.inj heq
      -- the watcher asks for statistics only after it saw that fetching has begun
      have hlooping := h.asking hwatcher
      refine h.watch (by rw [hwatcher]; exact nofun) (by rw [hwatcher]; exact nofun) _ _
        (Or.inr ⟨_, rfl, rfl, hlooping⟩) ?_ (fun _ => List.mem_cons_of_mem _ hlooping)
      intro hmark
      by_cases hn : 0 < n
      · exact Or.inr ⟨n, [], s.log, hn, rfl, hlooping⟩
      · rw [if_neg hn] at hmark
        cases hmark
  | tick =>
      obtain ⟨hwatcher, heq⟩ := Option.ite_none_right_eq_some.mp hstep
      obtain rfl := Option.some.inj heq
      exact h.watch (by rw [hwatcher]; exact nofun) (by rw [hwatcher]; exact nofun) _ s.log (Or.inl rfl) nofun nofun
  | joinDone =>
      obtain ⟨⟨hwatcher, _⟩, heq⟩ := Option.ite_none_right_eq_some.mp hstep
      obtain rfl := Option.some.inj heq
      exact h.watch (by rw [hwatcher]; exact nofun) (by rw [hwatcher]; exact nofun) _ s.log (Or.inl rfl) nofun nofun
  | fire =>
      obtain ⟨⟨hregistered, _⟩, heq⟩ := Option.ite_none_right_eq_some.mp hstep
      obtain rfl := Option.some.inj heq
      exact h.outside .stopping s.ctxDone (Or.inr ⟨hregistered, rfl⟩)
  | cancel =>
      obtain rfl := Option.some.inj hstep
      exact h.outside s.callback true (Or.inl rfl)

theorem inv_of_reachable {recordTimeout : Int} {s : State} (hs : (consumer recordTimeout).Reachable s) : Inv s := by
  refine System.invariant (fun s₀ h₀ => ?_) (fun u v _ h hstep => ?_) hs
  · obtain rfl : s₀ = initial := h₀
    exact inv_initial
  · obtain ⟨move, hmove⟩ := hstep
    exact h.step hmove

/-! ## What is over stays over -/

/-- What was seen stays seen, and who has returned stays so. -/
structure Kept (s s' : State) : Prop where
  log : s.log ⊆ s'.log
  returned : ∀ exit, s.run = .returned exit → s'.run = .returned exit

theorem kept_resume (s : State) (t : Thread) : Kept s ({ s with inside := none }.resume t) := by
  cases t with
  | run =>
      unfold State.resume
      simp only
      split
      · next hrun => exact ⟨fun _ h => h, fun exit hf => absurd (hrun.symm.trans hf) nofun⟩
      · next hrun => exact ⟨fun _ h => h, fun exit hf => absurd (hrun.symm.trans hf) nofun⟩
      · next hrun => exact ⟨List.subset_cons_self .., fun exit hf => absurd (hrun.symm.trans hf) nofun⟩
      · exact ⟨fun _ h => h, fun _ h => h⟩
  | watcher => exact ⟨fun _ h => h, fun _ h => h⟩
  | callback => exact ⟨List.subset_cons_self .., fun _ h => h⟩

theorem kept_advance {recordTimeout : Int} {s s' : State} (hstep : s.advance recordTimeout = some s') : Kept s s' := by
  have hreturned : ∀ exit, s.run ≠ .returned exit := by
    intro exit hrun
    rw [State.advance, hrun] at hstep
    cases hstep
  refine ⟨?_, fun exit hf => absurd hf (hreturned exit)⟩
  unfold State.advance at hstep
  split at hstep
  · obtain rfl := Option.some.inj hstep
    split <;> exact fun _ h => h
  · exact Option.some.inj hstep ▸ fun _ h => h
  · exact Option.some.inj hstep ▸ fun _ h => h
  · exact Option.some.inj hstep ▸ List.subset_cons_self ..
  · exact Option.some.inj hstep ▸ fun _ h => h
  · exact Option.some.inj hstep ▸ fun _ h => h
  · obtain ⟨_, heq⟩ := Option.ite_none_right_eq_some.mp hstep
    exact Option.some.inj heq ▸ fun _ h => h
  · cases hstep

theorem kept_step {recordTimeout : Int} {s s' : State} {move : Move} (hstep : step recordTimeout s move = some s') :
    Kept s s' := by
  -- the log only grows, and a `Run` that has returned stays where it is
  cases move with
  | run => exact kept_advance hstep
  | fetch result =>
      obtain ⟨hrun, heq⟩ := Option.ite_none_right_eq_some.mp hstep
      obtain rfl := Option.some.inj heq
      refine ⟨?_, fun exit hf => absurd (hrun.symm.trans hf) nofun⟩
      show s.log ⊆ if result = .message then .fetched :: s.log else s.log
      split
      · exact List.subset_cons_self ..
      · exact fun _ h => h
  | process result =>
      obtain ⟨hrun, heq⟩ := Option.ite_none_right_eq_some.mp hstep
      obtain rfl := Option.some.inj heq
      exact ⟨fun _ h => h, fun exit hf => absurd (hrun.symm.trans hf) nofun⟩
  | enter t =>
      obtain ⟨_, heq⟩ := Option.ite_none_right_eq_some.mp hstep
      obtain ⟨m, _, rfl⟩ := Option.map_eq_some_iff.mp heq
      exact ⟨fun _ h => h, fun _ h => h⟩
  | act =>
      simp only [step] at hstep
      split at hstep
      · obtain rfl := Option.some.inj hstep
        exact ⟨fun _ h => h, fun _ h => h⟩
      · cases hstep
  | leave =>
      simp only [step] at hstep
      split at hstep
      · exact Option.some.inj hstep ▸ kept_resume s _
      · cases hstep
  | stats n =>
      obtain ⟨_, heq⟩ := Option.ite_none_right_eq_some.mp hstep
      obtain rfl := Option.some.inj heq
      exact ⟨List.subset_cons_self .., fun _ h => h⟩
  | load | tick | joinDone | fire =>
      obtain ⟨_, heq⟩ := Option.ite_none_right_eq_some.mp hstep
      obtain rfl := Option.some.inj heq
      exact ⟨fun _ h => h, fun _ h => h⟩
  | cancel =>
      obtain rfl := Option.some.inj hstep
      exact ⟨fun _ h => h, fun _ h => h⟩

theorem kept_later {recordTimeout : Int} {s u : State} (hs : (consumer recordTimeout).Reachable s)
    (h : (consumer recordTimeout).Later s u) : Kept s u := by
  refine System.later hs ⟨fun _ h => h, fun _ h => h⟩ (fun v w _ hkept hstep => ?_) h
  obtain ⟨move, hmove⟩ := hstep
  have hnext := kept_step hmove
  exact ⟨List.Subset.trans hkept.log hnext.log, fun exit hf => hnext.returned exit (hkept.returned exit hf)⟩

/-! ## Readiness -/

/-- **Readiness never lies**, now and at every later moment. -/
structure Truthful (recordTimeout : Int) (s : State) : Prop where
  /-- Ready only after a message or a reported rebalance. -/
  backed : s.flags.ready = true → Backed s.log
  /-- Behind the callback or the cleanup, never ready again. -/
  stopped : ∀ t u, .stopped t ∈ s.log → (consumer recordTimeout).Later s u → u.flags.ready = false
  returned : ∀ exit u, s.run = .returned exit → (consumer recordTimeout).Later s u → u.flags.ready = false
  asked : Asked s.log

/-- **At every moment of every run of a consumer readiness is truthful.** -/
theorem truthful_of_reachable {recordTimeout : Int} {s : State} (hs : (consumer recordTimeout).Reachable s) :
    Truthful recordTimeout s where
  backed := (inv_of_reachable hs).backed
  stopped := by
    intro t u hstopped hlater
    have hu := inv_of_reachable (hs.later hlater)
    exact (hu.stopped t ((kept_later hs hlater).log hstopped)).2
  returned := by
    intro exit u hreturned hlater
    have hu := inv_of_reachable (hs.later hlater)
    rcases hu.returned exit ((kept_later hs hlater).returned exit hreturned) with hstopped | hidle
    · exact (hu.stopped .run hstopped).2
    · exact hidle.2.2.2.2
  asked := (inv_of_reachable hs).asked

/-- A run: the watcher finds the group joined and makes ready, a message is fetched while the context ends, and
the watcher's cleanup and the callback both come through. -/
def shutdown : List Move :=
  [.run, .enter .run, .act, .act, .act, .leave, .run, .load, .run, .run, .tick, .load, .stats 1, .enter .watcher, .act,
   .act, .leave, .cancel, .fetch .message, .fire, .enter .callback, .act, .act, .leave, .enter .run, .act, .leave,
   .process .done, .run, .run, .run, .enter .run, .act, .act, .leave]

theorem truthful_of_reachable_shutdown : ∃ s, System.play (step 1) initial shutdown = some s ∧
    s.run = .returned .stopped ∧ Truthful 1 s := by
  obtain ⟨s, hplay, hrun⟩ : ∃ s, System.play (step 1) initial shutdown = some s ∧ s.run = .returned .stopped :=
    ⟨_, rfl, rfl⟩
  exact ⟨s, hplay, hrun, truthful_of_reachable ⟨initial, rfl, System.later_of_play hplay⟩⟩

end LocalPlatform.Relay.Delivery.Readiness
