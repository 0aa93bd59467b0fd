/-
# LocalPlatform.LiveRun.Executor — the controller with `processExecutor`, and the processes it starts.

The controller's goroutine, every call of `Run` and the operating system take steps in any order.  What
`processExecutor` does under its mutex is one step; the rest of `Run` goes one system call at a time.  A
process group is a number of members: the first comes with the start, members fork and exit as they like,
and a group without members is gone.  The kernel answers ESRCH for a group that has none, and for no
other; a pid is given out only where no group has it.

The log keeps what a reader of the process table would see: which command was started, whose group was
seen empty, which call gave up, and whose group a stop signal was sent to.
-/
import LocalPlatform.LiveRun.Discipline
import LocalPlatform.Logic.Transition
import Mathlib.Logic.Function.Basic

namespace LocalPlatform.LiveRun

open Codec Logic

namespace Executor

/-! ## `Run` -/

/-- Where a call of `Run` is. -/
inductive Stage where
  | entered
  /-- Started; a pended signal was taken and is still to be sent. -/
  | signalling (group : Nat) (signal : Sig)
  | waiting (group : Nat)
  /-- `waitForGroupExit`, before it looks at the group. -/
  | draining (group : Nat) (status : Int) (killed : Bool)
  /-- `waitForGroupExit`, after it found the group not gone. -/
  | late (group : Nat) (status : Int) (killed : Bool)
  | confirmed (group : Nat) (status : Int)
  | returned (outcome : ExecutionResult)
  deriving DecidableEq, Repr

/-- A call of `Run`. -/
structure Call where
  command : Command
  stage : Stage
  deriving DecidableEq, Repr

/-- What the process table shows, newest first. -/
inductive Entry where
  | started (call : Nat) (command : Command)
  | emptied (call : Nat)
  | unconfirmed (call : Nat)
  /-- A stop signal is sent to the group of a command. -/
  | stop (command : Option Command)
  deriving DecidableEq, Repr

/-- The executor, its calls and the processes. -/
structure World where
  calls : Nat → Option Call
  count : Nat
  /-- `e.child`: the call, and its process group. -/
  child : Option (Nat × Nat)
  /-- `e.pending`. -/
  pending : Option Sig
  /-- How many members a process group has. -/
  members : Nat → Nat
  /-- Whose command the group was started for last. -/
  owner : Nat → Option Command
  log : List Entry

namespace World

def initial : World := ⟨fun _ => none, 0, none, none, fun _ => 0, fun _ => none, []⟩

/-- Call `i` goes to a stage. -/
def become (w : World) (i : Nat) (call : Call) : World := { w with calls := Function.update w.calls i (some call) }

/-- The log grows. -/
def note (w : World) (entry : Entry) : World := { w with log := entry :: w.log }

/-- Call `i` gives up: its group may still have members. -/
def giveUp (w : World) (i : Nat) (command : Command) (err : Bytes) : World :=
  (w.become i ⟨command, .returned ⟨127, some err⟩⟩).note (.unconfirmed i)

/-- Call `i` has seen its group empty. -/
def confirm (w : World) (i : Nat) (command : Command) (group : Nat) (status : Int) : World :=
  (w.become i ⟨command, .confirmed group status⟩).note (.emptied i)

/-- The last call's result, once it has returned. -/
def outcome (w : World) : Option ExecutionResult :=
  match w.calls (w.count - 1) with
  | some ⟨_, .returned outcome⟩ => some outcome
  | _ => none

/-- **`Signal`**: to the registered child, or pended for the next. -/
def signal (w : World) (signal : Sig) : World :=
  match w.child with
  | none => { w with pending := some signal }
  | some (_, group) => w.note (.stop (w.owner group))

end World

/-- What the system decides for the next step of a call. -/
inductive Choice where
  | startFails
  | start (group : Nat)
  /-- `Wait` returns, with the command's status. -/
  | wait (status : Int)
  /-- The group is looked at, or killed; the text is that of an error that is neither ESRCH nor EPERM. -/
  | look (err : Option Bytes)
  /-- The deadline is not reached yet. -/
  | sleep
  | go

/-- **`Run`**, one step of call `i`. -/
def callStep (w : World) (i : Nat) (call : Call) : Choice → Option World
  | choice =>
  match call.stage, choice with
  | .entered, choice =>
    match w.child, choice with
    | some _, .go => some (w.giveUp i call.command (ascii "process exit could not be confirmed"))
    | none, .startFails =>
      some ({ w with pending := none }.become i ⟨call.command, .returned ⟨127, none⟩⟩)
    | none, .start group =>
      if w.members group = 0 then
        -- the pended signal is taken under the same lock
        let stage := match w.pending with
          | some signal => Stage.signalling group signal
          | none => .waiting group
        some (({ w with
          child := some (i, group)
          pending := none
          members := Function.update w.members group 1
          owner := Function.update w.owner group (some call.command) }.become i ⟨call.command, stage⟩).note
            (.started i call.command))
      else none
    | _, _ => none
  | .signalling group _, .go => some ((w.become i ⟨call.command, .waiting group⟩).note (.stop (w.owner group)))
  | .waiting group, .wait status => some (w.become i ⟨call.command, .draining group status false⟩)
  | .draining group status killed, .look err =>
    if w.members group = 0 then some (w.confirm i call.command group status)
    else match err with
      | some err => some (w.giveUp i call.command err)
      | none => some (w.become i ⟨call.command, .late group status killed⟩)
  | .late group status killed, .sleep => some (w.become i ⟨call.command, .draining group status killed⟩)
  | .late group status killed, .look err =>
    -- the deadline has passed: SIGKILL, or nothing is left to try
    if killed then some (w.giveUp i call.command (ascii "process exit could not be confirmed: still has members after SIGKILL"))
    else if w.members group = 0 then some (w.confirm i call.command group status)
    else match err with
      | some err => some (w.giveUp i call.command err)
      | none => some (w.become i ⟨call.command, .draining group status true⟩)
  | .confirmed _ status, .go =>
    some ({ w with child := if w.child.map Prod.fst = some i then none else w.child }.become i
      ⟨call.command, .returned ⟨status, none⟩⟩)
  | _, _ => none

/-! ## The controller's side -/

/-- What a question of the controller does to the executor; `none` where it cannot be answered so. -/
def effect (w : World) : (q : Ask) → q.Answer → Option World
  | .run command, _ =>
    some { w with calls := Function.update w.calls w.count (some ⟨command, .entered⟩), count := w.count + 1 }
  | .result, outcome => if w.outcome = some outcome then some w else none
  | .applying, .result outcome => if w.outcome = some outcome then some w else none
  | .stopping, .result outcome => if w.outcome = some outcome then some w else none
  -- `Run` may have returned, and its result not been sent yet
  | .ready, none => some w
  | .ready, some outcome => if w.outcome = some outcome then some w else none
  | .signal signal, _ => some (w.signal signal)
  | .clearPending, _ => some { w with pending := none }
  | _, _ => some w

/-- The controller's program, as far as it has come, and the executor. -/
structure State where
  code : Live (Controller × Int)
  world : World

/-- **One step** of the whole system. -/
inductive Step : State → State → Prop where
  | controller {s : State} {e : Event Ask.Answer} {code : Live (Controller × Int)} {world : World} :
      s.code.Answers e code → effect s.world e.ask e.answer = some world → Step s ⟨code, world⟩
  | call {s : State} {i : Nat} {call : Call} {choice : Choice} {world : World} :
      s.world.calls i = some call → callStep s.world i call choice = some world → Step s { s with world := world }
  /-- A member of a group forks. -/
  | fork {s : State} {group : Nat} : 0 < s.world.members group →
      Step s { s with world := { s.world with members := Function.update s.world.members group (s.world.members group + 1) } }
  /-- A member of a group exits. -/
  | exit {s : State} {group : Nat} : 0 < s.world.members group →
      Step s { s with world := { s.world with members := Function.update s.world.members group (s.world.members group - 1) } }

/-- One run of the controller, with the executor and the processes it starts. -/
def system (c : Controller) : System State where
  init s := s = ⟨c.run, .initial⟩
  step := Step

/-! ## The invariant -/

/-- No call is registered, and no group has a member. -/
def Free (w : World) : Prop := w.child = none ∧ ∀ group, w.members group = 0

/-- Call `n` is registered with a group of its own, and no other group has a member. -/
structure Held (w : World) (n group : Nat) (command : Command) : Prop where
  child : w.child = some (n, group)
  owner : w.owner group = some command
  alone : ∀ other, other ≠ group → w.members other = 0

/-- What holds of the executor and the processes where the last call is at a stage. -/
def Fits (w : World) (n : Nat) (command : Command) : Stage → Prop
  | .entered => Free w ∧ ∀ c, .started n c ∉ w.log
  | .signalling group _ => Held w n group command ∧ command = .awsUp
  | .waiting group | .draining group _ _ | .late group _ _ => Held w n group command
  | .confirmed group _ => Held w n group command ∧ w.members group = 0 ∧ .emptied n ∈ w.log
  | .returned ⟨_, none⟩ => Free w ∧ ∀ c, .started n c ∈ w.log → .emptied n ∈ w.log
  | .returned ⟨_, some _⟩ => ∃ group, Held w n group command

/-- Call `i` returned without an error, its group seen empty if it ever had one. -/
def Settled (w : World) (i : Nat) : Prop :=
  (∃ command status, w.calls i = some ⟨command, .returned ⟨status, none⟩⟩) ∧ ∀ c, .started i c ∈ w.log → .emptied i ∈ w.log

/-- No call gave up so far. -/
def NoneLost (w : World) : Prop := ∀ i, .unconfirmed i ∉ w.log

/-- The last call. -/
structure Last (w : World) (n : Nat) (command : Command) (stage : Stage) : Prop where
  count : w.count = n + 1
  call : w.calls n = some ⟨command, stage⟩
  fits : Fits w n command stage
  lost : (∀ status err, stage ≠ .returned ⟨status, some err⟩) → NoneLost w

/-- How the world stands to the controller's book. -/
def Current (w : World) : Duty → Prop
  | .idle => Free w ∧ NoneLost w
  | .busy command => ∃ n stage, Last w n command stage
  | .closed => ∃ n command status err, Last w n command (.returned ⟨status, some err⟩)

/-- A log in which every start had its reasons; the past stands behind an entry. -/
def Orderly : List Entry → Prop
  | [] => True
  | .started _ command :: past =>
    (∀ i, .unconfirmed i ∉ past) ∧ (command.cleanup = true → ∀ i, .started i .awsUp ∈ past → .emptied i ∈ past) ∧
      (command = .awsUp → ∀ i c, .started i c ∈ past → c.cleanup = false) ∧ Orderly past
  | .stop command :: past => command = some .awsUp ∧ Orderly past
  | _ :: past => Orderly past

/-- **The invariant**, by the controller's book. -/
structure Keeps (b : Book) (w : World) : Prop where
  unused : ∀ i, w.count ≤ i → w.calls i = none
  commands : ∀ i command, .started i command ∈ w.log → ∃ stage, w.calls i = some ⟨command, stage⟩
  settled : ∀ i, i < w.count → (b.duty = .idle ∨ i + 1 < w.count) → Settled w i
  cleanup : ∀ i command, .started i command ∈ w.log → command.cleanup = true → b.applied = true
  busy : ∀ command, b.duty = .busy command → (command.cleanup = true → b.applied = true) ∧
    (command = .awsUp → b.applied = false) ∧ (b.pendable = true → command = .awsUp)
  pending : w.pending.isSome = true → b.pendable = true
  current : Current w b.duty
  orderly : Orderly w.log

variable {b : Book} {w w' : World} {n : Nat} {command : Command} {stage stage' : Stage}

theorem Keeps.initial : Keeps .initial .initial where
  unused _ _ := rfl
  commands _ _ h := absurd h (by simp [World.initial])
  settled i h _ := absurd h (by simp [World.initial])
  cleanup _ _ h := absurd h (by simp [World.initial])
  busy _ h := absurd h (by simp [Book.initial])
  pending h := absurd h (by simp [World.initial])
  current := ⟨⟨rfl, fun _ => rfl⟩, fun _ h => absurd h (by simp [World.initial])⟩
  orderly := trivial

/-! ## The calls -/

/-- What a step of the last call may do to the rest of the world. -/
structure Moves (n : Nat) (command : Command) (stage' : Stage) (w w' : World) : Prop where
  calls : w'.calls = Function.update w.calls n (some ⟨command, stage'⟩)
  count : w'.count = w.count
  pending : w'.pending.isSome = true → w.pending.isSome = true
  log : ∃ new : List Entry, w'.log = new ++ w.log ∧ ∀ e ∈ new, e = .started n command ∨ e = .emptied n ∨
    e = .unconfirmed n ∨ e = .stop (some .awsUp)

theorem Keeps.move (stage' : Stage) (h : Keeps b w) (hb : b.duty = .busy command) (hl : Last w n command stage)
    (hm : Moves n command stage' w w') (hfits : Fits w' n command stage')
    (hlost : (∀ status err, stage' ≠ .returned ⟨status, some err⟩) → NoneLost w') (horder : Orderly w'.log) :
    Keeps b w' := by
  obtain ⟨new, hlog, hnew⟩ := hm.log
  -- what the log says of another call it said before
  have hold : ∀ {i : Nat} {c : Command}, i ≠ n → .started i c ∈ w'.log → .started i c ∈ w.log := by
    intro i c hi hmem
    rw [hlog] at hmem
    rcases List.mem_append.mp hmem with h1 | h1
    · rcases hnew _ h1 with h2 | h2 | h2 | h2
      · exact absurd (Entry.started.inj h2).1 hi
      all_goals cases h2
    · exact h1
  have hmine : ∀ {c : Command}, .started n c ∈ w'.log → c = command := by
    intro c hmem
    rw [hlog] at hmem
    rcases List.mem_append.mp hmem with h1 | h1
    · rcases hnew _ h1 with h2 | h2 | h2 | h2
      · exact (Entry.started.inj h2).2
      all_goals cases h2
    · obtain ⟨stage₀, hcall⟩ := h.commands n c h1
      exact (congrArg Call.command (Option.some.inj (hcall.symm.trans hl.call)) :)
  have hgrow : ∀ {e : Entry}, e ∈ w.log → e ∈ w'.log := fun he => by
    rw [hlog]
    exact List.mem_append_right _ he
  constructor
  · intro i hi
    rw [hm.count, hl.count] at hi
    rw [hm.calls, Function.update_of_ne (by omega)]
    exact h.unused i (by rw [hl.count]; exact hi)
  · intro i c hmem
    by_cases hi : i = n
    · subst hi
      rw [hmine hmem, hm.calls]
      exact ⟨stage', by simp⟩
    · rw [hm.calls, Function.update_of_ne hi]
      exact h.commands i c (hold hi hmem)
  · intro i hi hor
    rcases hor with hidle | hlt
    · exact absurd (hb.symm.trans hidle) (by simp)
    · rw [hm.count] at hi hlt
      have hne : i ≠ n := by
        rw [hl.count] at hlt
        omega
      obtain ⟨⟨c, status, hcall⟩, hempty⟩ := h.settled i hi (Or.inr hlt)
      refine ⟨⟨c, status, ?_⟩, fun c' hmem => hgrow (hempty c' (hold hne hmem))⟩
      rw [hm.calls, Function.update_of_ne hne]
      exact hcall
  · intro i c hmem hc
    by_cases hi : i = n
    · subst hi
      rw [hmine hmem] at hc
      exact (h.busy command hb).1 hc
    · exact h.cleanup i c (hold hi hmem) hc
  · exact h.busy
  · exact fun hp => h.pending (hm.pending hp)
  · rw [hb]
    exact ⟨n, stage', by rw [hm.count, hl.count], by rw [hm.calls]; simp, hfits, hlost⟩
  · exact horder

/-- A registered call keeps its group through a step that changes neither. -/
theorem Held.of_eq {group : Nat} (h : Held w n group command) (hchild : w'.child = w.child) (howner : w'.owner = w.owner)
    (hmembers : w'.members = w.members) : Held w' n group command :=
  ⟨hchild.trans h.child, by rw [howner]; exact h.owner, fun other ho => by rw [hmembers]; exact h.alone other ho⟩

/-- The last call goes on to its next stage, and only the log may grow. -/
theorem Keeps.become (new : List Entry) (h : Keeps b w) (hb : b.duty = .busy command) (hl : Last w n command stage)
    (hnew : ∀ e ∈ new, e = .emptied n ∨ e = .unconfirmed n ∨ e = .stop (some .awsUp))
    (hfits : Fits { w.become n ⟨command, stage'⟩ with log := new ++ w.log } n command stage')
    (hlost : (∀ status err, stage' ≠ .returned ⟨status, some err⟩) → NoneLost { w with log := new ++ w.log })
    (horder : Orderly (new ++ w.log)) : Keeps b { w.become n ⟨command, stage'⟩ with log := new ++ w.log } := by
  apply h.move (stage') hb hl
  · exact ⟨rfl, rfl, id, new, rfl, fun e he => Or.inr (hnew e he)⟩
  · exact hfits
  · exact hlost
  · exact horder

/-- A call gives up. -/
theorem Keeps.giveUp {group : Nat} {err : Bytes} (h : Keeps b w) (hb : b.duty = .busy command) (hl : Last w n command stage)
    (hheld : Held w n group command) : Keeps b (w.giveUp n command err) := by
  apply h.become [.unconfirmed n] hb hl
  · simp
  · exact ⟨group, hheld.of_eq rfl rfl rfl⟩
  · exact fun hno => absurd rfl (hno 127 err)
  · exact h.orderly

/-- A call has seen its group empty. -/
theorem Keeps.confirm {group : Nat} {status : Int} (h : Keeps b w) (hb : b.duty = .busy command)
    (hl : Last w n command stage) (hstage : ∀ status err, stage ≠ .returned ⟨status, some err⟩)
    (hheld : Held w n group command) (hempty : w.members group = 0) : Keeps b (w.confirm n command group status) := by
  apply h.become [.emptied n] hb hl
  · simp
  · exact ⟨hheld.of_eq rfl rfl rfl, hempty, by simp⟩
  · intro _ i hi
    exact hl.lost hstage i (by simpa using hi)
  · exact h.orderly

/-- A registered call goes on. -/
theorem Keeps.proceed (h : Keeps b w) (hb : b.duty = .busy command) (hl : Last w n command stage)
    (hstage : ∀ status err, stage ≠ .returned ⟨status, some err⟩) (hfits : Fits (w.become n ⟨command, stage'⟩) n command stage') :
    Keeps b (w.become n ⟨command, stage'⟩) :=
  h.become [] hb hl (by simp) hfits (fun _ => hl.lost hstage) h.orderly

/-- **The start of a command.** -/
theorem Keeps.start (group : Nat) {w₁ : World} (h : Keeps b w) (hb : b.duty = .busy command) (hl : Last w n command .entered)
    (hw : w₁ = { w with
      calls := Function.update w.calls n (some ⟨command, stage'⟩)
      child := some (n, group)
      pending := none
      members := Function.update w.members group 1
      owner := Function.update w.owner group (some command)
      log := .started n command :: w.log })
    (hstage : (∃ signal, stage' = .signalling group signal ∧ w.pending.isSome = true) ∨ stage' = .waiting group) :
    Keeps b w₁ := by
  obtain ⟨⟨hchild, hmembers⟩, hunstarted⟩ := hl.fits
  have hheld : Held w₁ n group command := by
    subst hw
    refine ⟨rfl, by simp, fun other ho => ?_⟩
    show Function.update w.members group 1 other = 0
    rw [Function.update_of_ne ho]
    exact hmembers other
  apply h.move (stage') hb hl
  · subst hw
    exact ⟨rfl, rfl, fun hp => absurd hp (by simp), [.started n command], rfl, by simp⟩
  · rcases hstage with ⟨signal, rfl, hpending⟩ | rfl
    · exact ⟨hheld, (h.busy command hb).2.2 (h.pending hpending)⟩
    · exact hheld
  · subst hw
    intro _ i hi
    exact hl.lost (by simp) i (by simpa using hi)
  · subst hw
    refine ⟨hl.lost (by simp), fun hc i hi => ?_, fun hup i c hi => ?_, h.orderly⟩
    · -- a call of the apply is an earlier one, and all of these are settled
      obtain ⟨stage₀, hcall⟩ := h.commands i _ hi
      have hlt : i < w.count := by
        by_contra hge
        rw [h.unused i (by omega)] at hcall
        cases hcall
      have hne : i ≠ n := by
        rintro rfl
        exact hunstarted _ hi
      have hn := hl.count
      exact (h.settled i hlt (Or.inr (by omega))).2 _ hi
    · cases hcleanup : c.cleanup with
      | false => rfl
      | true => exact absurd (((h.busy command hb).2.1 hup).symm.trans (h.cleanup i c hi hcleanup)) (by simp)

/-- **A step of a call** keeps the invariant: it is the last call's, for the others have returned. -/
theorem Keeps.callStep {i : Nat} {call : Call} {choice : Choice} (h : Keeps b w) (hcall : w.calls i = some call)
    (hstep : callStep w i call choice = some w') : Keeps b w' := by
  have hreturned : ∀ outcome, call.stage ≠ .returned outcome := by
    rintro outcome hr
    obtain ⟨command, stage⟩ := call
    simp only at hr
    subst hr
    cases choice <;> cases hstep
  have hlt : i < w.count := by
    by_contra hge
    rw [h.unused i (by omega)] at hcall
    cases hcall
  -- so the controller waits for this call
  obtain ⟨command, hb, hl⟩ : ∃ command, b.duty = .busy command ∧ Last w i command call.stage := by
    have hsettled : ¬ Settled w i := by
      rintro ⟨⟨command, status, hs⟩, _⟩
      rw [hcall] at hs
      exact hreturned _ (congrArg Call.stage (Option.some.inj hs))
    have hlast : ∀ n, w.count = n + 1 → i = n := by
      intro n hn
      by_contra hne
      exact hsettled (h.settled i hlt (Or.inr (by omega)))
    have hcurrent := h.current
    cases hduty : b.duty with
    | idle => exact absurd (h.settled i hlt (Or.inl hduty)) hsettled
    | busy command =>
        rw [hduty] at hcurrent
        obtain ⟨n, stage, hl⟩ := hcurrent
        obtain rfl := hlast n hl.count
        have hsame := Option.some.inj (hcall.symm.trans hl.call)
        refine ⟨command, rfl, ?_⟩
        rw [hsame]
        exact hl
    | closed =>
        rw [hduty] at hcurrent
        obtain ⟨n, command, status, err, hl⟩ := hcurrent
        obtain rfl := hlast n hl.count
        have hsame := Option.some.inj (hcall.symm.trans hl.call)
        exact absurd (congrArg Call.stage hsame) (hreturned _)
  obtain ⟨command', stage⟩ := call
  obtain rfl : command' = command := congrArg Call.command (Option.some.inj (hcall.symm.trans hl.call))
  simp only at hl hreturned
  have hfits := hl.fits
  have hnot : ∀ status err, stage ≠ .returned ⟨status, some err⟩ := fun _ _ => hreturned _
  cases stage with
  | entered =>
      obtain ⟨⟨hchild, hmembers⟩, hunstarted⟩ := hfits
      simp only [Executor.callStep, hchild] at hstep
      cases choice with
      | startFails =>
          cases hstep
          apply h.move (.returned ⟨127, none⟩) hb hl
          · exact ⟨rfl, rfl, fun hp => absurd hp (by simp [World.become]), [], rfl, by simp⟩
          · exact ⟨⟨rfl, hmembers⟩, fun c hc => absurd hc (hunstarted c)⟩
          · exact fun _ => hl.lost hnot
          · exact h.orderly
      | start group =>
          simp only at hstep
          split at hstep
          · obtain rfl := Option.some.inj hstep
            cases hpending : w.pending with
            | none => exact h.start group hb hl (by simp [World.note, World.become]) (Or.inr rfl)
            | some signal =>
                exact h.start group hb hl (by simp [World.note, World.become]) (Or.inl ⟨signal, rfl, by simp [hpending]⟩)
          · cases hstep
      | _ => cases hstep
  | signalling group signal =>
      obtain ⟨hheld, rfl⟩ := hfits
      cases choice <;> cases hstep
      have hlog : (w.become i ⟨.awsUp, .waiting group⟩).note (.stop (w.owner group)) =
          { w.become i ⟨.awsUp, .waiting group⟩ with log := [.stop (some .awsUp)] ++ w.log } := by
        rw [hheld.owner]
        rfl
      rw [hlog]
      apply h.become [.stop (some .awsUp)] hb hl
      · simp
      · exact hheld.of_eq rfl rfl rfl
      · intro _ j hj
        exact hl.lost hnot j (by simpa using hj)
      · exact ⟨rfl, h.orderly⟩
  | waiting group =>
      cases choice <;> cases hstep
      exact h.proceed hb hl hnot (Held.of_eq hfits rfl rfl rfl)
  | draining group status killed =>
      cases choice <;> try cases hstep
      next err =>
      simp only [Executor.callStep] at hstep
      split at hstep
      · next hempty =>
        cases hstep
        exact h.confirm hb hl hnot hfits hempty
      · cases err with
        | some err =>
            cases hstep
            exact h.giveUp hb hl hfits
        | none =>
            cases hstep
            exact h.proceed hb hl hnot (Held.of_eq hfits rfl rfl rfl)
  | late group status killed =>
      cases choice <;> try cases hstep
      · next err =>
        simp only [Executor.callStep] at hstep
        split at hstep
        · cases hstep
          exact h.giveUp hb hl hfits
        · split at hstep
          · next hempty =>
            cases hstep
            exact h.confirm hb hl hnot hfits hempty
          · cases err with
            | some err =>
                cases hstep
                exact h.giveUp hb hl hfits
            | none =>
                cases hstep
                exact h.proceed hb hl hnot (Held.of_eq hfits rfl rfl rfl)
      · exact h.proceed hb hl hnot (Held.of_eq hfits rfl rfl rfl)
  | confirmed group status =>
      obtain ⟨hheld, hempty, hlogged⟩ := hfits
      cases choice <;> try cases hstep
      apply h.move (.returned ⟨status, none⟩) hb hl
      · exact ⟨rfl, rfl, id, [], rfl, by simp⟩
      · refine ⟨⟨?_, fun other => ?_⟩, fun _ _ => hlogged⟩
        · simp [World.become, hheld.child]
        · by_cases ho : other = group
          · subst ho
            exact hempty
          · exact hheld.alone other ho
      · exact fun _ => hl.lost hnot
      · exact h.orderly
  | returned outcome => exact absurd rfl (hreturned outcome)

/-! ## The controller and the processes -/

/-- Only the members of groups that have some change. -/
theorem Keeps.members {group k : Nat} (h : Keeps b w) (hgroup : 0 < w.members group) :
    Keeps b { w with members := Function.update w.members group k } := by
  have hfree : ¬ Free w := fun hf => absurd (hf.2 group) (by omega)
  have hheld : ∀ {n g : Nat} {command : Command}, Held w n g command →
      Held { w with members := Function.update w.members group k } n g command := by
    intro n g command hh
    have hsame : group = g := by
      by_contra hne
      exact absurd (hh.alone group hne) (by omega)
    refine ⟨hh.child, hh.owner, fun other ho => ?_⟩
    show Function.update w.members group k other = 0
    rw [Function.update_of_ne (hsame ▸ ho)]
    exact hh.alone other ho
  have hlast : ∀ {n : Nat} {command : Command} {stage : Stage}, Last w n command stage →
      Last { w with members := Function.update w.members group k } n command stage := by
    rintro n command stage ⟨hcount, hcall, hfits, hlost⟩
    refine ⟨hcount, hcall, ?_, hlost⟩
    match stage, hfits with
    | .entered, hf => exact absurd hf.1 hfree
    | .signalling g _, hf => exact ⟨hheld hf.1, hf.2⟩
    | .waiting g, hf | .draining g _ _, hf | .late g _ _, hf => exact hheld hf
    | .confirmed g _, ⟨hh, hempty, _⟩ =>
        by_cases hsame : group = g
        · subst hsame
          omega
        · exact absurd (hh.alone group hsame) (by omega)
    | .returned ⟨_, none⟩, hf => exact absurd hf.1 hfree
    | .returned ⟨_, some _⟩, ⟨g, hh⟩ => exact ⟨g, hheld hh⟩
  refine ⟨h.unused, h.commands, h.settled, h.cleanup, h.busy, h.pending, ?_, h.orderly⟩
  have hcurrent := h.current
  cases hduty : b.duty with
  | idle =>
      rw [hduty] at hcurrent
      exact absurd hcurrent.1 hfree
  | busy command =>
      rw [hduty] at hcurrent
      obtain ⟨n, stage, hl⟩ := hcurrent
      exact ⟨n, stage, hlast hl⟩
  | closed =>
      rw [hduty] at hcurrent
      obtain ⟨n, command, status, err, hl⟩ := hcurrent
      exact ⟨n, command, status, err, hlast hl⟩

/-- The controller hands a command over. -/
theorem Keeps.run (h : Keeps b w) (hallowed : b.allows (.run command)) :
    Keeps { b with duty := .busy command }
      { w with calls := Function.update w.calls w.count (some ⟨command, .entered⟩), count := w.count + 1 } := by
  obtain ⟨hidle, hpendable, hup, hcleanup⟩ := hallowed
  have hcurrent := h.current
  rw [hidle] at hcurrent
  have hlogged : ∀ i c, .started i c ∈ w.log → i ≠ w.count := by
    rintro i c hi rfl
    obtain ⟨stage, hcall⟩ := h.commands _ c hi
    rw [h.unused w.count (le_refl _)] at hcall
    cases hcall
  constructor
  · intro i hi
    show Function.update w.calls w.count _ i = none
    have hi' : w.count + 1 ≤ i := hi
    rw [Function.update_of_ne (by omega)]
    exact h.unused i (by omega)
  · intro i c hi
    show ∃ stage, Function.update w.calls w.count _ i = _
    rw [Function.update_of_ne (hlogged i c hi)]
    exact h.commands i c hi
  · intro i hi hor
    have hlt : i < w.count := by
      rcases hor with h0 | h0
      · cases h0
      · exact Nat.lt_of_succ_lt_succ h0
    obtain ⟨⟨c, status, hcall⟩, hempty⟩ := h.settled i hlt (Or.inl hidle)
    refine ⟨⟨c, status, ?_⟩, hempty⟩
    show Function.update w.calls w.count _ i = _
    rw [Function.update_of_ne (by omega)]
    exact hcall
  · exact h.cleanup
  · rintro c hc
    cases hc
    exact ⟨hcleanup, hup, fun hp => absurd (hpendable.symm.trans hp) (by simp)⟩
  · exact h.pending
  · refine ⟨w.count, .entered, rfl, by simp, ⟨hcurrent.1, fun c hc => hlogged _ c hc rfl⟩, fun _ => hcurrent.2⟩
  · exact h.orderly

/-- The controller takes a result. -/
theorem Keeps.settle {outcome : ExecutionResult} (h : Keeps b w) (hout : w.outcome = some outcome) : Keeps (b.settle outcome) w := by
  unfold Book.settle
  split
  · next command hb =>
    have hcurrent := h.current
    rw [hb] at hcurrent
    obtain ⟨n, stage, hl⟩ := hcurrent
    have hstage : stage = .returned outcome := by
      have : w.count - 1 = n := by
        rw [hl.count]
        omega
      unfold World.outcome at hout
      rw [this, hl.call] at hout
      cases stage <;> simp_all
    subst hstage
    obtain ⟨status, err⟩ := outcome
    cases err with
    | some err =>
        refine ⟨h.unused, h.commands, fun i hi hor => h.settled i hi (hor.imp nofun id), h.cleanup,
          (fun _ h0 => by cases h0), h.pending, ⟨n, command, status, err, hl⟩, h.orderly⟩
    | none =>
        refine ⟨h.unused, h.commands, fun i hi _ => ?_, fun i c hi hc => ?_, (fun _ h0 => by cases h0), h.pending,
          ⟨hl.fits.1, hl.lost (by simp)⟩, h.orderly⟩
        · have hcount := hl.count
          by_cases hlast : i = n
          · subst hlast
            exact ⟨⟨command, status, hl.call⟩, hl.fits.2⟩
          · exact h.settled i hi (Or.inr (by omega))
        · show (b.applied || _) = true
          rw [h.cleanup i c hi hc]
          rfl
  · exact h

/-- What is pended changes, and signals of the apply are logged. -/
theorem Keeps.annotate (new : List Entry) {pending : Option Sig} {pendable : Bool} (h : Keeps b w)
    (hnew : ∀ e ∈ new, e = .stop (some .awsUp)) (hbusy : pendable = true → ∀ command, b.duty = .busy command → command = .awsUp)
    (hpending : pending.isSome = true → pendable = true) :
    Keeps { b with pendable := pendable } { w with pending := pending, log := new ++ w.log } := by
  have hmem : ∀ {e : Entry}, e ∈ new ++ w.log ↔ (e ∈ new ∨ e ∈ w.log) := List.mem_append
  have hstarted : ∀ {i c}, .started i c ∈ new ++ w.log → .started i c ∈ w.log := fun he =>
    (hmem.mp he).resolve_left fun hn => by cases hnew _ hn
  have hlost : NoneLost w → NoneLost { w with pending := pending, log := new ++ w.log } := fun hw i he =>
    (hmem.mp he).elim (fun hn => by cases hnew _ hn) (hw i)
  have hlast : ∀ {n : Nat} {command : Command} {stage : Stage}, Last w n command stage →
      Last { w with pending := pending, log := new ++ w.log } n command stage := by
    rintro n command stage ⟨hcount, hcall, hfits, hl⟩
    refine ⟨hcount, hcall, ?_, fun hno => hlost (hl hno)⟩
    match stage, hfits with
    | .entered, hf => exact ⟨hf.1, fun c hc => hf.2 c (hstarted hc)⟩
    | .signalling g _, hf => exact ⟨hf.1.of_eq rfl rfl rfl, hf.2⟩
    | .waiting g, hf | .draining g _ _, hf | .late g _ _, hf => exact Held.of_eq hf rfl rfl rfl
    | .confirmed g _, ⟨hh, hempty, hlog⟩ => exact ⟨hh.of_eq rfl rfl rfl, hempty, List.mem_append_right _ hlog⟩
    | .returned ⟨_, none⟩, hf => exact ⟨hf.1, fun c hc => List.mem_append_right _ (hf.2 c (hstarted hc))⟩
    | .returned ⟨_, some _⟩, ⟨g, hh⟩ => exact ⟨g, hh.of_eq rfl rfl rfl⟩
  constructor
  · exact h.unused
  · exact fun i c hi => h.commands i c (hstarted hi)
  · intro i hi hor
    obtain ⟨hcall, hempty⟩ := h.settled i hi hor
    exact ⟨hcall, fun c hc => List.mem_append_right _ (hempty c (hstarted hc))⟩
  · exact fun i c hi => h.cleanup i c (hstarted hi)
  · exact fun c hc => ⟨(h.busy c hc).1, (h.busy c hc).2.1, fun hp => hbusy hp c hc⟩
  · exact hpending
  · have hcurrent := h.current
    cases hduty : b.duty with
    | idle =>
        rw [hduty] at hcurrent
        exact ⟨hcurrent.1, hlost hcurrent.2⟩
    | busy command =>
        rw [hduty] at hcurrent
        obtain ⟨n, stage, hl⟩ := hcurrent
        exact ⟨n, stage, hlast hl⟩
    | closed =>
        rw [hduty] at hcurrent
        obtain ⟨n, command, status, err, hl⟩ := hcurrent
        exact ⟨n, command, status, err, hlast hl⟩
  · show Orderly (new ++ w.log)
    clear hmem hstarted hlost hlast
    induction new with
    | nil => exact h.orderly
    | cons e new ih =>
        obtain rfl := hnew e (by simp)
        exact ⟨rfl, ih fun e' he' => hnew e' (List.mem_cons_of_mem _ he')⟩

/-- Where a call is registered while the apply is out, it is the apply's. -/
theorem Keeps.registered {i group : Nat} (h : Keeps b w) (hb : b.duty = .busy command) (hchild : w.child = some (i, group)) :
    w.owner group = some command := by
  have hcurrent := h.current
  rw [hb] at hcurrent
  obtain ⟨n, stage, hl⟩ := hcurrent
  have hheld : ∀ {g : Nat}, Held w n g command → w.owner group = some command := by
    intro g hh
    obtain ⟨-, rfl⟩ := Prod.mk.inj (Option.some.inj (hchild.symm.trans hh.child))
    exact hh.owner
  have hfree : ¬ Free w := fun hf => absurd (hchild.symm.trans hf.1) (by simp)
  match stage, hl.fits with
  | .entered, hf => exact absurd hf.1 hfree
  | .signalling g _, hf => exact hheld hf.1
  | .waiting g, hf | .draining g _ _, hf | .late g _ _, hf => exact hheld hf
  | .confirmed g _, hf => exact hheld hf.1
  | .returned ⟨_, none⟩, hf => exact absurd hf.1 hfree
  | .returned ⟨_, some _⟩, ⟨g, hh⟩ => exact hheld hh

/-- The controller sends a stop signal: to the apply's group, or it is pended. -/
theorem Keeps.signal {signal : Sig} (h : Keeps b w) (hallowed : b.duty = .busy .awsUp) :
    Keeps { b with pendable := true } (w.signal signal) := by
  have hbusy : true = true → ∀ command, b.duty = .busy command → command = .awsUp := by
    rintro - command hc
    rw [hallowed] at hc
    exact (Duty.busy.inj hc).symm
  unfold World.signal
  split
  · exact h.annotate [] (by simp) hbusy (fun _ => rfl)
  · next i group hchild =>
    rw [h.registered hallowed hchild]
    exact h.annotate [.stop (some .awsUp)] (by simp) hbusy (fun _ => rfl)

/-- **An answered question of the controller** keeps the invariant. -/
theorem Keeps.effect {q : Ask} {r : q.Answer} (h : Keeps b w) (hallowed : b.allows q) (heffect : effect w q r = some w') :
    Keeps (b.next q r) w' := by
  have hresult : ∀ {outcome : ExecutionResult}, (if w.outcome = some outcome then some w else none) = some w' →
      Keeps (b.settle outcome) w' := by
    intro outcome hif
    split at hif
    · next hout =>
      cases hif
      exact h.settle hout
    · cases hif
  cases q with
  | run command =>
      cases heffect
      exact h.run hallowed
  | result => exact hresult heffect
  | applying =>
      cases r with
      | result outcome => exact hresult heffect
      | signal | tick =>
          cases heffect
          exact h
  | stopping =>
      cases r with
      | result outcome => exact hresult heffect
      | escalate | signal | tick =>
          cases heffect
          exact h
  | ready =>
      cases r with
      | some outcome => exact hresult heffect
      | none =>
          cases heffect
          exact h
  | signal signal =>
      cases heffect
      exact h.signal hallowed
  | clearPending =>
      cases heffect
      exact h.annotate [] (by simp) (fun hp => absurd hp (by simp)) (fun hp => absurd hp (by simp))
  | _ =>
      cases heffect
      exact h

/-! ## Every run -/

variable {c : Controller} {s t : State}

/-- The program keeps to the desk's order from here on, and the world stands to the book. -/
def Inv (s : State) : Prop := ∃ b, s.code.wp desk Controller.Any b ∧ Keeps b s.world

theorem Inv.step (h : Inv s) (hstep : Step s t) : Inv t := by
  obtain ⟨b, hwp, hk⟩ := h
  cases hstep with
  | controller hanswers heffect =>
      obtain ⟨hallowed, hrest⟩ := Prog.wp_answers hanswers hwp
      exact ⟨_, hrest, hk.effect hallowed heffect⟩
  | call hcall hstep => exact ⟨b, hwp, hk.callStep hcall hstep⟩
  | fork hgroup => exact ⟨b, hwp, hk.members hgroup⟩
  | exit hgroup => exact ⟨b, hwp, hk.members hgroup⟩

theorem inv_reachable (hs : (system c).Reachable s) : Inv s := by
  apply System.invariant _ _ hs
  · rintro s rfl
    exact ⟨.initial, Controller.run_desk, .initial⟩
  · exact fun s t _ hi hstep => hi.step hstep

/-- **No two commands overlap**; the log is newest first. -/
structure NoOverlap (w : World) : Prop where
  /-- At most one command's process group has a member. -/
  alone : ∀ group other, 0 < w.members group → 0 < w.members other → group = other
  /-- Where a command of the cleanup was started, the group of the apply had been seen empty, and the apply is not
  started again. -/
  cleanup : ∀ after before i command, w.log = after ++ .started i command :: before → command.cleanup = true →
    ∀ j, .started j .awsUp ∈ w.log → .emptied j ∈ before
  /-- Nothing is started after a call gave up. -/
  lost : ∀ after before i, w.log = after ++ .unconfirmed i :: before → ∀ j command, .started j command ∉ after
  /-- Stop signals go to the apply only. -/
  aimed : ∀ command, .stop command ∈ w.log → command = some .awsUp

/-- Either no group has a member, or one is set apart. -/
theorem Current.alone {duty : Duty} (h : Current w duty) : ∃ group, ∀ other, other ≠ group → w.members other = 0 := by
  have hfree : Free w → ∃ group, ∀ other, other ≠ group → w.members other = 0 := fun hf => ⟨0, fun other _ => hf.2 other⟩
  have hheld : ∀ {n g : Nat} {command : Command}, Held w n g command → ∃ group, ∀ other, other ≠ group → w.members other = 0 :=
    fun {_ g _} hh => ⟨g, hh.alone⟩
  have hlast : ∀ {n : Nat} {command : Command} {stage : Stage}, Last w n command stage →
      ∃ group, ∀ other, other ≠ group → w.members other = 0 := by
    intro n command stage hl
    match stage, hl.fits with
    | .entered, hf => exact hfree hf.1
    | .signalling g _, hf => exact hheld hf.1
    | .waiting g, hf | .draining g _ _, hf | .late g _ _, hf => exact hheld hf
    | .confirmed g _, hf => exact hheld hf.1
    | .returned ⟨_, none⟩, hf => exact hfree hf.1
    | .returned ⟨_, some _⟩, ⟨g, hh⟩ => exact hheld hh
  cases duty with
  | idle => exact hfree h.1
  | busy command =>
      obtain ⟨n, stage, hl⟩ := h
      exact hlast hl
  | closed =>
      obtain ⟨n, command, status, err, hl⟩ := h
      exact hlast hl

/-- What an orderly log says of its parts. -/
theorem Orderly.drop {after before : List Entry} (h : Orderly (after ++ before)) : Orderly before := by
  induction after with
  | nil => exact h
  | cons e after ih => cases e <;> first | exact ih h.2.2.2 | exact ih h.2 | exact ih h

theorem Orderly.aimed {log : List Entry} (h : Orderly log) {command : Option Command} (hmem : .stop command ∈ log) :
    command = some .awsUp := by
  obtain ⟨after, before, rfl⟩ := List.append_of_mem hmem
  exact h.drop.1

/-- **The controller never overlaps infrastructure commands.** -/
theorem never_overlaps (hs : (system c).Reachable s) : NoOverlap s.world := by
  obtain ⟨b, -, hk⟩ := inv_reachable hs
  have horder := hk.orderly
  constructor
  · intro group other hgroup hother
    obtain ⟨only, honly⟩ := hk.current.alone
    have hthis : ∀ g, 0 < s.world.members g → g = only := by
      intro g hg
      by_contra hne
      exact absurd (honly g hne) (by omega)
    rw [hthis group hgroup, hthis other hother]
  · intro after before i command hlog hcleanup j hmem
    rw [hlog] at hmem horder
    rcases List.mem_append.mp hmem with hlater | hmem
    · -- a start of the apply after one of the cleanup would have been out of order
      obtain ⟨a, a', rfl⟩ := List.append_of_mem hlater
      rw [List.append_assoc, List.cons_append] at horder
      exact absurd ((Orderly.drop horder).2.2.1 rfl i command (by simp)) (by simp [hcleanup])
    · rcases List.mem_cons.mp hmem with heq | hbefore
      · obtain ⟨-, rfl⟩ := Entry.started.inj heq
        cases hcleanup
      · exact (Orderly.drop horder).2.1 hcleanup j hbefore
  · intro after before i hlog j command hmem
    obtain ⟨a, a', rfl⟩ := List.append_of_mem hmem
    rw [hlog, List.append_assoc, List.cons_append] at horder
    exact (Orderly.drop horder).1 i (by simp)
  · exact fun command hmem => horder.aimed hmem

/-! ## A run -/

/-- The answers of a run that is stopped while the apply is out, and in which all else goes well as far as the executor lets
it. -/
def stopped (w : World) : (q : Ask) → q.Answer
  | .applying => .signal (ascii "interrupt")
  | .stopping => match w.outcome with
    | some outcome => .result outcome
    | none => .tick
  | .result => w.outcome.getD ⟨0, none⟩
  | q => smooth (fun _ => false) q

/-- The controller's next question, answered so. -/
def reply : Nat → State → Option State
  | 0, _ => none
  | _ + 1, ⟨.pure _, _⟩ => none
  | _ + 1, ⟨.ask q k, w⟩ => (effect w q (stopped w q)).map fun w' => ⟨k (stopped w q), w'⟩
  | n + 1, ⟨.loop body x k, w⟩ => reply n ⟨Prog.unroll body x k, w⟩

theorem answers_of_reply {n : Nat} (h : reply n s = some t) :
    ∃ e, s.code.Answers e t.code ∧ effect s.world e.ask e.answer = some t.world := by
  induction n generalizing s with
  | zero => cases h
  | succ n ih =>
      obtain ⟨code, w⟩ := s
      cases code with
      | pure a => cases h
      | ask q k =>
          obtain ⟨w', heffect, rfl⟩ := Option.map_eq_some_iff.mp h
          exact ⟨⟨q, stopped w q⟩, .ask _, heffect⟩
      | loop body x k =>
          obtain ⟨e, hanswers, heffect⟩ := ih h
          exact ⟨e, .loop hanswers, heffect⟩

/-- Whose turn it is. -/
inductive Turn where
  | controller
  | call (i : Nat) (choice : Choice)
  | exit (group : Nat)

def take (s : State) : Turn → Option State
  | .controller => reply 10 s
  | .call i choice => (s.world.calls i).bind fun call => (callStep s.world i call choice).map fun w => { s with world := w }
  | .exit group =>
    if 0 < s.world.members group then
      some { s with world := { s.world with members := Function.update s.world.members group (s.world.members group - 1) } }
    else none

theorem step_of_take {turn : Turn} (h : take s turn = some t) : Step s t := by
  cases turn with
  | controller =>
      obtain ⟨e, hanswers, heffect⟩ := answers_of_reply h
      exact .controller hanswers heffect
  | call i choice =>
      obtain ⟨call, hcall, hmap⟩ := Option.bind_eq_some_iff.mp h
      obtain ⟨w, hstep, rfl⟩ := Option.map_eq_some_iff.mp hmap
      exact .call hcall hstep
  | exit group =>
      simp only [take] at h
      split at h
      · next hpos =>
        cases h
        exact .exit hpos
      · cases h

/-- A command that has started, to its confirmed exit. -/
def ending (i group : Nat) (status : Int) : List Turn :=
  [.call i (.wait status), .call i (.look none), .call i .sleep, .exit group, .call i (.look none), .call i .go]

/-- A command of whose group a member outlives SIGKILL. -/
def outlived (i : Nat) : List Turn := .call i (.wait 0) :: List.replicate 4 (.call i (.look none))

/-- The apply is stopped, and the destroy that follows does not come to an end. -/
def stoppedDrill : List Turn :=
  List.replicate 8 .controller ++ .call 0 (.start 11) :: ending 0 11 0 ++
  List.replicate 4 .controller ++ .call 1 (.start 12) :: ending 1 12 0 ++
  List.replicate 5 .controller ++ .call 2 (.start 13) :: List.replicate 4 .controller ++ ending 2 13 130 ++
  List.replicate 15 .controller ++ .call 3 (.start 14) :: outlived 3 ++ List.replicate 5 .controller

theorem never_overlaps_drill : ∃ s, (system drill).Reachable s ∧ s.world.members 14 = 1 ∧
    s.world.log = [.unconfirmed 3, .started 3 .awsDown, .emptied 2, .stop (some .awsUp), .started 2 .awsUp, .emptied 1,
      .started 1 .startSession, .emptied 0, .started 0 .verifyGoNoGo] ∧ NoOverlap s.world := by
  have hrun : ((System.play take ⟨drill.run, .initial⟩ stoppedDrill).map fun s => (s.world.members 14, s.world.log)) =
      some (1, [.unconfirmed 3, .started 3 .awsDown, .emptied 2, .stop (some .awsUp), .started 2 .awsUp, .emptied 1,
        .started 1 .startSession, .emptied 0, .started 0 .verifyGoNoGo]) := by
    decide +kernel
  obtain ⟨s, hs, hends⟩ := Option.map_eq_some_iff.mp hrun
  obtain ⟨hmembers, hlog⟩ := Prod.mk.inj hends
  have hlater : (System.ofMoves (· = ⟨drill.run, .initial⟩) take).Later ⟨drill.run, .initial⟩ s := System.later_of_play hs
  have hreach : (system drill).Reachable s :=
    ⟨_, rfl, Relation.ReflTransGen.mono (fun _ _ ⟨_, hm⟩ => step_of_take hm) _ _ hlater⟩
  exact ⟨s, hreach, hmembers, hlog, never_overlaps hreach⟩

end Executor

end LocalPlatform.LiveRun
