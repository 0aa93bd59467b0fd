/-
# LocalPlatform.LiveRun.Truthful — the summary of a failed attempt tells the truth.

Of every state that some run of the controller leaves on the disk, wherever the run ended, `failed_summary` makes a
summary; an exit it reports is that of the command when it was last run, what it reports as not run was never started,
and what it calls verified two checks have verified.

The cost is the exception: where the file for its output cannot be opened or closed, the controller counts it as failed
with status 1, though the command did not run or exited otherwise.
-/
import LocalPlatform.LiveRun.FailedSummary

namespace LocalPlatform.LiveRun

open Codec Logic Python Evidence

/-! ## What a run did -/

/-- The outcome an answer brings of the command that is out. -/
def outcomeOf : Event Ask.Answer → Option ExecutionResult
  | ⟨.result, outcome⟩ => some outcome
  | ⟨.applying, .result outcome⟩ => some outcome
  | ⟨.stopping, .result outcome⟩ => some outcome
  | ⟨.ready, outcome⟩ => outcome
  | _ => none

/-- The command is out: it was started, and since then none was, and no outcome came. -/
def Out (es : List (Event Ask.Answer)) (command : Command) : Prop :=
  ∃ before start middle, es = before ++ start :: middle ∧ start.ask = .run command ∧
    ∀ e ∈ middle, outcomeOf e = none ∧ ∀ other, e.ask ≠ .run other

/-- **The command exited with the status**, when it was last run. -/
def Exited (es : List (Event Ask.Answer)) (command : Command) (status : Int) : Prop :=
  ∃ before finish after, es = before ++ finish :: after ∧ Out before command ∧ outcomeOf finish = some ⟨status, none⟩ ∧
    ∀ e ∈ after, e.ask ≠ .run command

/-- The command was never started. -/
def NotRun (es : List (Event Ask.Answer)) (command : Command) : Prop := ∀ e ∈ es, e.ask ≠ .run command

theorem Out.snoc {es : List (Event Ask.Answer)} {command : Command} (h : Out es command) {e : Event Ask.Answer}
    (hnone : outcomeOf e = none) (hstart : ∀ other, e.ask ≠ .run other) : Out (es ++ [e]) command := by
  obtain ⟨before, start, middle, rfl, hask, hquiet⟩ := h
  refine ⟨before, start, middle ++ [e], by simp, hask, ?_⟩
  intro e' he'
  rcases List.mem_append.mp he' with hold | hnew
  · exact hquiet e' hold
  · rw [List.mem_singleton.mp hnew]
    exact ⟨hnone, hstart⟩

theorem Exited.append {es es' : List (Event Ask.Answer)} {command : Command} {status : Int}
    (h : Exited es command status) (hnone : NotRun es' command) : Exited (es ++ es') command status := by
  obtain ⟨before, finish, after, rfl, hout, houtcome, hlast⟩ := h
  refine ⟨before, finish, after ++ es', by simp, hout, houtcome, ?_⟩
  intro e he
  rcases List.mem_append.mp he with hold | hnew
  · exact hlast e hold
  · exact hnone e hnew

/-- What one answered question is to the commands: a start, an outcome, or nothing. -/
theorem observe_kinds (h : History) (e : Event Ask.Answer) :
    (∃ command, e.ask = .run command ∧ h.observe e.ask e.answer = h.start command) ∨
      (∀ command, e.ask ≠ .run command) ∧
        ((∃ outcome, outcomeOf e = some outcome ∧ h.observe e.ask e.answer = h.finish outcome) ∨
          outcomeOf e = none ∧ (h.observe e.ask e.answer).running = h.running ∧
            (h.observe e.ask e.answer).exit = h.exit ∧ (h.observe e.ask e.answer).started = h.started) := by
  obtain ⟨q, r⟩ := e
  cases q with
  | run command => exact Or.inl ⟨command, rfl, rfl⟩
  | result => exact Or.inr ⟨nofun, Or.inl ⟨r, rfl, rfl⟩⟩
  | applying | stopping | ready | openCost | closeCost =>
    cases r <;> first
      | exact Or.inr ⟨nofun, Or.inl ⟨_, rfl, rfl⟩⟩
      | exact Or.inr ⟨nofun, Or.inr ⟨rfl, rfl, rfl, rfl⟩⟩
  | _ => exact Or.inr ⟨nofun, Or.inr ⟨rfl, rfl, rfl, rfl⟩⟩


theorem NotRun.snoc {es : List (Event Ask.Answer)} {command : Command} (h : NotRun es command) {e : Event Ask.Answer}
    (he : e.ask ≠ .run command) : NotRun (es ++ [e]) command := by
  intro e' he'
  rcases List.mem_append.mp he' with hold | hnew
  · exact h e' hold
  · rw [List.mem_singleton.mp hnew]
    exact he

theorem Exited.snoc {es : List (Event Ask.Answer)} {command : Command} {status : Int} (h : Exited es command status)
    {e : Event Ask.Answer} (he : e.ask ≠ .run command) : Exited (es ++ [e]) command status := by
  apply h.append
  intro e' he'
  rw [List.mem_singleton.mp he']
  exact he

/-- What the history says of the commands of a run. -/
structure Told (es : List (Event Ask.Answer)) (h : History) : Prop where
  running : ∀ command, h.running = some command → Out es command
  exit : ∀ command n, h.exit command = some n → Exited es command n
  started : ∀ command, h.started command = false → NotRun es command

theorem Told.start {es : List (Event Ask.Answer)} {h : History} (ht : Told es h) {e : Event Ask.Answer} {command : Command}
    (hask : e.ask = .run command) : Told (es ++ [e]) (h.start command) := by
  have hother : ∀ {other : Command}, other ≠ command → e.ask ≠ .run other := by
    intro other hne heq
    rw [hask] at heq
    exact hne (Ask.run.inj heq).symm
  constructor
  · intro other hrunning
    obtain rfl := Option.some.inj hrunning
    exact ⟨es, e, [], by simp, hask, by simp⟩
  · intro other n hn
    -- the exit of the command that is started is forgotten
    have hne : other ≠ command := by
      rintro rfl
      have hnone : (h.start other).exit other = none := Function.update_self ..
      rw [hnone] at hn
      cases hn
    have hold : (h.start command).exit other = h.exit other := Function.update_of_ne hne ..
    rw [hold] at hn
    exact (ht.exit other n hn).snoc (hother hne)
  · intro other hstarted
    have hne : other ≠ command := by
      rintro rfl
      have htrue : (h.start other).started other = true := Function.update_self ..
      rw [htrue] at hstarted
      cases hstarted
    have hold : (h.start command).started other = h.started other := Function.update_of_ne hne ..
    rw [hold] at hstarted
    exact (ht.started other hstarted).snoc (hother hne)

theorem confirmed_eq_some {outcome : ExecutionResult} {n : Int} (h : outcome.confirmed = some n) : outcome = ⟨n, none⟩ := by
  obtain ⟨status, err⟩ := outcome
  cases err with
  | some err => cases h
  | none =>
    obtain rfl := Option.some.inj h
    rfl

theorem Told.finish {es : List (Event Ask.Answer)} {h : History} (ht : Told es h) {e : Event Ask.Answer}
    (hstart : ∀ command, e.ask ≠ .run command) {outcome : ExecutionResult} (houtcome : outcomeOf e = some outcome) :
    Told (es ++ [e]) (h.finish outcome) := by
  have hexit : ∀ other n, h.exit other = some n → Exited (es ++ [e]) other n := fun other n hn =>
    (ht.exit other n hn).snoc (hstart other)
  have hstarted : ∀ other, h.started other = false → NotRun (es ++ [e]) other := fun other hother =>
    (ht.started other hother).snoc (hstart other)
  -- an outcome that nobody waits for changes nothing
  cases hout : h.running with
  | none =>
    have hsame : h.finish outcome = h := by
      unfold History.finish
      rw [hout]
    rw [hsame]
    refine ⟨?_, hexit, hstarted⟩
    intro other hother
    rw [hout] at hother
    cases hother
  | some command =>
    have hdone : h.finish outcome = { h with
        running := none, exit := Function.update h.exit command outcome.confirmed } := by
      unfold History.finish
      rw [hout]
    rw [hdone]
    refine ⟨?_, ?_, hstarted⟩
    · intro other hother
      cases hother
    · intro other n hn
      dsimp only at hn
      by_cases hne : other = command
      · -- the outcome is that of the command that was out
        subst hne
        rw [Function.update_self] at hn
        refine ⟨es, e, [], by simp, ht.running other hout, ?_, by simp⟩
        rw [houtcome, confirmed_eq_some hn]
      · rw [Function.update_of_ne hne] at hn
        exact hexit other n hn

/-- **The history is that of the run.** -/
theorem told (c : Controller) (es : List (Event Ask.Answer)) : Told es ((chronicle c).after .initial es) := by
  -- on the events from the front, the last one being what the history observes
  induction es using List.reverseRecOn with
  | nil =>
    constructor
    · intro command h
      cases h
    · intro command n h
      cases h
    · intro command _ e he
      cases he
  | append_singleton es e ih =>
    rw [Monitor.after_append]
    show Told (es ++ [e]) (((chronicle c).after .initial es).observe e.ask e.answer)
    rcases observe_kinds ((chronicle c).after .initial es) e with
      ⟨command, hask, heq⟩ | ⟨hstart, ⟨outcome, houtcome, heq⟩ | ⟨hnone, hrunning, hexit, hstarted⟩⟩
    · rw [heq]
      exact ih.start hask
    · rw [heq]
      exact ih.finish hstart houtcome
    · constructor
      · intro other hother
        rw [hrunning] at hother
        exact (ih.running other hother).snoc hnone hstart
      · intro other n hn
        rw [hexit] at hn
        exact (ih.exit other n hn).snoc (hstart other)
      · intro other hother
        rw [hstarted] at hother
        exact (ih.started other hother).snoc (hstart other)


/-- The readings of the clock, and the lost file. -/
structure Noted (es : List (Event Ask.Answer)) (h : History) : Prop where
  clock : ∀ t ∈ h.clock, (⟨.now, t⟩ : Event Ask.Answer) ∈ es
  costLost : h.costLost = true → ∃ err, (⟨.openCost, some err⟩ : Event Ask.Answer) ∈ es ∨
    (⟨.closeCost, some err⟩ : Event Ask.Answer) ∈ es

theorem History.finish_notes (h : History) (outcome : ExecutionResult) :
    (h.finish outcome).clock = h.clock ∧ (h.finish outcome).costLost = h.costLost := by
  unfold History.finish
  cases h.running <;> exact ⟨rfl, rfl⟩

theorem observe_notes (h : History) (e : Event Ask.Answer) :
    (∀ t ∈ (h.observe e.ask e.answer).clock, t ∈ h.clock ∨ e = ⟨.now, t⟩) ∧
      ((h.observe e.ask e.answer).costLost = true →
        h.costLost = true ∨ ∃ err, e = ⟨.openCost, some err⟩ ∨ e = ⟨.closeCost, some err⟩) := by
  -- an outcome changes neither the clock nor the cost file
  have hfinish : ∀ outcome : ExecutionResult, (∀ t ∈ (h.finish outcome).clock, t ∈ h.clock) ∧
      ((h.finish outcome).costLost = true → h.costLost = true) := by
    intro outcome
    rw [(h.finish_notes outcome).1, (h.finish_notes outcome).2]
    exact ⟨fun _ ht => ht, id⟩
  obtain ⟨q, r⟩ := e
  cases q with
  | now =>
    refine ⟨fun t ht => ?_, Or.inl⟩
    rcases List.mem_cons.mp ht with rfl | hold
    · exact Or.inr rfl
    · exact Or.inl hold
  | result => exact ⟨fun t ht => Or.inl ((hfinish r).1 t ht), fun hl => Or.inl ((hfinish r).2 hl)⟩
  | applying | stopping | ready =>
    cases r <;> first
      | exact ⟨fun t ht => Or.inl ht, Or.inl⟩
      | exact ⟨fun t ht => Or.inl ((hfinish _).1 t ht), fun hl => Or.inl ((hfinish _).2 hl)⟩
  | openCost =>
    cases r with
    | none => exact ⟨fun t ht => Or.inl ht, Or.inl⟩
    | some err => exact ⟨fun t ht => Or.inl ht, fun _ => Or.inr ⟨err, Or.inl rfl⟩⟩
  | closeCost =>
    cases r with
    | none => exact ⟨fun t ht => Or.inl ht, Or.inl⟩
    | some err => exact ⟨fun t ht => Or.inl ht, fun _ => Or.inr ⟨err, Or.inr rfl⟩⟩
  | _ => exact ⟨fun t ht => Or.inl ht, Or.inl⟩

theorem noted (c : Controller) (es : List (Event Ask.Answer)) : Noted es ((chronicle c).after .initial es) := by
  induction es using List.reverseRecOn with
  | nil =>
    constructor
    · intro t ht
      cases ht
    · intro h
      cases h
  | append_singleton es e ih =>
    rw [Monitor.after_append]
    obtain ⟨hclock, hlost⟩ := observe_notes ((chronicle c).after .initial es) e
    constructor
    · intro t ht
      rcases hclock t ht with hold | hnew
      · exact List.mem_append_left _ (ih.clock t hold)
      · exact List.mem_append_right _ (List.mem_singleton.mpr hnew.symm)
    · intro hl
      rcases hlost hl with hold | ⟨err, hopen | hclose⟩
      · obtain ⟨err, hmem⟩ := ih.costLost hold
        exact ⟨err, hmem.imp (List.mem_append_left _) (List.mem_append_left _)⟩
      · exact ⟨err, Or.inl (List.mem_append_right _ (List.mem_singleton.mpr hopen.symm))⟩
      · exact ⟨err, Or.inr (List.mem_append_right _ (List.mem_singleton.mpr hclose.symm))⟩

/-- What was written is not taken back. -/
theorem observe_keeps (h : History) (e : Event Ask.Answer) :
    (∀ command, h.reported command = true → (h.observe e.ask e.answer).reported command = true) ∧
      (h.withheld = true → (h.observe e.ask e.answer).withheld = true) := by
  have hfinish : ∀ outcome : ExecutionResult, (h.finish outcome).withheld = h.withheld := by
    intro outcome
    unfold History.finish
    cases h.running <;> rfl
  obtain ⟨q, r⟩ := e
  cases q with
  | write st =>
    constructor
    · intro command hreported
      show (h.reported command || _) = true
      rw [hreported, Bool.true_or]
    · intro hwithheld
      show (h.withheld || _) = true
      rw [hwithheld, Bool.true_or]
  | result => exact ⟨fun command hr => (congrFun (h.finish_reported r) command).trans hr, (hfinish r).trans⟩
  | applying | stopping | ready | openCost | closeCost =>
    cases r <;> first
      | exact ⟨fun _ => id, id⟩
      | exact ⟨fun command hr => (congrFun (h.finish_reported _) command).trans hr, (hfinish _).trans⟩
  | _ => exact ⟨fun _ => id, id⟩

theorem after_keeps (c : Controller) (h : History) (es : List (Event Ask.Answer)) :
    (∀ command, h.reported command = true → ((chronicle c).after h es).reported command = true) ∧
      (h.withheld = true → ((chronicle c).after h es).withheld = true) := by
  induction es using List.reverseRecOn with
  | nil => exact ⟨fun _ => id, id⟩
  | append_singleton es e ih =>
    rw [Monitor.after_append]
    obtain ⟨hreported, hwithheld⟩ := observe_keeps ((chronicle c).after h es) e
    exact ⟨fun command hr => hreported command (ih.1 command hr), fun hw => hwithheld (ih.2 hw)⟩


/-! ## The summary of a run -/

/-- **The summary is true of the run.**  An exit that is reported is that of the command when it was last run, unless it
is excused. -/
structure Truthful (es : List (Event Ask.Answer)) (excused : Command → Int → Prop) (summary : Summary) : Prop where
  keys : summary.exits.map Prod.fst = exitKeys
  exits : ∀ key command check, (key, command) ∈ checkedCommands → (key, check) ∈ summary.exits →
    ∀ n, check.reportedExit = some n → Exited es command n ∨ excused command n
  status : ∀ key check, (key, check) ∈ summary.exits → (check.status = .passed ↔ check.reportedExit = some 0) ∧
    (check.status = .failed ↔ ∃ n, n ≠ 0 ∧ check.reportedExit = some n)
  notRun : ∀ key command check, (key, command) ∈ checkedCommands → (key, check) ∈ summary.exits →
    check.status = .notRun → NotRun es command
  verified : summary.cleanupVerified = true → Exited es .stateEmpty 0 ∧ Exited es .inventoryEmpty 0

/-- The cost counts as failed where the file for its output could not be opened or closed. -/
def CostFileLost (es : List (Event Ask.Answer)) (command : Command) (n : Int) : Prop :=
  command = .awsCost ∧ n = 1 ∧ ∃ err, (⟨.openCost, some err⟩ : Event Ask.Answer) ∈ es ∨
    (⟨.closeCost, some err⟩ : Event Ask.Answer) ∈ es

/-- What the system answers: a clock in the years 1 to 9999, and statuses as a process has them, or -1. -/
structure Ordinary (es : List (Event Ask.Answer)) : Prop where
  clock : ∀ t, (⟨.now, t⟩ : Event Ask.Answer) ∈ es → Dated t
  status : ∀ e ∈ es, ∀ outcome, outcomeOf e = some outcome → -1 ≤ outcome.status ∧ outcome.status ≤ 255

theorem check_reported {st : ControllerState} {command : Command} {n : Int}
    (h : (st.check command).reportedExit = some n) : st.recorded command = some n := by
  unfold ControllerState.check at h
  split at h
  · next m hm =>
    rw [hm]
    exact h
  · cases h

theorem check_notRun {st : ControllerState} {command : Command} (h : (st.check command).status = .notRun) :
    st.withholds = true ∧ command ≠ .awsUp := by
  unfold ControllerState.check at h
  split at h
  · dsimp only at h
    split at h <;> cases h
  · dsimp only at h
    split at h
    · next hboth => exact hboth
    · cases h

theorem check_status (st : ControllerState) (command : Command) :
    ((st.check command).status = .passed ↔ (st.check command).reportedExit = some 0) ∧
      ((st.check command).status = .failed ↔ ∃ n, n ≠ 0 ∧ (st.check command).reportedExit = some n) := by
  unfold ControllerState.check
  cases st.recorded command with
  | some n =>
    dsimp only
    by_cases hn : n = 0
    · simp [hn]
    · simp [hn]
  | none =>
    dsimp only
    split <;> simp

/-- A check of the summary is that of a command. -/
theorem check_of_mem {st : ControllerState} {key : Str} {check : ExitCheck}
    (h : (key, check) ∈ checkedCommands.map fun p => (p.1, st.check p.2)) :
    ∃ command, (key, command) ∈ checkedCommands ∧ check = st.check command := by
  obtain ⟨⟨key', command⟩, hmem, heq⟩ := List.mem_map.mp h
  obtain ⟨rfl, rfl⟩ := Prod.mk.inj heq
  exact ⟨command, hmem, rfl⟩

theorem checkedCommands_unique {key : Str} {command command' : Command} (h : (key, command) ∈ checkedCommands)
    (h' : (key, command') ∈ checkedCommands) : command = command' := by
  have hnodup : (checkedCommands.map Prod.fst).Nodup := by decide +kernel
  have h1 := (lookup_eq_some_iff_mem hnodup).mpr h
  rw [(lookup_eq_some_iff_mem hnodup).mpr h'] at h1
  exact (Option.some.inj h1).symm


/-- A state that was written is true of the whole run: behind it no command is run of which it records the exit, and
none at all where by it nothing was run. -/
structure Standing (es : List (Event Ask.Answer)) (st : ControllerState) : Prop where
  exits : ∀ command n, st.recorded command = some n → Exited es command n ∨ CostFileLost es command n
  untouched : st.withholds = true → ∀ command, command.later = true → NotRun es command

theorem standing (c : Controller) {es before after : List (Event Ask.Answer)} {p : Live (Controller × Int)}
    (hreach : c.run.Reaches es p) {st : ControllerState} {r : Option Bytes}
    (hes : es = before ++ ⟨.write st, r⟩ :: after) : Standing es st := by
  have hallowed : ∀ {front back : List (Event Ask.Answer)} {e : Event Ask.Answer}, es = front ++ e :: back →
      (chronicle c).allowed ((chronicle c).after .initial front) e.ask := by
    rintro front back e rfl
    exact Prog.allowed_of_reaches hreach c.run_history
  have hhonest : st.Honest c ((chronicle c).after .initial before) := (hallowed hes).2
  have htold := told c before
  -- what a run behind the state would have found
  have hlater : ∀ {command : Command} {e : Event Ask.Answer}, e ∈ after → e.ask = .run command →
      st.withholds = false ∧ (st.recorded command).isSome = false := by
    intro command e he hask
    obtain ⟨a, b, rfl⟩ := List.append_of_mem he
    have hrun := @hallowed (before ++ ⟨.write st, r⟩ :: a) b e (by simp [hes])
    rw [hask] at hrun
    obtain ⟨hwithheld, hreported⟩ := hrun
    rw [Monitor.after_append, Monitor.after_cons] at hwithheld hreported
    have hkeeps := after_keeps c (((chronicle c).after .initial before).observe (.write st) r) a
    constructor
    · by_contra hst
      have hset : (((chronicle c).after .initial before).observe (.write st) r).withheld = true := by
        show (_ || st.withholds) = true
        rw [Bool.eq_true_of_not_eq_false hst, Bool.or_true]
      exact absurd (hwithheld.symm.trans (hkeeps.2 hset)) nofun
    · by_contra hst
      have hset : (((chronicle c).after .initial before).observe (.write st) r).reported command = true := by
        show (_ || (st.recorded command).isSome) = true
        rw [Bool.eq_true_of_not_eq_false hst, Bool.or_true]
      exact absurd (hreported.symm.trans (hkeeps.1 command hset)) nofun
  constructor
  · intro command n hn
    rcases hhonest.exits command n hn with hexit | ⟨hcost, hone, hlost⟩
    · left
      rw [hes]
      apply (htold.exit command n hexit).append
      intro e he hask
      rcases List.mem_cons.mp he with rfl | he
      · cases hask
      · have := (hlater he hask).2
        rw [hn] at this
        cases this
    · right
      obtain ⟨err, hmem⟩ := (noted c before).costLost hlost
      rw [hes]
      exact ⟨hcost, hone, err, hmem.imp (List.mem_append_left _) (List.mem_append_left _)⟩
  · intro hst command hcommand
    rw [hes]
    intro e he hask
    rcases List.mem_append.mp he with hbefore | he
    · exact htold.started command (hhonest.untouched hst command hcommand) e hbefore hask
    · rcases List.mem_cons.mp he with rfl | he
      · cases hask
      · have := (hlater he hask).1
        rw [hst] at this
        cases this

/-- A state that was written can be summed up. -/
theorem summable_of_written (c : Controller) {es before after : List (Event Ask.Answer)} {p : Live (Controller × Int)}
    (hreach : c.run.Reaches es p) (hordinary : Ordinary es) {st : ControllerState} {r : Option Bytes}
    (hes : es = before ++ ⟨.write st, r⟩ :: after) : Summable st ∧ st.runID = c.runID ∧ st.commit = c.commit := by
  have hwritten : st.phase.isSome = true ∧ st.Honest c ((chronicle c).after .initial before) := by
    have hreach' := hreach
    rw [hes] at hreach'
    exact Prog.allowed_of_reaches hreach' c.run_history
  obtain ⟨hphase, hhonest⟩ := hwritten
  refine ⟨⟨hhonest.schema, hphase, ?_, ?_⟩, hhonest.run, hhonest.commit⟩
  · intro command n hn
    rcases (standing c hreach hes).exits command n hn with ⟨front, finish, back, hsplit, -, houtcome, -⟩ | ⟨-, hone, -⟩
    · exact hordinary.status finish (by simp [hsplit]) _ houtcome
    · omega
  · rcases hhonest.finished with hempty | ⟨t, ht, htext⟩
    · exact Or.inl hempty
    · refine Or.inr ⟨t, hordinary.clock t ?_, htext⟩
      rw [hes]
      exact List.mem_append_left _ ((noted c before).clock t ht)

theorem later_of_checked {key : Str} {command : Command} (h : (key, command) ∈ checkedCommands) (hne : command ≠ .awsUp) :
    command.later = true := by
  simp only [checkedCommands, List.mem_cons, List.not_mem_nil, or_false, Prod.mk.injEq] at h
  obtain ⟨-, rfl⟩ | ⟨-, rfl⟩ | ⟨-, rfl⟩ | ⟨-, rfl⟩ | ⟨-, rfl⟩ := h
  · exact absurd rfl hne
  all_goals rfl

/-- **The failed-attempt summary tells the truth**, of every state that some run leaves on the disk: it is made, and what
it says of a command is what the command came to in the run. -/
theorem failedSummary_truthful (c : Controller) {dir : Directory} {scan preflight : Dict}
    {es before after : List (Event Ask.Answer)} {p : Live (Controller × Int)} {st : ControllerState} {r : Option Bytes}
    (hreach : c.run.Reaches es p) (hordinary : Ordinary es) (hes : es = before ++ ⟨.write st, r⟩ :: after)
    (hscan : dir.loadSecretScan (shown c.runID) false = .ok scan)
    (hpreflight : validatePreflight dir.beneath dir.preflight (shown c.runID) = .ok preflight)
    (hcommit : dictGet preflight (lit "commit") = .str (shown c.commit)) :
    ∃ summary, failedSummary dir (shown c.runID) (.ok st.document) = .ok summary ∧
      Truthful es (CostFileLost es) summary := by
  obtain ⟨hst, hrun, hown⟩ := summable_of_written c hreach hordinary hes
  rw [← hrun] at hscan hpreflight ⊢
  rw [← hown] at hcommit
  obtain ⟨summary, hsummary, hexits, hverified⟩ := failedSummary_document hst hscan hpreflight hcommit
  -- what stands in the state at the write is what the run had come to
  have hstanding := standing c hreach hes
  refine ⟨summary, hsummary, ?_, ?_, ?_, ?_, ?_⟩
  · rw [hexits]
    rfl
  · intro key command check hkey hmem n hn
    rw [hexits] at hmem
    obtain ⟨command', hkey', rfl⟩ := check_of_mem hmem
    obtain rfl := checkedCommands_unique hkey hkey'
    exact hstanding.exits command n (check_reported hn)
  · intro key check hmem
    rw [hexits] at hmem
    obtain ⟨command, -, rfl⟩ := check_of_mem hmem
    exact check_status st command
  · intro key command check hkey hmem hnot
    rw [hexits] at hmem
    obtain ⟨command', hkey', rfl⟩ := check_of_mem hmem
    obtain rfl := checkedCommands_unique hkey hkey'
    obtain ⟨hwithholds, hne⟩ := check_notRun hnot
    exact hstanding.untouched hwithholds command (later_of_checked hkey hne)
  · intro htrue
    rw [hverified] at htrue
    unfold ControllerState.verified at htrue
    rw [Bool.and_eq_true, Bool.and_eq_true, beq_iff_eq, beq_iff_eq] at htrue
    -- the cost file speaks for `aws-cost` only
    have hexited : ∀ {command : Command}, command ≠ .awsCost → st.recorded command = some 0 → Exited es command 0 := by
      intro command hne hzero
      rcases hstanding.exits command 0 hzero with hexit | ⟨hcost, -⟩
      · exact hexit
      · exact absurd hcost hne
    exact ⟨hexited nofun htrue.1.2, hexited nofun htrue.2⟩


/-! ## Two runs -/

def drillPreflight : Dict :=
  [(lit "schema_version", .int 1), (lit "run_id", .str (shown drill.runID)), (lit "commit", .str (shown drill.commit)),
    (lit "result", .str (lit "passed"))]

def drillScan : Dict :=
  [(lit "schema_version", .int 1), (lit "run_id", .str (shown drill.runID)), (lit "commit", .str (shown drill.commit)),
    (lit "session_sha256", .str (List.replicate 64 0x61)), (lit "profile", .str (lit "m4-secret-representations-v1")),
    (lit "state", .str (lit "not_started")), (lit "entries", .list [])]

def drillDirectory : Directory where
  beneath := .ok ()
  preflight := ⟨lit "00-preflight.json", false, true, 0o644, 200, .ok drillPreflight⟩
  session := .ok (List.replicate 64 0x61)
  secretScan := ⟨lit "secret-scan.json", false, true, 0o600, 400, .ok drillScan⟩

theorem drill_scan : drillDirectory.loadSecretScan (shown drill.runID) false = .ok drillScan := by
  have hok : (drillDirectory.loadSecretScan (shown drill.runID) false).isOk = true := by decide +kernel
  cases hload : drillDirectory.loadSecretScan (shown drill.runID) false with
  | error e =>
    rw [hload] at hok
    cases hok
  | ok scan => exact (read_of_loadSecretScan hload).1.symm

theorem drill_preflight :
    validatePreflight drillDirectory.beneath drillDirectory.preflight (shown drill.runID) = .ok drillPreflight := by
  have hok : (validatePreflight drillDirectory.beneath drillDirectory.preflight (shown drill.runID)).isOk = true := by
    decide +kernel
  cases hvalid : validatePreflight drillDirectory.beneath drillDirectory.preflight (shown drill.runID) with
  | error e =>
    rw [hvalid] at hok
    cases hok
  | ok receipt => exact (read_of_validatePreflight hvalid).symm

theorem drill_commit : dictGet drillPreflight (lit "commit") = .str (shown drill.commit) := by rfl


/-- Everything goes well, but there is no room for the file of the cost. -/
def costFull : (q : Ask) → q.Answer
  | .openCost => some (ascii "no space left on device")
  | q => smooth (fun _ => false) q

/-- The reading an answer brings. -/
def readingOf : Event Ask.Answer → Option Time
  | ⟨.now, t⟩ => some t
  | _ => none

/-- The answer is an ordinary one. -/
def ordinaryAnswer (e : Event Ask.Answer) : Bool :=
  (readingOf e).all (fun t => decide (Dated t)) &&
    (outcomeOf e).all fun outcome => decide (-1 ≤ outcome.status ∧ outcome.status ≤ 255)

theorem ordinary_of_all {es : List (Event Ask.Answer)} (h : es.all ordinaryAnswer = true) : Ordinary es := by
  have hboth : ∀ e ∈ es, (readingOf e).all (fun t => decide (Dated t)) = true ∧
      (outcomeOf e).all (fun outcome => decide (-1 ≤ outcome.status ∧ outcome.status ≤ 255)) = true := fun e he =>
    Bool.and_eq_true_iff.mp (List.all_eq_true.mp h e he)
  constructor
  · intro t ht
    exact of_decide_eq_true (hboth _ ht).1
  · intro e he outcome houtcome
    have hstatus := (hboth e he).2
    rw [houtcome] at hstatus
    exact of_decide_eq_true hstatus

/-- The status of the cost, where a state is written. -/
def writtenCost : Event Ask.Answer → Option Int
  | ⟨.write st, _⟩ => st.costExit
  | _ => none

theorem write_of_writtenCost {es : List (Event Ask.Answer)} {n : Int} (h : es.any (writtenCost · == some n) = true) :
    ∃ before st r after, es = before ++ ⟨.write st, r⟩ :: after ∧ st.costExit = some n := by
  obtain ⟨⟨q, r⟩, hmem, hcost⟩ := List.any_eq_true.mp h
  obtain ⟨before, after, hes⟩ := List.append_of_mem hmem
  cases q with
  | write st => exact ⟨before, st, r, after, hes, beq_iff_eq.mp hcost⟩
  | _ => cases hcost

theorem failedSummary_truthful_drill : ∃ es p before st r after summary, drill.run.Reaches es p ∧
    es = before ++ ⟨.write st, r⟩ :: after ∧ st.costExit = some 0 ∧
      failedSummary drillDirectory (shown drill.runID) (.ok st.document) = .ok summary ∧
        Truthful es (CostFileLost es) summary := by
  have hrun : (Prog.exec (fun _ => smooth fun _ => false) 200 drill.run []).map
      (fun r => (r.1.all ordinaryAnswer, r.1.any (writtenCost · == some 0))) = some (true, true) := by decide +kernel
  obtain ⟨⟨es, ended⟩, hexec, hends⟩ := Option.map_eq_some_iff.mp hrun
  obtain ⟨hordinary, hwritten⟩ := Prod.mk.inj hends
  obtain ⟨_, p, rfl, hreach, -⟩ := Prog.exec_reaches hexec
  obtain ⟨before, st, r, after, hes, hcost⟩ := write_of_writtenCost hwritten
  obtain ⟨summary, hsummary, htrue⟩ := failedSummary_truthful drill hreach (ordinary_of_all hordinary) hes drill_scan
    drill_preflight drill_commit
  exact ⟨_, p, before, st, r, after, summary, hreach, hes, hcost, hsummary, htrue⟩

/-- **A cost that was never asked for is reported as failed**: the file for it could not be opened. -/
theorem not_truthful_cost_full : ¬ ∀ (c : Controller) (dir : Directory) (scan preflight : Dict)
    (es before after : List (Event Ask.Answer)) (p : Live (Controller × Int)) (st : ControllerState) (r : Option Bytes),
    c.run.Reaches es p → Ordinary es → es = before ++ ⟨.write st, r⟩ :: after →
      dir.loadSecretScan (shown c.runID) false = .ok scan →
        validatePreflight dir.beneath dir.preflight (shown c.runID) = .ok preflight →
          dictGet preflight (lit "commit") = .str (shown c.commit) →
            ∃ summary, failedSummary dir (shown c.runID) (.ok st.document) = .ok summary ∧
              Truthful es (fun _ _ => False) summary := by
  intro hall
  have hrun : (Prog.exec (fun _ => costFull) 200 drill.run []).map
      (fun r => (r.1.all ordinaryAnswer, r.1.any (writtenCost · == some 1), r.1.all fun e => e.ask != .run .awsCost))
        = some (true, true, true) := by decide +kernel
  obtain ⟨⟨es, ended⟩, hexec, hends⟩ := Option.map_eq_some_iff.mp hrun
  obtain ⟨hordinary, hrest⟩ := Prod.mk.inj hends
  obtain ⟨hwritten, hnone⟩ := Prod.mk.inj hrest
  obtain ⟨es', p, rfl, hreach, -⟩ := Prog.exec_reaches hexec
  obtain ⟨before, st, r, after, hes, hcost⟩ := write_of_writtenCost hwritten
  obtain ⟨summary, hsummary, htrue⟩ := hall drill drillDirectory drillScan drillPreflight _ before after p st r hreach
    (ordinary_of_all hordinary) hes drill_scan drill_preflight drill_commit
  obtain ⟨hst, hid, hown⟩ := summable_of_written drill hreach (ordinary_of_all hordinary) hes
  obtain ⟨summary', hsummary', hexits, -⟩ := failedSummary_document hst (by rw [hid]; exact drill_scan)
    (by rw [hid]; exact drill_preflight) (by rw [hown]; exact drill_commit)
  rw [hid, hsummary] at hsummary'
  obtain rfl := Except.ok.inj hsummary'
  have hmem : (lit "cost_exit", st.check .awsCost) ∈ summary.exits := by
    rw [hexits]
    exact List.mem_map.mpr ⟨(lit "cost_exit", .awsCost), by simp [checkedCommands], rfl⟩
  have hreported : (st.check .awsCost).reportedExit = some 1 := by
    have hrec : st.recorded .awsCost = some 1 := hcost
    unfold ControllerState.check
    rw [hrec]
  -- the summary says that `aws-cost` exited with 1, and it never ran
  rcases htrue.exits _ .awsCost _ (by simp [checkedCommands]) hmem 1 hreported with hexit | hfalse
  · obtain ⟨front, finish, back, hsplit, ⟨start, run, middle, hfront, hask, -⟩, -, -⟩ := hexit
    have hquiet := List.all_eq_true.mp hnone run (by simp [hsplit, hfront])
    rw [hask] at hquiet
    exact absurd hquiet (by decide)
  · exact hfalse

end LocalPlatform.LiveRun
