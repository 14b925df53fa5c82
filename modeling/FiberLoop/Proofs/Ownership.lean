import FiberLoop.Proofs.Runtime.Sessions

/-!
# One holder and one exit for each fiber

The run of a fiber is handed between its record, the tasks of the loops and the turn that is under way. Starts,
yields, resumptions, interrupts and early or late completions each take it from one place and put it into
another.

The main result of this module is `Reachable.one_holder_one_exit`: in every reachable moment each fiber is
held exactly once, by what its phase says; it exits at most once, and exactly when it becomes done; its hook is
called once, with that exit; and it never ceases to be done.
-/

namespace FiberLoop

/-- Who holds a fiber. -/
inductive Holder where
  /-- A task that begins the fiber. -/
  | startTask
  /-- A turn that is under way, or a task that goes on with a run. -/
  | continuation
  /-- The record of the fiber, in which its run is stored. -/
  | record
  /-- Nobody: the fiber is done. -/
  | nobody
deriving DecidableEq

/-- The holder that a phase stands for. -/
def Phase.holder : Phase → Holder
  | .created _ => .startTask
  | .running | .registering _ => .continuation
  | .suspended .. => .record
  | .done => .nobody

/-- What the phase itself says about the holder. -/
def Phase.holders : Phase → List Holder
  | .suspended .. => [.record]
  | .done => [.nobody]
  | .created _ | .running | .registering _ => []

/-- The holder that a task of a fiber is. -/
def Task.holder : Task → Holder
  | .start _ => .startTask
  | _ => .continuation

/-- The turn that is under way. -/
def Activity.holders : Activity → List Holder
  | .running .. | .registering .. | .returning .. | .canceling .. => [.continuation]
  | .idle | .exiting .. => []

/-- The task of a message. -/
def Message.task? : Message → Option Task
  | .task t | .timer _ _ t => some t
  | .shutdown => none

/-- All tasks of a loop: those that wait in the inbox, and those of the timers. -/
def EventLoop.tasks (l : EventLoop) : List Task := l.inbox.filterMap Message.task? ++ l.timers.map Timer.task

/-- All tasks of the two loops that go on with a fiber. -/
def World.tasksOf (f : FiberId) (w : World) : List Task :=
  (w.loop.tasks ++ w.aside.tasks).filter fun t => t.fiber? == some f

/-- All holders of a fiber at a moment. -/
def Moment.holders (f : FiberId) (m : Moment) : List Holder :=
  (m.world.tasksOf f).map Task.holder ++ (m.activity.of f).holders ++
    ((m.world.phase? f).map Phase.holders).getD []

def Event.exited? : Event → Option (Exit Value Value)
  | .exited x => some x
  | _ => none

def Event.told? : Event → Option (Exit Value Value × ExitHook)
  | .told x hook => some (x, hook)
  | _ => none

/-- The exits with which a fiber has ended. -/
def exits (f : FiberId) (es : Chronicle) : List (Exit Value Value) := (history f es).filterMap Event.exited?

/-- The calls of the hook of a fiber. -/
def tellings (f : FiberId) (es : Chronicle) : List (Exit Value Value × ExitHook) :=
  (history f es).filterMap Event.told?

/-! ## Tasks -/

section Tasks

variable {f : FiberId}

theorem EventLoop.tasks_filter {l : EventLoop} (h : l.TimersQuiet) :
    (l.tasks.filter fun t => t.fiber? == some f) = l.tokens f := by
  have htimers : (l.timers.map Timer.task).filter (fun t => t.fiber? == some f) = [] := by
    rw [List.filter_eq_nil_iff]
    intro t ht
    obtain ⟨timer, htimer, rfl⟩ := List.mem_map.1 ht
    rw [Task.fiber?_of_isErrand (h.timers timer htimer)]
    exact Bool.false_ne_true
  have hinbox : ∀ inbox : List Message,
      (∀ deadline timer task, Message.timer deadline timer task ∈ inbox → task.isErrand = true) →
        ((inbox.filterMap Message.task?).filter fun t => t.fiber? == some f) =
          inbox.filterMap (Message.token? f) := by
    intro inbox hquiet
    induction inbox with
    | nil => rfl
    | cons m rest ih =>
      have hrest := ih fun deadline timer task hmem =>
        hquiet deadline timer task (List.mem_cons_of_mem m hmem)
      cases m with
      | shutdown => exact hrest
      | timer deadline timer task =>
        have hnone := Task.fiber?_of_isErrand (hquiet deadline timer task List.mem_cons_self)
        have htoken : (Message.timer deadline timer task).token? f = none := rfl
        simpa [Message.task?, htoken, hnone] using hrest
      | task t =>
        by_cases ht : t.fiber? = some f
        · simpa [Message.task?, Message.token?, ht] using hrest
        · simpa [Message.task?, Message.token?, ht] using hrest
  rw [tasks, List.filter_append, htimers, List.append_nil, hinbox l.inbox h.inbox]
  rfl

/-- No timer holds a fiber. -/
theorem World.tasksOf_eq_tokens {w : World} (h : w.TimersQuiet) : w.tasksOf f = w.tokens f := by
  rw [tasksOf, List.filter_append, EventLoop.tasks_filter h.loop, EventLoop.tasks_filter h.aside]
  rfl

end Tasks

/-! ## Holders -/

section Holders

variable {f : FiberId} {m : Moment} {p : Place} {es : Chronicle}

theorem Held.one_holder {epoch : Nat} {hook : ExitHook} {s : Standing} {tokens : List Task} {a : Activity}
    (h : Held f epoch hook s tokens a) :
    tokens.map Task.holder ++ a.holders ++ s.phase.holders = [s.phase.holder] := by
  cases h with
  | fresh root => rfl
  | queued s => rfl
  | running s left => rfl
  | registering run early left r => rfl
  | returned run early canceler left => rfl
  | parked run canceler => rfl
  | unwinding h run canceler => rfl
  | canceling h run canceler left => rfl
  | exiting x => rfl
  | done x => rfl

theorem Fits.one_holder (h : Fits f (m.view f) p) (hquiet : m.world.TimersQuiet) :
    m.holders f = [p.standing.phase.holder] := by
  have hphase : m.world.phase? f = some p.standing.phase := h.phase?_eq
  have hheld := h.held.one_holder
  unfold Moment.holders
  rw [World.tasksOf_eq_tokens hquiet, hphase]
  exact hheld

end Holders

/-! ## Exits -/

/-- The exit that the hook of a fiber was told. -/
def Place.tellings (p : Place) : List (Exit Value Value × ExitHook) :=
  match p.standing with
  | .done x => [(x, p.hook)]
  | _ => []

section Exits

variable {p q : Place} {e : Event} {es : List Event}

theorem Move.hook (h : Move p e q) : q.hook = p.hook := by
  cases h <;> rfl

theorem Move.exits (h : Move p e q) :
    q.standing.exit?.toList = p.standing.exit?.toList ++ e.exited?.toList := by
  cases h <;> simp [Place.moveTo, Place.beyond, Standing.exit?, Event.exited?, *]

theorem Move.tellings (h : Move p e q) : q.tellings = p.tellings ++ e.told?.toList := by
  cases h <;> simp [Place.moveTo, Place.beyond, Place.tellings, Event.told?, *]

theorem Move.ne_unexpected (h : Move p e q) : e ≠ .unexpected := by
  rintro rfl
  cases h

/-- What the events of a fiber say about its exit. -/
structure Course.Tells (es : List Event) (p : Place) : Prop where
  exits : es.filterMap Event.exited? = p.standing.exit?.toList
  tellings : es.filterMap Event.told? = p.tellings
  launched : ∃ root, .launched root p.hook ∈ es
  expected : .unexpected ∉ es

theorem Course.tells (h : Course es p) : Course.Tells es p := by
  refine h.invariant (fun root hook => ⟨rfl, rfl, ⟨root, List.mem_singleton.2 rfl⟩, ?_⟩) ?_
  · intro hmem
    cases List.mem_singleton.1 hmem
  · intro es p e q ih hmove
    refine ⟨?_, ?_, ?_, ?_⟩
    · rw [Event.filterMap_concat, ih.exits, hmove.exits]
    · rw [Event.filterMap_concat, ih.tellings, hmove.tellings]
    · obtain ⟨root, hmem⟩ := ih.launched
      rw [hmove.hook]
      exact ⟨root, List.mem_append_left _ hmem⟩
    · intro hmem
      rcases List.mem_append.1 hmem with hmem | hmem
      · exact ih.expected hmem
      · exact hmove.ne_unexpected (List.mem_singleton.1 hmem).symm

/-- A fiber that has ended stays where it is, except that its exit is told. -/
theorem Moves.exit? (h : Moves p es q) {x : Exit Value Value} (hx : p.standing.exit? = some x) :
    q.standing.exit? = some x := by
  induction h with
  | refl p => exact hx
  | step first _ ih =>
    refine ih ?_
    have hexits := first.exits
    rw [hx] at hexits
    rename_i p' q' e rest hmoves
    cases hnext : p'.standing.exit? with
    | none =>
      rw [hnext] at hexits
      cases hexits
    | some y =>
      rw [hnext] at hexits
      injection hexits with hy
      rw [hy]

theorem Standing.phase_eq_done_iff {s : Standing} : s.phase = .done ↔ ∃ x, s.exit? = some x := by
  cases s with
  | exiting x => exact ⟨fun _ => ⟨x, rfl⟩, fun _ => rfl⟩
  | done x => exact ⟨fun _ => ⟨x, rfl⟩, fun _ => rfl⟩
  | _ => exact ⟨nofun, nofun⟩

end Exits

/-- What holds of a fiber at a moment, given what has happened before. -/
structure HeldOnce (es : Chronicle) (m : Moment) (f : FiberId) (r : Fiber) : Prop where
  /-- Exactly one holder, the one that the phase says. -/
  holder : m.holders f = [r.phase.holder]
  /-- A fiber that is not done has not exited, and its hook was not called. -/
  alive : r.phase ≠ .done → exits f es = [] ∧ tellings f es = []
  /-- A fiber that is done has exited once. Its state is that of the exit, and the hook with which it was
  launched was called with that exit, unless this is just about to happen. -/
  ended : r.phase = .done → ∃ x hook root, exits f es = [x] ∧
    r.state = (match x with
      | .value _ => .completed
      | .cause .interrupted => .cancelled
      | .cause _ => .failed) ∧
    .launched root hook ∈ history f es ∧
    (tellings f es = [(x, hook)] ∨ tellings f es = [] ∧ m.activity = .exiting f x hook)
  /-- A registration that has returned finds the phase in which it can end. -/
  returning : ∀ left run canceler, m.activity = .returning f left run canceler →
    ∃ early, r.phase = .registering early
  /-- So no registration ends in any other phase. -/
  expected : .unexpected ∉ history f es
  /-- Between two tasks the notice of a forked fiber holds an exit exactly if the fiber is done with it. -/
  notice : m.activity = .idle → ∀ notice, r.notice = some notice →
    ∀ x, notice.exit? = some x ↔ r.phase = .done ∧ exits f es = [x]

section Main

variable {f : FiberId} {m m' : Moment} {es es' : Chronicle} {r : Fiber}

/-- A fiber with a record is at the end of a course. -/
theorem Reachable.course (h : Reachable es m) (hf : m.world.fiber? f = some r) :
    ∃ p home, Course (history f es) p ∧ Fits f (m.view f) p ∧ r.core = p.record home := by
  have hrecord : (m.view f).record = some r.core := by
    show (m.world.fiber? f).map Fiber.core = _
    rw [hf]
    rfl
  rcases (h.accounted f).cases with ⟨-, habsent⟩ | ⟨p, hcourse, hfits⟩
  · exact nomatch hrecord.symm.trans habsent.record
  obtain ⟨home, hhome⟩ := hfits.record
  exact ⟨p, home, hcourse, hfits, Option.some.inj (hrecord.symm.trans hhome)⟩

theorem Place.tellings_of_alive {p : Place} (h : p.standing.exit? = none) : p.tellings = [] := by
  unfold tellings
  split
  · rename_i x hdone
    rw [hdone] at h
    cases h
  · rfl

theorem Place.notice_of_alive {p : Place} (h : p.standing.exit? = none) : p.notice = p.hook.notice := by
  unfold notice
  split
  · rename_i x hdone
    rw [hdone] at h
    cases h
  · rfl

theorem FiberState.ofExit_eq (x : Exit Value Value) :
    FiberState.ofExit x = (match x with
      | .value _ => .completed
      | .cause .interrupted => .cancelled
      | .cause _ => .failed) := by
  cases x with
  | value v => rfl
  | cause c => cases c <;> rfl

/-- A fiber that has ended is either about to be told or has been told. -/
theorem Fits.ended {p : Place} (h : Fits f (m.view f) p) {x : Exit Value Value}
    (hx : p.standing.exit? = some x) :
    p.tellings = [(x, p.hook)] ∨ p.tellings = [] ∧ m.activity = .exiting f x p.hook := by
  have hheld := h.held
  cases hstanding : p.standing with
  | done y =>
    rw [hstanding] at hx
    cases hx
    refine Or.inl ?_
    simp [Place.tellings, hstanding]
  | exiting y =>
    rw [hstanding] at hx hheld
    cases hx
    refine Or.inr ⟨by simp [Place.tellings, hstanding], ?_⟩
    have hactivity : m.activity.of f = .exiting f x p.hook := by
      generalize hv : (m.view f).activity = a at hheld
      generalize (m.view f).tokens = tokens at hheld
      cases hheld
      exact hv
    exact Activity.eq_of_of hactivity nofun
  | _ =>
    rw [hstanding] at hx
    cases hx

/-- Between two tasks the notice of a fiber agrees with its exit. -/
theorem Fits.notice_iff {p : Place} (h : Fits f (m.view f) p) (hidle : m.activity = .idle)
    {notice : ExitNotice} (hnotice : some notice.core = p.notice) (x : Exit Value Value) :
    notice.exit? = some x ↔ p.standing.exit? = some x := by
  cases hexit : p.standing.exit? with
  | none =>
    rw [Place.notice_of_alive hexit] at hnotice
    cases notice with
    | pending listeners key =>
      have hnone : ExitNotice.exit? (.pending listeners key) = none := rfl
      rw [hnone]
    | done y =>
      have hnone : ∀ hook : ExitHook, some (ExitNotice.done y) ≠ hook.notice := by
        intro hook hsame
        cases hook <;> cases hsame
      exact absurd hnotice (hnone p.hook)
  | some y =>
    rcases h.ended hexit with htold | ⟨-, hexiting⟩
    · have hdone : p.standing = .done y := by
        cases hstanding : p.standing with
        | done z =>
          rw [hstanding] at hexit
          cases hexit
          rfl
        | _ => simp [Place.tellings, hstanding] at htold
      have hplace : p.notice = p.hook.notice.map fun _ => .done y := by
        simp [Place.notice, hdone]
      rw [hplace] at hnotice
      obtain ⟨-, -, hcore⟩ := Option.map_eq_some_iff.1 hnotice.symm
      cases notice with
      | pending listeners key => cases hcore
      | done z =>
        cases hcore
        exact Iff.rfl
    · cases hidle.symm.trans hexiting

theorem Reachable.heldOnce (h : Reachable es m) (hf : m.world.fiber? f = some r) : HeldOnce es m f r := by
  obtain ⟨p, home, hcourse, hfits, hcore⟩ := h.course hf
  have htells := hcourse.tells
  have hphase : r.phase = p.standing.phase := congrArg Fiber.phase hcore
  have houtcome : r.outcome = p.standing.exit?.elim .runnable .ofExit := congrArg Fiber.outcome hcore
  have hexits : exits f es = p.standing.exit?.toList := htells.exits
  have htellings : tellings f es = p.tellings := htells.tellings
  refine ⟨?_, ?_, ?_, ?_, htells.expected, ?_⟩
  · rw [hphase]
    exact hfits.one_holder h.timersQuiet
  · intro halive
    rw [hphase, ne_eq, Standing.phase_eq_done_iff] at halive
    cases hexit : p.standing.exit? with
    | some x => exact absurd ⟨x, hexit⟩ halive
    | none =>
      rw [hexits, htellings, hexit, Place.tellings_of_alive hexit]
      exact ⟨rfl, rfl⟩
  · intro hdone
    obtain ⟨x, hx⟩ := Standing.phase_eq_done_iff.1 (hphase.symm.trans hdone)
    obtain ⟨root, hlaunched⟩ := htells.launched
    refine ⟨x, p.hook, root, ?_, ?_, hlaunched, ?_⟩
    · rw [hexits, hx]
      rfl
    · rw [Fiber.state, hdone, houtcome, hx]
      exact FiberState.ofExit_eq x
    · rw [htellings]
      exact hfits.ended hx
  · intro left run canceler hactivity
    obtain ⟨⟨early, hstanding⟩, -⟩ := (hfits.held_of_activity hactivity rfl).of_returning
    rw [hphase, hstanding]
    exact ⟨early, rfl⟩
  · intro hidle notice hnotice x
    have hplace : some notice.core = p.notice := by
      have hmap : r.notice.map ExitNotice.core = p.notice := congrArg Fiber.notice hcore
      rw [hnotice] at hmap
      exact hmap
    rw [hfits.notice_iff hidle hplace, hphase, hexits, Standing.phase_eq_done_iff]
    cases hexit : p.standing.exit? with
    | none => simp
    | some y => simp

/-- A fiber that is done stays done, in the same state. -/
theorem Reachable.stays_done (h : Reachable es m) (hf : m.world.fiber? f = some r) (hdone : r.phase = .done)
    (htransitions : Transitions m es' m') :
    ∃ r', m'.world.fiber? f = some r' ∧ r'.phase = .done ∧ r'.state = r.state := by
  obtain ⟨p, home, -, hfits, hcore⟩ := h.course hf
  have hphase : r.phase = p.standing.phase := congrArg Fiber.phase hcore
  have houtcome : r.outcome = p.standing.exit?.elim .runnable .ofExit := congrArg Fiber.outcome hcore
  obtain ⟨x, hx⟩ := Standing.phase_eq_done_iff.1 (hphase.symm.trans hdone)
  obtain ⟨q, hmoves, hq⟩ := htransitions.fits hfits
  have hqx := hmoves.exit? hx
  obtain ⟨home', hrecord⟩ := hq.record
  obtain ⟨r', hf', hcore'⟩ := World.fiber?_of_record hrecord
  have hphase' : r'.phase = q.standing.phase := congrArg Fiber.phase hcore'
  have houtcome' : r'.outcome = q.standing.exit?.elim .runnable .ofExit := congrArg Fiber.outcome hcore'
  have hdone' : r'.phase = .done := hphase'.trans (Standing.phase_eq_done_iff.2 ⟨x, hqx⟩)
  refine ⟨r', hf', hdone', ?_⟩
  rw [Fiber.state, Fiber.state, hdone, hdone', houtcome, houtcome', hx, hqx]

/-- **In every reachable moment of the runtime each launched fiber is held exactly once, by what its phase says,
and exits at most once.** It has exited, and its hook is called, exactly when it becomes done; from then on it is
done in the state of that exit, whatever happens next. -/
theorem Reachable.one_holder_one_exit (h : Reachable es m) (hf : m.world.fiber? f = some r) :
    HeldOnce es m f r ∧
      (r.phase = .done → ∀ es' m', Transitions m es' m' →
        ∃ r', m'.world.fiber? f = some r' ∧ r'.phase = .done ∧ r'.state = r.state) :=
  ⟨h.heldOnce hf, fun hdone _ _ htransitions => h.stays_done hf hdone htransitions⟩

/-- A fiber that was forked and given a turn has exited once. -/
theorem Reachable.one_exit_of_pass : ∃ es r,
    Reachable es ⟨((Scenario.initial {} []).fork .unitValue).2.pass, .idle⟩ ∧
      ((Scenario.initial {} []).fork .unitValue).2.pass.fiber? ⟨0⟩ = some r ∧ r.state = .completed ∧
      HeldOnce es ⟨((Scenario.initial {} []).fork .unitValue).2.pass, .idle⟩ ⟨0⟩ r := by
  have hfork : Between (Scenario.initial {} []) ((Scenario.initial {} []).fork .unitValue).2 :=
    Between.requested (PermitsCommon.launch (R := Requested) _ .unitValue .publish)
  obtain ⟨es, hes⟩ := (Reachable.initial {} []).between (hfork.trans (Between.pass _))
  exact ⟨[] ++ es, _, hes, rfl, rfl, (Reachable.one_holder_one_exit hes rfl).1⟩

end Main

end FiberLoop
