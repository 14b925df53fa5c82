import FiberLoop.Proofs.Runtime.Queueing
import FiberLoop.Proofs.Runtime.Scenes

/-!
# Waking

A fiber that was parked `Rests` until it goes on: it is asleep, or a task that goes on with it waits in the loop on
which it lives. A loop takes its tasks in the order in which they were queued, so of two fibers that live on one loop
that one goes on first which was roused first (`Scene.Resumes.of_ahead`).
-/

namespace FiberLoop

/-- The tasks that go on with a fiber that was parked. -/
inductive Task.Rouses (f : FiberId) (run : Run) (canceler : Canceler) : Task → Prop where
  | resume (x : Exit Value Value) : Rouses f run canceler (.resume f run (.ofExit x))
  | unwind : Rouses f run canceler (.unwind f canceler run)

theorem Task.Rouses.fiber? {f : FiberId} {run : Run} {canceler : Canceler} {t : Task} (h : t.Rouses f run canceler) :
    t.fiber? = some f := by
  cases h with
  | _ => rfl

/-- A fiber that was parked goes on. -/
inductive Activity.GoesOn (f : FiberId) (run : Run) (canceler : Canceler) : Activity → Prop where
  | resume (left : Nat) (x : Exit Value Value) : GoesOn f run canceler (.running f left ⟨run, .ofExit x⟩)
  | unwind (left : Nat) : GoesOn f run canceler (.canceling f left run canceler)

namespace World

/-- The loop of that name. -/
def loopAt (name : LoopName) (w : World) : EventLoop := if name = w.here then w.loop else w.aside

variable {u v w w' : World} {f g : FiberId} {home name : LoopName} {run : Run} {canceler : Canceler} {es : Chronicle}
  {t t' : Task} {message : Message} {rest : List Message}

theorem Extends.loopAt (h : w.Extends w') (name : LoopName) : (w.loopAt name).inbox <+: (w'.loopAt name).inbox := by
  unfold World.loopAt
  rw [h.here]
  split
  · exact h.loop.inbox
  · exact h.aside.inbox

@[simp] theorem loopAt_switch (name : LoopName) (w : World) : w.switch.loopAt name = w.loopAt name := by
  unfold loopAt switch
  cases name <;> cases w.here <;> rfl

theorem loopAt_here (w : World) : w.loopAt w.here = w.loop := if_pos rfl

/-- A task that was sent to a loop waits there. -/
theorem mem_loopAt_dispatchTo (name : LoopName) (t : Task) (w : World) :
    .task t ∈ ((w.dispatchTo name t).loopAt name).inbox := by
  unfold dispatchTo
  split
  · rename_i hname
    rw [hname, show w.here = (w.dispatch t).here from rfl, loopAt_here]
    exact List.mem_append_right _ (List.mem_singleton_self _)
  · rename_i hname
    unfold loopAt
    rw [if_neg hname]
    exact List.mem_append_right _ (List.mem_singleton_self _)

/-- A task that is sent to a loop comes to the end of its inbox, and nothing comes to the other loop. -/
theorem inbox_dispatchTo (home name : LoopName) (t : Task) (w : World) :
    ((w.dispatchTo home t).loopAt name).inbox =
      (w.loopAt name).inbox ++ if home = name then [.task t] else [] := by
  have hhere (v : World) (h : v.here = w.here) : v.loopAt name = if name = w.here then v.loop else v.aside := by
    rw [loopAt, h]
  unfold dispatchTo
  split
  · rename_i hhome
    rw [hhere (w.dispatch t) rfl, hhere w rfl]
    by_cases hname : name = w.here
    · rw [if_pos hname, if_pos hname, if_pos (hhome.trans hname.symm)]
      rfl
    · rw [if_neg hname, if_neg hname, if_neg fun he => hname (he.symm.trans hhome), List.append_nil]
      rfl
  · rename_i hhome
    rw [hhere { w with aside := w.aside.queue t } rfl, hhere w rfl]
    by_cases hname : name = w.here
    · rw [if_pos hname, if_pos hname, if_neg fun he => hhome (he.trans hname), List.append_nil]
    · have hsame : home = name := by
        revert hhome hname
        cases home <;> cases name <;> cases w.here <;> simp
      rw [if_neg hname, if_neg hname, if_pos hsame]
      rfl

/-- A task that goes on with a fiber is one of its tokens, in whatever loop it waits. -/
theorem mem_tokens_of_loopAt (h : .task t ∈ (w.loopAt name).inbox) (ht : t.fiber? = some f) : t ∈ w.tokens f := by
  have htoken : Message.token? f (.task t) = some t := token?_task_self ht
  unfold loopAt at h
  split at h
  · exact List.mem_append_left _ (List.mem_filterMap.2 ⟨_, h, htoken⟩)
  · exact List.mem_append_right _ (List.mem_filterMap.2 ⟨_, h, htoken⟩)

/-! ## Fibers that rest -/

/-- A fiber that was parked. -/
def Asleep (f : FiberId) (home : LoopName) (run : Run) (canceler : Canceler) (w : World) : Prop :=
  ∃ r, w.record f = some r ∧ r.home = home ∧ r.phase = .suspended run canceler

/-- A fiber that was parked and has not gone on yet. -/
inductive Rests (f : FiberId) (home : LoopName) (run : Run) (canceler : Canceler) (w : World) : Prop where
  | asleep (h : w.Asleep f home run canceler)
  | roused {t : Task} (ht : t.Rouses f run canceler) (h : .task t ∈ (w.loopAt home).inbox)

/-- A fiber rests while nothing happens to it. -/
theorem Rests.mono (h : w.Rests f home run canceler) (hextends : w.Extends w') (hrecord : w'.record f = w.record f) :
    w'.Rests f home run canceler := by
  cases h with
  | asleep h =>
    obtain ⟨r, hr, hasleep⟩ := h
    exact .asleep ⟨r, hrecord.trans hr, hasleep⟩
  | roused ht h => exact .roused ht ((hextends.loopAt home).subset h)

theorem Rests.interrupt (h : w.Rests f home run canceler) (g : FiberId) : (w.interrupt g).Rests f home run canceler := by
  have hextends := Extends.interrupt w g
  by_cases hg : g = f
  · subst hg
    cases h with
    | asleep h =>
      obtain ⟨r, hr, hhome, hphase⟩ := h
      cases hflag : r.interruptRequested with
      | true =>
        rw [(interrupt_of_record hr hflag).1]
        exact .asleep ⟨r, hr, hhome, hphase⟩
      | false =>
        cases hmasks : run.masks.isInterruptible with
        | true =>
          rw [(interrupt_of_open hr hflag hphase hmasks).1, hhome]
          exact .roused .unwind (mem_loopAt_dispatchTo _ _ _)
        | false =>
          rw [(interrupt_of_masked hr hflag hphase hmasks).1]
          exact .asleep ⟨_, record_modifyFiber hr fun _ => rfl, hhome, hphase⟩
    | roused ht h => exact .roused ht ((hextends.loopAt home).subset h)
  · exact h.mono hextends (record_interrupt_of_ne hg w)

theorem Rests.settle (h : w.Rests f home run canceler) (callback : Callback) (x : Exit Value Value) :
    (w.settle callback x).Rests f home run canceler := by
  have hextends := Extends.settle w callback x
  by_cases hg : callback.fiber = f
  · subst hg
    cases h with
    | asleep h =>
      obtain ⟨r, hr, hhome, hphase⟩ := h
      by_cases hepoch : r.epoch = callback.epoch
      · rw [(settle_of_suspended hr hepoch hphase x).1, hhome]
        exact .roused (.resume x) (mem_loopAt_dispatchTo _ _ _)
      · rw [(settle_of_record_epoch hr hepoch x).1]
        exact .asleep ⟨r, hr, hhome, hphase⟩
    | roused ht h => exact .roused ht ((hextends.loopAt home).subset h)
  · exact h.mono hextends (record_settle_of_ne hg x w)

theorem Rests.request (h : w.Rests f home run canceler) (hrequest : Request w es w') : w'.Rests f home run canceler := by
  have hextends := Extends.request hrequest
  cases hrequest with
  | quiet hquiet => exact h.mono hextends (hquiet.record f)
  | interrupt g => exact h.interrupt g
  | settle callback x => exact h.settle callback x
  | launch root hook =>
    cases h with
    | asleep h =>
      obtain ⟨r, hr, hhome, hphase⟩ := h
      obtain ⟨fiber, hf, rfl⟩ := fiber?_of_record hr
      have hsame : (w.launch root hook hook.notice).2.fiber? f = some fiber := by
        have hpush := Table.get?_push w.fibers
          { home := w.here, phase := .created root, hook := some hook, notice := hook.notice } f.index
        have hlt : f.index < w.fibers.size := (Table.isSome_get?_iff _ _).1 (Option.isSome_of_eq_some hf)
        rw [if_neg (Nat.ne_of_lt hlt)] at hpush
        exact hpush.trans hf
      refine .asleep ⟨fiber.core, ?_, hhome, hphase⟩
      rw [record, hsame]
      rfl
    | roused ht h => exact .roused ht ((hextends.loopAt home).subset h)

/-! ## What spares a fiber -/

/-- A change that lets a fiber rest. -/
structure Spares (f : FiberId) (w w' : World) : Prop where
  grown : w.Extends w'
  rests : ∀ home run canceler, w.Rests f home run canceler → w'.Rests f home run canceler

namespace Spares

theorem refl (f : FiberId) (w : World) : w.Spares f w := ⟨.refl w, fun _ _ _ h => h⟩

theorem trans (h : u.Spares f v) (h' : v.Spares f w) : u.Spares f w :=
  ⟨h.grown.trans h'.grown, fun home run canceler hrests => h'.rests _ _ _ (h.rests home run canceler hrests)⟩

theorem mono (hextends : w.Extends w') (hrecord : w'.record f = w.record f) : w.Spares f w' :=
  ⟨hextends, fun _ _ _ h => h.mono hextends hrecord⟩

theorem requested (h : Requested w w') : w.Spares f w' := by
  obtain ⟨es, hrequests⟩ := h
  induction hrequests with
  | refl w => exact refl f w
  | step first _ ih => exact trans ⟨.request first, fun _ _ _ h => h.request first⟩ ih

theorem modifyFiber (hg : g ≠ f) (w : World) (change : Fiber → Fiber) : w.Spares f (w.modifyFiber g change) :=
  mono (.modifyFiber w g change) (record_modifyFiber_of_ne hg w change)

/-! ## Steps of others -/

theorem act (hg : g ≠ f) (w : World) (left : Nat) (s : Stand) : w.Spares f (w.act g left s).world := by
  unfold World.act
  cases s.deed with
  | move s' => exact refl f w
  | call c run =>
    dsimp only
    split
    · exact refl f w
    · exact requested ((Act.Keeps.call (R := Requested) c).caught w)
  | register r =>
    dsimp only
    split
    · exact refl f w
    · exact modifyFiber hg w _
  | exit x =>
    dsimp only
    split
    · exact modifyFiber hg w _
    · exact modifyFiber hg w _

theorem beginRegistration (hg : g ≠ f) (w : World) (left : Nat) (run : Run) (r : Registration) (epoch : Nat) :
    w.Spares f (w.beginRegistration g left run r epoch).world := by
  have hrun : w.Spares f ((r.run ⟨g, epoch⟩).caught w).2 :=
    requested ((Act.Keeps.registration (R := Requested) r ⟨g, epoch⟩).caught w)
  unfold World.beginRegistration
  split
  · rename_i heq
    rw [heq] at hrun
    exact hrun.trans (modifyFiber hg _ _)
  · rename_i heq
    rw [heq] at hrun
    exact hrun

theorem leaveRegistration (hg : g ≠ f) (w : World) (left : Nat) (run : Run) (c : Canceler) :
    w.Spares f (w.leaveRegistration g left run c).world := by
  unfold World.leaveRegistration
  split
  · exact modifyFiber hg w _
  · split
    · exact modifyFiber hg w _
    · exact modifyFiber hg w _
  · exact refl f w

theorem announce (hg : g ≠ f) (w : World) (x : Exit Value Value) (hook : ExitHook) :
    w.Spares f (w.announce g x hook) := by
  unfold World.announce
  split
  · exact modifyFiber hg w _
  · exact refl f w

/-- In the middle of the activity of another fiber. -/
theorem next {m : Moment} (hbusy : m.activity ≠ .idle) (hother : m.activity.fiber? ≠ some f) :
    m.world.Spares f m.next.world := by
  obtain ⟨w, a⟩ := m
  cases a with
  | idle => exact absurd rfl hbusy
  | running g left s =>
    have hg : g ≠ f := fun he => hother (congrArg some he)
    cases left with
    | zero => exact mono (.dispatch w _) rfl
    | succ left => exact act hg w left s
  | registering g left run r epoch => exact beginRegistration (fun he => hother (congrArg some he)) w left run r epoch
  | returning g left run c => exact leaveRegistration (fun he => hother (congrArg some he)) w left run c
  | canceling g left run c => exact requested ((Act.Keeps.canceler (R := Requested) c).attempt w)
  | exiting g x hook =>
    exact (announce (fun he => hother (congrArg some he)) w x hook).trans (requested (Requested.tell w g x hook))

theorem fireDue (h : w.TimersQuiet) : w.Spares f w.fireDue := by
  have hlater : w.Spares f { w with loop :=
      { w.loop with timers := w.loop.timers.dropWhile (·.deadline ≤ w.clock) } } :=
    mono ⟨⟨rfl, List.prefix_rfl⟩, .refl _, rfl⟩ rfl
  refine hlater.trans (requested (.fireAll (fun t ht => ?_) _))
  exact h.loop.timers t ((List.takeWhile_prefix _).subset ht)

/-- The task of another fiber begins, or a message is handled that concerns no fiber. -/
theorem takeUp (hmessage : message.token? f = none) (w : World) : w.Spares f (w.takeUp message).world := by
  cases message with
  | timer deadline timer task => exact mono ⟨⟨rfl, List.prefix_rfl⟩, .refl _, rfl⟩ rfl
  | shutdown => exact mono ⟨⟨rfl, List.prefix_rfl⟩, .refl _, rfl⟩ rfl
  | task task =>
    cases task with
    | succeed callback v => exact ⟨.settle w callback _, fun _ _ _ h => h.settle callback _⟩
    | actions list env => exact requested ((Act.Keeps.actions env none list).attempt w)
    | resume g run next => exact refl f w
    | unwind g c run => exact refl f w
    | start g =>
      have hg : g ≠ f := by
        rintro rfl
        rw [token?_task_self rfl] at hmessage
        cases hmessage
      unfold World.takeUp
      dsimp only
      split
      · exact modifyFiber hg w _
      · exact refl f w

end Spares

theorem Rests.dropMessage (h : w.Rests f home run canceler) (hinbox : w.loop.inbox = message :: rest)
    (hmessage : message.token? f = none) : w.dropMessage.Rests f home run canceler := by
  have hstays (t : Task) (ht : t.fiber? = some f) (hmem : .task t ∈ (w.loopAt home).inbox) :
      .task t ∈ (w.dropMessage.loopAt home).inbox := by
    unfold loopAt World.dropMessage at *
    dsimp only
    split at hmem
    · rename_i hhome
      rw [if_pos hhome]
      rw [hinbox] at hmem ⊢
      refine (List.mem_cons.1 hmem).resolve_left ?_
      rintro rfl
      rw [token?_task_self ht] at hmessage
      cases hmessage
    · rename_i hhome
      rwa [if_neg hhome]
  cases h with
  | asleep h => exact .asleep h
  | roused ht h => exact .roused ht (hstays _ ht.fiber? h)

theorem Rests.switch (h : w.Rests f home run canceler) : w.switch.Rests f home run canceler := by
  cases h with
  | asleep h => exact .asleep h
  | roused ht h => exact .roused ht (loopAt_switch home w ▸ h)

end World

/-! ## Strokes -/

/-- What a stroke is for the fibers that do nothing in it. -/
inductive Turn : Moment → Moment → Prop where
  | go {m m' : Moment} (h : ∀ f, m.activity.fiber? ≠ some f → m.world.Spares f m'.world)
    (hactivity : m'.activity = .idle ∨ m'.activity.fiber? = m.activity.fiber?) : Turn m m'
  | switch (w : World) : Turn ⟨w, .idle⟩ ⟨w.switch, .idle⟩
  /-- Timers have run, and a message is taken. -/
  | take {w v : World} {message : Message} {rest : List Message} (hleads : LeadsTo ⟨w, .idle⟩ ⟨v, .idle⟩)
    (h : ∀ f, w.Spares f v) (hinbox : v.loop.inbox = message :: rest) :
    Turn ⟨w, .idle⟩ (v.dropMessage.takeUp message)

/-- A fiber goes on with its own activity, or the loop is idle. -/
theorem Moment.activity_next {m : Moment} (hbusy : m.activity ≠ .idle) :
    m.next.activity = .idle ∨ m.next.activity.fiber? = m.activity.fiber? := by
  obtain ⟨w, a⟩ := m
  cases a with
  | idle => exact absurd rfl hbusy
  | running g left s =>
    cases left with
    | zero => exact Or.inl rfl
    | succ left =>
      simp only [next, World.act]
      cases s.deed with
      | move s' => exact Or.inr rfl
      | call c run =>
        dsimp only
        split <;> exact Or.inr rfl
      | register r =>
        dsimp only
        split <;> exact Or.inr rfl
      | exit x =>
        dsimp only
        split
        · exact Or.inr rfl
        · exact Or.inl rfl
  | registering g left run r epoch =>
    simp only [next, World.beginRegistration]
    split <;> exact Or.inr rfl
  | returning g left run c =>
    simp only [next, World.leaveRegistration]
    split
    · exact Or.inr rfl
    · split
      · exact Or.inr rfl
      · exact Or.inl rfl
    · exact Or.inr rfl
  | canceling g left run c => exact Or.inr rfl
  | exiting g x hook => exact Or.inl rfl

theorem Scene.turn_play {s : Scene} (hquiet : s.moment.world.TimersQuiet) (stroke : Stroke) :
    Turn s.moment (s.play stroke).moment := by
  obtain ⟨⟨w, a⟩, kept⟩ := s
  have hsame (a : Activity) : Turn ⟨w, a⟩ ⟨w, a⟩ := .go (fun f _ => .refl f w) (Or.inr rfl)
  cases stroke with
  | next =>
    by_cases hidle : a = .idle
    · subst hidle
      simp only [play, Moment.next]
      split
      · exact hsame .idle
      · unfold World.takeNext
        cases hinbox : w.fireDue.loop.inbox with
        | nil => exact .go (fun f _ => .fireDue hquiet) (Or.inl rfl)
        | cons message rest => exact .take (.fireDue hquiet) (fun f => .fireDue hquiet) hinbox
    · exact .go (fun f hf => .next hidle hf) (Moment.activity_next hidle)
  | fire =>
    cases a with
    | idle =>
      simp only [play, between]
      split
      · exact hsame .idle
      · exact .go (fun f _ => .fireDue hquiet) (Or.inl rfl)
    | _ => exact hsame _
  | switch =>
    cases a with
    | idle => exact .switch w
    | _ => exact hsame _
  | clock time =>
    cases a with
    | idle => exact .go (fun f _ => .mono ⟨.refl _, .refl _, rfl⟩ rfl) (Or.inl rfl)
    | _ => exact hsame _
  | demand d =>
    have hrequested := (TracksAll.demand (J := Keeping Requested) kept d).keeps w
    simp only [play]
    cases hrun : (d.act kept).run w with
    | mk result v =>
      rw [hrun] at hrequested
      cases result with
      | ok more => exact .go (fun f _ => .requested hrequested) (Or.inr rfl)
      | error defect => exact .go (fun f _ => .requested hrequested) (Or.inr rfl)

/-- A fiber for which a task waits does nothing. -/
theorem Held.idle_of_token {f : FiberId} {epoch : Nat} {hook : ExitHook} {s : Standing} {t : Task} {a : Activity}
    (h : Held f epoch hook s [t] a) : a = .idle := by
  cases h with
  | _ => rfl

section Waking

variable {f g : FiberId} {home name : LoopName} {run : Run} {canceler : Canceler} {w v : World} {m m' : Moment} {a : Activity}
  {p : Place} {t t' : Task} {rest : List Message} {x : Exit Value Value}

namespace World

/-- A fiber that is asleep is parked. -/
theorem Asleep.standing (h : w.Asleep f home run canceler) (hfits : Fits f (w.view f a) p) :
    p.standing = .parked run canceler := by
  obtain ⟨r, hr, -, hphase⟩ := h
  obtain ⟨home', hrecord⟩ := hfits.record
  cases hr.symm.trans hrecord
  have hphase' : p.standing.phase = .suspended run canceler := hphase
  cases hp : p.standing with
  | parked run' canceler' =>
    rw [hp] at hphase'
    cases hphase'
    rfl
  | _ =>
    rw [hp] at hphase'
    cases hphase'

/-- What a fiber that rests is held by. -/
theorem Rests.held (h : w.Rests f home run canceler) (hfits : Fits f (w.view f a) p) : a = .idle ∧
    (w.tokens f = [] ∧ p.standing = .parked run canceler ∨
      ∃ t : Task, t.Rouses f run canceler ∧ w.tokens f = [t] ∧ .task t ∈ (w.loopAt home).inbox) := by
  have hheld : Held f p.epoch p.hook p.standing (w.tokens f) a := hfits.held
  cases h with
  | asleep h =>
    have hstanding := h.standing hfits
    rw [hstanding] at hheld
    exact ⟨hheld.of_parked.2, Or.inl ⟨hheld.of_parked.1, hstanding⟩⟩
  | roused ht h =>
    have hmem := mem_tokens_of_loopAt h ht.fiber?
    rcases hheld.tokens_cases with hnil | ⟨t, hone⟩
    · rw [hnil] at hmem
      cases hmem
    · rw [hone] at hmem hheld
      cases List.mem_singleton.1 hmem
      exact ⟨hheld.idle_of_token, Or.inr ⟨_, ht, hone, h⟩⟩

/-- A fiber that rests does nothing. -/
theorem Rests.inactive (h : m.world.Rests f home run canceler) (hfits : Fits f (m.view f) p) :
    m.activity.fiber? ≠ some f := by
  intro hactive
  have hidle := (h.held hfits).1
  rw [Activity.of_self hactive] at hidle
  rw [hidle] at hactive
  cases hactive

/-- The task that is taken for a fiber that rests. -/
theorem Rests.taken (h : w.Rests f home run canceler) (hfits : Fits f (w.view f .idle) p)
    (hinbox : w.loop.inbox = .task t :: rest) (ht : t.fiber? = some f) :
    t.Rouses f run canceler ∧ home = w.here := by
  have hmem : t ∈ w.loop.tokens f := List.mem_filterMap.2 ⟨_, hinbox ▸ List.mem_cons_self, token?_task_self ht⟩
  have htokens : w.tokens f = w.loop.tokens f ++ w.aside.tokens f := rfl
  rcases (h.held hfits).2 with ⟨hnil, -⟩ | ⟨t', ht', hone, hwaits⟩
  · rw [hnil] at htokens
    rw [(List.append_eq_nil_iff.1 htokens.symm).1] at hmem
    cases hmem
  · cases List.mem_singleton.1 (hone ▸ htokens ▸ List.mem_append_left _ hmem : t ∈ [t'])
    refine ⟨ht', Classical.byContradiction fun haside => ?_⟩
    rw [loopAt, if_neg haside] at hwaits
    have hother : t ∈ w.aside.tokens f := List.mem_filterMap.2 ⟨_, hwaits, token?_task_self ht⟩
    have hlength : (w.loop.tokens f).length + (w.aside.tokens f).length = 1 := by
      rw [← List.length_append, ← htokens, hone]
      rfl
    have hfirst := List.length_pos_of_mem hmem
    have hsecond := List.length_pos_of_mem hother
    omega

/-- What is taken up for a fiber that rests goes on with it. -/
theorem goesOn_takeUp (ht : t.Rouses f run canceler) (w : World) : (w.takeUp (.task t)).activity.GoesOn f run canceler := by
  cases ht with
  | resume x => exact .resume _ x
  | unwind => exact .unwind _

/-- Where a task waits in a loop, and another one not before it. -/
def Ahead (name : LoopName) (t t' : Task) (w : World) : Prop :=
  ∃ before after, (w.loopAt name).inbox = before ++ .task t :: after ∧ .task t' ∉ before

theorem Ahead.mono (h : w.Ahead name t t') (hgrown : w.Extends v) : v.Ahead name t t' := by
  obtain ⟨before, after, hinbox, hnot⟩ := h
  obtain ⟨more, hmore⟩ := hgrown.loopAt name
  exact ⟨before, after ++ more, by rw [← hmore, hinbox, List.append_assoc]; rfl, hnot⟩

/-- The other task is not taken first. -/
theorem Ahead.head (h : w.Ahead w.here t t') (hinbox : w.loop.inbox = .task t' :: rest) : t' = t := by
  obtain ⟨before, after, hbefore, hnot⟩ := h
  rw [loopAt_here, hinbox] at hbefore
  cases before with
  | nil => exact Message.task.inj (List.cons.inj hbefore).1
  | cons message before => exact absurd ((List.cons.inj hbefore).1 ▸ List.mem_cons_self) hnot

theorem Ahead.dropMessage (h : w.Ahead name t t') {message : Message} (hinbox : w.loop.inbox = message :: rest)
    (hmessage : name = w.here → message ≠ .task t) : w.dropMessage.Ahead name t t' := by
  obtain ⟨before, after, hbefore, hnot⟩ := h
  unfold Ahead loopAt World.dropMessage at *
  dsimp only
  split at hbefore
  · rename_i hname
    rw [if_pos hname]
    rw [hinbox] at hbefore ⊢
    cases before with
    | nil => exact absurd (List.cons.inj hbefore).1 (hmessage hname)
    | cons message' before =>
      exact ⟨before, after, (List.cons.inj hbefore).2, fun hmem => hnot (List.mem_cons_of_mem _ hmem)⟩
  · rename_i hname
    rw [if_neg hname]
    exact ⟨before, after, hbefore, hnot⟩

end World

theorem Message.eq_of_token? {message : Message} (h : message.token? f = some t) :
    message = .task t ∧ t.fiber? = some f := by
  cases message with
  | task t' =>
    rw [Message.token?, Option.ite_none_right_eq_some] at h
    obtain ⟨ht, hsome⟩ := h
    cases hsome
    exact ⟨rfl, ht⟩
  | _ => cases h

/-- A message that does not go on with a fiber. -/
theorem World.activity_takeUp {message : Message} (h : message.token? f = none) (w : World) :
    (w.takeUp message).activity.fiber? ≠ some f := by
  intro hactive
  cases message with
  | timer | shutdown => cases hactive
  | task t =>
    have ht : t.fiber? ≠ some f := fun ht => nomatch (token?_task_self ht).symm.trans h
    cases t with
    | succeed | actions => cases hactive
    | resume | unwind => exact ht hactive
    | start g =>
      unfold World.takeUp at hactive
      dsimp only at hactive
      split at hactive
      · exact ht hactive
      · cases hactive

namespace Turn

/-- A fiber that rests goes on resting, or it is taken up again. -/
theorem rests (hturn : Turn m m') (h : m.world.Rests f home run canceler) (hfits : Fits f (m.view f) p) :
    m'.world.Rests f home run canceler ∨ m'.activity.GoesOn f run canceler := by
  have hinactive := h.inactive hfits
  cases hturn with
  | go hspares hactivity => exact Or.inl ((hspares f hinactive).rests _ _ _ h)
  | switch w => exact Or.inl h.switch
  | @take w v message rest hleads hspares hinbox =>
    have hv := (hspares f).rests _ _ _ h
    cases htoken : message.token? f with
    | none => exact Or.inl ((World.Spares.takeUp htoken _).rests _ _ _ (hv.dropMessage hinbox htoken))
    | some t =>
      obtain ⟨rfl, ht⟩ := Message.eq_of_token? htoken
      obtain ⟨es, htransitions⟩ := hleads
      obtain ⟨q, -, hq⟩ := htransitions.fits hfits
      rw [Moment.view_idle] at hq
      exact Or.inr (World.goesOn_takeUp (hv.taken hq hinbox ht).1 _)

/-- What waits ahead of something else stays ahead of it, or it is taken. -/
theorem ahead (hturn : Turn m m') (h : m.world.Ahead home t t') (ht : t.Rouses f run canceler)
    (hf : m.activity.fiber? ≠ some f) : m'.world.Ahead home t t' ∨ m'.activity.GoesOn f run canceler := by
  cases hturn with
  | go hspares hactivity => exact Or.inl (h.mono (hspares f hf).grown)
  | switch w =>
    obtain ⟨before, after, hinbox, hnot⟩ := h
    exact Or.inl ⟨before, after, (World.loopAt_switch home w).symm ▸ hinbox, hnot⟩
  | @take w v message rest hleads hspares hinbox =>
    have hv := h.mono (hspares f).grown
    by_cases hmessage : message = .task t
    · subst hmessage
      exact Or.inr (World.goesOn_takeUp ht _)
    · have hdrop := hv.dropMessage hinbox fun _ => hmessage
      exact Or.inl (hdrop.mono (World.Extends.takeUp message _))

/-- The other one of two fibers that live on one loop is not taken up again first. -/
theorem not_before (hturn : Turn m m') {run' : Run} {canceler' : Canceler} {y : Exit Value Value} {left : Nat}
    (h : m.world.Ahead home t (.resume g run' (.ofExit y))) (hrests : m.world.Rests g home run' canceler')
    (hfits : Fits g (m.view g) p) (ht : t.fiber? ≠ some g) : m'.activity ≠ .running g left ⟨run', .ofExit y⟩ := by
  intro hgoes
  have hinactive := hrests.inactive hfits
  cases hturn with
  | go hspares hactivity =>
    rw [hgoes] at hactivity
    rcases hactivity with hidle | hsame
    · cases hidle
    · exact hinactive hsame.symm
  | switch w => cases hgoes
  | @take w v message rest hleads hspares hinbox =>
    have hv := (hspares g).rests _ _ _ hrests
    obtain ⟨es, htransitions⟩ := hleads
    obtain ⟨q, -, hq⟩ := htransitions.fits hfits
    rw [Moment.view_idle] at hq
    cases htoken : message.token? g with
    | none =>
      have hother := World.activity_takeUp htoken v.dropMessage
      rw [hgoes] at hother
      exact hother rfl
    | some t' =>
      obtain ⟨rfl, ht'⟩ := Message.eq_of_token? htoken
      obtain ⟨hrouses, rfl⟩ := hv.taken hq hinbox ht'
      cases hrouses with
      | resume z =>
        have hnext : Next.ofExit z = .ofExit y := congrArg Stand.next (Activity.running.inj hgoes).2.2
        have hahead := h.mono (hspares g).grown
        rw [hnext] at hinbox
        cases hahead.head hinbox
        exact ht rfl
      | unwind => cases hgoes

end Turn

/-! ## Who was roused first goes on first -/

/-- A fiber that was parked rests while strokes are played, and goes on with an exit at the end of them. -/
inductive Scene.Resumes (f : FiberId) (home : LoopName) (run : Run) (canceler : Canceler) (x : Exit Value Value) :
    Scene → List Stroke → Prop where
  | goes {s : Scene} {stroke : Stroke} {left : Nat} (hrests : s.moment.world.Rests f home run canceler)
    (h : (s.play stroke).moment.activity = .running f left ⟨run, .ofExit x⟩) : Resumes f home run canceler x s [stroke]
  | waits {s : Scene} {stroke : Stroke} {rest : List Stroke} (hrests : s.moment.world.Rests f home run canceler)
    (h : Resumes f home run canceler x (s.play stroke) rest) : Resumes f home run canceler x s (stroke :: rest)

theorem Scene.Resumes.ne_nil {s : Scene} {strokes : List Stroke} (h : s.Resumes f home run canceler x strokes) :
    strokes ≠ [] := by
  cases h with
  | _ => exact List.cons_ne_nil _ _

/-- Something happens before the end of some strokes. -/
def Scene.Before (happens : Scene → Prop) (s : Scene) (strokes : List Stroke) : Prop :=
  ∃ first rest, rest ≠ [] ∧ strokes = first ++ rest ∧ happens (s.after first)

theorem Scene.Before.cons {happens : Scene → Prop} {s : Scene} {stroke : Stroke} {strokes : List Stroke}
    (h : (s.play stroke).Before happens strokes) : s.Before happens (stroke :: strokes) := by
  obtain ⟨first, rest, hrest, rfl, hfirst⟩ := h
  exact ⟨stroke :: first, rest, hrest, rfl, hfirst⟩

theorem Scene.Before.first {happens : Scene → Prop} {s : Scene} {stroke : Stroke} {strokes : List Stroke}
    (hstrokes : strokes ≠ []) (h : happens (s.play stroke)) : s.Before happens (stroke :: strokes) :=
  ⟨[stroke], strokes, hstrokes, rfl, h⟩

/-- A fiber that rests is there. -/
theorem Scene.Occurs.fits {s : Scene} (hs : s.Occurs) (h : s.moment.world.Rests f home run canceler) :
    ∃ p, Fits f (s.moment.view f) p := by
  rcases hs.absent_or_fits f with habsent | ⟨p, hfits⟩
  · have hrecord : s.moment.world.record f = none := habsent.record
    have htokens : s.moment.world.tokens f = [] := habsent.tokens
    cases h with
    | asleep h =>
      obtain ⟨r, hr, -⟩ := h
      cases hrecord.symm.trans hr
    | roused ht h =>
      have hmem := World.mem_tokens_of_loopAt h ht.fiber?
      rw [htokens] at hmem
      cases hmem
  · exact ⟨p, hfits⟩

theorem Scene.Occurs.turn {s : Scene} (hs : s.Occurs) (stroke : Stroke) : Turn s.moment (s.play stroke).moment :=
  Scene.turn_play hs.timersQuiet stroke

/-- A fiber whose task waits rests. -/
theorem World.Ahead.rests (h : w.Ahead home t t') (ht : t.Rouses f run canceler) : w.Rests f home run canceler := by
  obtain ⟨before, after, hinbox, -⟩ := h
  exact .roused ht (hinbox ▸ List.mem_append_right _ List.mem_cons_self)

/-- **Of two fibers that live on one loop that one goes on first whose task was queued first.** -/
theorem Scene.Resumes.of_ahead {run' : Run} {canceler' : Canceler} {y : Exit Value Value} {s : Scene}
    {strokes : List Stroke} (h : s.Resumes g home run' canceler' y strokes) (hs : s.Occurs) (hfg : f ≠ g)
    (ht : t.Rouses f run canceler) (hahead : s.moment.world.Ahead home t (.resume g run' (.ofExit y))) :
    s.Before (·.moment.activity.GoesOn f run canceler) strokes := by
  induction h with
  | @goes s stroke left hrests hgoes =>
    obtain ⟨p, hfits⟩ := hs.fits hrests
    have htask : t.fiber? ≠ some g := fun he => hfg (Option.some.inj (ht.fiber?.symm.trans he))
    exact absurd hgoes ((hs.turn stroke).not_before hahead hrests hfits htask)
  | @waits s stroke rest hrests hlater ih =>
    have hrest := hahead.rests ht
    obtain ⟨p, hfits⟩ := hs.fits hrest
    rcases (hs.turn stroke).ahead hahead ht (hrest.inactive hfits) with hstill | hgoes
    · exact (ih (hs.after [stroke]) hstill).cons
    · exact .first hlater.ne_nil hgoes

end Waking

end FiberLoop
