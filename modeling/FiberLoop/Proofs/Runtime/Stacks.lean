import Mathlib.Data.List.Basic
import Mathlib.Data.List.Induction
import FiberLoop.Proofs.Runtime.Regions
import FiberLoop.Proofs.Runtime.Scenes
import FiberLoop.Proofs.Runtime.Staying

/-!
# Two stacks in step

The masks of a fiber are a stack of their own beside its frames. Both are pushed when a region is entered and popped
when it is left, with a value or with a cause, and both are moved together from the loop into the record of a parked
fiber, into the tasks that wait for it, and back.

A history of pushes and pops can be read without a stack: a push is still open if no later part of the history pops
more than it pushes (`Masks.Open`). The main result of this module is `Reachable.stacks_in_step`: wherever the run of a
fiber is kept, its masks are those of the regions that the fiber has entered and not left, one for each region frame.
-/

namespace FiberLoop

/-! ## Histories of masks -/

namespace Masks

/-- By how much a step of a history raises the stack. -/
def Move.rise : Move → Int
  | .enter _ => 1
  | .leave => -1

/-- By how much a history raises the stack. -/
def rise : List Move → Int
  | [] => 0
  | move :: rest => move.rise + rise rest

/-- What comes later takes nothing off that was there before: no beginning of it pops more than it pushes. -/
def Retains (later : List Move) : Prop := ∀ part, part <+: later → 0 ≤ rise part

/-- Some push that asked for it is still open. -/
def Open (moves : List Move) (asked : Interruptibility) : Prop :=
  ∃ before later, moves = before ++ .enter asked :: later ∧ Retains later

/-- A push that asked for it is still open under that many others. -/
def OpenUnder (moves : List Move) (asked : Interruptibility) (above : Nat) : Prop :=
  ∃ before later, moves = before ++ .enter asked :: later ∧ Retains later ∧ rise later = above

/-- What the open pushes ask for, innermost first, after one more step. -/
def Move.track (asked : List Interruptibility) : Move → List Interruptibility
  | .enter status => status :: asked
  | .leave => asked.tail

/-- What the open pushes of a history ask for, innermost first. -/
def stillOpen (moves : List Move) : List Interruptibility := moves.foldl Move.track []

section Histories

variable {moves later part : List Move} {move : Move} {asked : Interruptibility} {above : Nat}

theorem rise_concat (moves : List Move) (move : Move) : rise (moves ++ [move]) = rise moves + move.rise := by
  induction moves with
  | nil => exact Int.add_comm ..
  | cons first rest ih => exact (congrArg (first.rise + ·) ih).trans (Int.add_assoc ..).symm

theorem stillOpen_concat (moves : List Move) (move : Move) :
    stillOpen (moves ++ [move]) = move.track (stillOpen moves) := by
  rw [stillOpen, List.foldl_append]
  rfl

theorem Retains.nil : Retains [] := by
  intro part hpart
  rw [List.prefix_nil.1 hpart]
  exact Int.le_refl 0

theorem retains_concat : Retains (later ++ [move]) ↔ Retains later ∧ 0 ≤ rise later + move.rise := by
  constructor
  · intro h
    exact ⟨fun part hpart => h part (hpart.trans (List.prefix_append later [move])),
      rise_concat later move ▸ h _ (List.prefix_refl _)⟩
  · rintro ⟨hlater, hlast⟩ part hpart
    rcases List.prefix_concat_iff.1 hpart with rfl | hbefore
    · exact rise_concat later move ▸ hlast
    · exact hlater part hbefore

/-- The last step of a history opens a push of its own, and moves all others up or down. -/
theorem openUnder_concat : OpenUnder (moves ++ [move]) asked above ↔
    move = .enter asked ∧ above = 0 ∨ ∃ k : Nat, OpenUnder moves asked k ∧ (k : Int) + move.rise = above := by
  constructor
  · rintro ⟨before, later, hsplit, hretains, hrise⟩
    rcases List.eq_nil_or_concat' later with rfl | ⟨later', last, rfl⟩
    · obtain ⟨-, hlast⟩ := List.append_inj' hsplit rfl
      exact Or.inl ⟨List.cons.inj hlast |>.1, Int.ofNat.inj hrise.symm⟩
    · have hsplit' : moves ++ [move] = (before ++ .enter asked :: later') ++ [last] := by
        rw [hsplit, List.append_assoc, List.cons_append]
      obtain ⟨hmoves, hlast⟩ := List.append_inj' hsplit' rfl
      obtain rfl := (List.cons.inj hlast).1
      obtain ⟨hretains', -⟩ := retains_concat.1 hretains
      have hnonneg : 0 ≤ rise later' := hretains' _ (List.prefix_refl _)
      refine Or.inr ⟨(rise later').toNat, ⟨before, later', hmoves, hretains', ?_⟩, ?_⟩
      · exact (Int.toNat_of_nonneg hnonneg).symm
      · rw [Int.toNat_of_nonneg hnonneg, ← rise_concat, hrise]
  · rintro (⟨rfl, rfl⟩ | ⟨k, ⟨before, later, rfl, hretains, hrise⟩, habove⟩)
    · exact ⟨moves, [], rfl, .nil, rfl⟩
    · refine ⟨before, later ++ [move], by simp, retains_concat.2 ⟨hretains, ?_⟩, ?_⟩
      · rw [hrise, habove]
        exact Int.natCast_nonneg above
      · rw [rise_concat, hrise, habove]

/-- The open pushes lie on each other as they were made. -/
theorem stillOpen_getElem? : (stillOpen moves)[above]? = some asked ↔ OpenUnder moves asked above := by
  induction moves using List.reverseRecOn generalizing above with
  | nil =>
    refine ⟨nofun, ?_⟩
    rintro ⟨before, later, hsplit, -, -⟩
    exact absurd hsplit.symm (by simp)
  | append_singleton moves move ih =>
    rw [stillOpen_concat, openUnder_concat]
    cases move with
    | enter status =>
      simp only [Move.track, Move.rise, ← ih, Move.enter.injEq]
      cases above with
      | zero =>
        simp only [List.getElem?_cons_zero, Option.some.injEq, and_true]
        refine ⟨Or.inl, ?_⟩
        rintro (rfl | ⟨k, -, hk⟩)
        · rfl
        · omega
      | succ above =>
        simp only [List.getElem?_cons_succ]
        refine ⟨fun h => Or.inr ⟨above, h, by omega⟩, ?_⟩
        rintro (⟨-, hzero⟩ | ⟨k, h, hk⟩)
        · omega
        · obtain rfl : k = above := by omega
          exact h
    | leave =>
      simp only [Move.track, Move.rise, ← ih, List.getElem?_tail, reduceCtorEq, false_and, false_or]
      refine ⟨fun h => ⟨above + 1, h, by omega⟩, ?_⟩
      rintro ⟨k, h, hk⟩
      obtain rfl : k = above + 1 := by omega
      exact h

theorem mem_stillOpen : asked ∈ stillOpen moves ↔ Open moves asked := by
  rw [List.mem_iff_getElem?]
  simp only [stillOpen_getElem?]
  constructor
  · rintro ⟨above, before, later, hsplit, hretains, -⟩
    exact ⟨before, later, hsplit, hretains⟩
  · rintro ⟨before, later, hsplit, hretains⟩
    exact ⟨(rise later).toNat, before, later, hsplit, hretains,
      (Int.toNat_of_nonneg (hretains _ (List.prefix_refl _))).symm⟩

/-- The masks after a history are those of the open pushes. -/
theorem foldl_move_eq_inside (moves : List Move) : moves.foldl Masks.move {} = inside (stillOpen moves) := by
  induction moves using List.reverseRecOn with
  | nil => rfl
  | append_singleton moves move ih =>
    rw [List.foldl_append, ih, stillOpen_concat]
    cases move with
    | enter status => rfl
    | leave => cases stillOpen moves <;> rfl

theorem depth_inside (asked : List Interruptibility) : (inside asked).depth = asked.length := by
  induction asked with
  | nil => rfl
  | cons status outer ih => rw [inside, depth_push, ih, List.length_cons]

theorem isInterruptible_iff (m : Masks) : m.isInterruptible = true ↔ m.status ≠ .uninterruptible := by
  unfold isInterruptible
  cases m.status <;> simp [Interruptibility.isInterruptible]

/-- **The masks report that a fiber is uninterruptible exactly if some push that is still open asked for that.** -/
theorem status_foldl_move (moves : List Move) :
    (moves.foldl Masks.move {}).status = .uninterruptible ↔ Open moves .uninterruptible := by
  rw [← mem_stillOpen, foldl_move_eq_inside, ← not_iff_not, ← isInterruptible_inside, isInterruptible_iff]

end Histories

end Masks

/-! ## The regions of a trail -/

/-- What the step from a stand does to the masks, if anything. -/
def Stand.crossing? (s : Stand) : Option Masks.Move :=
  match s.next, s.run.frames with
  | .eval (.region _ status), _ => some (.enter status)
  | .value _, .region :: _ => some .leave
  | .cause _, .region :: _ => some .leave
  | _, _ => none

/-- The regions that a fiber has entered and left on its way to the last stand of a trail. -/
def crossings (t : List Step) : List Masks.Move := t.dropLast.filterMap fun b => b.stand.crossing?

theorem Stand.cross_eq (s : Stand) (asked : List Interruptibility) :
    s.cross asked = s.crossing?.elim asked (Masks.Move.track asked) := by
  unfold cross crossing?
  split <;> simp_all [Masks.Move.track]

theorem openRegions_last (t : List Step) : openRegions t (t.length - 1) = Masks.stillOpen (crossings t) := by
  have hfold (steps : List Step) (asked : List Interruptibility) :
      steps.foldl (fun asked b => b.stand.cross asked) asked =
        (steps.filterMap fun b => b.stand.crossing?).foldl Masks.Move.track asked := by
    induction steps generalizing asked with
    | nil => rfl
    | cons b rest ih =>
      rw [List.foldl_cons, ih, Stand.cross_eq, List.filterMap_cons]
      cases b.stand.crossing? <;> rfl
  rw [openRegions, crossings, Masks.stillOpen, List.dropLast_eq_take, hfold]

/-! ## Runs -/

def Frame.isRegion : Frame → Bool
  | .region => true
  | .chain _ | .fold .. => false

/-- The two stacks of a run, after a history of regions entered and left. -/
structure Run.InStep (moves : List Masks.Move) (run : Run) : Prop where
  masks : run.masks = moves.foldl Masks.move {}
  /-- There is a mask for each region frame. -/
  depth : run.masks.depth = run.frames.countP Frame.isRegion
  /-- There is a mask for each region that was entered and not left. -/
  regions : run.masks.depth = (Masks.stillOpen moves).length
  /-- The fiber is interruptible exactly if none of these is uninterruptible. -/
  interruptible : run.masks.isInterruptible = true ↔ ¬ Masks.Open moves .uninterruptible

/-- A run of a fiber is kept somewhere: in its record, in a task that waits for it, or by the loop. -/
inductive Moment.Carries (m : Moment) (f : FiberId) : Run → Prop where
  | parked {run : Run} {canceler : Canceler} (h : m.world.phase? f = some (.suspended run canceler)) : Carries m f run
  /-- Fibers that go on after a wait and fibers that have yielded. -/
  | resumed {run : Run} {next : Next} {home : LoopName}
    (h : .task (.resume f run next) ∈ (m.world.loopAt home).inbox) : Carries m f run
  /-- Fibers that were interrupted in a wait. -/
  | unwound {run : Run} {canceler : Canceler} {home : LoopName}
    (h : .task (.unwind f canceler run) ∈ (m.world.loopAt home).inbox) : Carries m f run
  | active {run : Run} (hfiber : m.activity.fiber? = some f) (hrun : m.activity.run? = some run) : Carries m f run

section Runs

variable {f : FiberId} {m : Moment} {p : Place} {run : Run} {asked : List Interruptibility} {es : Chronicle} {s : Stand}
  {standing : Standing} {last : Option Stand} {events : List Event}

theorem Run.Inside.countP (h : Inside asked run) : run.frames.countP Frame.isRegion = asked.length := by
  induction h with
  | empty => rfl
  | chain _ next ih => exact ih
  | fold _ onValue onCause ih => exact ih
  | region _ status ih => exact (List.countP_cons_of_pos rfl).trans (congrArg Nat.succ ih)

theorem Run.Inside.inStep {moves : List Masks.Move} (h : Inside (Masks.stillOpen moves) run) : run.InStep moves := by
  have hdepth : run.masks.depth = (Masks.stillOpen moves).length := by rw [h.masks, Masks.depth_inside]
  refine ⟨h.masks.trans (Masks.foldl_move_eq_inside moves).symm, hdepth.trans h.countP.symm, hdepth, ?_⟩
  rw [h.masks, Masks.isInterruptible_inside, Masks.mem_stillOpen]

/-- The run of a fiber is that of the last stand of its trail. -/
theorem Follows.run_eq (h : Follows last standing) (hrun : standing.run? = some run) :
    ∃ s, last = some s ∧ s.run = run := by
  cases h with
  | fresh | exiting | done => cases hrun
  | _ => exact ⟨_, rfl, Option.some.inj hrun⟩

/-- A fiber that has ended was about to exit when it took its last step. -/
theorem Follows.exits (h : Follows last standing) (hdone : standing.phase = .done) :
    ∃ s x, last = some s ∧ s.deed = .exit x := by
  cases h with
  | exiting hexit | done hexit => exact ⟨_, _, rfl, hexit⟩
  | _ => cases hdone

/-- Wherever a run is kept, the fiber has come so far with it. -/
theorem Fits.run?_of_carries (h : Fits f (m.view f) p) (hcarries : m.Carries f run) : p.standing.run? = some run := by
  cases hcarries with
  | parked hphase =>
    rw [Standing.phase_eq_suspended (Option.some.inj (h.phase?_eq.symm.trans hphase))]
    rfl
  | resumed htask =>
    rw [h.ready_of_task htask]
    rfl
  | unwound htask => exact h.unwinding_of_task htask
  | active hfiber hrun => exact (h.run?_of_activity hfiber).trans hrun

/-- Nothing is kept of a fiber that is not there. -/
theorem Absent.not_carries (h : Absent f (m.view f)) : ¬ m.Carries f run := by
  have hrecord : m.world.record f = none := h.record
  have htokens : m.world.tokens f = [] := h.tokens
  intro hcarries
  cases hcarries with
  | parked hphase =>
    rw [World.phase?, World.fiber?_of_record_none hrecord] at hphase
    cases hphase
  | resumed htask => exact absurd (World.mem_tokens_of_loopAt htask rfl) (htokens ▸ List.not_mem_nil)
  | unwound htask => exact absurd (World.mem_tokens_of_loopAt htask rfl) (htokens ▸ List.not_mem_nil)
  | active hfiber _ => exact h.foreign.activity hfiber

/-- The last stand of a trail is inside the regions that were entered and not left. -/
theorem Course.inside_last (h : Course events p) (hlast : lastStand (events.filterMap Event.step?) = some s) :
    Run.Inside (Masks.stillOpen (crossings (events.filterMap Event.step?))) s.run := by
  obtain ⟨root, hook, -, hbegins⟩ := h.begins
  rcases hbegins with ⟨-, hnil⟩ | hroot
  · rw [hnil] at hlast
    cases hlast
  · rw [← openRegions_last]
    exact h.walked.linked.inside hroot hlast

/-- Under a region frame there is its mask. -/
theorem Run.Inside.masks_ne_nil {rest : List Frame} (h : Inside asked run) (hframes : run.frames = .region :: rest) :
    run.masks.frames ≠ [] := by
  cases h with
  | empty | chain | fold => cases hframes
  | region => exact List.cons_ne_nil _ _

/-- A run without frames has no masks either. -/
theorem Run.Inside.eq_empty (h : Inside asked run) (hframes : run.frames = []) : run = {} := by
  cases h with
  | empty => rfl
  | chain | fold | region => cases hframes

theorem Stand.frames_of_exit {x : Exit Value Value} (h : s.deed = .exit x) : s.run.frames = [] := by
  obtain ⟨⟨frames, masks⟩, next⟩ := s
  cases next with
  | eval e => cases e <;> cases h
  | value v | cause c =>
    cases frames with
    | nil => rfl
    | cons frame rest => cases frame <;> cases h

theorem Stand.frames_of_leave (h : s.crossing? = some .leave) : ∃ rest, s.run.frames = .region :: rest := by
  unfold crossing? at h
  split at h
  · cases h
  · exact ⟨_, ‹_›⟩
  · exact ⟨_, ‹_›⟩
  · cases h

/-! ## The main result -/

/-- The frames and the masks of a fiber at a moment, in view of what has happened before. -/
structure StacksInStep (f : FiberId) (es : Chronicle) (m : Moment) : Prop where
  /-- Wherever a run of the fiber is kept. -/
  carried : ∀ run, m.Carries f run → run.InStep (crossings (trail f es))
  /-- A mask is popped only if there is one. -/
  leaves : ∀ left s, m.activity = .running f left s → s.crossing? = some .leave → s.run.masks.frames ≠ []
  /-- A fiber that is about to end has neither frames nor masks. -/
  exits : ∀ left s x, m.activity = .running f left s → s.deed = .exit x → s.run = {}
  /-- So had a fiber that has ended. -/
  ended : m.world.phase? f = some .done → ∃ s x, lastStand (trail f es) = some s ∧ s.deed = .exit x ∧ s.run = {}

/-- In every run the kept run of a fiber is inside the regions that its trail has entered and not left. -/
theorem Reachable.inside_of_carries (h : Reachable es m) (hcarries : m.Carries f run) :
    Run.Inside (Masks.stillOpen (crossings (trail f es))) run := by
  rcases (h.accounted f).cases with ⟨-, habsent⟩ | ⟨p, hcourse, hfits⟩
  · exact absurd hcarries habsent.not_carries
  · obtain ⟨s, hlast, rfl⟩ := hcourse.walked.follows.run_eq (hfits.run?_of_carries hcarries)
    exact hcourse.inside_last hlast

/-- In every run a fiber that has ended was on the empty run. -/
theorem Reachable.ended_on_empty (h : Reachable es m) (hdone : m.world.phase? f = some .done) :
    ∃ s x, lastStand (trail f es) = some s ∧ s.deed = .exit x ∧ s.run = {} := by
  rcases (h.accounted f).cases with ⟨-, habsent⟩ | ⟨p, hcourse, hfits⟩
  · have hrecord : m.world.record f = none := habsent.record
    rw [World.phase?, World.fiber?_of_record_none hrecord] at hdone
    cases hdone
  · have hphase : p.standing.phase = .done := Option.some.inj (hfits.phase?_eq.symm.trans hdone)
    obtain ⟨s, x, hlast, hexit⟩ := hcourse.walked.follows.exits hphase
    exact ⟨s, x, hlast, hexit, (hcourse.inside_last hlast).eq_empty (Stand.frames_of_exit hexit)⟩

/-- **Masks and frames stay in step.** The masks report what some push that is still open asked for, whatever the
history of pushes and pops. And in every run every fiber has, wherever its two stacks are kept, one mask for each region
frame; it is interruptible exactly if it is inside no uninterruptible region; no mask is popped that is not there; and
nothing is left on either stack when it ends. -/
theorem Reachable.stacks_in_step (h : Reachable es m) (f : FiberId) :
    (∀ moves : List Masks.Move,
      (moves.foldl Masks.move {}).status = .uninterruptible ↔ Masks.Open moves .uninterruptible) ∧
      StacksInStep f es m := by
  have hactive (left : Nat) (s : Stand) (hrunning : m.activity = .running f left s) :
      Run.Inside (Masks.stillOpen (crossings (trail f es))) s.run :=
    h.inside_of_carries (.active (hrunning ▸ rfl) (hrunning ▸ rfl))
  refine ⟨Masks.status_foldl_move, ?_⟩
  exact
    { carried := fun run hcarries => (h.inside_of_carries hcarries).inStep
      leaves := fun left s hrunning hleave => by
        obtain ⟨rest, hframes⟩ := Stand.frames_of_leave hleave
        exact (hactive left s hrunning).masks_ne_nil hframes
      exits := fun left s x hrunning hexit => (hactive left s hrunning).eq_empty (Stand.frames_of_exit hexit)
      ended := h.ended_on_empty }

/-- A run in which a fiber is parked inside two uninterruptible regions. -/
def Scene.nestedWaiter : Scene :=
  (Scene.initial {} []).after
    ([.demand (.build (.uninterruptible (.uninterruptible .never))), .demand (.fork 0)] ++ List.replicate 7 .next)

/-- That fiber has a mask and a frame for both regions, and it is not interruptible. -/
theorem Reachable.stacks_in_step_of_nested : ∃ es run canceler, Reachable es Scene.nestedWaiter.moment ∧
    Scene.nestedWaiter.moment.world.phase? ⟨0⟩ = some (.suspended run canceler) ∧
      run.masks.frames = [.uninterruptible, .uninterruptible] ∧ run.masks.isInterruptible = false ∧
        StacksInStep ⟨0⟩ es Scene.nestedWaiter.moment := by
  obtain ⟨es, hes⟩ := ((Scene.Occurs.initial {} []).after _ : Scene.nestedWaiter.Occurs).reachable
  exact ⟨es, _, _, hes, rfl, rfl, rfl, (Reachable.stacks_in_step hes ⟨0⟩).2⟩

end Runs

end FiberLoop
