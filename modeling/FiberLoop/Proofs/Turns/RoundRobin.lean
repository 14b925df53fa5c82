import FiberLoop.Proofs.Turns.Dispatching

/-!
# Round robin

A fiber that yields comes to the end of the queue of its home. So a fiber that waits there for its turn has it before
the one that has yielded has the next one, and no other turn.

`Scene.Occurs.sharesOut` is the main result: turns are not longer than the budget, a fiber that is never parked has no
more turns than its steps need, and two such fibers take turns.
-/

namespace FiberLoop

/-- A task of one fiber waits on a loop, and none of another fiber is ahead of it. -/
def World.Precedes (name : LoopName) (f g : FiberId) (w : World) : Prop :=
  ∃ before t after, (w.loopAt name).inbox = before ++ .task t :: after ∧ t.fiber? = some f ∧
    before.filterMap (Message.token? g) = []

namespace Scene

variable {s : Scene} {f g : FiberId} {home : LoopName} {stroke last : Stroke} {strokes mid : List Stroke}
  {x : Exit Value Value}

/-! ## Who waits for his turn -/

theorem Lives.unique {name : LoopName} (h : s.Lives f home) (h' : s.Lives f name) : name = home :=
  Option.some.inj (h'.symm.trans h)

/-- A fiber that lives somewhere has a place. -/
theorem Occurs.fits_of_lives (h : s.Occurs) (hlives : s.Lives f home) : ∃ p, Fits f (s.moment.view f) p := by
  rcases h.absent_or_fits f with habsent | ⟨p, hp⟩
  · have hrecord : s.moment.world.record f = none := habsent.record
    rw [Lives, World.home?, World.fiber?_of_record_none hrecord] at hlives
    cases hlives
  · exact ⟨p, hp⟩

/-- While another fiber is active a fiber waits in the inbox of its home, unless it is parked or has ended. -/
theorem Occurs.precedes_of_active (h : s.Occurs) (hg : s.moment.activity.fiber? = some g) (hne : f ≠ g)
    (hlives : s.Lives f home) (hparked : ¬ s.Parked f) (hexits : ∀ x, ¬ s.Exits f x) :
    s.moment.world.Precedes home f g := by
  obtain ⟨p, hp⟩ := h.fits_of_lives hlives
  have hother : s.moment.activity.fiber? ≠ some f := fun hf => hne (Option.some.inj (hf.symm.trans hg))
  obtain ⟨t, ht, hf⟩ : ∃ t : Task, s.moment.world.tokens f = [t] ∧ t.fiber? = some f := by
    have hheld : Held f p.epoch p.hook p.standing (s.moment.world.tokens f) (s.moment.activity.of f) := hp.held
    rw [Activity.of_other hother] at hheld
    generalize hstanding : p.standing = standing at hheld
    generalize s.moment.world.tokens f = tokens at hheld ⊢
    cases hheld with
    | fresh | queued | unwinding => exact ⟨_, rfl, rfl⟩
    | parked run canceler =>
      exact absurd ⟨run, canceler, hp.phase?_eq.trans (congrArg some (congrArg Standing.phase hstanding))⟩ hparked
    | done x => exact absurd ⟨p, hp, congrArg Standing.exit? hstanding⟩ (hexits x)
  obtain ⟨name, hwaits⟩ := World.loopAt_of_mem_tokens (ht ▸ List.mem_singleton_self t)
  cases hlives.unique (h.atHome.tasks name t f hwaits hf)
  obtain ⟨before, after, hinbox⟩ := List.append_of_mem hwaits
  refine ⟨before, t, after, hinbox, hf, List.filterMap_eq_nil_iff.2 fun message hmessage => ?_⟩
  refine Option.eq_none_iff_forall_ne_some.2 fun t' ht' => ?_
  obtain ⟨rfl, hg'⟩ := Message.eq_of_token? ht'
  exact h.inactive_of_task (hinbox ▸ List.mem_append_left _ hmessage) hg' hg

/-! ## Turns that come in order -/

/-- **Of two fibers that live on one loop that one has its turn first whose task is ahead.** -/
theorem Occurs.precedes_play (h : s.Occurs) (hne : f ≠ g) (hf : s.Lives f home) (hg : s.Lives g home)
    (hprecedes : s.moment.world.Precedes home f g) (stroke : Stroke) :
    ¬ s.TakesUp g stroke ∧ (s.TakesUp f stroke ∨ (s.play stroke).moment.world.Precedes home f g) := by
  obtain ⟨before, t, after, hinbox, ht, hbefore⟩ := hprecedes
  have htakes {e : FiberId} (he : s.Lives e home) :
      ((s.happenings home stroke).taken.filterMap (Message.token? e)).length = if s.TakesUp e stroke then 1 else 0 :=
    h.taken_eq fun name hname => (h.lives_play he stroke).unique hname
  have hflow := h.flow home [stroke]
  rw [journal, journal, List.append_nil, after_cons, after_nil, hinbox, List.append_assoc, List.cons_append] at hflow
  have hother : (Message.task t).token? g = none :=
    World.token?_task_of_ne fun hg' => hne (Option.some.inj (ht.symm.trans hg'))
  have hnone (message : Message) (hmessage : (s.happenings home stroke).taken = [message])
      (hquiet : message.token? g = none) : ¬ s.TakesUp g stroke := fun htaken => by
    have hcount := htakes hg
    rw [hmessage, List.filterMap_cons_none hquiet, if_pos htaken] at hcount
    cases hcount
  rcases s.taken_cases home stroke with hempty | ⟨message, hone⟩
  · have hcount := htakes hg
    rw [hempty] at hcount hflow
    refine ⟨fun htaken => ?_, Or.inr ⟨before, t, _, hflow.symm, ht, hbefore⟩⟩
    rw [if_pos htaken] at hcount
    cases hcount
  · rw [hone] at hflow
    cases before with
    | nil =>
      obtain ⟨rfl, -⟩ := List.cons.inj hflow
      refine ⟨hnone _ hone hother, Or.inl ?_⟩
      have hcount := htakes hf
      rw [hone, List.filterMap_cons_some (World.token?_task_self ht)] at hcount
      exact Classical.byContradiction fun hnot => by
        rw [if_neg hnot] at hcount
        cases hcount
    | cons message' before =>
      obtain ⟨rfl, hrest⟩ := List.cons.inj hflow
      have hfirst : message'.token? g = none := List.filterMap_eq_nil_iff.1 hbefore _ List.mem_cons_self
      rw [List.filterMap_cons_none hfirst] at hbefore
      exact ⟨hnone _ hone hfirst, Or.inr ⟨before, t, _, hrest.symm, ht, hbefore⟩⟩

/-- A fiber has no turn before that of a fiber that is ahead. -/
theorem Occurs.begun_eq_zero (h : s.Occurs) (hne : f ≠ g) (hf : s.Lives f home) (hg : s.Lives g home)
    (hprecedes : s.moment.world.Precedes home f g) (hnone : s.begun f strokes = 0) : s.begun g strokes = 0 := by
  induction strokes generalizing s with
  | nil => rfl
  | cons stroke rest ih =>
    obtain ⟨hnot, hgoes⟩ := h.precedes_play hne hf hg hprecedes stroke
    obtain ⟨hfirst, hlater⟩ := Nat.add_eq_zero_iff.1 hnone
    have htakes : ¬ s.TakesUp f stroke := fun htakes => Nat.one_ne_zero ((if_pos htakes).symm.trans hfirst)
    have hrest := ih (h.after [stroke]) (h.lives_play hf stroke) (h.lives_play hg stroke) (hgoes.resolve_left htakes) hlater
    exact Nat.add_eq_zero_iff.2 ⟨if_neg hnot, hrest⟩

/-- **A fiber that is ahead of another one has one turn before the other one has its next one.** -/
theorem Occurs.begun_eq_one (h : s.Occurs) (hne : f ≠ g) (hf : s.Lives f home) (hg : s.Lives g home)
    (hprecedes : s.moment.world.Precedes home g f) (hunparked : s.Unparked f mid) (hnone : s.begun f mid = 0)
    (hlast : (s.after mid).TakesUp f last) : s.begun g mid = 1 := by
  induction mid generalizing s with
  | nil => exact absurd hlast (h.precedes_play hne.symm hg hf hprecedes last).1
  | cons stroke rest ih =>
    obtain ⟨-, hgoes⟩ := h.precedes_play hne.symm hg hf hprecedes stroke
    obtain ⟨-, hlater⟩ := Nat.add_eq_zero_iff.1 hnone
    have hafter : (s.play stroke).Occurs := h.after [stroke]
    have hf' := h.lives_play hf stroke
    have hg' := h.lives_play hg stroke
    by_cases htakes : s.TakesUp g stroke
    · -- the other one has yielded, and its task is ahead now
      have hexits (x : Exit Value Value) : ¬ (s.play stroke).Exits f x := fun hexits =>
        (hafter.exits_after hexits rest).not_takesUp (hafter.after rest) hlast
      have hahead := hafter.precedes_of_active htakes.2 hne hf' hunparked.tail.head hexits
      exact congrArg₂ (· + ·) (if_pos htakes) (hafter.begun_eq_zero hne hf' hg' hahead hlater)
    · have hrest := ih hafter hf' hg' (hgoes.resolve_left htakes) hunparked.tail hlater hlast
      exact congrArg₂ (· + ·) (if_neg htakes) hrest

/-! ## The main result -/

/-- Two turns of a fiber that follow each other. -/
structure Consecutive (f : FiberId) (s : Scene) (stroke : Stroke) (mid : List Stroke) (last : Stroke) : Prop where
  first : s.TakesUp f stroke
  none : (s.play stroke).begun f mid = 0
  next : ((s.play stroke).after mid).TakesUp f last

/-- The turns of a fiber in the course of its life. -/
structure WellPaced (f : FiberId) (home : LoopName) (s : Scene) (strokes : List Stroke) : Prop where
  /-- All steps of the fiber are in its turns. -/
  sum : (s.turns f strokes).sum = s.steps f strokes
  /-- There are no more turns than these steps need. -/
  length : (s.turns f strokes).length = s.steps f strokes ⌈/⌉ s.budgetAt home
  /-- All turns but the last one use up the budget. -/
  full : ∀ n ∈ (s.turns f strokes).tail, n = s.budgetAt home
  /-- For each turn one task was queued. -/
  dispatched : s.dispatches f home strokes = (s.turns f strokes).length

/-- How the turns are shared out while strokes are played. -/
structure SharesOut (s : Scene) (strokes : List Stroke) : Prop where
  /-- No turn has more steps than the budget of the loop allows. -/
  bounded : ∀ f home, s.moment.world.home? f = none → (s.after strokes).Lives f home →
    ∀ n ∈ s.turns f strokes, n ≤ s.budgetAt home
  /-- A fiber that is never parked and has ended has had as many turns as it needed. -/
  paced : ∀ f home, s.moment.world.home? f = none → (s.after strokes).Lives f home → 1 ≤ s.budgetAt home →
    s.Unparked f strokes → (s.after strokes).moment.world.phase? f = some .done → s.WellPaced f home strokes
  /-- Between two turns of a fiber each other one on the loop that has not ended has one turn, if neither is parked. -/
  inTurn : ∀ f g home first stroke mid last rest, f ≠ g → s.Lives f home → s.Lives g home → s.Unparked f strokes →
    s.Unparked g strokes → strokes = first ++ stroke :: (mid ++ last :: rest) →
      (s.after first).Consecutive f stroke mid last → ((s.after first).play stroke).moment.world.phase? g ≠ some .done →
        ((s.after first).play stroke).begun g mid = 1

/-- A fiber lives where it will live in the end. -/
theorem Occurs.home_along (h : s.Occurs) (hlives : (s.after strokes).Lives f home) :
    s.Along (fun s => ∀ name, s.Lives f name → name = home) strokes := by
  rintro first rest rfl name hname
  rw [after_append] at hlives
  exact hlives.unique ((h.after first).lives_after hname rest)

/-- The lengths of the turns of a fiber that was launched meanwhile. -/
theorem Occurs.paced {P : Nat → Prop} (h : s.Occurs) (hnew : s.moment.world.home? f = none)
    (hlives : (s.after strokes).Lives f home) (hP : P (s.budgetAt home))
    (hparks : (∀ n, n ≤ s.budgetAt home → P n) ∨ s.Unparked f strokes) :
    Paced f (s.budgetAt home) P (s.after strokes) (s.turns f strokes) ∧ (s.turns f strokes).sum = s.steps f strokes := by
  have hinactive : s.moment.activity.fiber? ≠ some f := fun hactive => by
    cases hnew.symm.trans (h.atHome.active f hactive)
  have hbudget : s.Along (fun s' => s'.moment.activity.fiber? = some f → s'.moment.world.budget = s.budgetAt home) strokes := by
    intro first rest hstrokes hactive
    have hfirst := h.after first
    have hlives' := hfirst.atHome.active f hactive
    cases h.home_along hlives first rest hstrokes _ hlives'
    exact (hfirst.budget_eq hlives' hactive).trans (h.budgetAt_after _ first)
  have hstart : Paced f (s.budgetAt home) P s [] := .between (left?_of_inactive hinactive) (List.forall_mem_nil _)
  obtain ⟨hpaced, hsum⟩ := hstart.after h hP hparks hbudget
  exact ⟨hpaced, hsum.trans (Nat.zero_add _)⟩

/-- A fiber for which no task waits on its home. -/
theorem tokens_eq_nil {w : World} (h : ∀ t, .task t ∈ (w.loopAt home).inbox → t.fiber? ≠ some f) :
    (w.loopAt home).tokens f = [] := by
  refine List.filterMap_eq_nil_iff.2 fun message hmessage => Option.eq_none_iff_forall_ne_some.2 fun t ht => ?_
  obtain ⟨rfl, hf⟩ := Message.eq_of_token? ht
  exact h t hmessage hf

/-- For a fiber that was launched meanwhile and has ended one task was queued for each turn. -/
theorem Occurs.dispatched (h : s.Occurs) (hnew : s.moment.world.home? f = none) (hlives : (s.after strokes).Lives f home)
    (hexits : (s.after strokes).Exits f x) : s.dispatches f home strokes = s.begun f strokes := by
  have hbefore : (s.moment.world.loopAt home).tokens f = [] := tokens_eq_nil fun t ht hf => by
    cases hnew.symm.trans (h.atHome.tasks home t f ht hf)
  have hafter : ((s.after strokes).moment.world.loopAt home).tokens f = [] := tokens_eq_nil fun t ht hf => by
    obtain ⟨p, hp, hexit⟩ := hexits
    have hone := ((h.after strokes).held_of_task ht hf)
    have hheld : Held f p.epoch p.hook p.standing ((s.after strokes).moment.world.tokens f)
      ((s.after strokes).moment.activity.of f) := hp.held
    rw [hone.1, hone.2] at hheld
    generalize p.standing = standing at hheld hexit
    cases hheld with
    | _ => cases hexit
  have htotal := h.dispatches_eq (h.home_along hlives)
  rw [hbefore, hafter] at htotal
  exact (Nat.zero_add _).symm.trans htotal

/-- **Turns are bounded by the budget, a fiber that is never parked has no more of them than it needs, and such fibers
take turns.** -/
theorem Occurs.sharesOut (h : s.Occurs) (strokes : List Stroke) : s.SharesOut strokes where
  bounded f home hnew hlives :=
    (h.paced (P := (· ≤ s.budgetAt home)) hnew hlives (Nat.le_refl _) (Or.inl fun _ hn => hn)).1.le_budget
  paced f home hnew hlives hpos hunparked hdone := by
    obtain ⟨x, hexits⟩ := (h.after strokes).exits_of_done hdone
    obtain ⟨hpaced, hsum⟩ := h.paced (P := (· = s.budgetAt home)) hnew hlives rfl (Or.inr hunparked)
    exact
      { sum := hsum
        length := hsum ▸ hpaced.length_eq_ceilDiv hexits hpos
        full := hpaced.eq_budget
        dispatched := (h.dispatched hnew hlives hexits).trans
          ((length_turnsFrom f [] s strokes).trans (Nat.zero_add _)).symm }
  inTurn f g home first stroke mid last rest hne hf hg hunparked hunparked' hstrokes hturns hlasts := by
    have hplay : ((s.after first).play stroke).Occurs := (h.after first).after [stroke]
    have hlives {e : FiberId} (he : s.Lives e home) : ((s.after first).play stroke).Lives e home :=
      (h.after first).lives_play (h.lives_after he first) stroke
    -- the strokes after the beginning of the first turn
    have hlater {e : FiberId} (he : s.Unparked e strokes) : ((s.after first).play stroke).Unparked e mid := by
      intro begun more hmid
      have hwhole := he (first ++ stroke :: begun) (more ++ last :: rest) (by rw [hstrokes, hmid]; simp)
      rwa [after_append, after_cons] at hwhole
    have hahead := hplay.precedes_of_active hturns.first.2 hne.symm (hlives hg) (hlater hunparked').head
      fun x hexits => hlasts hexits.done
    exact hplay.begun_eq_one hne (hlives hf) (hlives hg) hahead (hlater hunparked) hturns.none hturns.next

/-- Two fibers are launched on a loop that yields after two steps; each of them ends with its fifth step. -/
def launching : List Stroke :=
  ["a", "b"].map fun name =>
    .demand (.scenario (.run name (.chain (.succeed (.const .null)) "x" (.succeed (.const .null))) false))

/-- The first one has turns of two, two and one steps, and between the first two of them the other one has a turn. -/
theorem sharesOut_launching :
    (initial { yieldBudget := 2 } []).WellPaced ⟨0⟩ .own (launching ++ List.replicate 18 .next) ∧
      (initial { yieldBudget := 2 } []).turns ⟨0⟩ (launching ++ List.replicate 18 .next) = [1, 2, 2] ∧
      (((initial { yieldBudget := 2 } []).after launching).play .next).begun ⟨1⟩ (List.replicate 7 .next) = 1 := by
  have hoccurs : (initial { yieldBudget := 2 } []).Occurs := .initial _ _
  have hqueued : ((initial { yieldBudget := 2 } []).after launching).Occurs := hoccurs.after launching
  have hshares := hoccurs.sharesOut (launching ++ List.replicate 18 .next)
  have hlater := hqueued.sharesOut (.next :: (List.replicate 7 .next ++ [.next]))
  refine ⟨hshares.paced ⟨0⟩ .own rfl rfl (by decide) (by decide) rfl, rfl, ?_⟩
  exact hlater.inTurn ⟨0⟩ ⟨1⟩ .own [] .next (List.replicate 7 .next) .next [] (by decide) rfl rfl (by decide) (by decide)
    rfl ⟨by decide, rfl, by decide⟩ nofun

end Scene

end FiberLoop
