import FiberLoop.Proofs.Runtime.Waking

/-!
# Staying

A fiber that takes no step stays where it is: whatever else happens, it is on the same run, and if it is ready to go
on it goes on from the same stand (`Scene.Occurs.stays`). It may only be that what it waits for comes to an end.
-/

namespace FiberLoop

/-- The run of a fiber that has begun and has not ended. -/
def Standing.run? : Standing → Option Run
  | .ready s => some s.run
  | .registering run _ | .returned run _ _ | .parked run _ | .leaving _ run _ | .unwinding _ run _ => some run
  | .fresh _ | .exiting _ | .done _ => none

/-- Where a fiber that takes no step can get. -/
structure Standing.Stays (s s' : Standing) : Prop where
  run : ∀ run, s.run? = some run → s'.run? = some run
  ready : ∀ stand, s = .ready stand → s' = .ready stand

theorem Standing.Stays.refl (s : Standing) : s.Stays s := ⟨fun _ h => h, fun _ h => h⟩

theorem Standing.Stays.of_ready {stand : Stand} {s s' : Standing} (h : s = .ready stand) (h' : s' = .ready stand) :
    s.Stays s' := h ▸ h' ▸ .refl _

/-- A fiber that is on no run. -/
theorem Standing.Stays.of_none {s s' : Standing} (h : s.run? = none) : s.Stays s' := by
  refine ⟨fun run hrun => (nomatch h.symm.trans hrun), ?_⟩
  rintro stand rfl
  cases h

/-- A fiber that is not ready, and stays on its run. -/
theorem Standing.Stays.of_run {run : Run} {s s' : Standing} (hs : ∀ stand, s ≠ .ready stand) (h : s.run? = some run)
    (h' : s'.run? = some run) : s.Stays s' :=
  ⟨fun _ hrun => (Option.some.inj (h.symm.trans hrun)) ▸ h', fun stand hready => absurd hready (hs stand)⟩

section Staying

variable {f : FiberId} {home : LoopName} {run : Run} {canceler : Canceler} {w v : World} {m m' : Moment} {a : Activity}
  {p q : Place} {t : Task} {message : Message} {rest : List Message} {stand : Stand}

/-! ## Tasks that wait -/

namespace World

theorem loopAt_of_mem_tokens (h : t ∈ w.tokens f) : ∃ home, .task t ∈ (w.loopAt home).inbox := by
  have hmessage {l : EventLoop} (hl : t ∈ l.tokens f) : .task t ∈ l.inbox := by
    obtain ⟨message, hmem, hsome⟩ := List.mem_filterMap.1 hl
    obtain ⟨rfl, -⟩ := Message.eq_of_token? hsome
    exact hmem
  rcases List.mem_append.1 h with hloop | haside
  · exact ⟨w.here, (loopAt_here w).symm ▸ hmessage hloop⟩
  · refine ⟨w.here.other, ?_⟩
    rw [loopAt, if_neg (by cases w.here <;> exact LoopName.noConfusion)]
    exact hmessage haside

theorem mem_dropMessage (h : .task t ∈ (w.loopAt home).inbox) (hinbox : w.loop.inbox = message :: rest)
    (hne : message ≠ .task t) : .task t ∈ (w.dropMessage.loopAt home).inbox := by
  unfold loopAt World.dropMessage at *
  dsimp only
  split at h
  · rename_i hhome
    rw [if_pos hhome]
    rw [hinbox] at h ⊢
    exact (List.mem_cons.1 h).resolve_left hne.symm
  · rename_i hhome
    rwa [if_neg hhome]

end World

/-- A task that waits goes on waiting, or it is taken up. -/
theorem Turn.queued (hturn : Turn m m') (h : .task t ∈ (m.world.loopAt home).inbox) (hf : m.activity.fiber? ≠ some f) :
    .task t ∈ (m'.world.loopAt home).inbox ∨ ∃ v : World, m' = v.takeUp (.task t) := by
  cases hturn with
  | go hspares hactivity => exact Or.inl (((hspares f hf).grown.loopAt home).subset h)
  | switch w => exact Or.inl ((World.loopAt_switch home w).symm ▸ h)
  | @take w v message rest hleads hspares hinbox =>
    have hv := ((hspares f).grown.loopAt home).subset h
    by_cases hmessage : message = .task t
    · exact Or.inr ⟨v.dropMessage, hmessage ▸ rfl⟩
    · exact Or.inl (((World.Extends.takeUp message _).loopAt home).subset (World.mem_dropMessage hv hinbox hmessage))

/-! ## Who holds a fiber -/

theorem Fits.ready_of_task {next : Next} (h : Fits f (w.view f a) p)
    (htask : .task (.resume f run next) ∈ (w.loopAt home).inbox) : p.standing = .ready ⟨run, next⟩ := by
  have hheld : Held f p.epoch p.hook p.standing (w.tokens f) a := h.held
  have hmem := World.mem_tokens_of_loopAt htask rfl
  rcases hheld.tokens_cases with hnil | ⟨t, hone⟩
  · rw [hnil] at hmem
    cases hmem
  · rw [hone] at hmem hheld
    cases List.mem_singleton.1 hmem
    exact hheld.of_resume.1

theorem Fits.unwinding_of_task (h : Fits f (w.view f a) p)
    (htask : .task (.unwind f canceler run) ∈ (w.loopAt home).inbox) : p.standing.run? = some run := by
  have hheld : Held f p.epoch p.hook p.standing (w.tokens f) a := h.held
  have hmem := World.mem_tokens_of_loopAt htask rfl
  rcases hheld.tokens_cases with hnil | ⟨t, hone⟩
  · rw [hnil] at hmem
    cases hmem
  · rw [hone] at hmem hheld
    cases List.mem_singleton.1 hmem
    obtain ⟨ended, hstanding, -, -⟩ := hheld.of_unwind
    rw [hstanding]
    rfl

/-- The run of a fiber that is in the middle of something. -/
def Activity.run? : Activity → Option Run
  | .running _ _ s => some s.run
  | .registering _ _ run _ _ | .returning _ _ run _ | .canceling _ _ run _ => some run
  | .idle | .exiting .. => none

theorem Fits.run?_of_activity (h : Fits f (m.view f) p) (ha : m.activity.fiber? = some f) :
    p.standing.run? = m.activity.run? := by
  obtain ⟨w, a⟩ := m
  have hheld := h.held_of_activity rfl ha
  dsimp only at hheld ha ⊢
  generalize p.standing = standing at hheld
  generalize w.tokens f = tokens at hheld
  cases hheld with
  | fresh | queued | parked | unwinding | done => cases ha
  | _ => rfl

theorem Fits.ready_of_running {left : Nat} (h : Fits f (m.view f) p) (ha : m.activity = .running f left stand) :
    p.standing = .ready stand := (h.held_of_activity ha rfl).of_running.1

/-- A fiber in the middle of something other than a step is not ready. -/
theorem Fits.not_ready (h : Fits f (m.view f) p) (ha : m.activity.fiber? = some f)
    (hnot : ∀ left, m.activity ≠ .running f left stand) : p.standing ≠ .ready stand := by
  intro hready
  obtain ⟨w, a⟩ := m
  have hheld := h.held_of_activity rfl ha
  rw [hready] at hheld
  dsimp only at hheld ha hnot
  generalize w.tokens f = tokens at hheld
  cases hheld with
  | queued => cases ha
  | running _ left => exact hnot left rfl

/-! ## Fibers that do nothing -/

/-- **A fiber that does nothing stays where it is.** -/
theorem Turn.stays (hturn : Turn m m') (hp : Fits f (m.view f) p) (hq : Fits f (m'.view f) q)
    (hf : m.activity.fiber? ≠ some f) : p.standing.Stays q.standing := by
  have hheld : Held f p.epoch p.hook p.standing (m.world.tokens f) (m.activity.of f) := hp.held
  rw [Activity.of_other hf] at hheld
  have htaken (t : Task) (ht : m.world.tokens f = [t]) :
      (∃ home, .task t ∈ (m'.world.loopAt home).inbox) ∨ ∃ v : World, m' = v.takeUp (.task t) := by
    obtain ⟨home, hwaits⟩ := World.loopAt_of_mem_tokens (t := t) (ht ▸ List.mem_singleton_self t)
    exact (hturn.queued hwaits hf).imp (⟨home, ·⟩) id
  generalize hstanding : p.standing = standing at hheld
  generalize htokens : m.world.tokens f = tokens at hheld
  cases hheld with
  | fresh | done => exact .of_none rfl
  | queued s =>
    refine .of_ready rfl ?_
    rcases htaken _ htokens with ⟨home, hwaits⟩ | ⟨v, rfl⟩
    · exact hq.ready_of_task hwaits
    · exact hq.ready_of_running rfl
  | unwinding _ run canceler =>
    refine .of_run (fun stand => Standing.noConfusion) rfl ?_
    rcases htaken _ htokens with ⟨home, hwaits⟩ | ⟨v, rfl⟩
    · exact hq.unwinding_of_task hwaits
    · exact hq.run?_of_activity rfl
  | parked run canceler =>
    refine .of_run (fun stand => Standing.noConfusion) rfl ?_
    obtain ⟨home, hrecord⟩ := hp.record
    have hasleep : m.world.Asleep f home run canceler :=
      ⟨_, hrecord, rfl, (congrArg Standing.phase hstanding :)⟩
    rcases hturn.rests (.asleep hasleep) hp with hrests | hgoes
    · rcases (hrests.held hq).2 with ⟨-, hparked⟩ | ⟨t, ht, -, hwaits⟩
      · rw [hparked]
        rfl
      · cases ht with
        | resume x =>
          rw [hq.ready_of_task hwaits]
          rfl
        | unwind => exact hq.unwinding_of_task hwaits
    · generalize ha : m'.activity = a at hgoes
      have hrun := fun h => hq.run?_of_activity h
      rw [ha] at hrun
      cases hgoes with
      | resume left x => exact hrun rfl
      | unwind left => exact hrun rfl

end Staying

/-! ## Strokes -/

/-- The end of a registration. -/
theorem Fits.run?_of_leaveRegistration {f : FiberId} {left : Nat} {run : Run} {canceler : Canceler} {w : World} {p q : Place}
    (hp : Fits f (w.view f (.returning f left run canceler)) p)
    (hq : Fits f ((w.leaveRegistration f left run canceler).view f) q) : q.standing.run? = some run := by
  obtain ⟨home, hrecord⟩ := hp.record
  unfold World.leaveRegistration at hq
  split at hq
  · exact hq.run?_of_activity rfl
  · split at hq
    · exact hq.run?_of_activity rfl
    · have hasleep : (w.modifyFiber f fun r => { r with phase := .suspended run canceler }).Asleep f home run canceler :=
        ⟨_, World.record_modifyFiber hrecord fun _ => rfl, rfl, rfl⟩
      rw [hasleep.standing hq]
      rfl
  · exact hq.run?_of_activity rfl

namespace Scene

variable {s : Scene} {stroke : Stroke} {f : FiberId} {p q : Place}

/-- The fiber that takes a step. -/
def stepper? (s : Scene) : Stroke → Option FiberId
  | .next =>
    match s.moment.activity with
    | .running f (_ + 1) _ => some f
    | _ => none
  | _ => none

/-- What is not a moment of the loop leaves a fiber alone that is in the middle of something. -/
theorem activity_play {a : Activity} (ha : s.moment.activity = a) (hbusy : a ≠ .idle) (hstroke : stroke ≠ .next) :
    (s.play stroke).moment.activity = a := by
  obtain ⟨⟨w, b⟩, kept⟩ := s
  cases ha
  cases stroke with
  | next => exact absurd rfl hstroke
  | demand d =>
    simp only [play]
    split <;> rfl
  | fire | switch | clock =>
    cases b with
    | idle => exact absurd rfl hbusy
    | _ => rfl

/-- A fiber that is in the middle of something other than a step stays on its run. -/
theorem run?_play (hp : Fits f (s.moment.view f) p) (hq : Fits f ((s.play stroke).moment.view f) q)
    (ha : s.moment.activity.fiber? = some f) (hstep : ∀ left stand, s.moment.activity ≠ .running f left stand) {run : Run}
    (hrun : s.moment.activity.run? = some run) : q.standing.run? = some run := by
  by_cases hstroke : stroke = .next
  · subst hstroke
    obtain ⟨⟨w, a⟩, kept⟩ := s
    cases a with
    | idle => cases ha
    | exiting => cases hrun
    | running g left stand =>
      cases ha
      exact absurd rfl (hstep left stand)
    | registering g left run' r epoch =>
      cases ha
      cases hrun
      have hactivity : (Scene.play ⟨⟨w, .registering f left run r epoch⟩, kept⟩ .next).moment.activity.run? = some run ∧
          (Scene.play ⟨⟨w, .registering f left run r epoch⟩, kept⟩ .next).moment.activity.fiber? = some f := by
        simp only [play, Moment.next, World.beginRegistration]
        split <;> exact ⟨rfl, rfl⟩
      exact (hq.run?_of_activity hactivity.2).trans hactivity.1
    | returning g left run' canceler =>
      cases ha
      cases hrun
      rw [Moment.view_self rfl] at hp
      exact hp.run?_of_leaveRegistration hq
    | canceling g left run' canceler =>
      cases ha
      cases hrun
      exact hq.run?_of_activity rfl
  · have hbusy : s.moment.activity ≠ .idle := by
      intro hidle
      rw [hidle] at ha
      cases ha
    have hsame := activity_play (s := s) rfl hbusy hstroke
    exact (hq.run?_of_activity (hsame ▸ ha)).trans (hsame ▸ hrun)

/-- **A fiber that takes no step stays where it is.** -/
theorem Occurs.stays (h : s.Occurs) (hp : Fits f (s.moment.view f) p) (hq : Fits f ((s.play stroke).moment.view f) q)
    (hf : s.stepper? stroke ≠ some f) : p.standing.Stays q.standing := by
  by_cases hactive : s.moment.activity.fiber? = some f
  · by_cases hstand : ∃ left stand, s.moment.activity = .running f left stand
    · obtain ⟨left, stand, ha⟩ := hstand
      refine .of_ready (hp.ready_of_running ha) ?_
      by_cases hstroke : stroke = .next
      · obtain ⟨⟨w, a⟩, kept⟩ := s
        cases ha
        subst hstroke
        cases left with
        | zero =>
          have hwaits := World.mem_loopAt_dispatchTo w.here (.resume f stand.run stand.next) w
          rw [World.dispatchTo, if_pos rfl] at hwaits
          exact hq.ready_of_task hwaits
        | succ left => exact absurd rfl hf
      · exact hq.ready_of_running (activity_play ha Activity.noConfusion hstroke)
    · have hstep (left : Nat) (stand : Stand) : s.moment.activity ≠ .running f left stand := fun ha => hstand ⟨_, _, ha⟩
      have hrun := hp.run?_of_activity hactive
      cases hactivity : s.moment.activity.run? with
      | none => exact .of_none (hrun.trans hactivity)
      | some run =>
        exact .of_run (fun stand => hp.not_ready hactive fun left => hstep left stand) (hrun.trans hactivity)
          (run?_play hp hq hactive hstep hactivity)
  · exact (h.turn stroke).stays hp hq hactive

end Scene

end FiberLoop
