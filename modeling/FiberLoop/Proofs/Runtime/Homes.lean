import FiberLoop.Proofs.Runtime.Waking

/-!
# Homes

A fiber lives on the loop that launched it. Whoever goes on with it sends the task there, and a fiber that yields is
there, so it runs on no other loop.

The main results of this module are `Reachable.atHome`, that fibers wait and run at home, and `Turn.config`, that the
configuration of a loop is fixed for good.
-/

namespace FiberLoop

namespace World

/-- The loop on which a fiber lives. -/
def home? (f : FiberId) (w : World) : Option LoopName := (w.fiber? f).map Fiber.home

/-- Every task that goes on with a fiber waits on the loop on which the fiber lives. -/
def AtHome (w : World) : Prop :=
  ∀ name t f, .task t ∈ (w.loopAt name).inbox → t.fiber? = some f → w.home? f = some name

/-- A change after which every fiber still lives where it did, and every new task waits where its fiber lives. -/
structure Homing (w w' : World) : Prop where
  here : w'.here = w.here
  home : ∀ f name, w.home? f = some name → w'.home? f = some name
  tasks : w.AtHome → w'.AtHome

variable {u v w w' : World} {f : FiberId} {name : LoopName} {t : Task} {es : Chronicle}

theorem home?_of_fiber? {r : Fiber} (h : w.fiber? f = some r) : w.home? f = some r.home := by rw [home?, h, Option.map_some]

theorem home?_congr (h : w'.record f = w.record f) : w'.home? f = w.home? f := by
  have hhome (v : World) : v.home? f = (v.record f).map Fiber.home := by
    simp only [home?, record, Option.map_map]
    rfl
  rw [hhome, hhome, h]

theorem Quiet.loopAt (h : w.Quiet w') (name : LoopName) : (w.loopAt name).Grows (w'.loopAt name) := by
  unfold World.loopAt
  rw [h.here]
  split
  · exact h.loop
  · exact h.aside

/-- A fiber lives on the loop that launches it. -/
theorem home?_launch (w : World) (root : Effect) (hook : ExitHook) (notice : Option ExitNotice) (f : FiberId) :
    (w.launch root hook notice).2.home? f = if f = ⟨w.fibers.size⟩ then some w.here else w.home? f := by
  split
  · rename_i hf
    subst hf
    have hnew : (w.launch root hook notice).2.fiber? ⟨w.fibers.size⟩ =
        some { home := w.here, phase := .created root, hook := some hook, notice := notice } :=
      (Table.get?_push _ _ _).trans (if_pos rfl)
    exact home?_of_fiber? hnew
  · rename_i hf
    rw [home?, fiber?_launch_of_ne hf, home?]

namespace Homing

theorem refl (w : World) : w.Homing w := ⟨rfl, fun _ _ h => h, id⟩

theorem trans (h : u.Homing v) (h' : v.Homing w) : u.Homing w :=
  ⟨h'.here.trans h.here, fun f name hf => h'.home f name (h.home f name hf), fun hu => h'.tasks (h.tasks hu)⟩

/-- Nothing new waits, and everybody lives where he did. -/
theorem of_subset (hhere : w'.here = w.here) (hhome : ∀ f, w'.home? f = w.home? f)
    (hinbox : ∀ name t f, .task t ∈ (w'.loopAt name).inbox → t.fiber? = some f → .task t ∈ (w.loopAt name).inbox) :
    w.Homing w' :=
  ⟨hhere, fun f _ hf => (hhome f).trans hf, fun h name t f ht hf => (hhome f).trans (h name t f (hinbox name t f ht hf) hf)⟩

theorem modifyFiber (w : World) (f : FiberId) {change : Fiber → Fiber} (hchange : ∀ r, (change r).home = r.home) :
    w.Homing (w.modifyFiber f change) := by
  refine of_subset rfl (fun g => ?_) fun _ _ _ h _ => h
  by_cases hg : f = g
  · subst hg
    rw [home?, home?, fiber?_modifyFiber_self, Option.map_map]
    exact congrArg (Option.map · _) (funext hchange)
  · rw [home?, home?, fiber?_modifyFiber_of_ne hg]

/-- A task is sent to the loop on which its fiber lives. -/
theorem dispatchTo (h : ∀ f, t.fiber? = some f → w.home? f = some name) : w.Homing (w.dispatchTo name t) := by
  have hhome (f : FiberId) : (w.dispatchTo name t).home? f = w.home? f := by rw [home?, home?, fiber?_dispatchTo]
  refine ⟨(Extends.dispatchTo w name t).here, fun f _ hf => (hhome f).trans hf, fun hw name' t' f ht' hf => ?_⟩
  rw [inbox_dispatchTo] at ht'
  rw [hhome]
  rcases List.mem_append.1 ht' with hbefore | hnew
  · exact hw name' t' f hbefore hf
  · split at hnew
    · rename_i hname
      cases List.mem_singleton.1 hnew
      exact hname ▸ h f hf
    · cases hnew

theorem quiet (h : w.Quiet w') : w.Homing w' := by
  refine of_subset h.here (fun f => home?_congr (h.record f)) fun name t f ht hf => ?_
  obtain ⟨added, hquiet, hinbox⟩ := (h.loopAt name).inbox
  rw [hinbox] at ht
  refine (List.mem_append.1 ht).resolve_right fun hadded => ?_
  have hnone := Message.token?_of_isQuiet (hquiet _ hadded) f
  rw [token?_task_self hf] at hnone
  cases hnone

theorem interrupt (w : World) (f : FiberId) : w.Homing (w.interrupt f) := by
  unfold World.interrupt
  split
  · exact refl w
  · rename_i r hr
    split
    · exact refl w
    · split
      · split
        · refine trans (modifyFiber w f ?_) (dispatchTo fun g hg => ?_)
          · exact fun r => rfl
          cases hg
          rw [home?, fiber?_modifyFiber_self, hr]
          rfl
        · exact modifyFiber w f fun r => rfl
      · exact modifyFiber w f fun r => rfl

theorem settle (w : World) (callback : Callback) (x : Exit Value Value) : w.Homing (w.settle callback x) := by
  unfold World.settle
  split
  · exact refl w
  · rename_i r hr
    split
    · exact refl w
    · split
      · exact modifyFiber w _ fun r => rfl
      · refine trans (modifyFiber w callback.fiber ?_) (dispatchTo fun g hg => ?_)
        · exact fun r => rfl
        cases hg
        rw [home?, fiber?_modifyFiber_self, hr]
        rfl
      · exact refl w

theorem launch (w : World) (root : Effect) (hook : ExitHook) (notice : Option ExitNotice) :
    w.Homing (w.launch root hook notice).2 := by
  have hold (f : FiberId) (name : LoopName) (hf : w.home? f = some name) :
      (w.launch root hook notice).2.home? f = some name := by
    rw [home?_launch, if_neg]
    · exact hf
    · rintro rfl
      have hnone : w.fiber? ⟨w.fibers.size⟩ = none := by
        rw [fiber?, ← Option.not_isSome_iff_eq_none, Table.isSome_get?_iff]
        exact Nat.lt_irrefl _
      rw [home?, hnone] at hf
      cases hf
  refine ⟨rfl, hold, fun hw name t f ht hf => ?_⟩
  have hinbox : ((w.launch root hook notice).2.loopAt name).inbox = _ :=
    (congrArg (fun v => (loopAt name v).inbox) (dispatch_eq_dispatchTo (w.prepare root hook notice).2
      (.start ⟨w.fibers.size⟩))).trans (inbox_dispatchTo w.here name _ _)
  rw [hinbox] at ht
  rcases List.mem_append.1 ht with hbefore | hnew
  · exact hold f name (hw name t f hbefore hf)
  · split at hnew
    · rename_i hname
      cases List.mem_singleton.1 hnew
      cases hf
      rw [home?_launch, if_pos rfl, hname]
    · cases hnew

theorem request (h : Request w es w') : w.Homing w' := by
  cases h with
  | quiet h => exact quiet h
  | interrupt f => exact interrupt w f
  | settle callback x => exact settle w callback x
  | launch root hook => exact launch w root hook _

theorem requests (h : Requests w es w') : w.Homing w' := by
  induction h with
  | refl w => exact refl w
  | step first _ ih => exact (request first).trans ih

theorem announce (w : World) (f : FiberId) (x : Exit Value Value) (hook : ExitHook) :
    w.Homing (w.announce f x hook) := by
  unfold World.announce
  split
  · exact modifyFiber w f fun r => rfl
  · exact refl w

theorem dropMessage (w : World) : w.Homing w.dropMessage := by
  refine of_subset rfl (fun f => rfl) fun name t f ht hf => ?_
  unfold loopAt World.dropMessage at *
  dsimp only at ht
  split at ht
  · rename_i hname
    rw [if_pos hname]
    exact List.mem_of_mem_tail ht
  · rename_i hname
    rwa [if_neg hname]

theorem tend {l : EventLoop} (h : w.loop.Tends l) (clock : Nat) : w.Homing { w with loop := l, clock := clock } := by
  refine of_subset rfl (fun f => rfl) fun name t f ht hf => ?_
  unfold loopAt at *
  split at ht
  · rename_i hname
    rw [if_pos hname]
    rcases h.inbox with hsame | ⟨m, -, hcons⟩
    · exact hsame ▸ ht
    · exact hcons ▸ List.mem_cons_of_mem m ht
  · rename_i hname
    rwa [if_neg hname]

end Homing

end World

/-- Every fiber waits and runs at home. -/
structure Moment.AtHome (m : Moment) : Prop where
  tasks : m.world.AtHome
  active : ∀ f, m.activity.fiber? = some f → m.world.home? f = some m.world.here

section Homes

variable {m m' : Moment} {w w' : World} {a a' : Activity} {es : Chronicle} {f : FiberId} {name : LoopName} {t : Task}
  {rest : List Message}

/-- Nobody else becomes active. -/
theorem Moment.AtHome.mono (h : Moment.AtHome ⟨w, a⟩) (hw : w.Homing w') (ha : a'.fiber? = none ∨ a'.fiber? = a.fiber?) :
    Moment.AtHome ⟨w', a'⟩ ∧ w.Homing w' := by
  refine ⟨⟨hw.tasks h.tasks, fun f hf => ?_⟩, hw⟩
  rcases ha with hnone | hsame
  · cases hnone.symm.trans hf
  · rw [hw.here]
    exact hw.home f _ (h.active f (hsame.symm.trans hf))

/-- The fiber whose task is taken becomes active. -/
theorem Moment.AtHome.take (h : Moment.AtHome ⟨w, .idle⟩) (hinbox : w.loop.inbox = .task t :: rest)
    (hw : w.dropMessage.Homing w') (ha : a'.fiber? = t.fiber?) : Moment.AtHome ⟨w', a'⟩ ∧ w.Homing w' := by
  have hdrop := (World.Homing.dropMessage w).trans hw
  refine ⟨⟨hdrop.tasks h.tasks, fun f hf => ?_⟩, hdrop⟩
  have htask : .task t ∈ (w.loopAt w.here).inbox := by
    rw [World.loopAt_here, hinbox]
    exact List.mem_cons_self
  exact hdrop.here ▸ hdrop.home f _ (h.tasks w.here t f htask (ha.symm.trans hf))

/-- **Every step of the runtime leaves the fibers at home.** -/
theorem Transition.atHome (htransition : Transition m es m') (h : m.AtHome) :
    m'.AtHome ∧ ∀ f name, m.world.home? f = some name → m'.world.home? f = some name := by
  suffices m'.AtHome ∧ m.world.Homing m'.world ∨
      m'.AtHome ∧ ∀ f, m'.world.home? f = m.world.home? f by
    rcases this with ⟨hm', hhoming⟩ | ⟨hm', hhome⟩
    · exact ⟨hm', hhoming.home⟩
    · exact ⟨hm', fun f name hf => (hhome f).trans hf⟩
  cases htransition with
  | switch w =>
    refine Or.inr ⟨⟨fun name t f ht hf => ?_, nofun⟩, fun _ => rfl⟩
    exact h.tasks name t f (World.loopAt_switch name w ▸ ht) hf
  | request hrequest a => exact Or.inl (h.mono (.request hrequest) (Or.inr rfl))
  | tend htends clock => exact Or.inl (h.mono (.tend htends clock) (Or.inl rfl))
  | start hinbox hphase => exact Or.inl (h.take hinbox (.modifyFiber _ _ fun r => rfl) rfl)
  | startLate hinbox hphase => exact Or.inl (h.mono (.dropMessage _) (Or.inl rfl))
  | resume hinbox => exact Or.inl (h.take hinbox (.refl _) rfl)
  | unwind hinbox => exact Or.inl (h.take hinbox (.refl _) rfl)
  | yield w f s =>
    have hyield : w.Homing (w.dispatchTo w.here (.resume f s.run s.next)) := .dispatchTo fun g hg => by
      cases hg
      exact h.active f rfl
    rw [← World.dispatch_eq_dispatchTo] at hyield
    exact Or.inl (h.mono hyield (Or.inl rfl))
  | move w f left hdeed => exact Or.inl (h.mono (.refl w) (Or.inr rfl))
  | call left hdeed hcuts hrequests => exact Or.inl (h.mono (.requests hrequests) (Or.inr rfl))
  | cut left hdeed hcuts => exact Or.inl (h.mono (.refl _) (Or.inr rfl))
  | cutWait left hdeed hpending => exact Or.inl (h.mono (.refl _) (Or.inr rfl))
  | register left hdeed hpending hv =>
    subst hv
    exact Or.inl (h.mono (.modifyFiber _ _ fun r => rfl) (Or.inr rfl))
  | exit left hdeed hhook => exact Or.inl (h.mono (.modifyFiber _ _ fun r => rfl) (Or.inr rfl))
  | exitSilently left hdeed hhook => exact Or.inl (h.mono (.modifyFiber _ _ fun r => rfl) (Or.inl rfl))
  | throw left run hrun hrequests =>
    exact Or.inl (h.mono ((World.Homing.requests hrequests).trans (.modifyFiber _ _ fun r => rfl)) (Or.inr rfl))
  | «return» left run hrun hrequests => exact Or.inl (h.mono (.requests hrequests) (Or.inr rfl))
  | early left run canceler hphase => exact Or.inl (h.mono (.modifyFiber _ _ fun r => rfl) (Or.inr rfl))
  | leave left canceler hphase hpending => exact Or.inl (h.mono (.modifyFiber _ _ fun r => rfl) (Or.inr rfl))
  | park left canceler hphase hpending => exact Or.inl (h.mono (.modifyFiber _ _ fun r => rfl) (Or.inl rfl))
  | unexpected left run canceler hphase => exact Or.inl (h.mono (.refl _) (Or.inr rfl))
  | cancel left run hv hrequests => exact Or.inl (h.mono (.requests hrequests) (Or.inr rfl))
  | tell hv hrequests =>
    exact Or.inl (h.mono ((World.Homing.announce _ _ _ _).trans (.requests hrequests)) (Or.inl rfl))

theorem Transitions.atHome (htransitions : Transitions m es m') (h : m.AtHome) :
    m'.AtHome ∧ ∀ f name, m.world.home? f = some name → m'.world.home? f = some name := by
  induction htransitions with
  | refl => exact ⟨h, fun _ _ hf => hf⟩
  | step _ last ih =>
    obtain ⟨hmiddle, hhome⟩ := ih
    obtain ⟨hlast, hhome'⟩ := last.atHome hmiddle
    exact ⟨hlast, fun f name hf => hhome' f name (hhome f name hf)⟩

/-- **In every run the fibers wait and run at home.** -/
theorem Reachable.atHome (h : Reachable es m) : m.AtHome := by
  obtain ⟨config, definitions, htransitions⟩ := h
  refine (htransitions.atHome ⟨fun name t f ht hf => ?_, nofun⟩).1
  cases name with
  | _ => cases ht

/-! ## Strokes -/

theorem World.Extends.config (h : w.Extends w') (name : LoopName) : (w'.loopAt name).config = (w.loopAt name).config := by
  unfold World.loopAt
  rw [h.here]
  split
  · exact h.loop.config
  · exact h.aside.config

theorem World.config_dropMessage (name : LoopName) (w : World) :
    (w.dropMessage.loopAt name).config = (w.loopAt name).config := by
  unfold World.loopAt
  cases name <;> cases hhere : w.here <;> simp [World.dropMessage, hhere]

/-- **The configuration of a loop is fixed for good.** -/
theorem Turn.config (h : Turn m m') (name : LoopName) :
    (m'.world.loopAt name).config = (m.world.loopAt name).config := by
  cases h with
  | go hspares =>
    -- some fiber does nothing in the stroke
    obtain ⟨f, hf⟩ : ∃ f, m.activity.fiber? ≠ some f := by
      cases hactive : m.activity.fiber? with
      | none => exact ⟨⟨0⟩, nofun⟩
      | some g => exact ⟨⟨g.index + 1⟩, fun he => Nat.ne_of_lt (Nat.lt_succ_self _) (congrArg FiberId.index (Option.some.inj he))⟩
    exact (hspares f hf).grown.config name
  | switch w => exact congrArg EventLoop.config (World.loopAt_switch name w)
  | @take w v message rest hleads hspares hinbox =>
    exact ((World.Extends.takeUp message _).config name).trans
      ((World.config_dropMessage name v).trans ((hspares ⟨0⟩).grown.config name))

namespace Scene

variable {s : Scene} {home : LoopName}

/-- A fiber lives on a loop. -/
def Lives (f : FiberId) (home : LoopName) (s : Scene) : Prop := s.moment.world.home? f = some home

/-- The number of steps of a turn on a loop. -/
def budgetAt (home : LoopName) (s : Scene) : Nat := (s.moment.world.loopAt home).config.yieldBudget

theorem Occurs.atHome (h : s.Occurs) : s.moment.AtHome := by
  obtain ⟨es, hreachable⟩ := h.reachable
  exact hreachable.atHome

theorem Occurs.lives_play (h : s.Occurs) (hlives : s.Lives f home) (stroke : Stroke) : (s.play stroke).Lives f home := by
  obtain ⟨es, htransitions⟩ := leadsTo_play h.timersQuiet stroke
  exact (htransitions.atHome h.atHome).2 f home hlives

theorem Occurs.lives_after (h : s.Occurs) (hlives : s.Lives f home) (strokes : List Stroke) :
    (s.after strokes).Lives f home := by
  induction strokes generalizing s with
  | nil => exact hlives
  | cons stroke rest ih => exact ih (h.after [stroke]) (h.lives_play hlives stroke)

theorem Occurs.budgetAt_after (h : s.Occurs) (home : LoopName) (strokes : List Stroke) :
    (s.after strokes).budgetAt home = s.budgetAt home := by
  induction strokes generalizing s with
  | nil => rfl
  | cons stroke rest ih =>
    exact (ih (h.after [stroke])).trans (congrArg Config.yieldBudget ((h.turn stroke).config home))

end Scene

end Homes

end FiberLoop
