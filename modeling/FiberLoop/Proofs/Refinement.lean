import FiberLoop.Proofs.Evaluation.Schedule
import FiberLoop.Proofs.Ownership

/-!
# The trampoline refines evaluation by recursion

A fiber begins to evaluate what comes next on some run, in the middle of a turn and among others. It takes its
steps across as many turns as it needs; in between it waits in the queue while others act on their own part of
the world. Until the evaluation has ended the fiber is above the run with which it began, and the steps that it
has taken are steps of the same evaluation in a world of its own.

The main result of this module is `Interleaved.refines_evaluation`: the closures that the fiber calls, in this order, and
the exit that it feeds to exactly that run, are those of the evaluation by recursion, and each of the two comes
to its end if the other one does.
-/

namespace FiberLoop

/-- Whether a run keeps interrupts out. -/
def Run.masked (run : Run) : Bool := !run.masks.isInterruptible

/-- An exit is fed to a run, with its frames and its masks. -/
def Fed (f : FiberId) (run : Run) (x : Exit Value Value) (m : Moment) : Prop := OnTurn f ⟨run, .ofExit x⟩ m

/-- Before a moment no exit is fed to the run. -/
def Unfed (f : FiberId) (run : Run) (μ : Nat → Moment) (n : Nat) : Prop :=
  ∀ k < n, ∀ x, ¬ Fed f run x (μ k)

/-- The fiber does not come to register a callback. -/
def Synchronous (f : FiberId) (m : Moment) : Prop := ∀ s, OnTurn f s m → ∀ r, s.deed ≠ .register r

/-- The fiber ends with an exit. -/
def Ends (f : FiberId) (y : Exit Value Value) (m : Moment) : Prop :=
  ∃ left s, m.activity = .running f (left + 1) s ∧ s.deed = .exit y

/-- The fiber has ended. -/
def Over (f : FiberId) (m : Moment) : Prop := m.world.phase? f = some .done

/-- A fiber is in the middle of a turn and begins to evaluate what comes next on a run: any frames, any masks,
whatever is left of the turn, and any number of steps for the turns after it. Until the exit is fed to that run
the others and the closures of the fiber act on two disjoint parts of the world, and no callback is
registered. -/
structure Interleaved {σ : Type} (f : FiberId) (part : World → σ) (run : Run) (next : Next) (μ : Nat → Moment) :
    Prop where
  belongs : Belongs f part
  schedule : Schedule f part μ
  sound : (μ 0).Sound f
  begins : OnTurn f ⟨run, next⟩ (μ 0)
  budget : 0 < (μ 0).world.budget
  others : ∀ n, Unfed f run μ (n + 1) → Apart f part (μ n)
  closures : ∀ n, Unfed f run μ (n + 1) → ∀ c ∈ (μ n).calls f, c.Local part
  synchronous : ∀ n, Unfed f run μ (n + 1) → Synchronous f (μ n)

section Standing

variable {σ : Type} {f : FiberId} {part : World → σ} {run : Run} {μ : Nat → Moment} {m : Moment} {s s' : Stand}
  {x : Exit Value Value} {n k : Nat}

theorem Run.masks_eq (run : Run) : run.masks.isInterruptible = !run.masked := (Bool.not_not _).symm

/-- A fiber stands at one place. -/
theorem At.eq_of_turn (h : At f s m) (hturn : OnTurn f s' m) : s' = s := by
  obtain ⟨left, hactivity⟩ := hturn
  cases h with
  | onTurn hturn' =>
    obtain ⟨left', hactivity'⟩ := hturn'
    injection hactivity.symm.trans hactivity' with _ _ hstand
  | waiting before hawaits haway =>
    rw [hactivity] at haway
    exact absurd rfl haway

/-- As long as the fiber is above the run, nothing is fed to it. -/
theorem At.not_fed (h : At f s m) (habove : s.Above run) (x : Exit Value Value) : ¬ Fed f run x m := by
  intro hfed
  have hstand : (⟨run, .ofExit x⟩ : Stand) = s := h.eq_of_turn hfed
  exact Stand.not_feeds_of_above habove x hstand.symm

theorem Unfed.zero : Unfed f run μ 0 := fun _ hk => absurd hk (Nat.not_lt_zero _)

theorem Unfed.mono (h : Unfed f run μ n) (hk : k ≤ n) : Unfed f run μ k :=
  fun i hi => h i (Nat.lt_of_lt_of_le hi hk)

theorem Unfed.succ (h : Unfed f run μ n) (hn : ∀ x, ¬ Fed f run x (μ n)) : Unfed f run μ (n + 1) := by
  intro k hk
  rcases Nat.eq_or_lt_of_le (Nat.le_of_lt_succ hk) with rfl | hlt
  · exact hn
  · exact h k hlt

theorem Unfed.first (h : ¬ Unfed f run μ n) : ∃ k < n, ∃ x, Unfed f run μ k ∧ Fed f run x (μ k) := by
  induction n with
  | zero => exact absurd .zero h
  | succ n ih =>
    by_cases hn : Unfed f run μ n
    · by_cases hfed : ∃ x, Fed f run x (μ n)
      · obtain ⟨x, hx⟩ := hfed
        exact ⟨n, Nat.lt_succ_self n, x, hn, hx⟩
      · exact absurd (hn.succ fun x hx => hfed ⟨x, hx⟩) h
    · obtain ⟨k, hk, x, hfirst⟩ := ih hn
      exact ⟨k, Nat.lt_succ_of_lt hk, x, hfirst⟩

theorem Rests.unfed (h : Rests f part μ s n k) (habove : s.Above run) (hunfed : Unfed f run μ n) :
    Unfed f run μ (k + 1) := by
  intro i hi
  rcases Nat.lt_or_ge i n with hlt | hge
  · exact hunfed i hlt
  · exact (h.stays i hge (Nat.le_of_lt_succ hi)).not_fed habove

end Standing

namespace Interleaved

variable {σ : Type} {f : FiberId} {part : World → σ} {run : Run} {next : Next} {μ : Nat → Moment}
  {s s' : Stand} {w w' : World} {calls : List Call} {x y : Exit Value Value} {i n k : Nat}

/-! ## The evaluation comes to its end -/

/-- Every step of the evaluation is taken by the fiber, however long it waits for its turn. -/
theorem takes (h : Interleaved f part run next μ)
    (hgoes : ∀ n, Unfed f run μ (n + 1) → (μ n).world.loop.stopped = false) (hunfed : Unfed f run μ n)
    (hturn : OnTurn f s (μ n)) (hpart : part w = part (μ n).world) (habove : s.Above run)
    (hpace : Pace f s w calls s' w') :
    ∃ k, n ≤ k ∧ Unfed f run μ (k + 1) ∧ OnTurn f s' (μ (k + 1)) ∧ calledFrom f μ n (k + 1) = calls ∧
      part w' = part (μ (k + 1)).world := by
  have hcalm : Schedule.Calm f part μ s n := by
    intro k hrests
    have hk := hrests.unfed habove hunfed
    exact ⟨h.others k hk, hgoes k hk⟩
  obtain ⟨k, left, hrests, hactivity⟩ :=
    h.schedule.comes_on h.belongs h.sound h.budget hcalm hturn
  have hunfed' := hrests.unfed habove hunfed
  obtain ⟨s₁, v, hpace', hnext⟩ := Moment.next_of_turn hactivity habove.not_exit
    (h.synchronous k hunfed' s ⟨_, hactivity⟩)
  -- the step depends on the part of the fiber only, which the others have left alone
  obtain ⟨w₁, hown, hsame⟩ :=
    hpace'.transport h.belongs (hrests.part.trans hpart.symm) (h.closures k hunfed')
  obtain ⟨hcalls, rfl, rfl⟩ := hown.unique hpace
  refine ⟨k, hrests.le, hunfed', ⟨left, ?_⟩, ?_, ?_⟩
  · rw [h.schedule.activity k, hnext]
  · rw [calledFrom_succ hrests.le, hrests.silent, List.nil_append, hcalls]
  · rw [(h.schedule.aside k).part, hnext, hsame]

/-- So the fiber comes to feed the exit to the run. -/
theorem feeds (h : Interleaved f part run next μ)
    (hgoes : ∀ n, Unfed f run μ (n + 1) → (μ n).world.loop.stopped = false) (hunfed : Unfed f run μ n)
    (hturn : OnTurn f s (μ n)) (hpart : part w = part (μ n).world)
    (hclimbs : Climbs f run i s w calls ⟨run, .ofExit x⟩ w') :
    ∃ k, n ≤ k ∧ Unfed f run μ k ∧ Fed f run x (μ k) ∧ calledFrom f μ n k = calls ∧
      part (μ k).world = part w' := by
  generalize hfed : (⟨run, .ofExit x⟩ : Stand) = fed at hclimbs
  induction hclimbs generalizing n with
  | refl s w =>
    subst hfed
    exact ⟨n, Nat.le_refl n, hunfed, hturn, calledFrom_self f μ n, hpart.symm⟩
  | step habove first _ ih =>
    obtain ⟨j, hj, hunfed', hturn', hcalls, hpart'⟩ := h.takes hgoes hunfed hturn hpart habove first
    obtain ⟨k, hk, hunfed'', hfeeds, hrest, hworld⟩ := ih hunfed' hturn' hpart' hfed
    refine ⟨k, by omega, hunfed'', hfeeds, ?_, hworld⟩
    rw [calledFrom_append (Nat.le_succ_of_le hj) hk, hcalls, hrest]

/-! ## What the fiber does is the evaluation -/

/-- What the fiber has done before a moment are steps of the evaluation, in the world of the first moment. -/
structure Partway (f : FiberId) (part : World → σ) (run : Run) (next : Next) (μ : Nat → Moment) (n : Nat)
    (s : Stand) (w : World) : Prop where
  climbed : ∃ i, Climbs f run i ⟨run, next⟩ (μ 0).world (calledFrom f μ 0 n) s w
  stands : At f s (μ n)
  part : part w = part (μ n).world
  goes : s.Above run ∨ ∃ x, s.Feeds run x ∧ Fed f run x (μ n)

theorem partway_zero (h : Interleaved f part run next μ) :
    Partway f part run next μ 0 ⟨run, next⟩ (μ 0).world := by
  refine ⟨⟨0, ?_⟩, .onTurn h.begins, rfl, ?_⟩
  · rw [calledFrom_self]
    exact .refl _ _
  · rcases Stand.above_or_feeds (@Run.Within.refl run) next with habove | ⟨x, hfeeds⟩
    · exact Or.inl habove
    · have hbegins : OnTurn f ⟨run, next⟩ (μ 0) := h.begins
      rw [hfeeds] at hbegins
      exact Or.inr ⟨x, hfeeds, hbegins⟩

/-- One more moment is no step or one step more. -/
theorem partway_succ (h : Interleaved f part run next μ) (hunfed : Unfed f run μ (n + 1))
    (hpartway : Partway f part run next μ n s w) : ∃ s' w', Partway f part run next μ (n + 1) s' w' := by
  obtain ⟨⟨i, hclimbs⟩, hstands, hpart, hgoes⟩ := hpartway
  have habove : s.Above run := by
    rcases hgoes with habove | ⟨x, -, hfed⟩
    · exact habove
    · exact absurd hfed (hunfed n (Nat.lt_succ_self n) x)
  have hcalls : calledFrom f μ 0 (n + 1) = calledFrom f μ 0 n ++ (μ n).calls f := calledFrom_succ (Nat.zero_le n)
  rcases h.schedule.tick h.belongs h.sound hstands habove.not_exit (h.synchronous n hunfed s)
    (h.others n hunfed) with ⟨s', v, hpace, hturn, hsame⟩ | ⟨hsilent, hstands', hsame⟩
  · obtain ⟨w', hown, hworld⟩ := hpace.transport h.belongs hpart.symm (h.closures n hunfed)
    obtain ⟨way, hleads⟩ := hown.leads
    refine ⟨s', w', ⟨i + 1, ?_⟩, .onTurn hturn, (hsame.trans hworld).symm, ?_⟩
    · rw [hcalls]
      exact hclimbs.trans (.one habove hown)
    · rcases hleads.stays habove with habove' | ⟨x, hfeeds⟩
      · exact Or.inl habove'
      · rw [hfeeds] at hturn
        exact Or.inr ⟨x, hfeeds, hturn⟩
  · refine ⟨s, w, ⟨i, ?_⟩, hstands', hpart.trans hsame.symm, Or.inl habove⟩
    rw [hcalls, hsilent, List.append_nil]
    exact hclimbs

theorem partway (h : Interleaved f part run next μ) (hunfed : Unfed f run μ n) :
    ∃ s w, Partway f part run next μ n s w := by
  induction n with
  | zero => exact ⟨_, _, h.partway_zero⟩
  | succ n ih =>
    obtain ⟨s, w, hpartway⟩ := ih (hunfed.mono (Nat.le_succ n))
    exact h.partway_succ hunfed hpartway

/-- An exit that is fed to the run is that of the evaluation. -/
theorem computes (h : Interleaved f part run next μ) (hunfed : Unfed f run μ n) (hfed : Fed f run x (μ n)) :
    ∃ w', Computes f run.masked next (μ 0).world (calledFrom f μ 0 n) x w' ∧ part (μ n).world = part w' := by
  obtain ⟨s, w, ⟨i, hclimbs⟩, hstands, hpart, -⟩ := h.partway hunfed
  obtain rfl := hstands.eq_of_turn hfed
  exact ⟨w, hclimbs.computes run.masks_eq, hpart.symm⟩

end Interleaved

/-! ## The end of the fiber -/

section Endings

variable {σ : Type} {f : FiberId} {part : World → σ} {run : Run} {next : Next} {μ : Nat → Moment} {m : Moment}
  {s : Stand} {x y : Exit Value Value} {n k : Nat} {p : Place}

theorem Fits.over_iff (h : Fits f (m.view f) p) : Over f m ↔ ∃ x, p.standing.exit? = some x := by
  have hphase : m.world.phase? f = some p.standing.phase := h.phase?_eq
  rw [Over, hphase, Option.some.injEq, Standing.phase_eq_done_iff]

/-- A fiber that has ended has ended for good. -/
theorem Moment.Sound.over_next (h : m.Sound f) (hover : Over f m) : Over f m.next := by
  obtain ⟨⟨p, hfits⟩, hquiet⟩ := h
  obtain ⟨x, hx⟩ := hfits.over_iff.1 hover
  have hnext := LeadsTo.next hquiet
  obtain ⟨es, htransitions⟩ := hnext
  obtain ⟨q, hmoves, hq⟩ := htransitions.fits hfits
  exact hq.over_iff.2 ⟨x, hmoves.exit? hx⟩

theorem Moment.Sound.not_over (h : m.Sound f) (hturn : OnTurn f s m) : ¬ Over f m := by
  obtain ⟨⟨p, hfits⟩, -⟩ := h
  obtain ⟨left, hactivity⟩ := hturn
  intro hover
  obtain ⟨x, hx⟩ := hfits.over_iff.1 hover
  obtain ⟨hstanding, -⟩ := (hfits.held_of_activity hactivity rfl).of_running
  rw [hstanding] at hx
  cases hx

theorem Moment.Sound.over_of_exit (h : m.Sound f) {left : Nat} (hactivity : m.activity = .running f (left + 1) s)
    (hdeed : s.deed = .exit x) : Over f m.next := by
  obtain ⟨⟨p, hfits⟩, -⟩ := h
  obtain ⟨home, hrecord⟩ := hfits.record
  have hchanged : (m.world.markDone f x).record f =
      some { p.record home with phase := .done, outcome := .ofExit x, hook := none } :=
    World.record_modifyFiber hrecord fun _ => rfl
  have hdone : (m.world.markDone f x).phase? f = some .done := World.phase?_of_record hchanged
  have hworld : m.next.world = m.world.markDone f x := by
    obtain ⟨w, a⟩ := m
    subst hactivity
    simp only [Moment.next, World.act, hdeed]
    split <;> rfl
  rw [Over, hworld]
  exact hdone

theorem Schedule.over_succ (h : Schedule f part μ) (hover : Over f (μ n).next) : Over f (μ (n + 1)) := by
  rw [Over, World.phase?_congr (h.aside n).record]
  exact hover

/-- A fiber that has come to its exit stays where it is until it has ended. -/
theorem Schedule.tick_of_exit (h : Schedule f part μ) (hpart : Belongs f part) (hsound : (μ 0).Sound f)
    (hat : At f s (μ n)) (hexit : s.deed = .exit x) :
    (μ n).calls f = [] ∧ (At f s (μ (n + 1)) ∨ Over f (μ (n + 1))) := by
  cases hat with
  | onTurn hturn =>
    obtain ⟨left, hactivity⟩ := hturn
    cases left with
    | zero =>
      obtain ⟨hawaits, -⟩ := h.awaits_of_yield hpart hactivity
      refine ⟨?_, Or.inl (h.at_of_awaits hsound hawaits)⟩
      rw [Moment.calls, hactivity]
    | succ left =>
      refine ⟨?_, Or.inr (h.over_succ ((h.sound hsound n).over_of_exit hactivity hexit))⟩
      simp [Moment.calls, hactivity, hexit]
  | waiting before hawaits haway =>
    have hothers := h.not_turn_of_awaits hsound hawaits
    exact ⟨Moment.calls_of_not_turn hothers, Or.inl (h.waits_on hsound hawaits)⟩

/-- From the moment at which the fiber has come to its exit on, it calls nothing until it has ended. -/
theorem Schedule.settles (h : Schedule f part μ) (hpart : Belongs f part) (hsound : (μ 0).Sound f)
    (hat : At f s (μ k)) (hexit : s.deed = .exit x) (hk : k ≤ n) :
    At f s (μ n) ∧ calledFrom f μ k n = [] ∨ Over f (μ n) := by
  induction hk with
  | refl => exact Or.inl ⟨hat, calledFrom_self f μ k⟩
  | step hk ih =>
    rcases ih with ⟨hat', hcalls⟩ | hover
    · obtain ⟨hsilent, hat'' | hover⟩ := h.tick_of_exit hpart hsound hat' hexit
      · refine Or.inl ⟨hat'', ?_⟩
        rw [calledFrom_succ hk, hcalls, hsilent, List.append_nil]
      · exact Or.inr hover
    · exact Or.inr (h.over_succ ((h.sound hsound _).over_next hover))

theorem Run.deed_of_empty (h : run.frames = []) (x : Exit Value Value) :
    (⟨run, .ofExit x⟩ : Stand).deed = .exit x := by
  obtain ⟨frames, masks⟩ := run
  cases h
  cases x <;> rfl

namespace Interleaved

/-- A fiber that ends has come to the end of the evaluation before. -/
theorem fed_of_ends (h : Interleaved f part run next μ) (hends : Ends f y (μ n)) :
    ∃ k ≤ n, ∃ x, Unfed f run μ k ∧ Fed f run x (μ k) := by
  obtain ⟨left, s, hactivity, hdeed⟩ := hends
  have hfed : ¬ Unfed f run μ (n + 1) := by
    intro hunfed
    obtain ⟨s', w, hpartway⟩ := h.partway (hunfed.mono (Nat.le_succ n))
    obtain rfl := hpartway.stands.eq_of_turn ⟨_, hactivity⟩
    rcases hpartway.goes with habove | ⟨x, -, hfed⟩
    · exact habove.not_exit y hdeed
    · exact hunfed n (Nat.lt_succ_self n) x hfed
  obtain ⟨k, hk, x, hfirst⟩ := Unfed.first hfed
  exact ⟨k, Nat.le_of_lt_succ hk, x, hfirst⟩

/-- With no frames below, the exit that is fed is that of the fiber. -/
theorem ends_with (h : Interleaved f part run next μ) (hframes : run.frames = []) (hfed : Fed f run x (μ k))
    (hk : k ≤ n) (hends : Ends f y (μ n)) : y = x ∧ calledFrom f μ k n = [] := by
  obtain ⟨left, s, hactivity, hdeed⟩ := hends
  have hexit := Run.deed_of_empty hframes x
  rcases h.schedule.settles h.belongs h.sound (.onTurn hfed) hexit hk with ⟨hstands, hcalls⟩ | hover
  · obtain rfl := hstands.eq_of_turn ⟨_, hactivity⟩
    injection hdeed.symm.trans hexit with hx
    exact ⟨hx, hcalls⟩
  · exact absurd hover ((h.schedule.sound h.sound n).not_over ⟨_, hactivity⟩)

/-- **The trampoline refines evaluation by recursion.** If the evaluation of what comes next has an exit, and the
loop is not stopped, then the fiber comes to feed that exit to the run with which it began, having called the
same closures in the same order, across however many turns. If the fiber feeds an exit to that run, or ends, then
the evaluation has that exit. -/
theorem refines_evaluation (h : Interleaved f part run next μ) :
    ((∀ n, Unfed f run μ (n + 1) → (μ n).world.loop.stopped = false) → ∀ calls x w',
      Computes f run.masked next (μ 0).world calls x w' →
        ∃ n, Unfed f run μ n ∧ Fed f run x (μ n) ∧ calledFrom f μ 0 n = calls ∧
          part (μ n).world = part w') ∧
    (∀ n x, Unfed f run μ n → Fed f run x (μ n) →
      ∃ w', Computes f run.masked next (μ 0).world (calledFrom f μ 0 n) x w' ∧
        part (μ n).world = part w') ∧
    ∀ n y, Ends f y (μ n) → ∃ k ≤ n, ∃ x w', Unfed f run μ k ∧ Fed f run x (μ k) ∧
      Computes f run.masked next (μ 0).world (calledFrom f μ 0 k) x w' ∧ part (μ k).world = part w' ∧
        (run.frames = [] → y = x ∧ calledFrom f μ 0 n = calledFrom f μ 0 k) := by
  refine ⟨?_, ?_, ?_⟩
  · intro hgoes calls x w' hcomputes
    obtain ⟨i, hclimbs⟩ := hcomputes.climbs run run.masks_eq
    obtain ⟨n, -, hfed⟩ := h.feeds hgoes .zero h.begins rfl hclimbs
    exact ⟨n, hfed⟩
  · intro n x hunfed hfed
    exact h.computes hunfed hfed
  · intro n y hends
    obtain ⟨k, hk, x, hunfed, hfed⟩ := h.fed_of_ends hends
    obtain ⟨w', hcomputes, hpart⟩ := h.computes hunfed hfed
    refine ⟨k, hk, x, w', hunfed, hfed, hcomputes, hpart, fun hframes => ?_⟩
    obtain ⟨hexit, hcalls⟩ := h.ends_with hframes hfed hk hends
    rw [calledFrom_append (Nat.zero_le k) hk, hcalls, List.append_nil]
    exact ⟨hexit, rfl⟩

end Interleaved

end Endings

/-! ## A fiber that reads a cell -/

theorem Schedule.after {σ : Type} (f : FiberId) (part : World → σ) (m : Moment) :
    Schedule f part fun n => Moment.after n m := by
  refine ⟨fun n => ?_, fun n => ?_⟩
  · rw [Moment.after_succ]
  · rw [Moment.after_succ]
    exact ⟨rfl, rfl, rfl, .refl _, id⟩

/-- A program that makes a cell and reads it. -/
def readCell : Effect := .chain (.perform (.makeCell (.int 1))) (.proceed (.perform (.getCell ⟨0⟩)))

/-- Two fibers were forked on a loop with turns of three steps. -/
def twoFibers : World := (((Scenario.initial { yieldBudget := 3 } []).fork readCell).2.fork .unitValue).2

/-- The moments from the first turn of the first fiber on. -/
def readingMoment (n : Nat) : Moment := Moment.after n (Moment.next ⟨twoFibers, .idle⟩)

/-- The flag of the first fiber, and the cells. -/
def flagAndCells (w : World) : Bool × Table Value := (w.flagged ⟨0⟩, w.stores.cells)

namespace Call

theorem local_makeCell (v : Value) : (Call.thunk (.perform (.makeCell v))).Local flagAndCells := by
  intro u w h
  have hcells : u.stores.cells = w.stores.cells := congrArg Prod.snd h
  have hflag : u.flagged ⟨0⟩ = w.flagged ⟨0⟩ := congrArg Prod.fst h
  constructor
  · show Next.value (.cell ⟨u.stores.cells.size⟩) = Next.value (.cell ⟨w.stores.cells.size⟩)
    rw [hcells]
  · show (u.flagged ⟨0⟩, u.stores.cells.push v) = (w.flagged ⟨0⟩, w.stores.cells.push v)
    rw [hcells, hflag]

theorem local_getCell (c : CellId) : (Call.thunk (.perform (.getCell c))).Local flagAndCells := by
  intro u w h
  have hcells : u.stores.cells = w.stores.cells := congrArg Prod.snd h
  refine ⟨?_, h⟩
  show Next.value (.ofOption (u.stores.cells.get? c.index)) = Next.value (.ofOption (w.stores.cells.get? c.index))
  rw [hcells]

theorem local_proceed (e : Effect) (v : Value) : (Call.bind (.proceed e) v).Local flagAndCells := by
  intro u w h
  exact ⟨rfl, h⟩

end Call

/-- The cell is read in the second turn of the fiber, after the other fiber has had its turn. -/
theorem readingMoment_fed : Fed ⟨0⟩ {} (.value (.int 1)) (readingMoment 10) := ⟨2, rfl⟩

theorem readingMoment_cases {n : Nat} (h : Unfed ⟨0⟩ {} readingMoment (n + 1)) :
    n = 0 ∨ n = 1 ∨ n = 2 ∨ n = 3 ∨ n = 4 ∨ n = 5 ∨ n = 6 ∨ n = 7 ∨ n = 8 ∨ n = 9 := by
  rcases Nat.lt_or_ge n 10 with hlt | hge
  · omega
  · exact absurd readingMoment_fed (h 10 (Nat.lt_succ_of_le hge) _)

theorem readingMoment_interleaved : Interleaved ⟨0⟩ flagAndCells {} (.eval readCell) readingMoment := by
  have hforked : Between (Scenario.initial { yieldBudget := 3 } []) twoFibers :=
    (Between.requested (PermitsCommon.launch (R := Requested) _ readCell .publish)).trans
      (Between.requested (PermitsCommon.launch (R := Requested) _ .unitValue .publish))
  obtain ⟨es, hreachable⟩ := (Reachable.initial { yieldBudget := 3 } []).between hforked
  have hfiber : ∃ r, twoFibers.fiber? ⟨0⟩ = some r := ⟨_, rfl⟩
  obtain ⟨r, hr⟩ := hfiber
  refine ⟨⟨fun v w h => congrArg Prod.fst h, fun w task => rfl⟩, .after _ _ _, (hreachable.sound hr).next, ⟨3, rfl⟩,
    by decide, ?_, ?_, ?_⟩
  · intro n hunfed hothers
    rcases readingMoment_cases hunfed with rfl | rfl | rfl | rfl | rfl | rfl | rfl | rfl | rfl | rfl
    all_goals first
      | rfl
      | exact absurd rfl (hothers _ _)
  · intro n hunfed c hc
    rcases readingMoment_cases hunfed with rfl | rfl | rfl | rfl | rfl | rfl | rfl | rfl | rfl | rfl
    -- the steps in which a closure is called
    case inr.inl =>
      obtain rfl := List.mem_singleton.1 hc
      exact Call.local_makeCell _
    case inr.inr.inl =>
      obtain rfl := List.mem_singleton.1 hc
      exact Call.local_proceed _ _
    case inr.inr.inr.inr.inr.inr.inr.inr.inr =>
      obtain rfl := List.mem_singleton.1 hc
      exact Call.local_getCell _
    all_goals cases hc
  · intro n hunfed s hturn r hdeed
    obtain ⟨left, hactivity⟩ := hturn
    rcases readingMoment_cases hunfed with rfl | rfl | rfl | rfl | rfl | rfl | rfl | rfl | rfl | rfl
    all_goals
      cases hactivity
      try cases hdeed

/-- A fiber whose first turn ends in the middle of its program goes on in its second turn, and comes to the value
that the program evaluates to. -/
theorem Interleaved.refines_of_readCell :
    Interleaved ⟨0⟩ flagAndCells {} (.eval readCell) readingMoment ∧
      ∃ n, Unfed ⟨0⟩ {} readingMoment n ∧ Fed ⟨0⟩ {} (.value (.int 1)) (readingMoment n) ∧
        calledFrom ⟨0⟩ readingMoment 0 n =
          [.thunk (.perform (.makeCell (.int 1))), .bind (.proceed (.perform (.getCell ⟨0⟩))) (.cell ⟨0⟩),
            .thunk (.perform (.getCell ⟨0⟩))] := by
  have hgoes : ∀ n, Unfed ⟨0⟩ {} readingMoment (n + 1) → (readingMoment n).world.loop.stopped = false := by
    intro n hunfed
    rcases readingMoment_cases hunfed with rfl | rfl | rfl | rfl | rfl | rfl | rfl | rfl | rfl | rfl
    all_goals rfl
  have hmake : Computes ⟨0⟩ false (.eval (.perform (.makeCell (.int 1)))) (readingMoment 0).world _
      (.value (.cell ⟨0⟩)) _ := .leaf rfl rfl (.value (.cell ⟨0⟩) _)
  have hget : Computes ⟨0⟩ false (.eval (.perform (.getCell ⟨0⟩))) (readingMoment 2).world _
      (.value (.int 1)) _ := .leaf rfl rfl (.value (.int 1) _)
  have hcomputes := Computes.chainValue (k := .proceed (.perform (.getCell ⟨0⟩))) hmake hget
  obtain ⟨n, hunfed, hfed, hcalls, -⟩ :=
    (Interleaved.refines_evaluation readingMoment_interleaved).1 hgoes _ _ _ hcomputes
  exact ⟨readingMoment_interleaved, n, hunfed, hfed, hcalls⟩

end FiberLoop
