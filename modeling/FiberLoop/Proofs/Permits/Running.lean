import FiberLoop.Proofs.Permits.Serving
import FiberLoop.Proofs.Runtime.Staying

/-!
# Runs with books

Every stroke of a run keeps the order, so it holds at every scene that a run comes to (`Recorded.orderly`). `Made` are
the scenes of a run from the time on at which a semaphore was made.
-/

namespace FiberLoop

open Engagement

namespace Orderly

variable {σ : Engagements} {b : Books} {s : Scene} {w : World} {kept : List Effect} {f : FiberId} {x : Exit Value Value}
  {hook : ExitHook} {E : Engagement}

/-- A fiber that has ended is in no acquire. -/
theorem not_exiting (h : Orderly σ b ⟨⟨w, .exiting f x hook⟩, kept⟩) : σ f = none := by
  cases hf : σ f with
  | none => rfl
  | some E =>
    obtain ⟨ask, ws, p, hat⟩ := h.engaged f E hf
    obtain ⟨hstanding, -⟩ := (hat.fits_self rfl).held.of_exiting
    cases hat.acquiring with
    | ready hp | registering hp | answered _ hp | returned hp | parked hp | unwinding _ _ hp =>
      cases hp.symm.trans hstanding

/-- The loop goes on to its next moment, and no fiber takes a step. -/
theorem next (h : Orderly σ b s) (hstep : s.stepper? .next = none) : Undealt σ b s (s.play .next) := by
  have hoccurs := h.occurs.after [.next]
  have hfire := h.fire
  obtain ⟨⟨w, a⟩, kept⟩ := s
  cases a with
  | idle =>
    simp only [Scene.after_cons, Scene.after_nil, Scene.play, Scene.between, Moment.next] at hoccurs hfire ⊢
    by_cases hstopped : w.loop.stopped = true
    · simp only [hstopped, if_true] at hfire ⊢
      exact hfire
    · simp only [hstopped] at hoccurs hfire ⊢
      exact hfire.trans (hfire.orderly.takeNext hoccurs)
  | running f left stand =>
    cases left with
    | zero => exact h.yield hoccurs
    | succ left => cases hstep
  | registering f left run r epoch =>
    cases hf : σ f with
    | none => exact h.beginRegistration rfl hf hoccurs
    | some E => exact h.beginAwait hf hoccurs
  | returning f left run canceler =>
    cases hf : σ f with
    | none => exact h.leaveRegistration rfl hf hoccurs
    | some E => exact h.endAwait hf hoccurs
  | canceling f left run canceler =>
    cases hf : σ f with
    | none => exact h.cancel hf hoccurs
    | some E => exact h.cancelAwait hf hoccurs
  | exiting f x hook => exact h.tell h.not_exiting hoccurs

/-- A stroke in which no fiber takes a step books nothing, and no acquire begins or is over. -/
theorem quietly (h : Orderly σ b s) {stroke : Stroke} (hstep : s.stepper? stroke = none) :
    Undealt σ b s (s.play stroke) := by
  cases stroke with
  | next => exact h.next hstep
  | fire => exact h.fire
  | switch => exact h.switch
  | clock time => exact h.clock time
  | demand d => exact h.demand d

/-- A fiber takes a step. -/
theorem step (h : Orderly σ b s) {left : Nat} {stand : Stand} (hstand : s.moment.activity = .running f (left + 1) stand) :
    ∃ σ', Advance σ b s σ' (s.book .next b) (s.play .next) := by
  have hoccurs := h.occurs.after [.next]
  obtain ⟨⟨w, a⟩, kept⟩ := s
  cases hstand
  cases hf : σ f with
  | none => exact h.free hf hoccurs
  | some E => exact h.serve hf hoccurs

end Orderly

theorem Scene.book_of_quiet {b : Books} {s : Scene} {stroke : Stroke} (h : s.stepper? stroke = none) :
    s.book stroke b = b := by
  obtain ⟨⟨w, a⟩, kept⟩ := s
  cases stroke with
  | next =>
    cases a with
    | running f left stand =>
      cases left with
      | zero => rfl
      | succ left => cases h
    | _ => rfl
  | _ => rfl

/-- **What a fiber books with a step.** -/
theorem Scene.book_adds {s : Scene} {f : FiberId} {left : Nat} {stand : Stand}
    (hstand : s.moment.activity = .running f (left + 1) stand) (b : Books) :
    ∃ sem new, b.Adds f sem new (s.book .next b) ∧
      ∀ e ∈ new, ∃ c run, stand.deed = .call c run ∧ b.Caused f c sem e := by
  have hnothing : ∃ sem new, b.Adds f sem new b ∧ ∀ e ∈ new, ∃ c run, stand.deed = .call c run ∧ b.Caused f c sem e :=
    ⟨⟨0⟩, [], .refl b, List.forall_mem_nil _⟩
  obtain ⟨⟨w, a⟩, kept⟩ := s
  cases hstand
  unfold book
  dsimp only
  split
  · rename_i c run hdeed
    split
    · exact hnothing
    · obtain ⟨sem, new, hadds, hcaused⟩ := b.record_adds f c w
      exact ⟨sem, new, hadds, fun e he => ⟨c, run, hdeed, hcaused e he⟩⟩
  · exact hnothing

theorem Scene.of_stepper? {s : Scene} {stroke : Stroke} {f : FiberId} (h : s.stepper? stroke = some f) :
    stroke = .next ∧ ∃ left stand, s.moment.activity = .running f (left + 1) stand := by
  obtain ⟨⟨w, a⟩, kept⟩ := s
  cases stroke with
  | next =>
    cases a with
    | running g left stand =>
      cases left with
      | zero => cases h
      | succ left =>
        cases h
        exact ⟨rfl, left, stand, rfl⟩
    | _ => cases h
  | _ => cases h

namespace Orderly

variable {σ : Engagements} {b : Books} {s : Scene}

/-- **Every stroke keeps the order.** -/
theorem play (h : Orderly σ b s) (stroke : Stroke) : ∃ σ', Advance σ b s σ' (s.book stroke b) (s.play stroke) := by
  cases hstep : s.stepper? stroke with
  | none =>
    rw [Scene.book_of_quiet hstep]
    exact ⟨σ, (h.quietly hstep).advance⟩
  | some f =>
    obtain ⟨rfl, left, stand, hstand⟩ := Scene.of_stepper? hstep
    exact h.step hstand

/-- Nobody is in an acquire when a session starts. -/
theorem initial (config : Config) (definitions : List (Name × Definition)) :
    Orderly (fun _ => none) {} (Scene.initial config definitions) where
  occurs := .initial config definitions
  confined := {
    loop := ⟨nofun, nofun⟩
    aside := ⟨nofun, nofun⟩
    fibers := fun _ _ hr => nomatch hr
    notices := fun _ _ hnotice => nomatch hnotice
    hidden := fun _ hf => absurd rfl hf
    stale := fun _ _ _ _ hf => absurd rfl hf
    stores := ⟨nofun, nofun, nofun, nofun, nofun, fun _ _ => trivial⟩
    session := ⟨nofun, nofun, nofun⟩ }
  activity := trivial
  kept := nofun
  books := {
    engaged := nofun
    claimed := nofun
    fibers := .nil
    tickets := .nil
    count := fun _ => rfl
    dealt := fun _ _ hrow => nomatch hrow
    unknown := fun _ _ => rfl
    latches := nofun
    owned := fun _ _ hrow => nomatch hrow }
  base := nofun
  engaged := nofun

end Orderly

/-! ## Runs -/

/-- A scene that some run comes to, with the books of the run. -/
inductive Recorded : Books → Scene → Prop where
  | initial (config : Config) (definitions : List (Name × Definition)) : Recorded {} (.initial config definitions)
  | play {b : Books} {s : Scene} (h : Recorded b s) (stroke : Stroke) : Recorded (s.book stroke b) (s.play stroke)

/-- A run, from the time on at which a semaphore was made with some permits. -/
inductive Made (sem : SemaphoreId) (n : Nat) : Books → Scene → Prop where
  | make {b : Books} {s : Scene} (h : Recorded b s) (stroke : Stroke)
    (hnone : s.moment.world.semaphore? sem = none)
    (hmade : ((s.play stroke).moment.world.semaphore? sem).map Semaphore.permits = some n) :
    Made sem n (s.book stroke b) (s.play stroke)
  | play {b : Books} {s : Scene} (h : Made sem n b s) (stroke : Stroke) : Made sem n (s.book stroke b) (s.play stroke)

section Runs

variable {b : Books} {s : Scene} {sem : SemaphoreId} {n : Nat}

theorem Recorded.after (h : Recorded b s) (strokes : List Stroke) : Recorded (s.books strokes b) (s.after strokes) := by
  induction strokes generalizing b s with
  | nil => exact h
  | cons stroke rest ih => exact ih (h.play stroke)

/-- The scenes of recorded runs are those of all runs. -/
theorem Scene.Occurs.recorded (h : s.Occurs) : ∃ b, Recorded b s := by
  obtain ⟨config, definitions, strokes, rfl⟩ := h
  exact ⟨_, Recorded.after (.initial config definitions) strokes⟩

/-- **Every run is in good order.** -/
theorem Recorded.orderly (h : Recorded b s) : ∃ σ, Orderly σ b s := by
  induction h with
  | initial config definitions => exact ⟨_, .initial config definitions⟩
  | play _ stroke ih =>
    obtain ⟨σ, hσ⟩ := ih
    obtain ⟨σ', hadvance⟩ := hσ.play stroke
    exact ⟨σ', hadvance.orderly⟩

theorem Made.recorded (h : Made sem n b s) : Recorded b s := by
  induction h with
  | make h stroke => exact h.play stroke
  | play _ stroke ih => exact ih.play stroke

end Runs

end FiberLoop
