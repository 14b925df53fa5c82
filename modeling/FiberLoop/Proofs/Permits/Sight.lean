import FiberLoop.Proofs.Permits.Acquiring
import FiberLoop.Proofs.Runtime.Epochs
import FiberLoop.Proofs.Runtime.Growing

/-!
# What fibers can know

A fiber in the middle of an acquire is hidden from all others, and so is the latch with which it has joined a line:
what the others can get hold of is `World.scope`. That grows while a run goes on: more deferreds and semaphores are
there, and more callbacks come too late.
-/

namespace FiberLoop

/-- The acquires that are under way. -/
abbrev Engagements := FiberId → Option Engagement

namespace World

/-- A callback that somebody may hold who is in no acquire: it comes too late, or belongs to a fiber that waits for
something else. -/
def Knows (σ : Engagements) (w : World) (cb : Callback) : Prop :=
  cb.epoch < w.epoch cb.fiber ∨ cb.epoch = w.epoch cb.fiber ∧ w.listens cb.fiber = true ∧ σ cb.fiber = none

/-- What the fibers can know that are in no acquire. Nobody can complete a callback of any other fiber. -/
def scope (σ : Engagements) (b : Books) (w : World) : Scope where
  mentions
    | .deferred d | .wait d => d.index < w.stores.deferreds.size ∧ d ∉ b.latches
    | .semaphore s | .through _ (some s) => s.index < w.stores.semaphores.size
    | .place _ | .request => False
    | .queue _ | .draw _ | .undo _ | .through _ none => True
  queue _ := True
  joint _ := True
  callback cb := w.Knows σ cb
  fiber f := σ f = none
  waiter cb := w.Knows σ cb
  lines := True
  starts := True
  shields := True
  known _ h := Or.inl h
  joins _ _ h := h
  waits _ h := h
  gates _ _ _ h := h

variable {σ σ' : Engagements} {b b' : Books} {w w' : World}

/-- A callback that may be held may still be held later. -/
theorem Knows.later {cb : Callback} (h : w.Knows σ cb) (hlater : w.Later w')
    (hengaged : ∀ f, σ f = none → σ' f = none ∨ w'.listens f = false) : w'.Knows σ' cb := by
  rcases h with hlt | ⟨heq, hlistens, hfree⟩
  · rcases hlater cb.fiber with hgrown | ⟨hsame, -⟩
    · exact Or.inl (Nat.lt_trans hlt hgrown)
    · exact Or.inl (hsame ▸ hlt)
  · rcases hlater cb.fiber with hgrown | ⟨hsame, hstill⟩
    · exact Or.inl (heq ▸ hgrown)
    · refine Or.inr ⟨heq.trans hsame.symm, hstill hlistens, (hengaged _ hfree).resolve_right fun hdeaf => ?_⟩
      rw [hstill hlistens] at hdeaf
      cases hdeaf

theorem scope_grows (hlater : w.Later w') (hdeferreds : w.stores.deferreds.size ≤ w'.stores.deferreds.size)
    (hsemaphores : w.stores.semaphores.size ≤ w'.stores.semaphores.size)
    (hlatches : ∀ l ∈ b'.latches, l ∈ b.latches ∨ w.stores.deferreds.size ≤ l.index)
    (hengaged : ∀ f, σ f = none → σ' f = none ∨ w'.listens f = false) : (w.scope σ b).Grows (w'.scope σ' b') := by
  refine ⟨fun d hd => ?_, fun _ => id, fun _ => id, fun cb h => h.later hlater hengaged, fun cb h => h.later hlater hengaged, id⟩
  cases d with
  | deferred d | wait d =>
    refine ⟨Nat.lt_of_lt_of_le hd.1 hdeferreds, fun hl => ?_⟩
    rcases hlatches d hl with hknown | hnew
    · exact hd.2 hknown
    · exact Nat.not_lt_of_le hnew hd.1
  | semaphore s => exact Nat.lt_of_lt_of_le hd hsemaphores
  | through q gate =>
    cases gate with
    | none => exact trivial
    | some s => exact Nat.lt_of_lt_of_le hd hsemaphores
  | place l | request | queue q | draw q | undo q => exact hd

/-- **What is confined to what could be known before is confined to what can be known now.** -/
theorem Confined.rescope (hw : w'.Confined (w.scope σ b)) (hlater : w.Later w') (hquiet : w'.TimersQuiet)
    (hdeferreds : w.stores.deferreds.size ≤ w'.stores.deferreds.size)
    (hsemaphores : w.stores.semaphores.size ≤ w'.stores.semaphores.size)
    (hlatches : ∀ l ∈ b'.latches, l ∈ b.latches ∨ w.stores.deferreds.size ≤ l.index)
    (hstay : ∀ l ∈ b.latches, l ∈ b'.latches)
    (hfresh : ∀ d row, w'.deferred? d = some row → w.stores.deferreds.size ≤ d.index → d ∉ b'.latches → row = .fresh)
    (hengaged : ∀ f, σ f = none → σ' f = none ∨ w'.listens f = false)
    (hfree : ∀ f, σ' f = none → σ f = none ∨ w'.Bare f)
    (hthere : ∀ f, σ' f ≠ none → (w'.fiber? f).isSome = true) : w'.Confined (w'.scope σ' b') := by
  refine hw.mono (scope_grows hlater hdeferreds hsemaphores hlatches hengaged) hquiet hfree ?_ hthere ?_
    fun _ _ => Or.inl trivial
  · intro d row hrow hd
    by_cases hold : d.index < w.stores.deferreds.size
    · exact Or.inl ⟨hold, fun hl => hd.2 (hstay d hl)⟩
    · exact Or.inr (hfresh d row hrow (Nat.le_of_not_lt hold) hd.2)
  · rintro - cb r (hlt | ⟨-, -, hnone⟩) hhidden hr
    · rwa [epoch_of_fiber? hr] at hlt
    · exact absurd hnone hhidden

end World

end FiberLoop
