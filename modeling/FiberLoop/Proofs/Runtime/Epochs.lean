import FiberLoop.Proofs.Runtime.Accounting

/-!
# Epochs

The epoch of a fiber only grows. While it stays the same, a fiber that has waited for a callback goes on waiting for
it.
-/

namespace FiberLoop

/-- Whether a fiber waits for a callback. -/
def Phase.listens : Phase → Bool
  | .registering _ | .suspended .. => true
  | _ => false

namespace World

def listens (f : FiberId) (w : World) : Bool := (w.phase? f).any Phase.listens

/-- Epochs only grow, and a fiber that has waited for a callback still does, in the same epoch. -/
def Later (w w' : World) : Prop :=
  ∀ f, w.epoch f < w'.epoch f ∨ w'.epoch f = w.epoch f ∧ (w.listens f = true → w'.listens f = true)

namespace Later

variable {u v w w' : World} {f : FiberId} {es : Chronicle}

theorem refl (w : World) : w.Later w := fun _ => Or.inr ⟨rfl, id⟩

theorem trans (h : u.Later v) (h' : v.Later w) : u.Later w := by
  intro f
  rcases h f with hlt | ⟨heq, hlistens⟩
  · rcases h' f with hlt' | ⟨heq', -⟩
    · exact Or.inl (Nat.lt_trans hlt hlt')
    · exact Or.inl (heq' ▸ hlt)
  · rcases h' f with hlt' | ⟨heq', hlistens'⟩
    · exact Or.inl (heq ▸ hlt')
    · exact Or.inr ⟨heq'.trans heq, fun hl => hlistens' (hlistens hl)⟩

theorem of_fiber? (h : ∀ f, w'.fiber? f = w.fiber? f) : w.Later w' := by
  intro f
  refine Or.inr ⟨?_, fun hl => ?_⟩
  · rw [epoch, epoch, h]
  · rwa [listens, phase?, h]

/-- What concerns the record of a fiber only up to its listeners. -/
theorem of_record (h : ∀ f, w'.record f = w.record f) : w.Later w' := by
  intro f
  refine Or.inr ?_
  cases hr : w.record f with
  | none =>
    have hr' := (h f).trans hr
    have hnone := fiber?_of_record_none hr
    have hnone' := fiber?_of_record_none hr'
    refine ⟨by rw [epoch, epoch, hnone, hnone'], fun hl => ?_⟩
    rw [listens, phase?, hnone] at hl
    cases hl
  | some r =>
    have hr' := (h f).trans hr
    exact ⟨by rw [epoch_of_record hr, epoch_of_record hr'], fun hl => by
      rw [listens, phase?_of_record hr] at hl
      rwa [listens, phase?_of_record hr']⟩

theorem modifyFiber (w : World) (f : FiberId) (change : Fiber → Fiber)
    (h : ∀ r, w.fiber? f = some r → r.epoch < (change r).epoch ∨
      (change r).epoch = r.epoch ∧ (r.phase.listens = true → (change r).phase.listens = true)) :
    w.Later (w.modifyFiber f change) := by
  intro g
  by_cases hg : f = g
  · subst hg
    simp only [epoch, listens, phase?, fiber?_modifyFiber_self]
    cases hr : w.fiber? f with
    | none => exact Or.inr ⟨rfl, id⟩
    | some r => exact h r hr
  · refine Or.inr ⟨?_, fun hl => ?_⟩
    · rw [epoch, epoch, fiber?_modifyFiber_of_ne hg]
    · rwa [listens, phase?, fiber?_modifyFiber_of_ne hg]

theorem dispatchTo (w : World) (name : LoopName) (t : Task) : w.Later (w.dispatchTo name t) :=
  of_fiber? fun f => fiber?_dispatchTo w name t f

theorem interrupt (w : World) (f : FiberId) : w.Later (w.interrupt f) := by
  unfold World.interrupt
  split
  · exact refl w
  · split
    · exact refl w
    · split
      · split
        · exact trans (modifyFiber w f _ fun r _ => Or.inl (Nat.lt_succ_self r.epoch)) (dispatchTo _ _ _)
        · exact modifyFiber w f _ fun r _ => Or.inr ⟨rfl, id⟩
      · exact modifyFiber w f _ fun r _ => Or.inr ⟨rfl, id⟩

theorem settle (w : World) (callback : Callback) (x : Exit Value Value) : w.Later (w.settle callback x) := by
  unfold World.settle
  split
  · exact refl w
  · split
    · exact refl w
    · split
      · exact modifyFiber w _ _ fun r _ => Or.inr ⟨rfl, fun _ => rfl⟩
      · exact trans (modifyFiber w _ _ fun r _ => Or.inl (Nat.lt_succ_self r.epoch)) (dispatchTo _ _ _)
      · exact refl w

theorem launch (w : World) (root : Effect) (hook : ExitHook) (notice : Option ExitNotice) :
    w.Later (w.launch root hook notice).2 := by
  intro f
  have hpush := Table.get?_push w.fibers { home := w.here, phase := .created root, hook := some hook, notice := notice }
    f.index
  refine Or.inr ?_
  split at hpush
  · rename_i hf
    have hnone : w.fiber? f = none := by
      rw [fiber?, ← Option.not_isSome_iff_eq_none, Table.isSome_get?_iff, hf]
      exact Nat.lt_irrefl _
    have hsome : (w.launch root hook notice).2.fiber? f = _ := hpush
    refine ⟨by rw [epoch, epoch, hsome, hnone]; rfl, fun hl => ?_⟩
    rw [listens, phase?, hnone] at hl
    cases hl
  · have hsame : (w.launch root hook notice).2.fiber? f = w.fiber? f := hpush
    exact ⟨by rw [epoch, epoch, hsame], fun hl => by rwa [listens, phase?, hsame]⟩

theorem request (h : Request w es w') : w.Later w' := by
  cases h with
  | quiet h => exact of_record h.record
  | interrupt f => exact interrupt w f
  | settle callback x => exact settle w callback x
  | launch root hook => exact launch w root hook _

theorem requests (h : Requests w es w') : w.Later w' := by
  induction h with
  | refl w => exact refl w
  | step first _ ih => exact trans (request first) ih

end Later

theorem epoch_of_fiber? {w : World} {f : FiberId} {r : Fiber} (h : w.fiber? f = some r) : w.epoch f = r.epoch := by
  rw [epoch, h, Option.elim_some]

theorem Later.epoch_le {w w' : World} (h : w.Later w') (f : FiberId) : w.epoch f ≤ w'.epoch f := by
  rcases h f with hlt | ⟨heq, -⟩
  · exact Nat.le_of_lt hlt
  · exact Nat.le_of_eq heq.symm

end World

end FiberLoop
