import FiberLoop.Proofs.Laws.Unfolding

/-!
# Outcomes

In given surroundings a description comes to a set of outcomes: the leaves that it has evaluated so far, and its exit
once it has one. Outcomes are composed by `Outcomes.bind`, which is associative and has `Outcomes.pure` as a unit.

The main result of this module is `Surroundings.comes_opened`: what a node comes to that is no leaf is what the node
inside comes to, with what comes of its exit.
-/

namespace FiberLoop

/-- The leaves that may have been evaluated at some time, and the exits that an evaluation may then have. -/
def Outcomes : Type := List Met → Option (Exit Value Value) → Prop

namespace Outcomes

variable {D : Outcomes} {F G : List Met → Exit Value Value → Outcomes} {met : List Met} {x : Exit Value Value}

/-- The evaluation has ended. -/
protected def pure (met : List Met) (x : Exit Value Value) : Outcomes :=
  fun met' out => met' = met ∧ (out = none ∨ out = some x)

/-- First one evaluation, then another with its exit. -/
protected def bind (D : Outcomes) (F : List Met → Exit Value Value → Outcomes) : Outcomes :=
  fun met out => out = none ∧ D met none ∨ ∃ met' x, D met' (some x) ∧ F met' x met out

theorem bind_assoc : (D.bind F).bind G = D.bind fun met x => (F met x).bind G := by
  funext met out
  refine propext ⟨?_, ?_⟩
  · rintro (⟨rfl, hnone | ⟨met', x, hd, hf⟩⟩ | ⟨met'', y, ⟨hout, -⟩ | ⟨met', x, hd, hf⟩, hg⟩)
    · exact Or.inl ⟨rfl, hnone.2⟩
    · exact Or.inr ⟨met', x, hd, Or.inl ⟨rfl, hf⟩⟩
    · cases hout
    · exact Or.inr ⟨met', x, hd, Or.inr ⟨met'', y, hf, hg⟩⟩
  · rintro (⟨rfl, hd⟩ | ⟨met', x, hd, ⟨rfl, hf⟩ | ⟨met'', y, hf, hg⟩⟩)
    · exact Or.inl ⟨rfl, Or.inl ⟨rfl, hd⟩⟩
    · exact Or.inl ⟨rfl, Or.inr ⟨met', x, hd, hf⟩⟩
    · exact Or.inr ⟨met'', y, Or.inr ⟨met', x, hd, hf⟩, hg⟩

theorem pure_bind (hF : F met x met none) : (Outcomes.pure met x).bind F = F met x := by
  funext met' out
  refine propext ⟨?_, fun hf => Or.inr ⟨met, x, ⟨rfl, Or.inr rfl⟩, hf⟩⟩
  rintro (⟨rfl, rfl, -⟩ | ⟨met'', y, ⟨rfl, hy⟩, hf⟩)
  · exact hF
  · rcases hy with hy | hy
    · cases hy
    · cases hy
      exact hf

end Outcomes

namespace Surroundings

variable {ω : Surroundings} {masked : Bool} {met : List Met} {e : Effect} {next : Next} {x : Exit Value Value}

/-- What an evaluation comes to that goes on from these leaves. -/
def comes (ω : Surroundings) (masked : Bool) (met : List Met) (next : Next) : Outcomes :=
  fun met' out => ∃ n, Unfolds ω masked n met next met' out

theorem comes_start : ω.comes masked met next met none := ⟨0, .soFar⟩

theorem comes_ofExit (x : Exit Value Value) : ω.comes masked met (.ofExit x) = .pure met x := by
  funext met' out
  refine propext ⟨?_, ?_⟩
  · rintro ⟨n, h⟩
    cases x with
    | value v =>
      cases h with
      | soFar => exact ⟨rfl, Or.inl rfl⟩
      | value => exact ⟨rfl, Or.inr rfl⟩
    | cause c =>
      cases h with
      | soFar => exact ⟨rfl, Or.inl rfl⟩
      | cause => exact ⟨rfl, Or.inr rfl⟩
  · rintro ⟨rfl, rfl | rfl⟩
    · exact ⟨0, .soFar⟩
    · cases x with
      | value v => exact ⟨0, .value⟩
      | cause c => exact ⟨0, .cause⟩

/-- **What a node comes to that is no leaf is what comes of the exit of the node inside.** -/
theorem comes_opened {o : Opened} (h : e.opened? = some o) : ω.comes masked met (.eval e) =
    (ω.comes (masked || o.closes) met (.eval o.source)).bind
      fun met x => ω.comes masked met (o.after x (ω.world met)) := by
  funext met' out
  refine propext ⟨?_, ?_⟩
  · rintro ⟨n, hn⟩
    cases hn with
    | soFar => exact Or.inl ⟨rfl, comes_start⟩
    | leaf hleaf =>
      cases e with
      | chain _ _ | fold _ _ _ | region _ _ => cases hleaf
      | _ => cases h
    | within hopened hsource =>
      cases h.symm.trans hopened
      exact Or.inl ⟨rfl, _, hsource.forget⟩
    | beyond hopened hsource hafter =>
      cases h.symm.trans hopened
      exact Or.inr ⟨_, _, ⟨_, hsource⟩, _, hafter⟩
  · rintro (⟨rfl, n, hsource⟩ | ⟨met'', x, ⟨n, hsource⟩, m, hafter⟩)
    · exact ⟨_, .within h hsource⟩
    · exact ⟨_, .beyond h hsource hafter⟩

/-- What comes of a chain whose source has ended. -/
def bound (ω : Surroundings) (masked : Bool) (k : Continuation) (met : List Met) (x : Exit Value Value) : Outcomes :=
  ω.comes masked met (x.fold (fun v => (Call.bind k v).result (ω.world met)) .cause)

theorem bound_start {k : Continuation} : ω.bound masked k met x met none := comes_start

theorem bound_cause {k : Continuation} (c : Cause Value) : ω.bound masked k met (.cause c) = .pure met (.cause c) :=
  comes_ofExit (.cause c)

theorem comes_chain (e : Effect) (k : Continuation) :
    ω.comes masked met (.eval (.chain e k)) = (ω.comes masked met (.eval e)).bind (ω.bound masked k) := by
  rw [comes_opened rfl, Bool.or_false]
  rfl

theorem comes_fold (e : Effect) (k : Continuation) (r : Recovery) : ω.comes masked met (.eval (.fold e k r)) =
    (ω.comes masked met (.eval e)).bind fun met x => ω.comes masked met
      (x.fold (fun v => (Call.bind k v).result (ω.world met)) fun c => (Call.recover r c).result (ω.world met)) := by
  rw [comes_opened rfl, Bool.or_false]

theorem comes_uninterruptible (e : Effect) :
    ω.comes masked met (.eval e.uninterruptible) = (ω.comes true met (.eval e)).bind .pure := by
  rw [Effect.uninterruptible, comes_opened rfl, Interruptibility.isInterruptible, Bool.not_false, Bool.or_true]
  simp only [comes_ofExit]

end Surroundings

end FiberLoop
