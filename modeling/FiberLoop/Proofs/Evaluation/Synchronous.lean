import FiberLoop.Effect.Combinators
import FiberLoop.Proofs.Evaluation.BigStep
import FiberLoop.Proofs.Runtime.Moment

/-!
# Synchronous evaluation

An effect is synchronous if it comes to its exit by steps of its fiber alone: whatever it registers is answered
before the registration ends. `Yields` says by recursion on the nodes to which exit an effect comes, after how many
steps and with which effect on a part of the world, provided that its closures depend on nothing but that part and
interrupt nobody. It says nothing about stacks, about turns, or about the fiber that evaluates the effect.

The main result of this module is `Yields.walks`: on every run the steps of a fiber lead to that exit.
-/

namespace FiberLoop

section Synchronous

variable {σ : Type}

/-- A part of the world that holds none of the books of the runtime: not the records of the fibers, not the queue of the
loop that runs, and not the races and pairings. -/
structure Aloof (part : World → σ) : Prop where
  fibers : ∀ (w : World) (fibers : Table Fiber), part { w with fibers := fibers } = part w
  queue : ∀ (w : World) (inbox : List Message) (dispatched : Nat),
    part { w with loop := { w.loop with inbox := inbox, dispatched := dispatched } } = part w
  joints : ∀ (w : World) (races : Table Race) (pairings : Table Pairing),
    part { w with stores := { w.stores with races := races, pairings := pairings } } = part w

/-- What a closure says, and what it does to a part of the world, depends on that part alone; and it interrupts
nobody. -/
structure Call.Gives (part : World → σ) (c : Call) (a : σ) (next : Next) (b : σ) : Prop where
  result : ∀ w, part w = a → c.result w = next
  leaves : ∀ w, part w = a → part (c.leaves w) = b
  flags : ∀ w, part w = a → ∀ f, (c.leaves w).flagged f = w.flagged f

/-- The fiber of a callback has begun to register it, and the callback is not completed yet. -/
structure World.Registers (callback : Callback) (w : World) : Prop where
  phase : w.phase? callback.fiber = some (.registering none)
  epoch : w.epoch callback.fiber = callback.epoch

/-- Whoever registers that comes to an exit at once: the callback is completed before the registration returns, or the
registration throws. The exit, and what is done to a part of the world, depends on that part alone; and nobody is
interrupted. -/
structure Registration.Answers (part : World → σ) (r : Registration) (a : σ) (x : Exit Value Value) (b : σ) : Prop where
  returned : ∀ w callback canceler, part w = a → w.Registers callback →
    ((r.run callback).caught w).1 = .ok canceler →
      ((r.run callback).caught w).2.phase? callback.fiber = some (.registering (some x))
  threw : ∀ w callback d, part w = a → w.Registers callback → ((r.run callback).caught w).1 = .error d → x = .aborted d
  leaves : ∀ w callback, part w = a → w.Registers callback → part ((r.run callback).caught w).2 = b
  flags : ∀ w callback, part w = a → w.Registers callback →
    ∀ f, ((r.run callback).caught w).2.flagged f = w.flagged f

/-- What comes next leads to that exit in so many steps, wherever it is evaluated in a world with that part, and leaves
that part. -/
inductive Yields (part : World → σ) : Next → σ → Nat → Exit Value Value → σ → Prop where
  | value (v : Value) (a : σ) : Yields part (.value v) a 0 (.value v) a
  | cause (c : Cause Value) (a : σ) : Yields part (.cause c) a 0 (.cause c) a
  | leaf {e : Effect} {c : Call} {next : Next} {n : Nat} {x : Exit Value Value} {a b d : σ} (hleaf : e.leaf? = some c)
    (hcall : c.Gives part a next b) (hnext : Yields part next b n x d) : Yields part (.eval e) a (n + 1) x d
  | currentLoop (a : σ) : Yields part (.eval .currentLoop) a 1 (.value .null) a
  | async {r : Registration} {x : Exit Value Value} {a b : σ} (h : r.Answers part a x b) :
    Yields part (.eval (.async r)) a 1 x b
  | chainValue {source : Effect} {k : Continuation} {v : Value} {next : Next} {n m : Nat} {x : Exit Value Value}
    {a b d e : σ} (hsource : Yields part (.eval source) a n (.value v) b)
    (hcall : (Call.bind k v).Gives part b next d) (hnext : Yields part next d m x e) :
    Yields part (.eval (.chain source k)) a (n + (m + 1) + 1) x e
  | chainCause {source : Effect} {k : Continuation} {c : Cause Value} {n : Nat} {a b : σ}
    (hsource : Yields part (.eval source) a n (.cause c) b) :
    Yields part (.eval (.chain source k)) a (n + 1 + 1) (.cause c) b
  | foldValue {source : Effect} {k : Continuation} {r : Recovery} {v : Value} {next : Next} {n m : Nat}
    {x : Exit Value Value} {a b d e : σ} (hsource : Yields part (.eval source) a n (.value v) b)
    (hcall : (Call.bind k v).Gives part b next d) (hnext : Yields part next d m x e) :
    Yields part (.eval (.fold source k r)) a (n + (m + 1) + 1) x e
  | foldCause {source : Effect} {k : Continuation} {r : Recovery} {c : Cause Value} {next : Next} {n m : Nat}
    {x : Exit Value Value} {a b d e : σ} (hsource : Yields part (.eval source) a n (.cause c) b)
    (hcall : (Call.recover r c).Gives part b next d) (hnext : Yields part next d m x e) :
    Yields part (.eval (.fold source k r)) a (n + (m + 1) + 1) x e
  | region {body : Effect} {status : Interruptibility} {n : Nat} {x : Exit Value Value} {a b : σ}
    (hbody : Yields part (.eval body) a n x b) : Yields part (.eval (.region body status)) a (n + 1 + 1) x b

/-- A number of steps from one stand to another, all of them above a run, in worlds of which a part is given. -/
inductive Walks (part : World → σ) (base : Run) : Nat → Stand → σ → Stand → σ → Prop where
  | refl (s : Stand) (a : σ) : Walks part base 0 s a s a
  | move {s s' t : Stand} {n : Nat} {a b : σ} (habove : s.Above base) (hdeed : s.deed = .move s')
    (h : Walks part base n s' a t b) : Walks part base (n + 1) s a t b
  | call {s t : Stand} {c : Call} {run : Run} {next : Next} {n : Nat} {a b d : σ} (habove : s.Above base)
    (hdeed : s.deed = .call c run) (hcall : c.Gives part a next b) (h : Walks part base n ⟨run, next⟩ b t d) :
    Walks part base (n + 1) s a t d
  | answer {s t : Stand} {r : Registration} {x : Exit Value Value} {n : Nat} {a b d : σ} (habove : s.Above base)
    (hdeed : s.deed = .register r) (hanswers : r.Answers part a x b) (h : Walks part base n ⟨s.run, .ofExit x⟩ b t d) :
    Walks part base (n + 1) s a t d

variable {part : World → σ} {base inner run : Run} {s t u : Stand} {n m : Nat} {a b c : σ} {x y : Exit Value Value}

/-! ## Steps -/

namespace Walks

theorem trans (h : Walks part base n s a t b) (h' : Walks part base m t b u c) : Walks part base (n + m) s a u c := by
  induction h with
  | refl s a =>
    rw [Nat.zero_add]
    exact h'
  | move habove hdeed _ ih =>
    rw [Nat.succ_add]
    exact .move habove hdeed (ih h')
  | call habove hdeed hcall _ ih =>
    rw [Nat.succ_add]
    exact .call habove hdeed hcall (ih h')
  | answer habove hdeed hanswers _ ih =>
    rw [Nat.succ_add]
    exact .answer habove hdeed hanswers (ih h')

/-- Steps above an inner run are steps above the run on which that one lies. -/
theorem lower (h : Walks part inner n s a t b) (hbase : base.Within inner) : Walks part base n s a t b := by
  induction h with
  | refl s a => exact .refl s a
  | move habove hdeed _ ih => exact .move (habove.trans hbase) hdeed ih
  | call habove hdeed hcall _ ih => exact .call (habove.trans hbase) hdeed hcall ih
  | answer habove hdeed hanswers _ ih => exact .answer (habove.trans hbase) hdeed hanswers ih

/-- First an inner evaluation is begun, and when it has ended, what is left of the outer one. -/
theorem around {e source : Effect} (hbegin : (⟨base, .eval e⟩ : Stand).deed = .move ⟨inner, .eval source⟩)
    (hbase : base.Within inner) (hsource : Walks part inner n ⟨inner, .eval source⟩ a ⟨inner, .ofExit y⟩ b)
    (hrest : Walks part base m ⟨inner, .ofExit y⟩ b t c) : Walks part base (n + m + 1) ⟨base, .eval e⟩ a t c :=
  .move (Stand.above_eval .refl e) hbegin ((hsource.lower hbase).trans hrest)

/-- A walk that has not come to its end is above the run. -/
theorem above_of_succ (h : Walks part base (n + 1) s a t b) : s.Above base := by
  cases h with
  | move habove | call habove | answer habove => exact habove

end Walks

/-- Leaving a region is a move. -/
theorem Stand.deed_leave (run : Run) (status : Interruptibility) (x : Exit Value Value) :
    (⟨run.enter status, .ofExit x⟩ : Stand).deed = .move ⟨run, .ofExit x⟩ := by
  cases x <;> rfl

/-! ## From recursion to steps -/

/-- **On every run the steps of a fiber lead to the exit that an effect yields.** -/
theorem Yields.walks {next : Next} (h : Yields part next a n x b) (run : Run) :
    Walks part run n ⟨run, next⟩ a ⟨run, .ofExit x⟩ b := by
  induction h generalizing run with
  | value v a => exact .refl _ a
  | cause c a => exact .refl _ a
  | leaf hleaf hcall _ ih => exact .call (Stand.above_eval .refl _) (Effect.deed_of_leaf hleaf) hcall (ih run)
  | currentLoop a => exact .move (Stand.above_eval .refl _) rfl (.refl _ a)
  | async hanswers => exact .answer (Stand.above_eval .refl _) rfl hanswers (.refl _ _)
  | @chainValue source k v next n m x a b d e _ hcall _ ihsource ihnext =>
    have habove := Stand.above_of_length (Run.Within.chain .refl k) (Nat.lt_succ_self run.frames.length) (.value v)
    exact .around rfl (.chain .refl k) (ihsource (run.push (.chain k))) (.call habove rfl hcall (ihnext run))
  | @chainCause source k c n a b _ ihsource =>
    have habove := Stand.above_of_length (Run.Within.chain .refl k) (Nat.lt_succ_self run.frames.length) (.cause c)
    exact .around rfl (.chain .refl k) (ihsource (run.push (.chain k))) (.move habove rfl (.refl _ b))
  | @foldValue source k r v next n m x a b d e _ hcall _ ihsource ihnext =>
    have habove := Stand.above_of_length (Run.Within.fold .refl k r) (Nat.lt_succ_self run.frames.length) (.value v)
    exact .around rfl (.fold .refl k r) (ihsource (run.push (.fold k r))) (.call habove rfl hcall (ihnext run))
  | @foldCause source k r c next n m x a b d e _ hcall _ ihsource ihnext =>
    have habove := Stand.above_of_length (Run.Within.fold .refl k r) (Nat.lt_succ_self run.frames.length) (.cause c)
    exact .around rfl (.fold .refl k r) (ihsource (run.push (.fold k r))) (.call habove rfl hcall (ihnext run))
  | @region body status n x a b _ ihbody =>
    have habove := Stand.above_of_length (Run.Within.region .refl status) (Nat.lt_succ_self run.frames.length) (.ofExit x)
    exact .around rfl (.region .refl status) (ihbody (run.enter status))
      (.move habove (Stand.deed_leave run status x) (.refl _ b))

/-! ## One after the other -/

/-- A closure that only says what comes next leaves the world as it is. -/
theorem Call.Gives.of_pure {c : Call} {next : Next} (h : c.act = pure next) (a : σ) : c.Gives part a next a := by
  have hcaught (w : World) : c.act.caught w = (.ok next, w) := by rw [h]; rfl
  refine ⟨fun w _ => ?_, fun w hw => ?_, fun w _ f => ?_⟩
  · rw [Call.result, hcaught]
    rfl
  · rw [Call.leaves, hcaught]
    exact hw
  · rw [Call.leaves, hcaught]

/-- What two effects and a function of their values amount to, one after the other, if each of the two effects takes
less than that many steps: the first cause, or what the function says. -/
inductive InTurn (part : World → σ) (budget : Nat) (left right : Effect) (f : Combine) (a : σ) :
    Exit Value Value → Prop where
  | leftCause {c : Cause Value} {n : Nat} {b : σ} (hleft : Yields part (.eval left) a n (.cause c) b) (hn : n < budget) :
    InTurn part budget left right f a (.cause c)
  | rightCause {v : Value} {c : Cause Value} {n m : Nat} {b d : σ}
    (hleft : Yields part (.eval left) a n (.value v) b) (hn : n < budget)
    (hright : Yields part (.eval right) b m (.cause c) d) (hm : m < budget) :
    InTurn part budget left right f a (.cause c)
  | combined {v v' : Value} {x : Exit Value Value} {n m : Nat} {b d e : σ}
    (hleft : Yields part (.eval left) a n (.value v) b) (hn : n < budget)
    (hright : Yields part (.eval right) b m (.value v') d) (hm : m < budget)
    (hcombine : (Call.bind (.combineLeft v f) v').Gives part d (.ofExit x) e) :
    InTurn part budget left right f a x

/-- What comes next is an exit already. -/
theorem Yields.ofExit (x : Exit Value Value) (a : σ) : Yields part (.ofExit x) a 0 x a := by
  cases x with
  | value v => exact .value v a
  | cause c => exact .cause c a

/-- Combined one after the other, two effects yield that. -/
theorem InTurn.yields {budget : Nat} {left right : Effect} {f : Combine} (h : InTurn part budget left right f a x) :
    ∃ n b, Yields part (.eval (left.zipWith right f)) a n x b := by
  cases h with
  | leftCause hleft _ => exact ⟨_, _, .chainCause hleft⟩
  | rightCause hleft _ hright _ =>
    exact ⟨_, _, .chainValue hleft (.of_pure rfl _) (.chainCause hright)⟩
  | combined hleft _ hright _ hcombine =>
    exact ⟨_, _, .chainValue hleft (.of_pure rfl _) (.chainValue hright hcombine (.ofExit x _))⟩

/-! ## Cells -/

/-- The cells are none of the books of the runtime. -/
theorem Aloof.cells : Aloof fun w : World => w.stores.cells := ⟨fun _ _ => rfl, fun _ _ _ => rfl, fun _ _ _ => rfl⟩

theorem Yields.getCell (c : CellId) (a : Table Value) : Yields (fun w => w.stores.cells)
    (.eval (.perform (.getCell c))) a 1 (.value (.ofOption (a.get? c.index))) a := by
  refine .leaf rfl ⟨fun w hw => ?_, fun w hw => hw, fun w _ f => rfl⟩ (.value _ a)
  exact congrArg (fun cells : Table Value => Next.value (.ofOption (cells.get? c.index))) hw

theorem Yields.setCell (c : CellId) (v : Value) (a : Table Value) : Yields (fun w => w.stores.cells)
    (.eval (.perform (.setCell c v))) a 1 (.value .null) (a.set c.index v) := by
  refine .leaf rfl ⟨fun w _ => rfl, fun w hw => ?_, fun w _ f => rfl⟩ (.value .null _)
  exact congrArg (fun cells : Table Value => cells.set c.index v) hw

theorem Yields.convert {e : Effect} {v : Value} (h : Yields part (.eval e) a n (.value v) b) :
    Yields part (.eval e.convert) a (n + 1 + 1) (.value v) b := .chainValue h (.of_pure rfl b) (.value v b)

end Synchronous

end FiberLoop
