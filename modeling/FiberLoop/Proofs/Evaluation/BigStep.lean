import FiberLoop.Proofs.Runtime.Path

/-!
# Evaluation by recursion

`Computes` says what a description amounts to by recursion on its nodes, without stacks, turns or yields: which
closures are called, in which order, with which exit, and what becomes of the world on which they act. Only
whether the fiber is inside an uninterruptible region is handed down.

`Climbs` takes the steps of the trampoline one after the other in the same world. The main results of this
module are `Computes.climbs` and `Climbs.computes`: from every run, the steps that lead to the exit of a
description are those that its evaluation by recursion stands for.
-/

namespace FiberLoop

/-- The closure of a leaf. -/
def Effect.leaf? : Effect → Option Call
  | .succeeded v => some (.value v)
  | .caused c => some (.cause c)
  | .complete x => some (.exit x)
  | .suspend thunk => some (.thunk thunk)
  | .async _ | .chain .. | .fold .. | .currentLoop | .region .. => none

/-- Whether the interruption of a fiber was requested. -/
def World.flagged (f : FiberId) (w : World) : Bool := (w.fiber? f).any (·.interruptRequested)

namespace Call

/-- What comes after a closure: a defect if it throws. -/
def result (c : Call) (w : World) : Next := .ofExcept (c.act.caught w).1

/-- The world that a closure leaves. -/
def leaves (c : Call) (w : World) : World := (c.act.caught w).2

/-- Whether an interrupt takes the place of a closure. -/
def cutIn (c : Call) (f : FiberId) (masked : Bool) (w : World) : Bool := c.yields && !masked && w.flagged f

end Call

/-- The evaluation of what comes next: the closures that are called, the exit, and the world that is left. -/
inductive Computes (f : FiberId) : Bool → Next → World → List Call → Exit Value Value → World → Prop where
  | value {masked : Bool} (v : Value) (w : World) : Computes f masked (.value v) w [] (.value v) w
  | cause {masked : Bool} (c : Cause Value) (w : World) : Computes f masked (.cause c) w [] (.cause c) w
  -- the closure of a leaf says what comes next
  | leaf {masked : Bool} {e : Effect} {c : Call} {w w' : World} {calls : List Call} {x : Exit Value Value}
    (hleaf : e.leaf? = some c) (hcut : c.cutIn f masked w = false)
    (hnext : Computes f masked (c.result w) (c.leaves w) calls x w') :
    Computes f masked (.eval e) w (c :: calls) x w'
  | interrupted {masked : Bool} {e : Effect} {c : Call} {w : World} (hleaf : e.leaf? = some c)
    (hcut : c.cutIn f masked w = true) : Computes f masked (.eval e) w [] .interrupted w
  | currentLoop {masked : Bool} (w : World) : Computes f masked (.eval .currentLoop) w [] (.value .null) w
  -- a chain binds a value and skips its closure on a cause
  | chainValue {masked : Bool} {source : Effect} {k : Continuation} {v : Value} {w u w' : World}
    {calls calls' : List Call} {x : Exit Value Value}
    (hsource : Computes f masked (.eval source) w calls (.value v) u)
    (hnext : Computes f masked ((Call.bind k v).result u) ((Call.bind k v).leaves u) calls' x w') :
    Computes f masked (.eval (.chain source k)) w (calls ++ .bind k v :: calls') x w'
  | chainCause {masked : Bool} {source : Effect} {k : Continuation} {c : Cause Value} {w u : World}
    {calls : List Call} (hsource : Computes f masked (.eval source) w calls (.cause c) u) :
    Computes f masked (.eval (.chain source k)) w calls (.cause c) u
  -- a fold calls the closure that its source asks for
  | foldValue {masked : Bool} {source : Effect} {k : Continuation} {r : Recovery} {v : Value}
    {w u w' : World} {calls calls' : List Call} {x : Exit Value Value}
    (hsource : Computes f masked (.eval source) w calls (.value v) u)
    (hnext : Computes f masked ((Call.bind k v).result u) ((Call.bind k v).leaves u) calls' x w') :
    Computes f masked (.eval (.fold source k r)) w (calls ++ .bind k v :: calls') x w'
  | foldCause {masked : Bool} {source : Effect} {k : Continuation} {r : Recovery} {c : Cause Value}
    {w u w' : World} {calls calls' : List Call} {x : Exit Value Value}
    (hsource : Computes f masked (.eval source) w calls (.cause c) u)
    (hnext : Computes f masked ((Call.recover r c).result u) ((Call.recover r c).leaves u) calls' x w') :
    Computes f masked (.eval (.fold source k r)) w (calls ++ .recover r c :: calls') x w'
  | region {masked : Bool} {body : Effect} {status : Interruptibility} {w w' : World} {calls : List Call}
    {x : Exit Value Value}
    (hbody : Computes f (masked || !status.isInterruptible) (.eval body) w calls x w') :
    Computes f masked (.eval (.region body status)) w calls x w'

theorem Next.ofExit_injective {x y : Exit Value Value} (h : Next.ofExit x = Next.ofExit y) : x = y := by
  cases x <;> cases y <;> cases h <;> rfl

/-! ## Steps -/

/-- One step of a fiber that waits for nothing, in a world that nobody else acts on. -/
inductive Pace (f : FiberId) : Stand → World → List Call → Stand → World → Prop where
  | move {s s' : Stand} (h : s.deed = .move s') (w : World) : Pace f s w [] s' w
  | call {s : Stand} {c : Call} {run : Run} {w : World} (h : s.deed = .call c run)
    (hcuts : w.cuts f c run = false) : Pace f s w [c] ⟨run, c.result w⟩ (c.leaves w)
  | cut {s : Stand} {c : Call} {run : Run} {w : World} (h : s.deed = .call c run)
    (hcuts : w.cuts f c run = true) : Pace f s w [] ⟨run, .cause .interrupted⟩ w

/-- A number of steps, all of them above a run. -/
inductive Climbs (f : FiberId) (base : Run) : Nat → Stand → World → List Call → Stand → World → Prop where
  | refl (s : Stand) (w : World) : Climbs f base 0 s w [] s w
  | step {n : Nat} {s s' s'' : Stand} {w w' w'' : World} {calls calls' : List Call} (habove : s.Above base)
    (first : Pace f s w calls s' w') (h : Climbs f base n s' w' calls' s'' w'') :
    Climbs f base (n + 1) s w (calls ++ calls') s'' w''

section Steps

variable {f : FiberId} {base run : Run} {n : Nat} {s s' s'' : Stand} {w w' w'' u : World}
  {calls calls' : List Call} {x : Exit Value Value}

theorem World.cuts_eq (w : World) (f : FiberId) (c : Call) {run : Run} {masked : Bool}
    (hmasks : run.masks.isInterruptible = !masked) : w.cuts f c run = c.cutIn f masked w := by
  rw [cuts, interruptPending, hmasks, Call.cutIn, Bool.and_assoc]
  rfl

theorem Pace.leads (h : Pace f s w calls s' w') : ∃ way, Leads s way s' := by
  cases h with
  | move hdeed => exact ⟨_, .move hdeed⟩
  | call hdeed => exact ⟨_, .call hdeed w⟩
  | cut hdeed hcuts =>
    obtain ⟨hyields, hpending⟩ := Bool.and_eq_true_iff.1 hcuts
    exact ⟨_, .cut hdeed hyields (Bool.and_eq_true_iff.1 hpending).1⟩

/-- A fiber can take one step only. -/
theorem Pace.unique {s₁ s₂ : Stand} {w₁ w₂ : World} {calls₁ calls₂ : List Call}
    (h : Pace f s w calls₁ s₁ w₁) (h' : Pace f s w calls₂ s₂ w₂) :
    calls₁ = calls₂ ∧ s₁ = s₂ ∧ w₁ = w₂ := by
  cases h with
  | move hdeed =>
    cases h' with
    | move hdeed' =>
      cases hdeed.symm.trans hdeed'
      exact ⟨rfl, rfl, rfl⟩
    | call hdeed' | cut hdeed' => cases hdeed.symm.trans hdeed'
  | call hdeed hcuts =>
    cases h' with
    | move hdeed' => cases hdeed.symm.trans hdeed'
    | call hdeed' =>
      cases hdeed.symm.trans hdeed'
      exact ⟨rfl, rfl, rfl⟩
    | cut hdeed' hcuts' =>
      cases hdeed.symm.trans hdeed'
      cases hcuts.symm.trans hcuts'
  | cut hdeed hcuts =>
    cases h' with
    | move hdeed' => cases hdeed.symm.trans hdeed'
    | call hdeed' hcuts' =>
      cases hdeed.symm.trans hdeed'
      cases hcuts.symm.trans hcuts'
    | cut hdeed' =>
      cases hdeed.symm.trans hdeed'
      exact ⟨rfl, rfl, rfl⟩

namespace Climbs

theorem one (habove : s.Above base) (h : Pace f s w calls s' w') : Climbs f base 1 s w calls s' w' := by
  have hstep := Climbs.step habove h (.refl s' w')
  rwa [List.append_nil] at hstep

theorem trans {m : Nat} (h : Climbs f base n s w calls s' w') (h' : Climbs f base m s' w' calls' s'' w'') :
    Climbs f base (n + m) s w (calls ++ calls') s'' w'' := by
  induction h with
  | refl s w =>
    rw [Nat.zero_add]
    exact h'
  | step habove first _ ih =>
    rw [Nat.succ_add, List.append_assoc]
    exact .step habove first (ih h')

/-- Steps above an inner run are steps above the run on which that one lies. -/
theorem lower {inner : Run} (h : Climbs f inner n s w calls s' w') (hbase : base.Within inner) :
    Climbs f base n s w calls s' w' := by
  induction h with
  | refl s w => exact .refl s w
  | step habove first _ ih => exact .step (habove.trans hbase) first ih

/-- A fiber that is above an inner run comes to its end before it comes to the end of the outer one. -/
theorem split {inner : Run} (h : Climbs f base n s w calls ⟨base, .ofExit x⟩ w') (hbase : base.Within inner)
    (hs : s.Above inner) : ∃ i j y u calls₁ calls₂, i + j = n ∧ calls₁ ++ calls₂ = calls ∧
      Climbs f inner i s w calls₁ ⟨inner, .ofExit y⟩ u ∧
      Climbs f base j ⟨inner, .ofExit y⟩ u calls₂ ⟨base, .ofExit x⟩ w' := by
  generalize hfed : (⟨base, .ofExit x⟩ : Stand) = fed at h
  induction h with
  | refl s w =>
    subst hfed
    exact absurd rfl (Stand.not_feeds_of_above (hs.trans hbase) x)
  | @step n s s' s'' w w' w'' calls calls' habove first h ih =>
    obtain ⟨way, hleads⟩ := first.leads
    rcases hleads.stays hs with habove' | ⟨y, rfl⟩
    · obtain ⟨i, j, y, u, calls₁, calls₂, hn, rfl, hinner, houter⟩ := ih habove' hfed
      refine ⟨i + 1, j, y, u, calls ++ calls₁, calls₂, by omega, List.append_assoc .., ?_, houter⟩
      exact .step hs first hinner
    · subst hfed
      exact ⟨1, n, y, w', calls, calls', by omega, rfl, .one hs first, h⟩

theorem of_exit {y : Exit Value Value} (h : Climbs f base n ⟨base, .ofExit y⟩ w calls ⟨base, .ofExit x⟩ w') :
    x = y ∧ calls = [] ∧ w' = w := by
  generalize hfed : (⟨base, .ofExit x⟩ : Stand) = fed at h
  cases h with
  | refl => exact ⟨Next.ofExit_injective (congrArg Stand.next hfed), rfl, rfl⟩
  | step habove _ _ => exact absurd rfl (Stand.not_feeds_of_above habove y)

theorem first (h : Climbs f base n s w calls ⟨base, .ofExit x⟩ w') (hs : s.Above base) :
    ∃ m s₁ u calls₁ calls₂, n = m + 1 ∧ calls = calls₁ ++ calls₂ ∧ Pace f s w calls₁ s₁ u ∧
      Climbs f base m s₁ u calls₂ ⟨base, .ofExit x⟩ w' := by
  generalize hfed : (⟨base, .ofExit x⟩ : Stand) = fed at h
  cases h with
  | refl =>
    subst hfed
    exact absurd rfl (Stand.not_feeds_of_above hs x)
  | step _ first h => exact ⟨_, _, _, _, _, rfl, rfl, first, h⟩

/-- From a stand a fiber can come to the end of a run in one way only. -/
theorem unique {m : Nat} {x' : Exit Value Value} {u' : World} (h : Climbs f base n s w calls ⟨base, .ofExit x⟩ u)
    (h' : Climbs f base m s w calls' ⟨base, .ofExit x'⟩ u') : calls = calls' ∧ x = x' ∧ u = u' := by
  generalize hfed : (⟨base, .ofExit x⟩ : Stand) = fed at h
  induction h generalizing m calls' with
  | refl s w =>
    subst hfed
    obtain ⟨hexit, hcalls, hworld⟩ := h'.of_exit
    exact ⟨hcalls.symm, hexit.symm, hworld.symm⟩
  | step habove first h ih =>
    obtain ⟨k, s₁, v, calls₁, calls₂, rfl, rfl, first', hrest⟩ := h'.first habove
    obtain ⟨rfl, rfl, rfl⟩ := first.unique first'
    obtain ⟨rfl, hexit, hworld⟩ := ih hrest hfed
    exact ⟨rfl, hexit, hworld⟩

end Climbs

/-! ## From recursion to steps -/

theorem Effect.deed_of_leaf {e : Effect} {c : Call} (h : e.leaf? = some c) :
    (⟨run, .eval e⟩ : Stand).deed = .call c run := by
  cases e with
  | succeeded v | caused c | complete x | suspend thunk =>
    cases h
    rfl
  | _ => cases h

/-- The closure of a frame is called whether or not the fiber is to be interrupted. -/
theorem World.not_cuts_of_frame {c : Call} (h : c.yields = false) : w.cuts f c run = false := by
  rw [cuts, h, Bool.false_and]

theorem Run.masks_enter {masked : Bool} (h : run.masks.isInterruptible = !masked) (status : Interruptibility) :
    (run.enter status).masks.isInterruptible = !(masked || !status.isInterruptible) := by
  rw [enter, Masks.isInterruptible_push, h, Bool.not_or, Bool.not_not]

theorem Pace.leave (status : Interruptibility) (w : World) :
    Pace f ⟨run.enter status, .ofExit x⟩ w [] ⟨run, .ofExit x⟩ w := by
  cases x with
  | value v => exact .move rfl w
  | cause c => exact .move rfl w

namespace Climbs

/-- First an inner evaluation is begun, and when it has ended, what is left of the outer one. -/
theorem around {inner : Run} {m : Nat} {e source : Effect} {y : Exit Value Value}
    (hbegin : (⟨base, .eval e⟩ : Stand).deed = .move ⟨inner, .eval source⟩) (hbase : base.Within inner)
    (hsource : Climbs f inner n ⟨inner, .eval source⟩ w calls ⟨inner, .ofExit y⟩ u)
    (hrest : Climbs f base m ⟨inner, .ofExit y⟩ u calls' s w') :
    Climbs f base (n + m + 1) ⟨base, .eval e⟩ w (calls ++ calls') s w' := by
  have hall := Climbs.step (Stand.above_eval .refl e) (Pace.move hbegin w) ((hsource.lower hbase).trans hrest)
  exact hall

end Climbs

/-- **Every evaluation by recursion is what the fiber does step by step**, from whatever run it begins. -/
theorem Computes.climbs {masked : Bool} {next : Next} (h : Computes f masked next w calls x w') (run : Run)
    (hmasks : run.masks.isInterruptible = !masked) :
    ∃ n, Climbs f run n ⟨run, next⟩ w calls ⟨run, .ofExit x⟩ w' := by
  induction h generalizing run with
  | value v w => exact ⟨0, .refl _ w⟩
  | cause c w => exact ⟨0, .refl _ w⟩
  | leaf hleaf hcut _ ih =>
    obtain ⟨n, hnext⟩ := ih run hmasks
    have hfirst := Pace.call (Effect.deed_of_leaf hleaf) ((World.cuts_eq _ f _ hmasks).trans hcut)
    exact ⟨n + 1, .step (Stand.above_eval .refl _) hfirst hnext⟩
  | interrupted hleaf hcut =>
    have hfirst := Pace.cut (Effect.deed_of_leaf hleaf) ((World.cuts_eq _ f _ hmasks).trans hcut)
    exact ⟨1, .one (Stand.above_eval .refl _) hfirst⟩
  | currentLoop w => exact ⟨1, .one (Stand.above_eval .refl _) (.move rfl w)⟩
  | @chainValue masked source k v w u w' calls calls' x _ _ ihsource ihnext =>
    obtain ⟨n, hsource⟩ := ihsource (run.push (.chain k)) hmasks
    obtain ⟨m, hnext⟩ := ihnext run hmasks
    have hbind : Pace f ⟨run.push (.chain k), .value v⟩ u [.bind k v] ⟨run, (Call.bind k v).result u⟩
        ((Call.bind k v).leaves u) := .call rfl (World.not_cuts_of_frame rfl)
    have habove := Stand.above_of_length (Run.Within.chain .refl k) (Nat.lt_succ_self run.frames.length) (.value v)
    exact ⟨_, .around rfl (.chain .refl k) hsource (.step habove hbind hnext)⟩
  | @chainCause masked source k c w u calls _ ihsource =>
    obtain ⟨n, hsource⟩ := ihsource (run.push (.chain k)) hmasks
    have habove := Stand.above_of_length (Run.Within.chain .refl k) (Nat.lt_succ_self run.frames.length) (.cause c)
    have hpass : Pace f ⟨run.push (.chain k), .cause c⟩ u [] ⟨run, .cause c⟩ u := .move rfl u
    have hall := Climbs.around (e := .chain source k) rfl (.chain .refl k) hsource (.one habove hpass)
    rw [List.append_nil] at hall
    exact ⟨_, hall⟩
  | @foldValue masked source k r v w u w' calls calls' x _ _ ihsource ihnext =>
    obtain ⟨n, hsource⟩ := ihsource (run.push (.fold k r)) hmasks
    obtain ⟨m, hnext⟩ := ihnext run hmasks
    have hbind : Pace f ⟨run.push (.fold k r), .value v⟩ u [.bind k v] ⟨run, (Call.bind k v).result u⟩
        ((Call.bind k v).leaves u) := .call rfl (World.not_cuts_of_frame rfl)
    have habove := Stand.above_of_length (Run.Within.fold .refl k r) (Nat.lt_succ_self run.frames.length) (.value v)
    exact ⟨_, .around rfl (.fold .refl k r) hsource (.step habove hbind hnext)⟩
  | @foldCause masked source k r c w u w' calls calls' x _ _ ihsource ihnext =>
    obtain ⟨n, hsource⟩ := ihsource (run.push (.fold k r)) hmasks
    obtain ⟨m, hnext⟩ := ihnext run hmasks
    have hrecover : Pace f ⟨run.push (.fold k r), .cause c⟩ u [.recover r c] ⟨run, (Call.recover r c).result u⟩
        ((Call.recover r c).leaves u) := .call rfl (World.not_cuts_of_frame rfl)
    have habove := Stand.above_of_length (Run.Within.fold .refl k r) (Nat.lt_succ_self run.frames.length) (.cause c)
    exact ⟨_, .around rfl (.fold .refl k r) hsource (.step habove hrecover hnext)⟩
  | @region masked body status w w' calls x _ ih =>
    obtain ⟨n, hbody⟩ := ih (run.enter status) (Run.masks_enter hmasks status)
    have habove := Stand.above_of_length (Run.Within.region .refl status) (Nat.lt_succ_self run.frames.length)
      (.ofExit x)
    have hall := Climbs.around (e := .region body status) rfl (.region .refl status) hbody
      (.one habove (.leave status w'))
    rw [List.append_nil] at hall
    exact ⟨_, hall⟩

/-! ## From steps to recursion -/

/-- The parts of an evaluation that is begun on top of a run, in the order in which they come. -/
theorem Climbs.inside {inner : Run} {e source : Effect}
    (h : Climbs f run n ⟨run, .eval e⟩ w calls ⟨run, .ofExit x⟩ w')
    (hbegin : (⟨run, .eval e⟩ : Stand).deed = .move ⟨inner, .eval source⟩) (hwithin : run.Within inner)
    (hlength : run.frames.length < inner.frames.length) :
    ∃ i j y u v s calls₁ calls₂ calls₃, i < n ∧ j < n ∧ calls = calls₁ ++ (calls₂ ++ calls₃) ∧
      Climbs f inner i ⟨inner, .eval source⟩ w calls₁ ⟨inner, .ofExit y⟩ u ∧
      Pace f ⟨inner, .ofExit y⟩ u calls₂ s v ∧ Climbs f run j s v calls₃ ⟨run, .ofExit x⟩ w' := by
  obtain ⟨m, s, u, calls₀, rest, rfl, rfl, hfirst, hrest⟩ := h.first (Stand.above_eval .refl e)
  obtain ⟨rfl, rfl, rfl⟩ := hfirst.unique (.move hbegin w)
  obtain ⟨i, j, y, u, calls₁, after, hij, rfl, hsource, hafter⟩ :=
    hrest.split hwithin (Stand.above_eval .refl source)
  obtain ⟨k, s, v, calls₂, calls₃, rfl, rfl, hpace, hlast⟩ :=
    hafter.first (Stand.above_of_length hwithin hlength _)
  exact ⟨i, k, y, u, v, s, calls₁, calls₂, calls₃, by omega, by omega, rfl, hsource, hpace, hlast⟩

/-- **What a fiber does step by step until it comes to the end of a run is an evaluation by recursion.** -/
theorem Climbs.computes {run : Run} {masked : Bool} {next : Next} {w w' : World} {calls : List Call}
    {x : Exit Value Value} (hmasks : run.masks.isInterruptible = !masked)
    (h : Climbs f run n ⟨run, next⟩ w calls ⟨run, .ofExit x⟩ w') : Computes f masked next w calls x w' := by
  induction n using Nat.strongRecOn generalizing run masked next w calls x w' with
  | ind n ih =>
    have hleaf : ∀ {e : Effect} {c : Call}, e.leaf? = some c → next = .eval e →
        Computes f masked next w calls x w' := by
      intro e c hleaf hnext
      subst hnext
      obtain ⟨m, s, u, calls₁, calls₂, rfl, rfl, hfirst, hrest⟩ := h.first (Stand.above_eval .refl e)
      have hdeed : (⟨run, .eval e⟩ : Stand).deed = .call c run := Effect.deed_of_leaf hleaf
      have hcuts := World.cuts_eq w f c hmasks
      cases hcut : c.cutIn f masked w with
      | false =>
        obtain ⟨rfl, rfl, rfl⟩ := hfirst.unique (.call hdeed (hcuts.trans hcut))
        exact .leaf hleaf hcut (ih m (Nat.lt_succ_self m) hmasks hrest)
      | true =>
        obtain ⟨rfl, rfl, rfl⟩ := hfirst.unique (.cut hdeed (hcuts.trans hcut))
        obtain ⟨rfl, rfl, rfl⟩ := Climbs.of_exit (y := .interrupted) hrest
        exact .interrupted hleaf hcut
    cases next with
    | value v =>
      obtain ⟨rfl, rfl, rfl⟩ := Climbs.of_exit (y := .value v) h
      exact .value v w'
    | cause c =>
      obtain ⟨rfl, rfl, rfl⟩ := Climbs.of_exit (y := .cause c) h
      exact .cause c w'
    | eval e =>
      cases e with
      | succeeded v | caused c | complete y | suspend thunk => exact hleaf rfl rfl
      | async r =>
        obtain ⟨m, s, u, calls₁, calls₂, rfl, rfl, hfirst, -⟩ := h.first (Stand.above_eval .refl _)
        cases hfirst with
        | move hdeed | call hdeed | cut hdeed => cases hdeed
      | currentLoop =>
        obtain ⟨m, s, u, calls₁, calls₂, rfl, rfl, hfirst, hrest⟩ := h.first (Stand.above_eval .refl _)
        obtain ⟨rfl, rfl, rfl⟩ := hfirst.unique (.move rfl w)
        obtain ⟨rfl, rfl, rfl⟩ := Climbs.of_exit (y := .value .null) hrest
        exact .currentLoop _
      | chain source k =>
        obtain ⟨i, j, y, u, v, s, calls₁, calls₂, calls₃, hi, hj, rfl, hsource, hpace, hrest⟩ :=
          h.inside rfl (Run.Within.chain .refl k) (Nat.lt_succ_self _)
        have hpushed : (run.push (.chain k)).masks.isInterruptible = !masked := hmasks
        have hfirst := ih i hi hpushed hsource
        cases y with
        | value value =>
          obtain ⟨rfl, rfl, rfl⟩ := hpace.unique (.call rfl (World.not_cuts_of_frame rfl))
          exact .chainValue hfirst (ih j hj hmasks hrest)
        | cause c =>
          obtain ⟨rfl, rfl, rfl⟩ := hpace.unique (.move rfl u)
          obtain ⟨rfl, rfl, rfl⟩ := Climbs.of_exit (y := .cause c) hrest
          rw [List.append_nil, List.append_nil]
          exact .chainCause hfirst
      | fold source k r =>
        obtain ⟨i, j, y, u, v, s, calls₁, calls₂, calls₃, hi, hj, rfl, hsource, hpace, hrest⟩ :=
          h.inside rfl (Run.Within.fold .refl k r) (Nat.lt_succ_self _)
        have hpushed : (run.push (.fold k r)).masks.isInterruptible = !masked := hmasks
        have hfirst := ih i hi hpushed hsource
        cases y with
        | value value =>
          obtain ⟨rfl, rfl, rfl⟩ := hpace.unique (.call rfl (World.not_cuts_of_frame rfl))
          exact .foldValue hfirst (ih j hj hmasks hrest)
        | cause c =>
          obtain ⟨rfl, rfl, rfl⟩ := hpace.unique (.call rfl (World.not_cuts_of_frame rfl))
          exact .foldCause hfirst (ih j hj hmasks hrest)
      | region body status =>
        obtain ⟨i, j, y, u, v, s, calls₁, calls₂, calls₃, hi, hj, rfl, hbody, hpace, hrest⟩ :=
          h.inside rfl (Run.Within.region .refl status) (Nat.lt_succ_self _)
        obtain ⟨rfl, rfl, rfl⟩ := hpace.unique (.leave status u)
        obtain ⟨rfl, rfl, rfl⟩ := Climbs.of_exit hrest
        rw [List.append_nil, List.append_nil]
        exact .region (ih i hi (Run.masks_enter hmasks status) hbody)

/-- An evaluation by recursion has one outcome. -/
theorem Computes.unique {masked : Bool} {next : Next} {x' : Exit Value Value} {u' : World}
    (h : Computes f masked next w calls x u) (h' : Computes f masked next w calls' x' u') :
    calls = calls' ∧ x = x' ∧ u = u' := by
  have hmasks : ∃ run : Run, run.masks.isInterruptible = !masked := by
    cases masked with
    | false => exact ⟨{}, rfl⟩
    | true => exact ⟨Run.enter {} .uninterruptible, rfl⟩
  obtain ⟨run, hrun⟩ := hmasks
  obtain ⟨n, hclimbs⟩ := h.climbs run hrun
  obtain ⟨m, hclimbs'⟩ := h'.climbs run hrun
  exact hclimbs.unique hclimbs'

end Steps

end FiberLoop
