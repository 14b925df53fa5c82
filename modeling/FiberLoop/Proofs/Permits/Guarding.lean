import FiberLoop.Proofs.Brackets
import FiberLoop.Proofs.Permits.Guards

/-!
# The course of an effect that runs with a permit

Once the permit was acquired, a second bracket guards the body. `Guard.Stands` lists the stands of a fiber outside of
the acquisition and of the body, with what the guard says there, and the theorems named `next` say what comes after
each. From the acquisition to the body, and from the end of the body on, no step can be cut by an interrupt but the one
that begins the body.
-/

namespace FiberLoop

/-- A fiber goes from one stand to another whatever the world is like, and nothing else happens. -/
inductive Stand.Goes (s s' : Stand) : Prop where
  | move (hdeed : s.deed = .move s')
  | call {c : Call} (hdeed : s.deed = .call c s'.run)
    (huncut : c.yields = false ∨ s'.run.masks.isInterruptible = false) (hact : ∀ w, c.act.caught w = (.ok s'.next, w))
    (hrecord : ∀ f w b, Books.record f c w b = b)

namespace Guard

variable (G : Guard) (sem : SemaphoreId)

/-! ## The stacks -/

/-- What follows the acquisition: the bracket that guards the body. -/
def second : Effect := Effect.unitValue.bracketExit (.const (.releasePermit sem)) (.proceed G.body)

/-- The run on which the permit is acquired. -/
def waiting : Run := G.base.push (.chain (.proceed (G.second sem)))

def opening : Run := G.base.push (.chain (.useResource (.const (.releasePermit sem)) (.proceed G.body)))

def held : Run := G.base.holding (.const (.releasePermit sem)) .null

/-- The run on which the body is evaluated. -/
def inner : Run := G.base.inUse (.const (.releasePermit sem)) .null

/-! ## The stands -/

/-- With a permit, before the body begins. -/
inductive Entering : Stand → Prop where
  | granted : Entering ⟨G.waiting sem, .value .null⟩
  | bracketing : Entering ⟨G.base, .eval (G.second sem)⟩
  | opening : Entering ⟨G.opening sem, .eval Effect.unitValue.uninterruptible⟩
  | shut : Entering ⟨(G.opening sem).enter .uninterruptible, .eval .unitValue⟩
  | acquired : Entering ⟨(G.opening sem).enter .uninterruptible, .value .null⟩
  | opened : Entering ⟨G.opening sem, .value .null⟩
  | continuing : Entering ⟨G.base, .eval (.chain (Effect.suspend (.continue (.proceed G.body) .null)).result
      (.releaseResource (.const (.releasePermit sem)) .null))⟩
  | held : Entering ⟨G.held sem, .eval (Effect.suspend (.continue (.proceed G.body) .null)).result⟩
  | beginning : Entering ⟨G.inner sem, .eval (.suspend (.continue (.proceed G.body) .null))⟩

/-- With a permit, after the body has ended or was skipped. -/
inductive Closing (x : Exit Value Value) : Stand → Prop where
  | ended : Closing x ⟨G.inner sem, .ofExit x⟩
  | told : Closing x ⟨G.held sem, .value (.exit x)⟩
  | closing : Closing x ⟨G.base, .eval ((Effect.releasePermit sem).andThen (.resume x)).uninterruptible⟩
  | shut : Closing x ⟨G.base.enter .uninterruptible, .eval ((Effect.releasePermit sem).andThen (.resume x))⟩
  | releasing : Closing x ⟨G.base.releasing x, .eval (.releasePermit sem)⟩
  | giving : Closing x ⟨(G.base.releasing x).enter .uninterruptible, .eval (.perform (.releasePermit sem))⟩

/-- After the permit was returned. -/
inductive Leaving (x : Exit Value Value) : Stand → Prop where
  | given : Leaving x ⟨(G.base.releasing x).enter .uninterruptible, .value .null⟩
  | released : Leaving x ⟨G.base.releasing x, .value .null⟩
  | resuming : Leaving x ⟨G.base.enter .uninterruptible, .eval (.resume x)⟩
  | leaving : Leaving x ⟨G.base.enter .uninterruptible, .ofExit x⟩
  | out : Leaving x ⟨G.base, .ofExit x⟩

/-- What an effect can end with: the exit of its body or, if the fiber was interrupted before that began, that. -/
def Owes (requested : Bool) (x : Exit Value Value) : Prop :=
  G.stage = .after x ∨ G.stage = .before ∧ x = .interrupted ∧ requested = true

/-- Where a fiber can stand outside of the acquisition and of the body, and what the guard says there. -/
inductive Stands (requested : Bool) : Stand → Prop where
  | begin (hstage : G.stage = .before) (hholds : G.holds = false) :
    Stands requested ⟨G.waiting sem, .eval (.acquirePermit sem)⟩
  | missed (hstage : G.stage = .before) (hholds : G.holds = false) (hrequested : requested = true) :
    Stands requested ⟨G.waiting sem, .cause .interrupted⟩
  | entering {s : Stand} (hstage : G.stage = .before) (hholds : G.holds = true) (h : G.Entering sem s) :
    Stands requested s
  | closing {x : Exit Value Value} {s : Stand} (howes : G.Owes requested x) (hholds : G.holds = true)
    (h : G.Closing sem x s) : Stands requested s
  | leaving {x : Exit Value Value} {s : Stand} (howes : G.Owes requested x) (hholds : G.holds = false)
    (h : G.Leaving x s) : Stands requested s

variable {G sem} {s : Stand} {x : Exit Value Value} {requested requested' : Bool}

theorem Owes.mono (h : G.Owes requested x) (hrequested : requested = true → requested' = true) :
    G.Owes requested' x :=
  h.imp id fun ⟨hstage, hx, hr⟩ => ⟨hstage, hx, hrequested hr⟩

theorem Owes.not_inside (h : G.Owes requested x) : G.isInside = false := by
  rcases h with h | ⟨h, -⟩ <;> rw [isInside, h]

theorem Stands.mono (h : G.Stands sem requested s) (hrequested : requested = true → requested' = true) :
    G.Stands sem requested' s := by
  cases h with
  | begin hstage hholds => exact .begin hstage hholds
  | missed hstage hholds h => exact .missed hstage hholds (hrequested h)
  | entering hstage hholds h => exact .entering hstage hholds h
  | closing howes hholds h => exact .closing (howes.mono hrequested) hholds h
  | leaving howes hholds h => exact .leaving (howes.mono hrequested) hholds h

/-! ## What comes next -/

theorem masked_enter (run : Run) (frames : List Frame) :
    ({ run.enter .uninterruptible with frames := frames } : Run).masks.isInterruptible = false :=
  Masks.isInterruptible_push_uninterruptible _

/-- Up to the body nothing can come between. -/
theorem Entering.next (h : G.Entering sem s) : (∃ s', s.Goes s' ∧ G.Entering sem s') ∨
    s = ⟨G.inner sem, .eval (.suspend (.continue (.proceed G.body) .null))⟩ := by
  cases h with
  | granted =>
    exact Or.inl ⟨_, .call rfl (Or.inl rfl) (fun _ => rfl) fun _ _ _ => rfl, .bracketing⟩
  | bracketing => exact Or.inl ⟨_, .move rfl, .opening⟩
  | opening => exact Or.inl ⟨_, .move rfl, .shut⟩
  | shut =>
    exact Or.inl ⟨⟨(G.opening sem).enter .uninterruptible, .value .null⟩,
      .call rfl (Or.inr (masked_enter _ _)) (fun _ => rfl) fun _ _ _ => rfl, .acquired⟩
  | acquired => exact Or.inl ⟨_, .move rfl, .opened⟩
  | opened =>
    exact Or.inl ⟨_, .call rfl (Or.inl rfl) (fun _ => rfl) fun _ _ _ => rfl, .continuing⟩
  | continuing => exact Or.inl ⟨_, .move rfl, .held⟩
  | held => exact Or.inl ⟨_, .move rfl, .beginning⟩
  | beginning => exact Or.inr rfl

/-- From the end of the body on nothing can come between until the permit is returned. -/
theorem Closing.next (h : G.Closing sem x s) : (∃ s', s.Goes s' ∧ G.Closing sem x s') ∨
    s = ⟨(G.base.releasing x).enter .uninterruptible, .eval (.perform (.releasePermit sem))⟩ := by
  cases h with
  | ended =>
    refine Or.inl ⟨_, ?_, .told⟩
    cases x with
    | value v => exact .call rfl (Or.inl rfl) (fun _ => rfl) fun _ _ _ => rfl
    | cause c => exact .call rfl (Or.inl rfl) (fun _ => rfl) fun _ _ _ => rfl
  | told =>
    exact Or.inl ⟨_, .call rfl (Or.inl rfl) (fun _ => rfl) fun _ _ _ => rfl, .closing⟩
  | closing => exact Or.inl ⟨_, .move rfl, .shut⟩
  | shut => exact Or.inl ⟨_, .move rfl, .releasing⟩
  | releasing => exact Or.inl ⟨_, .move rfl, .giving⟩
  | giving => exact Or.inr rfl

/-- Once the permit was returned the effect ends with the exit that it owes. -/
theorem Leaving.next (h : G.Leaving x s) : (∃ s', s.Goes s' ∧ G.Leaving x s') ∨ s = ⟨G.base, .ofExit x⟩ := by
  cases h with
  | given => exact Or.inl ⟨_, .move rfl, .released⟩
  | released =>
    exact Or.inl ⟨_, .call rfl (Or.inl rfl) (fun _ => rfl) fun _ _ _ => rfl, .resuming⟩
  | resuming =>
    exact Or.inl ⟨⟨_, .ofExit x⟩, .call rfl (Or.inr (masked_enter _ _)) (fun _ => rfl) fun _ _ _ => rfl, .leaving⟩
  | leaving => exact Or.inl ⟨_, .move (by cases x <;> rfl), .out⟩
  | out => exact Or.inr rfl

/-! ## What a step does to the guards -/

variable {f : FiberId} {cut : Bool} {rest : List Guard}

theorem Stands.not_inside (h : G.Stands sem requested s) : G.isInside = false := by
  cases h with
  | begin hstage | missed hstage | entering hstage => rw [isInside, hstage]
  | closing howes | leaving howes => exact howes.not_inside

/-- An exit that comes to a run above the base of an effect does not end it. -/
theorem settle_of_above (hinside : G.isInside = false) {height : Nat} (h : G.base.frames.length < height) :
    settle height x (G :: rest) = G :: rest := by
  rw [settle, if_neg (by simp [hinside]), if_neg (Nat.ne_of_gt h)]

theorem pass_of_above (hinside : G.isInside = false) {run : Run} (h : G.base.frames.length < run.frames.length) :
    pass sem f ⟨run, .ofExit x⟩ cut (G :: rest) = G :: rest := by
  cases x with
  | value v => exact settle_of_above hinside h
  | cause c => exact settle_of_above hinside h

section Pass

variable (hinside : G.isInside = false)
include hinside

theorem pass_value_of_above (v : Value) {run : Run} (h : G.base.frames.length < run.frames.length) :
    pass sem f ⟨run, .value v⟩ cut (G :: rest) = G :: rest := pass_of_above (x := .value v) hinside h

theorem Entering.pass (h : G.Entering sem s)
    (hbegin : s ≠ ⟨G.inner sem, .eval (.suspend (.continue (.proceed G.body) .null))⟩) :
    pass sem f s cut (G :: rest) = G :: rest := by
  cases h with
  | granted | opened => exact pass_value_of_above hinside _ (Nat.lt_succ_self _)
  | acquired => exact pass_value_of_above hinside _ (Nat.lt_add_of_pos_right (Nat.succ_pos 1))
  | beginning => exact absurd rfl hbegin
  | _ => rfl

theorem Closing.pass (h : G.Closing sem x s) : pass sem f s cut (G :: rest) = G :: rest := by
  cases h with
  | ended => exact pass_of_above hinside (Nat.lt_add_of_pos_right (Nat.succ_pos 1))
  | told => exact pass_value_of_above hinside _ (Nat.lt_succ_self _)
  | _ => rfl

theorem Leaving.pass (h : G.Leaving x s) (hout : s ≠ ⟨G.base, .ofExit x⟩) :
    pass sem f s cut (G :: rest) = G :: rest := by
  cases h with
  | given => exact pass_value_of_above hinside _ (Nat.lt_add_of_pos_right (Nat.succ_pos 2))
  | released => exact pass_value_of_above hinside _ (Nat.lt_add_of_pos_right (Nat.succ_pos 1))
  | resuming => rfl
  | leaving => exact pass_of_above hinside (Nat.lt_succ_self _)
  | out => exact absurd rfl hout

end Pass

/-! ## No other acquire -/

theorem Entering.not_begins (h : G.Entering sem s) (sem' : SemaphoreId) : ¬ s.Begins sem' := by
  intro hbegins
  cases h <;> cases hbegins

theorem Closing.not_begins (h : G.Closing sem x s) (sem' : SemaphoreId) : ¬ s.Begins sem' := by
  intro hbegins
  cases h with
  | ended => cases x <;> cases hbegins
  | _ => cases hbegins

theorem Leaving.not_begins (h : G.Leaving x s) (sem' : SemaphoreId) : ¬ s.Begins sem' := by
  intro hbegins
  cases h with
  | leaving | out => cases x <;> cases hbegins
  | _ => cases hbegins

/-! ## All together -/

/-- What a fiber does next outside of the acquisition and of the body. -/
inductive Does (G : Guard) (sem : SemaphoreId) (requested : Bool) (s : Stand) : Prop where
  | go {s' : Stand} (hgoes : s.Goes s') (h : G.Stands sem requested s') (hbegins : ∀ sem', ¬ s.Begins sem')
    (hpass : ∀ f cut rest, pass sem f s cut (G :: rest) = G :: rest)
  /-- The acquisition begins. -/
  | acquire (hs : s = ⟨G.waiting sem, .eval (.acquirePermit sem)⟩) (hstage : G.stage = .before)
    (hholds : G.holds = false)
  /-- The body begins. -/
  | begin (hs : s = ⟨G.inner sem, .eval (.suspend (.continue (.proceed G.body) .null))⟩) (hstage : G.stage = .before)
    (hholds : G.holds = true)
  /-- The permit is returned. -/
  | give {x : Exit Value Value}
    (hs : s = ⟨(G.base.releasing x).enter .uninterruptible, .eval (.perform (.releasePermit sem))⟩)
    (howes : G.Owes requested x) (hholds : G.holds = true)
  /-- The effect is over. -/
  | out {x : Exit Value Value} (hs : s = ⟨G.base, .ofExit x⟩) (howes : G.Owes requested x) (hholds : G.holds = false)

/-- **What comes after each stand.** -/
theorem Stands.next (h : G.Stands sem requested s) : G.Does sem requested s := by
  have hinside := h.not_inside
  cases h with
  | begin hstage hholds => exact .acquire rfl hstage hholds
  | missed hstage hholds hrequested =>
    exact .go (.move rfl) (.leaving (x := .interrupted) (Or.inr ⟨hstage, rfl, hrequested⟩) hholds .out)
      (fun _ hbegins => nomatch hbegins) fun _ _ _ => pass_of_above (x := .interrupted) hinside (Nat.lt_succ_self _)
  | entering hstage hholds h =>
    by_cases hs : s = ⟨G.inner sem, .eval (.suspend (.continue (.proceed G.body) .null))⟩
    · exact .begin hs hstage hholds
    · obtain ⟨s', hgoes, h'⟩ := h.next.resolve_right hs
      exact .go hgoes (.entering hstage hholds h') h.not_begins fun _ _ _ => h.pass hinside hs
  | closing howes hholds h =>
    rcases h.next with ⟨s', hgoes, h'⟩ | hs
    · exact .go hgoes (.closing howes hholds h') h.not_begins fun _ _ _ => h.pass hinside
    · exact .give hs howes hholds
  | @leaving x s howes hholds h =>
    by_cases hs : s = ⟨G.base, .ofExit x⟩
    · exact .out hs howes hholds
    · obtain ⟨s', hgoes, h'⟩ := h.next.resolve_right hs
      exact .go hgoes (.leaving howes hholds h') h.not_begins fun _ _ _ => h.pass hinside hs

/-- A fiber is on top of the run on which the effect is evaluated. -/
theorem Stands.within (h : G.Stands sem requested s) : G.base.Within s.run := by
  cases h with
  | begin | missed => exact .chain .refl _
  | entering hstage hholds h =>
    cases h with
    | bracketing | continuing => exact .refl
    | granted | opening | opened | held => exact .chain .refl _
    | shut | acquired => exact .region (.chain .refl _) _
    | beginning => exact .fold (.chain .refl _) _ _
  | closing howes hholds h =>
    cases h with
    | closing => exact .refl
    | told => exact .chain .refl _
    | shut => exact .region .refl _
    | ended => exact .fold (.chain .refl _) _ _
    | releasing => exact .chain (.region .refl _) _
    | giving => exact .region (.chain (.region .refl _) _) _
  | leaving howes hholds h =>
    cases h with
    | out => exact .refl
    | resuming | leaving => exact .region .refl _
    | released => exact .chain (.region .refl _) _
    | given => exact .region (.chain (.region .refl _) _) _

/-- **A fiber that stands where the effect has ended has no permit any more, and the exit is the one that is owed.** -/
theorem Stands.of_out (h : G.Stands sem requested ⟨G.base, .ofExit x⟩) : G.Owes requested x ∧ G.holds = false := by
  generalize hs : (⟨G.base, .ofExit x⟩ : Stand) = s at h
  have hlength : s.run.frames.length = G.base.frames.length := hs ▸ rfl
  have hnext : s.next = .ofExit x := hs ▸ rfl
  have heval (e : Effect) : Next.eval e ≠ .ofExit x := by cases x <;> exact Next.noConfusion
  cases h with
  | begin | missed =>
    simp only [waiting, Run.push, List.length_cons] at hlength
    omega
  | entering hstage hholds h =>
    cases h with
    | bracketing | continuing => exact absurd hnext (heval _)
    | _ =>
      simp only [waiting, Guard.opening, Guard.held, inner, Run.inUse, Run.holding, Run.enter, Run.push,
        List.length_cons] at hlength
      omega
  | closing howes hholds h =>
    cases h with
    | closing => exact absurd hnext (heval _)
    | _ =>
      simp only [Guard.held, inner, Run.inUse, Run.holding, Run.releasing, Run.enter, Run.push,
        List.length_cons] at hlength
      omega
  | @leaving y _ howes hholds h =>
    cases h with
    | out =>
      have hsame : x = y := by
        cases x <;> cases y <;> cases hnext <;> rfl
      exact ⟨hsame ▸ howes, hholds⟩
    | _ =>
      simp only [Run.releasing, Run.enter, Run.push, List.length_cons] at hlength
      omega

end Guard

end FiberLoop
