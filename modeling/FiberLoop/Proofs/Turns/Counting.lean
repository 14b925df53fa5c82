import FiberLoop.Proofs.Runtime.Homes
import FiberLoop.Proofs.Runtime.Lifetime
import Mathlib.Algebra.Order.Floor.Div

/-!
# Counting turns

A turn of a fiber begins when a task that goes on with it is taken up, and has as many steps as the budget of the loop
allows. A turn that comes to its end without the fiber is parked or ends has used up its budget.

The main results of this module are `Paced.after`, which says how long the turns of a fiber are, and
`Paced.length_eq_ceilDiv`, which says how many turns a fiber needs that is never parked.
-/

namespace FiberLoop

/-- The number of steps that are left in a turn. -/
def Activity.left? : Activity → Option Nat
  | .running _ left _ | .registering _ left .. | .returning _ left .. | .canceling _ left .. => some left
  | .idle | .exiting .. => none

namespace Scene

/-- With this stroke a turn of the fiber begins. -/
def TakesUp (f : FiberId) (s : Scene) (stroke : Stroke) : Prop :=
  s.moment.activity.fiber? ≠ some f ∧ (s.play stroke).moment.activity.fiber? = some f

instance (f : FiberId) (s : Scene) (stroke : Stroke) : Decidable (s.TakesUp f stroke) :=
  inferInstanceAs (Decidable (_ ∧ _))

/-- How many of the strokes have a property when their turn comes. -/
def times (happens : Scene → Stroke → Prop) [∀ s stroke, Decidable (happens s stroke)] : Scene → List Stroke → Nat
  | _, [] => 0
  | s, stroke :: rest => (if happens s stroke then 1 else 0) + times happens (s.play stroke) rest

/-- The number of turns of a fiber that begin. -/
def begun (f : FiberId) : Scene → List Stroke → Nat := times (TakesUp f)

/-- The number of steps of a fiber. -/
def steps (f : FiberId) : Scene → List Stroke → Nat := times fun s stroke => s.stepper? stroke = some f

/-- The lengths of the turns of a fiber, the latest one first, after one more stroke. -/
def reckon (f : FiberId) (s : Scene) (stroke : Stroke) (turns : List Nat) : List Nat :=
  if s.TakesUp f stroke then 0 :: turns
  else if s.stepper? stroke = some f then turns.modifyHead (· + 1)
  else turns

/-- The lengths of the turns of a fiber after some strokes, given those before. -/
def turnsFrom (f : FiberId) (turns : List Nat) : Scene → List Stroke → List Nat
  | _, [] => turns
  | s, stroke :: rest => turnsFrom f (s.reckon f stroke turns) (s.play stroke) rest

/-- The lengths of the turns that a fiber has while strokes are played, the latest one first. -/
def turns (f : FiberId) : Scene → List Stroke → List Nat := turnsFrom f []

/-- Something holds before the first of some strokes and after each of them. -/
def Along (holds : Scene → Prop) (s : Scene) (strokes : List Stroke) : Prop :=
  ∀ first rest, strokes = first ++ rest → holds (s.after first)

/-- The fiber waits for a callback. -/
def Parked (f : FiberId) (s : Scene) : Prop :=
  ∃ run canceler, s.moment.world.phase? f = some (.suspended run canceler)

instance (f : FiberId) (s : Scene) : Decidable (s.Parked f) :=
  match hphase : s.moment.world.phase? f with
  | some (.suspended run canceler) => .isTrue ⟨run, canceler, hphase⟩
  | none | some (.created _) | some .running | some (.registering _) | some .done =>
    .isFalse fun ⟨_, _, hsuspended⟩ => nomatch hphase.symm.trans hsuspended

/-- The fiber never waits for a callback. -/
def Unparked (f : FiberId) : Scene → List Stroke → Prop := Along fun s => ¬ s.Parked f

/-- The number of steps that the fiber has left in its turn. -/
def left? (f : FiberId) (s : Scene) : Option Nat := (s.moment.activity.of f).left?

variable {s : Scene} {f : FiberId} {stroke : Stroke} {strokes rest : List Stroke} {home : LoopName} {b left : Nat}
  {ts : List Nat} {P : Nat → Prop} {x : Exit Value Value} {holds : Scene → Prop}

theorem along_nil : s.Along holds [] ↔ holds s :=
  ⟨fun h => h [] [] rfl, fun h _ _ hnil => (List.append_eq_nil_iff.1 hnil.symm).1 ▸ h⟩

theorem along_cons : s.Along holds (stroke :: rest) ↔ holds s ∧ (s.play stroke).Along holds rest := by
  refine ⟨fun h => ⟨h [] _ rfl, fun first last hrest => h (stroke :: first) last (congrArg (stroke :: ·) hrest)⟩, ?_⟩
  rintro ⟨hfirst, hrest⟩ first last hsplit
  cases first with
  | nil => exact hfirst
  | cons stroke' first =>
    obtain ⟨rfl, hlast⟩ := List.cons.inj hsplit
    exact hrest first last hlast

instance [∀ s, Decidable (holds s)] : ∀ (s : Scene) (strokes : List Stroke), Decidable (s.Along holds strokes)
  | s, [] => decidable_of_iff (holds s) along_nil.symm
  | s, stroke :: rest =>
    have := instDecidableAlong (s.play stroke) rest
    decidable_of_iff (holds s ∧ (s.play stroke).Along holds rest) along_cons.symm

instance (f : FiberId) (s : Scene) (strokes : List Stroke) : Decidable (s.Unparked f strokes) :=
  inferInstanceAs (Decidable (s.Along (fun s => ¬ s.Parked f) strokes))

theorem Along.head (h : s.Along holds strokes) : holds s := h [] strokes rfl

theorem Along.tail (h : s.Along holds (stroke :: rest)) : (s.play stroke).Along holds rest := (along_cons.1 h).2

/-! ## Turns that begin -/

theorem left?_of_active (h : s.moment.activity.fiber? = some f) : s.left? f = s.moment.activity.left? := by
  rw [left?, Activity.of_self h]

theorem left?_of_inactive (h : s.moment.activity.fiber? ≠ some f) : s.left? f = none := by
  rw [left?, Activity.of_other h]
  rfl

theorem active_of_left? (h : s.left? f = some left) : s.moment.activity.fiber? = some f := by
  refine Classical.byContradiction fun hinactive => ?_
  rw [left?_of_inactive hinactive] at h
  cases h

theorem left?_of_stepper? (h : s.stepper? stroke = some f) : ∃ left, s.left? f = some (left + 1) := by
  obtain ⟨-, left, stand, ha⟩ := of_stepper? h
  exact ⟨left, by rw [left?_of_active (by rw [ha]; rfl), ha]; rfl⟩

theorem TakesUp.not_step (h : s.TakesUp f stroke) : s.stepper? stroke ≠ some f := by
  intro hstep
  obtain ⟨left, hleft⟩ := left?_of_stepper? hstep
  exact h.1 (active_of_left? hleft)

/-- What is taken up for a fiber has the budget of the loop that takes it up. -/
theorem left?_takeUp {message : Message} {w : World} (h : (w.takeUp message).activity.fiber? = some f) :
    (w.takeUp message).activity.left? = some (w.takeUp message).world.budget := by
  cases message with
  | timer | shutdown => cases h
  | task t =>
    cases t with
    | succeed | actions => cases h
    | resume | unwind => rfl
    | start g =>
      unfold World.takeUp at *
      dsimp only at *
      split at h
      · rfl
      · cases h

theorem Occurs.left?_of_takesUp (h : s.Occurs) (htakes : s.TakesUp f stroke) :
    (s.play stroke).left? f = some (s.play stroke).moment.world.budget := by
  obtain ⟨hbefore, hafter⟩ := htakes
  rw [left?_of_active hafter]
  have hturn := h.turn stroke
  generalize s.moment = m, (s.play stroke).moment = m' at hturn hbefore hafter
  cases hturn with
  | go _ hactivity =>
    rcases hactivity with hidle | hsame
    · rw [hidle] at hafter
      cases hafter
    · exact absurd (hsame.symm.trans hafter) hbefore
  | switch w => cases hafter
  | take => exact left?_takeUp hafter

/-- A fiber that is active has the budget of its home. -/
theorem Occurs.budget_eq (h : s.Occurs) (hlives : s.Lives f home) (hactive : s.moment.activity.fiber? = some f) :
    s.moment.world.budget = s.budgetAt home := by
  cases (h.atHome.active f hactive).symm.trans hlives
  rw [budgetAt, World.loopAt_here]
  rfl

/-! ## Turns that go on -/

/-- What a stroke is for a turn with some steps left. -/
inductive Spends (f : FiberId) (s : Scene) (stroke : Stroke) : Nat → Prop where
  | stays {left : Nat} (hstep : s.stepper? stroke ≠ some f) (h : (s.play stroke).left? f = some left) :
    Spends f s stroke left
  | steps {left : Nat} (hstep : s.stepper? stroke = some f) (h : (s.play stroke).left? f = some left) :
    Spends f s stroke (left + 1)
  | exits {left : Nat} {x : Exit Value Value} (hstep : s.stepper? stroke = some f) (h : (s.play stroke).Exits f x) :
    Spends f s stroke (left + 1)
  | yields (hstep : s.stepper? stroke ≠ some f) (h : (s.play stroke).left? f = none) : Spends f s stroke 0
  | parks {left : Nat} (hstep : s.stepper? stroke ≠ some f) (h : (s.play stroke).left? f = none)
    (hparked : (s.play stroke).Parked f) : Spends f s stroke left

/-- A step that is not the last one leaves the fiber in its turn. -/
theorem left?_act {w : World} {stand : Stand} (h : ∀ x, stand.deed ≠ .exit x) :
    (w.act f left stand).activity.fiber? = some f ∧ (w.act f left stand).activity.left? = some left := by
  unfold World.act
  cases hdeed : stand.deed with
  | move stand' => exact ⟨rfl, rfl⟩
  | call c run =>
    dsimp only
    split <;> exact ⟨rfl, rfl⟩
  | register r =>
    dsimp only
    split <;> exact ⟨rfl, rfl⟩
  | exit x => exact absurd hdeed (h x)

theorem left?_beginRegistration (w : World) (f : FiberId) (left : Nat) (run : Run) (r : Registration) (epoch : Nat) :
    (w.beginRegistration f left run r epoch).activity.fiber? = some f ∧
      (w.beginRegistration f left run r epoch).activity.left? = some left := by
  unfold World.beginRegistration
  split <;> exact ⟨rfl, rfl⟩

/-- A registration ends in its turn, or the fiber is parked. -/
theorem left?_leaveRegistration (w : World) (f : FiberId) (left : Nat) (run : Run) (canceler : Canceler) :
    (w.leaveRegistration f left run canceler).activity.fiber? = some f ∧
        (w.leaveRegistration f left run canceler).activity.left? = some left ∨
      (w.leaveRegistration f left run canceler).activity.fiber? = none ∧
        (w.leaveRegistration f left run canceler).world.phase? f = some (.suspended run canceler) := by
  unfold World.leaveRegistration
  split
  · exact Or.inl ⟨rfl, rfl⟩
  · rename_i hphase
    split
    · exact Or.inl ⟨rfl, rfl⟩
    · refine Or.inr ⟨rfl, ?_⟩
      obtain ⟨r, hr, -⟩ := Option.map_eq_some_iff.1 hphase
      rw [World.phase?, World.fiber?_modifyFiber_self, hr]
      rfl
  · exact Or.inl ⟨rfl, rfl⟩

/-- **A turn goes on until its steps are used up, unless the fiber ends or is parked.** -/
theorem Occurs.spends (h : s.Occurs) (hleft : s.left? f = some left) (stroke : Stroke) : s.Spends f stroke left := by
  have hactive := active_of_left? hleft
  have hbusy : s.moment.activity ≠ .idle := fun hidle => by
    rw [hidle] at hactive
    cases hactive
  rw [left?_of_active hactive] at hleft
  have hgoes {left' : Nat} (hgoes : (s.play stroke).moment.activity.fiber? = some f ∧
      (s.play stroke).moment.activity.left? = some left') : (s.play stroke).left? f = some left' :=
    (left?_of_active hgoes.1).trans hgoes.2
  by_cases hstroke : stroke = .next
  · subst hstroke
    obtain ⟨⟨w, a⟩, kept⟩ := s
    cases a with
    | idle => cases hactive
    | exiting => cases hleft
    | running g n stand =>
      cases hactive
      cases hleft
      cases left with
      | zero => exact .yields nofun rfl
      | succ left =>
        by_cases hexit : ∃ x, stand.deed = .exit x
        · obtain ⟨x, hexit⟩ := hexit
          exact .exits rfl (h.exits_step rfl hexit)
        · exact .steps rfl (hgoes (left?_act fun x hx => hexit ⟨x, hx⟩))
    | registering g n run r epoch =>
      cases hactive
      cases hleft
      exact .stays nofun (hgoes (left?_beginRegistration w f left run r epoch))
    | returning g n run canceler =>
      cases hactive
      cases hleft
      rcases left?_leaveRegistration w f left run canceler with hstays | ⟨hidle, hphase⟩
      · exact .stays nofun (hgoes hstays)
      · refine .parks nofun (left?_of_inactive fun hactive => ?_) ⟨run, canceler, hphase⟩
        cases hidle.symm.trans hactive
    | canceling g n run canceler =>
      cases hactive
      cases hleft
      exact .stays nofun (hgoes ⟨rfl, rfl⟩)
  · have hsame := activity_play (s := s) rfl hbusy hstroke
    refine .stays (fun hstep => hstroke (of_stepper? hstep).1) (hgoes ?_)
    rw [hsame]
    exact ⟨hactive, hleft⟩

/-- A fiber that has no turn has none until one begins. -/
theorem Occurs.left?_eq_none (h : s.Occurs) (hleft : s.left? f = none) (htakes : ¬ s.TakesUp f stroke) :
    (s.play stroke).left? f = none := by
  by_cases hafter : (s.play stroke).moment.activity.fiber? = some f
  · have hactive : s.moment.activity.fiber? = some f := Classical.byContradiction fun hbefore => htakes ⟨hbefore, hafter⟩
    rw [left?_of_active hactive] at hleft
    rw [left?_of_active hafter]
    obtain ⟨⟨w, a⟩, kept⟩ := s
    cases a with
    | idle => cases hactive
    | exiting g x hook =>
      by_cases hstroke : stroke = .next
      · subst hstroke
        cases hafter
      · rw [activity_play rfl Activity.noConfusion hstroke]
        rfl
    | _ => cases hleft
  · exact left?_of_inactive hafter

/-- A fiber that has ended has no turn. -/
theorem Exits.left?_eq_none (h : s.Exits f x) : s.left? f = none := by
  obtain ⟨p, hp, hexit⟩ := h
  have hheld : Held f p.epoch p.hook p.standing (s.moment.world.tokens f) (s.moment.activity.of f) := hp.held
  rw [left?]
  generalize p.standing = standing at hheld hexit
  generalize s.moment.activity.of f = a at hheld ⊢
  generalize s.moment.world.tokens f = tokens at hheld
  cases hheld with
  | exiting | done => rfl
  | _ => cases hexit

theorem Exits.not_takesUp (hexits : s.Exits f x) (h : s.Occurs) : ¬ s.TakesUp f stroke := by
  intro htakes
  have hnone := (h.exits_play hexits stroke).left?_eq_none
  rw [h.left?_of_takesUp htakes] at hnone
  cases hnone

/-! ## The lengths of turns -/

/-- The lengths of the turns that a fiber has had, the latest one first. All turns that came to their end had a certain
length, the one that goes on uses up its budget, and the turn in which the fiber ended had at least one step. -/
inductive Paced (f : FiberId) (b : Nat) (P : Nat → Prop) (s : Scene) : List Nat → Prop where
  | between {turns : List Nat} (hleft : s.left? f = none) (h : ∀ n ∈ turns, P n) : Paced f b P s turns
  | within {left n : Nat} {rest : List Nat} (hleft : s.left? f = some left) (hsum : n + left = b) (h : ∀ m ∈ rest, P m) :
    Paced f b P s (n :: rest)
  | ended {x : Exit Value Value} {n : Nat} {rest : List Nat} (hexits : s.Exits f x) (hpos : 1 ≤ n) (hle : n ≤ b)
    (h : ∀ m ∈ rest, P m) : Paced f b P s (n :: rest)

/-- The number of turns that begin with a stroke. -/
theorem length_reckon (f : FiberId) (s : Scene) (stroke : Stroke) (turns : List Nat) :
    (s.reckon f stroke turns).length = turns.length + if s.TakesUp f stroke then 1 else 0 := by
  unfold reckon
  split
  · rfl
  · split
    · exact List.length_modifyHead ..
    · rfl

theorem length_turnsFrom (f : FiberId) (turns : List Nat) (s : Scene) (strokes : List Stroke) :
    (s.turnsFrom f turns strokes).length = turns.length + s.begun f strokes := by
  induction strokes generalizing s turns with
  | nil => rfl
  | cons stroke rest ih =>
    rw [turnsFrom, ih, length_reckon, Nat.add_assoc]
    rfl

theorem reckon_of_takesUp (h : s.TakesUp f stroke) (turns : List Nat) : s.reckon f stroke turns = 0 :: turns := if_pos h

theorem reckon_of_step (h : s.stepper? stroke = some f) (n : Nat) (rest : List Nat) :
    s.reckon f stroke (n :: rest) = (n + 1) :: rest := by
  rw [reckon, if_neg fun htakes => htakes.not_step h, if_pos h]
  rfl

theorem reckon_of_still (htakes : ¬ s.TakesUp f stroke) (hstep : s.stepper? stroke ≠ some f) (turns : List Nat) :
    s.reckon f stroke turns = turns := by
  rw [reckon, if_neg htakes, if_neg hstep]

namespace Paced

/-- **With one stroke a turn begins, or goes on, or comes to its end at the right time.** -/
theorem play (hp : Paced f b P s ts) (h : s.Occurs) (hP : P b)
    (hparks : (∀ n, n ≤ b → P n) ∨ ¬ (s.play stroke).Parked f)
    (hb : (s.play stroke).moment.activity.fiber? = some f → (s.play stroke).moment.world.budget = b) :
    Paced f b P (s.play stroke) (s.reckon f stroke ts) ∧
      (s.reckon f stroke ts).sum = ts.sum + if s.stepper? stroke = some f then 1 else 0 := by
  cases hp with
  | between hleft hall =>
    have hstep : s.stepper? stroke ≠ some f := fun hstep => by
      obtain ⟨left, hsome⟩ := left?_of_stepper? hstep
      cases hleft.symm.trans hsome
    rw [if_neg hstep]
    by_cases htakes : s.TakesUp f stroke
    · rw [reckon_of_takesUp htakes]
      refine ⟨.within (h.left?_of_takesUp htakes) ?_ hall, List.sum_cons.trans (Nat.zero_add _)⟩
      rw [Nat.zero_add, hb htakes.2]
    · rw [reckon_of_still htakes hstep]
      exact ⟨.between (h.left?_eq_none hleft htakes) hall, rfl⟩
  | @within left n rest hleft hsum hall =>
    have htakes : ¬ s.TakesUp f stroke := fun htakes => htakes.1 (active_of_left? hleft)
    have hsteps : ((n + 1) :: rest).sum = (n :: rest).sum + 1 := by
      rw [List.sum_cons, List.sum_cons, Nat.add_right_comm]
    cases h.spends hleft stroke with
    | stays hstep hleft' =>
      rw [reckon_of_still htakes hstep, if_neg hstep]
      exact ⟨.within hleft' hsum hall, rfl⟩
    | steps hstep hleft' =>
      rw [reckon_of_step hstep, if_pos hstep]
      exact ⟨.within hleft' (by omega) hall, hsteps⟩
    | exits hstep hexits =>
      rw [reckon_of_step hstep, if_pos hstep]
      exact ⟨.ended hexits (Nat.le_add_left 1 n) (by omega) hall, hsteps⟩
    | yields hstep hnone =>
      have hfull : n = b := hsum
      rw [reckon_of_still htakes hstep, if_neg hstep]
      exact ⟨.between hnone (List.forall_mem_cons.2 ⟨hfull ▸ hP, hall⟩), rfl⟩
    | parks hstep hnone hparked =>
      have hless := hparks.resolve_right (not_not_intro hparked)
      rw [reckon_of_still htakes hstep, if_neg hstep]
      exact ⟨.between hnone (List.forall_mem_cons.2 ⟨hless n (by omega), hall⟩), rfl⟩
  | ended hexits hpos hle hall =>
    have hstep := hexits.not_step stroke
    rw [reckon_of_still (hexits.not_takesUp h) hstep, if_neg hstep]
    exact ⟨.ended (h.exits_play hexits stroke) hpos hle hall, rfl⟩

/-- **The turns of a fiber have the right lengths, and all its steps are in them.** -/
theorem after (hp : Paced f b P s ts) (h : s.Occurs) (hP : P b) (hparks : (∀ n, n ≤ b → P n) ∨ s.Unparked f strokes)
    (hb : s.Along (fun s => s.moment.activity.fiber? = some f → s.moment.world.budget = b) strokes) :
    Paced f b P (s.after strokes) (s.turnsFrom f ts strokes) ∧
      (s.turnsFrom f ts strokes).sum = ts.sum + s.steps f strokes := by
  induction strokes generalizing s ts with
  | nil => exact ⟨hp, rfl⟩
  | cons stroke rest ih =>
    have hparks' : (∀ n, n ≤ b → P n) ∨ (s.play stroke).Unparked f rest := hparks.imp_right Along.tail
    obtain ⟨hpaced, hsum⟩ := hp.play h hP (hparks'.imp_right Along.head) hb.tail.head
    obtain ⟨hlast, htotal⟩ := ih hpaced (h.after [stroke]) hparks' hb.tail
    refine ⟨hlast, ?_⟩
    rw [turnsFrom, htotal, hsum, Nat.add_assoc]
    rfl

/-- No turn is longer than the budget. -/
theorem le_budget (hp : Paced f b (· ≤ b) s ts) : ∀ n ∈ ts, n ≤ b := by
  cases hp with
  | between _ hall => exact hall
  | within _ hsum hall => exact List.forall_mem_cons.2 ⟨by omega, hall⟩
  | ended _ _ hle hall => exact List.forall_mem_cons.2 ⟨hle, hall⟩

/-- All turns but the last are full. -/
theorem eq_budget (hp : Paced f b (· = b) s ts) : ∀ n ∈ ts.tail, n = b := by
  cases hp with
  | between _ hall => exact fun n hn => hall n (List.mem_of_mem_tail hn)
  | within _ _ hall | ended _ _ _ hall => exact hall

/-- **A fiber that has ended has had as many turns as its steps need.** -/
theorem length_eq_ceilDiv (hp : Paced f b (· = b) s ts) (hexits : s.Exits f x) (hpos : 1 ≤ b) :
    ts.length = ts.sum ⌈/⌉ b := by
  have hfull {l : List Nat} (h : ∀ n ∈ l, n = b) : l.sum = b * l.length := by
    rw [List.eq_replicate_of_mem h, List.sum_replicate_nat, List.length_replicate, Nat.mul_comm]
  cases hp with
  | between _ hall => rw [hfull hall, ← smul_eq_mul, smul_ceilDiv hpos]
  | within hleft =>
    rw [hexits.left?_eq_none] at hleft
    cases hleft
  | @ended _ n rest _ hone hle hall =>
    rw [List.length_cons, List.sum_cons, hfull hall, Nat.ceilDiv_eq_add_pred_div]
    refine (Nat.div_eq_of_lt_le ?_ ?_).symm
    · rw [Nat.add_mul, Nat.mul_comm]
      omega
    · rw [Nat.add_mul, Nat.add_mul, Nat.mul_comm]
      omega

end Paced

end Scene

end FiberLoop
