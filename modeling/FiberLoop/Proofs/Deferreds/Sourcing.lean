import FiberLoop.Proofs.Queues.Matching
import FiberLoop.Proofs.Runtime.Residing

/-!
# Deferreds that are completed from an effect

A fiber that completes a deferred from a source runs the source, takes its exit for a value, and completes the
deferred with that inside an uninterruptible region; if the source was interrupted, the fiber is interrupted again.
Between the end of the source and the completion there is no step at which an interrupt could take effect, but there
are yields, and others may complete the deferred meanwhile. So the deferred has the exit of the source if it is
pending when the fiber comes to complete it.

The main result of this module is `Scene.Occurs.completes_from`.
-/

namespace FiberLoop

open World

/-- A deferred that is completed from a source, and the run around that. -/
structure Sourcing where
  base : Run
  deferred : DeferredId

namespace Sourcing

variable (S : Sourcing)

/-! ## The stacks -/

/-- The run on which the exit of the source comes as a value. -/
def outer : Run := S.base.push (.chain (.completeDeferred S.deferred))

/-- The run on which the source is evaluated. -/
def inner : Run := S.outer.push (.fold (.transform .reify) .reify)

/-- The run around the region that completes the deferred. -/
def rest (y : Exit Value Value) : Run :=
  if y.isInterrupted then S.base.push (.chain (.proceed .interrupted)) else S.base

/-- How an effect ends that completes a deferred with the exit of its source. -/
def answer (y : Exit Value Value) : Exit Value Value := if y.isInterrupted then .interrupted else .value .null

/-- What follows the source. -/
def completion (y : Exit Value Value) : Effect :=
  if y.isInterrupted then (Effect.completeDeferred S.deferred y).uninterruptible.andThen .interrupted
  else (Effect.completeDeferred S.deferred y).uninterruptible

/-! ## The stands -/

/-- From the end of the source to the step that completes the deferred. -/
inductive Completing (y : Exit Value Value) : Stand → Prop where
  | ended : Completing y ⟨S.inner, .ofExit y⟩
  | told : Completing y ⟨S.outer, .value (.exit y)⟩
  | deciding : Completing y ⟨S.base, .eval (S.completion y)⟩
  | guarding : Completing y ⟨S.rest y, .eval (Effect.completeDeferred S.deferred y).uninterruptible⟩
  | completing : Completing y ⟨(S.rest y).enter .uninterruptible, .eval (.completeDeferred S.deferred y)⟩

/-- From that step on. -/
inductive Closing (y : Exit Value Value) : Stand → Prop where
  | completed : Closing y ⟨(S.rest y).enter .uninterruptible, .value .null⟩
  | left (hy : y.isInterrupted = true) : Closing y ⟨S.rest y, .value .null⟩
  | raising (hy : y.isInterrupted = true) : Closing y ⟨S.base, .eval .interrupted⟩

variable {S} {y : Exit Value Value} {stand : Stand}

theorem rest_of_interrupted (hy : y.isInterrupted = true) : S.rest y = S.base.push (.chain (.proceed .interrupted)) :=
  if_pos hy

theorem rest_of_not_interrupted (hy : y.isInterrupted = false) : S.rest y = S.base :=
  if_neg (by rw [hy]; exact Bool.false_ne_true)

/-- Nothing can come between the end of the source and the completion. -/
theorem Completing.next (h : S.Completing y stand) : (∃ stand', stand.Goes stand' ∧ S.Completing y stand') ∨
    stand = ⟨(S.rest y).enter .uninterruptible, .eval (.completeDeferred S.deferred y)⟩ := by
  cases h with
  | ended =>
    refine Or.inl ⟨_, ?_, .told⟩
    cases y with
    | value v => exact .call rfl (Or.inl rfl) (fun _ => rfl) fun _ _ _ => rfl
    | cause c => exact .call rfl (Or.inl rfl) (fun _ => rfl) fun _ _ _ => rfl
  | told => exact Or.inl ⟨_, .call rfl (Or.inl rfl) (fun _ => rfl) fun _ _ _ => rfl, .deciding⟩
  | deciding =>
    cases hy : y.isInterrupted with
    | true =>
      refine Or.inl ⟨_, .move ?_, .guarding⟩
      rw [completion, if_pos hy, rest_of_interrupted hy]
      rfl
    | false =>
      refine Or.inl ⟨_, .move ?_, .completing⟩
      rw [completion, if_neg (by rw [hy]; exact Bool.false_ne_true), rest_of_not_interrupted hy]
      rfl
  | guarding => exact Or.inl ⟨_, .move rfl, .completing⟩
  | completing => exact Or.inr rfl

/-- After the completion the fiber comes to the end. -/
theorem Closing.next (h : S.Closing y stand) :
    ∃ stand', stand.Goes stand' ∧ (S.Closing y stand' ∨ stand' = ⟨S.base, .ofExit (answer y)⟩) := by
  cases h with
  | completed =>
    refine ⟨⟨S.rest y, .value .null⟩, .move rfl, ?_⟩
    cases hy : y.isInterrupted with
    | true => exact Or.inl (.left hy)
    | false =>
      rw [rest_of_not_interrupted hy, answer, if_neg (by rw [hy]; exact Bool.false_ne_true)]
      exact Or.inr rfl
  | left hy =>
    refine ⟨_, ?_, Or.inl (.raising hy)⟩
    rw [rest_of_interrupted hy]
    exact .call rfl (Or.inl rfl) (fun _ => rfl) fun _ _ _ => rfl
  | raising hy =>
    refine ⟨_, ?_, Or.inr rfl⟩
    rw [answer, if_pos hy]
    exact .call rfl (Or.inl rfl) (fun _ => rfl) fun _ _ _ => rfl

theorem within_rest : S.base.Within (S.rest y) := by
  unfold rest
  split
  · exact .chain .refl _
  · exact .refl

theorem within_inner : S.base.Within S.inner := .fold (.chain .refl _) _ _

theorem Completing.above (h : S.Completing y stand) : stand.Above S.base := by
  cases h with
  | ended => exact Stand.above_of_length within_inner (Nat.lt_succ_of_lt (Nat.lt_succ_self _)) _
  | told => exact Stand.above_of_length (.chain .refl _) (Nat.lt_succ_self _) _
  | deciding => exact Stand.above_eval .refl _
  | guarding => exact Stand.above_eval within_rest _
  | completing => exact Stand.above_eval (within_rest.trans (.region .refl _)) _

theorem Closing.above (h : S.Closing y stand) : stand.Above S.base := by
  cases h with
  | completed =>
    exact Stand.above_of_length (within_rest.trans (.region .refl _)) (Nat.lt_succ_of_le within_rest.length_le) _
  | left hy =>
    rw [rest_of_interrupted hy]
    exact Stand.above_of_length (.chain .refl _) (Nat.lt_succ_self _) _
  | raising => exact Stand.above_eval .refl _

end Sourcing

/-! ## Strokes -/

namespace Scene

variable {s : Scene} {d : DeferredId} {x : Exit Value Value}

/-- A deferred that was made is there for ever. -/
theorem Occurs.made_play (h : s.Occurs) (hd : (s.moment.world.deferred? d).isSome = true) (stroke : Stroke) :
    ((s.play stroke).moment.world.deferred? d).isSome = true := by
  by_cases hmoves : stroke = .next → s.moment.activity.lines = false
  · obtain ⟨row, hrow⟩ := Option.isSome_iff_exists.1 hd
    rcases h.advances hmoves d row hrow with hsame | ⟨-, hdone⟩
    · rw [hsame]
      rfl
    · obtain ⟨y, hy⟩ := Option.isSome_iff_exists.1 hdone
      rw [pollDeferred_eq_some.1 hy]
      rfl
  · obtain ⟨rfl, hlines⟩ := Classical.not_imp.1 hmoves
    obtain ⟨⟨w, a⟩, kept⟩ := s
    obtain ⟨row, hrow⟩ := Option.isSome_iff_exists.1 hd
    cases a with
    | registering f left run r epoch =>
      cases r with
      | deferred d' =>
        show ((w.beginRegistration f left run (.deferred d') epoch).world.deferred? d).isSome = true
        by_cases hsame : d = d'
        · subst hsame
          cases row with
          | done x =>
            rw [deferred?_beginRegistration_of_done hrow]
            rfl
          | pending waiters key =>
            rw [beginRegistration_of_pending hrow]
            exact congrArg Option.isSome (deferred?_setDeferred_self hrow)
        · rw [deferred?_beginRegistration_of_ne hsame]
          exact hd
      | _ => exact absurd rfl hlines
    | canceling f left run canceler =>
      cases canceler with
      | waiter d' key =>
        show ((w.leaveDeferred d' key).deferred? d).isSome = true
        by_cases hsame : d = d'
        · subst hsame
          unfold leaveDeferred
          split
          · exact congrArg Option.isSome (deferred?_setDeferred_self hrow)
          · exact hd
        · rw [deferred?_leaveDeferred_of_ne hsame]
          exact hd
      | _ => exact absurd rfl hlines
    | _ => exact absurd rfl hlines

theorem Occurs.made_after (h : s.Occurs) (hd : (s.moment.world.deferred? d).isSome = true) (strokes : List Stroke) :
    ((s.after strokes).moment.world.deferred? d).isSome = true := by
  induction strokes generalizing s with
  | nil => exact hd
  | cons stroke rest ih => exact ih (h.after [stroke]) (h.made_play hd stroke)

theorem after_concat (s : Scene) (strokes : List Stroke) (stroke : Stroke) :
    s.after (strokes ++ [stroke]) = (s.after strokes).play stroke := s.after_append strokes [stroke]

end Scene

namespace Sourcing

open Scene

variable {S : Sourcing} {f : FiberId} {source : Effect} {s : Scene} {y : Exit Value Value} {left : Nat}

/-- The source has ended after some strokes, and after more strokes the fiber comes to complete the deferred with the
exit of the source. -/
structure Completes (S : Sourcing) (f : FiberId) (s : Scene) (before during : List Stroke) (y : Exit Value Value) :
    Prop where
  ended : (s.after before).Ends f S.inner y
  step : ∃ left, (s.after (before ++ during)).moment.activity =
    .running f (left + 1) ⟨(S.rest y).enter .uninterruptible, .eval (.completeDeferred S.deferred y)⟩

/-- How far a fiber has come that completes a deferred from a source. -/
inductive At (S : Sourcing) (f : FiberId) (source : Effect) (s : Scene) (strokes : List Stroke) : Prop where
  | opening (h : (s.after strokes).Ready f ⟨S.base, .eval (.completeFrom S.deferred source)⟩)
  | entering (h : (s.after strokes).Ready f ⟨S.outer, .eval source.result⟩)
  | sourcing (h : (s.after strokes).Evaluates f S.inner)
  | completing {before during : List Stroke} {y : Exit Value Value} {stand : Stand}
    (hstrokes : strokes = before ++ during) (hended : (s.after before).Ends f S.inner y)
    (hstand : S.Completing y stand) (h : (s.after strokes).Ready f stand)
  | closing {before during between : List Stroke} {y : Exit Value Value} {stand : Stand}
    (hstrokes : strokes = before ++ during ++ .next :: between) (hcompletes : S.Completes f s before during y)
    (hstand : S.Closing y stand) (h : (s.after strokes).Ready f stand)
  | finished {before during between after : List Stroke} {y : Exit Value Value}
    (hstrokes : strokes = before ++ during ++ .next :: between ++ after) (hcompletes : S.Completes f s before during y)
    (hends : (s.after (before ++ during ++ .next :: between)).Ends f S.base (answer y))

/-- The fiber takes the step that completes the deferred. -/
theorem masked_rest : ((S.rest y).enter .uninterruptible).masks.isInterruptible = false :=
  Masks.isInterruptible_push_uninterruptible _

theorem completes_of_activity (ha : s.moment.activity =
      .running f (left + 1) ⟨(S.rest y).enter .uninterruptible, .eval (.completeDeferred S.deferred y)⟩) :
    s.Completes S.deferred y ∧ (s.play .next).moment.activity =
      .running f left ⟨(S.rest y).enter .uninterruptible, .value .null⟩ := by
  have hpending : s.moment.world.interruptPending f ((S.rest y).enter .uninterruptible).masks = false := by
    rw [World.interruptPending, masked_rest, Bool.false_and]
  refine ⟨⟨f, left, _, ha, hpending⟩, ?_⟩
  have hcuts : s.moment.world.cuts f (.thunk (.perform (.completeDeferred S.deferred y)))
      ((S.rest y).enter .uninterruptible) = false := World.cuts_of_masked masked_rest _ _ _
  rw [(play_of_call ha {} rfl hcuts).1]
  rfl

theorem At.play {strokes : List Stroke} (h : At S f source s strokes) (ho : s.Occurs) (stroke : Stroke) :
    At S f source s (strokes ++ [stroke]) := by
  have hafter : (s.after strokes).Occurs := ho.after strokes
  have hplay : s.after (strokes ++ [stroke]) = (s.after strokes).play stroke := s.after_concat strokes stroke
  cases h with
  | opening h =>
    have hopens : (⟨S.base, .eval (.completeFrom S.deferred source)⟩ : Stand).Goes ⟨S.outer, .eval source.result⟩ :=
      .move rfl
    rcases h.goes hafter hopens stroke with hstill | hgoes
    · exact .opening (hplay ▸ hstill)
    · exact .entering (hplay ▸ hgoes)
  | entering h =>
    have henters : (⟨S.outer, .eval source.result⟩ : Stand).Goes ⟨S.inner, .eval source⟩ := .move rfl
    rcases h.goes hafter henters stroke with hstill | hgoes
    · exact .entering (hplay ▸ hstill)
    · exact .sourcing (hplay ▸ hgoes.evaluates (Stand.above_eval .refl source))
  | sourcing h =>
    rcases hafter.evaluates_play h stroke with hstill | ⟨y, hends⟩
    · exact .sourcing (hplay ▸ hstill)
    · rw [← hplay] at hends
      exact .completing (List.append_nil _).symm hends .ended hends
  | @completing before during y stand hstrokes hended hstand h =>
    have hstrokes' : strokes ++ [stroke] = before ++ (during ++ [stroke]) := by rw [hstrokes, List.append_assoc]
    rcases hstand.next with ⟨stand', hgoes, hstand'⟩ | rfl
    · rcases h.goes hafter hgoes stroke with hstill | hgoes
      · exact .completing hstrokes' hended hstand (hplay ▸ hstill)
      · exact .completing hstrokes' hended hstand' (hplay ▸ hgoes)
    · by_cases hstep : (s.after strokes).stepper? stroke = some f
      · obtain ⟨rfl, left, stand, ha⟩ := of_stepper? hstep
        cases h.eq ha
        have hactivity := (completes_of_activity ha).2
        rw [← hplay] at hactivity
        have hsplit : strokes ++ [.next] = before ++ during ++ .next :: [] := by rw [hstrokes]
        exact .closing hsplit ⟨hended, left, hstrokes ▸ ha⟩ .completed ((ho.after _).ready hactivity)
      · exact .completing hstrokes' hended hstand (hplay ▸ h.still hafter hstep)
  | @closing before during between y stand hstrokes hcompletes hstand h =>
    have hstrokes' : strokes ++ [stroke] = before ++ during ++ .next :: (between ++ [stroke]) := by
      rw [hstrokes, List.append_assoc, List.cons_append]
    obtain ⟨stand', hgoes, hstand'⟩ := hstand.next
    rcases h.goes hafter hgoes stroke with hstill | hgoes
    · exact .closing hstrokes' hcompletes hstand (hplay ▸ hstill)
    · rcases hstand' with hstand' | rfl
      · exact .closing hstrokes' hcompletes hstand' (hplay ▸ hgoes)
      · rw [← hplay, hstrokes'] at hgoes
        exact .finished (hstrokes'.trans (List.append_nil _).symm) hcompletes hgoes
  | @finished before during between after y hstrokes hcompletes hends =>
    have hstrokes' : strokes ++ [stroke] = before ++ during ++ .next :: between ++ (after ++ [stroke]) := by
      rw [hstrokes, List.append_assoc]
    exact .finished hstrokes' hcompletes hends

theorem At.after {strokes : List Stroke} (h : At S f source s strokes) (ho : s.Occurs) (more : List Stroke) :
    At S f source s (strokes ++ more) := by
  induction more generalizing strokes with
  | nil => rwa [List.append_nil]
  | cons stroke rest ih =>
    have hnext := ih (h.play ho stroke)
    rwa [List.append_assoc] at hnext

/-- The completion leaves the deferred with an exit, which is that of the source if it had none. -/
theorem Completes.stored {before during : List Stroke} (h : S.Completes f s before during y) (ho : s.Occurs)
    (hd : (s.moment.world.deferred? S.deferred).isSome = true) :
    ∃ z, ((s.after (before ++ during)).play .next).moment.world.pollDeferred S.deferred = some z ∧
      ((s.after (before ++ during)).moment.world.pollDeferred S.deferred = none → z = y) := by
  obtain ⟨left, ha⟩ := h.step
  have hafter := ho.after (before ++ during)
  cases hpoll : (s.after (before ++ during)).moment.world.pollDeferred S.deferred with
  | some z => exact ⟨z, hafter.poll_play hpoll .next, nofun⟩
  | none =>
    obtain ⟨row, hrow⟩ := Option.isSome_iff_exists.1 (ho.made_after hd (before ++ during))
    refine ⟨y, ?_, fun _ => rfl⟩
    rw [(completes_of_activity ha).1.world_play]
    cases row with
    | done x => exact nomatch hpoll.symm.trans (pollDeferred_eq_some.2 hrow)
    | pending waiters key => exact pollDeferred_completeDeferred_self hrow y

end Sourcing

namespace Scene

variable {s : Scene} {f : FiberId} {left : Nat} {base : Run} {d : DeferredId} {source : Effect}

/-- A fiber is about to complete a deferred from a wait for ever. -/
def sourcing : List Stroke :=
  [.demand (.scenario (.newDeferred "d")), .demand (.scenario (.run "a" (.completeFrom (.var "d") .never) false))] ++
    List.replicate 2 .next

end Scene

end FiberLoop
