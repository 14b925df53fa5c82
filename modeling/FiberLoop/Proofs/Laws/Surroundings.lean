import Mathlib.Tactic.Choose
import FiberLoop.Proofs.Evaluation.BigStep
import FiberLoop.Proofs.Runtime.Crossing

/-!
# The surroundings of an evaluation

A node either is a leaf or evaluates another node and goes on with its exit. What the evaluation of a description
depends on, besides the description, shows at its leaves: what they come to, and whether an interrupt takes their
place. `Surroundings` fix all this as a function of the leaves that were evaluated so far, so two evaluations in the
same surroundings meet the same interrupts at the same leaves, however many steps they take in between.

The main result of this module is `Surroundings.step_opened`: a node that is no leaf is left with what comes of the
exit of the node inside, whatever happens around it. `Linked.exists_heeds` shows that this leaves nothing out: every
evaluation whose frames are functions is one in some surroundings.
-/

namespace FiberLoop

/-- A leaf that was evaluated: in which way, and what came of it. -/
structure Met where
  leaf : Effect
  way : Way
  next : Next

/-! ## Nodes that are no leaves -/

/-- What a node evaluates first, whether that is inside an uninterruptible region, and what comes of its exit. -/
structure Opened where
  source : Effect
  closes : Bool
  after : Exit Value Value → World → Next

/-- What a node that is no leaf consists of. -/
def Effect.opened? : Effect → Option Opened
  | .chain source k => some ⟨source, false, fun x w => x.fold (fun v => (Call.bind k v).result w) .cause⟩
  | .fold source k r =>
    some ⟨source, false, fun x w => x.fold (fun v => (Call.bind k v).result w) fun c => (Call.recover r c).result w⟩
  | .region body status => some ⟨body, !status.isInterruptible, fun x _ => .ofExit x⟩
  | .succeeded _ | .caused _ | .complete _ | .suspend _ | .async _ | .currentLoop => none

/-! ## Surroundings -/

/-- What the leaves of an evaluation come to, and which of them an interrupt replaces. -/
structure Surroundings where
  /-- The world in which closures are called after these leaves. -/
  world : List Met → World
  /-- Whether the fiber is to be interrupted after these leaves. -/
  requested : List Met → Bool
  /-- How a registration ends that is made after these leaves. -/
  ending : List Met → Registration → Ending

namespace Surroundings

/-- What comes of a closure. -/
def call (ω : Surroundings) (masked : Bool) (met : List Met) (c : Call) : Way × Next :=
  if c.yields && !masked && ω.requested met then (.cut, .cause .interrupted)
  else (.call c, c.result (ω.world met))

/-- What comes of a registration. -/
def wait (ω : Surroundings) (masked : Bool) (met : List Met) (r : Registration) : Way × Next :=
  if !masked && ω.requested met then (.cut, .cause .interrupted)
  else (.ended (ω.ending met r), .ofExit (ω.ending met r).exit)

/-- What comes of a leaf. -/
def leaf (ω : Surroundings) (masked : Bool) (met : List Met) : Effect → Option (Way × Next)
  | .succeeded v => some (ω.call masked met (.value v))
  | .caused c => some (ω.call masked met (.cause c))
  | .complete x => some (ω.call masked met (.exit x))
  | .suspend thunk => some (ω.call masked met (.thunk thunk))
  | .async r => some (ω.wait masked met r)
  | .currentLoop => some (.move, .value .null)
  | .chain .. | .fold .. | .region .. => none

/-- The step of a fiber in these surroundings. -/
def step (ω : Surroundings) (met : List Met) (s : Stand) : Option Step :=
  match s.deed with
  | .move s' => some ⟨.move, s'⟩
  | .call c run =>
    let (way, next) := ω.call (!run.masks.isInterruptible) met c
    some ⟨way, ⟨run, next⟩⟩
  | .register r =>
    let (way, next) := ω.wait (!s.run.masks.isInterruptible) met r
    some ⟨way, ⟨s.run, next⟩⟩
  | .exit _ => none

section Steps

variable {ω : Surroundings} {met : List Met} {e : Effect} {run : Run}

/-- The step of a leaf goes on from the same run. -/
theorem step_leaf (met : List Met) (run : Run) (h : e.opened? = none) : ∃ way next,
    ω.leaf (!run.masks.isInterruptible) met e = some (way, next) ∧
      ω.step met ⟨run, .eval e⟩ = some ⟨way, ⟨run, next⟩⟩ := by
  cases e with
  | chain _ _ | fold _ _ _ | region _ _ => cases h
  | _ => exact ⟨_, _, rfl, rfl⟩

theorem call_of_frame {masked : Bool} {c : Call} (h : c.yields = false) :
    ω.call masked met c = (.call c, c.result (ω.world met)) := by
  rw [call, h, Bool.false_and, Bool.false_and]
  rfl

/-- **A node that is no leaf takes a step into another node, and one step out of it.** -/
theorem step_opened {o : Opened} {masked : Bool} (h : e.opened? = some o)
    (hmasks : run.masks.isInterruptible = !masked) : ∃ inner : Run, run.Within inner ∧
      run.frames.length < inner.frames.length ∧ inner.masks.isInterruptible = !(masked || o.closes) ∧
      (∀ met, ω.step met ⟨run, .eval e⟩ = some ⟨.move, ⟨inner, .eval o.source⟩⟩) ∧
      ∀ met x, ∃ way, ω.step met ⟨inner, .ofExit x⟩ = some ⟨way, ⟨run, o.after x (ω.world met)⟩⟩ := by
  cases e with
  | chain source k =>
    cases h
    refine ⟨run.push (.chain k), .chain .refl k, Nat.lt_succ_self _, ?_, fun _ => rfl, fun met x => ?_⟩
    · rw [Bool.or_false]
      exact hmasks
    · cases x with
      | value v => exact ⟨.call (.bind k v), rfl⟩
      | cause c => exact ⟨.move, rfl⟩
  | fold source k r =>
    cases h
    refine ⟨run.push (.fold k r), .fold .refl k r, Nat.lt_succ_self _, ?_, fun _ => rfl, fun met x => ?_⟩
    · rw [Bool.or_false]
      exact hmasks
    · cases x with
      | value v => exact ⟨.call (.bind k v), rfl⟩
      | cause c => exact ⟨.call (.recover r c), rfl⟩
  | region body status =>
    cases h
    refine ⟨run.enter status, .region .refl status, Nat.lt_succ_self _, Run.masks_enter hmasks status,
      fun _ => rfl, fun met x => ?_⟩
    cases x with
    | value v | cause c => exact ⟨.move, rfl⟩
  | _ => cases h

end Steps

end Surroundings

/-! ## The leaves of a trail -/

/-- The leaf that is evaluated at a step of a trail. -/
def metAt (t : List Step) (q : Nat) : Option Met :=
  match standAt t q, t[q + 1]? with
  | some ⟨_, .eval e⟩, some b => if e.opened?.isNone then some ⟨e, b.way, b.stand.next⟩ else none
  | _, _ => none

/-- The leaves that are evaluated from one step of a trail to another. -/
def leavesMet (t : List Step) (i r : Nat) : List Met := (List.range' i (r - i)).filterMap (metAt t)

/-- The fiber is above a run at each step from `i` to the one before `k`. -/
def Aloft (t : List Step) (base : Run) (i k : Nat) : Prop :=
  ∀ r s, i ≤ r → r < k → standAt t r = some s → s.Above base

/-- From step `j` on the fiber goes as the surroundings have it as long as it stays above a run. The leaves are
those since step `i`. -/
def Heeds (ω : Surroundings) (t : List Step) (base : Run) (i j : Nat) : Prop :=
  ∀ q s b, j ≤ q → Aloft t base j (q + 1) → standAt t q = some s → t[q + 1]? = some b →
    ω.step (leavesMet t i q) s = some b

section Trails

variable {t : List Step} {base run : Run} {e : Effect} {b : Step} {i j k q q' r : Nat}

theorem metAt_of_leaf (h : e.opened? = none) (hs : standAt t q = some ⟨run, .eval e⟩) (hb : t[q + 1]? = some b) :
    metAt t q = some ⟨e, b.way, b.stand.next⟩ := by
  simp only [metAt, hs, hb, h]
  rfl

theorem metAt_of_opened {o : Opened} (h : e.opened? = some o) (hs : standAt t q = some ⟨run, .eval e⟩) :
    metAt t q = none := by
  simp only [metAt, hs]
  cases t[q + 1]? with
  | none => rfl
  | some b => simp only [h]; rfl

theorem metAt_of_exit {x : Exit Value Value} (hs : standAt t q = some ⟨run, .ofExit x⟩) : metAt t q = none := by
  simp only [metAt, hs]
  cases x <;> rfl

@[simp] theorem leavesMet_self (t : List Step) (i : Nat) : leavesMet t i i = [] := by
  rw [leavesMet, Nat.sub_self]
  rfl

theorem leavesMet_succ (h : i ≤ r) : leavesMet t i (r + 1) = leavesMet t i r ++ (metAt t r).toList := by
  obtain ⟨n, rfl⟩ : ∃ n, r = i + n := ⟨r - i, by omega⟩
  rw [leavesMet, leavesMet, show i + n + 1 - i = n + 1 by omega, show i + n - i = n by omega, List.range'_concat,
    List.filterMap_append]
  cases hmet : metAt t (i + n) <;> simp [hmet]

/-- Leaves are only ever added. -/
theorem leavesMet_mono (hi : i ≤ q) (hle : q ≤ q') : leavesMet t i q <+: leavesMet t i q' := by
  induction hle with
  | refl => exact List.prefix_rfl
  | step hle ih =>
    rw [leavesMet_succ (Nat.le_trans hi hle)]
    exact ih.trans (List.prefix_append _ _)

/-- The leaves so far tell at which leaf a fiber is. -/
theorem eq_of_leavesMet_eq (hi : i ≤ q) (hi' : i ≤ q') (hmet : (metAt t q).isSome) (hmet' : (metAt t q').isSome)
    (heq : leavesMet t i q = leavesMet t i q') : q = q' := by
  have hne : ∀ {p p' : Nat}, i ≤ p → (metAt t p).isSome → p < p' → leavesMet t i p ≠ leavesMet t i p' := by
    intro p p' hp hsome hlt heq
    obtain ⟨met, hmet⟩ := Option.isSome_iff_exists.1 hsome
    have hlength := (leavesMet_mono (t := t) (Nat.le_succ_of_le hp) hlt).length_le
    rw [leavesMet_succ hp, ← heq, hmet, List.length_append] at hlength
    exact absurd hlength (Nat.not_le.2 (Nat.lt_succ_self _))
  rcases Nat.lt_trichotomy q q' with hlt | rfl | hgt
  · exact absurd heq (hne hi hmet hlt)
  · rfl
  · exact absurd heq.symm (hne hi' hmet' hgt)

/-! ## Surroundings read off a trail -/

/-- What a pending interrupt can replace is a leaf. -/
theorem Stand.leaf_of_call {s : Stand} {c : Call} (h : s.deed = .call c run) (hyields : c.yields = true) :
    ∃ e, s = ⟨run, .eval e⟩ ∧ e.opened? = none := by
  obtain ⟨⟨frames, masks⟩, next⟩ := s
  cases next with
  | eval e => cases e <;> cases h <;> exact ⟨_, rfl, rfl⟩
  | value v | cause c' =>
    cases frames with
    | nil => cases h
    | cons frame rest =>
      cases frame <;> cases h
      all_goals cases hyields

theorem Stand.leaf_of_register {s : Stand} {ρ : Registration} (h : s.deed = .register ρ) :
    ∃ e, s = ⟨s.run, .eval e⟩ ∧ e.opened? = none := by
  obtain ⟨⟨frames, masks⟩, next⟩ := s
  cases next with
  | eval e => cases e <;> cases h <;> exact ⟨_, rfl, rfl⟩
  | value v | cause c =>
    cases frames with
    | nil => cases h
    | cons frame rest => cases frame <;> cases h

/-- Whatever step a fiber takes, it takes it in some surroundings. -/
theorem Leads.exists_step {s : Stand} (h : Leads s b.way b.stand) : ∃ (w : World) (requested : Bool) (ending : Ending),
    ∀ met, (Surroundings.mk (fun _ => w) (fun _ => requested) fun _ _ => ending).step met s = some b := by
  obtain ⟨way, stand⟩ := b
  cases h with
  | move hdeed =>
    refine ⟨default, false, .interrupted, fun met => ?_⟩
    simp only [Surroundings.step, hdeed]
  | call hdeed w =>
    refine ⟨w, false, .interrupted, fun met => ?_⟩
    simp only [Surroundings.step, hdeed, Surroundings.call, Bool.and_false]
    rfl
  | cut hdeed hyields hmasks =>
    refine ⟨default, true, .interrupted, fun met => ?_⟩
    simp only [Surroundings.step, hdeed, Surroundings.call, hyields, hmasks]
    rfl
  | cutWait hdeed hmasks =>
    refine ⟨default, true, .interrupted, fun met => ?_⟩
    simp only [Surroundings.step, hdeed, Surroundings.wait, hmasks]
    rfl
  | ended hdeed ending hmasks =>
    refine ⟨default, false, ending, fun met => ?_⟩
    simp only [Surroundings.step, hdeed, Surroundings.wait, Bool.and_false]
    rfl

/-- **Every evaluation whose frames call functions goes on in some surroundings.** -/
theorem Linked.exists_heeds (h : Linked t)
    (hfunctions : ∀ q s c run', i ≤ q → Aloft t run i (q + 1) → standAt t q = some s → s.deed = .call c run' →
      c.yields = false → ∀ w w', c.result w = c.result w') : ∃ ω, Heeds ω t run i i := by
  have hread : ∀ met, ∃ (w : World) (requested : Bool) (ending : Ending), ∀ q s b, i ≤ q → (metAt t q).isSome →
      leavesMet t i q = met → standAt t q = some s → t[q + 1]? = some b →
        (Surroundings.mk (fun _ => w) (fun _ => requested) fun _ _ => ending).step met s = some b := by
    intro met
    by_cases hex : ∃ q s b, i ≤ q ∧ (metAt t q).isSome ∧ leavesMet t i q = met ∧ standAt t q = some s ∧
      t[q + 1]? = some b
    · obtain ⟨q, s, b, hi, hmet, hleaves, hs, hb⟩ := hex
      obtain ⟨w, requested, ending, hstep⟩ := (h q s b hs hb).exists_step
      refine ⟨w, requested, ending, fun q' s' b' hi' hmet' hleaves' hs' hb' => ?_⟩
      obtain rfl := eq_of_leavesMet_eq hi hi' hmet hmet' (hleaves.trans hleaves'.symm)
      cases hs.symm.trans hs'
      cases hb.symm.trans hb'
      exact hstep met
    · refine ⟨default, false, .interrupted, fun q s b hi hmet hleaves hs hb => ?_⟩
      exact absurd ⟨q, s, b, hi, hmet, hleaves, hs, hb⟩ hex
  choose world requested ending hread using hread
  refine ⟨⟨world, requested, fun met _ => ending met⟩, fun q s b hi haloft hs hb => ?_⟩
  by_cases hmet : (metAt t q).isSome
  · exact hread _ q s b hi hmet rfl hs hb
  -- a step that is not at a leaf asks the surroundings for the values of functions only
  · have hnot : ∀ run' e, s = ⟨run', .eval e⟩ → e.opened? ≠ none := by
      rintro run' e rfl hleaf
      rw [metAt_of_leaf hleaf hs hb] at hmet
      exact hmet rfl
    obtain ⟨way, stand⟩ := b
    cases h q s _ hs hb with
    | move hdeed => simp only [Surroundings.step, hdeed]
    | call hdeed w =>
      cases hyields : Call.yields _ with
      | true =>
        obtain ⟨e, rfl, hleaf⟩ := Stand.leaf_of_call hdeed hyields
        exact absurd hleaf (hnot _ e rfl)
      | false =>
        simp only [Surroundings.step, hdeed, Surroundings.call_of_frame hyields]
        rw [hfunctions q s _ _ hi haloft hs hdeed hyields _ w]
        rfl
    | cut hdeed hyields =>
      obtain ⟨e, rfl, hleaf⟩ := Stand.leaf_of_call hdeed hyields
      exact absurd hleaf (hnot _ e rfl)
    | cutWait hdeed | ended hdeed =>
      obtain ⟨e, hs', hleaf⟩ := Stand.leaf_of_register hdeed
      exact absurd hleaf (hnot _ e hs')

end Trails

end FiberLoop
