import FiberLoop.Proofs.Evaluation.Synchronous
import FiberLoop.Proofs.Parallel.Upkeep
import FiberLoop.Proofs.Turns.Dispatching

/-!
# Evaluations that nobody disturbs

A fiber that evaluates an effect takes steps itself, or waits for two others which take steps for it. It is undisturbed
if nobody else touches the part of the world on which the closures depend, interrupts one of these fibers, or answers
what one of them registers. An evaluation `Delivers` an exit if it can only end with that one as long as it is
undisturbed, and does so when the loop goes on.

Such a thing is shown stage by stage: `Delivers.of_stage` says what is to be shown of a stage, given the stages that
may follow it, and `Delivers.of_busy` says the same of a stage in which a fiber is in the middle of something. One step
of a walk is such a stage (`Delivers.of_step`), and so is the time in which a fiber waits for its turn
(`Delivers.of_ready`).
-/

namespace FiberLoop

/-- A fiber runs for another one: it is that one, or one of the two fibers of the race or pairing for which that one
waits. -/
def World.RunsFor (f g : FiberId) (w : World) : Prop :=
  g = f ∨ ∃ j, w.holder? j = some ⟨f, w.epoch f⟩ ∧ g ∈ w.sides j

namespace Scene

variable {σ : Type}

/-- With this stroke a fiber goes on that runs for another one. -/
def Acts (f : FiberId) (s : Scene) (stroke : Stroke) : Prop :=
  stroke = .next ∧ ∃ g, s.moment.world.RunsFor f g ∧ s.moment.activity.fiber? = some g

/-- What lies between two scenes has left a part of the world alone, and the fibers that run for another one: none of
them was interrupted, and none was answered while it registered a callback. -/
structure LeavesAlone (part : World → σ) (f : FiberId) (s s' : Scene) : Prop where
  part : part s'.moment.world = part s.moment.world
  flags : ∀ g, s.moment.world.RunsFor f g → s.moment.world.flagged g = false → s'.moment.world.flagged g = false
  registrations : ∀ g early, s.moment.world.RunsFor f g → s.moment.world.phase? g = some (.registering early) →
    s'.moment.world.phase? g = some (.registering early)

/-- While strokes are played nobody else does anything to a part of the world or to the fibers that run for one. -/
def Undisturbed (part : World → σ) (f : FiberId) : Scene → List Stroke → Prop
  | _, [] => True
  | s, stroke :: rest =>
    (s.Acts f stroke ∨ s.LeavesAlone part f (s.play stroke)) ∧ (s.play stroke).Undisturbed part f rest

/-- If the loop goes on undisturbed it comes to something, or it stops. -/
def Attains (part : World → σ) (f : FiberId) (goal : Scene → Prop) (s : Scene) : Prop :=
  ∃ n, s.Undisturbed part f (List.replicate n .next) →
    (s.after (List.replicate n .next)).moment.world.loop.stopped = true ∨ goal (s.after (List.replicate n .next))

/-- As long as nobody disturbs it the evaluation that a fiber began on a run goes on or has ended with that exit, and it
comes to that end if the loop goes on on which the fiber lives. -/
def Delivers (part : World → σ) (f : FiberId) (base : Run) (x : Exit Value Value) (home : LoopName) (s : Scene) : Prop :=
  ∀ strokes, s.Undisturbed part f strokes →
    (∃ first rest, strokes = first ++ rest ∧ (s.after first).Ends f base x) ∨
      (s.after strokes).Evaluates f base ∧
        ((s.after strokes).moment.world.here = home → (s.after strokes).Attains part f (Ends f base x))

variable {part : World → σ} {f g : FiberId} {base inner : Run} {x : Exit Value Value} {home : LoopName} {s : Scene}
  {stroke : Stroke} {strokes rest : List Stroke} {S goal holds : Scene → Prop} {n left : Nat} {t stand : Stand} {a b : σ}

/-! ## Undisturbed strokes -/

theorem undisturbed_append : s.Undisturbed part f (strokes ++ rest) ↔
    s.Undisturbed part f strokes ∧ (s.after strokes).Undisturbed part f rest := by
  induction strokes generalizing s with
  | nil => exact ⟨fun h => ⟨trivial, h⟩, And.right⟩
  | cons stroke strokes ih => exact (and_congr_right fun _ => ih).trans and_assoc.symm

theorem Attains.of_after (h : (s.after (List.replicate n .next)).Attains part f goal) : s.Attains part f goal := by
  obtain ⟨m, hm⟩ := h
  refine ⟨n + m, fun hall => ?_⟩
  rw [← List.replicate_append_replicate] at hall ⊢
  rw [after_append]
  exact hm (undisturbed_append.1 hall).2

/-- An evaluation that has ended with the exit. -/
theorem Delivers.of_ends (h : s.Ends f base x) : s.Delivers part f base x home :=
  fun strokes _ => Or.inl ⟨[], strokes, rfl, h⟩

theorem Delivers.attains (h : s.Delivers part f base x home) (hhere : s.moment.world.here = home) :
    s.Attains part f (Ends f base x) := by
  rcases h [] trivial with ⟨first, rest, hnil, hends⟩ | ⟨-, hattains⟩
  · cases (List.append_eq_nil_iff.1 hnil.symm).1
    exact ⟨0, fun _ => Or.inr hends⟩
  · exact hattains hhere

/-- If the fiber is done in the end, the evaluation has ended with the exit. -/
theorem Delivers.ends_of_done (h : s.Delivers part f base x home) (hall : s.Undisturbed part f strokes)
    (hdone : (s.after strokes).moment.world.phase? f = some .done) :
    ∃ first rest, strokes = first ++ rest ∧ (s.after first).Ends f base x := by
  refine (h strokes hall).resolve_right fun ⟨⟨p, hp, habove⟩, _⟩ => habove.not_done ?_
  have hphase : (s.after strokes).moment.world.phase? f = some p.standing.phase := hp.phase?_eq
  exact Option.some.inj (hphase.symm.trans hdone)

theorem Occurs.here_after (h : s.Occurs) (n : Nat) :
    (s.after (List.replicate n .next)).moment.world.here = s.moment.world.here := by
  induction n generalizing s with
  | zero => rfl
  | succ n ih => exact (ih (h.after [.next])).trans h.here_next

/-! ## Stages -/

section Stages

variable (hevaluates : ∀ s, S s → s.Occurs ∧ s.Evaluates f base)

include hevaluates

/-- **What is to be shown of a stage of an evaluation**: with every stroke it goes on or another stage begins that is
known to deliver the exit, and it does not go on for ever. -/
theorem Delivers.of_stage
    (hplay : ∀ s stroke, S s → (s.Acts f stroke ∨ s.LeavesAlone part f (s.play stroke)) →
      S (s.play stroke) ∨ (s.play stroke).Delivers part f base x home)
    (hleaves : ∀ s, S s → s.moment.world.here = home →
      s.Attains part f fun s => S s → s.Delivers part f base x home)
    (h : S s) : s.Delivers part f base x home := by
  -- a stage goes on until one begins that is known
  have hgoes {s : Scene} {strokes : List Stroke} (h : S s) (hall : s.Undisturbed part f strokes) :
      S (s.after strokes) ∨ ∃ first rest, strokes = first ++ rest ∧ (s.after first).Delivers part f base x home := by
    induction strokes generalizing s with
    | nil => exact Or.inl h
    | cons stroke rest ih =>
      rcases hplay s stroke h hall.1 with hstill | hdelivers
      · refine (ih hstill hall.2).imp_right ?_
        rintro ⟨first, last, rfl, hdelivers⟩
        exact ⟨stroke :: first, last, rfl, hdelivers⟩
      · exact Or.inr ⟨[stroke], rest, rfl, hdelivers⟩
  have hcomes {s : Scene} {n : Nat} (h : S s) (hhere : s.moment.world.here = home)
      (hdelivers : (s.after (List.replicate n .next)).Delivers part f base x home) : s.Attains part f (Ends f base x) :=
    .of_after (hdelivers.attains (((hevaluates s h).1.here_after n).trans hhere))
  have hattains {s : Scene} (h : S s) (hhere : s.moment.world.here = home) : s.Attains part f (Ends f base x) := by
    obtain ⟨n, hn⟩ := hleaves s h hhere
    by_cases hall : s.Undisturbed part f (List.replicate n .next)
    · rcases hn hall with hstopped | hlast
      · exact ⟨n, fun _ => Or.inl hstopped⟩
      · rcases hgoes h hall with hstill | ⟨first, last, hsplit, hdelivers⟩
        · exact hcomes h hhere (hlast hstill)
        · obtain ⟨-, hfirst, -⟩ := List.replicate_eq_append_iff.1 hsplit
          rw [hfirst] at hdelivers
          exact hcomes h hhere hdelivers
    · exact ⟨n, fun hagain => absurd hagain hall⟩
  intro strokes hall
  rcases hgoes h hall with hstill | ⟨first, last, rfl, hdelivers⟩
  · exact Or.inr ⟨(hevaluates _ hstill).2, hattains hstill⟩
  · rw [after_append]
    refine (hdelivers last (undisturbed_append.1 hall).2).imp_left ?_
    rintro ⟨more, after, rfl, hends⟩
    exact ⟨first ++ more, after, (List.append_assoc ..).symm, (after_append s first more).symm ▸ hends⟩

/-- A stage in which the next thing that the loop does leads to another one. -/
theorem Delivers.of_busy (hnext : ∀ s, S s → (s.play .next).Delivers part f base x home)
    (hstays : ∀ s stroke, S s → stroke ≠ .next → s.LeavesAlone part f (s.play stroke) → S (s.play stroke)) (h : S s) :
    s.Delivers part f base x home := by
  refine Delivers.of_stage hevaluates (fun s stroke hs hall => ?_) (fun s hs _ => ⟨1, fun _ => Or.inr fun _ => hnext s hs⟩) h
  by_cases hstroke : stroke = .next
  · subst hstroke
    exact Or.inr (hnext s hs)
  · exact Or.inl (hstays s stroke hs hstroke (hall.resolve_left fun hacts => hstroke hacts.1))

end Stages

end Scene

/-! ## Worlds in which a fiber takes steps -/

section Worlds

variable {σ : Type} {part : World → σ} {w : World} {f g : FiberId} {phase : Phase}

theorem World.flagged_modifyFiber {change : Fiber → Fiber} (h : ∀ r, (change r).interruptRequested = r.interruptRequested)
    (w : World) (f g : FiberId) : (w.modifyFiber f change).flagged g = w.flagged g := by
  by_cases hg : f = g
  · subst hg
    rw [World.flagged, World.fiber?_modifyFiber_self, World.flagged]
    cases w.fiber? f with
    | none => rfl
    | some r => exact h r
  · rw [World.flagged, World.fiber?_modifyFiber_of_ne hg, World.flagged]

theorem World.flagged_advanceEpoch (w : World) (f : FiberId) (phase : Phase) (g : FiberId) :
    (w.advanceEpoch f phase).flagged g = w.flagged g := by
  refine World.flagged_modifyFiber ?_ w f g
  exact fun _ => rfl

theorem World.phase?_advanceEpoch (h : (w.record f).isSome = true) (phase : Phase) :
    (w.advanceEpoch f phase).phase? f = some phase := by
  obtain ⟨r, hr⟩ := Option.isSome_iff_exists.1 h
  exact World.phase?_of_record (World.record_advanceEpoch hr phase)

theorem World.interruptPending_of_unflagged (h : w.flagged f = false) (masks : Masks) : w.interruptPending f masks = false := by
  refine Bool.eq_false_iff.2 fun hpending => ?_
  cases h.symm.trans (Bool.and_eq_true_iff.1 hpending).2

theorem World.cuts_of_unflagged (h : w.flagged f = false) (c : Call) (run : Run) : w.cuts f c run = false := by
  rw [World.cuts, World.interruptPending_of_unflagged h, Bool.and_false]

theorem Aloof.modifyFiber (h : Aloof part) (w : World) (f : FiberId) (change : Fiber → Fiber) :
    part (w.modifyFiber f change) = part w := h.fibers w _

/-- A message with which a turn begins changes at most the record of a fiber that has not started yet. -/
theorem World.takeUp_of_begins {message : Message}
    (h : (w.takeUp message).activity.fiber? = some g) : (w.takeUp message).world = w ∨
      ∃ f root, w.phase? f = some (.created root) ∧
        (w.takeUp message).world = w.modifyFiber f fun r => { r with phase := .running } := by
  unfold World.takeUp at h ⊢
  split at h
  · rename_i f
    split at h
    · rename_i root hphase
      exact Or.inr ⟨f, root, hphase, rfl⟩
    · cases h
  · exact Or.inl rfl
  · exact Or.inl rfl
  · cases h

end Worlds

namespace Scene

variable {σ : Type} {part : World → σ} {f g : FiberId} {base inner run : Run} {x y : Exit Value Value} {home : LoopName}
  {s : Scene} {stroke : Stroke} {holds : Scene → Prop} {n left epoch : Nat} {t stand : Stand} {a b c : σ}
  {r : Registration} {canceler : Canceler}

/-- A fiber in the middle of something other than a step evaluates what it began on a run below. -/
theorem Occurs.evaluates_of_activity (h : s.Occurs) (ha : s.moment.activity.fiber? = some g)
    (hrun : s.moment.activity.run? = some run) (hwithin : base.Within run)
    (hnot : ∀ left stand, s.moment.activity ≠ .running g left stand) : s.Evaluates g base := by
  obtain ⟨p, hp⟩ := h.fits_of_activity ha
  exact ⟨p, hp, .waits (fun stand => hp.not_ready ha fun left => hnot left stand) ((hp.run?_of_activity ha).trans hrun) hwithin⟩

/-- The next thing that a registration does which has been answered. -/
theorem play_of_returning (ha : s.moment.activity = .returning g left run canceler)
    (hphase : s.moment.world.phase? g = some (.registering (some y))) :
    (s.play .next).moment = ⟨s.moment.world.advanceEpoch g .running, .running g left ⟨run, .ofExit y⟩⟩ := by
  obtain ⟨⟨w, a⟩, kept⟩ := s
  cases ha
  have hphase : (w.fiber? g).map Fiber.phase = some (.registering (some y)) := hphase
  simp only [play, Moment.next, World.leaveRegistration, hphase]

theorem play_of_register (ha : s.moment.activity = .running g (left + 1) stand) (hdeed : stand.deed = .register r)
    (hunflagged : s.moment.world.flagged g = false) : (s.play .next).moment =
      ⟨s.moment.world.advanceEpoch g (.registering none),
        .registering g left stand.run r ((s.moment.world.advanceEpoch g (.registering none)).epoch g)⟩ := by
  obtain ⟨⟨w, a⟩, kept⟩ := s
  cases ha
  have hpending : w.interruptPending g stand.run.masks = false := World.interruptPending_of_unflagged hunflagged _
  simp only [play, Moment.next, World.act, hdeed, hpending, Bool.false_eq_true, if_false]

theorem play_of_registering (ha : s.moment.activity = .registering g left run r epoch) : (s.play .next).moment =
      match (r.run ⟨g, epoch⟩).caught s.moment.world with
      | (.error d, w) => ⟨w.advanceEpoch g .running, .running g left ⟨run, .cause (.aborted d)⟩⟩
      | (.ok canceler, w) => ⟨w, .returning g left run canceler⟩ := by
  obtain ⟨⟨w, a⟩, kept⟩ := s
  cases ha
  rfl

/-- The epoch of a registration is that of its fiber. -/
theorem Occurs.epoch_of_registering (h : s.Occurs) (ha : s.moment.activity = .registering g left run r epoch) :
    s.moment.world.epoch g = epoch := by
  obtain ⟨p, hp⟩ := h.fits_of_activity (congrArg Activity.fiber? ha)
  obtain ⟨home, hrecord⟩ := hp.record
  exact (World.epoch_of_record hrecord).trans (hp.held_of_activity ha rfl).of_registering.2.2.symm

/-! ## Turns disturb nobody -/

/-- If no timer is there, the loop takes a message. -/
theorem next_of_quiet {w : World} (kept : List Effect) (htimers : w.loop.timers = []) :
    (play ⟨⟨w, .idle⟩, kept⟩ .next).moment = if w.loop.stopped then ⟨w, .idle⟩ else w.takeNext := by
  have hquiet : w.fireDue = w := by
    rw [World.fireDue, htimers, List.takeWhile_nil, List.dropWhile_nil, List.foldl_nil, ← htimers]
  rw [play, Moment.next]
  dsimp only
  rw [hquiet]

/-- A turn that begins disturbs nobody. -/
theorem LeavesAlone.of_begins (hpart : Aloof part) (hidle : s.moment.activity = .idle)
    (htimers : s.moment.world.loop.timers = []) (hbegins : (s.play .next).moment.activity.fiber? = some g) :
    s.LeavesAlone part f (s.play .next) := by
  obtain ⟨⟨w, activity⟩, kept⟩ := s
  cases hidle
  have hnext := next_of_quiet kept htimers
  generalize play ⟨⟨w, .idle⟩, kept⟩ .next = after at hnext hbegins ⊢
  rw [hnext] at hbegins
  have hmoment : ∃ message, after.moment = w.dropMessage.takeUp message := by
    cases hstopped : w.loop.stopped with
    | true =>
      rw [hstopped] at hbegins
      cases hbegins
    | false =>
      rw [hstopped] at hbegins hnext
      unfold World.takeNext at hbegins hnext
      cases hinbox : w.loop.inbox with
      | nil =>
        rw [hinbox] at hbegins
        cases hbegins
      | cons message rest =>
        rw [hinbox] at hnext
        exact ⟨message, hnext⟩
  obtain ⟨message, hmessage⟩ := hmoment
  rw [← hnext, hmessage] at hbegins
  have hdropped : part w.dropMessage = part w := hpart.queue w _ w.loop.dispatched
  rcases World.takeUp_of_begins hbegins with hsame | ⟨e, root, hcreated, hstarted⟩
  · have hworld : after.moment.world = w.dropMessage := (congrArg Moment.world hmessage).trans hsame
    exact ⟨hworld ▸ hdropped, fun _ _ h => hworld ▸ h, fun _ _ _ h => hworld ▸ h⟩
  · have hworld := (congrArg Moment.world hmessage).trans hstarted
    refine ⟨?_, fun g _ hflag => ?_, fun g early _ hphase => ?_⟩ <;> rw [hworld]
    · exact (hpart.modifyFiber ..).trans hdropped
    · refine (World.flagged_modifyFiber ?_ _ e g).trans hflag
      exact fun _ => rfl
    · have hne : e ≠ g := by
        rintro rfl
        cases hcreated.symm.trans hphase
      rw [World.phase?, World.fiber?_modifyFiber_of_ne hne]
      exact hphase

/-- For so many steps the loop either goes on with a fiber that runs for another one, or begins a turn while no timer is
there. -/
def proceeds (f : FiberId) (j : Joint) : Nat → Scene → Bool
  | 0, _ => true
  | n + 1, s =>
    (match s.moment.activity.fiber? with
      | some g => g = f || s.moment.world.holder? j = some ⟨f, s.moment.world.epoch f⟩ && g ∈ s.moment.world.sides j
      | none => s.moment.world.loop.timers.isEmpty && (s.play .next).moment.activity.fiber?.isSome) &&
    proceeds f j n (s.play .next)

theorem undisturbed_of_proceeds {j : Joint} (hpart : Aloof part) (h : s.proceeds f j n = true) :
    s.Undisturbed part f (List.replicate n .next) := by
  induction n generalizing s with
  | zero => trivial
  | succ n ih =>
    obtain ⟨hfirst, hrest⟩ := Bool.and_eq_true_iff.1 h
    refine ⟨?_, ih hrest⟩
    cases hactive : s.moment.activity.fiber? with
    | some g =>
      rw [hactive] at hfirst
      refine Or.inl ⟨rfl, g, ?_, hactive⟩
      rcases Bool.or_eq_true_iff.1 hfirst with hself | hside
      · exact Or.inl (of_decide_eq_true hself)
      · obtain ⟨hholder, hg⟩ := Bool.and_eq_true_iff.1 hside
        exact Or.inr ⟨j, of_decide_eq_true hholder, of_decide_eq_true hg⟩
    | none =>
      rw [hactive] at hfirst
      obtain ⟨htimers, hbegins⟩ := Bool.and_eq_true_iff.1 hfirst
      obtain ⟨g, hg⟩ := Option.isSome_iff_exists.1 hbegins
      have hidle : s.moment.activity = .idle := by
        cases ha : s.moment.activity with
        | idle => rfl
        | _ => exact nomatch ha ▸ hactive
      exact Or.inr (.of_begins hpart hidle (List.isEmpty_iff.1 htimers) hg)

/-! ## One step of a walk -/

/-- What holds while one fiber takes steps for another one, and is kept by every stroke until the former tells its
exit, unless somebody is interrupted. -/
structure Accompanies (f : FiberId) (base : Run) (g : FiberId) (inner : Run) (holds : Scene → Prop) : Prop where
  occurs : ∀ s, holds s → s.Occurs
  unflagged : ∀ s, holds s → s.moment.world.flagged g = false
  runsFor : ∀ s, holds s → s.moment.world.RunsFor f g
  evaluates : ∀ s, holds s → s.Evaluates g inner → s.Evaluates f base
  play : ∀ s stroke, holds s → s.moment.activity.fiber? = some g → (∀ x hook, s.moment.activity ≠ .exiting g x hook) →
    (∀ e, s.moment.world.RunsFor f e → s.moment.world.flagged e = false →
      (s.play stroke).moment.world.flagged e = false) → holds (s.play stroke)

namespace Accompanies

variable (h : Accompanies f base g inner holds)

include h

/-- The strokes of others leave a fiber in the middle of what it does. -/
theorem stays (hs : holds s) {activity : Activity} (ha : s.moment.activity = activity) (hg : activity.fiber? = some g)
    (hnot : ∀ x hook, activity ≠ .exiting g x hook) (hstroke : stroke ≠ .next)
    (halone : s.LeavesAlone part f (s.play stroke)) : holds (s.play stroke) ∧ (s.play stroke).moment.activity = activity := by
  subst ha
  refine ⟨h.play s stroke hs hg hnot halone.flags, activity_play rfl (fun hidle => ?_) hstroke⟩
  rw [hidle] at hg
  cases hg

/-- A fiber goes on by itself and interrupts nobody. -/
theorem goes (hs : holds s) (hg : s.moment.activity.fiber? = some g) (hnot : ∀ x hook, s.moment.activity ≠ .exiting g x hook)
    (hflags : ∀ e, (s.play .next).moment.world.flagged e = s.moment.world.flagged e) : holds (s.play .next) :=
  h.play s .next hs hg hnot fun e _ he => (hflags e).trans he

variable (hpart : Aloof part)

include hpart

/-- A registration that was answered ends with that. -/
theorem delivers_returning (hs : holds s) (ha : s.moment.activity = .returning g left run canceler)
    (hphase : s.moment.world.phase? g = some (.registering (some y))) (hpart' : part s.moment.world = b)
    (hwithin : inner.Within run)
    (hrest : ∀ s, holds s → s.moment.activity = .running g left ⟨run, .ofExit y⟩ → part s.moment.world = b →
      s.Delivers part f base x home) : s.Delivers part f base x home := by
  let S (s : Scene) : Prop := holds s ∧ s.moment.activity = .returning g left run canceler ∧
    s.moment.world.phase? g = some (.registering (some y)) ∧ part s.moment.world = b
  refine Delivers.of_busy (S := S) (fun s hS => ?_) (fun s hS => ?_) (fun s stroke hS hstroke halone => ?_)
    ⟨hs, ha, hphase, hpart'⟩ <;> obtain ⟨hs, ha, hphase, hpart'⟩ := hS
  · refine ⟨h.occurs s hs, h.evaluates s hs ?_⟩
    exact (h.occurs s hs).evaluates_of_activity (congrArg Activity.fiber? ha) (congrArg Activity.run? ha) hwithin
      fun _ _ ha' => nomatch ha.symm.trans ha'
  · have hnext := play_of_returning ha hphase
    refine hrest _ (h.goes hs (congrArg Activity.fiber? ha) (fun _ _ ha' => nomatch ha.symm.trans ha') fun e => ?_)
      (congrArg Moment.activity hnext) ?_
    · rw [hnext]
      exact World.flagged_advanceEpoch _ g .running e
    · rw [hnext]
      exact (hpart.modifyFiber ..).trans hpart'
  · obtain ⟨hs', ha'⟩ := h.stays hs ha rfl nofun hstroke halone
    exact ⟨hs', ha', halone.registrations g _ (h.runsFor s hs) hphase, halone.part.trans hpart'⟩

/-- Who registers something that is answered at once is given the answer. -/
theorem delivers_registering (hs : holds s) (ha : s.moment.activity = .registering g left run r epoch)
    (hphase : s.moment.world.phase? g = some (.registering none)) (hpart' : part s.moment.world = a)
    (hwithin : inner.Within run) (hanswers : r.Answers part a y b)
    (hrest : ∀ s, holds s → s.moment.activity = .running g left ⟨run, .ofExit y⟩ → part s.moment.world = b →
      s.Delivers part f base x home) : s.Delivers part f base x home := by
  let S (s : Scene) : Prop := holds s ∧ s.moment.activity = .registering g left run r epoch ∧
    s.moment.world.phase? g = some (.registering none) ∧ part s.moment.world = a
  refine Delivers.of_busy (S := S) (fun s hS => ?_) (fun s hS => ?_) (fun s stroke hS hstroke halone => ?_)
    ⟨hs, ha, hphase, hpart'⟩ <;> obtain ⟨hs, ha, hphase, hpart'⟩ := hS
  · refine ⟨h.occurs s hs, h.evaluates s hs ?_⟩
    exact (h.occurs s hs).evaluates_of_activity (congrArg Activity.fiber? ha) (congrArg Activity.run? ha) hwithin
      fun _ _ ha' => nomatch ha.symm.trans ha'
  · have hregisters : s.moment.world.Registers ⟨g, epoch⟩ := ⟨hphase, (h.occurs s hs).epoch_of_registering ha⟩
    have hreturned := hanswers.returned s.moment.world ⟨g, epoch⟩
    have hthrew := hanswers.threw s.moment.world ⟨g, epoch⟩
    have hleaves := hanswers.leaves s.moment.world ⟨g, epoch⟩ hpart' hregisters
    have hflags := hanswers.flags s.moment.world ⟨g, epoch⟩ hpart' hregisters
    have hnext := play_of_registering ha
    have hgoes := h.goes hs (congrArg Activity.fiber? ha) (fun _ _ ha' => nomatch ha.symm.trans ha')
    generalize (r.run ⟨g, epoch⟩).caught s.moment.world = result at hreturned hthrew hleaves hflags hnext
    obtain ⟨result, w⟩ := result
    cases result with
    | ok canceler =>
      have hworld : (s.play .next).moment.world = w := congrArg Moment.world hnext
      refine h.delivers_returning hpart (hgoes fun e => ?_) (congrArg Moment.activity hnext) ?_ ?_ hwithin hrest
      · rw [hworld]
        exact hflags e
      · rw [hworld]
        exact hreturned canceler hpart' hregisters rfl
      · rw [hworld]
        exact hleaves
    | error d =>
      cases hthrew d hpart' hregisters rfl
      have hworld : (s.play .next).moment.world = w.advanceEpoch g .running := congrArg Moment.world hnext
      refine hrest _ (hgoes fun e => ?_) (congrArg Moment.activity hnext) ?_
      · rw [hworld]
        exact (World.flagged_advanceEpoch w g .running e).trans (hflags e)
      · rw [hworld]
        exact (hpart.modifyFiber ..).trans hleaves
  · obtain ⟨hs', ha'⟩ := h.stays hs ha rfl nofun hstroke halone
    exact ⟨hs', ha', halone.registrations g _ (h.runsFor s hs) hphase, halone.part.trans hpart'⟩

/-- **A step of a walk leads to the rest of the walk**, whatever others do meanwhile. -/
theorem delivers_step (hs : holds s) (ha : s.moment.activity = .running g (left + 1) stand)
    (hpart' : part s.moment.world = a) (hwalk : Walks part inner (n + 1) stand a t b)
    (hrest : ∀ s stand a, holds s → s.moment.activity = .running g left stand → part s.moment.world = a →
      Walks part inner n stand a t b → s.Delivers part f base x home) : s.Delivers part f base x home := by
  let S (s : Scene) : Prop := holds s ∧ s.moment.activity = .running g (left + 1) stand ∧ part s.moment.world = a
  refine Delivers.of_busy (S := S) (fun s hS => ?_) (fun s hS => ?_) (fun s stroke hS hstroke halone => ?_)
    ⟨hs, ha, hpart'⟩ <;> obtain ⟨hs, ha, hpart'⟩ := hS
  · have hoccurs := h.occurs s hs
    exact ⟨hoccurs, h.evaluates s hs ((hoccurs.ready ha).evaluates hwalk.above_of_succ)⟩
  · have hunflagged := h.unflagged s hs
    have hgoes := h.goes hs (congrArg Activity.fiber? ha) (fun _ _ ha' => nomatch ha.symm.trans ha')
    cases hwalk with
    | move habove hdeed hwalk =>
      have hnext := (play_of_goes ha {} (.move hdeed)).1
      have hworld : (s.play .next).moment.world = s.moment.world := by rw [hnext]
      exact hrest _ _ _ (hgoes fun e => by rw [hworld]) (congrArg Moment.activity hnext)
        ((congrArg part hworld).trans hpart') hwalk
    | @call _ _ c run next _ _ d _ habove hdeed hcall hwalk =>
      have hnext := (play_of_call ha {} hdeed (World.cuts_of_unflagged hunflagged c run)).1
      have hworld : (s.play .next).moment.world = c.leaves s.moment.world := congrArg Moment.world hnext
      have hstand : (s.moment.world.called c run).1 = ⟨run, next⟩ := congrArg (Stand.mk run) (hcall.result _ hpart')
      rw [hstand] at hnext
      refine hrest _ _ _ (hgoes fun e => ?_) (congrArg Moment.activity hnext) ?_ hwalk
      · rw [hworld]
        exact hcall.flags _ hpart' e
      · rw [hworld]
        exact hcall.leaves _ hpart'
    | answer habove hdeed hanswers hwalk =>
      have hnext := play_of_register ha hdeed hunflagged
      have hworld : (s.play .next).moment.world = s.moment.world.advanceEpoch g (.registering none) :=
        congrArg Moment.world hnext
      obtain ⟨p, hp⟩ := (h.occurs s hs).fits_of_activity (congrArg Activity.fiber? ha)
      obtain ⟨home, hrecord⟩ := hp.record
      refine h.delivers_registering hpart (hgoes fun e => ?_) (congrArg Moment.activity hnext) ?_ ?_ habove.1 hanswers
        fun s hs ha hpart' => hrest s _ _ hs ha hpart' hwalk
      · rw [hworld]
        exact World.flagged_advanceEpoch _ g _ e
      · rw [hworld]
        exact World.phase?_advanceEpoch (Option.isSome_iff_exists.2 ⟨_, hrecord⟩) _
      · rw [hworld]
        exact (hpart.modifyFiber ..).trans hpart'
  · obtain ⟨hs', ha'⟩ := h.stays hs ha rfl nofun hstroke halone
    exact ⟨hs', ha', halone.part.trans hpart'⟩

end Accompanies

/-! ## Whole walks -/

/-- A fiber lives on a loop whose turns have so many steps, and nobody has interrupted it. -/
structure Intact (f : FiberId) (home : LoopName) (budget : Nat) (s : Scene) : Prop where
  occurs : s.Occurs
  lives : s.Lives f home
  unflagged : s.moment.world.flagged f = false
  budget : s.budgetAt home = budget

section Walking

variable {budget : Nat}

/-- A fiber that is not interrupted takes steps for itself. -/
theorem accompanies_intact (f : FiberId) (base : Run) (home : LoopName) (budget : Nat) :
    Accompanies f base f base (Intact f home budget) where
  occurs _ h := h.occurs
  unflagged _ h := h.unflagged
  runsFor _ _ := Or.inl rfl
  evaluates _ _ h := h
  play _ stroke h _ _ hflags :=
    ⟨h.occurs.after [stroke], h.occurs.lives_play h.lives stroke, hflags f (Or.inl rfl) h.unflagged,
      (h.occurs.budgetAt_after home [stroke]).trans h.budget⟩

/-- Nobody else runs for a fiber that is ready to go on. -/
theorem Occurs.eq_of_runsFor (h : s.Occurs) (hready : s.Ready f stand) (hruns : s.moment.world.RunsFor f g) : g = f := by
  refine hruns.resolve_right fun ⟨j, hj, _⟩ => ?_
  obtain ⟨row, hrow, hholds⟩ := h.joined.holds j _ hj
  have hrow : s.moment.world.fiber? f = some row := hrow
  obtain ⟨p, hp, hstanding⟩ := hready
  have hphase : s.moment.world.phase? f = some .running := hp.phase?_eq.trans (congrArg (some ∘ Standing.phase) hstanding)
  have hpast := (hholds.past_of_phase hrow hphase rfl).1
  rw [World.epoch_of_fiber? hrow] at hpast
  exact Nat.lt_irrefl _ hpast

/-- A fiber that is ready and has no turn waits for it in the queue of its home. -/
theorem Occurs.task_of_ready (h : s.Occurs) (hlives : s.Lives f home) (hready : s.Ready f stand)
    (hinactive : s.moment.activity.fiber? ≠ some f) :
    .task (.resume f stand.run stand.next) ∈ (s.moment.world.loopAt home).inbox := by
  obtain ⟨p, hp, hstanding⟩ := hready
  have htokens : s.moment.world.tokens f = [.resume f stand.run stand.next] := by
    have hheld : Held f p.epoch p.hook p.standing (s.moment.world.tokens f) (s.moment.activity.of f) := hp.held
    rw [hstanding, Activity.of_other hinactive] at hheld
    generalize s.moment.world.tokens f = tokens at hheld
    cases hheld
    rfl
  obtain ⟨name, hwaits⟩ := World.loopAt_of_mem_tokens (htokens ▸ List.mem_singleton_self _)
  cases (h.atHome.tasks name _ f hwaits rfl).symm.trans hlives
  exact hwaits

/-- A fiber that is ready and has its turn is about to take a step. -/
theorem Ready.running (h : s.Ready f stand) (hactive : s.moment.activity.fiber? = some f) :
    ∃ left, s.moment.activity = .running f left stand := by
  obtain ⟨p, hp, hstanding⟩ := h
  have hheld := hp.held_of_activity rfl hactive
  rw [hstanding] at hheld
  generalize s.moment.world.tokens f = tokens at hheld
  generalize s.moment.activity = activity at hheld hactive ⊢
  cases hheld with
  | queued => cases hactive
  | running _ left => exact ⟨left, rfl⟩

section Turns

variable (hpart : Aloof part) (hbudget : 0 < budget) (habove : stand.Above base)
  (hrest : ∀ (s : Scene) left, s.Intact f home budget → s.moment.activity = .running f (left + 1) stand →
    part s.moment.world = a → s.Delivers part f base x home)

include hbudget habove hrest

/-- A fiber that waits for its turn has it at last, and then as many steps as the budget allows. -/
theorem Delivers.of_queued (h : s.Intact f home budget) (hready : s.Ready f stand)
    (hinactive : s.moment.activity.fiber? ≠ some f) (hpart' : part s.moment.world = a) : s.Delivers part f base x home := by
  let S (s : Scene) : Prop := s.Intact f home budget ∧ s.Ready f stand ∧ s.moment.activity.fiber? ≠ some f ∧
    part s.moment.world = a
  refine Delivers.of_stage (S := S) (fun s hS => ⟨hS.1.occurs, hS.2.1.evaluates habove⟩) (fun s stroke hS hall => ?_)
    (fun s hS hhere => ?_) ⟨h, hready, hinactive, hpart'⟩ <;> obtain ⟨h, hready, hinactive, hpart'⟩ := hS
  · have halone : s.LeavesAlone part f (s.play stroke) := by
      refine hall.resolve_left fun ⟨_, g, hruns, hactive⟩ => hinactive ?_
      rwa [h.occurs.eq_of_runsFor hready hruns] at hactive
    have hafter : (s.play stroke).Intact f home budget :=
      ⟨h.occurs.after [stroke], h.occurs.lives_play h.lives stroke, halone.flags f (Or.inl rfl) h.unflagged,
        (h.occurs.budgetAt_after home [stroke]).trans h.budget⟩
    have hstill : (s.play stroke).Ready f stand := hready.still h.occurs fun hstep => by
      obtain ⟨-, left, stand, ha⟩ := of_stepper? hstep
      exact hinactive (congrArg Activity.fiber? ha)
    by_cases hactive : (s.play stroke).moment.activity.fiber? = some f
    · obtain ⟨left, ha⟩ := hstill.running hactive
      have hleft := h.occurs.left?_of_takesUp ⟨hinactive, hactive⟩
      rw [left?_of_active hactive, ha, hafter.occurs.budget_eq hafter.lives hactive, hafter.budget] at hleft
      obtain rfl : left = budget := Option.some.inj hleft
      obtain ⟨left, rfl⟩ := Nat.exists_eq_succ_of_ne_zero (Nat.ne_of_gt hbudget)
      exact Or.inr (hrest _ left hafter ha (halone.part.trans hpart'))
    · exact Or.inl ⟨hafter, hstill, hactive, halone.part.trans hpart'⟩
  · have htask := h.occurs.task_of_ready h.lives hready hinactive
    rw [← hhere, World.loopAt_here] at htask
    obtain ⟨before, after, hinbox⟩ := List.append_of_mem htask
    obtain ⟨n, hn⟩ := h.occurs.comesTo hinbox
    rcases hn with hstopped | ⟨v, htaken⟩
    · exact ⟨n, fun _ => Or.inl hstopped⟩
    · refine ⟨n + 1, fun _ => Or.inr fun hS => absurd ?_ hS.2.2.1⟩
      rw [List.replicate_succ', after_append, after_cons, after_nil, htaken]
      rfl

include hpart

/-- **A fiber that is ready to go on takes its next step**, in this turn or in the next one. -/
theorem Delivers.of_ready (h : s.Intact f home budget) (hready : s.Ready f stand) (hpart' : part s.moment.world = a) :
    s.Delivers part f base x home := by
  by_cases hactive : s.moment.activity.fiber? = some f
  · obtain ⟨left, ha⟩ := hready.running hactive
    cases left with
    | succ left => exact hrest s left h ha hpart'
    | zero =>
      have haccompanies := accompanies_intact f base home budget
      let S (s : Scene) : Prop := s.Intact f home budget ∧ s.moment.activity = .running f 0 stand ∧ part s.moment.world = a
      refine Delivers.of_busy (S := S) (fun s hS => ?_) (fun s hS => ?_) (fun s stroke hS hstroke halone => ?_)
        ⟨h, ha, hpart'⟩ <;> obtain ⟨h, ha, hpart'⟩ := hS
      · exact ⟨h.occurs, (h.occurs.ready ha).evaluates habove⟩
      · -- the turn is over
        have hnext : (s.play .next).moment = ⟨s.moment.world.dispatch (.resume f stand.run stand.next), .idle⟩ := by
          obtain ⟨⟨w, a⟩, kept⟩ := s
          cases ha
          rfl
        have hafter := haccompanies.goes h (congrArg Activity.fiber? ha) (fun _ _ ha' => nomatch ha.symm.trans ha')
          fun e => by rw [hnext]; rfl
        have hstill : (s.play .next).Ready f stand := (h.occurs.ready ha).still h.occurs fun hstep => by
          obtain ⟨-, left, stand', ha'⟩ := of_stepper? hstep
          cases ha.symm.trans ha'
        refine Delivers.of_queued hbudget habove hrest hafter hstill ?_ ?_
        · rw [hnext]
          nofun
        · rw [hnext]
          exact (hpart.queue ..).trans hpart'
      · obtain ⟨h', ha'⟩ := haccompanies.stays h ha rfl nofun hstroke halone
        exact ⟨h', ha', halone.part.trans hpart'⟩
  · exact Delivers.of_queued hbudget habove hrest h hready hactive hpart'

end Turns

/-- **A fiber walks to the end of its walk**, in as many turns as it takes. -/
theorem Delivers.of_walks (hpart : Aloof part) (hbudget : 0 < budget)
    (hgoal : ∀ s : Scene, s.Intact f home budget → s.Ready f t → part s.moment.world = b → s.Delivers part f base x home)
    (h : s.Intact f home budget) (hready : s.Ready f stand) (hpart' : part s.moment.world = a)
    (hwalk : Walks part base n stand a t b) : s.Delivers part f base x home := by
  induction n generalizing s stand a with
  | zero =>
    cases hwalk
    exact hgoal s h hready hpart'
  | succ n ih =>
    refine Delivers.of_ready hpart hbudget hwalk.above_of_succ (fun s left h ha hpart' => ?_) h hready hpart'
    exact (accompanies_intact f base home budget).delivers_step hpart h ha hpart' hwalk fun s stand a h ha hpart' hwalk =>
      ih h (h.occurs.ready ha) hpart' hwalk

/-- **An evaluation comes to the exit to which its steps lead.** -/
theorem Intact.delivers (h : s.Intact f home budget) (hpart : Aloof part) (hbudget : 0 < budget) {e : Effect}
    (hyields : Yields part (.eval e) a n x b) (hready : s.Ready f ⟨base, .eval e⟩) (hpart' : part s.moment.world = a) :
    s.Delivers part f base x home :=
  Delivers.of_walks hpart hbudget (fun _ _ hready _ => .of_ends hready) h hready hpart' (hyields.walks base)

end Walking

end Scene

end FiberLoop
