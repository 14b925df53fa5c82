import FiberLoop.Proofs.Runtime.Staying

/-!
# Tasks that wait are taken

The task of a fiber waits until it is taken up (`Scene.Occurs.queued_after`). The loop on which it waits comes to it
if it goes on and is not stopped (`Scene.Occurs.comesTo`): what it is in the middle of comes to its end
(`Moment.rank_next`), and then a message less is ahead of the task.
-/

namespace FiberLoop

namespace Scene

open World

/-- If the loop goes on it comes to something, or it stops. -/
def ComesTo (happens : Moment → Prop) (s : Scene) : Prop :=
  ∃ n, (s.after (List.replicate n .next)).moment.world.loop.stopped = true ∨
    happens ((s.after (List.replicate n .next)).play .next).moment

theorem ComesTo.mono {happens happens' : Moment → Prop} {s : Scene} (h : s.ComesTo happens)
    (himp : ∀ m, happens m → happens' m) : s.ComesTo happens' := by
  obtain ⟨n, hn⟩ := h
  exact ⟨n, hn.imp_right (himp _)⟩

variable {s : Scene} {f : FiberId} {home : LoopName} {t : Task} {before after : List Message}

/-- A fiber that is in the middle of something has a place. -/
theorem Occurs.fits_of_activity (h : s.Occurs) (ha : s.moment.activity.fiber? = some f) :
    ∃ p, Fits f (s.moment.view f) p := by
  rcases h.absent_or_fits f with habsent | ⟨p, hp⟩
  · have hidle : s.moment.activity.of f = .idle := habsent.activity
    rw [Activity.of_self ha] at hidle
    rw [hidle] at ha
    cases ha
  · exact ⟨p, hp⟩

/-- A task that waits is all that goes on with its fiber. -/
theorem Occurs.held_of_task (h : s.Occurs) (htask : .task t ∈ (s.moment.world.loopAt home).inbox)
    (hf : t.fiber? = some f) : s.moment.world.tokens f = [t] ∧ s.moment.activity.of f = .idle := by
  have hmem := mem_tokens_of_loopAt htask hf
  rcases h.absent_or_fits f with habsent | ⟨p, hp⟩
  · have htokens : s.moment.world.tokens f = [] := habsent.tokens
    rw [htokens] at hmem
    cases hmem
  · have hheld : Held f p.epoch p.hook p.standing (s.moment.world.tokens f) (s.moment.activity.of f) := hp.held
    rcases hheld.tokens_cases with hnil | ⟨t', hone⟩
    · rw [hnil] at hmem
      cases hmem
    · rw [hone] at hmem hheld
      cases List.mem_singleton.1 hmem
      exact ⟨hone, hheld.idle_of_token⟩

theorem Occurs.inactive_of_task (h : s.Occurs) (htask : .task t ∈ (s.moment.world.loopAt home).inbox)
    (hf : t.fiber? = some f) : s.moment.activity.fiber? ≠ some f := fun hactive => by
  rw [← Activity.of_self hactive, (h.held_of_task htask hf).2] at hactive
  cases hactive

/-- Of a task that waits: it goes on waiting, or it is taken up and its fiber is held by nothing else. -/
theorem Occurs.queued_after (h : s.Occurs) (htask : .task t ∈ (s.moment.world.loopAt home).inbox)
    (hf : t.fiber? = some f) (strokes : List Stroke) :
    .task t ∈ ((s.after strokes).moment.world.loopAt home).inbox ∨
      ∃ before stroke after, strokes = before ++ stroke :: after ∧
        .task t ∈ ((s.after before).moment.world.loopAt home).inbox ∧
        ∃ v : World, ((s.after before).play stroke).moment = v.takeUp (.task t) := by
  induction strokes generalizing s with
  | nil => exact Or.inl htask
  | cons stroke rest ih =>
    rcases (h.turn stroke).queued htask (h.inactive_of_task htask hf) with hstill | htaken
    · rcases ih (h.after [stroke]) hstill with hlast | ⟨before, stroke', after, rfl, hbefore, htaken⟩
      · exact Or.inl hlast
      · exact Or.inr ⟨stroke :: before, stroke', after, rfl, hbefore, htaken⟩
    · exact Or.inr ⟨[], stroke, rest, rfl, htask, htaken⟩

/-! ## The loop goes on -/

/-- At each moment the activity comes closer to its end, or the task closer to the head of the inbox. -/
theorem Occurs.nears (h : s.Occurs) (hinbox : s.moment.world.loop.inbox = before ++ .task t :: after) :
    s.moment.world.loop.stopped = true ∨ (∃ v : World, (s.play .next).moment = v.takeUp (.task t)) ∨
      ∃ before' after', (s.play .next).moment.world.loop.inbox = before' ++ .task t :: after' ∧
        (before'.length < before.length ∨
          before' = before ∧ (s.play .next).moment.activity.rank < s.moment.activity.rank) := by
  have hquiet := h.timersQuiet
  obtain ⟨⟨w, a⟩, kept⟩ := s
  have hinbox : w.loop.inbox = before ++ .task t :: after := hinbox
  -- what is in the inbox stays there, and more may follow
  have hgrown {v : World} (hv : w.Extends v) : ∃ more, v.loop.inbox = before ++ .task t :: more := by
    obtain ⟨more, hmore⟩ := hv.loop.inbox
    refine ⟨after ++ more, ?_⟩
    rw [← hmore, hinbox, List.append_assoc, List.cons_append]
  by_cases hbusy : a = .idle
  · subst hbusy
    by_cases hstopped : w.loop.stopped = true
    · exact Or.inl hstopped
    · have hnext : (Scene.play ⟨⟨w, .idle⟩, kept⟩ .next).moment = w.fireDue.takeNext := by
        simp only [play, Moment.next, hstopped]
        rfl
      rw [hnext]
      obtain ⟨more, hmore⟩ := hgrown (.fireDue hquiet)
      refine Or.inr ?_
      unfold World.takeNext
      rw [hmore]
      cases before with
      | nil => exact Or.inl ⟨_, rfl⟩
      | cons message rest =>
        obtain ⟨last, hlast⟩ := (Extends.takeUp message w.fireDue.dropMessage).loop.inbox
        refine Or.inr ⟨rest, more ++ last, ?_, Or.inl (Nat.lt_succ_self _)⟩
        have hdrop : w.fireDue.dropMessage.loop.inbox = rest ++ .task t :: more := by
          rw [World.dropMessage, hmore]
          rfl
        rw [← List.cons_append, ← List.append_assoc, ← hdrop]
        exact hlast.symm
  · obtain ⟨more, hmore⟩ := hgrown (Moment.extends_next (m := ⟨w, a⟩) hbusy)
    exact Or.inr (Or.inr ⟨before, more, hmore, Or.inr ⟨rfl, Moment.rank_next hbusy⟩⟩)

/-- **A loop that goes on takes every task that waits there, unless it stops.** -/
theorem Occurs.comesTo {s : Scene} {before after : List Message} (h : s.Occurs)
    (hinbox : s.moment.world.loop.inbox = before ++ .task t :: after) :
    s.ComesTo fun m => ∃ v : World, m = v.takeUp (.task t) := by
  rcases h.nears hinbox with hstopped | htaken | ⟨before', after', hinbox', hless⟩
  · exact ⟨0, Or.inl hstopped⟩
  · exact ⟨0, Or.inr htaken⟩
  · obtain ⟨n, hn⟩ := Occurs.comesTo (h.after [.next]) hinbox'
    exact ⟨n + 1, hn⟩
termination_by (before.length, s.moment.activity.rank)
decreasing_by
  rcases hless with hless | ⟨rfl, hless⟩
  · exact Prod.Lex.left _ _ hless
  · exact Prod.Lex.right _ hless

end Scene

end FiberLoop
