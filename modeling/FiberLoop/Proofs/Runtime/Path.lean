import FiberLoop.Proofs.Runtime.Deed

/-!
# The path of a fiber

A fiber goes from stand to stand. Seen without the world, each step either moves a frame, goes on with what a
closure said in some world, is cut by an interrupt, or ends a registration.

While an effect is evaluated, everything that it pushes lies on top of the run with which its evaluation
began. The main result of this module is `Leads.stays`: a fiber that stands above a run either stays above it,
or has come back to exactly that run, masks included, with an exit. So what lies below is never looked at
before the effect has ended.
-/

namespace FiberLoop

/-- How a registration ends. -/
inductive Ending where
  /-- The callback was completed before the registration returned. -/
  | early (exit : Exit Value Value)
  /-- The callback was completed while the fiber was parked. -/
  | answered (exit : Exit Value Value)
  | interrupted
  /-- The registration threw. -/
  | threw (defect : Defect)

namespace Ending

/-- What a registration that ended in this way amounts to. -/
def exit : Ending → Exit Value Value
  | .early x | .answered x => x
  | .interrupted => .interrupted
  | .threw d => .aborted d

end Ending

/-- How a fiber gets from one stand to the next. -/
inductive Way where
  /-- A frame is pushed or popped. -/
  | move
  | call (call : Call)
  /-- An interrupt takes the place of a leaf or of a registration. -/
  | cut
  /-- A registration ends. -/
  | ended (ending : Ending)

/-- A fiber can get from one stand to the next. -/
inductive Leads : Stand → Way → Stand → Prop where
  | move {s s' : Stand} (h : s.deed = .move s') : Leads s .move s'
  | call {s : Stand} {c : Call} {run : Run} (h : s.deed = .call c run) (w : World) :
    Leads s (.call c) (w.called c run).1
  | cut {s : Stand} {c : Call} {run : Run} (h : s.deed = .call c run) (hyields : c.yields = true)
    (hmasks : run.masks.isInterruptible = true) : Leads s .cut ⟨run, .cause .interrupted⟩
  | cutWait {s : Stand} {r : Registration} (h : s.deed = .register r)
    (hmasks : s.run.masks.isInterruptible = true) : Leads s .cut ⟨s.run, .cause .interrupted⟩
  | ended {s : Stand} {r : Registration} (h : s.deed = .register r) (ending : Ending)
    (hmasks : ending = .interrupted → s.run.masks.isInterruptible = true) :
    Leads s (.ended ending) ⟨s.run, .ofExit ending.exit⟩

/-! ## The stack discipline -/

namespace Masks

/-- Under an uninterruptible region no region is interruptible. -/
theorem isInterruptible_push_of_not {m : Masks} (h : m.isInterruptible = false) (s : Interruptibility) :
    (m.push s).isInterruptible = false := by
  rw [isInterruptible_push, h]
  rfl

theorem isInterruptible_push_uninterruptible (m : Masks) :
    (m.push .uninterruptible).isInterruptible = false := by
  rw [isInterruptible_push]
  exact Bool.and_false _

end Masks

namespace Run

/-- A run is another one with frames pushed on top, each region with its mask. -/
inductive Within (base : Run) : Run → Prop where
  | refl : Within base base
  | chain {run : Run} (h : Within base run) (next : Continuation) : Within base (run.push (.chain next))
  | fold {run : Run} (h : Within base run) (onValue : Continuation) (onCause : Recovery) :
    Within base (run.push (.fold onValue onCause))
  | region {run : Run} (h : Within base run) (status : Interruptibility) : Within base (run.enter status)

namespace Within

variable {base run : Run}

theorem trans {inner : Run} (h : base.Within inner) (h' : inner.Within run) : base.Within run := by
  induction h' with
  | refl => exact h
  | chain _ next ih => exact ih.chain next
  | fold _ onValue onCause ih => exact ih.fold onValue onCause
  | region _ status ih => exact ih.region status

theorem length_le (h : base.Within run) : base.frames.length ≤ run.frames.length := by
  induction h with
  | refl => exact Nat.le_refl _
  | chain _ next ih => exact Nat.le_succ_of_le ih
  | fold _ onValue onCause ih => exact Nat.le_succ_of_le ih
  | region _ status ih => exact Nat.le_succ_of_le ih

/-- A run of the same height is the same run. -/
theorem eq_of_length (h : base.Within run) (hlength : run.frames.length ≤ base.frames.length) :
    run = base := by
  cases h with
  | refl => rfl
  | chain h next =>
    have hle := h.length_le
    simp only [push, List.length_cons] at hlength
    omega
  | fold h onValue onCause =>
    have hle := h.length_le
    simp only [push, List.length_cons] at hlength
    omega
  | region h status =>
    have hle := h.length_le
    simp only [enter, List.length_cons] at hlength
    omega

theorem length_lt (h : base.Within run) (hne : run ≠ base) :
    base.frames.length < run.frames.length := by
  rcases Nat.lt_or_ge base.frames.length run.frames.length with hlt | hge
  · exact hlt
  · exact absurd (h.eq_of_length hge) hne

/-- Above a run under an uninterruptible region nothing is interruptible. -/
theorem not_interruptible (h : base.Within run) (hbase : base.masks.isInterruptible = false) :
    run.masks.isInterruptible = false := by
  induction h with
  | refl => exact hbase
  | chain _ next ih => exact ih
  | fold _ onValue onCause ih => exact ih
  | region _ status ih => exact Masks.isInterruptible_push_of_not ih status

theorem pop {frame : Frame} {rest : List Frame} (h : base.Within run) (hne : run ≠ base)
    (hframes : run.frames = frame :: rest) (hframe : frame ≠ .region) :
    base.Within { run with frames := rest } := by
  cases h with
  | refl => exact absurd rfl hne
  | chain h next =>
    simp only [push, List.cons.injEq] at hframes
    obtain ⟨-, rfl⟩ := hframes
    exact h
  | fold h onValue onCause =>
    simp only [push, List.cons.injEq] at hframes
    obtain ⟨-, rfl⟩ := hframes
    exact h
  | region h status =>
    simp only [enter, List.cons.injEq] at hframes
    exact absurd hframes.1.symm hframe

theorem leave {rest : List Frame} (h : base.Within run) (hne : run ≠ base)
    (hframes : run.frames = .region :: rest) :
    base.Within { frames := rest, masks := run.masks.pop } := by
  cases h with
  | refl => exact absurd rfl hne
  | chain h next => simp [push] at hframes
  | fold h onValue onCause => simp [push] at hframes
  | region h status =>
    simp only [enter, List.cons.injEq, true_and] at hframes
    subst hframes
    rw [enter, Masks.pop_push]
    exact h

end Within

end Run

namespace Stand

/-- The evaluation that began with the run `base` has not ended yet. -/
def Above (base : Run) (s : Stand) : Prop :=
  base.Within s.run ∧ (s.run = base → ∃ e, s.next = .eval e)

/-- The evaluation that began with the run `base` has ended with an exit. -/
def Feeds (base : Run) (exit : Exit Value Value) (s : Stand) : Prop := s = ⟨base, .ofExit exit⟩

theorem above_eval {base run : Run} (h : base.Within run) (e : Effect) : Above base ⟨run, .eval e⟩ :=
  ⟨h, fun _ => ⟨e, rfl⟩⟩

/-- A run that is higher than the base has something of the evaluation left on it. -/
theorem above_of_length {base run : Run} (h : base.Within run)
    (hlength : base.frames.length < run.frames.length) (next : Next) : Above base ⟨run, next⟩ := by
  refine ⟨h, fun heq => ?_⟩
  have hrun : run = base := heq
  rw [hrun] at hlength
  exact absurd hlength (Nat.lt_irrefl _)

/-- A stand above an inner run is above every run on which that one lies. -/
theorem Above.trans {base inner : Run} {s : Stand} (hbase : base.Within inner) (h : Above inner s) :
    Above base s := by
  refine ⟨hbase.trans h.1, fun hrun => ?_⟩
  have hle := hbase.length_le
  have hge := h.1.length_le
  rw [hrun] at hge
  have heq := hbase.eq_of_length hge
  exact h.2 (hrun.trans heq.symm)

/-- An evaluation that has ended feeds its exit to the run with which it began; until then the stand is above. -/
theorem not_feeds_of_above {base : Run} {s : Stand} (h : Above base s) (x : Exit Value Value) :
    ¬ s.Feeds base x := by
  rintro rfl
  obtain ⟨e, he⟩ := h.2 rfl
  cases x <;> cases he

/-- Whatever comes next on a run within the base, the evaluation goes on or has ended. -/
theorem above_or_feeds {base run : Run} (h : base.Within run) (next : Next) :
    Above base ⟨run, next⟩ ∨ ∃ x, Feeds base x ⟨run, next⟩ := by
  by_cases hrun : run = base
  · subst hrun
    cases next with
    | eval e => exact Or.inl (above_eval h e)
    | value v => exact Or.inr ⟨.value v, rfl⟩
    | cause c => exact Or.inr ⟨.cause c, rfl⟩
  · exact Or.inl ⟨h, fun heq => absurd heq hrun⟩

/-- The run of an outcome above the base is higher than the base. -/
theorem Above.run_ne {base run : Run} {next : Next} (h : Above base ⟨run, next⟩)
    (hnext : ∀ e, next ≠ .eval e) : run ≠ base := by
  intro hrun
  obtain ⟨e, he⟩ := h.2 hrun
  exact hnext e he

theorem Above.move {base : Run} {s s' : Stand} (h : Above base s) (hdeed : s.deed = .move s') :
    base.Within s'.run := by
  obtain ⟨run, next⟩ := s
  cases next with
  | eval e =>
    cases e with
    | chain source next =>
      cases hdeed
      exact h.1.chain next
    | fold source onValue onCause =>
      cases hdeed
      exact h.1.fold onValue onCause
    | region body status =>
      cases hdeed
      exact h.1.region status
    | currentLoop =>
      cases hdeed
      exact h.1
    | _ => cases hdeed
  | value v =>
    have hne : run ≠ base := h.run_ne fun e => Next.noConfusion
    obtain ⟨frames, masks⟩ := run
    cases frames with
    | nil => cases hdeed
    | cons frame rest =>
      cases frame with
      | region =>
        cases hdeed
        exact h.1.leave hne rfl
      | _ => cases hdeed
  | cause c =>
    have hne : run ≠ base := h.run_ne fun e => Next.noConfusion
    obtain ⟨frames, masks⟩ := run
    cases frames with
    | nil => cases hdeed
    | cons frame rest =>
      cases frame with
      | chain next =>
        cases hdeed
        exact h.1.pop hne rfl Frame.noConfusion
      | fold onValue onCause => cases hdeed
      | region =>
        cases hdeed
        exact h.1.leave hne rfl

theorem Above.call {base run' : Run} {s : Stand} {c : Call} (h : Above base s)
    (hdeed : s.deed = .call c run') : base.Within run' := by
  obtain ⟨run, next⟩ := s
  cases next with
  | eval e =>
    cases e with
    | succeeded v | caused c | complete x | suspend thunk =>
      cases hdeed
      exact h.1
    | _ => cases hdeed
  | value v =>
    have hne : run ≠ base := h.run_ne fun e => Next.noConfusion
    obtain ⟨frames, masks⟩ := run
    cases frames with
    | nil => cases hdeed
    | cons frame rest =>
      cases frame with
      | chain next | fold onValue onCause =>
        cases hdeed
        exact h.1.pop hne rfl Frame.noConfusion
      | region => cases hdeed
  | cause c =>
    have hne : run ≠ base := h.run_ne fun e => Next.noConfusion
    obtain ⟨frames, masks⟩ := run
    cases frames with
    | nil => cases hdeed
    | cons frame rest =>
      cases frame with
      | fold onValue onCause =>
        cases hdeed
        exact h.1.pop hne rfl Frame.noConfusion
      | _ => cases hdeed

/-- A stand above a run has not come to the end of the fiber's stack. -/
theorem Above.not_exit {base : Run} {s : Stand} (h : Above base s) (x : Exit Value Value) :
    s.deed ≠ .exit x := by
  intro hdeed
  obtain ⟨run, next⟩ := s
  cases next with
  | eval e => cases e <;> cases hdeed
  | value v =>
    have hlt := h.1.length_lt (h.run_ne fun e => Next.noConfusion)
    obtain ⟨frames, masks⟩ := run
    cases frames with
    | nil => exact absurd hlt (Nat.not_lt_zero _)
    | cons frame rest => cases frame <;> cases hdeed
  | cause c =>
    have hlt := h.1.length_lt (h.run_ne fun e => Next.noConfusion)
    obtain ⟨frames, masks⟩ := run
    cases frames with
    | nil => exact absurd hlt (Nat.not_lt_zero _)
    | cons frame rest => cases frame <;> cases hdeed

end Stand

/-- **A fiber above a run stays above it until it feeds an exit to exactly that run.** -/
theorem Leads.stays {base : Run} {s s' : Stand} {way : Way} (hleads : Leads s way s') (h : s.Above base) :
    s'.Above base ∨ ∃ x, s'.Feeds base x := by
  cases hleads with
  | move hdeed => exact Stand.above_or_feeds (h.move hdeed) s'.next
  | call hdeed w => exact Stand.above_or_feeds (h.call hdeed) _
  | cut hdeed hyields hmasks => exact Stand.above_or_feeds (h.call hdeed) _
  | cutWait hdeed hmasks => exact Stand.above_or_feeds h.1 _
  | ended hdeed ending hmasks => exact Stand.above_or_feeds h.1 _

theorem Leads.deed_of_call {s s' : Stand} {c : Call} (h : Leads s (.call c) s') :
    s.deed = .call c s'.run := by
  cases h with
  | call hdeed w => exact hdeed

/-- Above a run under an uninterruptible region no interrupt takes the place of anything. -/
theorem Leads.not_cut {base : Run} {s s' : Stand} {way : Way} (hleads : Leads s way s') (h : s.Above base)
    (hbase : base.masks.isInterruptible = false) : way ≠ .cut ∧ way ≠ .ended .interrupted := by
  cases hleads with
  | move hdeed => exact ⟨Way.noConfusion, Way.noConfusion⟩
  | call hdeed w => exact ⟨Way.noConfusion, Way.noConfusion⟩
  | cut hdeed hyields hmasks =>
    have hclosed := (h.call hdeed).not_interruptible hbase
    rw [hmasks] at hclosed
    cases hclosed
  | cutWait hdeed hmasks =>
    have hclosed := h.1.not_interruptible hbase
    rw [hmasks] at hclosed
    cases hclosed
  | ended hdeed ending hmasks =>
    refine ⟨Way.noConfusion, fun hway => ?_⟩
    cases hway
    have hclosed := h.1.not_interruptible hbase
    rw [hmasks rfl] at hclosed
    cases hclosed

end FiberLoop
