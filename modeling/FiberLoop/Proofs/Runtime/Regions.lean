import FiberLoop.Proofs.Runtime.Trail

/-!
# Open regions

Which regions a fiber is inside can be read off its trail: a step into a region opens it, and the step that takes
the frame of a region off leaves the innermost one. The masks of a run keep the effective status of each region
instead of what was asked for.

The main result of this module is `Linked.interruptible_iff`: a fiber is interruptible exactly if it is inside no
uninterruptible region.
-/

namespace FiberLoop

/-- What the regions ask for that are open after the step from a stand, innermost first. -/
def Stand.cross (s : Stand) (asked : List Interruptibility) : List Interruptibility :=
  match s.next, s.run.frames with
  | .eval (.region _ status), _ => status :: asked
  | .value _, .region :: _ => asked.tail
  | .cause _, .region :: _ => asked.tail
  | _, _ => asked

/-- What the regions ask for that are open at a step of a trail, innermost first. -/
def openRegions (t : List Step) (i : Nat) : List Interruptibility :=
  (t.take i).foldl (fun asked b => b.stand.cross asked) []

/-- The masks inside regions that ask for that, innermost first. -/
def Masks.inside : List Interruptibility → Masks
  | [] => {}
  | status :: outer => (inside outer).push status

/-- Inside regions a fiber is interruptible exactly if no region asks for the opposite. -/
theorem Masks.isInterruptible_inside (asked : List Interruptibility) :
    (inside asked).isInterruptible = true ↔ .uninterruptible ∉ asked := by
  induction asked with
  | nil => simp [inside, isInterruptible, status, Interruptibility.isInterruptible]
  | cons status outer ih =>
    rw [inside, isInterruptible_push, Bool.and_eq_true, ih]
    cases status <;> simp [Interruptibility.isInterruptible]

/-- A run inside regions that ask for that: each one has a frame and a mask. -/
inductive Run.Inside : List Interruptibility → Run → Prop where
  | empty : Inside [] {}
  | chain {asked : List Interruptibility} {run : Run} (h : Inside asked run) (next : Continuation) :
    Inside asked (run.push (.chain next))
  | fold {asked : List Interruptibility} {run : Run} (h : Inside asked run) (onValue : Continuation)
    (onCause : Recovery) : Inside asked (run.push (.fold onValue onCause))
  | region {asked : List Interruptibility} {run : Run} (h : Inside asked run) (status : Interruptibility) :
    Inside (status :: asked) (run.enter status)

section Inside

variable {asked : List Interruptibility} {run : Run} {s s' : Stand} {rest : List Frame}

theorem Run.Inside.masks (h : Inside asked run) : run.masks = Masks.inside asked := by
  induction h with
  | empty => rfl
  | chain _ next ih => exact ih
  | fold _ onValue onCause ih => exact ih
  | region _ status ih => rw [Masks.inside, ← ih, Run.enter]

theorem Run.Inside.pop {frame : Frame} (h : Inside asked run) (hframes : run.frames = frame :: rest)
    (hframe : frame ≠ .region) : Inside asked { run with frames := rest } := by
  cases h with
  | empty => cases hframes
  | chain h next =>
    cases hframes
    exact h
  | fold h onValue onCause =>
    cases hframes
    exact h
  | region h status =>
    cases hframes
    exact absurd rfl hframe

theorem Run.Inside.leave (h : Inside asked run) (hframes : run.frames = .region :: rest) :
    Inside asked.tail { frames := rest, masks := run.masks.pop } := by
  cases h with
  | empty => cases hframes
  | chain h next => cases hframes
  | fold h onValue onCause => cases hframes
  | region h status =>
    cases hframes
    exact h

theorem Run.Inside.move (h : Inside asked s.run) (hdeed : s.deed = .move s') :
    Inside (s.cross asked) s'.run := by
  obtain ⟨⟨frames, masks⟩, next⟩ := s
  cases next with
  | eval e =>
    cases e with
    | chain source next =>
      cases hdeed
      exact h.chain next
    | fold source onValue onCause =>
      cases hdeed
      exact h.fold onValue onCause
    | region body status =>
      cases hdeed
      exact h.region status
    | currentLoop =>
      cases hdeed
      exact h
    | _ => cases hdeed
  | value v =>
    cases frames with
    | nil => cases hdeed
    | cons frame rest =>
      cases frame with
      | region =>
        cases hdeed
        exact h.leave rfl
      | _ => cases hdeed
  | cause c =>
    cases frames with
    | nil => cases hdeed
    | cons frame rest =>
      cases frame with
      | chain next =>
        cases hdeed
        exact h.pop rfl Frame.noConfusion
      | fold onValue onCause => cases hdeed
      | region =>
        cases hdeed
        exact h.leave rfl

/-- A call takes no region off. -/
theorem Run.Inside.call {c : Call} {run' : Run} (h : Inside asked s.run) (hdeed : s.deed = .call c run') :
    Inside (s.cross asked) run' := by
  obtain ⟨⟨frames, masks⟩, next⟩ := s
  cases next with
  | eval e =>
    cases e with
    | succeeded v | caused c | complete x | suspend thunk =>
      cases hdeed
      exact h
    | _ => cases hdeed
  | value v =>
    cases frames with
    | nil => cases hdeed
    | cons frame rest =>
      cases frame with
      | region => cases hdeed
      | chain next | fold onValue onCause =>
        cases hdeed
        exact h.pop rfl Frame.noConfusion
  | cause c =>
    cases frames with
    | nil => cases hdeed
    | cons frame rest =>
      cases frame with
      | fold onValue onCause =>
        cases hdeed
        exact h.pop rfl Frame.noConfusion
      | _ => cases hdeed

theorem Run.Inside.register {r : Registration} (h : Inside asked s.run) (hdeed : s.deed = .register r) :
    Inside (s.cross asked) s.run := by
  obtain ⟨⟨frames, masks⟩, next⟩ := s
  cases next with
  | eval e =>
    cases e with
    | async registration => exact h
    | _ => cases hdeed
  | value v => cases frames with
    | nil => cases hdeed
    | cons frame rest => cases frame <;> cases hdeed
  | cause c => cases frames with
    | nil => cases hdeed
    | cons frame rest => cases frame <;> cases hdeed

/-- Every step of a fiber opens and leaves the regions that its trail says. -/
theorem Run.Inside.leads {way : Way} (h : Inside asked s.run) (hleads : Leads s way s') :
    Inside (s.cross asked) s'.run := by
  cases hleads with
  | move hdeed => exact h.move hdeed
  | call hdeed w => exact h.call hdeed
  | cut hdeed _ _ => exact h.call hdeed
  | cutWait hdeed _ => exact h.register hdeed
  | ended hdeed _ _ => exact h.register hdeed

end Inside

section Linked

variable {t : List Step} {i : Nat} {s : Stand} {root : Effect}

theorem openRegions_succ (h : standAt t i = some s) : openRegions t (i + 1) = s.cross (openRegions t i) := by
  unfold standAt at h
  obtain ⟨b, hb, rfl⟩ := Option.map_eq_some_iff.1 h
  simp only [openRegions, List.take_add_one, hb, Option.toList_some, List.foldl_append, List.foldl_cons,
    List.foldl_nil]

/-- Everywhere on a trail the run is inside the regions that are open. -/
theorem Linked.inside (h : Linked t) (hroot : standAt t 0 = some ⟨{}, .eval root⟩) (hs : standAt t i = some s) :
    Run.Inside (openRegions t i) s.run := by
  induction i generalizing s with
  | zero =>
    cases hroot.symm.trans hs
    exact .empty
  | succ i ih =>
    obtain ⟨b, hb, rfl⟩ := Option.map_eq_some_iff.1 hs
    have hlt : i < t.length := Nat.lt_of_succ_lt (List.getElem?_eq_some_iff.1 hb).1
    have hbefore : standAt t i = some t[i].stand := standAt_of_getElem? (List.getElem?_eq_getElem hlt)
    rw [openRegions_succ hbefore]
    exact (ih hbefore).leads (h i _ b hbefore hb)

/-- **A fiber is interruptible exactly if it is inside no uninterruptible region.** -/
theorem Linked.interruptible_iff (h : Linked t) (hroot : standAt t 0 = some ⟨{}, .eval root⟩)
    (hs : standAt t i = some s) :
    s.run.masks.isInterruptible = true ↔ .uninterruptible ∉ openRegions t i := by
  rw [(h.inside hroot hs).masks, Masks.isInterruptible_inside]

end Linked

end FiberLoop
