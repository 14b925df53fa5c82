import FiberLoop.Proofs.Permits.Confinement
import FiberLoop.Proofs.Runtime.Coverage

/-!
# Between two tasks

Between two tasks the loops change places, the clock moves, timers run that are due, and messages are handled that
concern no fiber. A property of worlds that is kept when the loops go on with no fiber and when an errand is run is
kept by all of it (`Steady.fireDue`, `Steady.takeQuiet`).
-/

namespace FiberLoop

namespace World

/-- A property of worlds between two tasks, which are inside a scope, that the loops and the errands keep. -/
structure Steady (V : Scope) (P : World → Prop) : Prop where
  confined : ∀ {w}, P w → w.Confined V
  quiet : ∀ {w}, P w → w.TimersQuiet
  /-- The loops go on with no fiber. -/
  tend : ∀ {w} {loop aside : EventLoop} (here : LoopName) (clock : Nat), P w → loop.In V → aside.In V →
    loop.TimersQuiet → aside.TimersQuiet → (∀ f, (loop.tokens f ++ aside.tokens f).Perm (w.tokens f)) →
    P { w with loop := loop, here := here, aside := aside, clock := clock }
  errand : ∀ {w} {task : Task}, P w → task.In V → task.isErrand = true → P (w.runTask task)

namespace Steady

variable {V : Scope} {P : World → Prop} (hP : Steady V P) {w : World}

include hP

theorem withLoop (h : P w) {loop : EventLoop} (hloop : loop.In V) (hquiet : loop.TimersQuiet)
    (htokens : ∀ f, loop.tokens f = w.loop.tokens f) : P { w with loop := loop } :=
  hP.tend w.here w.clock h hloop (hP.confined h).aside hquiet (hP.quiet h).aside fun f => by
    rw [htokens f]
    exact .refl _

theorem switch (h : P w) : P w.switch :=
  hP.tend _ w.clock h (hP.confined h).aside (hP.confined h).loop (hP.quiet h).aside (hP.quiet h).loop
    fun _ => List.perm_append_comm

theorem setClock (h : P w) (clock : Nat) : P { w with clock := clock } :=
  hP.tend w.here clock h (hP.confined h).loop (hP.confined h).aside (hP.quiet h).loop (hP.quiet h).aside fun _ => .refl _

theorem fireAll (h : P w) {due : List Timer} (hdue : ∀ t ∈ due, t.task.isErrand = true)
    (hin : ∀ t ∈ due, t.task.In V) : P (due.foldl fire w) := by
  induction due generalizing w with
  | nil => exact h
  | cons t rest ih =>
    obtain ⟨herrand, hrest⟩ := List.forall_mem_cons.1 hdue
    obtain ⟨htask, hrest'⟩ := List.forall_mem_cons.1 hin
    refine ih ?_ hrest hrest'
    unfold World.fire
    split
    · exact h
    · exact hP.errand h htask herrand

theorem fireDue (h : P w) : P w.fireDue := by
  have hlater (t : Timer) (ht : t ∈ w.loop.timers.dropWhile (·.deadline ≤ w.clock)) : t ∈ w.loop.timers :=
    (List.dropWhile_suffix _).subset ht
  have hdue (t : Timer) (ht : t ∈ w.loop.timers.takeWhile (·.deadline ≤ w.clock)) : t ∈ w.loop.timers :=
    (List.takeWhile_prefix _).subset ht
  have hrest : P { w with loop := { w.loop with timers := w.loop.timers.dropWhile (·.deadline ≤ w.clock) } } :=
    hP.withLoop h ⟨(hP.confined h).loop.inbox, fun t ht => (hP.confined h).loop.timers t (hlater t ht)⟩
      ⟨(hP.quiet h).loop.inbox, fun t ht => (hP.quiet h).loop.timers t (hlater t ht)⟩ fun _ => rfl
  exact hP.fireAll hrest (fun t ht => (hP.quiet h).loop.timers t (hdue t ht))
    fun t ht => (hP.confined h).loop.timers t (hdue t ht)

omit hP in
theorem confined_dropMessage (hw : w.Confined V) : w.dropMessage.Confined V :=
  hw.withLoop ⟨fun m hm => hw.loop.inbox m (List.mem_of_mem_tail hm), hw.loop.timers⟩

/-- A message is handled that concerns no fiber. -/
theorem takeQuiet (h : P w) {message : Message} {rest : List Message} (hinbox : w.loop.inbox = message :: rest)
    (hquiet : message.isQuiet = true) : P (w.dropMessage.handle message) := by
  have hdrop : P w.dropMessage := by
    refine hP.withLoop h (confined_dropMessage (hP.confined h)).loop (hP.quiet h).loop.drop fun f => ?_
    rw [EventLoop.tokens, EventLoop.tokens, hinbox, List.filterMap_cons, Message.token?_of_isQuiet hquiet f]
    rfl
  have hin : message.In V := (hP.confined h).loop.inbox _ (hinbox ▸ List.mem_cons_self)
  cases message with
  | task task => exact hP.errand hdrop hin hquiet
  | timer deadline timer task =>
    refine hP.withLoop hdrop ⟨(hP.confined hdrop).loop.inbox, fun t ht => ?_⟩
      ⟨(hP.quiet hdrop).loop.inbox, fun t ht => ?_⟩ fun _ => rfl
    · rcases Timer.mem_insert.1 ht with rfl | ht
      · exact hin
      · exact (hP.confined hdrop).loop.timers t ht
    · rcases Timer.mem_insert.1 ht with rfl | ht
      · exact hquiet
      · exact (hP.quiet hdrop).loop.timers t ht
  | shutdown =>
    exact hP.withLoop hdrop ⟨(hP.confined hdrop).loop.inbox, (hP.confined hdrop).loop.timers⟩
      ⟨(hP.quiet hdrop).loop.inbox, (hP.quiet hdrop).loop.timers⟩ fun _ => rfl

end Steady

end World

end FiberLoop
