import FiberLoop.Evaluation

/-!
# Listening to a fiber's exit

A forked fiber has a notice. Listeners that come before the exit wait in it; the exit is told to all of them, one
after the other, and to each later listener at once. A listener that throws ends the telling.

Withdrawing a listener moves the last one into its place; `eraseFilling_perm` says that no other one is lost.
-/

namespace FiberLoop

/-- The list without the item at an index; the last item takes its place. -/
def eraseFilling {α : Type} (l : List α) (i : Nat) : List α :=
  match l.getLast? with
  | none => l
  | some last => if i + 1 = l.length then l.dropLast else (l.set i last).dropLast

theorem length_eraseFilling {α : Type} {l : List α} (h : l ≠ []) (i : Nat) :
    (eraseFilling l i).length = l.length - 1 := by
  unfold eraseFilling
  rw [List.getLast?_eq_some_getLast h]
  dsimp only
  split <;> simp

/-- Erasing in this way loses exactly the item at the index; only the order differs from plain erasure. -/
theorem eraseFilling_perm {α : Type} {l : List α} {i : Nat} (h : i < l.length) :
    (eraseFilling l i).Perm (l.eraseIdx i) := by
  have hne : l ≠ [] := by
    intro e
    simp [e] at h
  obtain ⟨front, last, rfl⟩ : ∃ front last, l = front ++ [last] :=
    ⟨l.dropLast, l.getLast hne, (List.dropLast_concat_getLast hne).symm⟩
  simp only [List.length_append, List.length_singleton] at h
  unfold eraseFilling
  simp only [List.getLast?_append, List.getLast?_singleton, Option.some_or, List.length_append,
    List.length_singleton]
  split
  · rename_i hi
    have hi : i = front.length := by omega
    subst hi
    simp [List.eraseIdx_append_of_length_le]
  · have hi : i < front.length := by omega
    rw [List.set_append_left _ _ hi, List.dropLast_concat, List.eraseIdx_append_of_lt_length hi]
    rw [List.set_eq_take_append_cons_drop, if_pos hi, List.eraseIdx_eq_take_drop_succ]
    rw [List.append_assoc]
    refine List.Perm.append_left _ ?_
    exact (List.perm_append_singleton last _).symm

namespace Listener

/-- Tell an exit to a listener. -/
def notify (listener : Listener) (exit : Exit Value Value) : Act Unit :=
  match listener with
  | .resume callback => Act.update (World.settle callback (.value (.exit exit)))
  | .report name => Act.update (World.log (.exited name exit))
  | .note tag => Act.update (World.log (.noted tag exit))
  | .actions body env => Action.runAll env none body

end Listener

namespace World

def notice? (w : World) (f : FiberId) : Option ExitNotice := (w.fiber? f).bind (·.notice)

def setNotice (f : FiberId) (notice : ExitNotice) (w : World) : World :=
  w.modifyFiber f fun r => { r with notice := some notice }

/-- Put the exit of a fiber into its notice and tell it to everybody who waits there. -/
def publish (f : FiberId) (exit : Exit Value Value) : Act Unit := do
  match (← get).notice? f with
  | some (.pending listeners _) =>
    Act.update (World.setNotice f (.done exit))
    listeners.forM fun listener => listener.2.notify exit
  | _ => return

/-- Listen to the exit of a fiber. The answer is the key under which the listener waits, or none if the exit was
there and has been told. -/
def listen (f : FiberId) (listener : Listener) : Act (Option Nat) := do
  match (← get).notice? f with
  | some (.pending listeners key) =>
    Act.update (World.setNotice f (.pending (listeners ++ [(key, listener)]) (key + 1)))
    return some key
  | some (.done exit) =>
    listener.notify exit
    return none
  | none => return none

/-- Withdraw a listener that waits under a key. -/
def withdraw (f : FiberId) (key : Nat) (w : World) : World :=
  match w.notice? f with
  | some (.pending listeners next) =>
    match listeners.findIdx? (·.1 == key) with
    | some i => w.setNotice f (.pending (eraseFilling listeners i) next)
    | none => w
  | _ => w

end World

end FiberLoop
