import FiberLoop.Proofs.Runtime.Disregarding

/-!
# Definitions stay

The definitions of a session are given when it starts. Whatever happens later, no closure, no step of a fiber and no
caller from outside changes them.

The main result of this module is `Scene.Occurs.keepsDefinitions_play`.
-/

namespace FiberLoop

namespace World

/-- The definitions are the same. -/
def KeepsDefinitions (w w' : World) : Prop := w'.session.definitions = w.session.definitions

end World

instance : Disregards World.KeepsDefinitions where
  books _ h := h
  makeCell _ _ := rfl
  trans h h' := Eq.trans h' h

/-- Definitions are kept when something is written to a cell, too. -/
instance : TracksAll .everything (Keeping World.KeepsDefinitions) where
  setCell _ _ _ := Keeping.update fun _ => rfl

/-- **Nothing that happens in a run changes the definitions.** -/
theorem Scene.Occurs.keepsDefinitions_play {s : Scene} (h : s.Occurs) (stroke : Stroke) :
    s.moment.world.KeepsDefinitions (s.play stroke).moment.world :=
  Disregards.play h stroke fun _ _ _ c _ _ _ _ _ =>
    Disregards.caught ((Act.Keeps.call (R := World.KeepsDefinitions) c) _)

end FiberLoop
