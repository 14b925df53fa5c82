import FiberLoop.Fiber.Control

/-!
# Named things of a session

Globals, named fibers, definitions and kept callbacks. Callbacks under one key form a queue: the one that was
kept first is taken first.
-/

namespace FiberLoop

namespace World

def setGlobal (name : Name) (value : Value) (w : World) : World :=
  { w with session := { w.session with globals := (name, value) :: w.session.globals } }

/-- Give a fiber a name. -/
def nameFiber (name : Name) (f : FiberId) (w : World) : World :=
  { w with session := { w.session with fibers := w.session.fibers ++ [(name, f)] } }

/-- The first fiber that got a name. -/
def fiberNamed? (w : World) (name : Name) : Option FiberId := w.session.fibers.lookup name

/-- Keep a callback under a key, behind those that are there. -/
def keep (key : Name) (callback : Callback) (w : World) : World :=
  { w with session := { w.session with kept := w.session.kept ++ [(key, callback)] } }

/-- Take the oldest callback kept under a key. -/
def takeKept (key : Name) (w : World) : Option Callback × World :=
  (w.session.kept.lookup key,
    { w with session := { w.session with kept := w.session.kept.eraseP (·.1 == key) } })

/-- A callback that is kept waits behind those that are there under its key. -/
theorem takeKept_keep (w : World) (key : Name) (callback : Callback) :
    ((w.keep key callback).takeKept key).1 = (w.takeKept key).1.or (some callback) := by
  simp only [takeKept, keep]
  induction w.session.kept with
  | nil => simp
  | cons entry rest ih =>
    obtain ⟨name, cb⟩ := entry
    simp only [List.cons_append, List.lookup_cons]
    by_cases hname : key == name
    · simp [hname]
    · simp only [hname]
      exact ih

/-- The fiber of that name; without one the computation throws. -/
def fiberNamed (name : Name) : Act FiberId := do
  match (← get).fiberNamed? name with
  | some f => return f
  | none => Act.throwText ("no fiber " ++ name)

end World

end FiberLoop
