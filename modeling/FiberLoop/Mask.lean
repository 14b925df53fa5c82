/-!
# Interrupt masks

Whether a fiber may be interrupted is decided by the regions it is inside: it may, unless some enclosing
region says otherwise. The stack keeps the *effective* status of each open region, so entering anything
under an uninterruptible region enters an uninterruptible one, and the top alone answers.
-/

namespace FiberLoop

/-- What a region asks for. -/
inductive Interruptibility where
  /-- Interrupt requests take effect at the next step. -/
  | interruptible
  /-- Interrupt requests wait until the region is left. -/
  | uninterruptible
deriving DecidableEq, Repr, Inhabited

namespace Interruptibility

def isInterruptible : Interruptibility → Bool
  | .interruptible => true
  | .uninterruptible => false

/-- The debug form. -/
def debug : Interruptibility → String
  | .interruptible => "Interruptible"
  | .uninterruptible => "Uninterruptible"

/-- The effective status of a region under an enclosing one. -/
def under (outer inner : Interruptibility) : Interruptibility :=
  match outer with
  | .interruptible => inner
  | .uninterruptible => .uninterruptible

end Interruptibility

/-- The effective statuses of the open regions, innermost first. -/
structure Masks where
  frames : List Interruptibility := []
deriving DecidableEq, Repr, Inhabited

namespace Masks

/-- The status that applies now; outside every region a fiber is interruptible. -/
def status (m : Masks) : Interruptibility := m.frames.headD .interruptible

def isInterruptible (m : Masks) : Bool := m.status.isInterruptible

/-- Enter a region. -/
def push (m : Masks) (asked : Interruptibility) : Masks :=
  ⟨m.status.under asked :: m.frames⟩

/-- Leave the innermost region; outside every region nothing happens. -/
def pop (m : Masks) : Masks := ⟨m.frames.tail⟩

/-- The number of open regions. -/
def depth (m : Masks) : Nat := m.frames.length

/-- The debug form lists the regions from the outermost to the innermost. -/
def debug (m : Masks) : String :=
  "MaskStack \x7b frames: [" ++ ", ".intercalate (m.frames.reverse.map Interruptibility.debug) ++ "] \x7d"

@[simp] theorem pop_push (m : Masks) (s : Interruptibility) : (m.push s).pop = m := rfl

@[simp] theorem depth_push (m : Masks) (s : Interruptibility) :
    (m.push s).depth = m.depth + 1 := rfl

/-- A region is interruptible exactly if it asks to be and so is everything around it. -/
theorem isInterruptible_push (m : Masks) (s : Interruptibility) :
    (m.push s).isInterruptible = (m.isInterruptible && s.isInterruptible) := by
  simp only [isInterruptible, status, push, List.headD_cons]
  cases m.frames.headD .interruptible <;> simp [Interruptibility.under, Interruptibility.isInterruptible]

/-- One step of a history of regions entered and left. -/
inductive Move where
  | enter (asked : Interruptibility)
  | leave
deriving DecidableEq, Repr

/-- Follow one step. -/
def move (m : Masks) : Move → Masks
  | .enter s => m.push s
  | .leave => m.pop

/-- The stacks after each step of a history. -/
def trail : Masks → List Move → List Masks
  | _, [] => []
  | m, step :: rest => m.move step :: (m.move step).trail rest

end Masks

end FiberLoop
