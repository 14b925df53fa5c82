import FiberLoop.World.Basic

/-!
# Cells

A cell holds one value at a time.
-/

namespace FiberLoop

namespace World

def cell? (w : World) (c : CellId) : Option Value := w.stores.cells.get? c.index

def setCell (c : CellId) (value : Value) (w : World) : World :=
  { w with stores := { w.stores with cells := w.stores.cells.set c.index value } }

/-- A new cell. -/
def makeCell (initial : Value) (w : World) : CellId × World :=
  (⟨w.stores.cells.size⟩,
    { w with stores := { w.stores with cells := w.stores.cells.push initial } })

/-- A cell that exists holds what was written last. -/
theorem cell?_setCell {w : World} {c : CellId} {old : Value} (h : w.cell? c = some old) (v : Value) :
    (w.setCell c v).cell? c = some v := by
  simp only [cell?] at h
  simp [cell?, setCell, Table.get?_set, h]

end World

end FiberLoop
