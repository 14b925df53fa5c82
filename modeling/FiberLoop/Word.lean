/-!
# Machine numbers

Counts and settings are natural numbers below `wordLimit`; the numbers of programs are in the signed range of the
same width (`inRange`). `wrapWord` takes any number into that range: `inRange_wrapWord` says that it gets there,
and `wrapWord_of_inRange` that a number which is there already stays as it is.
-/

namespace FiberLoop

/-- The bound below which machine numbers lie: the first number that takes more than 64 bits. -/
def wordLimit : Nat := 0x10000000000000000

/-- Whether a number is in the signed 64-bit range. -/
def inRange (n : Int) : Bool := -0x8000000000000000 ≤ n && n < 0x8000000000000000

/-- A number reduced to the signed 64-bit range. -/
def wrapWord (n : Int) : Int := n.bmod wordLimit

theorem inRange_iff {n : Int} : inRange n = true ↔ -0x8000000000000000 ≤ n ∧ n < 0x8000000000000000 := by
  simp [inRange]

theorem inRange_wrapWord (n : Int) : inRange (wrapWord n) = true := by
  rw [inRange_iff]
  simp only [wrapWord, wordLimit, Int.bmod_def]
  omega

theorem wrapWord_of_inRange {n : Int} (h : inRange n = true) : wrapWord n = n := by
  rw [inRange_iff] at h
  simp only [wrapWord, wordLimit, Int.bmod_def]
  omega

end FiberLoop
