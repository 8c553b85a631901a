import Mathlib.Data.Int.Notation

/-!
# Frame ticks

The graphics subsystem measures its timeline in frames.  Ticks count frames; resources
of ticks that are completed may be released or used again.
-/

namespace Voxen.Gfx

/-- `FrameTickId`, a 64-bit number that does not get near its limits. -/
abbrev FrameTickId := Int

namespace FrameTickId

/-- `FrameTickId::INVALID`; all negative values are invalid. -/
def invalid : FrameTickId := -1

def valid (tick : FrameTickId) : Bool := decide (0 ≤ tick)

end FrameTickId

namespace Consts

/-- `MAX_PENDING_FRAMES`. -/
abbrev maxPendingFrames : Nat := 3

end Consts

end Voxen.Gfx
