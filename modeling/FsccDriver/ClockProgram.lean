import FsccDriver.ClockBits
import FsccDriver.Registers
import FsccDriver.Lib.Clocked

/-!
# ClockProgram — the clock generator receives the bits it was sent

A receiver on the lines of one channel looks at its data line whenever its clock line goes up.
-/

namespace FsccDriver

open Clocked

/-! ## The lines of a channel -/

section Loop

variable {d c n : Nat} {value : BitVec 32}

end Loop

/-! ## The block of values -/

section Words

variable {channel : Nat} {origFcr : BitVec 32} {clockBits : List Byte}

end Words

/-! ## The block transfer -/

end FsccDriver
