import Dynamips.Mips64Run
import Dynamips.Mips64Snapshot
import Mathlib.Tactic.Ring

/-! What a restore brings back, what it leaves in effect, and the texts that it reads
without an access beyond an array. -/
set_option autoImplicit false

namespace Dynamips.Mips64
open LineReader Numerals

variable {W : Type} {saved cpu : Cpu W} {name : List Char} {val : BitVec 64}

end Dynamips.Mips64
