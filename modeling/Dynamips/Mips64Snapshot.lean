import Dynamips.Lib.LineReader
import Dynamips.Lib.Numerals
import Dynamips.Mips64Mts

/-! The state of a CPU written to a text file and read back from one
(`mips64_save_state` and `mips64_restore_state`), with the accesses beyond an array
that a text leads to. What they hit is not modelled. -/
set_option autoImplicit false

namespace Dynamips.Mips64
open LineReader Numerals

variable {W : Type}

def mips64GprRegNames : List String :=
  ["zr", "at", "v0", "v1", "a0", "a1", "a2", "a3", "t0", "t1", "t2", "t3", "t4", "t5", "t6", "t7",
    "s0", "s1", "s2", "s3", "s4", "s5", "s6", "s7", "t8", "t9", "k0", "k1", "gp", "sp", "fp", "ra"]

def mips64Cp0RegNames : List String :=
  ["index", "random", "entry_lo0", "entry_lo1", "context", "pagemask", "wired", "info",
    "badvaddr", "count", "entry_hi", "compare", "status", "cause", "epc", "prid", "config",
    "ll_addr", "watch_lo", "watch_hi", "xcontext", "cp0_r21", "cp0_r22", "cp0_r23", "cp0_r24",
    "cp0_r25", "ecc", "cache_err", "tag_lo", "tag_hi", "err_epc", "cp0_r31"]

def regName (names : List String) (reg : RegNum) : List Char := (names.getD reg.toNat "").toList

inductive TlbField where
  | mask
  | hi
  | lo0
  | lo1
deriving DecidableEq

def TlbField.name : TlbField → List Char
  | .mask => ['m', 'a', 's', 'k']
  | .hi => ['h', 'i']
  | .lo0 => ['l', 'o', '0']
  | .lo1 => ['l', 'o', '1']

inductive SavedSlot where
  | pc
  | lo
  | hi
  | gpr (reg : RegNum)
  | cp0 (reg : RegNum)
  | fpu (reg : RegNum)
  | tlb (index : Fin 64) (field : TlbField)
deriving DecidableEq

def TlbEntry.get (entry : TlbEntry) : TlbField → BitVec 64
  | .mask => entry.mask
  | .hi => entry.hi
  | .lo0 => entry.lo0
  | .lo1 => entry.lo1

def TlbEntry.set (entry : TlbEntry) (val : BitVec 64) : TlbField → TlbEntry
  | .mask => { entry with mask := val }
  | .hi => { entry with hi := val }
  | .lo0 => { entry with lo0 := val }
  | .lo1 => { entry with lo1 := val }

def Cpu.get (cpu : Cpu W) : SavedSlot → BitVec 64
  | .pc => cpu.pc
  | .lo => cpu.lo
  | .hi => cpu.hi
  | .gpr reg => cpu.gpr reg
  | .cp0 reg => cpu.cp0.reg reg
  | .fpu reg => cpu.fpu reg
  | .tlb i field => (cpu.cp0.tlb i).get field

def Cpu.set (cpu : Cpu W) (val : BitVec 64) : SavedSlot → Cpu W
  | .pc => { cpu with pc := val }
  | .lo => { cpu with lo := val }
  | .hi => { cpu with hi := val }
  | .gpr reg => cpu.setGpr reg val
  | .cp0 reg => cpu.setCp0 reg val
  | .fpu reg => { cpu with fpu := Function.update cpu.fpu reg val }
  | .tlb i field => cpu.setTlb i ((cpu.cp0.tlb i).set val field)

def decimal (n : Nat) : List Char := Nat.toDigits 10 n

def SavedSlot.name : SavedSlot → List Char
  | .pc => ['p', 'c']
  | .lo => ['l', 'o']
  | .hi => ['h', 'i']
  | .gpr reg => regName mips64GprRegNames reg
  | .cp0 reg => regName mips64Cp0RegNames reg
  | .fpu reg => ['f', 'p', 'u'] ++ decimal reg.toNat
  | .tlb i field => ['t', 'l', 'b'] ++ decimal i ++ '_' :: field.name

def cString (buffer : List Char) : List Char := buffer.takeWhile fun c => c ≠ '\x00'

end Dynamips.Mips64
