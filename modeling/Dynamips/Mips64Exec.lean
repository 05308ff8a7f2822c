import Dynamips.Mips64Mem

/-! The step-by-step interpreter of mips64_exec.c: the opcodes, the instruction
array, the delay slot and the main loop. -/
set_option autoImplicit false

namespace Dynamips.Mips64

def rs (insn : Insn) : RegNum := (bits insn 21 25).setWidth 5

def rt (insn : Insn) : RegNum := (bits insn 16 20).setWidth 5

def rd (insn : Insn) : RegNum := (bits insn 11 15).setWidth 5

def sa (insn : Insn) : Nat := (bits insn 6 10).toNat

def imm (insn : Insn) : BitVec 64 := (bits insn 0 15).setWidth 64

/-- `sign_extend(imm,16)` -/
def simm (insn : Insn) : BitVec 64 := signExtend (imm insn) 16

def lo32 (x : BitVec 64) : BitVec 32 := x.setWidth 32

def sext32 (x : BitVec 32) : BitVec 64 := signExtend (x.setWidth 64) 32

def opRd (op : BitVec 64 → BitVec 64 → BitVec 64) (r : Regs) (insn : Insn) : Option Regs :=
  some (r.setGpr (rd insn) (op (r.gpr (rs insn)) (r.gpr (rt insn))))

def opRt (op : BitVec 64 → Insn → BitVec 64) (r : Regs) (insn : Insn) : Option Regs :=
  some (r.setGpr (rt insn) (op (r.gpr (rs insn)) insn))

def opSa (op : BitVec 64 → Nat → BitVec 64) (r : Regs) (insn : Insn) : Option Regs :=
  some (r.setGpr (rd insn) (op (r.gpr (rt insn)) (sa insn)))

def execADD := opRd fun a b => sext32 (lo32 a + lo32 b)

def execADDI := opRt fun a insn => sext32 (lo32 a + lo32 (simm insn))

def execADDIU := opRt fun a insn => sext32 (lo32 a + lo32 (simm insn))

def execADDU := opRd fun a b => sext32 (lo32 a + lo32 b)

def execAND := opRd fun a b => a &&& b

def execANDI := opRt fun a insn => a &&& imm insn

def execDADDIU := opRt fun a insn => a + simm insn

def execDADDU := opRd fun a b => a + b

/-- The host traps a division by zero and a quotient that has no representation. -/
def execDIV (r : Regs) (insn : Insn) : Option Regs :=
  let a := lo32 (r.gpr (rs insn))
  let b := lo32 (r.gpr (rt insn))
  if b = 0 ∨ (a = 0x80000000 ∧ b = 0xffffffff) then none
  else some { r with lo := sext32 (a.sdiv b), hi := sext32 (a.srem b) }

def execDIVU (r : Regs) (insn : Insn) : Option Regs :=
  let a := lo32 (r.gpr (rs insn))
  let b := lo32 (r.gpr (rt insn))
  if r.gpr (rt insn) = 0 then some r
  else if b = 0 then none
  else some { r with lo := sext32 (a / b), hi := sext32 (a % b) }

def execDSLL := opSa fun a n => a <<< n

def execDSLL32 := opSa fun a n => a <<< (32 + n)

def execDSLLV := opRd fun a b => b <<< (a &&& 0x3f).toNat

def execDSRA := opSa fun a n => a.sshiftRight n

def execDSRA32 := opSa fun a n => a.sshiftRight (32 + n)

def execDSRAV := opRd fun a b => b.sshiftRight (a &&& 0x3f).toNat

def execDSRL := opSa fun a n => a >>> n

def execDSRL32 := opSa fun a n => a >>> (32 + n)

def execDSRLV := opRd fun a b => b >>> (a &&& 0x3f).toNat

def execDSUBU := opRd fun a b => a - b

def execLI := opRt fun _ insn => simm insn

def execLUI := opRt fun _ insn => simm insn <<< 16

def execMFHI (r : Regs) (insn : Insn) : Option Regs :=
  some (if rd insn ≠ 0 then r.setGpr (rd insn) r.hi else r)

def execMFLO (r : Regs) (insn : Insn) : Option Regs :=
  some (if rd insn ≠ 0 then r.setGpr (rd insn) r.lo else r)

def execMOVE := opRd fun a _ => signExtend a 32

def execMTHI (r : Regs) (insn : Insn) : Option Regs := some { r with hi := r.gpr (rs insn) }

def execMTLO (r : Regs) (insn : Insn) : Option Regs := some { r with lo := r.gpr (rs insn) }

def execMUL := opRd fun a b => sext32 (lo32 a * lo32 b)

def execMULT (r : Regs) (insn : Insn) : Option Regs :=
  let val := sext32 (lo32 (r.gpr (rs insn))) * sext32 (lo32 (r.gpr (rt insn)))
  some { r with lo := signExtend val 32, hi := signExtend (val.sshiftRight 32) 32 }

def execMULTU (r : Regs) (insn : Insn) : Option Regs :=
  let val := (lo32 (r.gpr (rs insn))).setWidth 64 * (lo32 (r.gpr (rt insn))).setWidth 64
  some { r with lo := signExtend val 32, hi := signExtend (val >>> 32) 32 }

def execNOP (r : Regs) (_ : Insn) : Option Regs := some r

def execNOR := opRd fun a b => ~~~(a ||| b)

def execOR := opRd fun a b => a ||| b

def execORI := opRt fun a insn => a ||| imm insn

def execPREF (r : Regs) (_ : Insn) : Option Regs := some r

def execPREFI (r : Regs) (_ : Insn) : Option Regs := some r

def execSLL := opSa fun a n => sext32 (lo32 a <<< n)

def execSLLV := opRd fun a b => sext32 (lo32 b <<< (a &&& 0x1f).toNat)

def execSLT := opRd fun a b => if a.slt b then 1 else 0

def execSLTI := opRt fun a insn => if a.slt (simm insn) then 1 else 0

def execSLTIU := opRt fun a insn => if a < simm insn then 1 else 0

def execSLTU := opRd fun a b => if a < b then 1 else 0

def execSRA := opSa fun a n => sext32 ((lo32 a).sshiftRight n)

def execSRAV := opRd fun a b => sext32 ((lo32 b).sshiftRight (a &&& 0x1f).toNat)

def execSRL := opSa fun a n => sext32 (lo32 a >>> n)

def execSRLV := opRd fun a b => sext32 (lo32 b >>> (a &&& 0x1f).toNat)

def execSUB := opRd fun a b => sext32 (lo32 a - lo32 b)

def execSUBU := opRd fun a b => sext32 (lo32 a - lo32 b)

def execSYNC (r : Regs) (_ : Insn) : Option Regs := some r

def execXOR := opRd fun a b => a ^^^ b

def execXORI := opRt fun a insn => a ^^^ imm insn

/-- What a branch or jump does around its delay slot: the registers that the
slot starts with, and where the pc goes if `res` holds. The slot of a branch
likely is only executed when the branch is taken. -/
structure Branch where
  regs : Regs
  newPc : BitVec 64
  res : Bool
  likely : Bool

def branchPc (pc : BitVec 64) (insn : Insn) : BitVec 64 :=
  (pc + 4) + signExtend (((bits insn 0 15) <<< 2).setWidth 64) 18

def branchIf (link likely : Bool) (cond : Regs → Insn → Bool) (r : Regs) (pc : BitVec 64)
    (insn : Insn) : Branch :=
  let r := if link then r.setGpr mipsGprRa (pc + 8) else r
  { regs := r, newPc := branchPc pc insn, res := cond r insn, likely := likely }

def execB := branchIf false false fun _ _ => true

def execBAL := branchIf true false fun _ _ => true

def execBEQ := branchIf false false fun r insn => r.gpr (rs insn) == r.gpr (rt insn)

def execBEQL := branchIf false true fun r insn => r.gpr (rs insn) == r.gpr (rt insn)

def execBEQZ := branchIf false false fun r insn => r.gpr (rs insn) == 0

def execBNEZ := branchIf false false fun r insn => r.gpr (rs insn) != 0

def execBGEZ := branchIf false false fun r insn => BitVec.sle 0 (r.gpr (rs insn))

def execBGEZAL := branchIf true false fun r insn => BitVec.sle 0 (r.gpr (rs insn))

def execBGEZALL := branchIf true true fun r insn => BitVec.sle 0 (r.gpr (rs insn))

def execBGEZL := branchIf false true fun r insn => BitVec.sle 0 (r.gpr (rs insn))

def execBGTZ := branchIf false false fun r insn => BitVec.slt 0 (r.gpr (rs insn))

def execBGTZL := branchIf false true fun r insn => BitVec.slt 0 (r.gpr (rs insn))

def execBLEZ := branchIf false false fun r insn => BitVec.sle (r.gpr (rs insn)) 0

def execBLEZL := branchIf false true fun r insn => BitVec.sle (r.gpr (rs insn)) 0

def execBLTZ := branchIf false false fun r insn => BitVec.slt (r.gpr (rs insn)) 0

def execBLTZAL := branchIf true false fun r insn => BitVec.slt (r.gpr (rs insn)) 0

def execBLTZALL := branchIf true true fun r insn => BitVec.slt (r.gpr (rs insn)) 0

def execBLTZL := branchIf false true fun r insn => BitVec.slt (r.gpr (rs insn)) 0

def execBNE := branchIf false false fun r insn => r.gpr (rs insn) != r.gpr (rt insn)

def execBNEL := branchIf false true fun r insn => r.gpr (rs insn) != r.gpr (rt insn)

def jump (r : Regs) (newPc : BitVec 64) : Branch :=
  { regs := r, newPc := newPc, res := true, likely := false }

def jumpPc (pc : BitVec 64) (insn : Insn) : BitVec 64 :=
  (pc &&& ~~~(0xfffffff : BitVec 64)) ||| ((bits insn 0 25) <<< 2).setWidth 64

def execJ (r : Regs) (pc : BitVec 64) (insn : Insn) : Branch := jump r (jumpPc pc insn)

def execJAL (r : Regs) (pc : BitVec 64) (insn : Insn) : Branch :=
  jump (r.setGpr mipsGprRa (pc + 8)) (jumpPc pc insn)

def execJALR (r : Regs) (pc : BitVec 64) (insn : Insn) : Branch :=
  let r := r.setGpr (rd insn) (pc + 8)
  jump r (r.gpr (rs insn))

def execJR (r : Regs) (_ : BitVec 64) (insn : Insn) : Branch := jump r (r.gpr (rs insn))

/-- The arguments that an opcode gives to `mips64_exec_memop2`. -/
structure MemInsn where
  memop : MemOp
  keepLlBit : Bool

def execCACHE : MemInsn := ⟨.cache, false⟩

def execLB : MemInsn := ⟨.lb, true⟩

def execLBU : MemInsn := ⟨.lbu, true⟩

def execLD : MemInsn := ⟨.ld, true⟩

def execLDC1 : MemInsn := ⟨.ldc1, true⟩

def execLDL : MemInsn := ⟨.ldl, true⟩

def execLDR : MemInsn := ⟨.ldr, true⟩

def execLH : MemInsn := ⟨.lh, true⟩

def execLHU : MemInsn := ⟨.lhu, true⟩

def execLL : MemInsn := ⟨.ll, true⟩

def execLW : MemInsn := ⟨.lw, true⟩

def execLWL : MemInsn := ⟨.lwl, true⟩

def execLWR : MemInsn := ⟨.lwr, true⟩

def execLWU : MemInsn := ⟨.lwu, true⟩

def execSB : MemInsn := ⟨.sb, false⟩

def execSC : MemInsn := ⟨.sc, true⟩

def execSD : MemInsn := ⟨.sd, false⟩

def execSDC1 : MemInsn := ⟨.sdc1, false⟩

def execSDL : MemInsn := ⟨.sdl, false⟩

def execSDR : MemInsn := ⟨.sdr, false⟩

def execSH : MemInsn := ⟨.sh, false⟩

def execSW : MemInsn := ⟨.sw, false⟩

def execSWL : MemInsn := ⟨.swl, false⟩

def execSWR : MemInsn := ⟨.swr, false⟩

variable {W : Type}

def execMemop2 (env : Env W) (cpu : Cpu W) (m : MemInsn) (base : RegNum) (offset : BitVec 64)
    (dstReg : RegNum) : Outcome W Unit :=
  let vaddr := cpu.gpr base + signExtend offset 16
  let cpu := if m.keepLlBit then cpu else { cpu with llBit := 0 }
  memOpFn m.memop env cpu vaddr dstReg

def execCFC0 (cpu : Cpu W) (insn : Insn) : Option (Cpu W) :=
  some (cp0ExecCfc0 cpu (rt insn) (rd insn))

def execCTC0 (cpu : Cpu W) (insn : Insn) : Option (Cpu W) :=
  some (cp0ExecCtc0 cpu (rt insn) (rd insn))

def execDMFC0 (cpu : Cpu W) (insn : Insn) : Option (Cpu W) := cp0ExecDmfc0 cpu (rt insn) (rd insn)

def execDMTC0 (cpu : Cpu W) (insn : Insn) : Option (Cpu W) := cp0ExecDmtc0 cpu (rt insn) (rd insn)

def execMFC0 (cpu : Cpu W) (insn : Insn) : Option (Cpu W) := cp0ExecMfc0 cpu (rt insn) (rd insn)

def execMTC0 (cpu : Cpu W) (insn : Insn) : Option (Cpu W) := cp0ExecMtc0 cpu (rt insn) (rd insn)

def execTLBP (cpu : Cpu W) (_ : Insn) : Option (Cpu W) := some (cp0ExecTlbp cpu)

def execTLBR (cpu : Cpu W) (_ : Insn) : Option (Cpu W) := some (cp0ExecTlbr cpu)

def execTLBWI (cpu : Cpu W) (_ : Insn) : Option (Cpu W) := some (cp0ExecTlbwi cpu)

def execTLBWR (cpu : Cpu W) (_ : Insn) : Option (Cpu W) := cp0ExecTlbwr cpu

def Cpu.setFpu (cpu : Cpu W) (reg : RegNum) (val : BitVec 64) : Cpu W :=
  { cpu with fpu := Function.update cpu.fpu reg val }

def execDMFC1 (cpu : Cpu W) (insn : Insn) : Option (Cpu W) :=
  some (cpu.setGpr (rt insn) (cpu.fpu (rd insn)))

def execDMTC1 (cpu : Cpu W) (insn : Insn) : Option (Cpu W) :=
  some (cpu.setFpu (rd insn) (cpu.gpr (rt insn)))

def execMFC1 (cpu : Cpu W) (insn : Insn) : Option (Cpu W) :=
  some (cpu.setGpr (rt insn) (signExtend (cpu.fpu (rd insn) &&& 0xffffffff) 32))

def execMTC1 (cpu : Cpu W) (insn : Insn) : Option (Cpu W) :=
  some (cpu.setFpu (rd insn) (cpu.gpr (rt insn) &&& 0xffffffff))

def execERET (cpu : Cpu W) (_ : Insn) : Bool × Cpu W := (true, eret cpu)

def execSYSCALL (cpu : Cpu W) (_ : Insn) : Bool × Cpu W :=
  (true, triggerException cpu .syscall false)

def trapIfEq (cpu : Cpu W) (a b : BitVec 64) : Bool × Cpu W :=
  if a = b then (true, triggerException cpu .trap false) else (false, cpu)

def execTEQ (cpu : Cpu W) (insn : Insn) : Bool × Cpu W :=
  trapIfEq cpu (cpu.gpr (rs insn)) (cpu.gpr (rt insn))

def execTEQI (cpu : Cpu W) (insn : Insn) : Bool × Cpu W :=
  trapIfEq cpu (cpu.gpr (rs insn)) (simm insn)

/-- What `mips64_dump_regs` does beside printing: it looks the pc up and reads
every CP0 register. -/
def dumpRegs (env : Env W) (cpu : Cpu W) : Outcome W Unit :=
  (mtsLookup env cpu cpu.pc).bind fun _ cpu =>
    match cp0GetRandomReg cpu with
    | some _ => .done () cpu
    | none => .fault

def execBREAK (env : Env W) (cpu : Cpu W) (_ : Insn) : Outcome W Bool :=
  (dumpRegs env cpu).bind fun _ cpu => .done true (triggerException cpu .bp false)

def execUnknown (env : Env W) (cpu : Cpu W) (_ : Insn) : Outcome W Bool :=
  (dumpRegs env cpu).bind fun _ cpu => .done false cpu

/-- The opcodes by what they can touch: the registers alone, the pc through a
delay slot, the coprocessors, the exception state, the memory. -/
inductive InsnExec (W : Type) where
  | alu (f : Regs → Insn → Option Regs)
  | branch (f : Regs → BitVec 64 → Insn → Branch)
  | cop (f : Cpu W → Insn → Option (Cpu W))
  | ctl (f : Cpu W → Insn → Bool × Cpu W)
  | dump (f : Env W → Cpu W → Insn → Outcome W Bool)
  | mem (m : MemInsn)

/-- `struct mips64_insn_exec_tag` -/
structure ExecTag (W : Type) where
  name : String
  exec : InsnExec W
  mask : BitVec 32
  value : BitVec 32

def mips64ExecTags : List (ExecTag W) := [
    ⟨"li", .alu execLI, 0xffe00000, 0x24000000⟩,
    ⟨"move", .alu execMOVE, 0xfc1f07ff, 0x00000021⟩,
    ⟨"b", .branch execB, 0xffff0000, 0x10000000⟩,
    ⟨"bal", .branch execBAL, 0xffff0000, 0x04110000⟩,
    ⟨"beqz", .branch execBEQZ, 0xfc1f0000, 0x10000000⟩,
    ⟨"bnez", .branch execBNEZ, 0xfc1f0000, 0x14000000⟩,
    ⟨"add", .alu execADD, 0xfc0007ff, 0x00000020⟩,
    ⟨"addi", .alu execADDI, 0xfc000000, 0x20000000⟩,
    ⟨"addiu", .alu execADDIU, 0xfc000000, 0x24000000⟩,
    ⟨"addu", .alu execADDU, 0xfc0007ff, 0x00000021⟩,
    ⟨"and", .alu execAND, 0xfc0007ff, 0x00000024⟩,
    ⟨"andi", .alu execANDI, 0xfc000000, 0x30000000⟩,
    ⟨"beq", .branch execBEQ, 0xfc000000, 0x10000000⟩,
    ⟨"beql", .branch execBEQL, 0xfc000000, 0x50000000⟩,
    ⟨"bgez", .branch execBGEZ, 0xfc1f0000, 0x04010000⟩,
    ⟨"bgezal", .branch execBGEZAL, 0xfc1f0000, 0x04110000⟩,
    ⟨"bgezall", .branch execBGEZALL, 0xfc1f0000, 0x04130000⟩,
    ⟨"bgezl", .branch execBGEZL, 0xfc1f0000, 0x04030000⟩,
    ⟨"bgtz", .branch execBGTZ, 0xfc1f0000, 0x1c000000⟩,
    ⟨"bgtzl", .branch execBGTZL, 0xfc1f0000, 0x5c000000⟩,
    ⟨"blez", .branch execBLEZ, 0xfc1f0000, 0x18000000⟩,
    ⟨"blezl", .branch execBLEZL, 0xfc1f0000, 0x58000000⟩,
    ⟨"bltz", .branch execBLTZ, 0xfc1f0000, 0x04000000⟩,
    ⟨"bltzal", .branch execBLTZAL, 0xfc1f0000, 0x04100000⟩,
    ⟨"bltzall", .branch execBLTZALL, 0xfc1f0000, 0x04120000⟩,
    ⟨"bltzl", .branch execBLTZL, 0xfc1f0000, 0x04020000⟩,
    ⟨"bne", .branch execBNE, 0xfc000000, 0x14000000⟩,
    ⟨"bnel", .branch execBNEL, 0xfc000000, 0x54000000⟩,
    ⟨"break", .dump execBREAK, 0xfc00003f, 0x0000000d⟩,
    ⟨"cache", .mem execCACHE, 0xfc000000, 0xbc000000⟩,
    ⟨"cfc0", .cop execCFC0, 0xffe007ff, 0x40400000⟩,
    ⟨"ctc0", .cop execCTC0, 0xffe007ff, 0x40600000⟩,
    ⟨"daddiu", .alu execDADDIU, 0xfc000000, 0x64000000⟩,
    ⟨"daddu", .alu execDADDU, 0xfc0007ff, 0x0000002d⟩,
    ⟨"div", .alu execDIV, 0xfc00ffff, 0x0000001a⟩,
    ⟨"divu", .alu execDIVU, 0xfc00ffff, 0x0000001b⟩,
    ⟨"dmfc0", .cop execDMFC0, 0xffe007f8, 0x40200000⟩,
    ⟨"dmfc1", .cop execDMFC1, 0xffe007ff, 0x44200000⟩,
    ⟨"dmtc0", .cop execDMTC0, 0xffe007f8, 0x40a00000⟩,
    ⟨"dmtc1", .cop execDMTC1, 0xffe007ff, 0x44a00000⟩,
    ⟨"dsll", .alu execDSLL, 0xffe0003f, 0x00000038⟩,
    ⟨"dsll32", .alu execDSLL32, 0xffe0003f, 0x0000003c⟩,
    ⟨"dsllv", .alu execDSLLV, 0xfc0007ff, 0x00000014⟩,
    ⟨"dsra", .alu execDSRA, 0xffe0003f, 0x0000003b⟩,
    ⟨"dsra32", .alu execDSRA32, 0xffe0003f, 0x0000003f⟩,
    ⟨"dsrav", .alu execDSRAV, 0xfc0007ff, 0x00000017⟩,
    ⟨"dsrl", .alu execDSRL, 0xffe0003f, 0x0000003a⟩,
    ⟨"dsrl32", .alu execDSRL32, 0xffe0003f, 0x0000003e⟩,
    ⟨"dsrlv", .alu execDSRLV, 0xfc0007ff, 0x00000016⟩,
    ⟨"dsubu", .alu execDSUBU, 0xfc0007ff, 0x0000002f⟩,
    ⟨"eret", .ctl execERET, 0xffffffff, 0x42000018⟩,
    ⟨"j", .branch execJ, 0xfc000000, 0x08000000⟩,
    ⟨"jal", .branch execJAL, 0xfc000000, 0x0c000000⟩,
    ⟨"jalr", .branch execJALR, 0xfc1f003f, 0x00000009⟩,
    ⟨"jr", .branch execJR, 0xfc1ff83f, 0x00000008⟩,
    ⟨"lb", .mem execLB, 0xfc000000, 0x80000000⟩,
    ⟨"lbu", .mem execLBU, 0xfc000000, 0x90000000⟩,
    ⟨"ld", .mem execLD, 0xfc000000, 0xdc000000⟩,
    ⟨"ldc1", .mem execLDC1, 0xfc000000, 0xd4000000⟩,
    ⟨"ldl", .mem execLDL, 0xfc000000, 0x68000000⟩,
    ⟨"ldr", .mem execLDR, 0xfc000000, 0x6c000000⟩,
    ⟨"lh", .mem execLH, 0xfc000000, 0x84000000⟩,
    ⟨"lhu", .mem execLHU, 0xfc000000, 0x94000000⟩,
    ⟨"ll", .mem execLL, 0xfc000000, 0xc0000000⟩,
    ⟨"lui", .alu execLUI, 0xffe00000, 0x3c000000⟩,
    ⟨"lw", .mem execLW, 0xfc000000, 0x8c000000⟩,
    ⟨"lwl", .mem execLWL, 0xfc000000, 0x88000000⟩,
    ⟨"lwr", .mem execLWR, 0xfc000000, 0x98000000⟩,
    ⟨"lwu", .mem execLWU, 0xfc000000, 0x9c000000⟩,
    ⟨"mfc0", .cop execMFC0, 0xffe007ff, 0x40000000⟩,
    ⟨"mfc0_1", .cop execCFC0, 0xffe007ff, 0x40000001⟩,
    ⟨"mfc1", .cop execMFC1, 0xffe007ff, 0x44000000⟩,
    ⟨"mfhi", .alu execMFHI, 0xffff07ff, 0x00000010⟩,
    ⟨"mflo", .alu execMFLO, 0xffff07ff, 0x00000012⟩,
    ⟨"mtc0", .cop execMTC0, 0xffe007ff, 0x40800000⟩,
    ⟨"mtc1", .cop execMTC1, 0xffe007ff, 0x44800000⟩,
    ⟨"mthi", .alu execMTHI, 0xfc1fffff, 0x00000011⟩,
    ⟨"mtlo", .alu execMTLO, 0xfc1fffff, 0x00000013⟩,
    ⟨"mul", .alu execMUL, 0xfc0007ff, 0x70000002⟩,
    ⟨"mult", .alu execMULT, 0xfc00ffff, 0x00000018⟩,
    ⟨"multu", .alu execMULTU, 0xfc00ffff, 0x00000019⟩,
    ⟨"nop", .alu execNOP, 0xffffffff, 0x00000000⟩,
    ⟨"nor", .alu execNOR, 0xfc0007ff, 0x00000027⟩,
    ⟨"or", .alu execOR, 0xfc0007ff, 0x00000025⟩,
    ⟨"ori", .alu execORI, 0xfc000000, 0x34000000⟩,
    ⟨"pref", .alu execPREF, 0xfc000000, 0xcc000000⟩,
    ⟨"prefi", .alu execPREFI, 0xfc0007ff, 0x4c00000f⟩,
    ⟨"sb", .mem execSB, 0xfc000000, 0xa0000000⟩,
    ⟨"sc", .mem execSC, 0xfc000000, 0xe0000000⟩,
    ⟨"sd", .mem execSD, 0xfc000000, 0xfc000000⟩,
    ⟨"sdc1", .mem execSDC1, 0xfc000000, 0xf4000000⟩,
    ⟨"sdl", .mem execSDL, 0xfc000000, 0xb0000000⟩,
    ⟨"sdr", .mem execSDR, 0xfc000000, 0xb4000000⟩,
    ⟨"sh", .mem execSH, 0xfc000000, 0xa4000000⟩,
    ⟨"sll", .alu execSLL, 0xffe0003f, 0x00000000⟩,
    ⟨"sllv", .alu execSLLV, 0xfc0007ff, 0x00000004⟩,
    ⟨"slt", .alu execSLT, 0xfc0007ff, 0x0000002a⟩,
    ⟨"slti", .alu execSLTI, 0xfc000000, 0x28000000⟩,
    ⟨"sltiu", .alu execSLTIU, 0xfc000000, 0x2c000000⟩,
    ⟨"sltu", .alu execSLTU, 0xfc0007ff, 0x0000002b⟩,
    ⟨"sra", .alu execSRA, 0xffe0003f, 0x00000003⟩,
    ⟨"srav", .alu execSRAV, 0xfc0007ff, 0x00000007⟩,
    ⟨"srl", .alu execSRL, 0xffe0003f, 0x00000002⟩,
    ⟨"srlv", .alu execSRLV, 0xfc0007ff, 0x00000006⟩,
    ⟨"sub", .alu execSUB, 0xfc0007ff, 0x00000022⟩,
    ⟨"subu", .alu execSUBU, 0xfc0007ff, 0x00000023⟩,
    ⟨"sw", .mem execSW, 0xfc000000, 0xac000000⟩,
    ⟨"swl", .mem execSWL, 0xfc000000, 0xa8000000⟩,
    ⟨"swr", .mem execSWR, 0xfc000000, 0xb8000000⟩,
    ⟨"sync", .alu execSYNC, 0xfffff83f, 0x0000000f⟩,
    ⟨"syscall", .ctl execSYSCALL, 0xfc00003f, 0x0000000c⟩,
    ⟨"teq", .ctl execTEQ, 0xfc00003f, 0x00000034⟩,
    ⟨"teqi", .ctl execTEQI, 0xfc1f0000, 0x040c0000⟩,
    ⟨"tlbp", .cop execTLBP, 0xffffffff, 0x42000008⟩,
    ⟨"tlbr", .cop execTLBR, 0xffffffff, 0x42000001⟩,
    ⟨"tlbwi", .cop execTLBWI, 0xffffffff, 0x42000002⟩,
    ⟨"tlbwr", .cop execTLBWR, 0xffffffff, 0x42000006⟩,
    ⟨"xor", .alu execXOR, 0xfc0007ff, 0x00000026⟩,
    ⟨"xori", .alu execXORI, 0xfc000000, 0x38000000⟩,
    ⟨"unknown", .dump execUnknown, 0x00000000, 0x00000000⟩]

def ExecTag.covers (tag : ExecTag W) (insn : Insn) : Bool := insn &&& tag.mask == tag.value

/-- The opcode that `ilt_lookup` finds; the last entry of the array takes what
no other entry takes. -/
def execOf (insn : Insn) : InsnExec W :=
  match mips64ExecTags.find? (ExecTag.covers · insn) with
  | some tag => tag.exec
  | none => .dump execUnknown

/-- `mips64_exec_fetch`; a page without a host address cannot be read. -/
def execFetch (env : Env W) (cpu : Cpu W) (pc : BitVec 64) : Outcome W Insn :=
  let execPage := pc &&& ~~~mipsMinPageImask
  let page :=
    if execPage ≠ cpu.njmExecPage then
      (mtsLookup env { cpu with njmExecPage := execPage } execPage).bind fun ptr cpu =>
        .done () { cpu with njmExecPtr := ptr }
    else .done () cpu
  page.bind fun _ cpu =>
    let offset := (pc &&& mipsMinPageImask) >>> 2
    match cpu.njmExecPtr with
    | some ptr => .done ((vmLoad cpu.vm.mem (ptr + offset * 4) 4).setWidth 32) cpu
    | none => .fault

/-- `mips64_exec_bdslot`, over what executes a single instruction. -/
def execBdslot (env : Env W) (single : Cpu W → Insn → Outcome W Bool) (cpu : Cpu W) :
    Outcome W Unit :=
  (execFetch env cpu (cpu.pc + 4)).bind fun insn cpu =>
    (single cpu insn).bind fun _ cpu => .done () cpu

def execBranch (slot : Cpu W → Outcome W Unit) (cpu : Cpu W) (b : Branch) : Outcome W Bool :=
  let cpu := { cpu with toRegs := b.regs }
  if b.likely && !b.res then .done true { cpu with pc := cpu.pc + 8 }
  else
    (slot cpu).bind fun _ cpu =>
      .done true { cpu with pc := if b.res then b.newPc else cpu.pc + 8 }

/-- `mips64_exec_single_instruction`, with what executes the delay slots. -/
def execInsn (env : Env W) (slot : Cpu W → Outcome W Unit) (cpu : Cpu W) (insn : Insn) :
    Outcome W Bool :=
  let cpu := incCp0Cnt cpu
  match execOf insn with
  | .alu f =>
    (Outcome.ofOption cpu (f cpu.toRegs insn)).bind fun regs cpu =>
      .done false { cpu with toRegs := regs }
  | .branch f => execBranch slot cpu (f cpu.toRegs cpu.pc insn)
  | .cop f => (Outcome.ofOption cpu (f cpu insn)).bind fun cpu _ => .done false cpu
  | .ctl f => .done (f cpu insn).1 (f cpu insn).2
  | .dump f => f env cpu insn
  | .mem m =>
    (execMemop2 env cpu m (rs insn) (imm insn) (rt insn)).bind fun _ cpu => .done false cpu

/-- A branch in a delay slot runs the function again; `depth` is the number of
calls that the stack of the host has room for. -/
def execSingleInstruction (env : Env W) : Nat → Cpu W → Insn → Outcome W Bool
  | 0, _, _ => .fault
  | depth + 1, cpu, insn =>
    execInsn env (execBdslot env (execSingleInstruction env depth)) cpu insn

def execTimer (cpu : Cpu W) : Cpu W :=
  let cpu := { cpu with timerIrqCheck := cpu.timerIrqCheck + 1 }
  if cpu.timerIrqCheck = cpu.timerIrqCheckItv then
    let cpu := { cpu with timerIrqCheck := 0 }
    if cpu.timerIrqPending ≠ 0 ∧ cpu.irqDisable = 0 then
      let cpu := triggerIrq (triggerTimerIrq cpu)
      { cpu with timerIrqPending := cpu.timerIrqPending - 1 }
    else cpu
  else cpu

def execHead (cpu : Cpu W) : Cpu W := (execTimer cpu).setGpr mipsGprZero 0

/-- One turn of the loop of `mips64_exec_run_cpu`. A `longjmp` leads to the next
turn as well. -/
def execTurn (env : Env W) (depth : Nat) (cpu : Cpu W) : Option (Cpu W) :=
  if cpu.state ≠ .running then none
  else
    let cpu := execHead cpu
    if cpu.irqPending ≠ 0 then some (triggerIrq cpu)
    else
      match (execFetch env cpu cpu.pc).bind fun insn cpu =>
        execSingleInstruction env depth cpu insn with
      | .done res cpu => some (if res then cpu else { cpu with pc := cpu.pc + 4 })
      | .loopEnter cpu => some cpu
      | .fault => none

end Dynamips.Mips64
