import Dynamips.Mips64

/-! Coprocessor 0 (mips64_cp0.c): the moves, the TLB lookup and the TLB
instructions. -/
set_option autoImplicit false

namespace Dynamips.Mips64

def mipsTlbPageMask : BitVec 64 := 0x01ffe000

def mipsTlbPfnMask : BitVec 64 := 0x3fffffc0

def mipsTlbAsidMask : BitVec 64 := 0xff

def mipsTlbGMask : BitVec 64 := 0x1000

def mipsTlbVMask : BitVec 64 := 0x2

def mipsTlbCMask : BitVec 64 := 0x38

def mipsTlbCShift : Nat := 3

def mipsCp0LoGMask : BitVec 64 := 0x1

def mipsCp0HiSafeMask : BitVec 64 := 0xffffe0ff

def mipsCp0LoSafeMask : BitVec 64 := 0x7fffffff

def mips64TlbIdxMask : BitVec 64 := 0x3f

def mips64R7000Tlb64Enable : BitVec 64 := 0x20000000

structure MtsMap where
  vaddr : BitVec 64
  paddr : BitVec 64
  cached : Bool
  offset : BitVec 32
deriving DecidableEq

def ccaCacheStatus : List Nat := [1, 1, 0, 1, 0, 1, 0, 0]

def ccaCached (val : BitVec 64) : Bool := ccaCacheStatus.getD (val &&& 0x03).toNat 0 != 0

variable {W : Type}

/-- `memset(...,0xFF,...)` on one entry of the cache -/
def MtsEntry.invalid (mode : AddrMode) : MtsEntry :=
  match mode with
  | .mode32 => ⟨0xffffffff, 0xffffffff, 0xffffffffffffffff, 0xffffffff⟩
  | .mode64 => ⟨0xffffffffffffffff, 0xffffffffffffffff, 0xffffffffffffffff, 0xffffffff⟩

/-- `invalidate_cache`, which is all that `mts_unmap` and `mts_rebuild` do. -/
def invalidateCache (cpu : Cpu W) : Cpu W :=
  { cpu with mtsCache := fun _ => MtsEntry.invalid cpu.addrMode }

def cp0GetRandomReg (cpu : Cpu W) : Option (BitVec 32) :=
  let wired := (cpu.cp0.reg mipsCp0Wired).setWidth 32
  let range := BitVec.ofNat 32 cpu.cp0.tlbEntries - wired
  if range = 0 then none else some (wired + cpu.cp0VirtCntReg % range)

def cp0GetReg (cpu : Cpu W) (reg : RegNum) : Option (BitVec 64) :=
  if reg = mipsCp0Count then
    let delta := cpu.cp0VirtCmpReg - cpu.cp0VirtCntReg
    let res := (cpu.cp0.reg mipsCp0Compare).setWidth 32 - cpu.vm.clockDivisor * delta
    some (signExtend (res.setWidth 64) 32)
  else if reg = mipsCp0Compare then some (signExtend (cpu.cp0.reg mipsCp0Compare) 32)
  else if reg = mipsCp0Info then some mips64R7000Tlb64Enable
  else if reg = mipsCp0Random then (cp0GetRandomReg cpu).map (BitVec.setWidth 64)
  else some (cpu.cp0.reg reg)

/-- Restarts the virtual counter for a distance to the next timer event. -/
def setVirtCmp (cpu : Cpu W) (delta : BitVec 32) : Option (Cpu W) :=
  if cpu.vm.clockDivisor = 0 then none
  else some { cpu with
    cp0VirtCntReg := 0
    cp0VirtCmpReg := delta / cpu.vm.clockDivisor }

def cp0SetReg (cpu : Cpu W) (reg : RegNum) (val : BitVec 64) : Option (Cpu W) :=
  if reg = mipsCp0Status ∨ reg = mipsCp0Cause then some (updateIrqFlag (cpu.setCp0 reg val))
  else if reg = mipsCp0Pagemask then some (cpu.setCp0 reg (val &&& mipsTlbPageMask))
  else if reg = mipsCp0Compare then
    let cpu := (updateIrqFlag (clearIrq cpu 7)).setCp0 reg val
    setVirtCmp cpu ((val - cpu.cp0.reg mipsCp0Count).setWidth 32)
  else if reg = mipsCp0Count then
    let cpu := cpu.setCp0 reg val
    setVirtCmp cpu ((cpu.cp0.reg mipsCp0Compare - val).setWidth 32)
  else if reg = mipsCp0TlbHi then some (cpu.setCp0 reg (val &&& mipsCp0HiSafeMask))
  else if reg = mipsCp0TlbLo0 ∨ reg = mipsCp0TlbLo1 then
    some (cpu.setCp0 reg (val &&& mipsCp0LoSafeMask))
  else if reg = mipsCp0Random ∨ reg = mipsCp0Prid ∨ reg = mipsCp0Config then some cpu
  else if reg = mipsCp0Wired then some (cpu.setCp0 reg (val &&& mips64TlbIdxMask))
  else some (cpu.setCp0 reg val)

def cp0S1GetReg (cpu : Cpu W) (reg : RegNum) : BitVec 64 :=
  if reg = 16 then signExtend (0x7F <<< 25) 32
  else if reg = 18 then cpu.cp0.iplLo.setWidth 64
  else if reg = 19 then cpu.cp0.iplHi.setWidth 64
  else if reg = 20 then cpu.cp0.intCtl.setWidth 64
  else if reg = 26 then cpu.cp0.derraddr0.setWidth 64
  else if reg = 27 then cpu.cp0.derraddr1.setWidth 64
  else 0

def cp0S1SetReg (cpu : Cpu W) (reg : RegNum) (val : BitVec 64) : Cpu W :=
  let val := val.setWidth 32
  if reg = 18 then { cpu with cp0 := { cpu.cp0 with iplLo := val } }
  else if reg = 19 then { cpu with cp0 := { cpu.cp0 with iplHi := val } }
  else if reg = 20 then { cpu with cp0 := { cpu.cp0 with intCtl := val } }
  else if reg = 26 then { cpu with cp0 := { cpu.cp0 with derraddr0 := val } }
  else if reg = 27 then { cpu with cp0 := { cpu.cp0 with derraddr1 := val } }
  else cpu

def cp0ExecDmfc0 (cpu : Cpu W) (gpReg cp0Reg : RegNum) : Option (Cpu W) :=
  (cp0GetReg cpu cp0Reg).map (cpu.setGpr gpReg)

def cp0ExecDmtc0 (cpu : Cpu W) (gpReg cp0Reg : RegNum) : Option (Cpu W) :=
  cp0SetReg cpu cp0Reg (cpu.gpr gpReg)

def cp0ExecMfc0 (cpu : Cpu W) (gpReg cp0Reg : RegNum) : Option (Cpu W) :=
  (cp0GetReg cpu cp0Reg).map fun val => cpu.setGpr gpReg (signExtend val 32)

def cp0ExecMtc0 (cpu : Cpu W) (gpReg cp0Reg : RegNum) : Option (Cpu W) :=
  cp0SetReg cpu cp0Reg (cpu.gpr gpReg &&& 0xffffffff)

def cp0ExecCfc0 (cpu : Cpu W) (gpReg cp0Reg : RegNum) : Cpu W :=
  cpu.setGpr gpReg (signExtend (cp0S1GetReg cpu cp0Reg) 32)

def cp0ExecCtc0 (cpu : Cpu W) (gpReg cp0Reg : RegNum) : Cpu W :=
  cp0S1SetReg cpu cp0Reg (cpu.gpr gpReg &&& 0xffffffff)

def getPageSize (pageMask : BitVec 32) : BitVec 32 := (pageMask + 0x2000) >>> 1

def TlbEntry.pageSize (entry : TlbEntry) : BitVec 32 := getPageSize (entry.mask.setWidth 32)

def AddrMode.vpn2Mask (mode : AddrMode) : BitVec 64 :=
  match mode with
  | .mode32 => 0xffffe000
  | .mode64 => 0xc00000ffffffe000

def Cpu.asid (cpu : Cpu W) : BitVec 64 := cpu.cp0.reg mipsCp0TlbHi &&& mipsTlbAsidMask

/-- The entry covers the address, whatever the address space. -/
def TlbEntry.covers (entry : TlbEntry) (mode : AddrMode) (vaddr : BitVec 64) : Bool :=
  (vaddr &&& mode.vpn2Mask) &&& ~~~(entry.mask + 0x1FFF) == entry.hi &&& mode.vpn2Mask

def TlbEntry.inSpace (entry : TlbEntry) (asid : BitVec 64) : Bool :=
  entry.hi &&& mipsTlbGMask != 0 || entry.hi &&& mipsTlbAsidMask == asid

def TlbEntry.lo (entry : TlbEntry) (vaddr : BitVec 64) : BitVec 64 :=
  if vaddr &&& entry.pageSize.setWidth 64 = 0 then entry.lo0 else entry.lo1

/-- The `mts_map_t` that `mips64_cp0_tlb_lookup` fills in from a half `lo`. -/
def tlbMap (entry : TlbEntry) (lo addrBusMask vaddr : BitVec 64) : MtsMap :=
  let page := vaddr &&& mipsMinPageMask
  let offset := page &&& (entry.pageSize - 1).setWidth 64
  { vaddr := page
    paddr := (((lo &&& mipsTlbPfnMask) <<< 6) + offset) &&& addrBusMask
    cached := ccaCached ((lo &&& mipsTlbCMask) >>> mipsTlbCShift)
    offset := (vaddr &&& mipsMinPageImask).setWidth 32 }

/-- The entry that `mips64_cp0_tlb_lookup` stops at. -/
def tlbMatch (cpu : Cpu W) (vaddr : BitVec 64) : Option (Fin 64) :=
  (List.finRange 64).find? fun i =>
    decide (i.val < cpu.cp0.tlbEntries) && (cpu.cp0.tlb i).covers cpu.addrMode vaddr &&
      (cpu.cp0.tlb i).inSpace cpu.asid

def cp0TlbLookup (cpu : Cpu W) (vaddr : BitVec 64) : Option MtsMap := do
  let i ← tlbMatch cpu vaddr
  let entry := cpu.cp0.tlb i
  if entry.lo vaddr &&& mipsTlbVMask ≠ 0 then
    some (tlbMap entry (entry.lo vaddr) cpu.addrBusMask vaddr)
  else none

def cp0ExecTlbp (cpu : Cpu W) : Cpu W :=
  let hiReg := cpu.cp0.reg mipsCp0TlbHi
  let vpn2Mask := cpu.addrMode.vpn2Mask
  (List.finRange 64).foldl (fun cpu (i : Fin 64) =>
    if i.val < cpu.cp0.tlbEntries ∧ (cpu.cp0.tlb i).hi &&& vpn2Mask = hiReg &&& vpn2Mask ∧
        (cpu.cp0.tlb i).inSpace (hiReg &&& mipsTlbAsidMask) then
      cpu.setCp0 mipsCp0Index (BitVec.ofNat 64 i.val)
    else cpu) (cpu.setCp0 mipsCp0Index 0xffffffff80000000)

def tlbIndex (cpu : Cpu W) (index : BitVec 32) : Option (Fin 64) :=
  if h : index.toNat < cpu.cp0.tlbEntries then
    some ⟨index.toNat, Nat.lt_of_lt_of_le h cpu.cp0.tlbEntries_le⟩
  else none

def tlbRead (cpu : Cpu W) (entry : TlbEntry) : Cpu W :=
  let global := entry.hi &&& mipsTlbGMask ≠ 0
  let cpu := cpu.setCp0 mipsCp0Pagemask entry.mask
  let cpu := cpu.setCp0 mipsCp0TlbHi (if global then entry.hi &&& ~~~mipsTlbGMask else entry.hi)
  let cpu := cpu.setCp0 mipsCp0TlbLo0 (if global then entry.lo0 ||| mipsCp0LoGMask else entry.lo0)
  cpu.setCp0 mipsCp0TlbLo1 (if global then entry.lo1 ||| mipsCp0LoGMask else entry.lo1)

def cp0ExecTlbr (cpu : Cpu W) : Cpu W :=
  match tlbIndex cpu ((cpu.cp0.reg mipsCp0Index).setWidth 32) with
  | some i => tlbRead cpu (cpu.cp0.tlb i)
  | none => cpu

def cp0UnmapTlbToMts (cpu : Cpu W) (i : Fin 64) : Cpu W :=
  let entry := cpu.cp0.tlb i
  let cpu := if entry.lo0 &&& mipsTlbVMask ≠ 0 then invalidateCache cpu else cpu
  if entry.lo1 &&& mipsTlbVMask ≠ 0 then invalidateCache cpu else cpu

def tlbNewEntry (cp0 : Cp0) : TlbEntry :=
  let mask := cp0.reg mipsCp0Pagemask &&& mipsTlbPageMask
  let hi := cp0.reg mipsCp0TlbHi &&& ~~~mask &&& mipsCp0HiSafeMask
  let lo0 := cp0.reg mipsCp0TlbLo0
  let lo1 := cp0.reg mipsCp0TlbLo1
  { mask := mask
    hi := if lo0 &&& lo1 &&& mipsCp0LoGMask ≠ 0 then hi ||| mipsTlbGMask else hi
    lo0 := lo0 &&& ~~~mipsCp0LoGMask
    lo1 := lo1 &&& ~~~mipsCp0LoGMask }

def Cpu.setTlb (cpu : Cpu W) (i : Fin 64) (entry : TlbEntry) : Cpu W :=
  { cpu with cp0 := { cpu.cp0 with tlb := Function.update cpu.cp0.tlb i entry } }

/-- `mips64_cp0_exec_tlbw`; the `mts_map` it ends with does nothing. -/
def cp0ExecTlbw (cpu : Cpu W) (index : BitVec 32) : Cpu W :=
  match tlbIndex cpu index with
  | some i => (cp0UnmapTlbToMts cpu i).setTlb i (tlbNewEntry cpu.cp0)
  | none => cpu

def cp0ExecTlbwi (cpu : Cpu W) : Cpu W :=
  cp0ExecTlbw cpu ((cpu.cp0.reg mipsCp0Index).setWidth 32)

def cp0ExecTlbwr (cpu : Cpu W) : Option (Cpu W) :=
  (cp0GetRandomReg cpu).map (cp0ExecTlbw cpu)

end Dynamips.Mips64
