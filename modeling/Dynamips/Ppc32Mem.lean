import Dynamips.Mips64Mem
import Dynamips.Ppc32
import Dynamips.Ppc32PageTable

/-! The MMU of a PowerPC CPU (ppc32_mem.c): the virtual TLB, the two slow lookups
behind it and the accesses, with the instructions of ppc32_exec.c that change
how addresses are translated. -/
set_option autoImplicit false

namespace Dynamips.Ppc32

open Mips64 (bits vmLoad vmStore)

/-- `PPC32_MTS_ICACHE` and `PPC32_MTS_DCACHE`, which are also the indexes of the BATs. -/
inductive Cid where
  | icache
  | dcache
deriving DecidableEq, Repr

/-- `MTS_ACC_T`, `MTS_ACC_U` -/
inductive MtsAcc where
  | t
  | u
deriving DecidableEq, Repr

def PPC32_MIN_PAGE_MASK : BitVec 32 := 0xFFFFF000

def PPC32_MIN_PAGE_IMASK : BitVec 32 := 0x00000FFF

def PPC32_MSR_EE : BitVec 32 := 0x00008000

def PPC32_MSR_PR : BitVec 32 := 0x00004000

def PPC32_MSR_PR_SHIFT : Nat := 14

def PPC32_MSR_IP : BitVec 32 := 0x00000040

def PPC32_MSR_IR : BitVec 32 := 0x00000020

def PPC32_MSR_DR : BitVec 32 := 0x00000010

def PPC32_RFI_MSR_MASK : BitVec 32 := 0x87c0ff73

def PPC32_EXC_SRR1_MASK : BitVec 32 := 0x0000ff73

def PPC32_EXC_MSR_MASK : BitVec 32 := 0x0006ef32

def PPC32_EXC_SYS_RST : BitVec 32 := 0x00000100

def PPC32_EXC_DSI : BitVec 32 := 0x00000300

def PPC32_EXC_SYSCALL : BitVec 32 := 0x00000C00

@[match_pattern] def PPC32_SPR_XER : Nat := 1

@[match_pattern] def PPC32_SPR_DEC : Nat := 22

@[match_pattern] def PPC32_SPR_SDR1 : Nat := 25

@[match_pattern] def PPC32_SPR_SRR0 : Nat := 26

@[match_pattern] def PPC32_SPR_SRR1 : Nat := 27

@[match_pattern] def PPC32_SPR_SPRG0 : Nat := 272

@[match_pattern] def PPC32_SPR_SPRG1 : Nat := 273

@[match_pattern] def PPC32_SPR_SPRG2 : Nat := 274

@[match_pattern] def PPC32_SPR_SPRG3 : Nat := 275

@[match_pattern] def PPC32_SPR_HID0 : Nat := 1008

@[match_pattern] def PPC32_SPR_HID1 : Nat := 1009

@[match_pattern] def PPC405_SPR_PID : Nat := 945

def PPC32_XER_CA : BitVec 32 := 0x20000000

def PPC32_DSISR_NOTRANS : BitVec 32 := 0x40000000

def PPC32_DSISR_STORE : BitVec 32 := 0x02000000

def PPC32_UBAT_BEPI_MASK : BitVec 32 := 0xFFFE0000

def PPC32_UBAT_XBL_MASK : BitVec 32 := 0x0001FFFC

def PPC32_UBAT_XBL_SHIFT : Nat := 2

def PPC32_LBAT_BRPN_MASK : BitVec 32 := 0xFFFE0000

def PPC32_BAT_ADDR_SHIFT : Nat := 17

def PPC405_TLBHI_SIZE_MASK : BitVec 32 := 0x00000380

def PPC405_TLBHI_SIZE_SHIFT : Nat := 7

def PPC405_TLBHI_V : BitVec 32 := 0x00000040

def MTS_FLAG_DEV : BitVec 32 := 0x1

def MTS_FLAG_COW : BitVec 32 := 0x2

def MTS_FLAG_EXEC : BitVec 32 := 0x4

structure MtsEntry where
  gvpa : BitVec 32
  gppa : BitVec 32
  hpa : HostAddr
  flags : BitVec 32

/-- What `memset` with 0xFF makes of an entry. -/
def MtsEntry.invalid : MtsEntry := ⟨0xFFFFFFFF, 0xFFFFFFFF, 0xFFFFFFFFFFFFFFFF, 0xFFFFFFFF⟩

/-- `mts_map_t`, whose `cached` is always false here. -/
structure MtsMap where
  vaddr : BitVec 64
  paddr : BitVec 64
  offset : BitVec 32

structure BatReg where
  upper : BitVec 32
  lower : BitVec 32

structure Tlb405Entry where
  tlbHi : BitVec 32
  tlbLo : BitVec 32
  tid : BitVec 32

/-- `cpu_ppc_t`; `is405` tells which slow lookup `mts_slow_lookup` points to, and
`execPage` which physical pages have compiled code. -/
structure Cpu (W : Type) extends Regs where
  ia : BitVec 32
  msr : BitVec 32
  srr0 : BitVec 32
  srr1 : BitVec 32
  dsisr : BitVec 32
  dar : BitVec 32
  dec : BitVec 32
  timerIrqArmed : Bool
  sprg : BitVec 2 → BitVec 32
  hid0 : BitVec 32
  hid1 : BitVec 32
  irqPending : Bool
  irqCheck : Bool
  bat : Cid → BitVec 3 → BatReg
  sr : BitVec 4 → BitVec 32
  sdr1 : BitVec 32
  sdr1Hptr : HostAddr
  ppc405Pid : BitVec 32
  ppc405Tlb : BitVec 6 → Tlb405Entry
  is405 : Bool
  mtsCache : Cid → BitVec 14 → MtsEntry
  execPage : BitVec 32 → Bool
  vm : Vm W

/-- What a device handler answers; `rebuild` tells that it remapped a device,
which rebuilds the virtual TLB. -/
structure DevReply (W : Type) where
  haddr : Option HostAddr
  data : BitVec 64
  vm : Vm W
  irqPending : Bool
  irqCheck : Bool
  rebuild : Bool

/-- The device handlers, and what the local `alt_entry` holds before it is written. -/
structure Env (W : Type) where
  handler : VDevice → BitVec 32 → Nat → MtsOp → BitVec 64 → Vm W → DevReply W
  altEntry : MtsEntry

/-- An access gives a host address, data of a device or of undefined memory, or it
raises an exception, which goes back to the main loop; the assertion on a new
page aborts. -/
inductive AccessResult (W : Type) where
  | host (haddr : HostAddr) (data : BitVec 64) (cpu : Cpu W)
  | data (data : BitVec 64) (cpu : Cpu W)
  | loopEnter (cpu : Cpu W)
  | abort

variable {W : Type}

def memInvalidateCache (cpu : Cpu W) : Cpu W :=
  { cpu with mtsCache := fun _ _ => MtsEntry.invalid }

/-- `MTS32_HASH` -/
def mtsHash (vaddr : BitVec 32) : BitVec 14 := (vaddr >>> 12).setWidth 14

def excMsr (msr : BitVec 32) : BitVec 32 := msr &&& ~~~PPC32_EXC_MSR_MASK

def triggerException (cpu : Cpu W) (excVector : BitVec 32) : Cpu W :=
  let msr := excMsr cpu.msr
  { cpu with
    srr0 := if excVector = PPC32_EXC_SYSCALL then cpu.ia + 4 else cpu.ia
    srr1 := cpu.msr &&& PPC32_EXC_SRR1_MASK
    msr := msr
    irqCheck := false
    ia := if msr &&& PPC32_MSR_IP ≠ 0 then 0xFFF00000 + excVector else excVector }

/-- The physical address of an address, where address translation is off. -/
def realMap (vaddr : BitVec 32) : MtsMap :=
  { vaddr := (vaddr &&& PPC32_MIN_PAGE_MASK).setWidth 64
    paddr := (vaddr &&& PPC32_MIN_PAGE_MASK).setWidth 64
    offset := vaddr &&& PPC32_MIN_PAGE_IMASK }

def translationOff (msr : BitVec 32) (cid : Cid) : Bool :=
  (cid = .icache && msr &&& PPC32_MSR_IR = 0) || (cid = .dcache && msr &&& PPC32_MSR_DR = 0)

/-- One turn of the loop of `ppc32_bat_lookup`. -/
def batMatch (bat : BatReg) (pr vaddr : BitVec 32) : Option MtsMap :=
  if bat.upper &&& pr = 0 then none
  else
    let bl := (bat.upper &&& PPC32_UBAT_XBL_MASK) >>> PPC32_UBAT_XBL_SHIFT
    let mask := ~~~bl <<< PPC32_BAT_ADDR_SHIFT
    let bepi := bat.upper &&& PPC32_UBAT_BEPI_MASK
    if bepi = vaddr &&& mask then
      let page := (vaddr &&& PPC32_MIN_PAGE_MASK).setWidth 64
      some
        { vaddr := page
          paddr := (bat.lower &&& PPC32_LBAT_BRPN_MASK).setWidth 64 + (page - bepi.setWidth 64)
          offset := vaddr &&& PPC32_MIN_PAGE_IMASK }
    else none

def batLookup (msr : BitVec 32) (bats : BitVec 3 → BatReg) (vaddr : BitVec 32) : Option MtsMap :=
  let pr := (msr &&& PPC32_MSR_PR) >>> PPC32_MSR_PR_SHIFT
  let pr := ((~~~pr <<< 1) ||| pr) &&& 0x03
  (List.range 8).findSome? fun i => batMatch (bats (BitVec.ofNat 3 i)) pr vaddr

def Cpu.pageTable (cpu : Cpu W) : PageTable := fun offset =>
  let pte := cpu.sdr1Hptr + BitVec.ofNat 64 offset
  ((vmLoad cpu.vm.mem pte 4).setWidth 32, (vmLoad cpu.vm.mem (pte + 4) 4).setWidth 32)

/-- The map that `ppc32_slow_lookup` makes of an address, where it has a translation. -/
def xlate32 (cpu : Cpu W) (vaddr : BitVec 32) (cid : Cid) : Option MtsMap :=
  if translationOff cpu.msr cid then some (realMap vaddr)
  else
    match batLookup cpu.msr (cpu.bat cid) vaddr with
    | some map => some map
    | none =>
      (walk cpu.sdr1 cpu.pageTable cpu.sr vaddr).map fun paddr =>
        { vaddr := (vaddr &&& ~~~PPC32_MIN_PAGE_IMASK).setWidth 64
          paddr := paddr
          offset := vaddr &&& PPC32_MIN_PAGE_IMASK }

def ppc405TlbMasks : List (BitVec 32) :=
  [0xFFFFFC00, 0xFFFFF000, 0xFFFFC000, 0xFFFF0000, 0xFFFC0000, 0xFFF00000, 0xFFC00000, 0xFF000000]

def tlb405Mask (entry : Tlb405Entry) : BitVec 32 :=
  ppc405TlbMasks.getD ((entry.tlbHi &&& PPC405_TLBHI_SIZE_MASK) >>> PPC405_TLBHI_SIZE_SHIFT).toNat 0

/-- One turn of the loop over the TLB; `!mask` is zero for each of the masks. -/
def tlb405Match (entry : Tlb405Entry) (pid vaddr : BitVec 32) : Option MtsMap :=
  if entry.tlbHi &&& PPC405_TLBHI_V = 0 ∨ entry.tid ≠ pid then none
  else
    let mask := tlb405Mask entry
    if vaddr &&& mask = entry.tlbHi &&& mask then
      some
        { vaddr := (vaddr &&& mask).setWidth 64
          paddr := (entry.tlbLo &&& mask).setWidth 64
          offset := vaddr &&& (if mask = 0 then 1 else 0) }
    else none

/-- The map that `ppc405_slow_lookup` makes of an address. -/
def xlate405 (cpu : Cpu W) (vaddr : BitVec 32) (cid : Cid) : Option MtsMap :=
  if translationOff cpu.msr cid then some (realMap vaddr)
  else (List.range 64).findSome? fun i =>
    tlb405Match (cpu.ppc405Tlb (BitVec.ofNat 6 i)) cpu.ppc405Pid vaddr

def xlate (cpu : Cpu W) (vaddr : BitVec 32) (cid : Cid) : Option MtsMap :=
  if cpu.is405 then xlate405 cpu vaddr cid else xlate32 cpu vaddr cid

def Cpu.setMts (cpu : Cpu W) (cid : Cid) (bucket : BitVec 14) (entry : MtsEntry) : Cpu W :=
  { cpu with
    mtsCache := Function.update cpu.mtsCache cid
      (Function.update (cpu.mtsCache cid) bucket entry) }

def mtsEntry (map : MtsMap) (hpa : HostAddr) (flags : BitVec 32) : MtsEntry :=
  ⟨map.vaddr.setWidth 32, map.paddr.setWidth 32, hpa, flags⟩

def execFlag (cpu : Cpu W) (map : MtsMap) : BitVec 32 :=
  if cpu.execPage ((map.paddr >>> vmPageShift).setWidth 32) then MTS_FLAG_EXEC else 0

/-- `ppc32_mem_map`, which has no entry to give where there is no device. -/
def memMap (env : Env W) (cpu : Cpu W) (opType : MtsOp) (map : MtsMap) (cid : Cid)
    (bucket : BitVec 14) : Option (Option MtsEntry × Cpu W) :=
  match devLookup cpu.vm (map.paddr + map.offset.setWidth 64) false with
  | none => some (none, cpu)
  | some dev =>
    if dev.has vdeviceFlagSparse then
      match devSparseGetHostAddr cpu.vm dev map.paddr opType with
      | none => none
      | some (hostPtr, cow, vm) =>
        let entry := mtsEntry map hostPtr ((if cow then MTS_FLAG_COW else 0) ||| execFlag cpu map)
        some (some entry, { cpu with vm := vm }.setMts cid bucket entry)
    else if dev.hostAddr = 0 ∨ dev.has vdeviceFlagNoMtsMmap then
      let offset := (map.paddr + map.offset.setWidth 64 - dev.physAddr).setWidth 32
      some (some { env.altEntry with
        gppa := dev.id, hpa := offset.setWidth 64, flags := MTS_FLAG_DEV }, cpu)
    else
      let entry := mtsEntry map (dev.hostAddr + (map.paddr - dev.physAddr)) (execFlag cpu map)
      some (some entry, cpu.setMts cid bucket entry)

/-- `ppc32_slow_lookup` and `ppc405_slow_lookup` -/
def slowLookup (env : Env W) (cpu : Cpu W) (vaddr : BitVec 32) (cid : Cid) (opType : MtsOp) :
    Option (Except MtsAcc MtsEntry × Cpu W) :=
  match xlate cpu vaddr cid with
  | none => some (.error .t, cpu)
  | some map =>
    match memMap env cpu opType map cid (mtsHash vaddr) with
    | none => none
    | some (some entry, cpu) => some (.ok entry, cpu)
    | some (none, cpu) => some (.error .u, cpu)

/-- `ppc32_access_special`; nothing installs an `undef_mem_handler`. -/
def accessSpecial (cpu : Cpu W) (vaddr : BitVec 32) (cid : Cid) (mask : MtsAcc) (lookup : Bool)
    (opType : MtsOp) (data : BitVec 64) : AccessResult W :=
  match mask with
  | .t =>
    if !lookup && cid = .dcache then
      let dsisr := if opType = .write then PPC32_DSISR_NOTRANS ||| PPC32_DSISR_STORE
        else PPC32_DSISR_NOTRANS
      .loopEnter (triggerException { cpu with dsisr := dsisr, dar := vaddr } PPC32_EXC_DSI)
    else .data data cpu
  | .u => .data (if opType = .read then 0 else data) cpu

/-- The entry that the cached path of `ppc32_mem_access` uses. -/
def fastHit (cpu : Cpu W) (vaddr : BitVec 32) (cid : Cid) (opType : MtsOp) : Option MtsEntry :=
  let entry := cpu.mtsCache cid (mtsHash vaddr)
  let cow := opType = .write ∧ entry.flags &&& MTS_FLAG_COW ≠ 0
  if vaddr &&& PPC32_MIN_PAGE_MASK ≠ entry.gvpa ∨ cow then none else some entry

/-- The raw access to an entry of the cache, before which a write throws the
compiled code of its page away. -/
def rawAccess (cpu : Cpu W) (vaddr : BitVec 32) (cid : Cid) (opType : MtsOp) (entry : MtsEntry)
    (data : BitVec 64) : AccessResult W :=
  let haddr := entry.hpa + (vaddr &&& PPC32_MIN_PAGE_IMASK).setWidth 64
  let physPage := entry.gppa >>> vmPageShift
  if opType = .write ∧ entry.flags &&& MTS_FLAG_EXEC ≠ 0 ∧ vaddr ≥ PPC32_EXC_SYS_RST ∧
      cpu.execPage physPage then
    let cpu := { cpu with execPage := Function.update cpu.execPage physPage false }
    .host haddr data
      (cpu.setMts cid (mtsHash vaddr) { entry with flags := entry.flags &&& ~~~MTS_FLAG_EXEC })
  else .host haddr data cpu

def Cpu.afterReply (cpu : Cpu W) (reply : DevReply W) : Cpu W :=
  let cpu := { cpu with
    vm := reply.vm, irqPending := reply.irqPending, irqCheck := reply.irqCheck }
  if reply.rebuild then memInvalidateCache cpu else cpu

def devAccessFast (env : Env W) (cpu : Cpu W) (devId : BitVec 6) (offset : BitVec 32)
    (opSize : Nat) (opType : MtsOp) (data : BitVec 64) : AccessResult W :=
  match cpu.vm.devArray devId with
  | none => .data data cpu
  | some dev =>
    let reply := env.handler dev offset opSize opType data cpu.vm
    match reply.haddr with
    | some haddr => .host haddr reply.data (cpu.afterReply reply)
    | none => .data reply.data (cpu.afterReply reply)

def memAccess (env : Env W) (cpu : Cpu W) (vaddr : BitVec 32) (cid : Cid) (lookup : Bool)
    (opSize : Nat) (opType : MtsOp) (data : BitVec 64) : AccessResult W :=
  match fastHit cpu vaddr cid opType with
  | some entry => rawAccess cpu vaddr cid opType entry data
  | none =>
    match slowLookup env cpu vaddr cid opType with
    | none => .abort
    | some (.error mask, cpu) => accessSpecial cpu vaddr cid mask lookup opType data
    | some (.ok entry, cpu) =>
      if entry.flags &&& MTS_FLAG_DEV ≠ 0 then
        devAccessFast env cpu (entry.gppa.setWidth 6) (entry.hpa.setWidth 32) opSize opType data
      else rawAccess cpu vaddr cid opType entry data

def execMTMSR (cpu : Cpu W) (insn : Insn) : Cpu W :=
  let msr := cpu.gpr (regD insn)
  { cpu with msr := msr, irqCheck := decide (msr &&& PPC32_MSR_EE ≠ 0) && cpu.irqPending }

def rfiMsr (msr srr1 : BitVec 32) : BitVec 32 :=
  ((msr &&& ~~~PPC32_RFI_MSR_MASK) ||| (srr1 &&& PPC32_RFI_MSR_MASK)) &&& ~~~(1#32 <<< 13)

def execRFI (cpu : Cpu W) (_insn : Insn) : Cpu W :=
  let msr := rfiMsr cpu.msr cpu.srr1
  { cpu with
    msr := msr
    ia := cpu.srr0 &&& ~~~0x03
    irqCheck := decide (msr &&& PPC32_MSR_EE ≠ 0) && cpu.irqPending }

def execMTSR (cpu : Cpu W) (insn : Insn) : Cpu W :=
  let sr := (bits insn 16 19).setWidth 4
  memInvalidateCache { cpu with sr := Function.update cpu.sr sr (cpu.gpr (regD insn)) }

/-- `ppc32_set_bat_spr` with the index of `ppc32_get_bat_spr_ptr` -/
def setBatSpr (cpu : Cpu W) (spr : BitVec 10) (val : BitVec 32) : Cpu W :=
  let cid := if spr.getLsbD 3 then Cid.dcache else Cid.icache
  let index : BitVec 3 := ((spr >>> 1).setWidth 2).setWidth 3
  let index := if spr &&& 0x20 ≠ 0 then index + 4 else index
  let bat := cpu.bat cid index
  let bat := if spr.getLsbD 0 then { bat with lower := val } else { bat with upper := val }
  memInvalidateCache { cpu with
    bat := Function.update cpu.bat cid (Function.update (cpu.bat cid) index bat) }

/-- The switch of `ppc32_exec_MTSPR` -/
def setSpr (cpu : Cpu W) (spr : Nat) (val : BitVec 32) : Cpu W :=
  match spr with
  | PPC32_SPR_XER => { cpu with xer := val &&& ~~~PPC32_XER_CA, xerCa := val.getLsbD 29 }
  | PPC32_SPR_DEC => { cpu with dec := val, timerIrqArmed := true }
  | PPC32_SPR_SDR1 => memInvalidateCache { cpu with sdr1 := val }
  | PPC32_SPR_SRR0 => { cpu with srr0 := val }
  | PPC32_SPR_SRR1 => { cpu with srr1 := val }
  | PPC32_SPR_SPRG0 => { cpu with sprg := Function.update cpu.sprg 0 val }
  | PPC32_SPR_SPRG1 => { cpu with sprg := Function.update cpu.sprg 1 val }
  | PPC32_SPR_SPRG2 => { cpu with sprg := Function.update cpu.sprg 2 val }
  | PPC32_SPR_SPRG3 => { cpu with sprg := Function.update cpu.sprg 3 val }
  | PPC32_SPR_HID0 => { cpu with hid0 := val }
  | PPC32_SPR_HID1 => { cpu with hid1 := val }
  | PPC405_SPR_PID => { cpu with ppc405Pid := val }
  | _ => cpu

def sprOf (insn : Insn) : BitVec 10 :=
  ((bits insn 11 15).setWidth 10 <<< 5) ||| (bits insn 16 20).setWidth 10

def execMTSPR (cpu : Cpu W) (insn : Insn) : Cpu W :=
  let spr1 := bits insn 11 15
  if spr1 = 0x10 ∨ spr1 = 0x11 then setBatSpr cpu (sprOf insn) (cpu.gpr (regD insn))
  else setSpr cpu (sprOf insn).toNat (cpu.gpr (regD insn))

def execTLBIA (cpu : Cpu W) (_insn : Insn) : Cpu W := memInvalidateCache cpu

def execTLBIE (cpu : Cpu W) (_insn : Insn) : Cpu W := memInvalidateCache cpu

def tlb405Index (cpu : Cpu W) (insn : Insn) : BitVec 6 :=
  (cpu.gpr (regA insn) &&& 0x3F).setWidth 6

def execTLBRE (cpu : Cpu W) (insn : Insn) : Cpu W :=
  let entry := cpu.ppc405Tlb (tlb405Index cpu insn)
  if bits insn 11 15 = 1 then { cpu with toRegs := cpu.toRegs.setGpr (regD insn) entry.tlbLo }
  else { cpu with
    toRegs := cpu.toRegs.setGpr (regD insn) entry.tlbHi
    ppc405Pid := entry.tid }

/-- The TLB entry that `ppc32_exec_TLBWE` leaves. -/
def tlbweEntry (cpu : Cpu W) (insn : Insn) : Tlb405Entry :=
  let entry := cpu.ppc405Tlb (tlb405Index cpu insn)
  if bits insn 11 15 = 1 then { entry with tlbLo := cpu.gpr (regD insn) }
  else { entry with tlbHi := cpu.gpr (regD insn), tid := cpu.ppc405Pid }

def execTLBWE (cpu : Cpu W) (insn : Insn) : Cpu W :=
  { cpu with
    ppc405Tlb := Function.update cpu.ppc405Tlb (tlb405Index cpu insn) (tlbweEntry cpu insn) }

end Dynamips.Ppc32
