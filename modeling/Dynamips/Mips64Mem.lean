import Dynamips.Mips64Cp0

/-! The virtual TLB of mips_mts.c and mips64_mem.c: the cached path, the slow
path behind it and the memory operations. The two instances of the template
differ in the zones of the address space and in the width of a tag. -/
set_option autoImplicit false

namespace Dynamips.Mips64

inductive MemOp where
  | lookup
  | lb | lbu | lh | lhu | lw | lwu | ld
  | sb | sh | sw | sd
  | lwl | lwr | ldl | ldr | swl | swr | sdl | sdr
  | ll | sc | ldc1 | sdc1
  | cache
deriving DecidableEq, Repr

/-- `MTS_ACC_U`, `MTS_ACC_T`, `MTS_ACC_AE` -/
inductive MtsAcc where
  | u
  | t
  | ae
deriving DecidableEq, Repr

def mtsFlagDev : BitVec 32 := 0x1

def mtsFlagCow : BitVec 32 := 0x2

def mtsDevidShift : Nat := 26

def mtsDevidMask : BitVec 64 := 0xfc000000

def mtsDevoffMask : BitVec 64 := 0x03ffffff

/-- What a device handler answers; `rebuild` tells that it remapped a device,
which rebuilds the virtual TLB. -/
structure DevReply (W : Type) where
  haddr : Option HostAddr
  data : BitVec 64
  shared : Shared W
  rebuild : Bool

/-- The device handlers, and what the locals `data` and `alt_entry` hold before
they are written. -/
structure Env (W : Type) where
  handler : VDevice → BitVec 32 → Nat → MtsOp → BitVec 64 → Shared W → DevReply W
  data : BitVec 64
  altEntry : MtsEntry

variable {W : Type}

/-- `MTS32_HASH`, `MTS64_HASH` -/
def mtsHash (vaddr : BitVec 64) : BitVec 14 := (vaddr >>> 12).setWidth 14

def AddrMode.trunc (mode : AddrMode) (addr : BitVec 64) : BitVec 64 :=
  match mode with
  | .mode32 => (addr.setWidth 32).setWidth 64
  | .mode64 => addr

/-- The page that `access` looks for. -/
def AddrMode.tag (mode : AddrMode) (vaddr : BitVec 64) : BitVec 64 :=
  mode.trunc vaddr &&& mipsMinPageMask

/-- The map of an address in a zone that the TLB does not translate. -/
def directMap (vaddr paddr : BitVec 64) (cached : Bool) : MtsMap :=
  { vaddr := vaddr &&& mipsMinPageMask
    paddr := paddr
    cached := cached
    offset := (vaddr &&& mipsMinPageImask).setWidth 32 }

def tlbXlate (cpu : Cpu W) (vaddr : BitVec 64) : Except MtsAcc MtsMap :=
  match cp0TlbLookup cpu vaddr with
  | some map => .ok map
  | none => .error .t

def xkphysZones : List (BitVec 64) :=
  [0x800000, 0x880000, 0x900000, 0x980000, 0xa00000, 0xa80000, 0xb00000, 0xb80000]

/-- The switch on the zone in `mips64_mts64_slow_lookup` -/
def mts64Xlate (cpu : Cpu W) (vaddr : BitVec 64) : Except MtsAcc MtsMap :=
  let zone := vaddr >>> 40
  let subZone := (vaddr >>> 29) &&& 0x7FF
  let page := vaddr &&& mipsMinPageMask
  if zone ∈ [0x000000, 0x400000, 0xc00000] then tlbXlate cpu vaddr
  else if zone = 0xffffff then
    if subZone = 0x7fc then .ok (directMap vaddr (page - 0xFFFFFFFF80000000) true)
    else if subZone = 0x7fd then .ok (directMap vaddr (page - 0xFFFFFFFFA0000000) false)
    else if subZone = 0x7fe ∨ subZone = 0x7ff then tlbXlate cpu vaddr
    else .error .ae
  else if zone ∈ xkphysZones then
    .ok (directMap vaddr (vaddr &&& 0xfffffffff &&& mipsMinPageMask) (ccaCached (vaddr >>> 59)))
  else .error .ae

/-- The switch on the zone in `mips64_mts32_slow_lookup` -/
def mts32Xlate (cpu : Cpu W) (vaddr : BitVec 64) : Except MtsAcc MtsMap :=
  let zone := (vaddr >>> 29) &&& 0x7
  let page := vaddr &&& mipsMinPageMask
  if zone = 0x4 then .ok (directMap vaddr (page - 0xFFFFFFFF80000000) true)
  else if zone = 0x5 then .ok (directMap vaddr (page - 0xFFFFFFFFA0000000) false)
  else tlbXlate cpu vaddr

def mtsXlate (cpu : Cpu W) (vaddr : BitVec 64) : Except MtsAcc MtsMap :=
  match cpu.addrMode with
  | .mode32 => mts32Xlate cpu vaddr
  | .mode64 => mts64Xlate cpu vaddr

/-- `mips64_access_special`; nothing installs an `undef_mem_handler`. -/
def accessSpecial (cpu : Cpu W) (vaddr : BitVec 64) (mask : MtsAcc) (opCode : MemOp)
    (opType : MtsOp) (data : BitVec 64) : Outcome W (BitVec 64) :=
  match mask with
  | .u => .done (if opType = .read then 0 else data) cpu
  | .t =>
    if opCode = .lookup then .done data cpu
    else
      let cpu := if vaddr = 0 then { cpu with state := .halted } else cpu
      let cpu := cpu.setCp0 mipsCp0Badvaddr vaddr
      .loopEnter (triggerException cpu (if opType = .read then .tlbLoad else .tlbSave) false)
  | .ae =>
    if opCode = .lookup then .done data cpu
    else
      let cpu := cpu.setCp0 mipsCp0Badvaddr vaddr
      .loopEnter (triggerException cpu (if opType = .read then .addrLoad else .addrSave) false)

/-- The entry that `map` stores. -/
def mtsEntry (mode : AddrMode) (map : MtsMap) (hpa : HostAddr) (flags : BitVec 32) : MtsEntry :=
  ⟨mode.trunc map.vaddr, mode.trunc map.paddr, hpa, flags⟩

def Cpu.setMts (cpu : Cpu W) (bucket : BitVec 14) (entry : MtsEntry) : Cpu W :=
  { cpu with mtsCache := Function.update cpu.mtsCache bucket entry }

/-- `MTS_PROTO(map)`, which has no entry to give where there is no device. -/
def mtsMap (env : Env W) (cpu : Cpu W) (opType : MtsOp) (map : MtsMap) (bucket : BitVec 14) :
    Outcome W (Option MtsEntry) :=
  match devLookup cpu.vm map.paddr map.cached with
  | none => .done none cpu
  | some dev =>
    if dev.has vdeviceFlagSparse then
      match devSparseGetHostAddr cpu.vm dev map.paddr opType with
      | none => .fault
      | some (hostPtr, cow, vm) =>
        let entry := mtsEntry cpu.addrMode map hostPtr (if cow then mtsFlagCow else 0)
        .done (some entry) ({ cpu with vm := vm }.setMts bucket entry)
    else if dev.hostAddr = 0 ∨ dev.has vdeviceFlagNoMtsMmap then
      let offset := (map.paddr + map.offset.setWidth 64 - dev.physAddr).setWidth 32
      let hpa := (dev.id <<< mtsDevidShift) + offset
      .done (some { env.altEntry with hpa := hpa.setWidth 64, flags := mtsFlagDev }) cpu
    else
      let entry := mtsEntry cpu.addrMode map (dev.hostAddr + (map.paddr - dev.physAddr)) 0
      .done (some entry) (cpu.setMts bucket entry)

/-- `slow_lookup`, with the data that a failed access reads. -/
def slowLookup (env : Env W) (cpu : Cpu W) (vaddr : BitVec 64) (opCode : MemOp) (opType : MtsOp)
    (data : BitVec 64) : Outcome W (Option MtsEntry × BitVec 64) :=
  match mtsXlate cpu vaddr with
  | .error mask =>
    (accessSpecial cpu vaddr mask opCode opType data).bind fun data cpu => .done (none, data) cpu
  | .ok map =>
    (mtsMap env cpu opType map (mtsHash vaddr)).bind fun entry cpu =>
      match entry with
      | some entry => .done (some entry, data) cpu
      | none =>
        (accessSpecial cpu vaddr .u opCode opType data).bind fun data cpu => .done (none, data) cpu

/-- The entry that the cached path of `access` uses. -/
def fastHit (cpu : Cpu W) (vaddr : BitVec 64) (opType : MtsOp) : Option MtsEntry :=
  let entry := cpu.mtsCache (mtsHash vaddr)
  let cow := opType = .write ∧ entry.flags &&& mtsFlagCow ≠ 0
  if cpu.addrMode.tag vaddr ≠ entry.gvpa ∨ cow then none else some entry

def devAccessFast (env : Env W) (cpu : Cpu W) (devId : BitVec 6) (offset : BitVec 32)
    (opSize : Nat) (opType : MtsOp) (data : BitVec 64) : Outcome W (Option HostAddr × BitVec 64) :=
  match cpu.vm.devArray devId with
  | none => .done (none, data) cpu
  | some dev =>
    let reply := env.handler dev offset opSize opType data cpu.toShared
    let cpu := { cpu with toShared := reply.shared }
    .done (reply.haddr, reply.data) (if reply.rebuild then invalidateCache cpu else cpu)

/-- What `access` does with the entry that the slow path gave. -/
def accessEntry (env : Env W) (cpu : Cpu W) (vaddr : BitVec 64) (opSize : Nat) (opType : MtsOp)
    (entry : MtsEntry) (data : BitVec 64) : Outcome W (Option HostAddr × BitVec 64) :=
  if entry.flags &&& mtsFlagDev ≠ 0 then
    devAccessFast env cpu (((entry.hpa &&& mtsDevidMask) >>> mtsDevidShift).setWidth 6)
      ((entry.hpa &&& mtsDevoffMask).setWidth 32) opSize opType data
  else .done (some (entry.hpa + (vaddr &&& mipsMinPageImask)), data) cpu

/-- `MTS_PROTO(access)` -/
def mtsAccess (env : Env W) (cpu : Cpu W) (vaddr : BitVec 64) (opCode : MemOp) (opSize : Nat)
    (opType : MtsOp) (data : BitVec 64) : Outcome W (Option HostAddr × BitVec 64) :=
  match fastHit cpu vaddr opType with
  | some entry => .done (some (entry.hpa + (vaddr &&& mipsMinPageImask)), data) cpu
  | none =>
    (slowLookup env cpu vaddr opCode opType data).bind fun res cpu =>
      match res.1 with
      | none => .done (none, res.2) cpu
      | some entry => accessEntry env cpu vaddr opSize opType entry res.2

/-- `MTS_PROTO(lookup)` -/
def mtsLookup (env : Env W) (cpu : Cpu W) (vaddr : BitVec 64) : Outcome W (Option HostAddr) :=
  (mtsAccess env cpu vaddr .lookup 4 .read env.data).bind fun res cpu => .done res.1 cpu

def vmLoad (mem : HostAddr → Byte) (haddr : HostAddr) : Nat → BitVec 64
  | 0 => 0
  | n + 1 => (vmLoad mem haddr n <<< 8) ||| (mem (haddr + BitVec.ofNat 64 n)).setWidth 64

def vmStore (mem : HostAddr → Byte) (haddr : HostAddr) (size : Nat) (data : BitVec 64)
    (a : HostAddr) : Byte :=
  let i := (a - haddr).toNat
  if i < size then (data >>> (8 * (size - 1 - i))).setWidth 8 else mem a

def mtsRead (env : Env W) (cpu : Cpu W) (vaddr : BitVec 64) (op : MemOp) (size : Nat) :
    Outcome W (BitVec 64) :=
  (mtsAccess env cpu vaddr op size .read env.data).bind fun res cpu =>
    match res.1 with
    | some haddr => .done (vmLoad cpu.vm.mem haddr size) cpu
    | none => .done res.2 cpu

def mtsWrite (env : Env W) (cpu : Cpu W) (vaddr : BitVec 64) (op : MemOp) (size : Nat)
    (data : BitVec 64) : Outcome W Unit :=
  (mtsAccess env cpu vaddr op size .write data).bind fun res cpu =>
    match res.1 with
    | some haddr =>
      let vm := { cpu.vm with mem := vmStore cpu.vm.mem haddr size res.2 }
      .done () { cpu with vm := vm }
    | none => .done () cpu

/-- A load of `size` bytes into a register, through the conversion `conv`. -/
def mtsLoad (op : MemOp) (size : Nat) (conv : BitVec 64 → BitVec 64) (env : Env W) (cpu : Cpu W)
    (vaddr : BitVec 64) (reg : RegNum) : Outcome W Unit :=
  (mtsRead env cpu vaddr op size).bind fun data cpu => .done () (cpu.setGpr reg (conv data))

def mtsLb (env : Env W) := mtsLoad .lb 1 (signExtend · 8) env

def mtsLbu (env : Env W) := mtsLoad .lbu 1 (· &&& 0xff) env

def mtsLh (env : Env W) := mtsLoad .lh 2 (signExtend · 16) env

def mtsLhu (env : Env W) := mtsLoad .lhu 2 (· &&& 0xffff) env

def mtsLw (env : Env W) := mtsLoad .lw 4 (signExtend · 32) env

def mtsLwu (env : Env W) := mtsLoad .lwu 4 (· &&& 0xffffffff) env

def mtsLd (env : Env W) := mtsLoad .ld 8 id env

def mtsSb (env : Env W) (cpu : Cpu W) (vaddr : BitVec 64) (reg : RegNum) : Outcome W Unit :=
  mtsWrite env cpu vaddr .sb 1 (cpu.gpr reg &&& 0xff)

def mtsSh (env : Env W) (cpu : Cpu W) (vaddr : BitVec 64) (reg : RegNum) : Outcome W Unit :=
  mtsWrite env cpu vaddr .sh 2 (cpu.gpr reg &&& 0xffff)

def mtsSw (env : Env W) (cpu : Cpu W) (vaddr : BitVec 64) (reg : RegNum) : Outcome W Unit :=
  mtsWrite env cpu vaddr .sw 4 (cpu.gpr reg &&& 0xffffffff)

def mtsSd (env : Env W) (cpu : Cpu W) (vaddr : BitVec 64) (reg : RegNum) : Outcome W Unit :=
  mtsWrite env cpu vaddr .sd 8 (cpu.gpr reg)

def mtsLdc1 (env : Env W) (cpu : Cpu W) (vaddr : BitVec 64) (reg : RegNum) : Outcome W Unit :=
  (mtsRead env cpu vaddr .ldc1 8).bind fun data cpu =>
    .done () { cpu with fpu := Function.update cpu.fpu reg data }

def mtsSdc1 (env : Env W) (cpu : Cpu W) (vaddr : BitVec 64) (reg : RegNum) : Outcome W Unit :=
  mtsWrite env cpu vaddr .sdc1 8 (cpu.fpu reg)

/-- A shift of the host, which only looks at the low bits of the count. -/
def hostShl64 (x : BitVec 64) (count : Nat) : BitVec 64 := x <<< (count % 64)

def hostShr64 (x : BitVec 64) (count : Nat) : BitVec 64 := x >>> (count % 64)

def hostShr32 (x : BitVec 32) (count : Nat) : BitVec 32 := x >>> (count % 32)

def byteOfWord (vaddr : BitVec 64) : Nat := (vaddr &&& 0x03).toNat

def byteOfDouble (vaddr : BitVec 64) : Nat := (vaddr &&& 0x07).toNat

def mtsLwl (env : Env W) (cpu : Cpu W) (vaddr : BitVec 64) (reg : RegNum) : Outcome W Unit :=
  (mtsRead env cpu (vaddr &&& ~~~0x03) .lwl 4).bind fun data cpu =>
    let mShift := byteOfWord vaddr * 8
    let rMask := hostShl64 1 mShift - 1
    let data := hostShl64 data mShift
    .done () (cpu.setGpr reg (signExtend ((cpu.gpr reg &&& rMask) ||| data) 32))

def mtsLwr (env : Env W) (cpu : Cpu W) (vaddr : BitVec 64) (reg : RegNum) : Outcome W Unit :=
  (mtsRead env cpu (vaddr &&& ~~~0x03) .lwr 4).bind fun data cpu =>
    let mShift := (byteOfWord vaddr + 1) * 8
    let rMask := signExtend (hostShl64 1 mShift - 1) 32
    let data := signExtend (hostShr64 data (32 - mShift)) 32
    .done () (cpu.setGpr reg ((cpu.gpr reg &&& ~~~rMask) ||| data))

def mtsLdl (env : Env W) (cpu : Cpu W) (vaddr : BitVec 64) (reg : RegNum) : Outcome W Unit :=
  (mtsRead env cpu (vaddr &&& ~~~0x07) .ldl 8).bind fun data cpu =>
    let mShift := byteOfDouble vaddr * 8
    let rMask := hostShl64 1 mShift - 1
    .done () (cpu.setGpr reg ((cpu.gpr reg &&& rMask) ||| hostShl64 data mShift))

def mtsLdr (env : Env W) (cpu : Cpu W) (vaddr : BitVec 64) (reg : RegNum) : Outcome W Unit :=
  (mtsRead env cpu (vaddr &&& ~~~0x07) .ldr 8).bind fun data cpu =>
    let mShift := (byteOfDouble vaddr + 1) * 8
    let rMask := hostShl64 1 mShift - 1
    .done () (cpu.setGpr reg ((cpu.gpr reg &&& ~~~rMask) ||| hostShr64 data (64 - mShift)))

/-- What SWL stores for the data it has read; SWR, SDL and SDR likewise. -/
def swlData (val vaddr data : BitVec 64) : BitVec 64 :=
  let rShift := byteOfWord vaddr * 8
  let dMask := (hostShr32 0xffffffff rShift).setWidth 64
  (data &&& ~~~dMask) ||| hostShr64 (val &&& 0xffffffff) rShift

def swrData (val vaddr data : BitVec 64) : BitVec 64 :=
  let rShift := (byteOfWord vaddr + 1) * 8
  let dMask := (hostShr32 0xffffffff rShift).setWidth 64
  (data &&& dMask) ||| (hostShl64 val (32 - rShift) &&& 0xffffffff)

def sdlData (val vaddr data : BitVec 64) : BitVec 64 :=
  let rShift := byteOfDouble vaddr * 8
  let dMask := hostShr64 0xffffffffffffffff rShift
  (data &&& ~~~dMask) ||| hostShr64 val rShift

def sdrData (val vaddr data : BitVec 64) : BitVec 64 :=
  let rShift := (byteOfDouble vaddr + 1) * 8
  let dMask := hostShr64 0xffffffffffffffff rShift
  (data &&& dMask) ||| hostShl64 val (64 - rShift)

def mtsMerge (op : MemOp) (size : Nat) (merge : BitVec 64 → BitVec 64 → BitVec 64 → BitVec 64)
    (env : Env W) (cpu : Cpu W) (vaddr naddr : BitVec 64) (reg : RegNum) : Outcome W Unit :=
  (mtsRead env cpu naddr op size).bind fun data cpu =>
    mtsWrite env cpu naddr op size (merge (cpu.gpr reg) vaddr data)

def mtsSwl (env : Env W) (cpu : Cpu W) (vaddr : BitVec 64) :=
  mtsMerge .swl 4 swlData env cpu vaddr (vaddr &&& ~~~0x03)

def mtsSwr (env : Env W) (cpu : Cpu W) (vaddr : BitVec 64) :=
  mtsMerge .swr 4 swrData env cpu vaddr (vaddr &&& ~~~0x03)

def mtsSdl (env : Env W) (cpu : Cpu W) (vaddr : BitVec 64) :=
  mtsMerge .sdl 8 sdlData env cpu vaddr (vaddr &&& ~~~0x07)

def mtsSdr (env : Env W) (cpu : Cpu W) (vaddr : BitVec 64) :=
  mtsMerge .sdr 8 sdrData env cpu vaddr (vaddr &&& ~~~0x07)

def mtsLl (env : Env W) (cpu : Cpu W) (vaddr : BitVec 64) (reg : RegNum) : Outcome W Unit :=
  (mtsRead env cpu vaddr .ll 4).bind fun data cpu =>
    .done () { cpu.setGpr reg (signExtend data 32) with llBit := 1 }

def mtsSc (env : Env W) (cpu : Cpu W) (vaddr : BitVec 64) (reg : RegNum) : Outcome W Unit :=
  let store :=
    if cpu.llBit ≠ 0 then mtsWrite env cpu vaddr .sc 4 (cpu.gpr reg &&& 0xffffffff)
    else .done () cpu
  store.bind fun _ cpu => .done () (cpu.setGpr reg (cpu.llBit.setWidth 64))

/-- The table `mem_op_fn`; without the JIT there are no blocks for CACHE to
remove, and no instruction runs the lookup through this table. -/
def memOpFn (op : MemOp) (env : Env W) (cpu : Cpu W) (vaddr : BitVec 64) (reg : RegNum) :
    Outcome W Unit :=
  match op with
  | .lb => mtsLb env cpu vaddr reg
  | .lbu => mtsLbu env cpu vaddr reg
  | .lh => mtsLh env cpu vaddr reg
  | .lhu => mtsLhu env cpu vaddr reg
  | .lw => mtsLw env cpu vaddr reg
  | .lwu => mtsLwu env cpu vaddr reg
  | .ld => mtsLd env cpu vaddr reg
  | .sb => mtsSb env cpu vaddr reg
  | .sh => mtsSh env cpu vaddr reg
  | .sw => mtsSw env cpu vaddr reg
  | .sd => mtsSd env cpu vaddr reg
  | .lwl => mtsLwl env cpu vaddr reg
  | .lwr => mtsLwr env cpu vaddr reg
  | .ldl => mtsLdl env cpu vaddr reg
  | .ldr => mtsLdr env cpu vaddr reg
  | .swl => mtsSwl env cpu vaddr reg
  | .swr => mtsSwr env cpu vaddr reg
  | .sdl => mtsSdl env cpu vaddr reg
  | .sdr => mtsSdr env cpu vaddr reg
  | .ll => mtsLl env cpu vaddr reg
  | .sc => mtsSc env cpu vaddr reg
  | .ldc1 => mtsLdc1 env cpu vaddr reg
  | .sdc1 => mtsSdc1 env cpu vaddr reg
  | .cache | .lookup => .done () cpu

variable {env : Env W} {cpu cpu' : Cpu W}

theorem accessSpecial_done {vaddr data data' : BitVec 64} {mask : MtsAcc} {opCode : MemOp}
    {opType : MtsOp} (h : accessSpecial cpu vaddr mask opCode opType data = .done data' cpu') :
    cpu' = cpu := by
  cases mask with
  | u =>
    cases h
    rfl
  | t =>
    simp only [accessSpecial] at h
    split at h
    · cases h
      rfl
    · cases h
  | ae =>
    simp only [accessSpecial] at h
    split at h
    · cases h
      rfl
    · cases h

theorem mtsMap_done {opType : MtsOp} {map : MtsMap} {bucket : BitVec 14}
    {entry : Option MtsEntry} (h : mtsMap env cpu opType map bucket = .done entry cpu') :
    cpu' = { cpu with toShared := cpu'.toShared, mtsCache := cpu'.mtsCache } := by
  simp only [mtsMap] at h
  split at h
  · cases h
    rfl
  split at h
  · split at h
    · cases h
    · cases h
      rfl
  split at h
  · cases h
    rfl
  · cases h
    rfl

theorem slowLookup_done {vaddr data : BitVec 64} {opCode : MemOp} {opType : MtsOp}
    {res : Option MtsEntry × BitVec 64}
    (h : slowLookup env cpu vaddr opCode opType data = .done res cpu') :
    cpu' = { cpu with toShared := cpu'.toShared, mtsCache := cpu'.mtsCache } := by
  simp only [slowLookup] at h
  split at h
  · obtain ⟨_, _, hs, h⟩ := Outcome.bind_eq_done h
    cases h
    rw [accessSpecial_done hs]
  · obtain ⟨entry, mid, hm, h⟩ := Outcome.bind_eq_done h
    have hmid := mtsMap_done hm
    cases entry with
    | some entry =>
      cases h
      exact hmid
    | none =>
      obtain ⟨_, _, hs, h⟩ := Outcome.bind_eq_done h
      cases h
      rw [accessSpecial_done hs]
      exact hmid

theorem devAccessFast_done {devId : BitVec 6} {offset : BitVec 32} {opSize : Nat}
    {opType : MtsOp} {data : BitVec 64} {res : Option HostAddr × BitVec 64}
    (h : devAccessFast env cpu devId offset opSize opType data = .done res cpu') :
    cpu' = { cpu with toShared := cpu'.toShared, mtsCache := cpu'.mtsCache } := by
  simp only [devAccessFast] at h
  split at h
  · cases h
    rfl
  · cases h
    split <;> rfl

theorem mtsAccess_done {vaddr data : BitVec 64} {opCode : MemOp} {opSize : Nat} {opType : MtsOp}
    {res : Option HostAddr × BitVec 64}
    (h : mtsAccess env cpu vaddr opCode opSize opType data = .done res cpu') :
    cpu' = { cpu with toShared := cpu'.toShared, mtsCache := cpu'.mtsCache } := by
  simp only [mtsAccess] at h
  split at h
  · cases h
    rfl
  · obtain ⟨⟨entry, _⟩, mid, hs, h⟩ := Outcome.bind_eq_done h
    have hmid := slowLookup_done hs
    cases entry with
    | none =>
      cases h
      exact hmid
    | some entry =>
      simp only [accessEntry] at h
      split at h
      · rw [devAccessFast_done h, hmid]
      · cases h
        exact hmid

end Dynamips.Mips64
