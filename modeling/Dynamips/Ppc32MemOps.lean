import Dynamips.Mips64Unaligned
import Dynamips.Ppc32String

/-! The loads and stores of a PowerPC CPU (ppc32_mem.c) against the loads and stores of
their bytes, each of which has its address translated. -/
set_option autoImplicit false

namespace Dynamips.Ppc32

open Mips64 (vmLoad vmStore)

variable {W : Type}

structure FpuCpu (W : Type) extends FetchCpu W where
  fpr : RegNum → BitVec 64

def FpuCpu.setGpr (cpu : FpuCpu W) (reg : RegNum) (val : BitVec 32) : FpuCpu W :=
  { cpu with toRegs := cpu.toRegs.setGpr reg val }

def FpuCpu.setFpr (cpu : FpuCpu W) (reg : RegNum) (val : BitVec 64) : FpuCpu W :=
  { cpu with fpr := Function.update cpu.fpr reg val }

def swap32 (value : BitVec 32) : BitVec 32 :=
  (value >>> 24) ||| (((value >>> 16) &&& 0xff#32) <<< 8) |||
    (((value >>> 8) &&& 0xff#32) <<< 16) ||| ((value &&& 0xff#32) <<< 24)

/-- The access and the load of a load operation, which `write` ends -/
def loadWith (env : Env W) (cpu : FpuCpu W) (vaddr : BitVec 32) (size : Nat)
    (write : FpuCpu W → BitVec 64 → FpuCpu W) : Option (FpuCpu W) :=
  (memRead env cpu.toFetchCpu vaddr size).map fun (data, mid) =>
    write { cpu with toFetchCpu := mid } data

def storeWith (env : Env W) (cpu : FpuCpu W) (vaddr : BitVec 32) (size : Nat)
    (data : BitVec 64) : Option (FpuCpu W) :=
  (memWrite env cpu.toFetchCpu vaddr size data).map fun mid => { cpu with toFetchCpu := mid }

def lhz (env : Env W) (cpu : FpuCpu W) (vaddr : BitVec 32) (reg : RegNum) : Option (FpuCpu W) :=
  loadWith env cpu vaddr 2 fun cpu data => cpu.setGpr reg ((data &&& 0xFFFF).setWidth 32)

def lwz (env : Env W) (cpu : FpuCpu W) (vaddr : BitVec 32) (reg : RegNum) : Option (FpuCpu W) :=
  loadWith env cpu vaddr 4 fun cpu data => cpu.setGpr reg (data.setWidth 32)

def lwbr (env : Env W) (cpu : FpuCpu W) (vaddr : BitVec 32) (reg : RegNum) : Option (FpuCpu W) :=
  loadWith env cpu vaddr 4 fun cpu data => cpu.setGpr reg (swap32 (data.setWidth 32))

def lha (env : Env W) (cpu : FpuCpu W) (vaddr : BitVec 32) (reg : RegNum) : Option (FpuCpu W) :=
  loadWith env cpu vaddr 2 fun cpu data => cpu.setGpr reg (signExtend32 (data.setWidth 32) 16)

def lfd (env : Env W) (cpu : FpuCpu W) (vaddr : BitVec 32) (reg : RegNum) : Option (FpuCpu W) :=
  loadWith env cpu vaddr 8 fun cpu data => cpu.setFpr reg data

def sth (env : Env W) (cpu : FpuCpu W) (vaddr : BitVec 32) (reg : RegNum) : Option (FpuCpu W) :=
  storeWith env cpu vaddr 2 ((cpu.gpr reg &&& 0xffff).setWidth 64)

def stw (env : Env W) (cpu : FpuCpu W) (vaddr : BitVec 32) (reg : RegNum) : Option (FpuCpu W) :=
  storeWith env cpu vaddr 4 ((cpu.gpr reg).setWidth 64)

def stwbr (env : Env W) (cpu : FpuCpu W) (vaddr : BitVec 32) (reg : RegNum) : Option (FpuCpu W) :=
  storeWith env cpu vaddr 4 ((swap32 (cpu.gpr reg)).setWidth 64)

def stfd (env : Env W) (cpu : FpuCpu W) (vaddr : BitVec 32) (reg : RegNum) : Option (FpuCpu W) :=
  storeWith env cpu vaddr 8 (cpu.fpr reg)

inductive LoadOp where
  | lhz
  | lha
  | lwz
  | lwbr
  | lfd
deriving DecidableEq

inductive StoreOp where
  | sth
  | stw
  | stwbr
  | stfd
deriving DecidableEq

def LoadOp.size : LoadOp → Nat
  | .lhz | .lha => 2
  | .lwz | .lwbr => 4
  | .lfd => 8

def LoadOp.exec (op : LoadOp) (env : Env W) (cpu : FpuCpu W) (vaddr : BitVec 32) (reg : RegNum) :
    Option (FpuCpu W) :=
  match op with
  | .lhz => Ppc32.lhz env cpu vaddr reg
  | .lha => Ppc32.lha env cpu vaddr reg
  | .lwz => Ppc32.lwz env cpu vaddr reg
  | .lwbr => Ppc32.lwbr env cpu vaddr reg
  | .lfd => Ppc32.lfd env cpu vaddr reg

def StoreOp.exec (op : StoreOp) (env : Env W) (cpu : FpuCpu W) (vaddr : BitVec 32)
    (reg : RegNum) : Option (FpuCpu W) :=
  match op with
  | .sth => Ppc32.sth env cpu vaddr reg
  | .stw => Ppc32.stw env cpu vaddr reg
  | .stwbr => Ppc32.stwbr env cpu vaddr reg
  | .stfd => Ppc32.stfd env cpu vaddr reg

/-- What a load is to make of the bytes at its address, the first of which is the highest. -/
def LoadOp.result (op : LoadOp) (bytes : List Byte) (reg : RegNum) (cpu : FpuCpu W) : FpuCpu W :=
  match op with
  | .lhz | .lwz => cpu.setGpr reg ((loadValue bytes).setWidth 32)
  | .lha => cpu.setGpr reg (((loadValue bytes).setWidth 16).signExtend 32)
  | .lwbr => cpu.setGpr reg ((loadValue bytes.reverse).setWidth 32)
  | .lfd => cpu.setFpr reg (loadValue bytes)

def StoreOp.bytes (op : StoreOp) (cpu : FpuCpu W) (reg : RegNum) : List Byte :=
  match op with
  | .sth => storeBytes ((cpu.gpr reg).setWidth 64) 2
  | .stw => storeBytes ((cpu.gpr reg).setWidth 64) 4
  | .stwbr => (storeBytes ((cpu.gpr reg).setWidth 64) 4).reverse
  | .stfd => storeBytes (cpu.fpr reg) 8

def LoadBytewise (env : Env W) (cpu : FpuCpu W) (vaddr : BitVec 32) (reg : RegNum)
    (op : LoadOp) : Prop :=
  ∃ bytes after cpu', byteLoads env op.size cpu.toFetchCpu vaddr = some (bytes, after) ∧
    op.exec env cpu vaddr reg = some cpu' ∧
    cpu'.toRegs = (op.result bytes reg cpu).toRegs ∧ cpu'.fpr = (op.result bytes reg cpu).fpr ∧
    cpu'.vm.mem = cpu.vm.mem

def StoreBytewise (env : Env W) (cpu : FpuCpu W) (vaddr : BitVec 32) (reg : RegNum)
    (op : StoreOp) : Prop :=
  ∃ after cpu', byteStores env (op.bytes cpu reg) cpu.toFetchCpu vaddr = some after ∧
    op.exec env cpu vaddr reg = some cpu' ∧
    cpu'.toRegs = cpu.toRegs ∧ cpu'.fpr = cpu.fpr ∧ cpu'.vm = after.vm

/-! Where the bytes are in the host. -/

/-- The entry that serves an access to memory, and the CPU that has looked it up -/
def hostEntry (env : Env W) (cpu : Cpu W) (vaddr : BitVec 32) (opType : MtsOp) :
    Option (MtsEntry × Cpu W) :=
  match fastHit cpu vaddr .dcache opType with
  | some entry => some (entry, cpu)
  | none =>
    match slowLookup env cpu vaddr .dcache opType with
    | some (.ok entry, mid) => if entry.flags &&& MTS_FLAG_DEV ≠ 0 then none else some (entry, mid)
    | _ => none

def rawAfter (cpu : Cpu W) (vaddr : BitVec 32) (opType : MtsOp) (entry : MtsEntry) : Cpu W :=
  match rawAccess cpu vaddr .dcache opType entry 0 with
  | .host _ _ mid => mid
  | _ => cpu

def hostAccess (env : Env W) (cpu : Cpu W) (vaddr : BitVec 32) (opType : MtsOp) :
    Option (HostAddr × Cpu W) :=
  (hostEntry env cpu vaddr opType).map fun (entry, mid) =>
    (entry.hpa + (vaddr &&& PPC32_MIN_PAGE_IMASK).setWidth 64, rawAfter mid vaddr opType entry)

/-- The loads of the bytes go to memory, one host address after the other. -/
def HostLoads (env : Env W) : Nat → Cpu W → BitVec 32 → HostAddr → Prop
  | 0, _, _, _ => True
  | n + 1, cpu, vaddr, haddr =>
    ∃ mid, hostAccess env cpu vaddr .read = some (haddr, mid) ∧
      HostLoads env n mid (vaddr + 1) (haddr + 1)

/-- So do the stores of the bytes, on pages of the host that are there already. -/
def HostStores (env : Env W) : List Byte → Cpu W → BitVec 32 → HostAddr → Prop
  | [], _, _, _ => True
  | b :: bytes, cpu, vaddr, haddr =>
    ∃ mid, hostAccess env cpu vaddr .write = some (haddr, mid) ∧ mid.vm = cpu.vm ∧
      HostStores env bytes (storeAt mid haddr 1 (b.setWidth 64)) (vaddr + 1) (haddr + 1)

/-- The first store may still have to take a page of the host. -/
def HostStoresFrom (env : Env W) (bytes : List Byte) (cpu : Cpu W) (vaddr : BitVec 32)
    (haddr : HostAddr) : Prop :=
  match bytes with
  | [] => True
  | b :: bytes =>
    ∃ mid, hostAccess env cpu vaddr .write = some (haddr, mid) ∧
      HostStores env bytes (storeAt mid haddr 1 (b.setWidth 64)) (vaddr + 1) (haddr + 1)

section Accesses

variable {env : Env W} {cpu mid : Cpu W} {fcpu : FetchCpu W} {vaddr : BitVec 32}
  {opType : MtsOp} {haddr : HostAddr} {entry : MtsEntry}

theorem rawAccess_eq (cpu : Cpu W) (vaddr : BitVec 32) (opType : MtsOp) (entry : MtsEntry)
    (data : BitVec 64) : rawAccess cpu vaddr .dcache opType entry data =
      .host (entry.hpa + (vaddr &&& PPC32_MIN_PAGE_IMASK).setWidth 64) data
        (rawAfter cpu vaddr opType entry) := by
  simp only [rawAfter, rawAccess]
  split
  · rfl
  · rfl

theorem rawAfter_read (cpu : Cpu W) (vaddr : BitVec 32) (entry : MtsEntry) :
    rawAfter cpu vaddr .read entry = cpu := by
  simp only [rawAfter, rawAccess, reduceCtorEq, false_and, if_false]

theorem rawAfter_kept (cpu : Cpu W) (vaddr : BitVec 32) (opType : MtsOp) (entry : MtsEntry) :
    (rawAfter cpu vaddr opType entry).toRegs = cpu.toRegs ∧
      (rawAfter cpu vaddr opType entry).vm = cpu.vm := by
  have heq := rawAccess_eq cpu vaddr opType entry 0
  simp only [rawAccess] at heq
  split at heq
  · rw [AccessResult.host.injEq] at heq
    rw [← heq.2.2]
    exact ⟨rfl, rfl⟩
  · rw [AccessResult.host.injEq] at heq
    rw [← heq.2.2]
    exact ⟨rfl, rfl⟩

theorem memAccess_host (h : hostAccess env cpu vaddr opType = some (haddr, mid)) (size : Nat)
    (data : BitVec 64) :
    memAccess env cpu vaddr .dcache false size opType data = .host haddr data mid := by
  simp only [hostAccess, hostEntry, Option.map_eq_some_iff] at h
  obtain ⟨⟨entry, found⟩, hentry, heq⟩ := h
  simp only [Prod.mk.injEq] at heq
  obtain ⟨rfl, rfl⟩ := heq
  simp only [memAccess]
  cases hhit : fastHit cpu vaddr .dcache opType with
  | some hit =>
    rw [hhit] at hentry
    cases hentry
    exact rawAccess_eq cpu vaddr opType entry data
  | none =>
    simp only [hhit] at hentry
    split at hentry
    · rename_i entry' found' hs
      split at hentry
      · cases hentry
      · rename_i hdev
        cases hentry
        simp only [hs, if_neg hdev]
        exact rawAccess_eq found vaddr opType entry data
    · cases hentry

theorem sparse_read_mem {vm vm' : Vm W} {dev : VDevice} {paddr : BitVec 64} {cow : Bool}
    (h : devSparseGetHostAddr vm dev paddr .read = some (haddr, cow, vm')) :
    vm'.mem = vm.mem := by
  simp only [devSparseGetHostAddr, vmAllocHostPage, Option.bind_eq_bind, Option.bind_map] at h
  split at h
  · cases h
    rfl
  · split at h
    · rw [Option.bind_eq_some_iff] at h
      obtain ⟨page, -, heq⟩ := h
      cases heq
      rfl
    · cases h
      rfl

theorem memMap_kept {map : MtsMap} {cid : Cid} {bucket : BitVec 14} {found : Option MtsEntry}
    (h : memMap env cpu opType map cid bucket = some (found, mid)) :
    mid.toRegs = cpu.toRegs ∧ (opType = .read → mid.vm.mem = cpu.vm.mem) := by
  simp only [memMap] at h
  split at h
  · cases h
    exact ⟨rfl, fun _ => rfl⟩
  · split at h
    · split at h
      · cases h
      · rename_i hsparse
        cases h
        refine ⟨rfl, fun hread => ?_⟩
        subst hread
        exact sparse_read_mem hsparse
    · split at h
      · cases h
        exact ⟨rfl, fun _ => rfl⟩
      · cases h
        exact ⟨rfl, fun _ => rfl⟩

theorem hostAccess_kept (h : hostAccess env cpu vaddr opType = some (haddr, mid)) :
    mid.toRegs = cpu.toRegs ∧ (opType = .read → mid.vm.mem = cpu.vm.mem) := by
  simp only [hostAccess, hostEntry, Option.map_eq_some_iff] at h
  obtain ⟨⟨entry, found⟩, hentry, heq⟩ := h
  simp only [Prod.mk.injEq] at heq
  obtain ⟨rfl, rfl⟩ := heq
  obtain ⟨hregs, hvm⟩ := rawAfter_kept found vaddr opType entry
  rw [hregs, hvm]
  split at hentry
  · cases hentry
    exact ⟨rfl, fun _ => rfl⟩
  · split at hentry
    · rename_i hs
      split at hentry
      · cases hentry
      · cases hentry
        simp only [slowLookup] at hs
        split at hs
        · cases hs
        · split at hs
          · cases hs
          · rename_i hm
            cases hs
            exact memMap_kept hm
          · cases hs
    · cases hentry

theorem memRead_host (h : hostAccess env fcpu.toCpu vaddr .read = some (haddr, mid)) (size : Nat) :
    memRead env fcpu vaddr size =
      some (loadValue (hostRead fcpu.vm.mem haddr size), { fcpu with toCpu := mid }) := by
  rw [memRead, memAccess_host h, ← vmLoad_eq, ← (hostAccess_kept h).2 rfl]

theorem memWrite_host (h : hostAccess env fcpu.toCpu vaddr .write = some (haddr, mid))
    (size : Nat) (data : BitVec 64) :
    memWrite env fcpu vaddr size data =
      some { fcpu with toCpu := storeAt mid haddr size data } := by
  rw [memWrite, memAccess_host h]

theorem byteLoads_host {n : Nat} (h : HostLoads env n fcpu.toCpu vaddr haddr) :
    ∃ after, byteLoads env n fcpu vaddr = some (hostRead fcpu.vm.mem haddr n, after) := by
  induction n generalizing fcpu vaddr haddr with
  | zero => exact ⟨fcpu, rfl⟩
  | succ n ih =>
    obtain ⟨mid, haccess, hrest⟩ := h
    have hmem : mid.vm.mem = fcpu.vm.mem := (hostAccess_kept haccess).2 rfl
    obtain ⟨after, hloads⟩ := @ih { fcpu with toCpu := mid } (vaddr + 1) (haddr + 1) hrest
    refine ⟨after, ?_⟩
    have hbyte : (loadValue (hostRead fcpu.vm.mem haddr 1)).setWidth 8 = fcpu.vm.mem haddr := by
      rw [← vmLoad_eq]
      exact vmLoad_byte fcpu.vm.mem haddr
    simp only [byteLoads, memRead_host haccess, Option.bind_some, hloads, Option.map_some,
      hostRead, hmem, Option.some.injEq, Prod.mk.injEq, List.cons.injEq, and_true]
    exact hbyte

theorem storeAt_byte (cpu : Cpu W) (haddr : HostAddr) (b : Byte) :
    (storeAt cpu haddr 1 (b.setWidth 64)).vm =
      { cpu.vm with mem := Function.update cpu.vm.mem haddr b } := by
  rw [storeAt, vmStore_byte]

theorem byteStores_host {bytes : List Byte} (h : HostStores env bytes fcpu.toCpu vaddr haddr) :
    ∃ after, byteStores env bytes fcpu vaddr = some after ∧
      after.vm = { fcpu.vm with mem := hostWrite fcpu.vm.mem haddr bytes } := by
  induction bytes generalizing fcpu vaddr haddr with
  | nil => exact ⟨fcpu, rfl, rfl⟩
  | cons b bytes ih =>
    obtain ⟨mid, haccess, hvm, hrest⟩ := h
    obtain ⟨after, hstores, hafter⟩ :=
      @ih { fcpu with toCpu := storeAt mid haddr 1 (b.setWidth 64) } (vaddr + 1) (haddr + 1) hrest
    refine ⟨after, ?_, ?_⟩
    · rw [byteStores, memWrite_host haccess, Option.bind_some, hstores]
    · rw [hafter]
      simp only [storeAt_byte, hvm, hostWrite]

theorem byteStores_from {bytes : List Byte} (hne : bytes ≠ [])
    (h : HostStoresFrom env bytes fcpu.toCpu vaddr haddr) :
    ∃ mid after, hostAccess env fcpu.toCpu vaddr .write = some (haddr, mid) ∧
      byteStores env bytes fcpu vaddr = some after ∧
      after.vm = { mid.vm with mem := hostWrite mid.vm.mem haddr bytes } := by
  cases bytes with
  | nil => exact absurd rfl hne
  | cons b bytes =>
    obtain ⟨mid, haccess, hrest⟩ := h
    obtain ⟨after, hstores, hafter⟩ := @byteStores_host W env
      { fcpu with toCpu := storeAt mid haddr 1 (b.setWidth 64) } (vaddr + 1) (haddr + 1) bytes hrest
    refine ⟨mid, after, haccess, ?_, ?_⟩
    · rw [byteStores, memWrite_host haccess, Option.bind_some, hstores]
    · rw [hafter]
      simp only [storeAt_byte, hostWrite]

end Accesses

/-! The bytes of a value in the order of `swap32`. -/

theorem byteMask_getLsbD (x : BitVec 32) (p : Nat) :
    (x &&& 0xff#32).getLsbD p = (decide (p < 8) && x.getLsbD p) := by
  have hmask : ∀ q : Fin 32, (0xff#32).getLsbD q = decide (q.val < 8) := by decide
  by_cases hp : p < 32
  · rw [BitVec.getLsbD_and, hmask ⟨p, hp⟩, Bool.and_comm]
  · rw [BitVec.getLsbD_of_ge _ p (by omega), BitVec.getLsbD_of_ge x p (by omega), Bool.and_false]

theorem swap32_getLsbD (x : BitVec 32) {k i : Nat} (hk : k < 4) (hi : i < 8) :
    (swap32 x).getLsbD (8 * k + i) = x.getLsbD (8 * (3 - k) + i) := by
  simp only [swap32, BitVec.getLsbD_or, BitVec.getLsbD_shiftLeft, BitVec.getLsbD_ushiftRight,
    byteMask_getLsbD]
  obtain rfl | rfl | rfl | rfl : k = 0 ∨ k = 1 ∨ k = 2 ∨ k = 3 := by omega
  all_goals grind

theorem swap32_byte (x : BitVec 32) {k : Nat} (hk : k < 4) :
    ((swap32 x).setWidth 64 >>> (8 * k)).setWidth 8 =
      (x.setWidth 64 >>> (8 * (3 - k))).setWidth 8 := by
  apply BitVec.eq_of_getLsbD_eq
  intro i hi
  have hlow : 8 * k + i < 64 := by omega
  have hhigh : 8 * (3 - k) + i < 64 := by omega
  simp only [BitVec.getLsbD_setWidth, BitVec.getLsbD_ushiftRight, swap32_getLsbD x hk hi, hlow,
    hhigh]

theorem storeBytes_swap32 (x : BitVec 32) :
    storeBytes ((swap32 x).setWidth 64) 4 = (storeBytes (x.setWidth 64) 4).reverse := by
  have h := fun k (hk : k < 4) => swap32_byte x hk
  simp only [storeBytes, List.reverse_cons, List.reverse_nil, List.nil_append, List.cons_append,
    List.cons.injEq, and_true]
  exact ⟨h 3 (by omega), h 2 (by omega), h 1 (by omega), h 0 (by omega)⟩

theorem swap32_loadValue {bytes : List Byte} (h : bytes.length = 4) :
    swap32 ((loadValue bytes).setWidth 32) = (loadValue bytes.reverse).setWidth 32 := by
  have hbytes : ∀ l : List Byte, l.length = 4 →
      storeBytes (((loadValue l).setWidth 32).setWidth 64) 4 = l := by
    intro l hl
    have hback := @Mips64.storeBytes_loadValue l (by omega)
    rw [hl] at hback
    rw [← hback]
    apply Mips64.storeBytes_congr
    intro p hp
    have hwide : p < 64 := by omega
    have hlow : p < 32 := by omega
    simp [hwide, hlow, hback]
  apply BitVec.eq_of_getLsbD_eq
  intro i hi
  have hsame : storeBytes ((swap32 ((loadValue bytes).setWidth 32)).setWidth 64) 4 =
      storeBytes (((loadValue bytes.reverse).setWidth 32).setWidth 64) 4 := by
    rw [storeBytes_swap32, hbytes bytes h, hbytes bytes.reverse (by rw [List.length_reverse, h])]
  have hbit := Mips64.getLsbD_of_storeBytes hsame (show i < 8 * 4 by omega)
  have hwide : i < 64 := by omega
  simpa [hwide, hi] using hbit

theorem signExtend32_half (x : BitVec 64) :
    signExtend32 (x.setWidth 32) 16 = (x.setWidth 16).signExtend 32 := by
  apply BitVec.eq_of_getLsbD_eq
  intro i hi
  simp only [signExtend32, BitVec.getLsbD_sshiftRight, BitVec.getLsbD_shiftLeft,
    BitVec.getLsbD_setWidth, BitVec.getLsbD_signExtend, BitVec.msb_eq_getLsbD_last]
  grind

theorem and_half (bytes : List Byte) (h : bytes.length = 2) :
    loadValue bytes &&& 0xFFFF = loadValue bytes := by
  apply BitVec.eq_of_getLsbD_eq
  intro i hi
  have hmask : ∀ j : Fin 64, (0xFFFF : BitVec 64).getLsbD j = decide (j.val < 16) := by decide
  rw [BitVec.getLsbD_and, hmask ⟨i, hi⟩]
  by_cases hlow : i < 16
  · simp [hlow]
  · rw [Mips64.loadValue_getLsbD bytes (by omega), Bool.false_and]

theorem LoadOp.exec_host {env : Env W} {cpu : FpuCpu W} {vaddr : BitVec 32} {haddr : HostAddr}
    {mid : Cpu W} (op : LoadOp) (reg : RegNum)
    (h : hostAccess env cpu.toCpu vaddr .read = some (haddr, mid)) :
    op.exec env cpu vaddr reg =
      some (op.result (hostRead cpu.vm.mem haddr op.size) reg { cpu with toCpu := mid }) := by
  have hread : ∀ size, memRead env cpu.toFetchCpu vaddr size =
      some (loadValue (hostRead cpu.vm.mem haddr size), { cpu.toFetchCpu with toCpu := mid }) :=
    fun size => memRead_host h size
  have hlen := fun n => length_hostRead cpu.vm.mem haddr n
  cases op with
  | lhz =>
    simp only [LoadOp.exec, Ppc32.lhz, loadWith, hread, Option.map_some, LoadOp.result, LoadOp.size,
      and_half _ (hlen 2)]
  | lha =>
    simp only [LoadOp.exec, Ppc32.lha, loadWith, hread, Option.map_some, LoadOp.result, LoadOp.size,
      signExtend32_half]
  | lwz =>
    simp only [LoadOp.exec, Ppc32.lwz, loadWith, hread, Option.map_some, LoadOp.result,
      LoadOp.size]
  | lwbr =>
    simp only [LoadOp.exec, Ppc32.lwbr, loadWith, hread, Option.map_some, LoadOp.result,
      LoadOp.size, swap32_loadValue (hlen 4)]
  | lfd =>
    simp only [LoadOp.exec, Ppc32.lfd, loadWith, hread, Option.map_some, LoadOp.result,
      LoadOp.size]

theorem storeWith_host {env : Env W} {cpu : FpuCpu W} {vaddr : BitVec 32} {haddr : HostAddr}
    {mid : Cpu W} (h : hostAccess env cpu.toCpu vaddr .write = some (haddr, mid)) {size : Nat}
    (hsize : size ≤ 8) (data : BitVec 64) :
    ∃ cpu', storeWith env cpu vaddr size data = some cpu' ∧ cpu'.toRegs = mid.toRegs ∧
      cpu'.fpr = cpu.fpr ∧
      cpu'.vm = { mid.vm with mem := hostWrite mid.vm.mem haddr (storeBytes data size) } := by
  refine ⟨{ cpu with toCpu := storeAt mid haddr size data }, ?_, rfl, rfl, ?_⟩
  · have hwrite : memWrite env cpu.toFetchCpu vaddr size data =
        some { cpu.toFetchCpu with toCpu := storeAt mid haddr size data } :=
      memWrite_host h size data
    rw [storeWith, hwrite, Option.map_some]
  · rw [storeAt, vmStore_eq _ _ (by omega)]

theorem StoreOp.exec_host {env : Env W} {cpu : FpuCpu W} {vaddr : BitVec 32} {haddr : HostAddr}
    {mid : Cpu W} (op : StoreOp) (reg : RegNum)
    (h : hostAccess env cpu.toCpu vaddr .write = some (haddr, mid)) :
    ∃ cpu', op.exec env cpu vaddr reg = some cpu' ∧ cpu'.toRegs = mid.toRegs ∧
      cpu'.fpr = cpu.fpr ∧
      cpu'.vm = { mid.vm with mem := hostWrite mid.vm.mem haddr (op.bytes cpu reg) } := by
  cases op with
  | sth =>
    have hbytes : storeBytes ((cpu.gpr reg &&& 0xffff).setWidth 64) 2 =
        storeBytes ((cpu.gpr reg).setWidth 64) 2 := by
      apply Mips64.storeBytes_congr
      intro p hp
      have hmask : ∀ j : Fin 16, (0xffff : BitVec 32).getLsbD j = true := by decide
      rw [BitVec.getLsbD_setWidth, BitVec.getLsbD_setWidth, BitVec.getLsbD_and,
        hmask ⟨p, by omega⟩, Bool.and_true]
    have hstore := storeWith_host h (show 2 ≤ 8 by omega) ((cpu.gpr reg &&& 0xffff).setWidth 64)
    rw [hbytes] at hstore
    exact hstore
  | stw => exact storeWith_host h (by omega) _
  | stwbr =>
    have hstore := storeWith_host h (show 4 ≤ 8 by omega) ((swap32 (cpu.gpr reg)).setWidth 64)
    rw [storeBytes_swap32] at hstore
    exact hstore
  | stfd => exact storeWith_host h (by omega) _

theorem LoadOp.result_regs {cpu cpu' : FpuCpu W} (h : cpu'.toRegs = cpu.toRegs)
    (hf : cpu'.fpr = cpu.fpr) (op : LoadOp) (bytes : List Byte) (reg : RegNum) :
    (op.result bytes reg cpu').toRegs = (op.result bytes reg cpu).toRegs ∧
      (op.result bytes reg cpu').fpr = (op.result bytes reg cpu).fpr ∧
      (op.result bytes reg cpu').vm = cpu'.vm := by
  cases op <;> simp [LoadOp.result, FpuCpu.setGpr, FpuCpu.setFpr, h, hf]

/-- Where the bytes, each with its own translation, lie one after the other in the memory
of the host, the loads and the stores do what those of the bytes do. -/
theorem mem_ops_bytewise (env : Env W) (cpu : FpuCpu W) (vaddr : BitVec 32) (reg : RegNum)
    (haddr : HostAddr) :
    (∀ op : LoadOp, HostLoads env op.size cpu.toCpu vaddr haddr →
      LoadBytewise env cpu vaddr reg op) ∧
    ∀ op : StoreOp, HostStoresFrom env (op.bytes cpu reg) cpu.toCpu vaddr haddr →
      StoreBytewise env cpu vaddr reg op := by
  constructor
  · intro op h
    obtain ⟨after, hbytes⟩ := byteLoads_host h
    have haccess : ∃ mid, hostAccess env cpu.toCpu vaddr .read = some (haddr, mid) := by
      cases op with
      | lhz | lha | lwz | lwbr | lfd =>
        obtain ⟨mid, haccess, -⟩ := h
        exact ⟨mid, haccess⟩
    obtain ⟨mid, haccess⟩ := haccess
    obtain ⟨hregs, hmem⟩ := hostAccess_kept haccess
    have hexec := op.exec_host reg haccess
    obtain ⟨hsame, hfpr, hvm⟩ := @LoadOp.result_regs W cpu { cpu with toCpu := mid } hregs rfl op
      (hostRead cpu.vm.mem haddr op.size) reg
    refine ⟨_, after, _, hbytes, hexec, hsame, hfpr, ?_⟩
    rw [hvm]
    exact hmem rfl
  · intro op h
    have hne : op.bytes cpu reg ≠ [] := by
      cases op <;> simp [StoreOp.bytes, storeBytes]
    obtain ⟨mid, after, haccess, hbytes, hafter⟩ := byteStores_from hne h
    obtain ⟨cpu', hexec, hregs, hfpr, hvm⟩ := op.exec_host reg haccess
    exact ⟨after, cpu', hbytes, hexec, hregs.trans (hostAccess_kept haccess).1, hfpr,
      hvm.trans hafter.symm⟩

/-! Inside a page of memory the bytes lie one after the other. -/

section Page

variable {env : Env W} {cpu mid : Cpu W} {vaddr : BitVec 32} {opType : MtsOp} {entry : MtsEntry}

theorem toNat_pageImask (v : BitVec 32) :
    ((v &&& PPC32_MIN_PAGE_IMASK).setWidth 64).toNat = v.toNat % 4096 := by
  rw [and_pageImask, BitVec.toNat_setWidth, BitVec.toNat_setWidth]
  omega

theorem pageOf_congr {v w : BitVec 32} (h : v.toNat / 4096 = w.toNat / 4096) :
    pageOf v = pageOf w := by
  apply BitVec.eq_of_getLsbD_eq
  intro i hi
  rw [pageOf_getLsbD, pageOf_getLsbD]
  by_cases hlow : 12 ≤ i
  · obtain ⟨k, rfl⟩ := Nat.exists_eq_add_of_le hlow
    have hbit := congrArg (Nat.testBit · k) h
    have hpow : (4096 : Nat) = 2 ^ 12 := rfl
    simp only [hpow, Nat.testBit_div_two_pow] at hbit
    simp only [BitVec.getLsbD, Nat.add_comm 12 k, hbit]
  · simp [hlow]

theorem next_byte {v : BitVec 32} (h : v.toNat % 4096 + 1 < 4096) :
    pageOf (v + 1) = pageOf v ∧ mtsHash (v + 1) = mtsHash v ∧
      ((v + 1) &&& PPC32_MIN_PAGE_IMASK).setWidth 64 =
        (v &&& PPC32_MIN_PAGE_IMASK).setWidth 64 + 1 ∧
      (v + 1).toNat % 4096 = v.toNat % 4096 + 1 := by
  have hone : (v + 1).toNat = v.toNat + 1 := by
    have hlt := v.isLt
    rw [BitVec.toNat_add]
    have hval : (1 : BitVec 32).toNat = 1 := rfl
    omega
  have hpage : pageOf (v + 1) = pageOf v := pageOf_congr (by omega)
  refine ⟨hpage, ?_, ?_, ?_⟩
  · rw [← mtsHash_pageOf, hpage, mtsHash_pageOf]
  · apply BitVec.eq_of_toNat_eq
    have hval : (1 : BitVec 64).toNat = 1 := rfl
    rw [BitVec.toNat_add, toNat_pageImask, toNat_pageImask, hone, hval]
    omega
  · rw [hone]
    omega

def Serves (cpu : Cpu W) (vaddr : BitVec 32) (opType : MtsOp) (hpa : HostAddr) : Prop :=
  ∃ entry, cpu.mtsCache .dcache (mtsHash vaddr) = entry ∧ entry.gvpa = pageOf vaddr ∧
    entry.hpa = hpa ∧ ¬ (opType = .write ∧ entry.flags &&& MTS_FLAG_COW ≠ 0)

theorem Serves.next {hpa : HostAddr} (h : Serves cpu vaddr opType hpa)
    (hv : vaddr.toNat % 4096 + 1 < 4096) : Serves cpu (vaddr + 1) opType hpa := by
  obtain ⟨hpage, hhash, -⟩ := next_byte hv
  rw [Serves, hpage, hhash]
  exact h

theorem serves_rawAfter {hpa : HostAddr}
    (hc : cpu.mtsCache .dcache (mtsHash vaddr) = entry) (htag : entry.gvpa = pageOf vaddr)
    (hhpa : entry.hpa = hpa) (hcow : ¬ (opType = .write ∧ entry.flags &&& MTS_FLAG_COW ≠ 0)) :
    Serves (rawAfter cpu vaddr opType entry) vaddr opType hpa := by
  have heq := rawAccess_eq cpu vaddr opType entry 0
  simp only [rawAccess] at heq
  split at heq
  · rw [AccessResult.host.injEq] at heq
    rw [← heq.2.2]
    refine ⟨_, rfl, ?_⟩
    simp only [Cpu.setMts, Function.update_self]
    have hflags : entry.flags &&& ~~~MTS_FLAG_EXEC &&& MTS_FLAG_COW =
        entry.flags &&& MTS_FLAG_COW := by
      rw [BitVec.and_assoc]
      rfl
    rw [hflags]
    exact ⟨htag, hhpa, hcow⟩
  · rw [AccessResult.host.injEq] at heq
    rw [← heq.2.2]
    exact ⟨entry, hc, htag, hhpa, hcow⟩

theorem Serves.access {hpa : HostAddr} (env : Env W) (h : Serves cpu vaddr opType hpa) :
    ∃ mid, hostAccess env cpu vaddr opType =
        some (hpa + (vaddr &&& PPC32_MIN_PAGE_IMASK).setWidth 64, mid) ∧
      mid.vm = cpu.vm ∧ Serves mid vaddr opType hpa := by
  obtain ⟨entry, hc, htag, hhpa, hcow⟩ := h
  have hhit : fastHit cpu vaddr .dcache opType = some entry := fastHit_eq_some.mpr ⟨hc, htag, hcow⟩
  refine ⟨rawAfter cpu vaddr opType entry, ?_, (rawAfter_kept cpu vaddr opType entry).2,
    serves_rawAfter hc htag hhpa hcow⟩
  simp only [hostAccess, hostEntry, hhit, Option.map_some, hhpa]

theorem Serves.loads {hpa : HostAddr} (env : Env W) (n : Nat) (h : Serves cpu vaddr .read hpa)
    (hv : vaddr.toNat % 4096 + n ≤ 4096) :
    HostLoads env n cpu vaddr (hpa + (vaddr &&& PPC32_MIN_PAGE_IMASK).setWidth 64) := by
  induction n generalizing cpu vaddr with
  | zero => trivial
  | succ n ih =>
    obtain ⟨mid, haccess, -, hserves⟩ := h.access env
    refine ⟨mid, haccess, ?_⟩
    cases n with
    | zero => trivial
    | succ n =>
      have hin : vaddr.toNat % 4096 + 1 < 4096 := by omega
      obtain ⟨-, -, hoffset, hsum⟩ := next_byte hin
      have hnext := ih (hserves.next hin) (by omega)
      rwa [hoffset, ← BitVec.add_assoc] at hnext

theorem Serves.stores {hpa : HostAddr} (env : Env W) (bytes : List Byte)
    (h : Serves cpu vaddr .write hpa) (hv : vaddr.toNat % 4096 + bytes.length ≤ 4096) :
    HostStores env bytes cpu vaddr (hpa + (vaddr &&& PPC32_MIN_PAGE_IMASK).setWidth 64) := by
  induction bytes generalizing cpu vaddr with
  | nil => trivial
  | cons b bytes ih =>
    obtain ⟨mid, haccess, hvm, hserves⟩ := h.access env
    refine ⟨mid, haccess, hvm, ?_⟩
    cases bytes with
    | nil => trivial
    | cons b' bytes =>
      simp only [List.length_cons] at hv ih
      have hin : vaddr.toNat % 4096 + 1 < 4096 := by omega
      obtain ⟨-, -, hoffset, hsum⟩ := next_byte hin
      have hstored : Serves (storeAt mid (hpa + (vaddr &&& PPC32_MIN_PAGE_IMASK).setWidth 64) 1
          (b.setWidth 64)) (vaddr + 1) .write hpa := hserves.next hin
      have hnext := ih hstored (by omega)
      rwa [hoffset, ← BitVec.add_assoc] at hnext

theorem xlate_tag {cid : Cid} {map : MtsMap} (h405 : cpu.is405 = false)
    (h : xlate cpu vaddr cid = some map) : map.vaddr.setWidth 32 = pageOf vaddr := by
  have hwidth : ∀ v : BitVec 32, (v.setWidth 64).setWidth 32 = v := by
    intro v
    rw [BitVec.setWidth_setWidth_of_le _ (by omega), BitVec.setWidth_eq]
  rw [xlate, h405, if_neg Bool.false_ne_true] at h
  simp only [xlate32] at h
  split at h
  · cases h
    exact hwidth _
  · split at h
    · rename_i hbat
      cases h
      obtain ⟨i, -, hmatch⟩ := List.exists_of_findSome?_eq_some hbat
      simp only [batMatch] at hmatch
      split at hmatch
      · cases hmatch
      · split at hmatch
        · cases hmatch
          exact hwidth _
        · cases hmatch
    · obtain ⟨paddr, -, rfl⟩ := Option.map_eq_some_iff.mp h
      exact hwidth _

theorem memMap_serves {map : MtsMap} {bucket : BitVec 14}
    (hm : memMap env cpu opType map .dcache bucket = some (some entry, mid))
    (hdev : entry.flags &&& MTS_FLAG_DEV = 0) :
    mid.mtsCache .dcache bucket = entry ∧ entry.gvpa = map.vaddr.setWidth 32 ∧
      ¬ (opType = .write ∧ entry.flags &&& MTS_FLAG_COW ≠ 0) := by
  simp only [memMap] at hm
  split at hm
  · cases hm
  · split at hm
    · split at hm
      · cases hm
      · rename_i cow vm hsparse
        cases hm
        refine ⟨?_, rfl, ?_⟩
        · simp only [Cpu.setMts, Function.update_self]
        · rintro ⟨rfl, hflag⟩
          have hcow := (flags_cow cow _).mp hflag
          obtain ⟨-, -, hfalse, -⟩ | ⟨-, -, hread, -⟩ | ⟨-, hfalse, -⟩ :=
            devSparseGetHostAddr_cases hsparse
          · rw [hfalse] at hcow
            cases hcow
          · cases hread
          · rw [hfalse] at hcow
            cases hcow
    · split at hm
      · cases hm
        change MTS_FLAG_DEV &&& MTS_FLAG_DEV = 0 at hdev
        exact absurd hdev (by decide)
      · cases hm
        refine ⟨?_, rfl, ?_⟩
        · simp only [Cpu.setMts, Function.update_self]
        · rintro ⟨-, hflag⟩
          have hexec : (if false = true then MTS_FLAG_COW else 0) ||| execFlag cpu map =
              execFlag cpu map := BitVec.zero_or
          have hcow : execFlag cpu map &&& MTS_FLAG_COW ≠ 0 ↔ false = true := by
            rw [← hexec]
            exact flags_cow false _
          exact absurd (hcow.mp hflag) Bool.false_ne_true

theorem slowLookup_serves (h405 : cpu.is405 = false)
    (hs : slowLookup env cpu vaddr .dcache opType = some (.ok entry, mid))
    (hdev : entry.flags &&& MTS_FLAG_DEV = 0) :
    mid.mtsCache .dcache (mtsHash vaddr) = entry ∧ entry.gvpa = pageOf vaddr ∧
      ¬ (opType = .write ∧ entry.flags &&& MTS_FLAG_COW ≠ 0) := by
  simp only [slowLookup] at hs
  split at hs
  · cases hs
  · rename_i map hmap
    split at hs
    · cases hs
    · rename_i hm
      cases hs
      rw [← xlate_tag h405 hmap]
      exact memMap_serves hm hdev
    · cases hs

theorem hostEntry_serves (h405 : cpu.is405 = false)
    (h : hostEntry env cpu vaddr opType = some (entry, mid)) :
    mid.mtsCache .dcache (mtsHash vaddr) = entry ∧ entry.gvpa = pageOf vaddr ∧
      ¬ (opType = .write ∧ entry.flags &&& MTS_FLAG_COW ≠ 0) := by
  simp only [hostEntry] at h
  split at h
  · rename_i hhit
    cases h
    exact fastHit_eq_some.mp hhit
  · split at h
    · rename_i hs
      split at h
      · cases h
      · rename_i hdev
        cases h
        exact slowLookup_serves h405 hs (not_not.mp hdev)
    · cases h

theorem hostLoads_page {n : Nat} (h405 : cpu.is405 = false)
    (h : hostEntry env cpu vaddr .read = some (entry, mid))
    (hv : vaddr.toNat % 4096 + n ≤ 4096) :
    HostLoads env n cpu vaddr (entry.hpa + (vaddr &&& PPC32_MIN_PAGE_IMASK).setWidth 64) := by
  obtain ⟨hc, htag, hcow⟩ := hostEntry_serves h405 h
  cases n with
  | zero => trivial
  | succ n =>
    refine ⟨mid, ?_, ?_⟩
    · simp only [hostAccess, h, Option.map_some, rawAfter_read]
    · have hloads : HostLoads env (n + 1) mid vaddr _ :=
        Serves.loads env (n + 1) ⟨entry, hc, htag, rfl, hcow⟩ hv
      obtain ⟨mid', haccess, hrest⟩ := hloads
      have hhit : fastHit mid vaddr .dcache .read = some entry :=
        fastHit_eq_some.mpr ⟨hc, htag, hcow⟩
      simp only [hostAccess, hostEntry, hhit, Option.map_some, rawAfter_read, Option.some.injEq,
        Prod.mk.injEq, true_and] at haccess
      rwa [← haccess] at hrest

theorem hostStores_page {bytes : List Byte} (h405 : cpu.is405 = false)
    (h : hostEntry env cpu vaddr .write = some (entry, mid))
    (hv : vaddr.toNat % 4096 + bytes.length ≤ 4096) :
    HostStoresFrom env bytes cpu vaddr
      (entry.hpa + (vaddr &&& PPC32_MIN_PAGE_IMASK).setWidth 64) := by
  obtain ⟨hc, htag, hcow⟩ := hostEntry_serves h405 h
  cases bytes with
  | nil => trivial
  | cons b bytes =>
    refine ⟨rawAfter mid vaddr .write entry, ?_, ?_⟩
    · simp only [hostAccess, h, Option.map_some]
    · cases bytes with
      | nil => trivial
      | cons b' bytes =>
        simp only [List.length_cons] at hv
        have hin : vaddr.toNat % 4096 + 1 < 4096 := by omega
        obtain ⟨-, -, hoffset, hsum⟩ := next_byte hin
        have hserves : Serves (storeAt (rawAfter mid vaddr .write entry)
            (entry.hpa + (vaddr &&& PPC32_MIN_PAGE_IMASK).setWidth 64) 1 (b.setWidth 64))
            (vaddr + 1) .write entry.hpa := (serves_rawAfter hc htag rfl hcow).next hin
        have hnext := hserves.stores env (b' :: bytes) (by
          rw [List.length_cons]
          omega)
        rwa [hoffset, ← BitVec.add_assoc] at hnext

end Page

def bootFpuCpu : FpuCpu Unit := { stringCpu with fpr := fun _ => 0 }

/-- `lwbr` and `stfd` at an odd address -/
theorem mem_ops_bytewise_odd : LoadBytewise quietEnv bootFpuCpu 0x1001 5 .lwbr ∧
    StoreBytewise quietEnv bootFpuCpu 0x1001 5 .stfd := by
  have hread : (hostEntry quietEnv bootFpuCpu.toCpu 0x1001 .read).isSome := by decide
  have hwrite : (hostEntry quietEnv bootFpuCpu.toCpu 0x1001 .write).isSome := by decide
  obtain ⟨⟨entry, mid⟩, hload⟩ := Option.isSome_iff_exists.mp hread
  obtain ⟨⟨entry', mid'⟩, hstore⟩ := Option.isSome_iff_exists.mp hwrite
  constructor
  · exact (mem_ops_bytewise quietEnv bootFpuCpu 0x1001 5 _).1 .lwbr
      (hostLoads_page rfl hload (by decide))
  · exact (mem_ops_bytewise quietEnv bootFpuCpu 0x1001 5 _).2 .stfd
      (hostStores_page rfl hstore (by decide))

/-- Two pages of RAM that are neighbours for the guest and not in the host -/
def lowPage : VDevice := { bootRam with physLen := 0x1000 }

def highPage : VDevice :=
  { bootRam with id := 1, physAddr := 0x1000, physLen := 0x1000, hostAddr := 0x20000000 }

def splitCpu : FpuCpu Unit :=
  { bootFpuCpu with
    vm := { bootBoard with
      devList := [lowPage, highPage]
      mem := fun a => if a = 0x20000000 then 0xFF else 0
      remap_host := by
        simp [lowPage, highPage, bootRam, Mips64.ramDevice, VDevice.has, vdeviceFlagCaching,
          vdeviceFlagSparse] } }

/-- `lhz` from the last byte of the first page -/
theorem not_mem_ops_bytewise : ¬ ∀ (env : Env Unit) (cpu : FpuCpu Unit) (vaddr : BitVec 32)
    (reg : RegNum) (op : LoadOp), (byteLoads env op.size cpu.toFetchCpu vaddr).isSome →
      LoadBytewise env cpu vaddr reg op := by
  intro h
  have hbytes : (byteLoads quietEnv 2 splitCpu.toFetchCpu 0xFFF).map Prod.fst =
      some [0x00, 0xFF] := by decide
  have hload : (lhz quietEnv splitCpu 0xFFF 5).map (fun cpu => cpu.gpr 5) = some 0 := by decide
  obtain ⟨bytes, after, cpu', hloads, hexec, hregs, -⟩ :=
    h quietEnv splitCpu 0xFFF 5 .lhz (by decide)
  have hexec' : lhz quietEnv splitCpu 0xFFF 5 = some cpu' := hexec
  have hloads' : byteLoads quietEnv 2 splitCpu.toFetchCpu 0xFFF = some (bytes, after) := hloads
  rw [hloads', Option.map_some, Option.some.injEq] at hbytes
  simp only at hbytes
  rw [hexec', Option.map_some, Option.some.injEq, hregs, hbytes] at hload
  exact absurd hload (by decide)

end Dynamips.Ppc32
