import Dynamips.Ppc32Host

/-! The string instructions of a PowerPC CPU (ppc32_exec.c, ppc32_mem.c): bytes of
the memory in registers that follow one another, from r31 on with r0. -/
set_option autoImplicit false

namespace Dynamips.Ppc32

open Mips64 (bits)

variable {W : Type}

def PPC32_XER_BC_MASK : BitVec 32 := 0x0000007F

def Cpu.withRegs (cpu : Cpu W) (regs : Regs) : Cpu W := { cpu with toRegs := regs }

def FetchCpu.withRegs (cpu : FetchCpu W) (regs : Regs) : FetchCpu W :=
  { cpu with toCpu := cpu.toCpu.withRegs regs }

theorem FetchCpu.withRegs_withRegs (cpu : FetchCpu W) (regs regs' : Regs) :
    (cpu.withRegs regs).withRegs regs' = cpu.withRegs regs' := rfl

def lsw (env : Env W) (cpu : FetchCpu W) (swPos : Nat) (vaddr : BitVec 32) (reg : RegNum) :
    Option (FetchCpu W) :=
  (memRead env cpu vaddr 1).map fun (data, cpu) =>
    cpu.withRegs (cpu.setGpr reg
      (cpu.gpr reg ||| ((data &&& 0xFF) <<< (24 - swPos)).setWidth 32))

def stsw (env : Env W) (cpu : FetchCpu W) (swPos : Nat) (vaddr : BitVec 32) (reg : RegNum) :
    Option (FetchCpu W) :=
  memWrite env cpu vaddr 1 (((cpu.gpr reg >>> (24 - swPos)) &&& 0xFF).setWidth 64)

/-- What the loops of the string instructions go on with; `swPos` is the `sw_pos` of
the CPU, which nothing else reads. -/
structure StringLoop (W : Type) where
  cpu : FetchCpu W
  swPos : Nat
  r : RegNum
  vaddr : BitVec 32

def StringLoop.next (s : StringLoop W) (cpu : FetchCpu W) : StringLoop W :=
  { cpu := cpu
    swPos := if s.swPos + 8 = 32 then 0 else s.swPos + 8
    r := s.r
    vaddr := s.vaddr + 1 }

/-- One turn of the loop of a load, which clears each register that it comes to -/
def lswTurn (env : Env W) (s : StringLoop W) : Option (StringLoop W) :=
  let s :=
    if s.swPos = 0 then
      { s with r := s.r + 1, cpu := s.cpu.withRegs (s.cpu.setGpr (s.r + 1) 0) }
    else s
  (lsw env s.cpu s.swPos s.vaddr s.r).map s.next

def stswTurn (env : Env W) (s : StringLoop W) : Option (StringLoop W) :=
  let s := if s.swPos = 0 then { s with r := s.r + 1 } else s
  (stsw env s.cpu s.swPos s.vaddr s.r).map s.next

def stringLoop (turn : StringLoop W → Option (StringLoop W)) :
    Nat → StringLoop W → Option (StringLoop W)
  | 0, s => some s
  | nb + 1, s => (turn s).bind (stringLoop turn nb)

def stringInsn (turn : StringLoop W → Option (StringLoop W)) (cpu : FetchCpu W) (nb : Nat)
    (rd : RegNum) (vaddr : BitVec 32) : Option (FetchCpu W) :=
  (stringLoop turn nb ⟨cpu, 0, rd - 1, vaddr⟩).map StringLoop.cpu

def baseAddress (regs : Regs) (insn : Insn) : BitVec 32 :=
  if regA insn ≠ 0 then regs.gpr (regA insn) else 0

def immediateCount (insn : Insn) : Nat :=
  let nb := (bits insn 11 15).toNat
  if nb = 0 then 32 else nb

def indexedCount (regs : Regs) : Nat := (regs.xer &&& PPC32_XER_BC_MASK).toNat

def indexedAddress (regs : Regs) (insn : Insn) : BitVec 32 :=
  regs.gpr (regB insn) + baseAddress regs insn

def execLSWI (env : Env W) (cpu : FetchCpu W) (insn : Insn) : Option (FetchCpu W) :=
  stringInsn (lswTurn env) cpu (immediateCount insn) (regD insn) (baseAddress cpu.toRegs insn)

def execLSWX (env : Env W) (cpu : FetchCpu W) (insn : Insn) : Option (FetchCpu W) :=
  stringInsn (lswTurn env) cpu (indexedCount cpu.toRegs) (regD insn)
    (indexedAddress cpu.toRegs insn)

def execSTSWI (env : Env W) (cpu : FetchCpu W) (insn : Insn) : Option (FetchCpu W) :=
  stringInsn (stswTurn env) cpu (immediateCount insn) (regD insn) (baseAddress cpu.toRegs insn)

def execSTSWX (env : Env W) (cpu : FetchCpu W) (insn : Insn) : Option (FetchCpu W) :=
  stringInsn (stswTurn env) cpu (indexedCount cpu.toRegs) (regD insn)
    (indexedAddress cpu.toRegs insn)

/-! An access does not depend on the registers and leaves them alone. -/

def AccessResult.withRegs (res : AccessResult W) (regs : Regs) : AccessResult W :=
  match res with
  | .host haddr val cpu => .host haddr val (cpu.withRegs regs)
  | .data val cpu => .data val (cpu.withRegs regs)
  | .loopEnter cpu => .loopEnter (cpu.withRegs regs)
  | .abort => .abort

section WithRegs

variable (env : Env W) (cpu : Cpu W) (fcpu : FetchCpu W) (regs : Regs) (vaddr : BitVec 32)
  (cid : Cid) (opType : MtsOp) (size : Nat) (data : BitVec 64)

theorem rawAccess_withRegs (entry : MtsEntry) :
    rawAccess (cpu.withRegs regs) vaddr cid opType entry data =
      (rawAccess cpu vaddr cid opType entry data).withRegs regs := by
  have hexec : (cpu.withRegs regs).execPage = cpu.execPage := rfl
  by_cases h : opType = .write ∧ entry.flags &&& MTS_FLAG_EXEC ≠ 0 ∧ vaddr ≥ PPC32_EXC_SYS_RST ∧
      cpu.execPage (entry.gppa >>> vmPageShift)
  · simp only [rawAccess, hexec, if_pos h]
    rfl
  · simp only [rawAccess, hexec, if_neg h]
    rfl

theorem memMap_withRegs (map : MtsMap) (bucket : BitVec 14) :
    memMap env (cpu.withRegs regs) opType map cid bucket =
      (memMap env cpu opType map cid bucket).map fun (entry, cpu) =>
        (entry, cpu.withRegs regs) := by
  have hvm : (cpu.withRegs regs).vm = cpu.vm := rfl
  have hflag : execFlag (cpu.withRegs regs) map = execFlag cpu map := rfl
  simp only [memMap, hvm, hflag]
  cases devLookup cpu.vm (map.paddr + map.offset.setWidth 64) false with
  | none => rfl
  | some dev =>
    by_cases hsp : dev.has vdeviceFlagSparse = true
    · simp only [hsp, if_true]
      cases devSparseGetHostAddr cpu.vm dev map.paddr opType with
      | none => rfl
      | some found => rfl
    · by_cases hdirect : dev.hostAddr = 0 ∨ dev.has vdeviceFlagNoMtsMmap
      · simp only [hsp, hdirect, if_true]
        rfl
      · simp only [hsp, hdirect, if_false]
        rfl

theorem slowLookup_withRegs :
    slowLookup env (cpu.withRegs regs) vaddr cid opType =
      (slowLookup env cpu vaddr cid opType).map fun (res, cpu) => (res, cpu.withRegs regs) := by
  have hxlate : xlate (cpu.withRegs regs) vaddr cid = xlate cpu vaddr cid := rfl
  simp only [slowLookup, hxlate]
  split
  · rfl
  · rw [memMap_withRegs]
    rename_i map hmap
    cases hm : memMap env cpu opType map cid (mtsHash vaddr) with
    | none => rfl
    | some found =>
      obtain ⟨entry, cpu'⟩ := found
      cases entry <;> rfl

theorem accessSpecial_withRegs (mask : MtsAcc) (lookup : Bool) :
    accessSpecial (cpu.withRegs regs) vaddr cid mask lookup opType data =
      (accessSpecial cpu vaddr cid mask lookup opType data).withRegs regs := by
  cases mask with
  | u => rfl
  | t =>
    simp only [accessSpecial]
    split <;> rfl

theorem devAccessFast_withRegs (devId : BitVec 6) (offset : BitVec 32) :
    devAccessFast env (cpu.withRegs regs) devId offset size opType data =
      (devAccessFast env cpu devId offset size opType data).withRegs regs := by
  have hreply : ∀ reply : DevReply W,
      (cpu.withRegs regs).afterReply reply = (cpu.afterReply reply).withRegs regs := by
    intro reply
    simp only [Cpu.afterReply, Cpu.withRegs]
    split <;> rfl
  have hvm : (cpu.withRegs regs).vm = cpu.vm := rfl
  simp only [devAccessFast, hvm]
  cases cpu.vm.devArray devId with
  | none => rfl
  | some dev =>
    simp only [hreply]
    cases (env.handler dev offset size opType data cpu.vm).haddr <;> rfl

theorem memAccess_withRegs (lookup : Bool) :
    memAccess env (cpu.withRegs regs) vaddr cid lookup size opType data =
      (memAccess env cpu vaddr cid lookup size opType data).withRegs regs := by
  have hhit : fastHit (cpu.withRegs regs) vaddr cid opType = fastHit cpu vaddr cid opType := rfl
  simp only [memAccess, hhit, slowLookup_withRegs]
  cases fastHit cpu vaddr cid opType with
  | some entry => exact rawAccess_withRegs cpu regs vaddr cid opType data entry
  | none =>
    cases slowLookup env cpu vaddr cid opType with
    | none => rfl
    | some found =>
      obtain ⟨res, cpu'⟩ := found
      cases res with
      | error mask => exact accessSpecial_withRegs cpu' regs vaddr cid opType data mask lookup
      | ok entry =>
        simp only [Option.map_some]
        split
        · exact devAccessFast_withRegs env cpu' regs opType size data _ _
        · exact rawAccess_withRegs cpu' regs vaddr cid opType data entry

theorem memRead_withRegs :
    memRead env (fcpu.withRegs regs) vaddr size =
      (memRead env fcpu vaddr size).map fun (data, cpu) => (data, cpu.withRegs regs) := by
  have hcpu : (fcpu.withRegs regs).toCpu = fcpu.toCpu.withRegs regs := rfl
  simp only [memRead, hcpu, memAccess_withRegs]
  cases memAccess env fcpu.toCpu vaddr .dcache false size .read 0 <;> rfl

theorem memWrite_withRegs :
    memWrite env (fcpu.withRegs regs) vaddr size data =
      (memWrite env fcpu vaddr size data).map (FetchCpu.withRegs · regs) := by
  have hcpu : (fcpu.withRegs regs).toCpu = fcpu.toCpu.withRegs regs := rfl
  simp only [memWrite, hcpu, memAccess_withRegs]
  cases memAccess env fcpu.toCpu vaddr .dcache false size .write data <;> rfl

end WithRegs

/-! The bytes of the registers. -/

/-- The place of a register in the range that starts at `rd` -/
def place (rd reg : RegNum) : Nat := (reg - rd).toNat

def packByte (bytes : List Byte) (j k : Nat) : BitVec 32 :=
  (bytes.getD (4 * j + k) 0).setWidth 32 <<< (24 - 8 * k)

/-- The bytes that a register gets, with zeros for those that there are not -/
def pack (bytes : List Byte) (j : Nat) : BitVec 32 :=
  packByte bytes j 0 ||| packByte bytes j 1 ||| packByte bytes j 2 ||| packByte bytes j 3

def packRegs (gpr : RegNum → BitVec 32) (rd : RegNum) (bytes : List Byte) (reg : RegNum) :
    BitVec 32 :=
  if 4 * place rd reg < bytes.length then pack bytes (place rd reg) else gpr reg

def byteOf (gpr : RegNum → BitVec 32) (rd : RegNum) (i : Nat) : Byte :=
  (gpr (rd + BitVec.ofNat 5 (i / 4)) >>> (24 - 8 * (i % 4))).setWidth 8

def unpack (gpr : RegNum → BitVec 32) (rd : RegNum) : Nat → Nat → List Byte
  | _, 0 => []
  | i, n + 1 => byteOf gpr rd i :: unpack gpr rd (i + 1) n

theorem place_add (rd : RegNum) {j : Nat} (hj : j < 32) :
    place rd (rd + BitVec.ofNat 5 j) = j := by
  rw [place, BitVec.add_comm, BitVec.add_sub_cancel, BitVec.toNat_ofNat, Nat.mod_eq_of_lt hj]

theorem add_place (rd reg : RegNum) : rd + BitVec.ofNat 5 (place rd reg) = reg := by
  rw [place, BitVec.ofNat_toNat, BitVec.setWidth_eq, BitVec.add_comm, BitVec.sub_add_cancel]

theorem getD_snoc (bytes : List Byte) (b : Byte) (i : Nat) :
    (bytes ++ [b]).getD i 0 = if i = bytes.length then b else bytes.getD i 0 := by
  simp only [List.getD_eq_getElem?_getD]
  by_cases hlt : i < bytes.length
  · rw [List.getElem?_append_left hlt, if_neg (by omega)]
  · by_cases heq : i = bytes.length
    · simp [heq]
    · rw [List.getElem?_append_right (by omega), if_neg heq, List.getElem?_eq_none (by simp; omega),
        List.getElem?_eq_none (by omega)]

theorem packByte_past {bytes : List Byte} {j k : Nat} (h : bytes.length ≤ 4 * j + k) :
    packByte bytes j k = 0 := by
  rw [packByte, List.getD_eq_getElem?_getD, List.getElem?_eq_none h]
  simp

theorem pack_past {bytes : List Byte} {j : Nat} (h : bytes.length ≤ 4 * j) : pack bytes j = 0 := by
  rw [pack, packByte_past (by omega), packByte_past (by omega), packByte_past (by omega),
    packByte_past (by omega)]
  rfl

theorem packByte_snoc (bytes : List Byte) (b : Byte) (j k : Nat) :
    packByte (bytes ++ [b]) j k =
      if 4 * j + k = bytes.length then b.setWidth 32 <<< (24 - 8 * k) else packByte bytes j k := by
  rw [packByte, getD_snoc]
  split <;> rfl

theorem pack_snoc (bytes : List Byte) (b : Byte) (j : Nat) :
    pack (bytes ++ [b]) j =
      if j = bytes.length / 4 then
        pack bytes j ||| b.setWidth 32 <<< (24 - 8 * (bytes.length % 4))
      else pack bytes j := by
  simp only [pack, packByte_snoc]
  by_cases hj : j = bytes.length / 4
  · have hpast : ∀ k, bytes.length % 4 ≤ k → packByte bytes j k = 0 :=
      fun k hk => packByte_past (by omega)
    have hlen : ∀ k < 4, 4 * j + k = bytes.length ↔ bytes.length % 4 = k :=
      fun k hk => by omega
    rw [if_pos hj]
    simp only [hlen 0, hlen 1, hlen 2, hlen 3, Nat.reduceLT]
    obtain h | h | h | h : bytes.length % 4 = 0 ∨ bytes.length % 4 = 1 ∨ bytes.length % 4 = 2 ∨
        bytes.length % 4 = 3 := by omega
    all_goals simp (disch := omega) [h, hpast]
  · have hne : ∀ k < 4, ¬ 4 * j + k = bytes.length := fun k hk => by omega
    rw [if_neg hj, if_neg (hne 0 (by omega)), if_neg (hne 1 (by omega)), if_neg (hne 2 (by omega)),
      if_neg (hne 3 (by omega))]

theorem byteOf_packByte (bytes : List Byte) (j : Nat) {k m : Nat} (hk : k < 4) (hm : m < 4) :
    (packByte bytes j m >>> (24 - 8 * k)).setWidth 8 =
      if m = k then bytes.getD (4 * j + k) 0 else 0 := by
  apply BitVec.eq_of_getLsbD_eq
  intro p hp
  rw [BitVec.getLsbD_setWidth, BitVec.getLsbD_ushiftRight, packByte, BitVec.getLsbD_shiftLeft,
    BitVec.getLsbD_setWidth]
  obtain hlt | rfl | hgt := Nat.lt_trichotomy m k
  · have hbelow : 24 - 8 * k + p < 24 - 8 * m := by omega
    simp [hbelow, Nat.ne_of_lt hlt]
  · have hbit : 24 - 8 * m + p < 32 := by omega
    have hnot : ¬ 24 - 8 * m + p < 24 - 8 * m := by omega
    have hwide : p < 32 := by omega
    simp [hbit, hnot, hwide, hp]
  · have habove : 8 ≤ 24 - 8 * k + p - (24 - 8 * m) := by omega
    rw [BitVec.getLsbD_of_ge _ _ habove]
    simp [Nat.ne_of_gt hgt]

theorem byteOf_pack (bytes : List Byte) (j : Nat) {k : Nat} (hk : k < 4) :
    (pack bytes j >>> (24 - 8 * k)).setWidth 8 = bytes.getD (4 * j + k) 0 := by
  simp only [pack, BitVec.ushiftRight_or_distrib, BitVec.setWidth_or]
  rw [byteOf_packByte bytes j hk (by omega), byteOf_packByte bytes j hk (by omega),
    byteOf_packByte bytes j hk (by omega), byteOf_packByte bytes j hk (by omega)]
  obtain rfl | rfl | rfl | rfl : k = 0 ∨ k = 1 ∨ k = 2 ∨ k = 3 := by omega
  all_goals simp

variable {gpr : RegNum → BitVec 32} {rd : RegNum} {bytes : List Byte}

@[simp] theorem packRegs_nil : packRegs gpr rd [] = gpr := by
  funext reg
  simp [packRegs]

theorem packRegs_snoc (hlen : bytes.length < 128) (b : Byte) :
    packRegs gpr rd (bytes ++ [b]) =
      Function.update (packRegs gpr rd bytes) (rd + BitVec.ofNat 5 (bytes.length / 4))
        ((if bytes.length % 4 = 0 then 0
          else packRegs gpr rd bytes (rd + BitVec.ofNat 5 (bytes.length / 4))) |||
          b.setWidth 32 <<< (24 - 8 * (bytes.length % 4))) := by
  have hplace : place rd (rd + BitVec.ofNat 5 (bytes.length / 4)) = bytes.length / 4 :=
    place_add rd (by omega)
  funext reg
  by_cases hreg : reg = rd + BitVec.ofNat 5 (bytes.length / 4)
  · subst hreg
    simp only [packRegs, Function.update_self, hplace, List.length_append, List.length_singleton,
      pack_snoc, if_true]
    rw [if_pos (by omega)]
    by_cases hfirst : bytes.length % 4 = 0
    · rw [if_pos hfirst, pack_past (by omega)]
    · rw [if_neg hfirst, if_pos (by omega)]
  · have hne : place rd reg ≠ bytes.length / 4 := by
      intro heq
      apply hreg
      rw [← heq, add_place]
    have hsame : 4 * place rd reg < bytes.length + 1 ↔ 4 * place rd reg < bytes.length := by omega
    simp only [Function.update_of_ne hreg, packRegs, List.length_append, List.length_singleton,
      pack_snoc, hne, if_false, hsame]

theorem byteOf_packRegs (hlen : bytes.length ≤ 128) {i : Nat} (hi : i < bytes.length) :
    byteOf (packRegs gpr rd bytes) rd i = bytes.getD i 0 := by
  have hmod : i % 4 < 4 := Nat.mod_lt i (by omega)
  have hsplit : 4 * (i / 4) + i % 4 = i := Nat.div_add_mod i 4
  rw [byteOf, packRegs, place_add rd (by omega), if_pos (by omega), byteOf_pack _ _ hmod, hsplit]

theorem unpack_packRegs (hlen : bytes.length ≤ 128) {i n : Nat} (hn : i + n = bytes.length) :
    unpack (packRegs gpr rd bytes) rd i n = bytes.drop i := by
  induction n generalizing i with
  | zero => rw [unpack, List.drop_eq_nil_of_le (by omega)]
  | succ n ih =>
    have hi : i < bytes.length := by omega
    rw [unpack, ih (by omega), byteOf_packRegs hlen hi, List.drop_eq_getElem_cons hi,
      List.getD_eq_getElem?_getD, List.getElem?_eq_getElem hi, Option.getD_some]

/-! The loops, byte by byte. -/

def byteLoads (env : Env W) : Nat → FetchCpu W → BitVec 32 → Option (List Byte × FetchCpu W)
  | 0, cpu, _ => some ([], cpu)
  | n + 1, cpu, vaddr =>
    (memRead env cpu vaddr 1).bind fun (data, cpu) =>
      (byteLoads env n cpu (vaddr + 1)).map fun (bytes, cpu) => (data.setWidth 8 :: bytes, cpu)

def byteStores (env : Env W) : List Byte → FetchCpu W → BitVec 32 → Option (FetchCpu W)
  | [], cpu, _ => some cpu
  | b :: bytes, cpu, vaddr =>
    (memWrite env cpu vaddr 1 (b.setWidth 64)).bind fun cpu => byteStores env bytes cpu (vaddr + 1)

def withGpr (regs : Regs) (gpr : RegNum → BitVec 32) : Regs := { regs with gpr := gpr }

/-- The state of a loop after `k` bytes -/
def loopAt (cpu : FetchCpu W) (rd : RegNum) (k : Nat) (vaddr : BitVec 32) : StringLoop W :=
  { cpu := cpu
    swPos := 8 * (k % 4)
    r := rd - 1 + BitVec.ofNat 5 ((k + 3) / 4)
    vaddr := vaddr }

theorem loopAt_place (rd : RegNum) (k : Nat) :
    rd - 1 + BitVec.ofNat 5 (k / 4 + 1) = rd + BitVec.ofNat 5 (k / 4) := by
  have hone : rd - 1 + BitVec.ofNat 5 1 = rd := BitVec.sub_add_cancel rd 1
  rw [BitVec.ofNat_add, BitVec.add_comm (BitVec.ofNat 5 (k / 4)), ← BitVec.add_assoc, hone]

theorem loopAt_r (rd : RegNum) (k : Nat) :
    (if 8 * (k % 4) = 0 then rd - 1 + BitVec.ofNat 5 ((k + 3) / 4) + 1
      else rd - 1 + BitVec.ofNat 5 ((k + 3) / 4)) = rd + BitVec.ofNat 5 (k / 4) := by
  by_cases hfirst : k % 4 = 0
  · have hplace : (k + 3) / 4 = k / 4 := by omega
    have hnext := loopAt_place rd k
    rw [BitVec.ofNat_add, ← BitVec.add_assoc] at hnext
    rw [if_pos (by omega), hplace]
    exact hnext
  · have hplace : (k + 3) / 4 = k / 4 + 1 := by omega
    rw [if_neg (by omega), hplace, loopAt_place]

theorem next_loopAt (cpu cpu' : FetchCpu W) (rd : RegNum) (k : Nat) (vaddr : BitVec 32) :
    (StringLoop.mk cpu (8 * (k % 4)) (rd + BitVec.ofNat 5 (k / 4)) vaddr).next cpu' =
      loopAt cpu' rd (k + 1) (vaddr + 1) := by
  have hplace : (k + 1 + 3) / 4 = k / 4 + 1 := by omega
  simp only [StringLoop.next, loopAt, hplace, loopAt_place, StringLoop.mk.injEq, true_and, and_true]
  split <;> omega

theorem lsw_value (data : BitVec 64) (shift : Nat) :
    ((data &&& 0xFF) <<< shift).setWidth 32 = (data.setWidth 8).setWidth 32 <<< shift := by
  have hmask : data &&& 0xFF = (data.setWidth 8).setWidth 64 := by
    have hand : data.toNat &&& 255 = data.toNat % 256 := Nat.and_two_pow_sub_one_eq_mod _ 8
    apply BitVec.eq_of_toNat_eq
    simp only [BitVec.toNat_and, BitVec.toNat_setWidth, BitVec.reduceToNat]
    omega
  apply BitVec.eq_of_getLsbD_eq
  intro p hp
  have hp64 : p < 64 := by omega
  have hs64 : p - shift < 64 := by omega
  have hs32 : p - shift < 32 := by omega
  rw [hmask, BitVec.getLsbD_setWidth, BitVec.getLsbD_shiftLeft, BitVec.getLsbD_shiftLeft,
    BitVec.getLsbD_setWidth, BitVec.getLsbD_setWidth]
  simp [hp, hp64, hs64, hs32]

theorem stsw_value (val : BitVec 32) :
    ((val &&& 0xFF).setWidth 64 : BitVec 64) = (val.setWidth 8).setWidth 64 := by
  have hand : val.toNat &&& 255 = val.toNat % 256 := Nat.and_two_pow_sub_one_eq_mod _ 8
  apply BitVec.eq_of_toNat_eq
  simp only [BitVec.toNat_and, BitVec.toNat_setWidth, BitVec.reduceToNat]
  omega

theorem lsw_withRegs (env : Env W) (cpu : FetchCpu W) (regs : Regs) (swPos : Nat)
    (vaddr : BitVec 32) (reg : RegNum) :
    lsw env (cpu.withRegs regs) swPos vaddr reg =
      (memRead env cpu vaddr 1).map fun (data, cpu) =>
        cpu.withRegs (regs.setGpr reg
          (regs.gpr reg ||| (data.setWidth 8).setWidth 32 <<< (24 - swPos))) := by
  rw [lsw, memRead_withRegs, Option.map_map]
  congr 1
  funext found
  simp only [Function.comp_apply, lsw_value]
  rfl

theorem lsw_next (env : Env W) (cpu cpu₀ : FetchCpu W) (regs : Regs) (k : Nat)
    (vaddr : BitVec 32) (after : Byte → Regs)
    (hafter : ∀ b : Byte, regs.setGpr (rd + BitVec.ofNat 5 (k / 4))
      (regs.gpr (rd + BitVec.ofNat 5 (k / 4)) ||| b.setWidth 32 <<< (24 - 8 * (k % 4))) = after b) :
    (lsw env (cpu.withRegs regs) (8 * (k % 4)) vaddr (rd + BitVec.ofNat 5 (k / 4))).map
        (StringLoop.mk cpu₀ (8 * (k % 4)) (rd + BitVec.ofNat 5 (k / 4)) vaddr).next =
      (memRead env cpu vaddr 1).map fun (data, cpu) =>
        loopAt (cpu.withRegs (after (data.setWidth 8))) rd (k + 1) (vaddr + 1) := by
  rw [lsw_withRegs, Option.map_map]
  congr 1
  funext found
  obtain ⟨data, cpu'⟩ := found
  simp only [Function.comp_apply, next_loopAt, hafter]

theorem lswTurn_loopAt (env : Env W) (cpu : FetchCpu W) (regs : Regs)
    (hlen : bytes.length < 128) (vaddr : BitVec 32) :
    lswTurn env
        (loopAt (cpu.withRegs (withGpr regs (packRegs gpr rd bytes))) rd bytes.length vaddr) =
      (memRead env cpu vaddr 1).map fun (data, cpu) =>
        loopAt (cpu.withRegs (withGpr regs (packRegs gpr rd (bytes ++ [data.setWidth 8])))) rd
          (bytes.length + 1) (vaddr + 1) := by
  have hr := loopAt_r rd bytes.length
  by_cases hfirst : bytes.length % 4 = 0
  · have hpos : 8 * (bytes.length % 4) = 0 := by omega
    rw [if_pos hpos] at hr
    rw [lswTurn, loopAt, if_pos hpos]
    simp only [hr, FetchCpu.withRegs_withRegs]
    refine lsw_next env cpu _ _ bytes.length vaddr
      (fun b => withGpr regs (packRegs gpr rd (bytes ++ [b]))) fun b => ?_
    rw [packRegs_snoc hlen, if_pos hfirst]
    simp only [withGpr, Regs.setGpr, Function.update_self, Function.update_idem]
    rfl
  · have hneg : ¬ 8 * (bytes.length % 4) = 0 := by omega
    rw [if_neg hneg] at hr
    rw [lswTurn, loopAt, if_neg hneg, hr]
    refine lsw_next env cpu _ _ bytes.length vaddr
      (fun b => withGpr regs (packRegs gpr rd (bytes ++ [b]))) fun b => ?_
    rw [packRegs_snoc hlen, if_neg hfirst]
    rfl

theorem lsw_loop (env : Env W) (regs : Regs) (n : Nat) (cpu : FetchCpu W) (vaddr : BitVec 32)
    (hlen : bytes.length + n ≤ 128) :
    (stringLoop (lswTurn env) n
        (loopAt (cpu.withRegs (withGpr regs (packRegs gpr rd bytes))) rd bytes.length vaddr)).map
          StringLoop.cpu =
      (byteLoads env n cpu vaddr).map fun (more, cpu) =>
        cpu.withRegs (withGpr regs (packRegs gpr rd (bytes ++ more))) := by
  induction n generalizing cpu vaddr bytes with
  | zero => simp [stringLoop, byteLoads, loopAt]
  | succ n ih =>
    rw [stringLoop, lswTurn_loopAt env cpu regs (by omega), byteLoads]
    cases memRead env cpu vaddr 1 with
    | none => rfl
    | some found =>
      obtain ⟨data, cpu'⟩ := found
      have hnext := @ih (bytes ++ [data.setWidth 8]) cpu' (vaddr + 1)
        (by rw [List.length_append, List.length_singleton]; omega)
      rw [List.length_append, List.length_singleton] at hnext
      simp only [Option.map_some, Option.bind_some, hnext, Option.map_map]
      congr 1
      funext rest
      simp

theorem stringInsn_start (turn : StringLoop W → Option (StringLoop W)) (cpu : FetchCpu W)
    (nb : Nat) (rd : RegNum) (vaddr : BitVec 32) :
    stringInsn turn cpu nb rd vaddr =
      (stringLoop turn nb (loopAt cpu rd 0 vaddr)).map StringLoop.cpu := by
  simp [stringInsn, loopAt]

theorem lsw_insn (env : Env W) (cpu : FetchCpu W) {n : Nat} (hn : n ≤ 128) (rd : RegNum)
    (vaddr : BitVec 32) :
    stringInsn (lswTurn env) cpu n rd vaddr =
      (byteLoads env n cpu vaddr).map fun (bytes, mid) =>
        mid.withRegs (withGpr cpu.toRegs (packRegs cpu.gpr rd bytes)) := by
  have hloop := @lsw_loop _ cpu.gpr rd [] env cpu.toRegs n cpu vaddr (by simpa using hn)
  rw [packRegs_nil] at hloop
  rw [stringInsn_start]
  exact hloop

theorem stsw_next (env : Env W) (cpu cpu₀ : FetchCpu W) (k : Nat) (vaddr : BitVec 32) :
    (stsw env cpu (8 * (k % 4)) vaddr (rd + BitVec.ofNat 5 (k / 4))).map
        (StringLoop.mk cpu₀ (8 * (k % 4)) (rd + BitVec.ofNat 5 (k / 4)) vaddr).next =
      (memWrite env cpu vaddr 1 ((byteOf cpu.gpr rd k).setWidth 64)).map fun cpu =>
        loopAt cpu rd (k + 1) (vaddr + 1) := by
  rw [stsw, stsw_value, byteOf]
  congr 1
  funext cpu'
  exact next_loopAt cpu₀ cpu' rd k vaddr

theorem stswTurn_loopAt (env : Env W) (cpu : FetchCpu W) (k : Nat) (vaddr : BitVec 32) :
    stswTurn env (loopAt cpu rd k vaddr) =
      (memWrite env cpu vaddr 1 ((byteOf cpu.gpr rd k).setWidth 64)).map fun cpu =>
        loopAt cpu rd (k + 1) (vaddr + 1) := by
  have hr := loopAt_r rd k
  by_cases hfirst : 8 * (k % 4) = 0
  · rw [if_pos hfirst] at hr
    rw [stswTurn, loopAt, if_pos hfirst]
    simp only [hr]
    exact stsw_next env cpu _ k vaddr
  · rw [if_neg hfirst] at hr
    rw [stswTurn, loopAt, if_neg hfirst, hr]
    exact stsw_next env cpu _ k vaddr

theorem memWrite_regs {env : Env W} {cpu cpu' : FetchCpu W} {vaddr : BitVec 32} {size : Nat}
    {data : BitVec 64} (h : memWrite env cpu vaddr size data = some cpu') :
    cpu'.toRegs = cpu.toRegs := by
  have hwith := memWrite_withRegs env cpu cpu.toRegs vaddr size data
  have hself : cpu.withRegs cpu.toRegs = cpu := rfl
  rw [hself, h, Option.map_some, Option.some.injEq] at hwith
  rw [hwith]
  rfl

theorem stsw_loop (env : Env W) (n : Nat) (cpu : FetchCpu W) (k : Nat) (vaddr : BitVec 32) :
    (stringLoop (stswTurn env) n (loopAt cpu rd k vaddr)).map StringLoop.cpu =
      byteStores env (unpack cpu.gpr rd k n) cpu vaddr := by
  induction n generalizing cpu k vaddr with
  | zero => rfl
  | succ n ih =>
    rw [stringLoop, stswTurn_loopAt, unpack, byteStores]
    cases hw : memWrite env cpu vaddr 1 ((byteOf cpu.gpr rd k).setWidth 64) with
    | none => rfl
    | some cpu' =>
      have hgpr : cpu'.gpr = cpu.gpr := congrArg Regs.gpr (memWrite_regs hw)
      simp only [Option.map_some, Option.bind_some, ih, hgpr]

theorem stsw_insn (env : Env W) (cpu : FetchCpu W) (n : Nat) (rd : RegNum) (vaddr : BitVec 32) :
    stringInsn (stswTurn env) cpu n rd vaddr = byteStores env (unpack cpu.gpr rd 0 n) cpu vaddr := by
  rw [stringInsn_start, stsw_loop]

/-! The copy of a memory. -/

/-- The addresses from `src` and from `dst` are those of memory: `content` tells the
byte that a state has in a cell, and a ready state stays so over the accesses. -/
structure IsMemory {κ : Type} [DecidableEq κ] (env : Env W) (cell : BitVec 32 → κ)
    (content : FetchCpu W → κ → Byte) (Ready : FetchCpu W → Prop) (n : Nat)
    (src dst : BitVec 32) : Prop where
  read : ∀ cpu, Ready cpu → ∀ i < n, ∃ data cpu',
    memRead env cpu (src + BitVec.ofNat 32 i) 1 = some (data, cpu') ∧ Ready cpu' ∧
      content cpu' = content cpu ∧
      data.setWidth 8 = content cpu (cell (src + BitVec.ofNat 32 i))
  write : ∀ cpu, Ready cpu → ∀ i < n, ∀ b : Byte, ∃ cpu',
    memWrite env cpu (dst + BitVec.ofNat 32 i) 1 (b.setWidth 64) = some cpu' ∧ Ready cpu' ∧
      content cpu' = Function.update (content cpu) (cell (dst + BitVec.ofNat 32 i)) b
  regs : ∀ cpu regs, Ready cpu →
    Ready (cpu.withRegs regs) ∧ content (cpu.withRegs regs) = content cpu

/-- The register is one of those that `n` bytes go to. -/
def InRange (rd : RegNum) (n : Nat) (reg : RegNum) : Prop := 4 * place rd reg < n

/-- A load string instruction and a store string instruction after it copy `n`
bytes, through the registers from `rd` on. -/
structure Copies {κ : Type} (cell : BitVec 32 → κ) (content : FetchCpu W → κ → Byte) (n : Nat)
    (rd : RegNum) (src dst : BitVec 32) (cpu mid after : FetchCpu W) : Prop where
  loaded : ∃ bytes : List Byte, bytes.length = n ∧
    (∀ i < n, bytes.getD i 0 = content cpu (cell (src + BitVec.ofNat 32 i))) ∧
    ∀ reg, InRange rd n reg → mid.gpr reg = pack bytes (place rd reg)
  others : ∀ reg, ¬ InRange rd n reg → mid.gpr reg = cpu.gpr reg
  kept : mid.toRegs = withGpr cpu.toRegs mid.gpr ∧ after.toRegs = mid.toRegs
  unread : content mid = content cpu
  copied : ∀ i < n, (∀ j < n, i < j →
      cell (dst + BitVec.ofNat 32 j) ≠ cell (dst + BitVec.ofNat 32 i)) →
    content after (cell (dst + BitVec.ofNat 32 i)) =
      content cpu (cell (src + BitVec.ofNat 32 i))
  rest : ∀ c, (∀ i < n, cell (dst + BitVec.ofNat 32 i) ≠ c) → content after c = content cpu c

section Copy

variable {κ : Type} [DecidableEq κ] {env : Env W} {cell : BitVec 32 → κ}
  {content : FetchCpu W → κ → Byte} {Ready : FetchCpu W → Prop} {n : Nat} {src dst : BitVec 32}

theorem ofNat_succ (k : Nat) : BitVec.ofNat 32 k + 1 = BitVec.ofNat 32 (k + 1) := by
  rw [BitVec.ofNat_add]
  rfl

theorem loads_memory (h : IsMemory env cell content Ready n src dst) {m k : Nat} (hk : k + m ≤ n)
    (cpu : FetchCpu W) (hready : Ready cpu) :
    ∃ mid, byteLoads env m cpu (src + BitVec.ofNat 32 k) = some
        ((List.range' k m).map fun i => content cpu (cell (src + BitVec.ofNat 32 i)), mid) ∧
      Ready mid ∧ content mid = content cpu := by
  induction m generalizing cpu k with
  | zero => exact ⟨cpu, rfl, hready, rfl⟩
  | succ m ih =>
    obtain ⟨data, cpu', hread, hready', hcontent, hdata⟩ := h.read cpu hready k (by omega)
    obtain ⟨mid, hloads, hmid, hsame⟩ := @ih (k + 1) (by omega) cpu' hready'
    refine ⟨mid, ?_, hmid, hsame.trans hcontent⟩
    rw [byteLoads, hread, Option.bind_some, BitVec.add_assoc]
    simp only [ofNat_succ, hloads, Option.map_some, hdata, hcontent, List.range'_succ,
      List.map_cons]

theorem stores_memory (h : IsMemory env cell content Ready n src dst) {k : Nat}
    (bytes : List Byte) (hk : k + bytes.length ≤ n) (cpu : FetchCpu W) (hready : Ready cpu) :
    ∃ after, byteStores env bytes cpu (dst + BitVec.ofNat 32 k) = some after ∧
      after.toRegs = cpu.toRegs ∧
      (∀ c, (∀ i < bytes.length, cell (dst + BitVec.ofNat 32 (k + i)) ≠ c) →
        content after c = content cpu c) ∧
      ∀ i < bytes.length, (∀ j < bytes.length, i < j →
          cell (dst + BitVec.ofNat 32 (k + j)) ≠ cell (dst + BitVec.ofNat 32 (k + i))) →
        content after (cell (dst + BitVec.ofNat 32 (k + i))) = bytes.getD i 0 := by
  induction bytes generalizing cpu k with
  | nil => exact ⟨cpu, rfl, rfl, fun _ _ => rfl, fun i hi => absurd hi (by simp)⟩
  | cons b bytes ih =>
    rw [List.length_cons] at hk
    obtain ⟨cpu', hwrite, hready', hcontent⟩ := h.write cpu hready k (by omega) b
    obtain ⟨after, hstores, hregs, hrest, hcopied⟩ := @ih (k + 1) (by omega) cpu' hready'
    have hindex : ∀ i, k + 1 + i = k + (i + 1) := fun i => by omega
    simp only [hindex] at hrest hcopied
    refine ⟨after, ?_, hregs.trans (memWrite_regs hwrite), fun c hc => ?_, fun i hi hlast => ?_⟩
    · rw [byteStores, hwrite, Option.bind_some, BitVec.add_assoc, ofNat_succ]
      exact hstores
    · have hne : c ≠ cell (dst + BitVec.ofNat 32 k) := Ne.symm (hc 0 (by simp))
      rw [hrest c fun i hi => hc (i + 1) (by simpa using hi), hcontent, Function.update_of_ne hne]
    · cases i with
      | zero =>
        rw [hrest _ fun i hi => hlast (i + 1) (by simpa using hi) (by omega), hcontent]
        simp
      | succ i =>
        rw [List.getD_cons_succ]
        exact hcopied i (by simpa using hi) fun j hj hij =>
          hlast (j + 1) (by simpa using hj) (by omega)

theorem string_copy (h : IsMemory env cell content Ready n src dst) {cpu : FetchCpu W}
    (hready : Ready cpu) (hn : n ≤ 128) (rd : RegNum) : ∃ mid after,
    stringInsn (lswTurn env) cpu n rd src = some mid ∧
      stringInsn (stswTurn env) mid n rd dst = some after ∧
      Copies cell content n rd src dst cpu mid after := by
  obtain ⟨loaded, hloads, hready', hcontent⟩ :=
    @loads_memory W κ _ env cell content Ready n src dst h n 0 (by omega) cpu hready
  obtain ⟨bytes, hbytes⟩ : ∃ bytes, bytes =
      (List.range' 0 n).map fun i => content cpu (cell (src + BitVec.ofNat 32 i)) := ⟨_, rfl⟩
  have hlen : bytes.length = n := by simp [hbytes]
  have hget : ∀ i < n, bytes.getD i 0 = content cpu (cell (src + BitVec.ofNat 32 i)) := by
    intro i hi
    simp [hbytes, hi]
  rw [← hbytes, BitVec.add_zero] at hloads
  obtain ⟨hmid, hsame⟩ := h.regs loaded
    (withGpr cpu.toRegs (packRegs cpu.gpr rd bytes)) hready'
  obtain ⟨after, hstores, hregs, hrest, hcopied⟩ :=
    @stores_memory W κ _ env cell content Ready n src dst h 0 bytes (by omega) _ hmid
  have hgpr : (loaded.withRegs (withGpr cpu.toRegs (packRegs cpu.gpr rd bytes))).gpr =
      packRegs cpu.gpr rd bytes := rfl
  refine ⟨loaded.withRegs (withGpr cpu.toRegs (packRegs cpu.gpr rd bytes)), after, ?_, ?_, ?_⟩
  · rw [lsw_insn env cpu hn rd src, hloads, Option.map_some]
  · rw [stsw_insn, hgpr, ← hlen, unpack_packRegs (by omega) (by omega), List.drop_zero]
    rwa [BitVec.add_zero] at hstores
  · simp only [Nat.zero_add, hlen] at hrest hcopied
    refine ⟨⟨bytes, hlen, hget, fun reg hreg => ?_⟩, fun reg hreg => ?_, ⟨rfl, hregs⟩,
      hsame.trans hcontent, fun i hi hlast => ?_, fun c hc => ?_⟩
    · rw [hgpr, packRegs, hlen]
      exact if_pos hreg
    · rw [hgpr, packRegs, hlen]
      exact if_neg hreg
    · rw [hcopied i hi hlast, hget i hi]
    · rw [hrest c hc, hsame, hcontent]

end Copy

/-! The memory of the pages that have a host page. -/

/-- `n` bytes from `src` on may be read and `n` bytes from `dst` on written, and no
translation reads those that are written. -/
structure HostRanges (cpu : Cpu W) (cell : BitVec 32 → HostAddr) (n : Nat) (src dst : BitVec 32) :
    Prop where
  source : ∀ i < n, HostedAt cpu .dcache (src + BitVec.ofNat 32 i) .read
    (cell (src + BitVec.ofNat 32 i))
  target : ∀ i < n, HostedAt cpu .dcache (dst + BitVec.ofNat 32 i) .write
    (cell (dst + BitVec.ofNat 32 i))
  table : ∀ mem : HostAddr → Byte,
    (∀ a, (∀ i < n, cell (dst + BitVec.ofNat 32 i) ≠ a) → mem a = cpu.vm.mem a) →
      ∀ vaddr cid,
        xlate { cpu with vm := { cpu.vm with mem := mem } } vaddr cid = xlate cpu vaddr cid

/-- Of the state before, only the bytes to be written and the cache have changed. -/
structure HostReady (start : Cpu W) (cell : BitVec 32 → HostAddr) (n : Nat) (dst : BitVec 32)
    (cpu : FetchCpu W) : Prop where
  coherent : Coherent cpu.toCpu
  xlateState : cpu.toCpu.xlateState = { start.xlateState with mem := cpu.vm.mem }
  vm : cpu.vm = { start.vm with mem := cpu.vm.mem }
  mem : ∀ a, (∀ i < n, cell (dst + BitVec.ofNat 32 i) ≠ a) → cpu.vm.mem a = start.vm.mem a

section Host

variable {start : Cpu W} {cell : BitVec 32 → HostAddr} {n : Nat} {src dst : BitVec 32}
  {cpu : FetchCpu W} {cid : Cid} {vaddr : BitVec 32} {opType : MtsOp} {haddr : HostAddr}

theorem HostReady.xlate (hr : HostRanges start cell n src dst) (h : HostReady start cell n dst cpu)
    (vaddr : BitVec 32) (cid : Cid) :
    Ppc32.xlate cpu.toCpu vaddr cid = Ppc32.xlate start vaddr cid := by
  rw [← hr.table cpu.vm.mem h.mem vaddr cid]
  exact xlate_congr h.xlateState vaddr cid

theorem HostReady.hosted (hr : HostRanges start cell n src dst)
    (h : HostReady start cell n dst cpu) (hat : HostedAt start cid vaddr opType haddr) :
    HostedAt cpu.toCpu cid vaddr opType haddr := by
  obtain ⟨map, hpa, cow, hmap, hwhole, hhost, hcow, rfl⟩ := hat
  have hlist : cpu.vm.devList = start.vm.devList := by rw [h.vm]
  refine ⟨map, hpa, cow, (h.xlate hr vaddr cid).trans hmap, fun v hv => ?_, ?_, hcow, rfl⟩
  · exact (hwhole v hv).congr (h.xlate hr v cid) hlist
  · rw [h.vm]
    exact hhost

theorem vmLoad_byte (mem : HostAddr → Byte) (haddr : HostAddr) :
    (Mips64.vmLoad mem haddr 1).setWidth 8 = mem haddr := by
  simp [Mips64.vmLoad]

theorem vmStore_byte (mem : HostAddr → Byte) (haddr : HostAddr) (b : Byte) :
    Mips64.vmStore mem haddr 1 (b.setWidth 64) = Function.update mem haddr b := by
  funext a
  by_cases ha : a = haddr
  · subst ha
    simp [Mips64.vmStore]
  · have hne : ¬ (a - haddr).toNat < 1 := by
      intro hlt
      apply ha
      have hzero : a - haddr = 0 := BitVec.eq_of_toNat_eq (by simpa using hlt)
      rw [← BitVec.sub_add_cancel a haddr, hzero]
      exact BitVec.zero_add haddr
    simp only [Mips64.vmStore, if_neg hne, Function.update_of_ne ha]

theorem HostReady.after (h : HostReady start cell n dst cpu) {cpu' : Cpu W} (hco : Coherent cpu')
    (hvm : cpu'.vm = cpu.vm) (hx : cpu'.xlateState = cpu.toCpu.xlateState) :
    HostReady start cell n dst { cpu with toCpu := cpu' } := by
  have hmem : cpu'.vm.mem = cpu.vm.mem := by rw [hvm]
  refine ⟨hco, ?_, ?_, ?_⟩
  · simp only [hx, hmem]
    exact h.xlateState
  · simp only [hvm]
    exact h.vm
  · simp only [hmem]
    exact h.mem

theorem HostReady.store (hr : HostRanges start cell n src dst)
    (h : HostReady start cell n dst cpu) {i : Nat} (hi : i < n) (b : Byte) :
    HostReady start cell n dst { cpu with
      toCpu := storeAt cpu.toCpu (cell (dst + BitVec.ofNat 32 i)) 1 (b.setWidth 64) } := by
  have hmem : ∀ a, (∀ i < n, cell (dst + BitVec.ofNat 32 i) ≠ a) →
      Function.update cpu.vm.mem (cell (dst + BitVec.ofNat 32 i)) b a = start.vm.mem a := by
    intro a ha
    rw [Function.update_of_ne (ha i hi).symm, h.mem a ha]
  have hstate : (storeAt cpu.toCpu (cell (dst + BitVec.ofNat 32 i)) 1
      (b.setWidth 64)).xlateState =
        { cpu.toCpu.xlateState with
          mem := Function.update cpu.vm.mem (cell (dst + BitVec.ofNat 32 i)) b } := by
    rw [← vmStore_byte]
    rfl
  refine ⟨storeAt_coherent h.coherent fun cid page _ vaddr _ => ?_, ?_, ?_, ?_⟩
  · rw [h.xlate hr, ← hr.table _ hmem vaddr cid]
    refine xlate_congr ?_ vaddr cid
    rw [hstate, h.xlateState]
    rfl
  · rw [hstate, h.xlateState]
    simp only [storeAt, vmStore_byte]
  · simp only [storeAt]
    rw [h.vm]
  · simp only [storeAt, vmStore_byte]
    exact hmem

theorem isMemory_host (hr : HostRanges start cell n src dst) (env : Env W) :
    IsMemory env cell (fun cpu => cpu.vm.mem) (HostReady start cell n dst) n src dst where
  read := by
    intro cpu h i hi
    obtain ⟨cpu', hacc, hco, hvm, hx⟩ :=
      access_hosted env h.coherent (h.hosted hr (hr.source i hi)) false 1 0
    refine ⟨Mips64.vmLoad cpu'.vm.mem (cell (src + BitVec.ofNat 32 i)) 1,
      { cpu with toCpu := cpu' }, by simp only [memRead, hacc], h.after hco hvm hx, ?_, ?_⟩
    · simp only [hvm]
    · rw [vmLoad_byte, hvm]
  write := by
    intro cpu h i hi b
    obtain ⟨cpu', hacc, hco, hvm, hx⟩ :=
      access_hosted env h.coherent (h.hosted hr (hr.target i hi)) false 1 (b.setWidth 64)
    refine ⟨{ cpu with
      toCpu := storeAt cpu' (cell (dst + BitVec.ofNat 32 i)) 1 (b.setWidth 64) },
        by simp only [memWrite, hacc], (h.after hco hvm hx).store hr hi b, ?_⟩
    simp only [storeAt, vmStore_byte, hvm]
  regs := fun cpu regs h =>
    ⟨⟨h.coherent.congr rfl rfl rfl, h.xlateState, h.vm, h.mem⟩, rfl⟩

end Host

/-! The instructions. -/

inductive StringForm where
  | immediate
  | indexed
deriving DecidableEq

def StringForm.load : StringForm → Env W → FetchCpu W → Insn → Option (FetchCpu W)
  | .immediate => execLSWI
  | .indexed => execLSWX

def StringForm.store : StringForm → Env W → FetchCpu W → Insn → Option (FetchCpu W)
  | .immediate => execSTSWI
  | .indexed => execSTSWX

def StringForm.count (regs : Regs) (insn : Insn) : StringForm → Nat
  | .immediate => immediateCount insn
  | .indexed => indexedCount regs

def StringForm.address (regs : Regs) (insn : Insn) : StringForm → BitVec 32
  | .immediate => baseAddress regs insn
  | .indexed => indexedAddress regs insn

/-- The base and the index register of the store are not among those that are loaded. -/
def StringForm.Outside (rd : RegNum) (n : Nat) (insn : Insn) (form : StringForm) : Prop :=
  (regA insn ≠ 0 → ¬ InRange rd n (regA insn)) ∧
    (form = .indexed → ¬ InRange rd n (regB insn))

theorem count_le (regs : Regs) (insn : Insn) (form : StringForm) : form.count regs insn ≤ 127 := by
  cases form with
  | immediate =>
    have hlt : (bits insn 11 15).toNat ≤ 31 := by
      rw [bits, BitVec.toNat_and]
      exact Nat.and_le_right
    simp only [StringForm.count, immediateCount]
    split <;> omega
  | indexed =>
    simp only [StringForm.count, indexedCount, BitVec.toNat_and]
    exact Nat.and_le_right

theorem address_outside {rd : RegNum} {n : Nat} {insn : Insn} {form : StringForm}
    {regs regs' : Regs} (h : form.Outside rd n insn)
    (hothers : ∀ reg, ¬ InRange rd n reg → regs'.gpr reg = regs.gpr reg) :
    form.address regs' insn = form.address regs insn := by
  have hbase : baseAddress regs' insn = baseAddress regs insn := by
    simp only [baseAddress]
    split
    · rename_i ha
      exact hothers _ (h.1 ha)
    · rfl
  cases form with
  | immediate => exact hbase
  | indexed =>
    simp only [StringForm.address, indexedAddress, hbase, hothers _ (h.2 rfl)]

/-- A load string instruction and a store string instruction after it, with the same
count and first register, copy the bytes from one address to the other. -/
theorem string_insns_copy {κ : Type} [DecidableEq κ] (form : StringForm) (env : Env W)
    (cell : BitVec 32 → κ) (content : FetchCpu W → κ → Byte) (Ready : FetchCpu W → Prop)
    (cpu : FetchCpu W) (insn insn' : Insn)
    (hmemory : IsMemory env cell content Ready (form.count cpu.toRegs insn)
      (form.address cpu.toRegs insn) (form.address cpu.toRegs insn'))
    (hready : Ready cpu) (hrd : regD insn' = regD insn)
    (hcount : form.count cpu.toRegs insn' = form.count cpu.toRegs insn)
    (houtside : form.Outside (regD insn) (form.count cpu.toRegs insn) insn') :
    ∃ mid after, form.load env cpu insn = some mid ∧ form.store env mid insn' = some after ∧
      Copies cell content (form.count cpu.toRegs insn) (regD insn)
        (form.address cpu.toRegs insn) (form.address cpu.toRegs insn') cpu mid after := by
  have hle := count_le cpu.toRegs insn form
  obtain ⟨mid, after, hload, hstore, hcopies⟩ :=
    string_copy hmemory hready (by omega) (regD insn)
  have haddress := address_outside houtside hcopies.others
  have hxer : mid.xer = cpu.xer := by
    rw [hcopies.kept.1]
    rfl
  refine ⟨mid, after, ?_, ?_, hcopies⟩
  · cases form with
    | immediate => exact hload
    | indexed => exact hload
  · rw [← hcount, ← haddress, ← hrd] at hstore
    cases form with
    | immediate => exact hstore
    | indexed =>
      have hsame : indexedCount mid.toRegs = indexedCount cpu.toRegs := by
        rw [indexedCount, indexedCount, hxer]
      simp only [StringForm.store, execSTSWX, hsame]
      exact hstore

/-- A CPU in real mode whose XER asks for five bytes, with 0x2000 in `r3` -/
def stringCpu : FetchCpu Unit where
  toCpu := { bootCpu 0x2000 with xer := 5 }
  njmExecPage := 1
  njmExecPtr := none

/-- `lswx r5,0,r3` -/
def lswxInsn : Insn := 0x7ca01c2a

/-- `stswx r5,0,r4` -/
def stswxInsn : Insn := 0x7ca0252a

def bootCell (vaddr : BitVec 32) : HostAddr :=
  bootRam.hostAddr + ((realMap vaddr).paddr - bootRam.physAddr) +
    (vaddr &&& PPC32_MIN_PAGE_IMASK).setWidth 64

theorem bootBoard_page {p : BitVec 32} {off : BitVec 32} (hp : p.toNat < 0x30000)
    (hoff : off.toNat ≤ 0xFFF) :
    devLookup bootBoard (p.setWidth 64 + off.setWidth 64) false = some bootRam := by
  apply bootBoard_lookup
  simp only [BitVec.toNat_add, BitVec.toNat_setWidth]
  omega

theorem stringCpu_hosted {vaddr : BitVec 32} (h : vaddr.toNat < 0x30000) (opType : MtsOp) :
    HostedAt stringCpu.toCpu .dcache vaddr opType (bootCell vaddr) := by
  have hreal : ∀ v, xlate stringCpu.toCpu v .dcache = some (realMap v) :=
    fun v => xlate_real (by decide) v
  have hpage : (vaddr &&& PPC32_MIN_PAGE_MASK).toNat < 0x30000 := by
    rw [BitVec.toNat_and]
    exact Nat.lt_of_le_of_lt Nat.and_le_left h
  have hbase : devLookup bootBoard (realMap vaddr).paddr false = some bootRam := by
    have hzero : (realMap vaddr).paddr + (0#32).setWidth 64 = (realMap vaddr).paddr :=
      BitVec.add_zero _
    rw [← hzero]
    exact bootBoard_page hpage (by decide)
  refine ⟨realMap vaddr, _, false, hreal vaddr, fun v hv => ?_, ?_, fun _ => rfl, rfl⟩
  · have hoff : (v &&& PPC32_MIN_PAGE_IMASK).toNat ≤ 0xFFF := by
      rw [BitVec.toNat_and]
      exact Nat.and_le_right
    refine ⟨realMap v, hreal v, congrArg (BitVec.setWidth 64) hv, ?_⟩
    exact (bootBoard_page hpage hoff).trans hbase.symm
  · have hdev : devLookup stringCpu.vm (realMap vaddr).paddr false = some bootRam := hbase
    simp only [Vm.hostOf, hdev]
    rfl

theorem stringCpu_ranges : HostRanges stringCpu.toCpu bootCell 5 0x2000 0 where
  source := by
    intro i hi
    apply stringCpu_hosted
    have hsrc : (0x2000 : BitVec 32).toNat = 0x2000 := rfl
    rw [BitVec.toNat_add, BitVec.toNat_ofNat, hsrc]
    omega
  target := by
    intro i hi
    apply stringCpu_hosted
    have hdst : (0 : BitVec 32).toNat = 0 := rfl
    rw [BitVec.toNat_add, BitVec.toNat_ofNat, hdst]
    omega
  table := by
    intro mem _ vaddr cid
    have hoff : translationOff 0 cid = true := by
      cases cid <;> decide
    exact (xlate_real hoff vaddr).trans (xlate_real hoff vaddr).symm

theorem string_insns_copy_five : ∃ mid after,
    StringForm.indexed.load quietEnv stringCpu lswxInsn = some mid ∧
      StringForm.indexed.store quietEnv mid stswxInsn = some after ∧
      Copies bootCell (fun cpu : FetchCpu Unit => cpu.vm.mem) 5 5 0x2000 0 stringCpu mid after :=
  string_insns_copy .indexed quietEnv bootCell (fun cpu => cpu.vm.mem)
    (HostReady stringCpu.toCpu bootCell 5 0) stringCpu lswxInsn stswxInsn
    (isMemory_host stringCpu_ranges quietEnv)
    ⟨coherent_empty fun _ _ => rfl, rfl, rfl, fun _ _ => rfl⟩ (by decide) (by decide)
    ⟨fun h => absurd (by decide) h, fun _ => by
      rw [InRange]
      decide⟩

end Dynamips.Ppc32
