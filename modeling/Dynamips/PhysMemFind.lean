import Dynamips.Lib.Search
import Dynamips.PhysMem

/-! The search for a sequence of bytes in cacheable physical memory. -/
set_option autoImplicit false

namespace Dynamips

open Search
open Mips64 (vmLoad)

variable {W : Type}

/-- The local variables of `physmem_cfind`. -/
structure Cfind (W : Type) where
  vm : Vm W
  buffer : List Byte
  i : Nat
  buflen : Nat
  first : BitVec 64

def lastDevAddr (dev : VDevice) (last : BitVec 64) : BitVec 64 :=
  let lastDev := dev.physAddr + dev.physLen.setWidth 64 - 1
  if last < lastDev then last else lastDev

def cfindFill (handler : DevHandler W) (len : Nat) (lastDev : BitVec 64) : Nat → Cfind W →
    Option (Cfind W)
  | 0, s => some s
  | fuel + 1, s =>
    if s.buflen < len ∧ s.first + BitVec.ofNat 64 s.buflen ≤ lastDev then
      match physmemCopyWordFromVm 1 handler s.vm (s.first + BitVec.ofNat 64 s.buflen) with
      | none => none
      | some (val, vm) =>
        cfindFill handler len lastDev fuel { s with
          vm := vm
          buffer := s.buffer.set s.buflen (val.setWidth 8)
          buflen := s.buflen + 1 }
    else some s

/-- The two comparisons of the buffer, which begins at `i`. -/
def cfindMatch (bytes buffer : List Byte) (i : Nat) : Bool :=
  (i == 0 || buffer.take i == bytes.drop (bytes.length - i)) &&
    buffer.drop i == bytes.take (bytes.length - i)

/-- The loop over the possible matches, with the address of a match. -/
def cfindTest (handler : DevHandler W) (bytes : List Byte) (lastDev : BitVec 64) : Nat →
    Cfind W → Option (Option (BitVec 64) × Cfind W)
  | 0, _ => none
  | fuel + 1, s =>
    if s.first + BitVec.ofNat 64 bytes.length ≤ lastDev then
      let i := if bytes.length ≤ s.i then 0 else s.i
      if cfindMatch bytes s.buffer i then some (some s.first, s)
      else
        match physmemCopyWordFromVm 1 handler s.vm
            (s.first + BitVec.ofNat 64 bytes.length) with
        | none => none
        | some (val, vm) =>
          cfindTest handler bytes lastDev fuel { s with
            vm := vm
            buffer := s.buffer.set i (val.setWidth 8)
            i := i + 1
            first := s.first + 1 }
    else some (none, s)

def cfindDevices (handler : DevHandler W) (bytes : List Byte) (last : BitVec 64) :
    List VDevice → Cfind W → Option (Option (BitVec 64) × Vm W)
  | [], s => some (none, s.vm)
  | dev :: rest, s =>
    if last < dev.physAddr then some (none, s.vm)
    else if ¬ dev.has vdeviceFlagCaching then cfindDevices handler bytes last rest s
    else
      let s := if s.first + BitVec.ofNat 64 s.buflen ≠ dev.physAddr then
        { s with i := 0, buflen := 0 } else s
      match cfindFill handler bytes.length (lastDevAddr dev last) bytes.length s with
      | none => none
      | some s =>
        if s.buflen < bytes.length then cfindDevices handler bytes last rest s
        else
          match cfindTest handler bytes (lastDevAddr dev last)
              ((lastDevAddr dev last - s.first).toNat + 1) s with
          | none => none
          | some (some paddr, s) => some (some paddr, s.vm)
          | some (none, s) => cfindDevices handler bytes last rest s

/-- `physmem_cfind` where `malloc` gives the buffer: the address in `*paddr`, or
nothing where it returns -1. -/
def physmemCfind (handler : DevHandler W) (vm : Vm W) (bytes : List Byte)
    (first last : BitVec 64) : Option (Option (BitVec 64) × Vm W) :=
  if bytes.length = 0 ∨ last < first ∨
      last - first < BitVec.ofNat 64 bytes.length + 1 then some (none, vm)
  else cfindDevices handler bytes last vm.devList
    ⟨vm, List.replicate bytes.length 0, 0, 0, first⟩

def ReadsAs (handler : DevHandler W) (good : Vm W → Prop) (mem : BitVec 64 → Byte) : Prop :=
  ∀ vm, good vm → ∀ paddr, ∃ vm',
    physmemCopyWordFromVm 1 handler vm paddr = some ((mem paddr).setWidth 64, vm') ∧ good vm'

def memWindow (mem : BitVec 64 → Byte) (paddr : BitVec 64) (len : Nat) : List Byte :=
  hostRead mem paddr len

def MatchIn (mem : BitVec 64 → Byte) (bytes : List Byte) (first last paddr : BitVec 64) : Prop :=
  first ≤ paddr ∧ paddr ≤ last ∧ paddr.toNat + bytes.length ≤ last.toNat + 1 ∧
    memWindow mem paddr bytes.length = bytes

def Cacheable (vm : Vm W) (paddr : BitVec 64) (len : Nat) : Prop :=
  ∀ i < len, devLookup vm (paddr + BitVec.ofNat 64 i) true ≠ none

def searched (devs : List VDevice) (last : BitVec 64) : List VDevice :=
  (devs.takeWhile fun dev => decide (dev.physAddr ≤ last)).filter (·.has vdeviceFlagCaching)

/-- The search tests a window: the range has room for two bytes more than the pattern, and
the window ends before the last byte of a device that the loop comes to. -/
def Tested (vm : Vm W) (len : Nat) (first last paddr : BitVec 64) : Prop :=
  len ≠ 0 ∧ len + 1 ≤ last.toNat - first.toNat ∧
    ∃ dev ∈ searched vm.devList last, paddr.toNat + len ≤ (lastDevAddr dev last).toNat

def Occurs (vm : Vm W) (mem : BitVec 64 → Byte) (bytes : List Byte) (first last paddr : BitVec 64) :
    Prop :=
  MatchIn mem bytes first last paddr ∧ Cacheable vm paddr bytes.length

def Found (vm : Vm W) (mem : BitVec 64 → Byte) (bytes : List Byte) (first last paddr : BitVec 64) :
    Prop :=
  MatchIn mem bytes first last paddr ∧ Tested vm bytes.length first last paddr

/-- The search gives the lowest address at which the bytes occur in cacheable memory. -/
def FindsLowest (handler : DevHandler W) (vm : Vm W) (mem : BitVec 64 → Byte)
    (bytes : List Byte) (first last : BitVec 64) : Prop :=
  ∃ found vm', physmemCfind handler vm bytes first last = some (found, vm') ∧
    ∀ paddr, found = some paddr ↔ Least BitVec.toNat (Occurs vm mem bytes first last) paddr

/-- The first window with the bytes that is cacheable or tested is both. -/
def FirstTested (vm : Vm W) (mem : BitVec 64 → Byte) (bytes : List Byte)
    (first last : BitVec 64) : Prop :=
  ∀ paddr, Least BitVec.toNat (fun p => Found vm mem bytes first last p ∨
      Occurs vm mem bytes first last p) paddr →
    Cacheable vm paddr bytes.length ∧ Tested vm bytes.length first last paddr

variable {handler : DevHandler W} {good : Vm W → Prop} {mem : BitVec 64 → Byte}
  {bytes : List Byte} {first last lastDev paddr : BitVec 64} {s : Cfind W}

theorem memWindow_snoc (mem : BitVec 64 → Byte) (paddr : BitVec 64) (n : Nat) :
    memWindow mem paddr (n + 1) =
      memWindow mem paddr n ++ [mem (paddr + BitVec.ofNat 64 n)] := hostRead_snoc _ _ _

theorem memWindow_tail (mem : BitVec 64 → Byte) (paddr : BitVec 64) {n : Nat} (hn : 0 < n) :
    (memWindow mem paddr n).tail ++ [mem (paddr + BitVec.ofNat 64 n)] =
      memWindow mem (paddr + 1) n := by
  obtain ⟨n, rfl⟩ : ∃ n', n = n' + 1 := ⟨n - 1, by omega⟩
  rw [memWindow_snoc mem (paddr + 1), ofNat_succ_add]
  rfl

/-- The ring buffer holds the first bytes from `first` on, and no window before it matches. -/
structure CfindOk (good : Vm W → Prop) (mem : BitVec 64 → Byte) (bytes : List Byte)
    (first : BitVec 64) (s : Cfind W) : Prop where
  good : good s.vm
  length : s.buffer.length = bytes.length
  index : s.i ≤ bytes.length
  filled : s.buflen ≤ bytes.length
  top : s.first.toNat + bytes.length < 2 ^ 64
  start : first.toNat ≤ s.first.toNat
  before : ∀ p : BitVec 64, first.toNat ≤ p.toNat → p.toNat < s.first.toNat →
    memWindow mem p bytes.length ≠ bytes
  fresh : s.buflen < bytes.length → s.i = 0
  ring : (rotated s.buffer s.i).take s.buflen = memWindow mem s.first s.buflen

theorem CfindOk.full (ok : CfindOk good mem bytes first s) (h : s.buflen = bytes.length) :
    rotated s.buffer s.i = memWindow mem s.first bytes.length := by
  have hring := ok.ring
  rwa [h, List.take_of_length_le (by rw [length_rotated, ok.length])] at hring

theorem cfindFill_ok (reads : ReadsAs handler good mem) {fuel : Nat}
    (ok : CfindOk good mem bytes first s) (hfuel : bytes.length ≤ fuel + s.buflen) :
    ∃ s', cfindFill handler bytes.length lastDev fuel s = some s' ∧
      CfindOk good mem bytes first s' ∧ s'.first = s.first ∧
      (s'.buflen = bytes.length ∨ lastDev.toNat < s.first.toNat + s'.buflen) := by
  induction fuel generalizing s with
  | zero =>
    have hfull := ok.filled
    exact ⟨s, rfl, ok, rfl, Or.inl (by omega)⟩
  | succ fuel ih =>
    have htop := ok.top
    have hfull := ok.filled
    have haddr : (s.first + BitVec.ofNat 64 s.buflen).toNat = s.first.toNat + s.buflen := by
      rw [BitVec.toNat_add, BitVec.toNat_ofNat]
      omega
    have hle : s.first + BitVec.ofNat 64 s.buflen ≤ lastDev ↔
        s.first.toNat + s.buflen ≤ lastDev.toNat := by rw [BitVec.le_def, haddr]
    rw [cfindFill]
    by_cases hcond : s.buflen < bytes.length ∧ s.first + BitVec.ofNat 64 s.buflen ≤ lastDev
    · obtain ⟨vm', hread, hgood⟩ := reads s.vm ok.good (s.first + BitVec.ofNat 64 s.buflen)
      have hi := ok.fresh hcond.1
      have hval : ((mem (s.first + BitVec.ofNat 64 s.buflen)).setWidth 64).setWidth 8 =
          mem (s.first + BitVec.ofNat 64 s.buflen) := by simp
      rw [if_pos hcond, hread]
      simp only [hval]
      refine ih ⟨hgood, ?_, ok.index, hcond.1, htop, ok.start, ok.before, fun _ => hi, ?_⟩ ?_
      · rw [List.length_set, ok.length]
      · have hring := ok.ring
        have hlen : s.buflen < (s.buffer.set s.buflen
            (mem (s.first + BitVec.ofNat 64 s.buflen))).length := by
          rw [List.length_set, ok.length]
          exact hcond.1
        rw [hi, rotated_zero] at hring ⊢
        rw [memWindow_snoc, List.take_succ_eq_append_getElem hlen, List.getElem_set_self,
          List.take_set_of_le (Nat.le_refl _), hring]
      · show bytes.length ≤ fuel + (s.buflen + 1)
        omega
    · rw [if_neg hcond]
      rw [hle] at hcond
      exact ⟨s, rfl, ok, rfl, by omega⟩

theorem cfindMatch_iff {buffer : List Byte} {i : Nat} (hlen : buffer.length = bytes.length)
    (hi : i ≤ bytes.length) : cfindMatch bytes buffer i = true ↔ rotated buffer i = bytes := by
  rw [rotated_eq_iff (by omega) hlen.symm, cfindMatch, hlen]
  simp

theorem cfindTest_ok (reads : ReadsAs handler good mem) (hpos : bytes.length ≠ 0) {fuel : Nat}
    (htop : lastDev.toNat + 1 < 2 ^ 64) (ok : CfindOk good mem bytes first s)
    (hfull : s.buflen = bytes.length) (hfuel : lastDev.toNat - s.first.toNat < fuel) :
    ∃ found s', cfindTest handler bytes lastDev fuel s = some (found, s') ∧
      CfindOk good mem bytes first s' ∧ s'.buflen = bytes.length ∧
      ((found = none ∧ lastDev.toNat < s'.first.toNat + bytes.length) ∨
        (found = some s'.first ∧ s'.first.toNat + bytes.length ≤ lastDev.toNat ∧
          memWindow mem s'.first bytes.length = bytes)) := by
  induction fuel generalizing s with
  | zero => omega
  | succ fuel ih =>
    have haddr : (s.first + BitVec.ofNat 64 bytes.length).toNat =
        s.first.toNat + bytes.length := by
      have hlt := ok.top
      rw [BitVec.toNat_add, BitVec.toNat_ofNat]
      omega
    obtain ⟨i, hi⟩ : ∃ i, i = if bytes.length ≤ s.i then 0 else s.i := ⟨_, rfl⟩
    have hring : i < bytes.length ∧ rotated s.buffer i = memWindow mem s.first bytes.length := by
      rw [← ok.full hfull, hi]
      have hindex := ok.index
      split
      · have hlast : s.i = s.buffer.length := by
          rw [ok.length]
          omega
        exact ⟨by omega, by rw [hlast, rotated_length, rotated_zero]⟩
      · exact ⟨by omega, rfl⟩
    have hle : s.first + BitVec.ofNat 64 bytes.length ≤ lastDev ↔
        s.first.toNat + bytes.length ≤ lastDev.toNat := by rw [BitVec.le_def, haddr]
    rw [cfindTest]
    simp only [← hi]
    by_cases hcond : s.first + BitVec.ofNat 64 bytes.length ≤ lastDev
    · rw [if_pos hcond]
      rw [hle] at hcond
      by_cases hmatch : cfindMatch bytes s.buffer i = true
      · rw [cfindMatch_iff ok.length hring.1.le, hring.2] at hmatch
        have hyes : cfindMatch bytes s.buffer i = true := by
          rw [cfindMatch_iff ok.length hring.1.le, hring.2, hmatch]
        rw [if_pos hyes]
        exact ⟨_, s, rfl, ok, hfull, Or.inr ⟨rfl, hcond, hmatch⟩⟩
      · obtain ⟨vm', hread, hgood⟩ :=
          reads s.vm ok.good (s.first + BitVec.ofNat 64 bytes.length)
        have hone : (1 : BitVec 64).toNat = 1 := rfl
        have hnext : (s.first + 1).toNat = s.first.toNat + 1 := by
          rw [BitVec.toNat_add, hone]
          omega
        have hval : ((mem (s.first + BitVec.ofNat 64 bytes.length)).setWidth 64).setWidth 8 =
            mem (s.first + BitVec.ofNat 64 bytes.length) := by simp
        rw [if_neg hmatch, hread]
        rw [cfindMatch_iff ok.length hring.1.le, hring.2] at hmatch
        simp only [hval]
        refine ih ⟨hgood, ?_, hring.1, hfull.le, ?_, ?_, ?_, ?_, ?_⟩ hfull ?_
        · rw [List.length_set, ok.length]
        · simp only [hnext]
          omega
        · simp only [hnext]
          have hstart := ok.start
          omega
        · intro p hp hlt
          simp only [hnext] at hlt
          by_cases heq : p = s.first
          · rw [heq]
            exact hmatch
          · have hne : p.toNat ≠ s.first.toNat := fun h => heq (BitVec.eq_of_toNat_eq h)
            exact ok.before p hp (by omega)
        · intro hlt
          simp only [hfull] at hlt
          omega
        · have hset := @rotated_set _ s.buffer i (by rw [ok.length]; exact hring.1)
            (mem (s.first + BitVec.ofNat 64 bytes.length))
          simp only [hfull]
          rw [hset, hring.2, memWindow_tail _ _ (by omega), List.take_of_length_le]
          rw [memWindow, length_hostRead]
        · simp only [hnext]
          omega
    · rw [if_neg hcond]
      rw [hle] at hcond
      exact ⟨none, s, rfl, ok, hfull, Or.inl ⟨rfl, by omega⟩⟩

theorem searched_cons (dev : VDevice) (rest : List VDevice) (last : BitVec 64) :
    searched (dev :: rest) last =
      if last < dev.physAddr then []
      else if dev.has vdeviceFlagCaching then dev :: searched rest last
      else searched rest last := by
  rw [searched, List.takeWhile_cons]
  by_cases hlt : last < dev.physAddr
  · have hle : ¬ dev.physAddr ≤ last := BitVec.not_le.mpr hlt
    simp [hlt, hle]
  · have hle : dev.physAddr ≤ last := BitVec.not_lt.mp hlt
    simp only [hle, decide_true, if_true, hlt, if_false, List.filter_cons]
    rfl

theorem lastDevAddr_le (dev : VDevice) (last : BitVec 64) : lastDevAddr dev last ≤ last := by
  simp only [lastDevAddr]
  split
  · exact BitVec.le_refl _
  · exact BitVec.not_lt.mp (by assumption)

theorem lastDevAddr_lt {dev : VDevice} (h : dev.physAddr + dev.physLen.setWidth 64 ≠ 0) :
    (lastDevAddr dev last).toNat + 1 < 2 ^ 64 := by
  have hz : (dev.physAddr + dev.physLen.setWidth 64).toNat ≠ 0 := fun hz =>
    h (BitVec.eq_of_toNat_eq hz)
  have hlt := (dev.physAddr + dev.physLen.setWidth 64).isLt
  have hone : (1 : BitVec 64).toNat = 1 := rfl
  have hsub : (dev.physAddr + dev.physLen.setWidth 64 - 1).toNat =
      (dev.physAddr + dev.physLen.setWidth 64).toNat - 1 := by
    rw [BitVec.toNat_sub, hone]
    omega
  simp only [lastDevAddr]
  split
  · rename_i hl
    rw [BitVec.lt_def] at hl
    omega
  · omega

def MatchUpTo (mem : BitVec 64 → Byte) (bytes : List Byte) (first last : BitVec 64)
    (devs : List VDevice) (p : BitVec 64) : Prop :=
  first.toNat ≤ p.toNat ∧ memWindow mem p bytes.length = bytes ∧
    ∃ dev ∈ searched devs last, p.toNat + bytes.length ≤ (lastDevAddr dev last).toNat

theorem matchUpTo_nil {devs : List VDevice} (h : searched devs last = []) (p : BitVec 64) :
    ¬ MatchUpTo mem bytes first last devs p := by
  rintro ⟨-, -, dev, hdev, -⟩
  rw [h] at hdev
  cases hdev

theorem matchUpTo_skip (ok : CfindOk good mem bytes first s) {dev : VDevice}
    {rest : List VDevice} (hdev : searched (dev :: rest) last = dev :: searched rest last)
    (hpast : (lastDevAddr dev last).toNat < s.first.toNat + bytes.length) :
    MatchUpTo mem bytes first last (dev :: rest) = MatchUpTo mem bytes first last rest := by
  funext p
  simp only [MatchUpTo, hdev, List.mem_cons, exists_eq_or_imp, eq_iff_iff]
  constructor
  · rintro ⟨hfirst, hmatch, hlast | hrest⟩
    · exact absurd hmatch (ok.before p hfirst (by omega))
    · exact ⟨hfirst, hmatch, hrest⟩
  · rintro ⟨hfirst, hmatch, hrest⟩
    exact ⟨hfirst, hmatch, Or.inr hrest⟩

theorem cfindDevices_ok (reads : ReadsAs handler good mem) (hpos : bytes.length ≠ 0)
    {devs : List VDevice} (htop : ∀ dev ∈ devs, dev.has vdeviceFlagCaching →
      dev.physAddr + dev.physLen.setWidth 64 ≠ 0) (ok : CfindOk good mem bytes first s) :
    ∃ found vm', cfindDevices handler bytes last devs s = some (found, vm') ∧
      ∀ p, found = some p ↔ Least BitVec.toNat (MatchUpTo mem bytes first last devs) p := by
  have hnone : ∀ {devs : List VDevice}, searched devs last = [] → ∀ p,
      none = some p ↔ Least BitVec.toNat (MatchUpTo mem bytes first last devs) p := by
    intro devs h p
    have hno : ¬ MatchUpTo mem bytes first last devs p := matchUpTo_nil h p
    constructor
    · intro hp
      cases hp
    · exact fun hp => absurd hp.1 hno
  induction devs generalizing s with
  | nil => exact ⟨none, s.vm, rfl, hnone rfl⟩
  | cons dev rest ih =>
    have htail : ∀ d ∈ rest, d.has vdeviceFlagCaching →
        d.physAddr + d.physLen.setWidth 64 ≠ 0 := fun d hd =>
      htop d (List.mem_cons_of_mem dev hd)
    have hsearched := searched_cons dev rest last
    rw [cfindDevices]
    by_cases hlt : last < dev.physAddr
    · rw [if_pos hlt] at hsearched ⊢
      exact ⟨none, s.vm, rfl, hnone hsearched⟩
    rw [if_neg hlt] at hsearched ⊢
    by_cases hcaching : dev.has vdeviceFlagCaching
    · rw [if_pos hcaching] at hsearched
      rw [if_neg (not_not.mpr hcaching)]
      obtain ⟨s₁, hs₁⟩ : ∃ s₁, s₁ = if s.first + BitVec.ofNat 64 s.buflen ≠ dev.physAddr then
        { s with i := 0, buflen := 0 } else s := ⟨_, rfl⟩
      have ok₁ : CfindOk good mem bytes first s₁ := by
        rw [hs₁]
        split
        · exact ⟨ok.good, ok.length, Nat.zero_le _, Nat.zero_le _, ok.top, ok.start, ok.before,
            fun _ => rfl, rfl⟩
        · exact ok
      obtain ⟨s₂, hfill, ok₂, hfirst, hend⟩ := @cfindFill_ok _ _ _ _ _ _ (lastDevAddr dev last) _
        reads bytes.length ok₁ (by omega)
      rw [← hfirst] at hend
      simp only [← hs₁, hfill]
      by_cases hpart : s₂.buflen < bytes.length
      · rw [if_pos hpart, matchUpTo_skip ok₂ hsearched (by omega)]
        exact ih htail ok₂
      · have hfilled := ok₂.filled
        obtain ⟨found, s₃, htest, ok₃, -, hcase⟩ := cfindTest_ok reads hpos
          (lastDevAddr_lt (htop dev List.mem_cons_self hcaching)) ok₂ (by omega)
          (show (lastDevAddr dev last).toNat - s₂.first.toNat <
              (lastDevAddr dev last - s₂.first).toNat + 1 by
            rw [BitVec.toNat_sub]
            omega)
        rw [if_neg hpart, htest]
        obtain ⟨rfl, hpast⟩ | ⟨rfl, hin, hmatch⟩ := hcase
        · rw [matchUpTo_skip ok₃ hsearched hpast]
          exact ih htail ok₃
        · have hleast : Least BitVec.toNat (MatchUpTo mem bytes first last (dev :: rest))
              s₃.first := by
            refine ⟨⟨ok₃.start, hmatch, dev, ?_, hin⟩, fun p hp => ?_⟩
            · rw [hsearched]
              exact List.mem_cons_self
            · by_contra hless
              exact ok₃.before p hp.1 (by omega) hp.2.1
          refine ⟨some s₃.first, s₃.vm, rfl, fun p => ⟨?_, fun hp => ?_⟩⟩
          · rintro ⟨⟩
            exact hleast
          · rw [hleast.unique (fun _ _ => BitVec.eq_of_toNat_eq) hp]
    · rw [if_neg hcaching] at hsearched
      rw [if_pos hcaching]
      have hskip : MatchUpTo mem bytes first last (dev :: rest) =
          MatchUpTo mem bytes first last rest := by
        funext p
        rw [MatchUpTo, MatchUpTo, hsearched]
      rw [hskip]
      exact ih htail ok

theorem physmemCfind_ok {vm : Vm W} (reads : ReadsAs handler good mem) (hgood : good vm)
    (hlen : bytes.length + 1 < 2 ^ 64) (htop : ∀ dev ∈ vm.devList,
      dev.has vdeviceFlagCaching → dev.physAddr + dev.physLen.setWidth 64 ≠ 0) :
    ∃ found vm', physmemCfind handler vm bytes first last = some (found, vm') ∧
      ∀ p, found = some p ↔ Least BitVec.toNat (Found vm mem bytes first last) p := by
  have hguard : (bytes.length = 0 ∨ last < first ∨
      last - first < BitVec.ofNat 64 bytes.length + 1) ↔
      ¬ (bytes.length ≠ 0 ∧ bytes.length + 1 ≤ last.toNat - first.toNat) := by
    have hone : (1 : BitVec 64).toNat = 1 := rfl
    have hf := first.isLt
    have hl := last.isLt
    simp only [BitVec.lt_def, BitVec.toNat_sub, BitVec.toNat_add, BitVec.toNat_ofNat, hone]
    omega
  rw [physmemCfind]
  by_cases hcond : bytes.length = 0 ∨ last < first ∨
      last - first < BitVec.ofNat 64 bytes.length + 1
  · rw [if_pos hcond]
    rw [hguard] at hcond
    refine ⟨none, vm, rfl, fun p => ⟨fun hp => (by cases hp), fun hp => ?_⟩⟩
    obtain ⟨-, hz, hroom, -⟩ := hp.1
    exact absurd ⟨hz, hroom⟩ hcond
  · rw [if_neg hcond]
    rw [hguard, not_not] at hcond
    obtain ⟨hz, hroom⟩ := hcond
    have hl := last.isLt
    have hinit : CfindOk good mem bytes first
        ⟨vm, List.replicate bytes.length 0, 0, 0, first⟩ :=
      ⟨hgood, List.length_replicate, Nat.zero_le _, Nat.zero_le _, by simp only; omega,
        Nat.le_refl _, fun p hp hlt => absurd hlt (by simp only; omega), fun _ => rfl, rfl⟩
    obtain ⟨found, vm', hrun, hfound⟩ := @cfindDevices_ok _ _ _ _ _ _ last _ reads hz _ htop hinit
    refine ⟨found, vm', hrun, fun p => ?_⟩
    have hsame : MatchUpTo mem bytes first last vm.devList = Found vm mem bytes first last := by
      funext p
      simp only [MatchUpTo, Found, MatchIn, Tested, BitVec.le_def, eq_iff_iff]
      constructor
      · rintro ⟨hfirst, hmatch, dev, hdev, hin⟩
        have hle := lastDevAddr_le dev last
        rw [BitVec.le_def] at hle
        exact ⟨⟨hfirst, by omega, by omega, hmatch⟩, hz, hroom, dev, hdev, hin⟩
      · rintro ⟨⟨hfirst, -, -, hmatch⟩, -, -, htested⟩
        exact ⟨hfirst, hmatch, htested⟩
    rw [hfound, hsame]

/-- The search gives the lowest address at which the bytes occur exactly if the first
window with the bytes that is cacheable or tested is both. -/
theorem findsLowest_iff (handler : DevHandler W) (good : Vm W → Prop) (mem : BitVec 64 → Byte)
    (vm : Vm W) (bytes : List Byte) (first last : BitVec 64) (hgood : good vm)
    (reads : ReadsAs handler good mem) (hlen : bytes.length + 1 < 2 ^ 64)
    (htop : ∀ dev ∈ vm.devList, dev.has vdeviceFlagCaching →
      dev.physAddr + dev.physLen.setWidth 64 ≠ 0) :
    FindsLowest handler vm mem bytes first last ↔ FirstTested vm mem bytes first last := by
  have hinj : Function.Injective (BitVec.toNat : BitVec 64 → Nat) :=
    fun _ _ => BitVec.eq_of_toNat_eq
  obtain ⟨found, vm', hrun, hfound⟩ := @physmemCfind_ok _ _ _ _ _ first last _ reads hgood hlen htop
  have hleast : FindsLowest handler vm mem bytes first last ↔
      ∀ p, Least BitVec.toNat (Found vm mem bytes first last) p ↔
        Least BitVec.toNat (Occurs vm mem bytes first last) p := by
    constructor
    · rintro ⟨found', vm'', hrun', hfound'⟩ p
      rw [hrun] at hrun'
      cases hrun'
      rw [← hfound, hfound']
    · intro h
      exact ⟨found, vm', hrun, fun p => by rw [hfound, h]⟩
  rw [hleast, least_congr_iff hinj]
  constructor
  · intro h p hp
    obtain ⟨hfnd, hocc⟩ := h p hp
    exact ⟨hocc.2, hfnd.2⟩
  · intro h p hp
    obtain ⟨hcache, htest⟩ := h p hp
    have hmatch : MatchIn mem bytes first last p := hp.1.elim (·.1) (·.1)
    exact ⟨⟨hmatch, htest⟩, hmatch, hcache⟩

def smallRamDev : VDevice := ⟨0, 0, 8, 0x10000, vdeviceFlagCaching, 0⟩

def smallRam : Vm Unit where
  devList := [smallRamDev]
  devArray := fun _ => none
  sparseMap := fun _ _ => 0
  hostPage := fun _ => none
  pageAlloc := 0
  mem := fun a => a.setWidth 8
  clockDivisor := 1
  world := ()
  remap_host := by decide

def noHandler : DevHandler Unit := fun _ _ _ _ data vm => (none, data, vm)

def smallRamMem (paddr : BitVec 64) : Byte := if paddr.toNat < 8 then paddr.setWidth 8 else 0

theorem readsAs_smallRam : ReadsAs noHandler (· = smallRam) smallRamMem := by
  rintro vm rfl paddr
  have hmod : paddr.toNat % 18446744073709551616 = paddr.toNat := Nat.mod_eq_of_lt paddr.isLt
  refine ⟨smallRam, ?_, rfl⟩
  by_cases hp : paddr.toNat < 8
  · have hdev : devLookup smallRam paddr false = some smallRamDev := by
      simp [devLookup, smallRam, smallRamDev, VDevice.covers, BitVec.lt_def, BitVec.le_def, hmod,
        hp]
    have hsparse : smallRamDev.has vdeviceFlagSparse = false := by decide
    have hdirect : smallRamDev.hostAddr ≠ 0 ∧ ¬ smallRamDev.has vdeviceFlagNoMtsMmap := by decide
    have hbyte : (smallRamDev.hostAddr + (paddr - smallRamDev.physAddr)).setWidth 8 =
        paddr.setWidth 8 := by
      apply BitVec.eq_of_toNat_eq
      simp [smallRamDev]
      omega
    have hload : vmLoad smallRam.mem (smallRamDev.hostAddr + (paddr - smallRamDev.physAddr)) 1 =
        (paddr.setWidth 8).setWidth 64 := by
      rw [← hbyte]
      simp [Mips64.vmLoad, smallRam]
    simp only [physmemCopyWordFromVm, physmemGetHptr, hdev, hsparse, Bool.false_eq_true, if_false,
      if_pos hdirect, Option.map_some, hload, smallRamMem, hp, if_true]
  · have hdev : devLookup smallRam paddr false = none := by
      simp [devLookup, smallRam, smallRamDev, VDevice.covers, BitVec.lt_def, BitVec.le_def, hmod,
        hp]
    simp [physmemCopyWordFromVm, physmemGetHptr, hdev, smallRamMem, hp]

theorem findsLowest_iff_smallRam : FindsLowest noHandler smallRam smallRamMem [2, 3] 0 7 ↔
    FirstTested smallRam smallRamMem [2, 3] 0 7 :=
  findsLowest_iff noHandler (· = smallRam) smallRamMem smallRam [2, 3] 0 7 rfl readsAs_smallRam
    (by decide) (by decide)

theorem not_findsLowest : ¬ FindsLowest noHandler smallRam smallRamMem [6, 7] 0 7 := by
  rintro ⟨found, vm', hrun, hfound⟩
  have hnone : (physmemCfind noHandler smallRam [6, 7] 0 7).map Prod.fst = some none := by decide
  rw [hrun] at hnone
  cases hnone
  have hmatch : Occurs smallRam smallRamMem [6, 7] 0 7 6 := by
    refine ⟨⟨by decide, by decide, by decide, by decide⟩, ?_⟩
    unfold Cacheable
    decide
  obtain ⟨p, hp, -⟩ := @exists_least _ BitVec.toNat _ _ hmatch
  cases (hfound p).mpr hp

end Dynamips
