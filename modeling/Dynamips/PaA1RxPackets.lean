import Dynamips.PaA1Rx
import Dynamips.Lib.Reassembly

/-! Packets of the TI1570 in the memory of the guest. -/
set_option autoImplicit false

namespace Dynamips.PaA1

open GuestRam Reassembly

def stop (b : Buf (List Byte)) : Nat := b.addr + rxBufferSize + Atm.payloadSize * b.room

def Apart (a b a' b' : Nat) : Prop := b ≤ a' ∨ b' ≤ a

def BufsApart (b b' : Buf (List Byte)) : Prop := Apart b.addr (stop b) b'.addr (stop b')

theorem BufsApart.symm {b b' : Buf (List Byte)} (h : BufsApart b b') : BufsApart b' b :=
  Or.symm h

def Linked (m : Ram) : BitVec 32 → List (Buf (List Byte)) → Buf (List Byte) → BitVec 32 → Prop
  | flags, [], cur, eop => physmemCopyU32FromVm m (cur.addr + 4) = flags ||| eop
  | flags, b :: full, cur, eop =>
    physmemCopyU32FromVm m (b.addr + 4) =
        flags ||| BitVec.ofNat 32 ((full.head?.getD cur).addr / 4) ∧
      Linked m 0 full cur eop

def Stored (m : Ram) (b : Buf (List Byte)) : Prop :=
  physmemCopyFromVm m (b.addr + rxBufferSize) (Atm.payloadSize * b.cells.length) = b.cells.flatten

structure InMemory (m : Ram) (full : List (Buf (List Byte))) (cur : Buf (List Byte))
    (eop : BitVec 32) : Prop where
  linked : Linked m RX_BUFFER_SOP full cur eop
  stored : ∀ b ∈ full ++ [cur], Stored m b
  whole : ∀ b ∈ full ++ [cur], ∀ c ∈ b.cells, c.length = Atm.payloadSize

def Counted (rde : RxDmaEntry) : Prop :=
  PaA1Rx.aalType rde = RX_DMA_AAL_CNT →
    (rde.cbLen &&& RX_DMA_TR_CNT_MASK) >>> RX_DMA_TR_CNT_SHIFT = rde.aal5Crc &&& 0xFFFF

structure Holds (m : Ram) (rde : RxDmaEntry) (full : List (Buf (List Byte)))
    (cur : Buf (List Byte)) : Prop where
  act : hasFlag rde.ctrl RX_DMA_ACT = true
  awake : hasFlag rde.ctrl RX_DMA_WAIT_EOP = false
  start : rde.spPtr = BitVec.ofNat 32 ((full.head?.getD cur).addr / 4)
  current : rde.sbAddr.toNat * 4 = cur.addr
  pos : rde.cbAddr.toNat = cur.addr + rxBufferSize + Atm.payloadSize * cur.cells.length
  left : (PaA1Rx.bufLen rde).toNat + cur.cells.length = cur.room
  count : Counted rde
  filled : ∀ b ∈ full, b.cells.length = b.room
  below : ∀ b ∈ full ++ [cur], stop b < 2 ^ 32
  inMemory : InMemory m full cur 0

variable {m m' : Ram} {flags eop : BitVec 32} {full : List (Buf (List Byte))}
  {cur new : Buf (List Byte)} {rde : RxDmaEntry}

theorem stop_put (p : List Byte) : stop (cur.put p) = stop cur := rfl

theorem addr_put (p : List Byte) : (cur.put p).addr = cur.addr := rfl

/-! Changes of the memory. -/

theorem linked_congr (h : ∀ b ∈ full ++ [cur], ∀ a, b.addr ≤ a → a < b.addr + rxBufferSize →
    m' a = m a) : Linked m' flags full cur eop ↔ Linked m flags full cur eop := by
  induction full generalizing flags with
  | nil =>
    have hcur := h cur (by simp)
    simp only [rxBufferSize] at hcur
    rw [Linked, Linked, u32_congr fun a ha ha' => hcur a (by omega) (by omega)]
  | cons b full ih =>
    have hb := h b (by simp)
    simp only [rxBufferSize] at hb
    rw [Linked, Linked, u32_congr fun a ha ha' => hb a (by omega) (by omega),
      ih fun x hx => h x (List.mem_cons_of_mem _ hx)]

theorem stored_congr {b : Buf (List Byte)} (hroom : b.cells.length ≤ b.room)
    (h : ∀ a, b.addr + rxBufferSize ≤ a → a < stop b → m' a = m a) (hb : Stored m b) :
    Stored m' b := by
  have hle : Atm.payloadSize * b.cells.length ≤ Atm.payloadSize * b.room :=
    Nat.mul_le_mul_left _ hroom
  simp only [stop] at h
  rw [Stored, copyFromVm_congr fun a ha ha' => h a (by omega) (by omega), hb]

theorem head_append : ((full ++ [cur]).head?.getD new) = full.head?.getD cur := by
  cases full with
  | nil => rfl
  | cons b full => rfl

theorem linked_append (hlink : Linked m flags full cur 0)
    (hkeep : ∀ b ∈ full, ∀ a, b.addr ≤ a → a < b.addr + rxBufferSize → m' a = m a)
    (hcur : physmemCopyU32FromVm m' (cur.addr + 4) =
      physmemCopyU32FromVm m (cur.addr + 4) ||| BitVec.ofNat 32 (new.addr / 4))
    (hnew : physmemCopyU32FromVm m' (new.addr + 4) = 0) :
    Linked m' flags (full ++ [cur]) new 0 := by
  induction full generalizing flags with
  | nil =>
    rw [Linked] at hlink
    rw [List.nil_append, Linked, Linked]
    refine ⟨?_, hnew⟩
    simp [hcur, hlink]
  | cons b full ih =>
    rw [Linked] at hlink
    have hb := hkeep b List.mem_cons_self
    simp only [rxBufferSize] at hb
    rw [List.cons_append, Linked, head_append,
      u32_congr fun a ha ha' => hb a (by omega) (by omega)]
    exact ⟨hlink.1, ih hlink.2 fun x hx => hkeep x (List.mem_cons_of_mem _ hx)⟩

theorem linked_last {eop' : BitVec 32} (hlink : Linked m flags full cur eop)
    (hkeep : ∀ b ∈ full, ∀ a, b.addr ≤ a → a < b.addr + rxBufferSize → m' a = m a)
    (hcur : physmemCopyU32FromVm m' (cur.addr + 4) =
      physmemCopyU32FromVm m (cur.addr + 4) ||| eop') :
    Linked m' flags full cur (eop ||| eop') := by
  induction full generalizing flags with
  | nil =>
    rw [Linked] at hlink ⊢
    rw [hcur, hlink, BitVec.or_assoc]
  | cons b full ih =>
    rw [Linked] at hlink ⊢
    have hb := hkeep b List.mem_cons_self
    simp only [rxBufferSize] at hb
    rw [u32_congr fun a ha ha' => hb a (by omega) (by omega)]
    exact ⟨hlink.1, ih hlink.2 fun x hx => hkeep x (List.mem_cons_of_mem _ hx)⟩

theorem linked_put (p : List Byte) :
    Linked m flags full (cur.put p) eop ↔ Linked m flags full cur eop := by
  induction full generalizing flags with
  | nil => rw [Linked, Linked, addr_put]
  | cons b full ih =>
    rw [Linked, Linked, ih]
    cases full with
    | nil => rfl
    | cons b' full => rfl

theorem stored_put {p : List Byte} (hb : Stored m cur)
    (hkeep : ∀ a, a < cur.addr + rxBufferSize + Atm.payloadSize * cur.cells.length →
      m' a = m a ∨ a < cur.addr + rxBufferSize)
    (hput : physmemCopyFromVm m' (cur.addr + rxBufferSize + Atm.payloadSize * cur.cells.length)
      Atm.payloadSize = p) : Stored m' (cur.put p) := by
  have hlen : Atm.payloadSize * (cur.cells ++ [p]).length =
      Atm.payloadSize * cur.cells.length + Atm.payloadSize := by
    rw [List.length_append, List.length_singleton, Nat.mul_add, Nat.mul_one]
  have hold : physmemCopyFromVm m' (cur.addr + rxBufferSize)
      (Atm.payloadSize * cur.cells.length) = cur.cells.flatten := by
    rw [copyFromVm_congr fun a ha ha' => (hkeep a (by omega)).resolve_right (by omega)]
    exact hb
  rw [Stored, Buf.put, hlen, copyFromVm_append, hold, hput]
  simp

theorem InMemory.congr (h : InMemory m full cur eop)
    (hroom : ∀ b ∈ full ++ [cur], b.cells.length ≤ b.room)
    (hkeep : ∀ b ∈ full ++ [cur], ∀ a, b.addr ≤ a → a < stop b → m' a = m a) :
    InMemory m' full cur eop where
  linked := by
    refine (linked_congr fun b hb a ha ha' => hkeep b hb a ha ?_).mpr h.linked
    simp only [stop]
    omega
  stored := fun b hb =>
    stored_congr (hroom b hb) (fun a ha => hkeep b hb a (by omega)) (h.stored b hb)
  whole := h.whole

theorem Holds.room (h : Holds m rde full cur) : ∀ b ∈ full ++ [cur], b.cells.length ≤ b.room := by
  intro b hb
  rcases List.mem_append.mp hb with hb | hb
  · exact (h.filled b hb).le
  · rw [List.mem_singleton.mp hb]
    have := h.left
    omega

theorem Holds.congr (h : Holds m rde full cur)
    (hkeep : ∀ b ∈ full ++ [cur], ∀ a, b.addr ≤ a → a < stop b → m' a = m a) :
    Holds m' rde full cur :=
  { h with inMemory := h.inMemory.congr h.room hkeep }

/-! Fields of words. -/

theorem and_lowMask {x : BitVec 32} (h : x.toNat < 2 ^ 16) : x &&& RX_DMA_CB_LEN_MASK = x := by
  apply BitVec.eq_of_toNat_eq
  rw [BitVec.toNat_and]
  exact (Nat.and_two_pow_sub_one_eq_mod x.toNat 16).trans (Nat.mod_eq_of_lt h)

theorem toNat_and_lowMask (x : BitVec 32) : (x &&& RX_DMA_CB_LEN_MASK).toNat = x.toNat % 2 ^ 16 := by
  rw [BitVec.toNat_and]
  exact Nat.and_two_pow_sub_one_eq_mod x.toNat 16

theorem and_highMask {x : BitVec 32} (h : x &&& RX_DMA_CB_LEN_MASK = x) :
    x &&& RX_DMA_TR_CNT_MASK = 0 := by
  rw [← h, BitVec.and_assoc]
  exact BitVec.and_zero

theorem low_or {x y : BitVec 32} (hx : x &&& RX_DMA_CB_LEN_MASK = 0)
    (hy : y &&& RX_DMA_CB_LEN_MASK = y) : (x ||| y) &&& RX_DMA_CB_LEN_MASK = y := by
  rw [BitVec.and_or_distrib_right, hx, hy]
  exact BitVec.zero_or

theorem high_or {x y : BitVec 32} (hx : x &&& RX_DMA_TR_CNT_MASK = x)
    (hy : y &&& RX_DMA_CB_LEN_MASK = y) : (x ||| y) &&& RX_DMA_TR_CNT_MASK = x := by
  rw [BitVec.and_or_distrib_right, hx, and_highMask hy]
  exact BitVec.or_zero

theorem high_low (x : BitVec 32) : x &&& ~~~RX_DMA_CB_LEN_MASK &&& RX_DMA_CB_LEN_MASK = 0 := by
  rw [BitVec.and_assoc]
  exact BitVec.and_zero

theorem high_high (x : BitVec 32) :
    x &&& ~~~RX_DMA_CB_LEN_MASK &&& RX_DMA_TR_CNT_MASK = x &&& ~~~RX_DMA_CB_LEN_MASK := by
  rw [BitVec.and_assoc]
  rfl

theorem shiftLeft_low (x : BitVec 32) : (x <<< 16) &&& RX_DMA_CB_LEN_MASK = 0 := by
  apply BitVec.eq_of_toNat_eq
  rw [toNat_and_lowMask, BitVec.toNat_shiftLeft, Nat.shiftLeft_eq]
  change _ = 0
  omega

theorem shiftLeft_high (x : BitVec 32) : (x <<< 16) &&& RX_DMA_TR_CNT_MASK = x <<< 16 := by
  have hsplit := @BitVec.and_or_distrib_left 32 (x <<< 16) RX_DMA_CB_LEN_MASK RX_DMA_TR_CNT_MASK
  rw [shiftLeft_low] at hsplit
  exact (hsplit.trans BitVec.zero_or).symm.trans BitVec.and_allOnes

theorem shiftLeft_shiftRight {x : BitVec 32} (h : x.toNat < 2 ^ 16) : (x <<< 16) >>> 16 = x := by
  apply BitVec.eq_of_toNat_eq
  rw [BitVec.toNat_ushiftRight, BitVec.toNat_shiftLeft, Nat.shiftLeft_eq, Nat.shiftRight_eq_div_pow]
  omega

theorem hasFlag_and_not (w flag : BitVec 32) : hasFlag (w &&& ~~~flag) flag = false := by
  simp [hasFlag, BitVec.and_assoc]

theorem or_and_of_apart {w flag mask : BitVec 32} (h : flag &&& mask = 0) :
    (w ||| flag) &&& mask = w &&& mask := by
  rw [BitVec.and_or_distrib_right, h]
  exact BitVec.or_zero

end Dynamips.PaA1
