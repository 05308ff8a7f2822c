import Dynamips.I8255x

/-! Packets through the buffers of the i8255x. -/
set_option autoImplicit false

namespace Dynamips.I8255x

open GuestRam Turns
open Ilt (normalizeSize)

/-! Words in place. -/

theorem memBswap32_memBswap32 (l : List Byte) : memBswap32 (memBswap32 l) = l := by
  fun_induction memBswap32 l with
  | case1 a b c d rest ih => rw [memBswap32, ih]
  | case2 l h =>
    rw [memBswap32.eq_def]
    split
    · exact absurd rfl (h _ _ _ _ _)
    · rfl

theorem length_memBswap32 (l : List Byte) : (memBswap32 l).length = l.length := by
  fun_induction memBswap32 l with
  | case1 a b c d rest ih => simp [ih]
  | case2 => rfl

theorem normLen_ofNat {n : Nat} (h : n < 2 ^ 31) : normLen (BitVec.ofNat 32 n) = (n + 3) / 4 * 4 := by
  have hsum : BitVec.ofNat 32 n + 4 - 1 = BitVec.ofNat 32 (n + 3) := by
    apply BitVec.eq_of_toNat_eq
    simp
    omega
  have hmask : ∀ x : BitVec 32, x &&& ~~~(3#32) = (x >>> 2) <<< 2 := by
    intro x
    apply BitVec.eq_of_getLsbD_eq
    intro i hi
    have h3 : (3#32).getLsbD i = decide (i < 2) := by
      rw [show (3#32) = BitVec.ofNat 32 (2 ^ 2 - 1) from rfl, BitVec.getLsbD_ofNat,
        Nat.testBit_two_pow_sub_one]
      simp [hi]
    rw [BitVec.getLsbD_and, BitVec.getLsbD_not, h3, BitVec.getLsbD_shiftLeft,
      BitVec.getLsbD_ushiftRight]
    by_cases hlt : i < 2
    · simp [hlt]
    · simp [hlt, hi, show 2 + (i - 2) = i by omega]
  have hone : (4 - 1 : BitVec 32) = 3#32 := rfl
  rw [normLen, normalizeSize, hsum, hone, hmask, BitVec.toNat_ushiftRight, BitVec.toNat_shiftLeft,
    BitVec.toNat_ushiftRight, BitVec.toNat_ofNat, Nat.shiftLeft_eq, Nat.shiftRight_eq_div_pow,
    Nat.shiftRight_eq_div_pow]
  omega

theorem copyFromVm_copyToVm_take (m : Ram) (l : List Byte) (a : Nat) {k : Nat}
    (h : k ≤ l.length) : physmemCopyFromVm (physmemCopyToVm m l a) a k = l.take k := by
  rw [← take_copyFromVm _ a h, copyFromVm_copyToVm]

/-! The bound of the transmit buffer. -/

def TxOk (d : I8255xData) (m : Ram) (cbAddr : BitVec 32) (action : CuAction) : Prop :=
  ∀ x ∈ (txFill m d.txBuffer (txSegs m cbAddr action)).copies,
    x.2 = 0 ∨ x.1 + x.2 ≤ I8255X_MAX_PKT_SIZE

/-- Each buffer of a frame, rounded up to words, fits behind those before it. -/
def TxFits (m : Ram) (cbAddr : BitVec 32) (action : CuAction) : Prop :=
  ∀ pre seg post, txSegs m cbAddr action = pre ++ seg :: post → normLen seg.2 = 0 ∨
    (pre.map fun x => x.2.toNat).sum + normLen seg.2 ≤ I8255X_MAX_PKT_SIZE

theorem mem_copies (m : Ram) (segs : List (BitVec 32 × BitVec 32)) (s : TxFill) (x : Nat × Nat) :
    x ∈ (segs.foldl (fun s seg => s.copy m seg) s).copies ↔ x ∈ s.copies ∨
      ∃ pre seg post, segs = pre ++ seg :: post ∧
        x = (s.off + (pre.map fun y => y.2.toNat).sum, normLen seg.2) := by
  induction segs generalizing s with
  | nil => simp
  | cons seg segs ih =>
    rw [List.foldl_cons, ih]
    simp only [TxFill.copy, List.mem_append, List.mem_singleton]
    constructor
    · rintro ((h | rfl) | ⟨pre, seg', post, rfl, rfl⟩)
      · exact .inl h
      · exact .inr ⟨[], seg, segs, rfl, rfl⟩
      · refine .inr ⟨seg :: pre, seg', post, rfl, ?_⟩
        simp [Nat.add_assoc]
    · rintro (h | ⟨pre, seg', post, heq, rfl⟩)
      · exact .inl (.inl h)
      · cases pre with
        | nil =>
          cases heq
          exact .inl (.inr rfl)
        | cons y pre =>
          cases heq
          refine .inr ⟨pre, seg', post, rfl, ?_⟩
          simp [Nat.add_assoc]

theorem txOk_iff (d : I8255xData) (m : Ram) (cbAddr : BitVec 32) (action : CuAction) :
    TxOk d m cbAddr action ↔ TxFits m cbAddr action := by
  have hmem := mem_copies m (txSegs m cbAddr action) ⟨d.txBuffer, 0, []⟩
  simp only [List.not_mem_nil, false_or, Nat.zero_add] at hmem
  simp only [TxOk, TxFits, txFill, hmem]
  constructor
  · intro h pre seg post heq
    exact h _ ⟨pre, seg, post, heq, rfl⟩
  · rintro h x ⟨pre, seg, post, heq, rfl⟩
    exact h pre seg post heq

/-! Chains of receive buffers. -/

def I8255xData.rxfdAddr (d : I8255xData) : BitVec 32 := d.ruBase + d.ruOffset

def I8255xData.rxfd (d : I8255xData) (m : Ram) : RxFd := fetchRxfd m d.rxfdAddr

def I8255xData.firstRxbd (d : I8255xData) (m : Ram) : BitVec 32 := d.ruBase + (d.rxfd m).rxbdAddr

def I8255xData.nextRxfd (d : I8255xData) (m : Ram) : BitVec 32 := d.ruBase + (d.rxfd m).linkOffset

def room (m : Ram) (bd : BitVec 32) : Nat := (fetchRxbd m bd).room

structure Chain (d : I8255xData) (m : Ram) (bds : List (BitVec 32)) : Prop where
  first : bds.head? = some (d.firstRxbd m)
  link : ∀ i bd bd', bds[i]? = some bd → bds[i + 1]? = some bd' →
    bd' = d.ruBase + (fetchRxbd m bd).rxbdNext
  once : bds.Nodup

/-- A place of `len` bytes does not overlap another one. -/
def Apart (a len b len' : Nat) : Prop := a + len ≤ b ∨ b + len' ≤ a

/-- The buffers, in whole words, are apart from the descriptors, and these from each
other. -/
structure Clear (d : I8255xData) (m : Ram) (bds : List (BitVec 32)) : Prop where
  inside : d.rxfdAddr.toNat + 16 ≤ 2 ^ 32 ∧ (d.nextRxfd m).toNat + 16 ≤ 2 ^ 32
  frames : ∀ bd ∈ bds, Apart bd.toNat 16 d.rxfdAddr.toNat 16 ∧
    Apart bd.toNat 16 (d.nextRxfd m).toNat 16
  buffers : ∀ bd ∈ bds, ∀ bd' ∈ bds,
    Apart (fetchRxbd m bd).bufAddr.toNat ((room m bd + 3) / 4 * 4) bd'.toNat 16
  bufferFrames : ∀ bd ∈ bds,
    Apart (fetchRxbd m bd).bufAddr.toNat ((room m bd + 3) / 4 * 4) d.rxfdAddr.toNat 16 ∧
    Apart (fetchRxbd m bd).bufAddr.toNat ((room m bd + 3) / 4 * 4) (d.nextRxfd m).toNat 16

def usedSegs (used : List (BitVec 32 × BitVec 32 × Nat)) : List (BitVec 32 × BitVec 32) :=
  used.map fun u => (u.2.1, BitVec.ofNat 32 u.2.2)

/-- A packet is stored as it should be: once in the first descriptors of the chain, with
the number of bytes in each (and of the CRC in the last one), so that transmitting the
buffers sends the packet. -/
structure RxOk (d : I8255xData) (m : Ram) (buf : Nat → Byte) (pktLen : Nat)
    (bds : List (BitVec 32)) (r : RuPass) : Prop where
  once : r.used.map Prod.fst <+: bds
  inside : ∀ u ∈ r.used, u.2.2 ≤ room m u.1
  counted : ∀ i u, r.used[i]? = some u → (word r.mem u.1 0 &&& RXFD_SIZE_MASK).toNat =
    u.2.2 + if i + 1 = r.used.length then 4 else 0
  roundTrip : ∀ (d' : I8255xData) (m' : Ram) (cbAddr : BitVec 32) (action : CuAction),
    txSegs m' cbAddr action = usedSegs r.used →
      (∀ x ∈ usedSegs r.used, ∀ a, x.1.toNat ≤ a → a < x.1.toNat + normLen x.2 → m' a = r.mem a) →
        (d'.sendTxPkt m' cbAddr action).2 = physmemCopyFromVm buf 0 pktLen

def fullCtrl (ctrl : BitVec 32) (pktLen : Nat) : BitVec 32 :=
  (ctrl ||| RXBD_CTRL_EOF) ||| (RXBD_CTRL_F ||| BitVec.ofNat 32 (pktLen + 4))

/-- The packet fits the first buffer, and what was in the count of its descriptor does
not show through. -/
def RxFits (d : I8255xData) (m : Ram) (pktLen : Nat) : Prop :=
  pktLen ≤ room m (d.firstRxbd m) ∧
    (fullCtrl (fetchRxbd m (d.firstRxbd m)).ctrl pktLen &&& RXFD_SIZE_MASK).toNat = pktLen + 4

variable {d : I8255xData} {m : Ram} {buf : Nat → Byte} {pktLen : Nat} {bds : List (BitVec 32)}

theorem room_lt (m : Ram) (bd : BitVec 32) : room m bd < 2 ^ 14 := by
  have hand : (fetchRxbd m bd).room ≤ RXFD_SIZE_MASK.toNat := by
    rw [RxBd.room, BitVec.toNat_and]
    exact Nat.and_le_right
  have hmask : RXFD_SIZE_MASK.toNat = 2 ^ 14 - 1 := by decide
  rw [room]
  omega

theorem Chain.first_mem (h : Chain d m bds) : d.firstRxbd m ∈ bds :=
  List.mem_of_head? h.first

def storeStart (m : Ram) (buf : Nat → Byte) (pktLen : Nat) : StoreTurn :=
  ⟨m, buf, 0, pktLen, ⟨0, 0, 0, 0⟩, []⟩

theorem storeRxPkt_iff (hflex : hasFlag (d.rxfd m).ctrl RXFD_CTRL_SF = true) {r : RuPass} :
    StoreRxPkt d m buf pktLen r ↔
      ∃ s, Returns (storeTurn (d.firstRxbd m)) (storeStart m buf pktLen) s ∧
        r = updateRxfd d (physmemCopyU32ToVm s.mem (d.nextRxfd m + 0x08).toNat
          (d.ruBase + s.rxbd.rxbdNext)) d.rxfdAddr (d.rxfd m) pktLen s.used := by
  have hflex' : ¬hasFlag (fetchRxfd m (d.ruBase + d.ruOffset)).ctrl RXFD_CTRL_SF = false := by
    rw [Bool.not_eq_false]
    exact hflex
  rw [StoreRxPkt]
  exact iff_of_eq (if_neg hflex')

/-! A packet that does not fit. -/

theorem put_used (s : StoreTurn) (bd : BitVec 32) :
    ∃ x, (s.put bd).used = s.used ++ [(bd, x)] := ⟨_, rfl⟩

theorem twice_of_go {s s' t : StoreTurn} {bd : BitVec 32} (hgo : storeTurn bd s = .go s')
    (hr : Returns (storeTurn bd) s' t) :
    ∃ pre x y, t.used = pre ++ [(bd, x), (bd, y)] := by
  have hturn : ∀ u : StoreTurn, (∃ pre x, u.used = pre ++ [(bd, x)]) →
      ∃ pre x y, (u.put bd).used = pre ++ [(bd, x), (bd, y)] := by
    rintro u ⟨pre, x, hu⟩
    obtain ⟨y, hy⟩ := put_used u bd
    exact ⟨pre, x, y, by rw [hy, hu, List.append_assoc]; rfl⟩
  have hcases : ∀ u, storeTurn bd u = .go (u.put bd) ∨ storeTurn bd u = .stop (u.put bd) := by
    intro u
    rw [storeTurn]
    split
    · exact .inl rfl
    · exact .inr rfl
  have hnext : ∀ u u', storeTurn bd u = .go u' → u' = u.put bd := by
    intro u u' hu
    obtain h | h := hcases u
    · rw [hu] at h
      cases h
      rfl
    · rw [hu] at h
      cases h
  apply hr.invariant (P := fun u => ∃ pre x, u.used = pre ++ [(bd, x)])
    (Q := fun u => ∃ pre x y, u.used = pre ++ [(bd, x), (bd, y)])
  · obtain ⟨x, hx⟩ := put_used s bd
    exact ⟨s.used, x, by rw [hnext s s' hgo, hx]⟩
  · intro u u' _ hu
    obtain ⟨x, hx⟩ := put_used u bd
    exact ⟨u.used, x, by rw [hnext u u' hu, hx]⟩
  · intro u t hu hstop
    obtain h | h := hcases u
    · rw [hstop] at h
      cases h
    · rw [hstop] at h
      cases h
      exact hturn u hu

theorem fits_of_once (hchain : Chain d m bds) {s : StoreTurn}
    (hr : Returns (storeTurn (d.firstRxbd m)) (storeStart m buf pktLen) s)
    (honce : s.used.map Prod.fst <+: bds) : pktLen ≤ room m (d.firstRxbd m) := by
  by_contra hmore
  have hgo : storeTurn (d.firstRxbd m) (storeStart m buf pktLen) =
      .go ((storeStart m buf pktLen).put (d.firstRxbd m)) := by
    apply if_pos
    simp only [storeStart, StoreTurn.put]
    have : room m (d.firstRxbd m) = (fetchRxbd m (d.firstRxbd m)).room := rfl
    omega
  obtain ⟨pre, x, y, hused⟩ := twice_of_go hgo ((returns_go hgo).mp hr)
  have hnodup := honce.sublist.nodup hchain.once
  rw [hused] at hnodup
  simp [List.nodup_append] at hnodup

/-! A packet that fits. -/

def swapped (buf : Nat → Byte) (pktLen : Nat) : List Byte :=
  memBswap32 (physmemCopyFromVm buf 0 (normLen (BitVec.ofNat 32 pktLen)))

def storedMem (m : Ram) (bd : BitVec 32) (buf : Nat → Byte) (pktLen : Nat) : Ram :=
  physmemCopyU32ToVm
    (physmemCopyToVm m (swapped buf pktLen) (fetchRxbd m bd).bufAddr.toNat) bd.toNat
    (fullCtrl (fetchRxbd m bd).ctrl pktLen)

theorem store_fits (hfits : pktLen ≤ room m (d.firstRxbd m)) :
    ∃ s, storeTurn (d.firstRxbd m) (storeStart m buf pktLen) = .stop s ∧
      s.mem = storedMem m (d.firstRxbd m) buf pktLen ∧
        s.used = [(d.firstRxbd m, (fetchRxbd m (d.firstRxbd m)).bufAddr, pktLen)] := by
  have hmin : min pktLen (fetchRxbd m (d.firstRxbd m)).room = pktLen := Nat.min_eq_left hfits
  refine ⟨(storeStart m buf pktLen).put (d.firstRxbd m), if_neg ?_, ?_, ?_⟩
  · simp only [storeStart, StoreTurn.put, hmin]
    omega
  · simp only [storeStart, StoreTurn.put, hmin, Nat.sub_self, if_true]
    rfl
  · simp only [storeStart, StoreTurn.put, hmin]
    rfl

theorem offset_toNat {a k : BitVec 32} (ha : a.toNat + 16 ≤ 2 ^ 32) (hk : k.toNat < 16) :
    (a + k).toNat = a.toNat + k.toNat := by
  rw [BitVec.toNat_add]
  omega

theorem updateRxfd_mem (hinside : d.rxfdAddr.toNat + 16 ≤ 2 ^ 32 ∧
      (d.nextRxfd m).toNat + 16 ≤ 2 ^ 32) {m' : Ram} {next : BitVec 32}
    (used : List (BitVec 32 × BitVec 32 × Nat)) {x : Nat}
    (hframe : x < d.rxfdAddr.toNat ∨ d.rxfdAddr.toNat + 16 ≤ x)
    (hnext : x < (d.nextRxfd m).toNat ∨ (d.nextRxfd m).toNat + 16 ≤ x) :
    (updateRxfd d (physmemCopyU32ToVm m' (d.nextRxfd m + 0x08).toNat next) d.rxfdAddr (d.rxfd m)
      pktLen used).mem x = m' x := by
  have hsize := offset_toNat (k := 0x0c) hinside.1 (by decide)
  have hlink := offset_toNat (k := 0x08) hinside.2 (by decide)
  have h12 : (0x0c : BitVec 32).toNat = 12 := rfl
  have h8 : (0x08 : BitVec 32).toNat = 8 := rfl
  simp only [updateRxfd, physmemCopyU32ToVm]
  rw [copyToVm_of_not_mem (by simp only [length_mHton32]; omega),
    copyToVm_of_not_mem (by simp only [length_mHton32]; omega),
    copyToVm_of_not_mem (by simp only [length_mHton32]; omega)]

theorem length_swapped (buf : Nat → Byte) (h : pktLen < 2 ^ 14) :
    (swapped buf pktLen).length = (pktLen + 3) / 4 * 4 := by
  rw [swapped, length_memBswap32, length_physmemCopyFromVm, normLen_ofNat (by omega)]

theorem storedMem_buffer (hclear : Clear d m bds) (hchain : Chain d m bds)
    (hfits : pktLen ≤ room m (d.firstRxbd m)) :
    physmemCopyFromVm (storedMem m (d.firstRxbd m) buf pktLen)
        (fetchRxbd m (d.firstRxbd m)).bufAddr.toNat (normLen (BitVec.ofNat 32 pktLen)) =
      swapped buf pktLen := by
  have hroom := room_lt m (d.firstRxbd m)
  have hlen := length_swapped buf (show pktLen < 2 ^ 14 by omega)
  have hapart := hclear.buffers _ hchain.first_mem _ hchain.first_mem
  rw [Apart] at hapart
  have hkeep : physmemCopyFromVm (storedMem m (d.firstRxbd m) buf pktLen)
      (fetchRxbd m (d.firstRxbd m)).bufAddr.toNat (swapped buf pktLen).length =
        swapped buf pktLen := by
    rw [storedMem, physmemCopyU32ToVm,
      copyFromVm_disjoint (by simp only [length_mHton32]; omega), copyFromVm_copyToVm]
  rwa [hlen, ← normLen_ofNat (by omega)] at hkeep

theorem sendTxPkt_one (d' : I8255xData) (m' : Ram) (cbAddr : BitVec 32) (action : CuAction)
    {a : BitVec 32} (hlen : pktLen < 2 ^ 14)
    (hsegs : txSegs m' cbAddr action = [(a, BitVec.ofNat 32 pktLen)]) :
    (d'.sendTxPkt m' cbAddr action).2 =
      (memBswap32 (physmemCopyFromVm m' a.toNat (normLen (BitVec.ofNat 32 pktLen)))).take
        pktLen := by
  have hnat : (BitVec.ofNat 32 pktLen).toNat = pktLen := by
    rw [BitVec.toNat_ofNat]
    omega
  have hnorm := normLen_ofNat (show pktLen < 2 ^ 31 by omega)
  simp only [I8255xData.sendTxPkt, hsegs, txFill, List.foldl_cons, List.foldl_nil, TxFill.copy,
    Nat.zero_add, hnat]
  exact copyFromVm_copyToVm_take _ _ _
    (by rw [length_memBswap32, length_physmemCopyFromVm]; omega)

theorem roundTrip_of_fits (hclear : Clear d m bds) (hchain : Chain d m bds)
    (hfits : pktLen ≤ room m (d.firstRxbd m)) (d' : I8255xData) (m' : Ram) (cbAddr : BitVec 32)
    (action : CuAction) (hsegs : txSegs m' cbAddr action =
      [((fetchRxbd m (d.firstRxbd m)).bufAddr, BitVec.ofNat 32 pktLen)])
    (hkept : physmemCopyFromVm m' (fetchRxbd m (d.firstRxbd m)).bufAddr.toNat
        (normLen (BitVec.ofNat 32 pktLen)) =
      physmemCopyFromVm (storedMem m (d.firstRxbd m) buf pktLen)
        (fetchRxbd m (d.firstRxbd m)).bufAddr.toNat (normLen (BitVec.ofNat 32 pktLen))) :
    (d'.sendTxPkt m' cbAddr action).2 = physmemCopyFromVm buf 0 pktLen := by
  have hroom := room_lt m (d.firstRxbd m)
  have hnorm := normLen_ofNat (show pktLen < 2 ^ 31 by omega)
  rw [sendTxPkt_one d' m' cbAddr action (by omega) hsegs, hkept,
    storedMem_buffer hclear hchain hfits, swapped, memBswap32_memBswap32,
    take_copyFromVm _ _ (by omega)]

theorem storedMem_ctrl (m : Ram) (bd : BitVec 32) (buf : Nat → Byte) (pktLen : Nat) :
    physmemCopyU32FromVm (storedMem m bd buf pktLen) bd.toNat =
      fullCtrl (fetchRxbd m bd).ctrl pktLen :=
  u32_u32ToVm _ _

theorem rxOk_iff (hflex : hasFlag (d.rxfd m).ctrl RXFD_CTRL_SF = true) (hchain : Chain d m bds)
    (hclear : Clear d m bds) :
    (∃ r, StoreRxPkt d m buf pktLen r ∧ RxOk d m buf pktLen bds r) ↔ RxFits d m pktLen := by
  have hbd := hchain.first_mem
  have hword : ∀ s : StoreTurn, s.mem = storedMem m (d.firstRxbd m) buf pktLen →
      word (updateRxfd d (physmemCopyU32ToVm s.mem (d.nextRxfd m + 0x08).toNat
        (d.ruBase + s.rxbd.rxbdNext)) d.rxfdAddr (d.rxfd m) pktLen s.used).mem (d.firstRxbd m) 0 =
        fullCtrl (fetchRxbd m (d.firstRxbd m)).ctrl pktLen := by
    intro s hs
    have hframes := hclear.frames _ hbd
    simp only [Apart] at hframes
    rw [word, ← storedMem_ctrl m (d.firstRxbd m) buf pktLen, ← hs]
    exact u32_congr fun x hx hx' =>
      updateRxfd_mem hclear.inside s.used (by omega) (by omega)
  constructor
  · rintro ⟨r, hr, hok⟩
    obtain ⟨s, hs, rfl⟩ := (storeRxPkt_iff hflex).mp hr
    have hfits := fits_of_once hchain hs hok.once
    obtain ⟨s', hstop, hmem, hused⟩ := @store_fits d m buf pktLen hfits
    obtain rfl := (returns_stop hstop).mp hs
    refine ⟨hfits, ?_⟩
    have hcounted := hok.counted 0 _ (by simp only [updateRxfd, hused]; rfl)
    rwa [hword s hmem, show (updateRxfd d _ _ _ _ s.used).used = s.used from rfl, hused] at hcounted
  · rintro ⟨hfits, hcount⟩
    obtain ⟨s, hstop, hmem, hused⟩ := @store_fits d m buf pktLen hfits
    refine ⟨_, (storeRxPkt_iff hflex).mpr ⟨s, (returns_stop hstop).mpr rfl, rfl⟩, ?_, ?_, ?_, ?_⟩
    · simp only [updateRxfd, hused, List.map_singleton]
      obtain ⟨rest, hrest⟩ := List.head?_eq_some_iff.mp hchain.first
      exact ⟨rest, hrest.symm⟩
    · intro u hu
      simp only [updateRxfd, hused, List.mem_singleton] at hu
      rw [hu]
      exact hfits
    · intro i u hu
      simp only [updateRxfd, hused, List.getElem?_singleton] at hu
      split at hu
      · rename_i hi
        cases hu
        rw [hword s hmem, hcount, hi]
        simp only [updateRxfd, hused]
        rfl
      · cases hu
    · intro d' m' cbAddr action hsegs hkept
      have hroom := room_lt m (d.firstRxbd m)
      have hnorm := normLen_ofNat (show pktLen < 2 ^ 31 by omega)
      simp only [updateRxfd, hused, usedSegs, List.map_singleton, List.forall_mem_singleton]
        at hsegs hkept
      refine roundTrip_of_fits hclear hchain hfits d' m' cbAddr action hsegs ?_
      have hapart := hclear.bufferFrames _ hbd
      simp only [Apart] at hapart
      rw [← hmem]
      refine copyFromVm_congr fun x hx hx' => (hkept x hx hx').trans ?_
      exact updateRxfd_mem hclear.inside s.used (by omega) (by omega)

/-- Packets go through the buffers unchanged exactly if they fit the first one, and the
copies of a frame stay in the transmit buffer exactly if its buffers do, in words. -/
theorem packets_kept_iff (d : I8255xData) (m : Ram) (buf : Nat → Byte) (pktLen : Nat)
    (bds : List (BitVec 32)) (hflex : hasFlag (d.rxfd m).ctrl RXFD_CTRL_SF = true)
    (hchain : Chain d m bds) (hclear : Clear d m bds) :
    ((∃ r, StoreRxPkt d m buf pktLen r ∧ RxOk d m buf pktLen bds r) ↔ RxFits d m pktLen) ∧
    ∀ cbAddr action, TxOk d m cbAddr action ↔ TxFits m cbAddr action :=
  ⟨rxOk_iff hflex hchain hclear, txOk_iff d m⟩

def putWords (m : Ram) (addr : Nat) (words : List (BitVec 32)) : Ram :=
  physmemCopyToVm m (words.flatMap mHton32) addr

def atFrame : I8255xData := { I8255xData.init with ruState := .ready, ruOffset := 0x1000 }

/-- The frame has buffers of `size` bytes at 0x3000 and of four bytes at 0x3100. -/
def twoBuffers (size : BitVec 32) : Ram :=
  putWords (putWords (putWords (fun _ => 0) 0x1000 [0x00080000, 0x1100, 0x2000, 0]) 0x2000
    [0, 0x2010, 0x3000, size]) 0x2010 [0, 0x2020, 0x3100, 4]

theorem twoBuffers_chain (size : BitVec 32) (hsize : size = 2 ∨ size = 4) :
    Chain atFrame (twoBuffers size) [0x2000, 0x2010] := by
  constructor
  · obtain rfl | rfl := hsize
    · decide
    · decide
  · intro i bd bd' hbd hbd'
    obtain rfl : i = 0 := by
      have := (List.getElem?_eq_some_iff.mp hbd').1
      simp at this
      omega
    cases hbd
    cases hbd'
    obtain rfl | rfl := hsize
    · decide
    · decide
  · decide

theorem twoBuffers_clear (size : BitVec 32) (hsize : size = 2 ∨ size = 4) :
    Clear atFrame (twoBuffers size) [0x2000, 0x2010] := by
  obtain rfl | rfl := hsize
  · refine ⟨by decide, ?_, ?_, ?_⟩
    all_goals simp only [List.forall_mem_cons, List.not_mem_nil, false_imp_iff, implies_true,
      and_true, Apart]
    all_goals decide
  · refine ⟨by decide, ?_, ?_, ?_⟩
    all_goals simp only [List.forall_mem_cons, List.not_mem_nil, false_imp_iff, implies_true,
      and_true, Apart]
    all_goals decide

theorem packets_kept_three : ∃ r, StoreRxPkt atFrame (twoBuffers 4) (fun _ => 7) 3 r ∧
    RxOk atFrame (twoBuffers 4) (fun _ => 7) 3 [0x2000, 0x2010] r := by
  have hiff := packets_kept_iff atFrame (twoBuffers 4) (fun _ => 7) 3 [0x2000, 0x2010]
    (by decide) (twoBuffers_chain 4 (.inr rfl)) (twoBuffers_clear 4 (.inr rfl))
  exact hiff.1.mpr ⟨by decide, by decide⟩

/-- A packet of five bytes goes to the buffer of two bytes again and again. -/
theorem not_packets_kept : ¬ ∀ (d : I8255xData) (m : Ram) (buf : Nat → Byte) (pktLen : Nat)
    (bds : List (BitVec 32)), hasFlag (d.rxfd m).ctrl RXFD_CTRL_SF = true → Chain d m bds →
      Clear d m bds → pktLen ≤ (bds.map (room m)).sum →
        (∃ r, StoreRxPkt d m buf pktLen r ∧ RxOk d m buf pktLen bds r) ∧
          ∀ cbAddr action, TxOk d m cbAddr action := by
  intro hall
  have hchain := twoBuffers_chain 2 (.inl rfl)
  have hclear := twoBuffers_clear 2 (.inl rfl)
  have hboth := hall atFrame (twoBuffers 2) (fun _ => 7) 5 [0x2000, 0x2010] (by decide)
    hchain hclear (by decide)
  have hfits := (rxOk_iff (by decide) hchain hclear).mp hboth.1
  exact absurd hfits.1 (by decide)

end Dynamips.I8255x
