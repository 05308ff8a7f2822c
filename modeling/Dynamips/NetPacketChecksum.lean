import Dynamips.NetPacket

/-! The checksums of the headers and segments of a packet. -/
set_option autoImplicit false

namespace Dynamips.Packet

def cksumOffset (ipL4Proto : BitVec 32) (len : Nat) : Nat :=
  if ipL4Proto = nIpProtoTcp then 16 else if ipL4Proto = nIpProtoUdp then 6 else len

/-- The word of the bytes at `o`. -/
def wordAt (p : List Byte) (o : Nat) : BitVec 32 := pair (p.getD o 0) (p.getD (o + 1) 0)

def pktCtxTcpCksum (ctx : PktCtx) (ph : Bool) : BitVec 16 :=
  match ctx.l3, ctx.l4 with
  | some o, some o4 =>
    let ip := ctx.pkt.drop o
    let hlen := (ip.getD 0 0 &&& 15).toNat * 4
    let total := (wordAt ip 2).toNat
    if total < hlen then 0
    else
      let data := ctx.pkt.drop o4
      let len := total - hlen
      let skip := cksumOffset ctx.ipL4Proto len
      let sum := (sumBytes (Acc.start 0) (data.take len)).sum
      let sum :=
        if ctx.flags &&& nPktCtxFlagIpFrag = 0 ∧ skip + 1 < len then sum - wordAt data skip else sum
      let sum :=
        if ph then
          [12, 14, 16, 18].foldl (fun sum i => sum + wordAt ip i) sum +
            (ctx.ipL4Proto + BitVec.ofNat 32 len)
        else sum
      folded sum
  | _, _ => 0

/-! The words that the checksum of a segment is taken of. -/

def segment (frame : List Byte) (o4 len : Nat) : List Byte := (frame.drop o4).take len

/-- The addresses of the IP header at `o`, the protocol and the length of the segment. -/
def pseudoWords (frame : List Byte) (o : Nat) (ipL4Proto : BitVec 32) (len : Nat) : List Nat :=
  beWords ((frame.drop (o + 12)).take 8) ++ [ipL4Proto.toNat, len]

def segmentWords (ph : Bool) (frame : List Byte) (o o4 : Nat) (ipL4Proto : BitVec 32) (len : Nat) :
    List Nat :=
  (if ph then pseudoWords frame o ipL4Proto len else []) ++ beWords (segment frame o4 len)

def storeCksum (frame : List Byte) (o4 : Nat) (ipL4Proto : BitVec 32) (len : Nat)
    (value : BitVec 16) : List Byte :=
  withWord frame (o4 + cksumOffset ipL4Proto len) value

/-- The checksum of the segment at `o4` is that of the words with a zero in its place,
and stored there it makes them sum to zero. -/
structure CksumOk (frame : List Byte) (ctx : PktCtx) (ph : Bool) (o o4 len : Nat) : Prop where
  value : pktCtxTcpCksum ctx ph =
    onesChecksum (segmentWords ph (storeCksum frame o4 ctx.ipL4Proto len 0) o o4 ctx.ipL4Proto len)
  stored : onesChecksum (segmentWords ph
    (storeCksum frame o4 ctx.ipL4Proto len (pktCtxTcpCksum ctx ph)) o o4 ctx.ipL4Proto len) = 0

variable {frame data : List Byte} {ctx : PktCtx} {o o4 hlen total len k : Nat} {value : BitVec 16}

theorem toNat_wordAt_lt (p : List Byte) (o : Nat) : (wordAt p o).toNat < 2 ^ 16 := by
  rw [wordAt, toNat_pair]
  omega

theorem bytes_of_pair (hi lo : Byte) :
    (((pair hi lo).setWidth 16) >>> 8).setWidth 8 = hi ∧
      ((pair hi lo).setWidth 16).setWidth 8 = lo := by
  constructor
  · apply BitVec.eq_of_toNat_eq
    simp only [BitVec.toNat_setWidth, BitVec.toNat_ushiftRight, toNat_pair,
      Nat.shiftRight_eq_div_pow]
    omega
  · apply BitVec.eq_of_toNat_eq
    simp only [BitVec.toNat_setWidth, toNat_pair]
    omega

theorem withWord_self (h : k + 1 < data.length) :
    withWord data k ((wordAt data k).setWidth 16) = data := by
  obtain ⟨hhi, hlo⟩ := bytes_of_pair (data.getD k 0) (data.getD (k + 1) 0)
  have hfirst : data.getD k 0 = data[k] := by simp [List.getElem?_eq_getElem (Nat.lt_of_succ_lt h)]
  have hsecond : data.getD (k + 1) 0 = data[k + 1] := by simp [List.getElem?_eq_getElem h]
  rw [withWord, wordAt, hhi, hlo, hfirst, hsecond, List.set_getElem_self, List.set_getElem_self]

theorem segment_withWord :
    segment (withWord frame (o4 + k) value) o4 len = withWord (segment frame o4 len) k value := by
  rw [segment, withWord, List.drop_set, if_neg (by omega), List.drop_set, if_neg (by omega),
    List.take_set, List.take_set, Nat.add_assoc, Nat.add_sub_cancel_left, Nat.add_sub_cancel_left]
  rfl

theorem front_withWord (h : o + 20 ≤ k) :
    ((withWord frame k value).drop (o + 12)).take 8 = (frame.drop (o + 12)).take 8 := by
  rw [withWord, List.drop_set, if_neg (by omega), List.drop_set, if_neg (by omega),
    List.take_set_of_le (by omega), List.take_set_of_le (by omega)]

theorem wordAt_drop (p : List Byte) (o k : Nat) : wordAt (p.drop o) k = wordAt p (o + k) := by
  simp only [wordAt, List.getD_eq_getElem?_getD, List.getElem?_drop, Nat.add_assoc]

theorem beWords_take {p : List Byte} (h : 2 ≤ p.length) (n : Nat) :
    beWords (p.take (n + 2)) = (wordAt p 0).toNat :: beWords ((p.drop 2).take n) := by
  obtain ⟨hi, lo, p, rfl⟩ : ∃ hi lo p', p = hi :: lo :: p' := by
    rcases p with _ | ⟨hi, _ | ⟨lo, p⟩⟩
    · simp at h
    · simp at h
    · exact ⟨_, _, _, rfl⟩
  simp [beWords, wordAt, toNat_pair]

theorem beWords_eight (h : o + 20 ≤ frame.length) :
    (beWords ((frame.drop (o + 12)).take 8)).sum =
      (wordAt (frame.drop o) 12).toNat + (wordAt (frame.drop o) 14).toNat +
        (wordAt (frame.drop o) 16).toNat + (wordAt (frame.drop o) 18).toNat := by
  rw [beWords_take (by rw [List.length_drop]; omega), List.drop_drop,
    beWords_take (by rw [List.length_drop]; omega), List.drop_drop,
    beWords_take (by rw [List.length_drop]; omega), List.drop_drop,
    beWords_take (by rw [List.length_drop]; omega)]
  simp only [wordAt_drop, List.take_zero, beWords, List.sum_cons, List.sum_nil, Nat.add_zero,
    Nat.add_assoc]

theorem sum_segment {skip : Nat} (heven : skip % 2 = 0) (h : skip + 1 < data.length) :
    (beWords data).sum =
      (beWords (withWord data skip 0)).sum + (wordAt data skip).toNat := by
  obtain ⟨k, rfl⟩ : ∃ k, skip = 2 * k := ⟨skip / 2, by omega⟩
  have hlt := toNat_wordAt_lt data (2 * k)
  have hsum := sum_withWord h ((wordAt data (2 * k)).setWidth 16)
  rwa [withWord_self h, BitVec.toNat_setWidth, Nat.mod_eq_of_lt hlt] at hsum

theorem segmentWords_store (ph : Bool) (hfront : o + 20 ≤ o4) :
    segmentWords ph (storeCksum frame o4 ctx.ipL4Proto len value) o o4 ctx.ipL4Proto len =
      (if ph then pseudoWords frame o ctx.ipL4Proto len else []) ++
        beWords (withWord (segment frame o4 len) (cksumOffset ctx.ipL4Proto len) value) := by
  rw [segmentWords, storeCksum, segment_withWord, pseudoWords, front_withWord (by omega),
    ← pseudoWords]

theorem toNat_pseudo {sum ipL4Proto : BitVec 32} {p : List Byte}
    (hsum : sum.toNat < 2 ^ 31 + 2 ^ 16) (hproto : ipL4Proto.toNat < 256) (hlen : len < 65536) :
    ([12, 14, 16, 18].foldl (fun sum i => sum + wordAt p i) sum +
      (ipL4Proto + BitVec.ofNat 32 len)).toNat =
        sum.toNat + ((wordAt p 12).toNat + (wordAt p 14).toNat + (wordAt p 16).toNat +
          (wordAt p 18).toNat + (ipL4Proto.toNat + len)) := by
  have h12 := toNat_wordAt_lt p 12
  have h14 := toNat_wordAt_lt p 14
  have h16 := toNat_wordAt_lt p 16
  have h18 := toNat_wordAt_lt p 18
  simp only [List.foldl_cons, List.foldl_nil, BitVec.toNat_add, BitVec.toNat_ofNat]
  omega

theorem IpPacket.read (h : IpPacket frame o hlen total) :
    ((frame.drop o).getD 0 0 &&& 15).toNat * 4 = hlen ∧
      (wordAt (frame.drop o) 2).toNat = total ∧ total < 65536 := by
  obtain ⟨⟨b, hb, rfl⟩, ⟨w, hw, rfl⟩, -, -⟩ := h
  have hbyte : (frame.drop o).getD 0 0 = b := by
    rw [List.getD_eq_getElem?_getD, List.getElem?_drop, Nat.add_zero, hb, Option.getD_some]
  refine ⟨by rw [hbyte], ?_, w.isLt⟩
  simp only [word, Option.bind_eq_bind, Option.bind_eq_some_iff, Option.pure_def,
    Option.some.injEq] at hw
  obtain ⟨hi, hhi, lo, hlo, rfl⟩ := hw
  have hlt := toNat_wordAt_lt frame (o + 2)
  have hword : wordAt frame (o + 2) = pair hi lo := by
    simp only [wordAt, List.getD_eq_getElem?_getD, hhi, hlo, Option.getD_some]
  rw [wordAt_drop, hword, BitVec.toNat_setWidth]
  rw [hword] at hlt
  exact (Nat.mod_eq_of_lt hlt).symm

theorem wordAt_take {n : Nat} (h : k + 1 < n) : wordAt (data.take n) k = wordAt data k := by
  simp only [wordAt, List.getD_eq_getElem?_getD, List.getElem?_take, if_pos h,
    if_pos (Nat.lt_of_succ_lt h)]

theorem toNat_unsummed {skip : Nat} (heven : skip % 2 = 0) (hskip : skip + 1 < len)
    (hlen : len < 65536) (hin : o4 + len ≤ frame.length) :
    ((sumBytes (Acc.start 0) ((frame.drop o4).take len)).sum - wordAt (frame.drop o4) skip).toNat =
        (beWords (withWord (segment frame o4 len) skip 0)).sum ∧
      (beWords (withWord (segment frame o4 len) skip 0)).sum < 2 ^ 31 := by
  have hlength : ((frame.drop o4).take len).length = len := by
    rw [List.length_take, List.length_drop]
    omega
  have hbound := beWords_sum_le ((frame.drop o4).take len)
  rw [hlength] at hbound
  have hstart : (Acc.start 0).sum.toNat = 0 := rfl
  obtain ⟨hsum, -⟩ := @sumBytes_exact (Acc.start 0) ((frame.drop o4).take len)
    (by rw [hstart]; omega)
  have hsplit := @sum_segment ((frame.drop o4).take len) skip heven (by omega)
  rw [wordAt_take hskip] at hsplit
  rw [segment, BitVec.toNat_sub_of_le (BitVec.le_def.mpr (by omega))]
  omega

theorem cksum_ok (hpkt : ctx.pkt = frame) (hl3 : ctx.l3 = some o) (hl4 : ctx.l4 = some (o + hlen))
    (hip : IpPacket frame o hlen total) (hfrag : ctx.flags &&& nPktCtxFlagIpFrag = 0)
    (hproto : ctx.ipL4Proto = nIpProtoTcp ∨ ctx.ipL4Proto = nIpProtoUdp)
    (hmin : o + hlen + minimum ctx.ipL4Proto ≤ o + total) (ph : Bool) :
    CksumOk frame ctx ph o (o + hlen) (total - hlen) := by
  obtain ⟨hihl, htotal, hsmall⟩ := hip.read
  obtain ⟨-, -, ⟨h20, hle⟩, hin⟩ := hip
  have hskip : cksumOffset ctx.ipL4Proto (total - hlen) % 2 = 0 ∧
      cksumOffset ctx.ipL4Proto (total - hlen) + 1 < total - hlen ∧ ctx.ipL4Proto.toNat < 256 := by
    rcases hproto with h | h <;> rw [h] at hmin ⊢ <;>
      simp [cksumOffset, minimum, nIpProtoTcp, nIpProtoUdp, sizeofTcpHdr,
        sizeofUdpHdr] at hmin ⊢ <;>
      omega
  obtain ⟨heven, hfield, hbyte⟩ := hskip
  obtain ⟨hsum, hsumlt⟩ := @toNat_unsummed frame (o + hlen) (total - hlen) _ heven hfield
    (by omega) (by omega)
  have hlt : ∀ v, ∀ w ∈ (if ph then pseudoWords frame o ctx.ipL4Proto (total - hlen) else []) ++
      beWords (withWord (segment frame (o + hlen) (total - hlen)) v 0), w < 2 ^ 16 := by
    intro v
    rw [List.forall_mem_append]
    refine ⟨?_, beWords_lt _⟩
    cases ph with
    | false => simp
    | true =>
      simp only [if_true, pseudoWords, List.forall_mem_append]
      refine ⟨beWords_lt _, ?_⟩
      simp
      omega
  have hvalue : pktCtxTcpCksum ctx ph = onesChecksum
      ((if ph then pseudoWords frame o ctx.ipL4Proto (total - hlen) else []) ++
        beWords (withWord (segment frame (o + hlen) (total - hlen))
          (cksumOffset ctx.ipL4Proto (total - hlen)) 0)) := by
    have hcond : ctx.flags &&& nPktCtxFlagIpFrag = 0 ∧
      cksumOffset ctx.ipL4Proto (total - hlen) + 1 < total - hlen := ⟨hfrag, hfield⟩
    simp only [pktCtxTcpCksum, hl3, hl4, hpkt, hihl, htotal, if_pos hcond,
      if_neg (Nat.not_lt.mpr hle)]
    refine folded_eq (hlt _) ?_
    cases ph with
    | false =>
      simp only [Bool.false_eq_true, if_false, List.nil_append, hsum]
      exact ⟨rfl, Iff.rfl⟩
    | true =>
      have hpseudo := @toNat_pseudo (total - hlen) _ ctx.ipL4Proto (frame.drop o)
        (by rw [hsum]; omega) hbyte (by omega)
      rw [hsum] at hpseudo
      simp only [if_true, hpseudo, pseudoWords, List.sum_append, List.sum_cons, List.sum_nil,
        beWords_eight (by omega : o + 20 ≤ frame.length)]
      exact ⟨by omega, by omega⟩
  constructor
  · rw [segmentWords_store ph (by omega), hvalue]
  · rw [segmentWords_store ph (by omega)]
    obtain ⟨k, hk⟩ : ∃ k, cksumOffset ctx.ipL4Proto (total - hlen) = 2 * k :=
      ⟨cksumOffset ctx.ipL4Proto (total - hlen) / 2, by omega⟩
    rw [hk] at hvalue hfield ⊢
    refine onesChecksum_withWord (fun w hw => hlt 0 w (List.mem_append_left _ hw)) ?_ hvalue
    rw [segment, List.length_take, List.length_drop]
    omega

/-- The checksum of a byte string is that of RFC 1071 without an overflow, a header
with its computed checksum is verified, and the checksum of a TCP or UDP segment makes
it sum to zero. -/
theorem checksums_right :
    (∀ (data : List Byte) (seed : BitVec 32),
      checksum data seed = onesChecksum (seedWords seed ++ beWords data) ∧
        (checksumAcc data seed).overflow = false) ∧
    (∀ p : Nat → Byte, 5 ≤ (p 0 &&& 15).toNat → ipVerifyCksum (ipComputeCksum p) = true) ∧
    ∀ (frame : List Byte) (ctx : PktCtx), analyze frame = some (.ok ctx) →
      ctx.flags &&& nPktCtxFlagIpFrag = 0 →
      (ctx.ipL4Proto = nIpProtoTcp ∨ ctx.ipL4Proto = nIpProtoUdp) →
        ∃ o hlen total, ctx.l3 = some o ∧ ctx.l4 = some (o + hlen) ∧
          IpPacket frame o hlen total ∧
            ∀ ph, CksumOk frame ctx ph o (o + hlen) (total - hlen) := by
  refine ⟨checksum_eq, fun p h => ipVerify_compute h, fun frame ctx hok hfrag hproto => ?_⟩
  obtain ⟨r, hr, hout⟩ := analyzeInto_spec frame
  cases hout with
  | truncated ctx' => simp [analyze, hr, Except.map] at hok
  | @ok ctx' h =>
    obtain rfl : ctx' = ctx := by simpa [analyze, hr, Except.map] using hok
    have hne : ctx'.ipL4Proto ≠ 0 := by
      rcases hproto with h | h <;> rw [h] <;> decide
    obtain ⟨o4, hl4⟩ := Option.ne_none_iff_exists'.mp (h.proto hne)
    obtain ⟨o, hlen, total, hl3, hip, rfl, hmin⟩ := h.l4 o4 hl4
    exact ⟨o, hlen, total, hl3, hl4, hip, cksum_ok h.pkt hl3 hl4 hip hfrag hproto (hmin hfrag)⟩

def udpFrame : List Byte :=
  List.replicate 12 0 ++ [0x08, 0x00] ++
    [0x45, 0, 0, 28, 0, 0, 0, 0, 64, 17, 0x66, 0xcf, 10, 0, 0, 1, 10, 0, 0, 2] ++
    [0, 7, 0, 7, 0, 8, 0, 0]

theorem checksums_right_udp : ∃ ctx, analyze udpFrame = some (.ok ctx) ∧
    ctx.flags &&& nPktCtxFlagIpFrag = 0 ∧ ctx.ipL4Proto = nIpProtoUdp ∧
      ∃ o hlen total, ctx.l3 = some o ∧ ctx.l4 = some (o + hlen) ∧
        IpPacket udpFrame o hlen total ∧
          ∀ ph, CksumOk udpFrame ctx ph o (o + hlen) (total - hlen) := by
  have hok : analyze udpFrame = some (.ok _) := rfl
  exact ⟨_, hok, rfl, rfl, checksums_right.2.2 udpFrame _ hok rfl (Or.inr rfl)⟩

end Dynamips.Packet
