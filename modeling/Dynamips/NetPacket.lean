import Dynamips.NetPacketSum

/-! The analysis of a received packet. -/
set_option autoImplicit false

namespace Dynamips.Packet

inductive Error where
  | truncated
  | invalidHeader
  | invalidAddress
  | outOfMemory
  deriving DecidableEq

def nEthHlen : Nat := 14

def nEthMtu : Nat := 1500

def nEthProtoIp : BitVec 16 := 0x0800

def nEthProtoArp : BitVec 16 := 0x0806

def nEthProtoDot1q : BitVec 16 := 0x8100

def nIpOffmask : BitVec 16 := 0x1fff

def nIpFlagMf : BitVec 16 := 0x2000

def nIpProtoTcp : BitVec 32 := 6

def nIpProtoUdp : BitVec 32 := 17

def nPktCtxFlagEthv2 : BitVec 32 := 0x0001

def nPktCtxFlagVlan : BitVec 32 := 0x0002

def nPktCtxFlagL3Arp : BitVec 32 := 0x0008

def nPktCtxFlagL3Ip : BitVec 32 := 0x0010

def nPktCtxFlagIphOk : BitVec 32 := 0x0100

def nPktCtxFlagIpFrag : BitVec 32 := 0x0200

def sizeofArpHdr : Nat := 28

def sizeofIpHdr : Nat := 20

def sizeofTcpHdr : Nat := 20

def sizeofUdpHdr : Nat := 8

/-- `n_pkt_ctx_t`; `l3` and `l4` are offsets in the packet, none for a null pointer. -/
structure PktCtx where
  pkt : List Byte
  flags : BitVec 32
  vlanId : BitVec 16
  ipL4Proto : BitVec 32
  l3 : Option Nat
  l4 : Option Nat

def PktCtx.empty (pkt : List Byte) : PktCtx where
  pkt := pkt
  flags := 0
  vlanId := 0
  ipL4Proto := 0
  l3 := none
  l4 := none

/-! Reads of a span, with no result outside of it. -/

def word (p : List Byte) (o : Nat) : Option (BitVec 16) := do
  let hi ← p[o]?
  let lo ← p[o + 1]?
  return (pair hi lo).setWidth 16

def first (p : List Byte) (n : Nat) : Option (List Byte) :=
  if n ≤ p.length then some (p.take n) else none

def subspan (p : List Byte) (o : Nat) : Option (List Byte) :=
  if o ≤ p.length then some (p.drop o) else none

def minimum (ipL4Proto : BitVec 32) : Nat :=
  if ipL4Proto = nIpProtoTcp then sizeofTcpHdr
  else if ipL4Proto = nIpProtoUdp then sizeofUdpHdr
  else 0

/-- The part of `analyze_into` for an IP header that adds up. -/
def analyzeL4 (payload : List Byte) (offset hlen total : Nat) (ctx : PktCtx) :
    Option (Except Error Unit × PktCtx) := do
  let frag ← word payload 6
  let fragmented := frag &&& nIpOffmask ≠ 0 ∨ frag &&& nIpFlagMf ≠ 0
  let ctx := if fragmented then { ctx with flags := ctx.flags ||| nPktCtxFlagIpFrag } else ctx
  let proto ← payload[9]?
  let ctx := { ctx with ipL4Proto := proto.setWidth 32 }
  if ctx.flags &&& nPktCtxFlagIpFrag = 0 ∧ total - hlen < minimum ctx.ipL4Proto then
    return (.error .truncated, ctx)
  return (.ok (), { ctx with
    flags := ctx.flags ||| nPktCtxFlagIphOk
    l4 := some (offset + hlen) })

def analyzeIp (payload : List Byte) (offset : Nat) (ctx : PktCtx) :
    Option (Except Error Unit × PktCtx) :=
  if payload.length < sizeofIpHdr then some (.error .truncated, ctx)
  else do
    let ihl ← payload[0]?
    let hlen := (ihl &&& 15).toNat * 4
    let total := (← word payload 2).toNat
    let ctx := { ctx with
      flags := ctx.flags ||| nPktCtxFlagL3Ip
      l3 := some offset }
    if ihl &&& 0xf0 ≠ 0x40 ∨ hlen < 20 ∨ hlen > total then return (.ok (), ctx)
    if total > payload.length then return (.error .truncated, ctx)
    let header ← first payload hlen
    if folded (sumBytes (Acc.start 0) header).sum ≠ 0 then return (.ok (), ctx)
    analyzeL4 payload offset hlen total ctx

def analyzeL3 (frame : List Byte) (offset : Nat) (type : BitVec 16) (ctx : PktCtx) :
    Option (Except Error Unit × PktCtx) :=
  if type.toNat < nEthMtu then some (.ok (), ctx)
  else do
    let ctx := { ctx with flags := ctx.flags ||| nPktCtxFlagEthv2 }
    let payload ← subspan frame offset
    if type = nEthProtoArp then
      if payload.length < sizeofArpHdr then return (.error .truncated, ctx)
      return (.ok (), { ctx with
        flags := ctx.flags ||| nPktCtxFlagL3Arp
        l3 := some offset })
    if type = nEthProtoIp then analyzeIp payload offset ctx
    else return (.ok (), ctx)

/-- `analyze_into`: what it returns and leaves in `ctx`. No result when it reads
outside of the frame. -/
def analyzeInto (frame : List Byte) : Option (Except Error Unit × PktCtx) :=
  let ctx := PktCtx.empty frame
  if frame.length < nEthHlen then some (.error .truncated, ctx)
  else do
    let type ← word frame 12
    if type = nEthProtoDot1q then
      if frame.length < nEthHlen + 4 then return (.error .truncated, ctx)
      let vlanId ← word frame nEthHlen
      let type ← word frame (nEthHlen + 2)
      analyzeL3 frame (nEthHlen + 4) type
        { ctx with
          flags := ctx.flags ||| nPktCtxFlagVlan
          vlanId }
    else analyzeL3 frame nEthHlen type ctx

def analyze (frame : List Byte) : Option (Except Error PktCtx) := do
  let (parsed, ctx) ← analyzeInto frame
  return parsed.map fun _ => ctx

/-- `pkt_ctx_analyze` with a packet. -/
def pktCtxAnalyze (pkt : List Byte) : Option (Bool × PktCtx) := do
  let (parsed, ctx) ← analyzeInto pkt
  return match parsed with
    | .error _ => (false, PktCtx.empty pkt)
    | .ok _ => (true, ctx)

/-! What the analysis promises. -/

/-- The IP header at `o` has this length, and its packet lies inside the frame. -/
structure IpPacket (frame : List Byte) (o hlen total : Nat) : Prop where
  ihl : ∃ b, frame[o]? = some b ∧ hlen = (b &&& 15).toNat * 4
  length : ∃ w, word frame (o + 2) = some w ∧ total = w.toNat
  header : 20 ≤ hlen ∧ hlen ≤ total
  inside : o + total ≤ frame.length

/-- Every offset in the context lies inside the frame with all that it is promised to
have: the layer 3 header, and the segment that the IP header has the length of. -/
structure Inside (frame : List Byte) (ctx : PktCtx) : Prop where
  pkt : ctx.pkt = frame
  arp : ctx.flags &&& nPktCtxFlagL3Arp ≠ 0 → ∃ o, ctx.l3 = some o ∧ o + sizeofArpHdr ≤ frame.length
  ip : ctx.flags &&& nPktCtxFlagL3Ip ≠ 0 → ∃ o, ctx.l3 = some o ∧ o + sizeofIpHdr ≤ frame.length
  l3 : ∀ o, ctx.l3 = some o → o + sizeofIpHdr ≤ frame.length
  l4 : ∀ o4, ctx.l4 = some o4 → ∃ o hlen total, ctx.l3 = some o ∧ IpPacket frame o hlen total ∧
    o4 = o + hlen ∧ (ctx.flags &&& nPktCtxFlagIpFrag = 0 →
      o4 + minimum ctx.ipL4Proto ≤ o + total)
  proto : ctx.ipL4Proto ≠ 0 → ctx.l4 ≠ none

inductive Outcome (frame : List Byte) : Except Error Unit × PktCtx → Prop where
  | truncated (ctx : PktCtx) : Outcome frame (.error .truncated, ctx)
  | ok {ctx : PktCtx} (h : Inside frame ctx) : Outcome frame (.ok (), ctx)

variable {frame : List Byte} {ctx : PktCtx} {o hlen total : Nat}

theorem exists_byte {p : List Byte} (h : o < p.length) : ∃ b, p[o]? = some b :=
  ⟨_, List.getElem?_eq_getElem h⟩

theorem exists_word {p : List Byte} (h : o + 1 < p.length) : ∃ w, word p o = some w := by
  obtain ⟨hi, hhi⟩ := exists_byte (show o < p.length by omega)
  obtain ⟨lo, hlo⟩ := exists_byte h
  simp [word, hhi, hlo]

theorem word_drop (p : List Byte) (o k : Nat) : word (p.drop o) k = word p (o + k) := by
  simp only [word, List.getElem?_drop, Nat.add_assoc]

def EthFlags (flags : BitVec 32) : Prop :=
  flags = nPktCtxFlagEthv2 ∨ flags = nPktCtxFlagVlan ||| nPktCtxFlagEthv2

theorem flags_ip {flags flags' : BitVec 32} (hflags : EthFlags flags)
    (h : flags' = flags ||| nPktCtxFlagL3Ip ∨
      flags' = flags ||| nPktCtxFlagL3Ip ||| nPktCtxFlagIpFrag) :
    flags' &&& nPktCtxFlagL3Arp = 0 ∧ (flags' ||| nPktCtxFlagIphOk) &&& nPktCtxFlagL3Arp = 0 ∧
      ((flags' ||| nPktCtxFlagIphOk) &&& nPktCtxFlagIpFrag = 0 →
        flags' &&& nPktCtxFlagIpFrag = 0) := by
  rcases hflags with rfl | rfl <;> rcases h with rfl | rfl <;> decide

theorem analyzeL4_spec {flags : BitVec 32} (hpkt : ctx.pkt = frame) (hl3 : ctx.l3 = some o)
    (hflags : EthFlags flags) (hctx : ctx.flags = flags ||| nPktCtxFlagL3Ip)
    (hip : IpPacket frame o hlen total) :
    ∃ r, analyzeL4 (frame.drop o) o hlen total ctx = some r ∧ Outcome frame r := by
  obtain ⟨-, -, ⟨hmin, hle⟩, hin⟩ := id hip
  have hlength : (frame.drop o).length = frame.length - o := List.length_drop
  have hip20 : o + sizeofIpHdr ≤ frame.length := by
    simp only [sizeofIpHdr]
    omega
  obtain ⟨frag, hfrag⟩ := @exists_word 6 (frame.drop o) (by omega)
  obtain ⟨proto, hproto⟩ := @exists_byte 9 (frame.drop o) (by omega)
  have hend : ∀ flags', (flags' = flags ||| nPktCtxFlagL3Ip ∨
      flags' = flags ||| nPktCtxFlagL3Ip ||| nPktCtxFlagIpFrag) →
      (flags' &&& nPktCtxFlagIpFrag = 0 → minimum (proto.setWidth 32) ≤ total - hlen) →
      Inside frame { ctx with
        ipL4Proto := proto.setWidth 32
        flags := flags' ||| nPktCtxFlagIphOk
        l4 := some (o + hlen) } := by
    intro flags' hcase hfits
    refine ⟨hpkt, fun harp => ?_, fun _ => ⟨o, hl3, hip20⟩, fun o' ho' => ?_, fun o4 ho4 => ?_,
      by simp⟩
    · exact absurd (flags_ip hflags hcase).2.1 harp
    · cases hl3.symm.trans ho'
      exact hip20
    · cases ho4
      refine ⟨o, hlen, total, hl3, hip, rfl, fun hwhole => ?_⟩
      have hsize := hfits ((flags_ip hflags hcase).2.2 hwhole)
      simp only
      omega
  simp only [analyzeL4, hfrag, hproto, Option.bind_eq_bind, Option.bind_some, Option.pure_def]
  split
  · split
    · exact ⟨_, rfl, .truncated _⟩
    · rename_i hnot
      refine ⟨_, rfl, .ok (hend _ (Or.inr (by rw [hctx])) fun hplain => ?_)⟩
      simpa [hplain] using hnot
  · split
    · exact ⟨_, rfl, .truncated _⟩
    · rename_i hnot
      refine ⟨_, rfl, .ok (hend _ (Or.inl hctx) fun hplain => ?_)⟩
      simpa [hplain] using hnot

theorem inside_ip {flags : BitVec 32} (hpkt : ctx.pkt = frame) (hl3 : ctx.l3 = some o)
    (hl4 : ctx.l4 = none) (hproto : ctx.ipL4Proto = 0) (hflags : EthFlags flags)
    (hctx : ctx.flags = flags ||| nPktCtxFlagL3Ip) (hin : o + sizeofIpHdr ≤ frame.length) :
    Inside frame ctx := by
  refine ⟨hpkt, fun harp => ?_, fun _ => ⟨o, hl3, hin⟩, fun o' ho' => ?_, fun o4 ho4 => ?_,
    fun hne => absurd hproto hne⟩
  · exact absurd (flags_ip hflags (Or.inl hctx)).1 harp
  · cases hl3.symm.trans ho'
    exact hin
  · cases hl4.symm.trans ho4

theorem analyzeIp_spec (hpkt : ctx.pkt = frame) (hl4 : ctx.l4 = none) (hproto : ctx.ipL4Proto = 0)
    (hflags : EthFlags ctx.flags) (ho : o ≤ frame.length) :
    ∃ r, analyzeIp (frame.drop o) o ctx = some r ∧ Outcome frame r := by
  have hlength : (frame.drop o).length = frame.length - o := List.length_drop
  rw [analyzeIp]
  split
  · exact ⟨_, rfl, .truncated _⟩
  · rename_i hlong
    simp only [sizeofIpHdr, Nat.not_lt] at hlong
    obtain ⟨ihl, hihl⟩ := @exists_byte 0 (frame.drop o) (by omega)
    obtain ⟨len, hlen⟩ := @exists_word 2 (frame.drop o) (by omega)
    have hip20 : o + sizeofIpHdr ≤ frame.length := by
      simp only [sizeofIpHdr]
      omega
    have hinside : Inside frame { ctx with
        flags := ctx.flags ||| nPktCtxFlagL3Ip
        l3 := some o } := inside_ip hpkt rfl hl4 hproto hflags rfl hip20
    simp only [hihl, hlen, Option.bind_eq_bind, Option.bind_some, Option.pure_def]
    split
    · exact ⟨_, rfl, .ok hinside⟩
    · rename_i hheader
      split
      · exact ⟨_, rfl, .truncated _⟩
      · rename_i htotal
        simp only [not_or, Nat.not_lt, gt_iff_lt] at hheader htotal
        obtain ⟨-, hmin, hle⟩ := hheader
        have hfirst : first (frame.drop o) ((ihl &&& 15).toNat * 4) =
            some ((frame.drop o).take ((ihl &&& 15).toNat * 4)) := if_pos (hle.trans htotal)
        rw [hfirst]
        simp only [Option.bind_some]
        split
        · exact ⟨_, rfl, .ok hinside⟩
        · rw [List.getElem?_drop] at hihl
          rw [word_drop] at hlen
          exact analyzeL4_spec hpkt rfl hflags rfl
            ⟨⟨ihl, hihl, rfl⟩, ⟨len, hlen, rfl⟩, ⟨hmin, hle⟩, by omega⟩

theorem inside_none (hpkt : ctx.pkt = frame) (hl3 : ctx.l3 = none) (hl4 : ctx.l4 = none)
    (hproto : ctx.ipL4Proto = 0) (harp : ctx.flags &&& nPktCtxFlagL3Arp = 0)
    (hip : ctx.flags &&& nPktCtxFlagL3Ip = 0) : Inside frame ctx := by
  refine ⟨hpkt, fun h => absurd harp h, fun h => absurd hip h, fun o ho => ?_, fun o4 ho4 => ?_,
    fun h => absurd hproto h⟩
  · cases hl3.symm.trans ho
  · cases hl4.symm.trans ho4

theorem inside_arp (hpkt : ctx.pkt = frame) (hl3 : ctx.l3 = some o) (hl4 : ctx.l4 = none)
    (hproto : ctx.ipL4Proto = 0) (hin : o + sizeofArpHdr ≤ frame.length) : Inside frame ctx := by
  have hin20 : o + sizeofIpHdr ≤ frame.length := by
    simp only [sizeofArpHdr, sizeofIpHdr] at hin ⊢
    omega
  refine ⟨hpkt, fun _ => ⟨o, hl3, hin⟩, fun _ => ⟨o, hl3, hin20⟩, fun o' ho' => ?_,
    fun o4 ho4 => ?_, fun h => absurd hproto h⟩
  · cases hl3.symm.trans ho'
    exact hin20
  · cases hl4.symm.trans ho4

theorem analyzeL3_spec {type : BitVec 16} (hpkt : ctx.pkt = frame) (hl3 : ctx.l3 = none)
    (hl4 : ctx.l4 = none) (hproto : ctx.ipL4Proto = 0)
    (hflags : ctx.flags = 0 ∨ ctx.flags = nPktCtxFlagVlan) (ho : o ≤ frame.length) :
    ∃ r, analyzeL3 frame o type ctx = some r ∧ Outcome frame r := by
  have heth : EthFlags (ctx.flags ||| nPktCtxFlagEthv2) :=
    hflags.imp (fun h => by rw [h]; rfl) (fun h => by rw [h])
  have hplain : ctx.flags &&& nPktCtxFlagL3Arp = 0 ∧ ctx.flags &&& nPktCtxFlagL3Ip = 0 := by
    rcases hflags with h | h <;> rw [h] <;> decide
  have hethv2 : (ctx.flags ||| nPktCtxFlagEthv2) &&& nPktCtxFlagL3Arp = 0 ∧
      (ctx.flags ||| nPktCtxFlagEthv2) &&& nPktCtxFlagL3Ip = 0 := by
    rcases hflags with h | h <;> rw [h] <;> decide
  rw [analyzeL3]
  split
  · exact ⟨_, rfl, .ok (inside_none hpkt hl3 hl4 hproto hplain.1 hplain.2)⟩
  · have hsub : subspan frame o = some (frame.drop o) := if_pos ho
    simp only [hsub, Option.bind_eq_bind, Option.bind_some, Option.pure_def]
    split
    · split
      · exact ⟨_, rfl, .truncated _⟩
      · rename_i hlong
        rw [List.length_drop] at hlong
        exact ⟨_, rfl, .ok (inside_arp hpkt rfl hl4 hproto (by omega))⟩
    · split
      · exact @analyzeIp_spec _ { ctx with flags := ctx.flags ||| nPktCtxFlagEthv2 } _ hpkt hl4
          hproto heth ho
      · exact ⟨_, rfl, .ok (inside_none hpkt hl3 hl4 hproto hethv2.1 hethv2.2)⟩

theorem analyzeInto_spec (frame : List Byte) :
    ∃ r, analyzeInto frame = some r ∧ Outcome frame r := by
  rw [analyzeInto]
  split
  · exact ⟨_, rfl, .truncated _⟩
  · rename_i hlong
    simp only [nEthHlen, Nat.not_lt] at hlong
    obtain ⟨type, htype⟩ := @exists_word 12 frame (by omega)
    simp only [htype, Option.bind_eq_bind, Option.bind_some, Option.pure_def]
    split
    · split
      · exact ⟨_, rfl, .truncated _⟩
      · rename_i htag
        simp only [nEthHlen, Nat.not_lt] at htag
        obtain ⟨vlanId, hvlan⟩ := @exists_word nEthHlen frame (by simp only [nEthHlen]; omega)
        obtain ⟨type, htype⟩ := @exists_word (nEthHlen + 2) frame (by simp only [nEthHlen]; omega)
        simp only [hvlan, htype, Option.bind_some]
        exact analyzeL3_spec rfl rfl rfl rfl (Or.inr (by simp [PktCtx.empty])) htag
    · exact analyzeL3_spec rfl rfl rfl rfl (Or.inl rfl) hlong

/-- No frame is read outside of it. A packet that is analysed has all its parts in the
frame, and of one that is not nothing is left in the context. -/
theorem packet_analyzed (frame : List Byte) : ∃ ok ctx,
    pktCtxAnalyze frame = some (ok, ctx) ∧
      (ok = true → Inside frame ctx ∧ analyze frame = some (.ok ctx)) ∧
      (ok = false → ctx = PktCtx.empty frame ∧ ∃ e, analyze frame = some (.error e)) := by
  obtain ⟨r, hr, hout⟩ := analyzeInto_spec frame
  cases hout with
  | truncated ctx =>
    refine ⟨false, PktCtx.empty frame, ?_, fun h => absurd h Bool.false_ne_true, fun _ => ⟨rfl, ?_⟩⟩
    · simp [pktCtxAnalyze, hr]
    · exact ⟨.truncated, by simp [analyze, hr, Except.map]⟩
  | @ok ctx h =>
    refine ⟨true, ctx, ?_, fun _ => ⟨h, ?_⟩, fun h => absurd h.symm Bool.false_ne_true⟩
    · simp [pktCtxAnalyze, hr]
    · simp [analyze, hr, Except.map]

end Dynamips.Packet
