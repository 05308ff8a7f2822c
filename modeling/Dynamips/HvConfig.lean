import Dynamips.HvVmCommands
import Dynamips.NvramConfig

/-! A configuration that a client of the hypervisor pushes into the NVRAM file of
a VM, and the same that it extracts afterwards. -/
set_option autoImplicit false

namespace Dynamips.HvVm

open Dynamips.Hypervisor Base64
open Registry (NodeId)
open Nvram (NvramParams genericNvramExtractConfig genericNvramPushConfig)

variable {δ : Type}

/-- The file of a VM that has the NVRAM in it -/
structure RomFile (δ : Type) where
  read : Settings δ → List Byte
  write : Settings δ → List Byte → Settings δ
  read_write : ∀ s file, read (write s file) = file

/-- The methods of a platform like those of the c3725: the generic functions with
its own parameters. -/
def withNvram (e : Env δ) (mem : Nvram.Env) (p : NvramParams) (fileSize : Nat)
    (rom : RomFile δ) : Env δ :=
  { e with
    nvram_extract_config := fun v =>
      match genericNvramExtractConfig mem p (rom.read v.settings) with
      | some (0, some r) => some (some (r.startupConfig.getD [], r.privateConfig.getD []))
      | _ => some none
    nvram_push_config := fun v => some fun startup priv =>
      let (ret, file) := genericNvramPushConfig mem p fileSize (rom.read v.settings) startup priv
      (decide (ret = some 0), rom.write v.settings file) }

theorem toNat_ofNat_byte (c : Byte) : (Char.ofNat c.toNat).toNat = c.toNat := by
  have hvalid : c.toNat.isValidChar := .inl (by omega)
  rw [Char.ofNat, dif_pos hvalid]
  rfl

theorem bytes_text (b : List Byte) : bytes (text b) = b := by
  rw [bytes, text, String.toList_ofList, List.map_map]
  conv_rhs => rw [← List.map_id b]
  apply List.map_congr_left
  intro c _
  rw [Function.comp_apply, toNat_ofNat_byte, BitVec.ofNat_toNat, BitVec.setWidth_eq, id]

theorem text_ne_keep (x : List Byte) : text (encodeText x) ≠ "(keep)" := by
  intro h
  have hlen := congrArg (fun s => (bytes s).length) h
  simp only [bytes_text, length_encodeText] at hlen
  have hkeep : (bytes "(keep)").length = 6 := rfl
  omega

theorem decode_config_encodeText {memory : Bool} {x d : List Byte}
    (hx : x.length + 2 ≤ Base64.INT_MAX)
    (h : decode_config memory (text (encodeText x)) = some (some d)) : d = x := by
  rw [decode_config, bytes_text] at h
  simp only [Base64.INT_MAX] at hx
  have hlen := length_encodeText x
  generalize hk : x.length / 3 + (if x.length % 3 ≠ 0 then 1 else 0) = k at hlen
  have hfit : x.length ≤ k * 3 ∧ k * 3 ≤ x.length + 2 := by
    split at hk <;> omega
  have hround : ((encodeText x).length + 3) / 4 * 3 = k * 3 := by omega
  have hsize : (BitVec.ofNat 32 (k * 3)).toNat = k * 3 := by
    rw [BitVec.toNat_ofNat]
    omega
  have hcapacity : capacity (encodeText x ++ [0]) (BitVec.ofNat 32 (k * 3)) = k * 3 := by
    rw [capacity, payload_encodeText, hlen, hsize]
    split <;> omega
  have hpos : 0 ≤ (BitVec.ofNat 32 (k * 3)).toInt := by
    rw [BitVec.toInt_eq_toNat_of_lt (by omega)]
    omega
  simp only [hround] at h
  split at h
  · cases h
  · rw [base64Decode_encoding hpos (by rw [hcapacity, List.length_replicate]; omega)
      (payload_encodeText x []).symm, hcapacity, if_neg (by omega), if_neg (by
        rw [Base64.INT_MAX]
        omega), Option.map_some, Option.some.injEq, if_neg (by omega), Option.some.injEq] at h
    rw [← h, Int.toNat_natCast, memcpy, List.take_zero, List.nil_append, List.take_left]

theorem push_argument_encodeText {e : Env δ} {i : Nat} {x : List Byte} {d : Option (List Byte)}
    (hx : x.length + 2 ≤ Base64.INT_MAX)
    (h : push_argument e i (some (text (encodeText x))) = some (some d)) : d = some x := by
  rw [push_argument] at h
  simp only [if_neg (text_ne_keep x), Option.map_eq_some_iff] at h
  obtain ⟨_, hdecode, c, rfl, rfl⟩ := h
  rw [decode_config_encodeText hx hdecode]

variable {e e' : Env δ} {h : State δ} {name : String} {n : NodeId}

theorem out_vm_release (h : State δ) (n : NodeId) : (h.vm_release n).out = h.out := by
  rw [State.vm_release]
  split
  · rfl
  · rw [State.registry_unref]
    split <;> rfl

/-- The reply of `cmd_push_config` when it is done -/
def pushed (name : String) : Hypervisor.Reply :=
  ⟨HSC_INFO_OK, true, "IOS config file pushed tm VM '" ++ name ++ "'"⟩

/-- The reply of `cmd_extract_config` when it is done -/
def conf (name : String) (startup priv : List Byte) : Hypervisor.Reply :=
  ⟨HSC_INFO_OK, true, "conf '" ++ name ++ "' '" ++ text (encodeText startup) ++ "' '" ++
    text (encodeText priv) ++ "'"⟩

theorem cmd_push_config_ok (hw : Wf h) {a b : String}
    (hok : (cmd_push_config e h [name, a, b]).out = h.out ++ [pushed name]) :
    ∃ n v push startup priv settings, h.registry_find name = some (n, acquired h n) ∧
      h.vms n = some v ∧ e.nvram_push_config v = some push ∧
      push_argument e 0 (some a) = some (some startup) ∧
      push_argument e 1 (some b) = some (some priv) ∧ push startup priv = (true, settings) ∧
      (cmd_push_config e h [name, a, b]).registry = h.registry ∧
      (cmd_push_config e h [name, a, b]).vms =
        Function.update h.vms n (some { v with settings }) := by
  have hfail : ∀ {h' : State δ} {code : Nat} {t : String}, h'.out = h.out → code ≠ HSC_INFO_OK →
      (h'.send_reply code true t).out ≠ h.out ++ [pushed name] := by
    intro h' code t hout hcode heq
    rw [State.send_reply, hout] at heq
    exact hcode (congrArg (·.code) (List.singleton_inj.mp (List.append_cancel_left heq)))
  have hquiet : h.out ≠ h.out ++ [pushed name] := by simp
  obtain hnone | ⟨n, v, hsome, hf, hv, -⟩ := registry_find_cases hw name
  · simp only [cmd_push_config, arg, List.getD_cons_zero, State.hypervisor_find_object,
      hnone] at hok
    exact absurd hok (hfail rfl (by decide))
  · have hacquired : (acquired h n).vms n = some v := hv
    have hheld := held_acquired hw hf
    generalize hcmd : cmd_push_config e h [name, a, b] = h' at hok ⊢
    simp only [cmd_push_config, arg, List.getD_cons_zero, List.getD_cons_succ,
      State.hypervisor_find_object, hsome, hacquired, List.getElem?_cons_succ,
      List.getElem?_cons_zero] at hcmd
    split at hcmd
    · subst hcmd
      exact absurd hok (hfail (out_vm_release _ _) (by decide))
    · rename_i push hpush
      split at hcmd
      · subst hcmd
        exact absurd hok hquiet
      · subst hcmd
        exact absurd hok (hfail (out_vm_release _ _) (by decide))
      · rename_i startup hstartup
        split at hcmd
        · subst hcmd
          exact absurd hok hquiet
        · subst hcmd
          exact absurd hok (hfail (out_vm_release _ _) (by decide))
        · rename_i priv hpriv
          split at hcmd
          · subst hcmd
            exact absurd hok (hfail (out_vm_release _ _) (by decide))
          · rename_i settings hdone
            rw [(hheld.setSettings settings).vm_release] at hcmd
            subst hcmd
            refine ⟨n, v, push, startup, priv, settings, hsome, hv, hpush, hstartup, hpriv, hdone,
              rfl, ?_⟩
            rw [State.send_reply, State.setSettings, hacquired, Option.map_some]
            rfl

theorem registry_find_congr {h' : State δ} (hr : h'.registry = h.registry)
    (hfind : h.registry_find name = some (n, acquired h n)) :
    ∃ r, h'.registry_find name = some (n, { h' with registry := r }) := by
  rw [State.registry_find] at hfind ⊢
  rw [hr]
  split at hfind
  · cases hfind
  · split at hfind
    · cases hfind
    · cases hfind
      exact ⟨_, rfl⟩

theorem cmd_extract_config_ok {startup priv : List Byte} {v : Vm δ}
    (hmem : e.memory 0 ∧ e.memory 1)
    (hfind : ∃ r, h.registry_find name = some (n, { h with registry := r }))
    (hv : h.vms n = some v) (hextract : e.nvram_extract_config v = some (some (startup, priv))) :
    (cmd_extract_config e h [name]).out = h.out ++ [conf name startup priv] := by
  obtain ⟨r, hr⟩ := hfind
  simp only [cmd_extract_config, arg, List.getD_cons_zero, State.hypervisor_find_object, hr, hv,
    hextract, if_pos hmem]
  rw [State.send_reply, out_vm_release]
  rfl

/-- What a client pushed is what a client extracts, whatever fresh memory holds. -/
theorem extract_pushed {mem mem' : Nvram.Env} {p : NvramParams} {fileSize : Nat} {rom : RomFile δ}
    {s q : List Byte} (hw : Wf h) (hsize : fileSize < 2 ^ 32)
    (hs : s.length + 2 ≤ Base64.INT_MAX) (hq : q.length + 2 ≤ Base64.INT_MAX)
    (hmem : e'.memory 0 ∧ e'.memory 1) {h' : State δ}
    (hpush : cmd_push_config (withNvram e mem p fileSize rom) h
      [name, text (encodeText s), text (encodeText q)] = h')
    (hok : h'.out = h.out ++ [pushed name]) :
    (cmd_extract_config (withNvram e' mem' p fileSize rom) h' [name]).out =
      h'.out ++ [conf name s q] := by
  rw [← hpush] at hok
  obtain ⟨n, v, push, startup, priv, settings, hfind, hv, hmethod, hstartup, hpriv, hdone, hr,
    hvms⟩ := cmd_push_config_ok hw hok
  rw [hpush] at hr hvms
  obtain rfl := push_argument_encodeText hs hstartup
  obtain rfl := push_argument_encodeText hq hpriv
  have heq : push = fun startup priv =>
      (decide ((genericNvramPushConfig mem p fileSize (rom.read v.settings) startup priv).1 =
          some 0),
        rom.write v.settings
          (genericNvramPushConfig mem p fileSize (rom.read v.settings) startup priv).2) :=
    (Option.some.inj hmethod).symm
  rw [heq] at hdone
  obtain ⟨hret, rfl⟩ := Prod.mk.inj hdone
  obtain ⟨-, -, prev, -, -, hholds⟩ := Nvram.push_ok (Prod.ext (of_decide_eq_true hret) rfl) hsize
  have hextracts := Nvram.extracts_iff.mpr (hholds mem')
  refine cmd_extract_config_ok hmem (registry_find_congr hr hfind)
    (by rw [hvms, Function.update_self]) ?_
  rw [Nvram.Extracts] at hextracts
  simp only [withNvram, rom.read_write, hextracts]
  rfl

/-- A file in a field that no method uses -/
def macRom : RomFile Unit where
  read s := s.mac_addr
  write s file := { s with mac_addr := file }
  read_write _ _ := rfl

def blankHost : Env Unit :=
  withNvram goodHost ⟨Nvram.zeroTables, fun _ => 0, fun _ => 0⟩ ⟨0, 0, 0, 0⟩ 1024 macRom

theorem extract_pushed_blank :
    (cmd_extract_config blankHost (cmd_push_config blankHost running
        ["R1", text (encodeText [0x21]), text (encodeText [])]) ["R1"]).out =
      [pushed "R1"] ++ [conf "R1" [0x21] []] := by
  have hok : (cmd_push_config blankHost running
      ["R1", text (encodeText [0x21]), text (encodeText [])]).out =
        running.out ++ [pushed "R1"] := by
    decide +kernel
  have hw : Wf running := (created_spec wf_initial _).1
  exact (extract_pushed hw (by decide) (by decide) (by decide) ⟨rfl, rfl⟩ rfl hok).trans
    (congrArg (· ++ [conf "R1" [0x21] []]) hok)

end Dynamips.HvVm
