import Dynamips.HvVmRefs

/-! The commands on a VM that give back the reference they take on every path. -/
set_option autoImplicit false

namespace Dynamips.HvVm

open Dynamips.Hypervisor Numerals
open Registry (NodeId)

variable {δ : Type} {e : Env δ} {h : State δ} {argv : List String}

/-- The handler keeps the registry, whatever its arguments. -/
def Keeps (f : Handler δ) : Prop := ∀ e h argv, Wf h → Kept h (f e h argv)

theorem cmd_call_keeps (call : Env δ → Vm δ → List String → Bool × Settings δ) (code : Nat)
    (fail : String) (reply : String → String) : Keeps (cmd_call call code fail reply) := by
  intro e h argv hw
  refine find_object_kept hw fun n h₁ v hh _ => ?_
  split
  · exact (hh.setSettings _).reply _ _
  · exact (hh.setSettings _).reply _ _

theorem cmd_start_keeps : Keeps (cmd_start (δ := δ)) := by
  intro e h argv hw
  refine find_object_kept hw fun n h₁ v hh _ => ?_
  have hwarned : Held h n (if v.settings.vtty_con_type = .NONE then
      h₁.send_reply HSC_INFO_MSG false
        ("Warning: no console port defined for VM '" ++ arg argv 0 ++ "'") else h₁) := by
    split
    · exact hh.message _ _
    · exact hh
  rcases e.init_instance v with ⟨started, settings⟩
  cases started with
  | false => exact (hwarned.setSettings _).reply _ _
  | true => exact (hwarned.setSettings _).reply _ _

theorem cmd_set_keeps (set : Env δ → Settings δ → List String → Settings δ)
    (reply : Settings δ → String → String) : Keeps (cmd_set set reply) := by
  intro e h argv hw
  exact find_object_kept hw fun n h₁ v hh _ => (hh.setSettings _).reply _ _

theorem cmd_cpu_keeps (set : Env δ → Cpu → List String → Cpu) (messages : Cpu → List String) :
    Keeps (cmd_cpu set messages) := by
  intro e h argv hw
  refine find_object_kept hw fun n h₁ v hh _ => ?_
  rw [find_cpu]
  split
  · exact hh.reply _ _
  · exact ((hh.setSettings _).messages _).reply _ _

theorem cmd_extract_config_keeps : Keeps (cmd_extract_config (δ := δ)) := by
  intro e h argv hw
  refine find_object_kept hw fun n h₁ v hh _ => ?_
  dsimp only
  split
  · exact hh.reply _ _
  · exact hh.reply _ _
  · split
    · exact hh.reply _ _
    · exact hh.reply _ _

theorem cmd_show_keeps (messages : Settings δ → List String → List String) :
    Keeps (cmd_show messages) := by
  intro e h argv hw
  exact find_object_kept hw fun n h₁ v hh _ => (hh.messages _).reply _ _

theorem Held.on_slots {n : NodeId} {h₁ : State δ} (hh : Held h n h₁) (v : Vm δ)
    (f : CiscoCard.Vm δ → Bool × CiscoCard.Vm δ) : Held h n (on_slots h₁ n v f).2 := by
  have hset := hh.setSettings { v.settings with slots := (f { v.settings.slots with
    nios := h₁.nios }).2 }
  exact ⟨hset.wf, hset.registered, hset.registry, hset.names, hset.out⟩

theorem cmd_slot_keeps (slot : List String → BitVec 32)
    (f : Env δ → Nat → Nat → List String → CiscoCard.Vm δ → Bool × CiscoCard.Vm δ)
    (what : String) : Keeps (cmd_slot slot f what) := by
  intro e h argv hw
  refine find_object_kept hw fun n h₁ v hh _ => ?_
  have hslots := hh.on_slots v (f e (slot argv).toNat (atoi (arg argv 2)).toNat argv)
  dsimp only
  split
  · rename_i hres
    rw [hres] at hslots
    exact hslots.reply _ _
  · rename_i hres
    rw [hres] at hslots
    exact hslots.reply _ _

theorem cmd_slot_oir_keeps (oir : Env δ → Vm δ → BitVec 32 → BitVec 32 → Bool × Settings δ)
    (code : Nat) : Keeps (cmd_slot_oir oir code) := by
  intro e h argv hw
  refine find_object_kept hw fun n h₁ v hh _ => ?_
  split
  · exact (hh.setSettings _).reply _ _
  · exact (hh.setSettings _).reply _ _

theorem send_messages_registry (h : State δ) (l : List String) :
    (send_messages h l).registry = h.registry ∧ (send_messages h l).vms = h.vms ∧
      (send_messages h l).out = h.out ++ l.map fun t => ⟨HSC_INFO_MSG, false, t⟩ := by
  induction l generalizing h with
  | nil => exact ⟨rfl, rfl, by simp [send_messages]⟩
  | cons t l ih =>
    obtain ⟨hregistry, hvms, hout⟩ := ih (h.send_reply HSC_INFO_MSG false t)
    refine ⟨hregistry, hvms, hout.trans ?_⟩
    simp [State.send_reply]

theorem cmd_list_keeps (message : String → Vm δ → Option String) : Keeps (cmd_list message) := by
  intro e h argv hw
  obtain ⟨hregistry, hvms, hout⟩ := send_messages_registry h _
  refine ⟨hregistry, fun p => ?_, _, ⟨HSC_INFO_OK, true, "OK"⟩, congrArg (· ++ _) hout, rfl, ?_⟩
  · rw [cmd_list, State.send_reply, hvms]
  · intro r hr
    rw [List.mem_map] at hr
    obtain ⟨t, -, rfl⟩ := hr
    rfl

theorem cmd_debug_cpu_keeps (bad : List String → Bool) (error : String)
    (set : Env δ → Vm δ → List String → Settings δ) : Keeps (cmd_debug_cpu bad error set) := by
  intro e h argv hw
  refine find_object_kept hw fun n h₁ v hh _ => ?_
  split
  · exact hh.reply _ _
  · exact (hh.setSettings _).reply _ _

theorem cmd_pmem_w_keeps (width : Nat) : Keeps (cmd_pmem_w (δ := δ) width) := by
  intro e h argv hw
  exact find_object_kept hw fun n h₁ v hh _ => (hh.setSettings _).reply _ _

theorem cmd_pmem_r_keeps (width : Nat) : Keeps (cmd_pmem_r (δ := δ) width) := by
  intro e h argv hw
  exact find_object_kept hw fun n h₁ v hh _ => hh.reply _ _

theorem cmd_pmem_cfind_keeps : Keeps (cmd_pmem_cfind (δ := δ)) := by
  intro e h argv hw
  refine find_object_kept hw fun n h₁ v hh _ => ?_
  dsimp only
  split
  · exact hh.reply _ _
  split
  · exact hh.reply _ _
  split
  · exact hh.reply _ _
  split
  · exact hh.reply _ _
  · exact hh.reply _ _

theorem cmd_platform_call_keeps (function what platform : String) :
    Keeps (cmd_platform_call (δ := δ) function what platform) := by
  intro e h argv hw
  refine find_vm_kept hw fun n h₁ v hh _ => ?_
  split
  · exact (hh.setSettings _).reply _ _
  · exact (hh.setSettings _).reply _ _

theorem cmd_platform_set_keeps (set : Env δ → Vm δ → List String → Settings δ)
    (platform : String) : Keeps (cmd_platform_set set platform) := by
  intro e h argv hw
  exact find_vm_kept hw fun n h₁ v hh _ => (hh.setSettings _).reply _ _

theorem cmd_get_mac_addr_keeps (platform : String) :
    Keeps (cmd_get_mac_addr (δ := δ) platform) := by
  intro e h argv hw
  refine find_vm_kept hw fun n h₁ v hh hv => ?_
  have hswap (code : Nat) (t : String) : (h₁.send_reply code true t).vm_release n =
      (h₁.vm_release n).send_reply code true t := by
    simp only [State.vm_release, State.send_reply, hv, State.registry_unref]
    split <;> rfl
  rw [hswap]
  exact hh.reply _ _

end Dynamips.HvVm
