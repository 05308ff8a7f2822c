import Dynamips.HvVm

/-! The commands on a VM of the module vm_debug and of the modules of the
platforms, and the call of a command by its module and its name. -/
set_option autoImplicit false

namespace Dynamips.HvVm

open Dynamips.Hypervisor Numerals
open Registry (NodeId)

variable {δ : Type}

/-! The commands of the module vm_debug -/

def cmd_debug_cpu (bad : List String → Bool) (error : String)
    (set : Env δ → Vm δ → List String → Settings δ) : Handler δ := fun e h argv =>
  h.hypervisor_find_object (arg argv 0) fun h vm v =>
    if (cpu_group_find_id v.settings.cpu_group (atoi (arg argv 1))).isNone ∨ bad argv then
      (h.vm_release vm).send_reply HSC_ERR_BAD_OBJ true error
    else
      ((h.setSettings vm (set e v argv)).vm_release vm).send_reply HSC_INFO_OK true "OK"

/-- `show_cpu_regs`; the dump goes to the standard output. -/
def cmd_show_cpu_regs : Handler δ := cmd_set (fun _ s _ => s) ok

def cmd_show_cpu_mmu : Handler δ := cmd_set (fun _ s _ => s) ok

def cmd_set_cpu_reg : Handler δ :=
  cmd_debug_cpu (fun argv => (atoi (arg argv 2)).toInt < 1) "Bad CPU or register"
    fun e v argv =>
      e.reg_set v (atoi (arg argv 1)) (atoi (arg argv 2)) (strtoull 0 (arg argv 3))

def cmd_add_cpu_breakpoint : Handler δ :=
  cmd_debug_cpu (fun _ => false) "Bad CPU" fun e v argv =>
    e.breakpoint v (atoi (arg argv 1)) true (strtoull 0 (arg argv 2))

def cmd_remove_cpu_breakpoint : Handler δ :=
  cmd_debug_cpu (fun _ => false) "Bad CPU" fun e v argv =>
    e.breakpoint v (atoi (arg argv 1)) false (strtoull 0 (arg argv 2))

/-- `pmem_w32` and `pmem_w16`, for words of `width` bits -/
def cmd_pmem_w (width : Nat) : Handler δ := fun e h argv =>
  h.hypervisor_find_object (arg argv 0) fun h vm v =>
    let value := ((strtoull 0 (arg argv 3)).setWidth width).setWidth 32
    ((h.setSettings vm (e.physmem_copy_to_vm v (strtoull 0 (arg argv 2)) width value)).vm_release
      vm).send_reply HSC_INFO_OK true "OK"

/-- `pmem_r32` and `pmem_r16` -/
def cmd_pmem_r (width : Nat) : Handler δ := fun e h argv =>
  h.hypervisor_find_object (arg argv 0) fun h vm v =>
    (h.vm_release vm).send_reply HSC_INFO_OK true
      ("0x" ++ hex (width / 4)
        (e.physmem_copy_from_vm v (strtoull 0 (arg argv 2)) width).toNat)

def cmd_pmem_cfind : Handler δ := fun e h argv =>
  h.hypervisor_find_object (arg argv 0) fun h vm v =>
    let len := (bytes (arg argv 2)).length
    if len = 0 ∨ len % 2 = 1 then
      (h.vm_release vm).send_reply HSC_ERR_INV_PARAM true
        ("Invalid byte sequence (invalid length=" ++ toString (len % 2 ^ 32) ++ ")")
    else if ¬ e.memory 0 then
      (h.vm_release vm).send_reply HSC_ERR_UNSPECIFIED true "out of memory"
    else
      let decoded := e.hex_decode (bytes (arg argv 2)) (len / 2)
      if len / 2 ≠ decoded.length then
        (h.vm_release vm).send_reply HSC_ERR_INV_PARAM true
          "Invalid byte sequence (non-hexadecimal character)"
      else
        let start := if argv.length > 3 then strtoull 0 (arg argv 3) else 0
        let last := if argv.length > 4 then strtoull 0 (arg argv 4) else BitVec.allOnes 64
        match e.physmem_cfind v decoded start last with
        | none => (h.vm_release vm).send_reply HSC_ERR_NOT_FOUND true "Not found"
        | some addr =>
          (h.vm_release vm).send_reply HSC_INFO_OK true ("0x" ++ hex 4 addr.toNat)

def vm_debug_cmd_array : List (Command δ) :=
  [⟨"show_cpu_regs", 2, 2, cmd_show_cpu_regs⟩, ⟨"show_cpu_mmu", 2, 2, cmd_show_cpu_mmu⟩,
    ⟨"set_cpu_reg", 4, 4, cmd_set_cpu_reg⟩,
    ⟨"add_cpu_breakpoint", 3, 3, cmd_add_cpu_breakpoint⟩,
    ⟨"remove_cpu_breakpoint", 3, 3, cmd_remove_cpu_breakpoint⟩,
    ⟨"pmem_w32", 4, 4, cmd_pmem_w 32⟩, ⟨"pmem_r32", 3, 3, cmd_pmem_r 32⟩,
    ⟨"pmem_w16", 4, 4, cmd_pmem_w 16⟩, ⟨"pmem_r16", 3, 3, cmd_pmem_r 16⟩,
    ⟨"pmem_cfind", 3, 5, cmd_pmem_cfind⟩]

/-! The commands of the modules of the platforms -/

/-- A command that calls `function` of the platform, which may fail -/
def cmd_platform_call (function what : String) (platform : String) : Handler δ := fun e h argv =>
  h.hypervisor_find_vm platform (arg argv 0) fun h vm v =>
    match e.platform_set function v (arg argv 1) with
    | (false, settings) =>
      ((h.setSettings vm settings).vm_release vm).send_reply HSC_ERR_CREATE true
        ("unable to set " ++ what ++ " for router '" ++ arg argv 0 ++ "'")
    | (true, settings) =>
      ((h.setSettings vm settings).vm_release vm).send_reply HSC_INFO_OK true "OK"

def cmd_platform_set (set : Env δ → Vm δ → List String → Settings δ) (platform : String) :
    Handler δ := fun e h argv =>
  h.hypervisor_find_vm platform (arg argv 0) fun h vm v =>
    ((h.setSettings vm (set e v argv)).vm_release vm).send_reply HSC_INFO_OK true "OK"

def cmd_set_iomem : String → Handler δ :=
  cmd_platform_set fun _ v argv =>
    { v.settings with nm_iomem_size := 0x8000 ||| atoi (arg argv 1) }

def mac_addr_text (mac : List Byte) : String :=
  let byte (i : Nat) := hex 2 (mac.getD i 0).toNat
  byte 0 ++ byte 1 ++ "." ++ byte 2 ++ byte 3 ++ "." ++ byte 4 ++ byte 5

/-- `cmd_get_mac_addr`, which replies before it releases the VM -/
def cmd_get_mac_addr (platform : String) : Handler δ := fun _ h argv =>
  h.hypervisor_find_vm platform (arg argv 0) fun h vm v =>
    (h.send_reply HSC_INFO_OK true (mac_addr_text v.settings.mac_addr)).vm_release vm

def C7200_TEMP_SENSORS : Nat := 4

def cmd_set_temp_sensor : String → Handler δ :=
  cmd_platform_set fun e v argv =>
    if (atoi (arg argv 1)).toNat < C7200_TEMP_SENSORS then
      e.set_temp v (atoi (arg argv 1)) (atoi (arg argv 2))
    else v.settings

/-- `cmd_set_power_supply`; a shift takes its count modulo 32. -/
def cmd_set_power_supply : String → Handler δ :=
  cmd_platform_set fun _ v argv =>
    let bit : BitVec 32 := 1 <<< ((atoi (arg argv 1)).toNat % 32)
    let ps_status := if atoi (arg argv 2) ≠ 0 then v.settings.ps_status ||| bit
      else v.settings.ps_status &&& ~~~ bit
    { v.settings with ps_status := ps_status &&& 3 }

/-- `cmd_show_hardware`; it prints to the standard output. -/
def cmd_show_hardware : String → Handler δ := cmd_platform_set fun _ v _ => v.settings

def cmd_platform_list (platform : String) : Handler δ :=
  cmd_list fun name v => if v.platform = platform then some name else none

def common_cmd_array (platform : String) : List (Command δ) :=
  [⟨"get_mac_addr", 1, 1, cmd_get_mac_addr platform⟩,
    ⟨"set_mac_addr", 2, 2, cmd_platform_call "set_mac_addr" "MAC address" platform⟩,
    ⟨"set_system_id", 2, 2, cmd_platform_call "set_system_id" "the system id" platform⟩,
    ⟨"show_hardware", 1, 1, cmd_show_hardware platform⟩,
    ⟨"list", 0, 0, cmd_platform_list platform⟩]

def c7200_cmd_array : List (Command δ) :=
  [⟨"set_npe", 2, 2, cmd_platform_call "npe_set_type" "NPE type" "c7200"⟩,
    ⟨"set_midplane", 2, 2, cmd_platform_call "midplane_set_type" "Midplane type" "c7200"⟩,
    ⟨"set_temp_sensor", 3, 3, cmd_set_temp_sensor "c7200"⟩,
    ⟨"set_power_supply", 3, 3, cmd_set_power_supply "c7200"⟩] ++ common_cmd_array "c7200"

def iomem_cmd_array (platform : String) : List (Command δ) :=
  ⟨"set_iomem", 2, 2, cmd_set_iomem platform⟩ :: common_cmd_array platform

def chassis_cmd_array (platform : String) : List (Command δ) :=
  ⟨"set_chassis", 2, 2, cmd_platform_call "set_chassis" "Chassis type" platform⟩ ::
    iomem_cmd_array platform

def modules : List (String × List (Command δ)) :=
  [("vm", vm_cmd_array), ("vm_debug", vm_debug_cmd_array), ("c7200", c7200_cmd_array),
    ("c3600", chassis_cmd_array "c3600"), ("c2600", chassis_cmd_array "c2600"),
    ("c1700", chassis_cmd_array "c1700"), ("c2691", iomem_cmd_array "c2691"),
    ("c3725", iomem_cmd_array "c3725"), ("c3745", iomem_cmd_array "c3745")]

def hypervisor_exec_cmd (e : Env δ) (h : State δ) (mod_name cmd_name : String)
    (argv : List String) : State δ :=
  match modules.find? fun m => m.1 = mod_name with
  | none => h.send_reply HSC_ERR_UNK_MODULE true ("Unknown module '" ++ mod_name ++ "'")
  | some (_, commands) =>
    match commands.find? fun c => c.name = cmd_name with
    | none => h.send_reply HSC_ERR_UNK_CMD true ("Unknown command '" ++ cmd_name ++ "'")
    | some cmd =>
      if argv.length < cmd.min_param ∨ cmd.max_param < argv.length then
        h.send_reply HSC_ERR_BAD_PARAM true
          ("Bad number of parameters (" ++ toString argv.length ++ " with min/max=" ++
            toString cmd.min_param ++ "/" ++ toString cmd.max_param ++ ")")
      else cmd.handler e h argv

end Dynamips.HvVm
