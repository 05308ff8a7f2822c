import Dynamips.Base64Compat
import Dynamips.Hypervisor

/-! The commands of the hypervisor that work on a VM (hv_vm.c, hv_vm_debug.c and
the hv_*.c of the platforms), and the functions of vm.c that create, rename and
delete a VM. -/
set_option autoImplicit false

namespace Dynamips.HvVm

open Dynamips.Hypervisor Numerals
export Dynamips.Hypervisor (Vm)
open Registry (NodeId startAction endAction)

/-- What the commands call and the model has no body for: the memory, numbered by
the allocations of a command, the files, the CPU time, and the functions of the
platforms and their devices. -/
structure Env (δ : Type) where
  platforms : List String
  vm_file_naming_type : BitVec 32
  drivers : CiscoCard.Drivers δ
  memory : Nat → Bool
  registry_memory : Registry.AddMemory
  vm_create : Bool
  vm_get_lock : Bool
  get_cpu_time : Option (BitVec 64)
  nio_driver : Bool
  create_instance : Vm δ → Option (Settings δ)
  delete_instance : Vm δ → Bool
  init_instance : Vm δ → Bool × Settings δ
  stop_instance : Vm δ → Bool × Settings δ
  oir_start : Vm δ → BitVec 32 → BitVec 32 → Bool × Settings δ
  oir_stop : Vm δ → BitVec 32 → BitVec 32 → Bool × Settings δ
  nvram_extract_config : Vm δ → Option (Option (List Byte × List Byte))
  nvram_push_config : Vm δ → Option (Option (List Byte) → Option (List Byte) → Bool × Settings δ)
  get_idling_pc : Cpu → Cpu
  reg_set : Vm δ → BitVec 32 → BitVec 32 → BitVec 64 → Settings δ
  breakpoint : Vm δ → BitVec 32 → Bool → BitVec 64 → Settings δ
  physmem_copy_to_vm : Vm δ → BitVec 64 → Nat → BitVec 32 → Settings δ
  physmem_copy_from_vm : Vm δ → BitVec 64 → Nat → BitVec 32
  physmem_cfind : Vm δ → List Byte → BitVec 64 → BitVec 64 → Option (BitVec 64)
  hex_decode : List Byte → Nat → List Byte
  platform_set : String → Vm δ → String → Bool × Settings δ
  set_temp : Vm δ → BitVec 32 → BitVec 32 → Settings δ

variable {δ : Type}

abbrev Handler (δ : Type) := Env δ → State δ → List String → State δ

def arg (argv : List String) (i : Nat) : String := argv.getD i ""

def bytes (s : String) : List Byte := s.toList.map fun c => BitVec.ofNat 8 c.toNat

def text (b : List Byte) : String := String.ofList (b.map fun c => Char.ofNat c.toNat)

/-- `%x`, and with `%n.nx` at least `width` digits -/
def hex (width n : Nat) : String :=
  let digits := Nat.toDigits 16 n
  String.ofList (List.replicate (width - digits.length) '0' ++ digits)

/-! Functions of vm.c -/

def vm_create_instance (e : Env δ) (h : State δ) (name : String) (instance_id : BitVec 32)
    (type : String) : Option NodeId × State δ :=
  if type ∉ e.platforms then (none, h)
  else if ¬ e.vm_create then (none, h)
  else
    let vm := h.registry.next
    match Registry.add h.registry (vmKey name) vm e.registry_memory with
    | (registry, .error _) => (none, { h with registry })
    | (registry, .ok _) =>
      let v : Vm δ := ⟨name, instance_id, type, Settings.new δ⟩
      match e.create_instance v with
      | none => (none, { h with registry, vms := Function.update h.vms vm none })
      | some settings => (some vm, { h with registry }.setVm vm { v with settings })

/-- The call of the platform's `delete_instance`; a VM that was freed is undefined. -/
def vm_reg_delete_instance (e : Env δ) (h : State δ) (vm : NodeId) : Bool × State δ :=
  match h.vms vm with
  | none => (false, h)
  | some v =>
    if e.delete_instance v then
      let slots := { v.settings.slots with nios := h.nios }
      let slots := (List.range slots.nr_slots).foldl CiscoCard.Vm.remove_all_nio_bindings slots
      (true, { h with vms := Function.update h.vms vm none, nios := slots.nios })
    else (false, h)

def vm_delete_instance (e : Env δ) (h : State δ) (name : String) : Int × State δ :=
  match h.registry.entry (vmKey name) with
  | .error _ => (-1, h)
  | .ok n =>
    match startAction h.registry n 0 with
    | .reply (.error _) => (-1, h)
    | .reply (.ok result) => (if result = .referenced then 0 else 1, h)
    | .callback registry =>
      let (accepted, h) := vm_reg_delete_instance e { h with registry } (h.registry.nodes n).data
      (1, { h with registry := (endAction h.registry n true accepted).1 })

def vm_rename_instance (e : Env δ) (h : State δ) (vm : NodeId) (v : Vm δ) (name : String) :
    Bool × State δ :=
  if v.settings.status ≠ .HALTED then (false, h)
  else if v.name = name then (true, h)
  else if h.registry_exists name then (false, h)
  else if ¬ e.memory 0 then (false, h)
  else if e.vm_file_naming_type ≠ 1 ∧ ¬ e.vm_get_lock then (false, h)
  else if ¬ e.memory 1 then (false, h)
  else
    match Registry.rename h.registry (vmKey v.name) (some name) with
    | (registry, .error _) => (false, { h with registry })
    | (registry, .ok _) => (true, { h with registry }.setVm vm { v with name })

def vm_suspend (s : Settings δ) : Settings δ :=
  if s.status = .RUNNING then { s with status := .SUSPENDED } else s

def vm_resume (s : Settings δ) : Settings δ :=
  if s.status = .SUSPENDED then { s with status := .RUNNING } else s

def cpu_group_find_id (group : List Cpu) (id : BitVec 32) : Option Cpu :=
  group.find? fun cpu => cpu.id = id

def setCpu (s : Settings δ) (cpu : Cpu) : Settings δ :=
  { s with cpu_group := s.cpu_group.map fun c => if c.id = cpu.id then cpu else c }

def vtty_store_bytes (v : Vtty.VirtualTty) : List Byte → Vtty.VirtualTty × Nat
  | [] => (v, 0)
  | c :: data =>
    if (if v.writePtr + 1 = Vtty.VTTY_BUFFER_SIZE then 0 else v.writePtr + 1) = v.readPtr then (v, 0)
    else
      match Vtty.vttyStore v c with
      | none => (v, 0)
      | some v =>
        let (v, stored) := vtty_store_bytes v data
        (v, stored + 1)

/-- `vtty_store_data`; `data` is the buffer and `len` the length given. -/
def vtty_store_data (vtty : Option Vtty.VirtualTty) (data : List Byte) (len : Int) :
    Option Vtty.VirtualTty × Int :=
  match vtty with
  | none => (none, -1)
  | some v =>
    if len < 0 then (some v, -1)
    else
      let (v, stored) := vtty_store_bytes v (data.take len.toNat)
      (some { v with inputPending := true }, stored)

/-! The commands of the module vm -/

def cmd_create : Handler δ := fun e h argv =>
  match vm_create_instance e h (arg argv 0) (atoi (arg argv 1)) (arg argv 2) with
  | (none, h) =>
    h.send_reply HSC_ERR_CREATE true ("unable to create VM instance '" ++ arg argv 0 ++ "'")
  | (some vm, h) =>
    match h.vms vm with
    | none => h
    | some v =>
      ((h.setSettings vm { v.settings with vtty_con_type := .NONE, vtty_aux_type := .NONE }).vm_release
        vm).send_reply HSC_INFO_OK true ("VM '" ++ arg argv 0 ++ "' created")

def cmd_rename : Handler δ := fun e h argv =>
  h.hypervisor_find_object (arg argv 0) fun h vm v =>
    if h.registry_exists (arg argv 1) then
      (h.vm_release vm).send_reply HSC_ERR_RENAME true
        ("unable to rename VM instance '" ++ arg argv 0 ++ "', '" ++ arg argv 1 ++ "' already exists")
    else
      match vm_rename_instance e h vm v (arg argv 1) with
      | (false, h) =>
        h.send_reply HSC_ERR_RENAME true ("unable to rename VM instance '" ++ arg argv 0 ++ "'")
      | (true, h) =>
        (h.vm_release vm).send_reply HSC_INFO_OK true
          ("VM '" ++ arg argv 0 ++ "' renamed to '" ++ arg argv 1 ++ "'")

def cmd_delete : Handler δ := fun e h argv =>
  match vm_delete_instance e h (arg argv 0) with
  | (res, h) =>
    if res = 1 then h.send_reply HSC_INFO_OK true ("VM '" ++ arg argv 0 ++ "' deleted")
    else h.send_reply HSC_ERR_DELETE true ("unable to delete VM '" ++ arg argv 0 ++ "'")

/-- `cmd_clean_delete`, without the files that it deletes -/
def cmd_clean_delete : Handler δ := fun e h argv =>
  h.hypervisor_find_object (arg argv 0) fun h vm _ =>
    match vm_delete_instance e (h.vm_release vm) (arg argv 0) with
    | (res, h) =>
      if res = 1 then
        h.send_reply HSC_INFO_OK true ("VM '" ++ arg argv 0 ++ "' and related files deleted")
      else h.send_reply HSC_ERR_DELETE true ("unable to delete VM '" ++ arg argv 0 ++ "'")

/-- A command that calls a function of the VM, which may fail -/
def cmd_call (call : Env δ → Vm δ → List String → Bool × Settings δ) (code : Nat) (fail : String)
    (ok : String → String) : Handler δ := fun e h argv =>
  h.hypervisor_find_object (arg argv 0) fun h vm v =>
    match call e v argv with
    | (false, settings) =>
      ((h.setSettings vm settings).vm_release vm).send_reply code true
        (fail ++ " '" ++ arg argv 0 ++ "'")
    | (true, settings) =>
      ((h.setSettings vm settings).vm_release vm).send_reply HSC_INFO_OK true (ok (arg argv 0))

def cmd_start : Handler δ := fun e h argv =>
  h.hypervisor_find_object (arg argv 0) fun h vm v =>
    let h := if v.settings.vtty_con_type = .NONE then
        h.send_reply HSC_INFO_MSG false
          ("Warning: no console port defined for VM '" ++ arg argv 0 ++ "'")
      else h
    match e.init_instance v with
    | (false, settings) =>
      ((h.setSettings vm settings).vm_release vm).send_reply HSC_ERR_START true
        ("unable to start VM instance '" ++ arg argv 0 ++ "'")
    | (true, settings) =>
      ((h.setSettings vm settings).vm_release vm).send_reply HSC_INFO_OK true
        ("VM '" ++ arg argv 0 ++ "' started")

def cmd_stop : Handler δ :=
  cmd_call (fun e v _ => e.stop_instance v) HSC_ERR_STOP "unable to stop VM instance"
    fun name => "VM '" ++ name ++ "' stopped"

def cmd_set (set : Env δ → Settings δ → List String → Settings δ)
    (reply : Settings δ → String → String) : Handler δ := fun e h argv =>
  h.hypervisor_find_object (arg argv 0) fun h vm v =>
    ((h.setSettings vm (set e v.settings argv)).vm_release vm).send_reply HSC_INFO_OK true
      (reply v.settings (arg argv 0))

def ok (_ : Settings δ) (_ : String) : String := "OK"

def cmd_get_status : Handler δ := cmd_set (fun _ s _ => s) fun s _ => toString s.status.number

def cmd_set_debug_level : Handler δ :=
  cmd_set (fun _ s argv => { s with debug_level := atoi (arg argv 1) }) ok

def cmd_set_ios : Handler δ :=
  cmd_call
    (fun e v argv =>
      if e.memory 0 then (true, { v.settings with ios_image := some (arg argv 1) })
      else (false, v.settings))
    HSC_ERR_CREATE "unable to store IOS image name for router"
    fun name => "IOS image set for '" ++ name ++ "'"

/-- `vm_ios_set_config`; an empty name is passed as NULL, which does not keep the data. -/
def cmd_set_config : Handler δ :=
  cmd_call
    (fun e v argv =>
      let startup := if arg argv 1 = "" then none else some (arg argv 1)
      let priv := if arg argv 2 = "" then none else some (arg argv 2)
      if (startup.isNone ∨ e.memory 0) ∧ (priv.isNone ∨ e.memory 1) then
        (true, { v.settings with ios_startup_config := startup, ios_private_config := priv })
      else (false, v.settings))
    HSC_ERR_CREATE "unable to store IOS config for router"
    fun name => "IOS config file set for '" ++ name ++ "'"

def cmd_set_ram : Handler δ :=
  cmd_set
    (fun _ s argv =>
      { s with
        ram_size := atoi (arg argv 1)
        npe400_ram_size := s.npe400_ram_size.map fun _ => atoi (arg argv 1) }) ok

def cmd_set_nvram : Handler δ :=
  cmd_set (fun _ s argv => { s with nvram_size := atoi (arg argv 1) }) ok

def cmd_set_ram_mmap : Handler δ :=
  cmd_set (fun _ s argv => { s with ram_mmap := atoi (arg argv 1) }) ok

def cmd_set_sparse_mem : Handler δ :=
  cmd_set (fun _ s argv => { s with sparse_mem := atoi (arg argv 1) }) ok

def cmd_set_clock_divisor : Handler δ :=
  cmd_set
    (fun _ s argv =>
      if atoi (arg argv 1) ≠ 0 then { s with clock_divisor := atoi (arg argv 1) } else s) ok

def cmd_set_blk_direct_jump : Handler δ :=
  cmd_set (fun _ s argv => { s with exec_blk_direct_jump := atoi (arg argv 1) }) ok

def cmd_set_idle_pc : Handler δ :=
  cmd_set (fun _ s argv => { s with idle_pc := strtoull 0 (arg argv 1) }) ok

def cmd_set_exec_area : Handler δ :=
  cmd_set (fun _ s argv => { s with exec_area_size := atoi (arg argv 1) }) ok

def cmd_set_ghost_file : Handler δ :=
  cmd_set
    (fun e s argv =>
      { s with ghost_ram_filename := if e.memory 0 then some (arg argv 1) else none }) ok

def cmd_set_ghost_status : Handler δ :=
  cmd_set (fun _ s argv => { s with ghost_status := atoi (arg argv 1) }) ok

def cmd_set_disk0 : Handler δ :=
  cmd_set (fun _ s argv => { s with pcmcia_disk0_size := atoi (arg argv 1) }) ok

def cmd_set_disk1 : Handler δ :=
  cmd_set (fun _ s argv => { s with pcmcia_disk1_size := atoi (arg argv 1) }) ok

def cmd_set_conf_reg : Handler δ :=
  cmd_set
    (fun _ s argv => { s with conf_reg_setup := BitVec.ofInt 32 (strtol 0 (arg argv 1)) }) ok

def cmd_set_con_tcp_port : Handler δ :=
  cmd_set
    (fun _ s argv => { s with vtty_con_type := .TCP, vtty_con_tcp_port := atoi (arg argv 1) }) ok

def cmd_set_aux_tcp_port : Handler δ :=
  cmd_set
    (fun _ s argv => { s with vtty_aux_type := .TCP, vtty_aux_tcp_port := atoi (arg argv 1) }) ok

/-- `cpu_info`; the dumps go to the standard output. -/
def cmd_show_cpu_info : Handler δ := cmd_set (fun _ s _ => s) ok

def cmd_suspend : Handler δ :=
  cmd_set (fun _ s _ => vm_suspend s) fun _ name => "VM '" ++ name ++ "' suspended"

def cmd_resume : Handler δ :=
  cmd_set (fun _ s _ => vm_resume s) fun _ name => "VM '" ++ name ++ "' resumed"

/-- `find_cpu`, and what the caller does with the CPU: without one the VM is
released here. -/
def find_cpu (h : State δ) (vm : NodeId) (s : Settings δ) (cpu_id : BitVec 32)
    (use : Cpu → State δ) : State δ :=
  match cpu_group_find_id s.cpu_group cpu_id with
  | none => (h.vm_release vm).send_reply HSC_ERR_BAD_OBJ true "Bad CPU specified"
  | some cpu => use cpu

def send_messages (h : State δ) (messages : List String) : State δ :=
  messages.foldl (fun h m => h.send_reply HSC_INFO_MSG false m) h

/-- A command on a CPU: what it does to it, and what it then shows of it -/
def cmd_cpu (set : Env δ → Cpu → List String → Cpu) (messages : Cpu → List String) : Handler δ :=
  fun e h argv =>
    h.hypervisor_find_object (arg argv 0) fun h vm v =>
      find_cpu h vm v.settings (atoi (arg argv 1)) fun cpu =>
        ((send_messages (h.setSettings vm (setCpu v.settings (set e cpu argv)))
          (messages (set e cpu argv))).vm_release vm).send_reply HSC_INFO_OK true "OK"

def idle_pc_messages (cpu : Cpu) : List String :=
  cpu.idle_pc_prop.map fun (pc, count) =>
    "0x" ++ hex 0 pc.toNat ++ " [" ++ toString count.toInt ++ "]"

def timer_messages (cpu : Cpu) : List String :=
  ["Timer Drift: " ++ toString cpu.timer_drift.toNat,
    "Pending Timer IRQ: " ++ toString cpu.timer_irq_pending.toNat]

/-- `set_idle_pc` of the CPU of either type -/
def set_idle_pc (cpu : Cpu) (addr : BitVec 64) : Cpu :=
  match cpu.type with
  | .MIPS64 => { cpu with idle_pc := addr }
  | .PPC32 => { cpu with idle_pc := (addr.setWidth 32).setWidth 64 }

def cmd_set_idle_pc_online : Handler δ :=
  cmd_cpu (fun _ cpu argv => set_idle_pc cpu (strtoull 0 (arg argv 2))) fun _ => []

def cmd_get_idle_pc_prop : Handler δ := cmd_cpu (fun e cpu _ => e.get_idling_pc cpu) idle_pc_messages

def cmd_show_idle_pc_prop : Handler δ := cmd_cpu (fun _ cpu _ => cpu) idle_pc_messages

def cmd_set_idle_max : Handler δ :=
  cmd_cpu (fun _ cpu argv => { cpu with idle_max := atoi (arg argv 2) }) fun _ => []

def cmd_set_idle_sleep_time : Handler δ :=
  cmd_cpu (fun _ cpu argv => { cpu with idle_sleep_time := atoi (arg argv 2) }) fun _ => []

def cmd_show_timer_drift : Handler δ := cmd_cpu (fun _ cpu _ => cpu) timer_messages

/-- `cmd_extract_config`; the texts are those that `base64_encode` writes. -/
def cmd_extract_config : Handler δ := fun e h argv =>
  h.hypervisor_find_object (arg argv 0) fun h vm v =>
    let fail := (h.vm_release vm).send_reply HSC_ERR_CREATE true
      ("unable to extract config of VM '" ++ arg argv 0 ++ "'")
    match e.nvram_extract_config v with
    | none => fail
    | some none => fail
    | some (some (startup, priv)) =>
      if e.memory 0 ∧ e.memory 1 then
        (h.vm_release vm).send_reply HSC_INFO_OK true
          ("conf '" ++ arg argv 0 ++ "' '" ++ text (Base64.encodeText startup) ++ "' '" ++
            text (Base64.encodeText priv) ++ "'")
      else fail

/-- An argument that `cmd_push_config` decodes: none where the decoder would
leave the buffer, and no bytes where it fails. -/
def decode_config (memory : Bool) (s : String) : Option (Option (List Byte)) :=
  let len := (bytes s).length
  if 2 ^ 64 ≤ len + 3 ∨ ¬ memory then some none
  else
    let size : BitVec 32 := BitVec.ofNat 32 ((len + 3) / 4 * 3)
    (Base64.base64Decode (List.replicate (size.toNat + 1) 0) (bytes s ++ [0]) size).map
      fun (n, out) => if n < 0 then none else some (out.take n.toNat)

/-- `cmd_push_config`: none for an argument that keeps the data -/
def push_argument (e : Env δ) (n : Nat) (s : Option String) :
    Option (Option (Option (List Byte))) :=
  match s with
  | none => some (some none)
  | some s =>
    if s = "(keep)" then some (some none) else (decode_config (e.memory n) s).map (·.map some)

def cmd_push_config : Handler δ := fun e h argv =>
  h.hypervisor_find_object (arg argv 0) fun h vm v =>
    let fail (h : State δ) := (h.vm_release vm).send_reply HSC_ERR_CREATE true
      ("unable to push IOS config for VM '" ++ arg argv 0 ++ "'")
    match e.nvram_push_config v with
    | none => fail h
    | some push =>
      match push_argument e 0 (some (arg argv 1)) with
      | none => h
      | some none => fail h
      | some (some startup) =>
        match push_argument e 1 (argv[2]?) with
        | none => h
        | some none => fail h
        | some (some priv) =>
          match push startup priv with
          | (false, settings) => fail (h.setSettings vm settings)
          | (true, settings) =>
            ((h.setSettings vm settings).vm_release vm).send_reply HSC_INFO_OK true
              ("IOS config file pushed tm VM '" ++ arg argv 0 ++ "'")

def cmd_show_cpu_usage : Handler δ := fun e h argv =>
  h.hypervisor_find_object (arg argv 0) fun h vm _ =>
    match e.get_cpu_time with
    | none => h
    | some usage =>
      ((h.send_reply HSC_INFO_MSG false (toString usage.toNat)).vm_release vm).send_reply
        HSC_INFO_OK true "OK"

/-- The end of `cmd_send_con_msg` and `cmd_send_aux_msg` -/
def sent (set : Settings δ → Option Vtty.VirtualTty → Settings δ) (h : State δ) (vm : NodeId)
    (v : Vm δ) (result : Option Vtty.VirtualTty × Int) : State δ :=
  let h := (h.setSettings vm (set v.settings result.1)).vm_release vm
  if result.2 < 0 then h.send_reply HSC_ERR_INV_PARAM true "Invalid parameter"
  else h.send_reply HSC_INFO_OK true (toString result.2 ++ " byte(s) written")

/-- `cmd_send_con_msg` and `cmd_send_aux_msg`. The last branch that does not reply
is a decoder that would leave its buffer. -/
def cmd_send_msg (vtty : Settings δ → Option Vtty.VirtualTty)
    (set : Settings δ → Option Vtty.VirtualTty → Settings δ) : Handler δ := fun e h argv =>
  h.hypervisor_find_object (arg argv 0) fun h vm v =>
    let format := if argv.length > 2 then arg argv 2 else "plain"
    let data := bytes (arg argv 1)
    let len : BitVec 32 := BitVec.ofNat 32 data.length
    if format = "plain" ∧ 0 ≤ len.toInt then
      sent set h vm v (vtty_store_data (vtty v.settings) data len.toInt)
    else if format = "base64" ∧ 0 ≤ len.toInt then
      if ¬ e.memory 0 then h.send_reply HSC_ERR_UNSPECIFIED true "out of memory"
      else
        match Base64.base64Decode (List.replicate (len.toNat + 1) 0) (data ++ [0]) len with
        | none => h
        | some (len, data) => sent set h vm v (vtty_store_data (vtty v.settings) data len)
    else sent set h vm v (vtty v.settings, -1)

def cmd_send_con_msg : Handler δ :=
  cmd_send_msg Settings.vtty_con fun s vtty_con => { s with vtty_con }

def cmd_send_aux_msg : Handler δ :=
  cmd_send_msg Settings.vtty_aux fun s vtty_aux => { s with vtty_aux }

def cmd_show (messages : Settings δ → List String → List String) : Handler δ := fun _ h argv =>
  h.hypervisor_find_object (arg argv 0) fun h vm v =>
    ((send_messages h (messages v.settings argv)).vm_release vm).send_reply HSC_INFO_OK true "OK"

def card_message (card : CiscoCard.Card δ) : String :=
  toString card.slot_id ++ "/" ++ toString card.subslot_id ++ ": " ++ card.dev_type

def sub_cards (s : CiscoCard.Vm δ) (slot : Nat) : List (CiscoCard.Card δ) :=
  (CiscoCard.Vm.subBays slot).filterMap s.cards

/-- `cmd_slot_bindings`: a sub-slot is shown as the card that it is in. -/
def cmd_slot_bindings : Handler δ :=
  cmd_show fun s _ =>
    (List.range s.slots.nr_slots).flatMap fun slot =>
      match s.slots.get_card_ptr slot with
      | none => []
      | some card => card_message card :: (sub_cards s.slots slot).map fun _ => card_message card

def nio_messages (card : CiscoCard.Card δ) : List String :=
  card.nio_list.map fun nb => toString nb.port_id ++ ": " ++ nb.nio

def cmd_slot_nio_bindings : Handler δ :=
  cmd_show fun s argv =>
    let slot := (atoi (arg argv 1)).toNat
    match s.slots.get_card_ptr slot with
    | none => []
    | some card => (card :: sub_cards s.slots slot).flatMap nio_messages

/-- The slot functions, with the counts of the NIOs that all VMs share -/
def on_slots (h : State δ) (vm : NodeId) (v : Vm δ)
    (f : CiscoCard.Vm δ → Bool × CiscoCard.Vm δ) : Bool × State δ :=
  let (done, slots) := f { v.settings.slots with nios := h.nios }
  (done, { h.setSettings vm { v.settings with slots } with nios := slots.nios })

def cmd_slot (slot : List String → BitVec 32)
    (f : Env δ → Nat → Nat → List String → CiscoCard.Vm δ → Bool × CiscoCard.Vm δ)
    (what : String) : Handler δ := fun e h argv =>
  h.hypervisor_find_object (arg argv 0) fun h vm v =>
    let slot := (slot argv).toNat
    let port := (atoi (arg argv 2)).toNat
    match on_slots h vm v (f e slot port argv) with
    | (false, h) =>
      (h.vm_release vm).send_reply HSC_ERR_BINDING true
        ("VM " ++ arg argv 0 ++ ": unable to " ++ what ++ " for slot " ++ toString slot ++ "/" ++
          toString port)
    | (true, h) => (h.vm_release vm).send_reply HSC_INFO_OK true "OK"

def slot_arg (argv : List String) : BitVec 32 := atoi (arg argv 1)

def cmd_slot_add_binding : Handler δ :=
  cmd_slot (fun argv => if (slot_arg argv).toInt < 0 then 0 else slot_arg argv)
    (fun e slot port argv s => s.add_binding e.drivers (arg argv 3) slot port) "add binding"

def cmd_slot_remove_binding : Handler δ :=
  cmd_slot slot_arg (fun e slot port _ s => s.remove_binding e.drivers slot port) "remove binding"

def cmd_slot_add_nio_binding : Handler δ :=
  cmd_slot slot_arg (fun e slot port argv s => s.add_nio_binding e.drivers slot port (arg argv 3))
    "add binding"

def cmd_slot_remove_nio_binding : Handler δ :=
  cmd_slot slot_arg (fun e slot port _ s => s.remove_nio_binding e.drivers slot port)
    "remove NIO binding"

def cmd_slot_enable_nio : Handler δ :=
  cmd_slot slot_arg (fun e slot port _ s => s.enable_nio e.drivers slot port e.nio_driver)
    "enable NIO"

def cmd_slot_disable_nio : Handler δ :=
  cmd_slot slot_arg (fun e slot port _ s => s.disable_nio e.drivers slot port e.nio_driver)
    "disable NIO"

def cmd_slot_oir (oir : Env δ → Vm δ → BitVec 32 → BitVec 32 → Bool × Settings δ) (code : Nat) :
    Handler δ := fun e h argv =>
  h.hypervisor_find_object (arg argv 0) fun h vm v =>
    match oir e v (slot_arg argv) (atoi (arg argv 2)) with
    | (false, settings) =>
      ((h.setSettings vm settings).vm_release vm).send_reply code true
        ("VM " ++ arg argv 0 ++ ": unable to engage OIR for slot " ++
          toString (slot_arg argv).toNat ++ "/" ++ toString (atoi (arg argv 2)).toNat)
    | (true, settings) =>
      ((h.setSettings vm settings).vm_release vm).send_reply HSC_INFO_OK true "OK"

def cmd_slot_oir_start : Handler δ := cmd_slot_oir Env.oir_start HSC_ERR_START

def cmd_slot_oir_stop : Handler δ := cmd_slot_oir Env.oir_stop HSC_ERR_STOP

def cmd_list (message : String → Vm δ → Option String) : Handler δ := fun _ h _ =>
  (send_messages h (h.vmEntries.filterMap fun (name, v) => v.bind (message name))).send_reply
    HSC_INFO_OK true "OK"

def cmd_vm_list : Handler δ := cmd_list fun name v => some (name ++ " (" ++ v.platform ++ ")")

def cmd_vm_list_con_ports : Handler δ :=
  cmd_list fun _ v =>
    if v.settings.vtty_con_type = .TCP then
      some (v.name ++ " (" ++ toString v.settings.vtty_con_tcp_port.toInt ++ ")")
    else none

structure Command (δ : Type) where
  name : String
  min_param : Nat
  max_param : Nat
  handler : Handler δ

def vm_cmd_array : List (Command δ) :=
  [⟨"create", 3, 3, cmd_create⟩, ⟨"rename", 2, 2, cmd_rename⟩, ⟨"delete", 1, 1, cmd_delete⟩,
    ⟨"clean_delete", 1, 1, cmd_clean_delete⟩, ⟨"start", 1, 1, cmd_start⟩,
    ⟨"stop", 1, 1, cmd_stop⟩, ⟨"get_status", 1, 1, cmd_get_status⟩,
    ⟨"set_debug_level", 2, 2, cmd_set_debug_level⟩, ⟨"set_ios", 2, 2, cmd_set_ios⟩,
    ⟨"set_config", 2, 3, cmd_set_config⟩, ⟨"set_ram", 2, 2, cmd_set_ram⟩,
    ⟨"set_nvram", 2, 2, cmd_set_nvram⟩, ⟨"set_ram_mmap", 2, 2, cmd_set_ram_mmap⟩,
    ⟨"set_sparse_mem", 2, 2, cmd_set_sparse_mem⟩,
    ⟨"set_clock_divisor", 2, 2, cmd_set_clock_divisor⟩,
    ⟨"set_blk_direct_jump", 2, 2, cmd_set_blk_direct_jump⟩,
    ⟨"set_exec_area", 2, 2, cmd_set_exec_area⟩, ⟨"set_disk0", 2, 2, cmd_set_disk0⟩,
    ⟨"set_disk1", 2, 2, cmd_set_disk1⟩, ⟨"set_conf_reg", 2, 2, cmd_set_conf_reg⟩,
    ⟨"set_idle_pc", 2, 2, cmd_set_idle_pc⟩,
    ⟨"set_idle_pc_online", 3, 3, cmd_set_idle_pc_online⟩,
    ⟨"get_idle_pc_prop", 2, 2, cmd_get_idle_pc_prop⟩,
    ⟨"show_idle_pc_prop", 2, 2, cmd_show_idle_pc_prop⟩,
    ⟨"set_idle_max", 3, 3, cmd_set_idle_max⟩,
    ⟨"set_idle_sleep_time", 3, 3, cmd_set_idle_sleep_time⟩,
    ⟨"show_timer_drift", 2, 2, cmd_show_timer_drift⟩,
    ⟨"set_ghost_file", 2, 2, cmd_set_ghost_file⟩,
    ⟨"set_ghost_status", 2, 2, cmd_set_ghost_status⟩,
    ⟨"set_con_tcp_port", 2, 2, cmd_set_con_tcp_port⟩,
    ⟨"set_aux_tcp_port", 2, 2, cmd_set_aux_tcp_port⟩,
    ⟨"extract_config", 1, 1, cmd_extract_config⟩, ⟨"push_config", 2, 3, cmd_push_config⟩,
    ⟨"cpu_info", 2, 2, cmd_show_cpu_info⟩, ⟨"cpu_usage", 2, 2, cmd_show_cpu_usage⟩,
    ⟨"suspend", 1, 1, cmd_suspend⟩, ⟨"resume", 1, 1, cmd_resume⟩,
    ⟨"send_con_msg", 2, 3, cmd_send_con_msg⟩, ⟨"send_aux_msg", 2, 3, cmd_send_aux_msg⟩,
    ⟨"slot_bindings", 1, 1, cmd_slot_bindings⟩,
    ⟨"slot_nio_bindings", 2, 2, cmd_slot_nio_bindings⟩,
    ⟨"slot_add_binding", 4, 4, cmd_slot_add_binding⟩,
    ⟨"slot_remove_binding", 3, 3, cmd_slot_remove_binding⟩,
    ⟨"slot_add_nio_binding", 4, 4, cmd_slot_add_nio_binding⟩,
    ⟨"slot_remove_nio_binding", 3, 3, cmd_slot_remove_nio_binding⟩,
    ⟨"slot_enable_nio", 3, 3, cmd_slot_enable_nio⟩,
    ⟨"slot_disable_nio", 3, 3, cmd_slot_disable_nio⟩,
    ⟨"slot_oir_start", 3, 3, cmd_slot_oir_start⟩, ⟨"slot_oir_stop", 3, 3, cmd_slot_oir_stop⟩,
    ⟨"list", 0, 0, cmd_vm_list⟩, ⟨"list_con_ports", 0, 0, cmd_vm_list_con_ports⟩]

end Dynamips.HvVm
