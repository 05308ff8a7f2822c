import Dynamips.CiscoCard
import Dynamips.Lib.Numerals
import Dynamips.Registry
import Dynamips.Vtty

/-! The hypervisor (hypervisor.c): its replies, the VMs and the registry that
its commands work on, and the lookup of an object. -/
set_option autoImplicit false

namespace Dynamips.Hypervisor

open Registry (NodeId increment decrement)

abbrev Byte := BitVec 8

def HSC_INFO_OK : Nat := 100

def HSC_INFO_MSG : Nat := 101

def HSC_ERR_UNK_MODULE : Nat := 201

def HSC_ERR_UNK_CMD : Nat := 202

def HSC_ERR_BAD_PARAM : Nat := 203

def HSC_ERR_INV_PARAM : Nat := 204

def HSC_ERR_BINDING : Nat := 205

def HSC_ERR_CREATE : Nat := 206

def HSC_ERR_DELETE : Nat := 207

def HSC_ERR_UNK_OBJ : Nat := 208

def HSC_ERR_START : Nat := 209

def HSC_ERR_STOP : Nat := 210

def HSC_ERR_BAD_OBJ : Nat := 212

def HSC_ERR_RENAME : Nat := 213

def HSC_ERR_NOT_FOUND : Nat := 214

def HSC_ERR_UNSPECIFIED : Nat := 215

structure Reply where
  code : Nat
  done : Bool
  text : String
deriving DecidableEq, Repr

inductive Status where
  | HALTED | SHUTDOWN | RUNNING | SUSPENDED
deriving DecidableEq, Repr

def Status.number : Status → Nat
  | HALTED => 0
  | SHUTDOWN => 1
  | RUNNING => 2
  | SUSPENDED => 3

inductive VttyType where
  | NONE | TERM | TCP | SERIAL
deriving DecidableEq, Repr

inductive CpuType where
  | MIPS64 | PPC32
deriving DecidableEq, Repr

structure Cpu where
  id : BitVec 32
  type : CpuType
  idle_pc : BitVec 64
  idle_pc_prop : List (BitVec 64 × BitVec 32)
  idle_max : BitVec 32
  idle_sleep_time : BitVec 32
  timer_drift : BitVec 32
  timer_irq_pending : BitVec 32

/-- The fields of `vm_instance_t` that a command may set or show, with those of
its platform's own data that it sets -/
structure Settings (δ : Type) where
  status : Status
  debug_level : BitVec 32
  ios_image : Option String
  ios_startup_config : Option String
  ios_private_config : Option String
  ram_size : BitVec 32
  npe400_ram_size : Option (BitVec 32)
  nvram_size : BitVec 32
  ram_mmap : BitVec 32
  sparse_mem : BitVec 32
  clock_divisor : BitVec 32
  exec_blk_direct_jump : BitVec 32
  exec_area_size : BitVec 32
  idle_pc : BitVec 64
  ghost_ram_filename : Option String
  ghost_status : BitVec 32
  pcmcia_disk0_size : BitVec 32
  pcmcia_disk1_size : BitVec 32
  conf_reg_setup : BitVec 32
  nm_iomem_size : BitVec 32
  vtty_con_type : VttyType
  vtty_con_tcp_port : BitVec 32
  vtty_aux_type : VttyType
  vtty_aux_tcp_port : BitVec 32
  vtty_con : Option Vtty.VirtualTty
  vtty_aux : Option Vtty.VirtualTty
  cpu_group : List Cpu
  mac_addr : List Byte
  ps_status : BitVec 32
  npe_type : String
  midplane_type : String
  chassis_type : String
  slots : CiscoCard.Vm δ

/-- The fields that `vm_create` sets, all others zero -/
def Settings.new (δ : Type) : Settings δ where
  status := .HALTED
  debug_level := 0
  ios_image := none
  ios_startup_config := none
  ios_private_config := none
  ram_size := 0
  npe400_ram_size := none
  nvram_size := 0
  ram_mmap := 0
  sparse_mem := 0
  clock_divisor := 0
  exec_blk_direct_jump := 1
  exec_area_size := 0
  idle_pc := 0
  ghost_ram_filename := none
  ghost_status := 0
  pcmcia_disk0_size := 0
  pcmcia_disk1_size := 0
  conf_reg_setup := 0
  nm_iomem_size := 0
  vtty_con_type := .TERM
  vtty_con_tcp_port := 0
  vtty_aux_type := .NONE
  vtty_aux_tcp_port := 0
  vtty_con := none
  vtty_aux := none
  cpu_group := []
  mac_addr := []
  ps_status := 0
  npe_type := ""
  midplane_type := ""
  chassis_type := ""
  slots := CiscoCard.Vm.empty 0 .UNDEF [] []

structure Vm (δ : Type) where
  name : String
  instance_id : BitVec 32
  platform : String
  settings : Settings δ

/-- The hypervisor as one command finds it. A VM is at the address that its
node in the registry has, none once it was freed; `nios` are the reference
counts of the NIOs, and `out` the replies so far. -/
structure State (δ : Type) where
  registry : Registry.State
  vms : NodeId → Option (Vm δ)
  nios : String → Option Nat
  out : List Reply

theorem objTypeVm_lt : 0 < Registry.REGISTRY_MAX_TYPES := by decide

def OBJ_TYPE_VM : Registry.ObjectType := ⟨0, objTypeVm_lt⟩

def vmKey (name : String) : Registry.Key := ⟨some name, 0⟩

variable {δ : Type}

namespace State

variable (h : State δ)

def send_reply (code : Nat) (done : Bool) (text : String) : State δ :=
  { h with out := h.out ++ [⟨code, done, text⟩] }

/-- `registry_find` for a VM -/
def registry_find (name : String) : Option (NodeId × State δ) :=
  match h.registry.entry (vmKey name) with
  | .error _ => none
  | .ok n =>
    match increment h.registry n with
    | (_, .error _) => none
    | (registry, .ok ()) => some ((h.registry.nodes n).data, { h with registry })

/-- `registry_exists` for a VM -/
def registry_exists (name : String) : Bool :=
  match h.registry.entry (vmKey name) with
  | .error _ => false
  | .ok _ => true

/-- `registry_unref` for a VM -/
def registry_unref (name : String) : State δ :=
  match h.registry.entry (vmKey name) with
  | .error _ => h
  | .ok n => { h with registry := (decrement h.registry n).1 }

def vm_release (vm : NodeId) : State δ :=
  match h.vms vm with
  | none => h
  | some v => h.registry_unref v.name

def setVm (vm : NodeId) (v : Vm δ) : State δ :=
  { h with vms := Function.update h.vms vm (some v) }

def setSettings (vm : NodeId) (settings : Settings δ) : State δ :=
  { h with vms := Function.update h.vms vm ((h.vms vm).map fun v => { v with settings }) }

/-- `hypervisor_find_object` for a VM, and what the caller does with the VM.
A caller that were given a VM that was freed is undefined, and stops here. -/
def hypervisor_find_object (name : String) (use : State δ → NodeId → Vm δ → State δ) :
    State δ :=
  match h.registry_find name with
  | none => h.send_reply HSC_ERR_UNK_OBJ true ("unable to find object '" ++ name ++ "'")
  | some (vm, h) =>
    match h.vms vm with
    | none => h
    | some v => use h vm v

/-- `hypervisor_find_vm`, for a command of the module of `platform` -/
def hypervisor_find_vm (platform name : String)
    (use : State δ → NodeId → Vm δ → State δ) : State δ :=
  match h.registry_find name with
  | none => h.send_reply HSC_ERR_UNK_OBJ true ("unable to find VM '" ++ name ++ "'")
  | some (vm, h) =>
    match h.vms vm with
    | none => h
    | some v =>
      if v.platform ≠ platform then
        (h.vm_release vm).send_reply HSC_ERR_BAD_OBJ true
          ("VM '" ++ name ++ "' is not a VM type " ++ platform)
      else use h vm v

/-- The entries that `registry_foreach_type` shows for the VMs, with the VM of each -/
def vmEntries : List (String × Option (Vm δ)) :=
  ((h.registry.types OBJ_TYPE_VM).newest.filterMap fun n =>
    h.registry.find OBJ_TYPE_VM (h.registry.nodes n).indexed).map
      fun n => ((h.registry.nodes n).name, h.vms (h.registry.nodes n).data)

end State

end Dynamips.Hypervisor
