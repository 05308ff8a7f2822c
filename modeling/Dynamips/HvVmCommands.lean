import Dynamips.HvVmRun

/-! The commands of the modules that work on VMs: each gives back its references
and sends one final reply, but for some that can go wrong. -/
set_option autoImplicit false

namespace Dynamips.HvVm

open Dynamips.Hypervisor Numerals
open Registry (NodeId)

variable {δ : Type} {e : Env δ} {h h₁ : State δ} {n : NodeId} {argv : List String}

/-! The entries of the registry stay as they are between two commands. -/

theorem Kept.wf {h' : State δ} (hw : Wf h) (hk : Kept h h') : Wf h' := by
  refine ⟨by rw [hk.registry, hw.initialized], fun m k hf => ?_⟩
  rw [hk.registry] at hf
  obtain ⟨hallocated, hnamed, hindexed, htype, hdata, hidle, hcounted, v, hv, hvname⟩ :=
    hw.entry m k hf
  have hnames := hk.names k
  rw [hv, Option.map_some, Option.map_eq_some_iff] at hnames
  obtain ⟨w, hw', hwname⟩ := hnames
  rw [← hk.registry] at hallocated hnamed hindexed htype hdata hidle hcounted
  exact ⟨hallocated, hnamed, hindexed, htype, hdata, hidle, hcounted, w, hw',
    hwname.trans hvname⟩

theorem Held.wf_held (hh : Held h n h₁) : Wf h₁ := by
  refine ⟨by rw [hh.registry]; exact hh.wf.initialized, fun m k hf => ?_⟩
  rw [hh.registry] at hf
  obtain ⟨hallocated, hnamed, hindexed, htype, hdata, hidle, hcounted, v, hv, hvname⟩ :=
    hh.wf.entry m k hf
  have hnames := hh.names k
  rw [hv, Option.map_some, Option.map_eq_some_iff] at hnames
  obtain ⟨w, hw', hwname⟩ := hnames
  have hvm : ∃ v, h₁.vms k = some v ∧ v.name = m := ⟨w, hw', hwname.trans hvname⟩
  have hnode : h₁.registry.nodes k = if k = n then
      { h.registry.nodes n with refCount := refCount h n + 1 } else h.registry.nodes k := by
    rw [hh.registry, nodes_setReferences]
  have hnext : h₁.registry.next = h.registry.next := by
    rw [hh.registry]
    rfl
  by_cases hk : k = n
  · subst hk
    rw [if_pos rfl] at hnode
    refine ⟨by rw [hnext]; exact hallocated, by rw [hnode]; exact hnamed,
      by rw [hnode]; exact hindexed, by rw [hnode]; exact htype, by rw [hnode]; exact hdata,
      by rw [hnode]; exact hidle, ?_, hvm⟩
    rw [hnode]
    have hold : 0 ≤ refCount h k := hcounted
    simp only
    omega
  · rw [if_neg hk] at hnode
    exact ⟨by rw [hnext]; exact hallocated, by rw [hnode]; exact hnamed,
      by rw [hnode]; exact hindexed, by rw [hnode]; exact htype, by rw [hnode]; exact hdata,
      by rw [hnode]; exact hidle, by rw [hnode]; exact hcounted, hvm⟩

theorem wf_reply (hw : Wf h) (code : Nat) (t : String) : Wf (h.send_reply code true t) :=
  ⟨hw.initialized, fun m k hf => by
    obtain ⟨hallocated, hnamed, hindexed, htype, hdata, hidle, hcounted, hvm⟩ := hw.entry m k hf
    exact ⟨hallocated, hnamed, hindexed, htype, hdata, hidle, hcounted, hvm⟩⟩

theorem find_object_wf {name : String} {use : State δ → NodeId → Vm δ → State δ} (hw : Wf h)
    (huse : ∀ n v, v.name = name → h.registry.find OBJ_TYPE_VM name = some n →
      Held h n (acquired h n) → Wf (use (acquired h n) n v)) :
    Wf (h.hypervisor_find_object name use) := by
  obtain ⟨-, hkept⟩ | ⟨n, v, -, hf, hname, -, hh, heq⟩ := find_object_cases hw name use
  · exact hkept.wf hw
  · rw [heq]
    exact huse n v hname hf hh

theorem cmd_show_cpu_usage_wf (hw : Wf h) : Wf (cmd_show_cpu_usage e h argv) := by
  refine find_object_wf hw fun n v _ _ hh => ?_
  split
  · exact hh.wf_held
  · exact ((hh.message _ _).reply _ _).wf hw

theorem cmd_send_msg_wf (vtty : Settings δ → Option Vtty.VirtualTty)
    (set : Settings δ → Option Vtty.VirtualTty → Settings δ) (hw : Wf h) :
    Wf (cmd_send_msg vtty set e h argv) := by
  refine find_object_wf hw fun n v _ _ hh => ?_
  generalize (if argv.length > 2 then arg argv 2 else "plain") = format
  dsimp only
  split
  · exact (hh.sent set v _).wf hw
  split
  · split
    · exact wf_reply hh.wf_held _ _
    · split
      · exact hh.wf_held
      · exact (hh.sent set v _).wf hw
  · exact (hh.sent set v _).wf hw

theorem cmd_push_config_wf (hw : Wf h) : Wf (cmd_push_config e h argv) := by
  refine find_object_wf hw fun n v _ _ hh => ?_
  dsimp only
  split
  · exact (hh.reply _ _).wf hw
  split
  · exact hh.wf_held
  · exact (hh.reply _ _).wf hw
  split
  · exact hh.wf_held
  · exact (hh.reply _ _).wf hw
  split
  · exact ((hh.setSettings _).reply _ _).wf hw
  · exact ((hh.setSettings _).reply _ _).wf hw

theorem cmd_rename_wf (hw : Wf h) : Wf (cmd_rename e h argv) := by
  refine find_object_wf hw fun n v hname hf hh => ?_
  simp only [registry_exists_acquired hw]
  cases hnew : h.registry.find OBJ_TYPE_VM (arg argv 1) with
  | some k => exact (hh.reply _ _).wf hw
  | none =>
    obtain ⟨hok, hrename⟩ | ⟨-, hfail⟩ := rename_instance_cases (e := e) hw hname hf hnew
    · simp only [hrename, Option.isSome_none, Bool.false_eq_true, if_false]
      rw [underNewName_release hw hf]
      exact wf_reply (renamed_spec hw hf).1 _ _
    · simp only [hfail, Option.isSome_none, Bool.false_eq_true, if_false]
      exact wf_reply hh.wf_held _ _

theorem cmd_create_wf (hw : Wf h) (hno : ¬ LeftBehind e h argv) : Wf (cmd_create e h argv) := by
  obtain ⟨-, t, heq⟩ | ⟨hleft, -⟩ | ⟨-, v, t, heq⟩ :=
    cmd_create_cases e argv hw
  · rw [heq]
    exact wf_reply hw _ _
  · exact absurd hleft hno
  · rw [heq]
    exact wf_reply (created_spec hw v).1 _ _

theorem cmd_delete_wf (hw : Wf h) : Wf (cmd_delete e h argv) := by
  obtain ⟨hwf, -, -⟩ := vm_delete_instance_spec (e := e) hw (arg argv 0)
  simp only [cmd_delete]
  split
  · exact wf_reply hwf _ _
  · exact wf_reply hwf _ _

theorem cmd_clean_delete_wf (hw : Wf h) : Wf (cmd_clean_delete e h argv) := by
  obtain ⟨hwf, -, -⟩ := vm_delete_instance_spec (e := e) hw (arg argv 0)
  refine find_object_wf hw fun n v _ _ hh => ?_
  simp only [acquired_release hh]
  split
  · exact wf_reply hwf _ _
  · exact wf_reply hwf _ _

/-! All the commands -/

def Fault (e : Env δ) (h : State δ) (cmd_name : String) (argv : List String) : Prop :=
  cmd_name = "create" ∧ LeftBehind e h argv ∨
  ∃ v, found h (arg argv 0) = some v ∧
    (cmd_name = "rename" ∧ h.registry.find OBJ_TYPE_VM (arg argv 1) = none ∧ ¬ Renamable e v ∨
      cmd_name = "cpu_usage" ∧ e.get_cpu_time = none ∨
      (cmd_name = "send_con_msg" ∨ cmd_name = "send_aux_msg") ∧ Undecodable e argv ∨
      cmd_name = "push_config" ∧ Unpushable e v argv)

/-- The commands of the module vm that are balanced unless there is such a fault -/
def faulty : List String :=
  ["create", "rename", "cpu_usage", "send_con_msg", "send_aux_msg", "push_config"]

theorem not_fault {cmd_name : String} (hc : cmd_name ∉ faulty) : ¬ Fault e h cmd_name argv := by
  simp only [faulty, List.mem_cons, List.not_mem_nil, or_false, not_or] at hc
  obtain ⟨hcreate, hrename, husage, hcon, haux, hpush⟩ := hc
  simp [Fault, hcreate, hrename, husage, hcon, haux, hpush]

/-- The command is balanced unless there is a fault, and leaves the entries of the
registry well formed unless it leaves one behind. -/
def Checked (c : Command δ) : Prop :=
  ∀ e h argv, Wf h → (Balanced h (c.handler e h argv) ↔ ¬ Fault e h c.name argv) ∧
    (¬ (c.name = "create" ∧ LeftBehind e h argv) → Wf (c.handler e h argv))

theorem checked_of_keeps {name : String} {low high : Nat} {f : Handler δ} (hc : name ∉ faulty)
    (hk : Keeps f) : Checked ⟨name, low, high, f⟩ := fun e h argv hw =>
  ⟨iff_of_true (hk e h argv hw).balanced (not_fault hc), fun _ => (hk e h argv hw).wf hw⟩

theorem checked_delete : Checked (δ := δ) ⟨"delete", 1, 1, cmd_delete⟩ := by
  have hc : "delete" ∉ faulty := by decide
  intro e h argv hw
  exact ⟨iff_of_true (cmd_delete_balanced hw) (not_fault hc), fun _ => cmd_delete_wf hw⟩

theorem checked_clean_delete : Checked (δ := δ) ⟨"clean_delete", 1, 1, cmd_clean_delete⟩ := by
  have hc : "clean_delete" ∉ faulty := by decide
  intro e h argv hw
  exact ⟨iff_of_true (cmd_clean_delete_balanced hw) (not_fault hc),
    fun _ => cmd_clean_delete_wf hw⟩

theorem checked_create : Checked (δ := δ) ⟨"create", 3, 3, cmd_create⟩ := by
  intro e h argv hw
  rw [cmd_create_iff hw]
  exact ⟨by simp [Fault], fun hno => cmd_create_wf hw fun hleft => hno ⟨rfl, hleft⟩⟩

theorem checked_rename : Checked (δ := δ) ⟨"rename", 2, 2, cmd_rename⟩ := by
  intro e h argv hw
  rw [cmd_rename_iff hw]
  exact ⟨by simp [Fault], fun _ => cmd_rename_wf hw⟩

theorem checked_cpu_usage : Checked (δ := δ) ⟨"cpu_usage", 2, 2, cmd_show_cpu_usage⟩ := by
  intro e h argv hw
  rw [cmd_show_cpu_usage_iff hw]
  exact ⟨by simp [Fault], fun _ => cmd_show_cpu_usage_wf hw⟩

theorem checked_send_con_msg : Checked (δ := δ) ⟨"send_con_msg", 2, 3, cmd_send_con_msg⟩ := by
  intro e h argv hw
  rw [cmd_send_con_msg, cmd_send_msg_iff _ _ hw]
  exact ⟨by simp [Fault], fun _ => cmd_send_msg_wf _ _ hw⟩

theorem checked_send_aux_msg : Checked (δ := δ) ⟨"send_aux_msg", 2, 3, cmd_send_aux_msg⟩ := by
  intro e h argv hw
  rw [cmd_send_aux_msg, cmd_send_msg_iff _ _ hw]
  exact ⟨by simp [Fault], fun _ => cmd_send_msg_wf _ _ hw⟩

theorem checked_push_config : Checked (δ := δ) ⟨"push_config", 2, 3, cmd_push_config⟩ := by
  intro e h argv hw
  rw [cmd_push_config_iff hw]
  exact ⟨by simp [Fault], fun _ => cmd_push_config_wf hw⟩

theorem vm_cmd_array_checked : ∀ c ∈ vm_cmd_array (δ := δ), Checked c := by
  simp only [vm_cmd_array, List.forall_mem_cons, List.not_mem_nil, false_implies, implies_true,
    and_true]
  exact ⟨checked_create,
    checked_rename,
    checked_delete,
    checked_clean_delete,
    checked_of_keeps (by decide) cmd_start_keeps,
    checked_of_keeps (by decide) (cmd_call_keeps _ _ _ _),
    checked_of_keeps (by decide) (cmd_set_keeps _ _),
    checked_of_keeps (by decide) (cmd_set_keeps _ _),
    checked_of_keeps (by decide) (cmd_call_keeps _ _ _ _),
    checked_of_keeps (by decide) (cmd_call_keeps _ _ _ _),
    checked_of_keeps (by decide) (cmd_set_keeps _ _),
    checked_of_keeps (by decide) (cmd_set_keeps _ _),
    checked_of_keeps (by decide) (cmd_set_keeps _ _),
    checked_of_keeps (by decide) (cmd_set_keeps _ _),
    checked_of_keeps (by decide) (cmd_set_keeps _ _),
    checked_of_keeps (by decide) (cmd_set_keeps _ _),
    checked_of_keeps (by decide) (cmd_set_keeps _ _),
    checked_of_keeps (by decide) (cmd_set_keeps _ _),
    checked_of_keeps (by decide) (cmd_set_keeps _ _),
    checked_of_keeps (by decide) (cmd_set_keeps _ _),
    checked_of_keeps (by decide) (cmd_set_keeps _ _),
    checked_of_keeps (by decide) (cmd_cpu_keeps _ _),
    checked_of_keeps (by decide) (cmd_cpu_keeps _ _),
    checked_of_keeps (by decide) (cmd_cpu_keeps _ _),
    checked_of_keeps (by decide) (cmd_cpu_keeps _ _),
    checked_of_keeps (by decide) (cmd_cpu_keeps _ _),
    checked_of_keeps (by decide) (cmd_cpu_keeps _ _),
    checked_of_keeps (by decide) (cmd_set_keeps _ _),
    checked_of_keeps (by decide) (cmd_set_keeps _ _),
    checked_of_keeps (by decide) (cmd_set_keeps _ _),
    checked_of_keeps (by decide) (cmd_set_keeps _ _),
    checked_of_keeps (by decide) cmd_extract_config_keeps,
    checked_push_config,
    checked_of_keeps (by decide) (cmd_set_keeps _ _),
    checked_cpu_usage,
    checked_of_keeps (by decide) (cmd_set_keeps _ _),
    checked_of_keeps (by decide) (cmd_set_keeps _ _),
    checked_send_con_msg,
    checked_send_aux_msg,
    checked_of_keeps (by decide) (cmd_show_keeps _),
    checked_of_keeps (by decide) (cmd_show_keeps _),
    checked_of_keeps (by decide) (cmd_slot_keeps _ _ _),
    checked_of_keeps (by decide) (cmd_slot_keeps _ _ _),
    checked_of_keeps (by decide) (cmd_slot_keeps _ _ _),
    checked_of_keeps (by decide) (cmd_slot_keeps _ _ _),
    checked_of_keeps (by decide) (cmd_slot_keeps _ _ _),
    checked_of_keeps (by decide) (cmd_slot_keeps _ _ _),
    checked_of_keeps (by decide) (cmd_slot_oir_keeps _ _),
    checked_of_keeps (by decide) (cmd_slot_oir_keeps _ _),
    checked_of_keeps (by decide) (cmd_list_keeps _),
    checked_of_keeps (by decide) (cmd_list_keeps _)⟩

theorem common_cmd_array_keeps (platform : String) :
    ∀ c ∈ common_cmd_array (δ := δ) platform, Keeps c.handler := by
  simp only [common_cmd_array, List.forall_mem_cons, List.not_mem_nil, false_implies,
    implies_true, and_true]
  exact ⟨cmd_get_mac_addr_keeps _, cmd_platform_call_keeps _ _ _, cmd_platform_call_keeps _ _ _,
    cmd_platform_set_keeps _ _, cmd_list_keeps _⟩

theorem iomem_cmd_array_keeps (platform : String) :
    ∀ c ∈ iomem_cmd_array (δ := δ) platform, Keeps c.handler := by
  simp only [iomem_cmd_array, List.forall_mem_cons]
  exact ⟨cmd_platform_set_keeps _ _, common_cmd_array_keeps platform⟩

theorem chassis_cmd_array_keeps (platform : String) :
    ∀ c ∈ chassis_cmd_array (δ := δ) platform, Keeps c.handler := by
  simp only [chassis_cmd_array, List.forall_mem_cons]
  exact ⟨cmd_platform_call_keeps _ _ _, iomem_cmd_array_keeps platform⟩

theorem c7200_cmd_array_keeps : ∀ c ∈ c7200_cmd_array (δ := δ), Keeps c.handler := by
  simp only [c7200_cmd_array, List.forall_mem_append, List.forall_mem_cons, List.not_mem_nil,
    false_implies, implies_true, and_true]
  exact ⟨⟨cmd_platform_call_keeps _ _ _, cmd_platform_call_keeps _ _ _,
    cmd_platform_set_keeps _ _, cmd_platform_set_keeps _ _⟩, common_cmd_array_keeps _⟩

theorem vm_debug_cmd_array_keeps : ∀ c ∈ vm_debug_cmd_array (δ := δ), Keeps c.handler := by
  simp only [vm_debug_cmd_array, List.forall_mem_cons, List.not_mem_nil, false_implies,
    implies_true, and_true]
  exact ⟨cmd_set_keeps _ _, cmd_set_keeps _ _, cmd_debug_cpu_keeps _ _ _,
    cmd_debug_cpu_keeps _ _ _, cmd_debug_cpu_keeps _ _ _, cmd_pmem_w_keeps _, cmd_pmem_r_keeps _,
    cmd_pmem_w_keeps _, cmd_pmem_r_keeps _, cmd_pmem_cfind_keeps⟩

theorem modules_keep : ∀ m ∈ modules (δ := δ), m.1 ≠ "vm" → ∀ c ∈ m.2, Keeps c.handler := by
  simp only [modules, List.forall_mem_cons, List.not_mem_nil, false_implies, implies_true,
    and_true, ne_eq, not_true_eq_false, true_and]
  exact ⟨fun _ => vm_debug_cmd_array_keeps, fun _ => c7200_cmd_array_keeps,
    fun _ => chassis_cmd_array_keeps _, fun _ => chassis_cmd_array_keeps _,
    fun _ => chassis_cmd_array_keeps _, fun _ => iomem_cmd_array_keeps _,
    fun _ => iomem_cmd_array_keeps _, fun _ => iomem_cmd_array_keeps _⟩

def Faulted (e : Env δ) (h : State δ) (mod_name cmd_name : String) (argv : List String) : Prop :=
  mod_name = "vm" ∧
    (∃ c, (vm_cmd_array (δ := δ)).find? (fun c => c.name = cmd_name) = some c ∧
      c.min_param ≤ argv.length ∧ argv.length ≤ c.max_param) ∧
    Fault e h cmd_name argv

theorem find_vm_module :
    (modules (δ := δ)).find? (fun m => m.1 = "vm") = some ("vm", vm_cmd_array) := rfl

theorem exec_cases (e : Env δ) (argv : List String) (hw : Wf h) (mod_name cmd_name : String) :
    (¬ Faulted e h mod_name cmd_name argv ∧
      Kept h (hypervisor_exec_cmd e h mod_name cmd_name argv)) ∨
    ∃ c, Checked c ∧ mod_name = "vm" ∧ c.name = cmd_name ∧
      (Faulted e h mod_name cmd_name argv ↔ Fault e h cmd_name argv) ∧
      hypervisor_exec_cmd e h mod_name cmd_name argv = c.handler e h argv := by
  rw [hypervisor_exec_cmd, Faulted]
  by_cases hmod : mod_name = "vm"
  · subst hmod
    simp only [find_vm_module, true_and]
    cases hc : (vm_cmd_array (δ := δ)).find? fun c => c.name = cmd_name with
    | none =>
      simp only [reduceCtorEq, false_and, exists_false, not_false_eq_true, true_and]
      exact .inl (kept_reply h _ _)
    | some c =>
      have hname : c.name = cmd_name := by simpa using List.find?_some hc
      simp only [Option.some.injEq, exists_eq_left']
      by_cases hcount : argv.length < c.min_param ∨ c.max_param < argv.length
      · have hno : ¬ (c.min_param ≤ argv.length ∧ argv.length ≤ c.max_param) := by omega
        simp only [hno, false_and, not_false_eq_true, true_and, if_pos hcount]
        exact .inl (kept_reply h _ _)
      · have hyes : c.min_param ≤ argv.length ∧ argv.length ≤ c.max_param := by omega
        simp only [hyes, and_self, true_and, if_neg hcount]
        exact .inr ⟨c, vm_cmd_array_checked c (List.mem_of_find?_eq_some hc), hname, rfl⟩
  · simp only [hmod, false_and, not_false_eq_true, true_and]
    refine .inl ?_
    split
    · exact kept_reply h _ _
    · rename_i name commands hsome
      have hname : name = mod_name := by simpa using List.find?_some hsome
      subst hname
      split
      · exact kept_reply h _ _
      · rename_i c hc
        have hkeeps := modules_keep _ (List.mem_of_find?_eq_some hsome) hmod c
          (List.mem_of_find?_eq_some hc)
        split
        · exact kept_reply h _ _
        · exact hkeeps e h argv hw

def State.initial : State δ where
  registry := { Registry.Config.initial.registry with initialized := true }
  vms := fun _ => none
  nios := fun _ => none
  out := []

theorem wf_initial : Wf (State.initial : State δ) :=
  ⟨rfl, fun _ _ hf => by cases hf⟩

theorem commands_balanced (hw : Wf h) (mod_name cmd_name : String) :
    Balanced h (hypervisor_exec_cmd e h mod_name cmd_name argv) ↔
      ¬ Faulted e h mod_name cmd_name argv := by
  obtain ⟨hno, hk⟩ | ⟨c, hc, -, hname, hiff, heq⟩ :=
    exec_cases e argv hw mod_name cmd_name
  · exact iff_of_true hk.balanced hno
  · rw [heq, hiff, ← hname]
    exact (hc e h argv hw).1

def goodHost : Env Unit where
  platforms := ["c7200"]
  vm_file_naming_type := 0
  drivers := ⟨fun _ => "", fun _ => 0, fun _ => none⟩
  memory := fun _ => true
  registry_memory := .available
  vm_create := true
  vm_get_lock := true
  get_cpu_time := some 0
  nio_driver := true
  create_instance := fun v => some v.settings
  delete_instance := fun _ => true
  init_instance := fun v => (true, v.settings)
  stop_instance := fun v => (true, v.settings)
  oir_start := fun v _ _ => (true, v.settings)
  oir_stop := fun v _ _ => (true, v.settings)
  nvram_extract_config := fun _ => none
  nvram_push_config := fun _ => none
  get_idling_pc := id
  reg_set := fun v _ _ _ => v.settings
  breakpoint := fun v _ _ _ => v.settings
  physmem_copy_to_vm := fun v _ _ _ => v.settings
  physmem_copy_from_vm := fun _ _ _ => 0
  physmem_cfind := fun _ _ _ _ => none
  hex_decode := fun _ _ => []
  platform_set := fun _ v _ => (true, v.settings)
  set_temp := fun v _ _ => v.settings

def running : State Unit :=
  created State.initial ⟨"R1", 0, "c7200", { Settings.new Unit with status := .RUNNING }⟩

theorem commands_balanced_status :
    Wf running ∧ Balanced running (hypervisor_exec_cmd goodHost running "vm" "get_status" ["R1"]) := by
  have hw : Wf running := (created_spec wf_initial _).1
  have hno : ¬ Faulted goodHost running "vm" "get_status" ["R1"] :=
    fun hfault => not_fault (by decide) hfault.2.2
  exact ⟨hw, (commands_balanced hw "vm" "get_status").mpr hno⟩

/-- A VM that runs cannot be renamed, and keeps the reference. -/
theorem not_commands_balanced :
    ¬ ∀ (e : Env Unit) (h : State Unit) (mod_name cmd_name : String) (argv : List String),
      Wf h → Balanced h (hypervisor_exec_cmd e h mod_name cmd_name argv) := by
  intro hall
  have hw : Wf running := (created_spec wf_initial _).1
  have hb : Balanced running (cmd_rename goodHost running ["R1", "R2"]) :=
    hall goodHost running "vm" "rename" ["R1", "R2"] hw
  have hok := (cmd_rename_iff hw).mp hb _ rfl rfl
  exact absurd hok.1 (by decide)

/-! Sessions -/

/-- A command of a client, and what the host does when it is executed -/
structure Request (δ : Type) where
  env : Env δ
  mod_name : String
  cmd_name : String
  argv : List String

def Request.exec (h : State δ) (r : Request δ) : State δ :=
  hypervisor_exec_cmd r.env h r.mod_name r.cmd_name r.argv

def finals (h : State δ) : Nat := h.out.countP Hypervisor.Reply.done

theorem exec_step {r : Request δ} (hw : Wf h)
    (hno : ¬ Faulted r.env h r.mod_name r.cmd_name r.argv) :
    Wf (r.exec h) ∧ Balanced h (r.exec h) := by
  obtain ⟨-, hk⟩ | ⟨c, hc, -, hname, hiff, heq⟩ :=
    exec_cases r.env r.argv hw r.mod_name r.cmd_name
  · exact ⟨hk.wf hw, hk.balanced⟩
  · rw [hiff, ← hname] at hno
    rw [Request.exec, heq]
    exact ⟨(hc r.env h r.argv hw).2 fun hleft => hno (.inl hleft),
      (hc r.env h r.argv hw).1.mpr hno⟩

end Dynamips.HvVm
