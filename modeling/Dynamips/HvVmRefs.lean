import Dynamips.HvPlatform
import Dynamips.RegistryRun

/-! The references to VMs that the commands of the hypervisor take and give back,
and the replies that they send. -/
set_option autoImplicit false

namespace Dynamips.HvVm

open Dynamips.Hypervisor Numerals
open Registry (NodeId)

variable {δ : Type}

def Registered (h : State δ) (n : NodeId) : Prop :=
  ∃ name, h.registry.find OBJ_TYPE_VM name = some n

def refCount (h : State δ) (n : NodeId) : Int := (h.registry.nodes n).refCount

/-- Every VM that is registered afterwards has the references it had before, and
a new one none. -/
def Returned (h h' : State δ) : Prop :=
  ∀ n, Registered h' n →
    (Registered h n → refCount h' n = refCount h n) ∧ (¬ Registered h n → refCount h' n = 0)

def Replied (h h' : State δ) : Prop :=
  ∃ quiet final, h'.out = h.out ++ quiet ++ [final] ∧ final.done = true ∧
    ∀ r ∈ quiet, r.done = false

structure Entry (h : State δ) (name : String) (n : NodeId) : Prop where
  allocated : n < h.registry.next
  named : (h.registry.nodes n).name = name
  indexed : (h.registry.nodes n).indexed = name
  type : (h.registry.nodes n).objectType = OBJ_TYPE_VM
  data : (h.registry.nodes n).data = n
  idle : (h.registry.nodes n).acting = false
  counted : 0 ≤ (h.registry.nodes n).refCount
  vm : ∃ v, h.vms n = some v ∧ v.name = name

structure Wf (h : State δ) : Prop where
  initialized : h.registry.initialized = true
  entry : ∀ name n, h.registry.find OBJ_TYPE_VM name = some n → Entry h name n

section Registry

variable {r : Registry.State} {name : String} {n : NodeId}

theorem entry_of_find (hi : r.initialized = true) (hf : r.find OBJ_TYPE_VM name = some n) :
    r.entry (vmKey name) = .ok n := by
  have htype : Registry.objectType 0 = some OBJ_TYPE_VM := rfl
  simp [Registry.State.entry, vmKey, htype, hi, hf]

theorem entry_of_not_find (hi : r.initialized = true) (hf : r.find OBJ_TYPE_VM name = none) :
    r.entry (vmKey name) = .error .notFound := by
  have htype : Registry.objectType 0 = some OBJ_TYPE_VM := rfl
  simp [Registry.State.entry, vmKey, htype, hi, hf]

@[simp] theorem find_setReferences (c : Int) (t : Registry.ObjectType) :
    (r.setReferences n c).find t name = r.find t name := rfl

@[simp] theorem initialized_setReferences (c : Int) :
    (r.setReferences n c).initialized = r.initialized := rfl

theorem setReferences_setReferences (c c' : Int) :
    (r.setReferences n c).setReferences n c' = r.setReferences n c' := by
  simp [Registry.State.setReferences, Registry.State.setNode]

theorem setReferences_self : r.setReferences n (r.nodes n).refCount = r := by
  have hnode : ({ r.nodes n with refCount := (r.nodes n).refCount } : Registry.Node) = r.nodes n :=
    rfl
  simp [Registry.State.setReferences, Registry.State.setNode]

theorem nodes_setReferences (c : Int) (m : NodeId) :
    (r.setReferences n c).nodes m =
      if m = n then { r.nodes n with refCount := c } else r.nodes m := by
  simp only [Registry.State.setReferences, Registry.State.setNode, Function.update_apply]

end Registry

variable {e : Env δ} {h h₁ : State δ} {n : NodeId} {name : String}

/-- A command that did not change the registry, nor the names of the VMs -/
structure Kept (h h' : State δ) : Prop where
  registry : h'.registry = h.registry
  names : ∀ p, (h'.vms p).map Vm.name = (h.vms p).map Vm.name
  replied : Replied h h'

theorem Kept.returned {h' : State δ} (hk : Kept h h') : Returned h h' := by
  intro m hm
  have hback : Registered h m := by
    obtain ⟨name, hname⟩ := hm
    rw [hk.registry] at hname
    exact ⟨name, hname⟩
  have hcount : refCount h' m = refCount h m := by rw [refCount, hk.registry, refCount]
  exact ⟨fun _ => hcount, fun hno => absurd hback hno⟩

/-- A command that has taken a reference to the VM and has not replied yet -/
structure Held (h : State δ) (n : NodeId) (h₁ : State δ) : Prop where
  wf : Wf h
  registered : Registered h n
  registry : h₁.registry = h.registry.setReferences n (refCount h n + 1)
  names : ∀ p, (h₁.vms p).map Vm.name = (h.vms p).map Vm.name
  out : ∃ quiet, h₁.out = h.out ++ quiet ∧ ∀ r ∈ quiet, r.done = false

theorem Held.setSettings (hh : Held h n h₁) (s : Settings δ) :
    Held h n (h₁.setSettings n s) := by
  refine ⟨hh.wf, hh.registered, hh.registry, fun p => ?_, hh.out⟩
  rw [← hh.names p]
  by_cases hp : p = n
  · subst hp
    cases hv : h₁.vms p <;> simp [State.setSettings, hv]
  · simp [State.setSettings, Function.update_of_ne hp]

theorem Held.message (hh : Held h n h₁) (code : Nat) (t : String) :
    Held h n (h₁.send_reply code false t) := by
  obtain ⟨quiet, hout, hquiet⟩ := hh.out
  refine ⟨hh.wf, hh.registered, hh.registry, hh.names, quiet ++ [⟨code, false, t⟩], ?_, ?_⟩
  · simp [State.send_reply, hout]
  · intro r hr
    rw [List.mem_append, List.mem_singleton] at hr
    cases hr with
    | inl hr => exact hquiet r hr
    | inr hr => rw [hr]

theorem Held.messages (hh : Held h n h₁) (l : List String) : Held h n (send_messages h₁ l) := by
  induction l generalizing h₁ with
  | nil => exact hh
  | cons t l ih => exact ih (hh.message HSC_INFO_MSG t)

theorem vm_release_eq {v : Vm δ} (hi : h.registry.initialized = true) (hv : h.vms n = some v)
    (hf : h.registry.find OBJ_TYPE_VM v.name = some n) (hcount : 0 ≤ refCount h n) :
    h.vm_release n = { h with registry := h.registry.setReferences n (refCount h n - 1) } := by
  have hmin : (h.registry.nodes n).refCount ≠ INT_MIN := by
    rw [refCount] at hcount
    simp only [INT_MIN]
    omega
  simp only [State.vm_release, hv, State.registry_unref, entry_of_find hi hf, Registry.decrement,
    if_neg hmin, refCount]
  split <;> rfl

theorem Held.vm_release (hh : Held h n h₁) :
    h₁.vm_release n = { h₁ with registry := h.registry } := by
  obtain ⟨name, hname⟩ := hh.registered
  have hentry := hh.wf.entry name n hname
  obtain ⟨v, hv, hvname⟩ := hentry.vm
  obtain ⟨w, hw, hwname⟩ : ∃ w, h₁.vms n = some w ∧ w.name = name := by
    have hnames := hh.names n
    rw [hv, Option.map_some, Option.map_eq_some_iff] at hnames
    obtain ⟨w, hw, hwn⟩ := hnames
    exact ⟨w, hw, hwn.trans hvname⟩
  have hcount : refCount h₁ n = refCount h n + 1 := by
    rw [refCount, hh.registry, nodes_setReferences, if_pos rfl]
  have hpos : 0 ≤ refCount h₁ n := by
    have hold : 0 ≤ refCount h n := hentry.counted
    omega
  have hfind : h₁.registry.find OBJ_TYPE_VM w.name = some n := by
    rw [hh.registry, hwname]
    exact hname
  have hinit : h₁.registry.initialized = true := by
    rw [hh.registry]
    exact hh.wf.initialized
  have hback : h₁.registry.setReferences n (refCount h₁ n - 1) = h.registry := by
    rw [hcount, hh.registry, setReferences_setReferences, Int.add_sub_cancel]
    exact setReferences_self
  rw [vm_release_eq hinit hw hfind hpos, hback]

theorem Held.reply (hh : Held h n h₁) (code : Nat) (t : String) :
    Kept h ((h₁.vm_release n).send_reply code true t) := by
  obtain ⟨quiet, hquiet, hall⟩ := hh.out
  rw [hh.vm_release]
  refine ⟨rfl, hh.names, quiet, ⟨code, true, t⟩, ?_, rfl, hall⟩
  simp [State.send_reply, hquiet]

theorem kept_reply (h : State δ) (code : Nat) (t : String) : Kept h (h.send_reply code true t) :=
  ⟨rfl, fun _ => rfl, [], ⟨code, true, t⟩, by simp [State.send_reply], rfl, by simp⟩

def acquired (h : State δ) (n : NodeId) : State δ :=
  { h with registry := h.registry.setReferences n (refCount h n + 1) }

theorem held_acquired (hw : Wf h) (hf : h.registry.find OBJ_TYPE_VM name = some n) :
    Held h n (acquired h n) :=
  ⟨hw, ⟨name, hf⟩, rfl, fun _ => rfl, [], by simp [acquired], by simp⟩

theorem registry_find_cases (hw : Wf h) (name : String) :
    h.registry_find name = none ∨
    ∃ n v, h.registry_find name = some (n, acquired h n) ∧
      h.registry.find OBJ_TYPE_VM name = some n ∧ h.vms n = some v ∧ v.name = name := by
  cases hf : h.registry.find OBJ_TYPE_VM name with
  | none =>
    refine .inl ?_
    rw [State.registry_find, entry_of_not_find hw.initialized hf]
  | some n =>
    have hentry := hw.entry name n hf
    obtain ⟨v, hv, hvname⟩ := hentry.vm
    by_cases hmax : (h.registry.nodes n).refCount = INT_MAX
    · refine .inl ?_
      simp only [State.registry_find, entry_of_find hw.initialized hf, Registry.increment,
        if_pos hmax]
    · refine .inr ⟨n, v, ?_, rfl, hv, hvname⟩
      simp only [State.registry_find, entry_of_find hw.initialized hf, Registry.increment,
        if_neg hmax, hentry.data, acquired, refCount]

/-- The VM that `registry_find` gives -/
def found (h : State δ) (name : String) : Option (Vm δ) :=
  (h.registry_find name).bind fun (n, h) => h.vms n

theorem acquired_release (hh : Held h n (acquired h n)) : (acquired h n).vm_release n = h := by
  rw [hh.vm_release]
  rfl

theorem Held.not_returned {h' : State δ} (hh : Held h n h₁) (hr : h'.registry = h₁.registry) :
    ¬ Returned h h' := by
  intro hreturned
  obtain ⟨name, hname⟩ := hh.registered
  have hregistered : Registered h' n := ⟨name, by rw [hr, hh.registry]; exact hname⟩
  have hcount := (hreturned n hregistered).1 hh.registered
  rw [refCount, hr, hh.registry, nodes_setReferences, if_pos rfl] at hcount
  simp only at hcount
  omega

theorem find_object_cases (hw : Wf h) (name : String)
    (use : State δ → NodeId → Vm δ → State δ) :
    (found h name = none ∧ Kept h (h.hypervisor_find_object name use)) ∨
    ∃ n v, found h name = some v ∧ h.registry.find OBJ_TYPE_VM name = some n ∧
      v.name = name ∧ h.vms n = some v ∧ Held h n (acquired h n) ∧
      h.hypervisor_find_object name use = use (acquired h n) n v := by
  obtain hnone | ⟨n, v, hsome, hf, hv, hvname⟩ := registry_find_cases hw name
  · refine .inl ⟨by simp [found, hnone], ?_⟩
    simp only [State.hypervisor_find_object, hnone]
    exact kept_reply h _ _
  · have hacquired : (acquired h n).vms n = some v := hv
    refine .inr ⟨n, v, by simp [found, hsome, hacquired], hf, hvname, hv, held_acquired hw hf, ?_⟩
    simp only [State.hypervisor_find_object, hsome, hacquired]

theorem find_object_kept {use : State δ → NodeId → Vm δ → State δ} (hw : Wf h)
    (huse : ∀ n h₁ v, Held h n h₁ → h₁.vms n = some v → Kept h (use h₁ n v)) :
    Kept h (h.hypervisor_find_object name use) := by
  obtain ⟨-, hkept⟩ | ⟨n, v, -, -, -, hv, hheld, heq⟩ := find_object_cases hw name use
  · exact hkept
  · rw [heq]
    exact huse n _ v hheld hv

theorem find_vm_kept {use : State δ → NodeId → Vm δ → State δ} {platform : String} (hw : Wf h)
    (huse : ∀ n h₁ v, Held h n h₁ → h₁.vms n = some v → Kept h (use h₁ n v)) :
    Kept h (h.hypervisor_find_vm platform name use) := by
  obtain hnone | ⟨n, v, hsome, hf, hv, -⟩ := registry_find_cases hw name
  · simp only [State.hypervisor_find_vm, hnone]
    exact kept_reply h _ _
  · have hacquired : (acquired h n).vms n = some v := hv
    simp only [State.hypervisor_find_vm, hsome, hacquired]
    split
    · exact (held_acquired hw hf).reply _ _
    · exact huse n _ v (held_acquired hw hf) hv

end Dynamips.HvVm
