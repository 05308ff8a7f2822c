import Dynamips.HvVmKept

/-! When a command on a VM gives back its references and sends one final reply. -/
set_option autoImplicit false

namespace Dynamips.HvVm

open Dynamips.Hypervisor Numerals
open Registry (NodeId)

variable {δ : Type} {e : Env δ} {h h₁ : State δ} {n : NodeId} {argv : List String}

/-- The command gives back its references and sends one final reply. -/
def Balanced (h h' : State δ) : Prop := Returned h h' ∧ Replied h h'

theorem Kept.balanced {h' : State δ} (hk : Kept h h') : Balanced h h' := ⟨hk.returned, hk.replied⟩

theorem not_replied {h' : State δ} (hout : h'.out = h.out) : ¬ Replied h h' := by
  rintro ⟨quiet, final, heq, -, -⟩
  have hlen := congrArg List.length (hout.symm.trans heq)
  simp at hlen

theorem find_object_iff {name : String} {use : State δ → NodeId → Vm δ → State δ}
    {p : Vm δ → Prop} (hw : Wf h)
    (huse : ∀ n v, v.name = name → h.registry.find OBJ_TYPE_VM name = some n →
      Held h n (acquired h n) → (Balanced h (use (acquired h n) n v) ↔ p v)) :
    Balanced h (h.hypervisor_find_object name use) ↔ ∀ v, found h name = some v → p v := by
  obtain ⟨hnone, hkept⟩ | ⟨n, v, hfound, hf, hname, -, hh, heq⟩ := find_object_cases hw name use
  · simp only [hnone, reduceCtorEq, false_implies, implies_true, iff_true]
    exact hkept.balanced
  · rw [heq, hfound, huse n v hname hf hh]
    simp

theorem cmd_show_cpu_usage_iff (hw : Wf h) :
    Balanced h (cmd_show_cpu_usage e h argv) ↔
      ∀ v, found h (arg argv 0) = some v → e.get_cpu_time ≠ none := by
  refine find_object_iff hw fun n v _ _ hh => ?_
  cases e.get_cpu_time with
  | none =>
    simp only [ne_eq, not_true_eq_false, iff_false]
    exact fun hb => not_replied rfl hb.2
  | some usage =>
    simp only [ne_eq, reduceCtorEq, not_false_eq_true, iff_true]
    exact ((hh.message _ _).reply _ _).balanced

/-! The messages to the console and to the AUX port, and the configurations -/

/-- The decoder of base64 takes the buffer for `size` bytes to be larger than it is. -/
def Overflows (s : String) (size : BitVec 32) : Prop :=
  0 ≤ size.toInt ∧ size.toNat + 1 < Base64.capacity (bytes s ++ [0]) size

theorem base64Decode_eq_none (s : String) (size : BitVec 32) :
    Base64.base64Decode (List.replicate (size.toNat + 1) 0) (bytes s ++ [0]) size = none ↔
      Overflows s size := by
  by_cases hneg : size.toInt < 0
  · simp [Base64.base64Decode, hneg, Overflows]
  · have hpos : 0 ≤ size.toInt := by omega
    by_cases hfit : Base64.capacity (bytes s ++ [0]) size ≤ size.toNat + 1
    · have hlen : Base64.capacity (bytes s ++ [0]) size ≤
          (List.replicate (size.toNat + 1) (0 : Byte)).length := by simpa using hfit
      have hsome : Base64.base64Decode (List.replicate (size.toNat + 1) 0) (bytes s ++ [0]) size ≠
          none := by
        by_cases hx : ∃ x, Base64.encodeText x = Base64.payload (bytes s ++ [0])
        · obtain ⟨x, hx⟩ := hx
          rw [Base64.base64Decode_encoding hpos hlen hx]
          simp
        · obtain ⟨out, hout, -⟩ := Base64.base64Decode_refused hpos hlen hx
          rw [hout]
          simp
      simp only [hsome, Overflows, false_iff]
      omega
    · have hspan : Base64.span (List.replicate (size.toNat + 1) (0 : Byte))
          (Base64.capacity (bytes s ++ [0]) size) = none := by
        rw [Base64.span, List.length_replicate, if_neg hfit]
      simp only [Base64.base64Decode, if_neg hneg, hspan, Option.bind_none, true_iff, Overflows]
      omega

theorem Held.sent (hh : Held h n h₁) (set : Settings δ → Option Vtty.VirtualTty → Settings δ)
    (v : Vm δ) (result : Option Vtty.VirtualTty × Int) : Kept h (sent set h₁ n v result) := by
  rw [HvVm.sent]
  split
  · exact (hh.setSettings _).reply _ _
  · exact (hh.setSettings _).reply _ _

/-- The size that a message has as an `int` -/
def messageSize (s : String) : BitVec 32 := BitVec.ofNat 32 (bytes s).length

/-- A message in base64 for which there is no memory, or too little -/
def Undecodable (e : Env δ) (argv : List String) : Prop :=
  argv.length > 2 ∧ arg argv 2 = "base64" ∧ 0 ≤ (messageSize (arg argv 1)).toInt ∧
    (e.memory 0 = true → Overflows (arg argv 1) (messageSize (arg argv 1)))

theorem cmd_send_msg_iff (vtty : Settings δ → Option Vtty.VirtualTty)
    (set : Settings δ → Option Vtty.VirtualTty → Settings δ) (hw : Wf h) :
    Balanced h (cmd_send_msg vtty set e h argv) ↔
      ∀ v, found h (arg argv 0) = some v → ¬ Undecodable e argv := by
  refine find_object_iff hw fun n v _ _ hh => ?_
  have hsize : BitVec.ofNat 32 (bytes (arg argv 1)).length = messageSize (arg argv 1) := rfl
  by_cases hbase : argv.length > 2 ∧ arg argv 2 = "base64" ∧ 0 ≤ (messageSize (arg argv 1)).toInt
  · obtain ⟨hlen, hformat, hpos⟩ := hbase
    have hdecode := base64Decode_eq_none (arg argv 1) (messageSize (arg argv 1))
    simp only [hformat, hsize, hpos, Undecodable, hlen, true_and, ← hdecode, String.reduceEq,
      if_false, and_true, if_true]
    cases hmem : e.memory 0 with
    | false =>
      simp only [Bool.false_eq_true, not_false_eq_true, if_true, false_implies, not_true_eq_false,
        iff_false]
      exact fun hb => hh.not_returned rfl hb.1
    | true =>
      simp only [not_true_eq_false, if_false, true_implies]
      split
      · rename_i hnone
        simp only [hnone, not_true_eq_false, iff_false]
        exact fun hb => not_replied rfl hb.2
      · rename_i hsome
        simp only [hsome, reduceCtorEq, not_false_eq_true, iff_true]
        exact (hh.sent set v _).balanced
  · have hno : ¬ Undecodable e argv := fun hu => hbase ⟨hu.1, hu.2.1, hu.2.2.1⟩
    simp only [hno, not_false_eq_true, iff_true]
    generalize hformat : (if argv.length > 2 then arg argv 2 else "plain") = format
    have hother : ¬ (format = "base64" ∧ 0 ≤ (messageSize (arg argv 1)).toInt) := by
      rintro ⟨heq, hpos⟩
      by_cases hlen : argv.length > 2
      · rw [if_pos hlen] at hformat
        exact hbase ⟨hlen, hformat.trans heq, hpos⟩
      · rw [if_neg hlen, heq] at hformat
        exact absurd hformat (by decide)
    rw [hsize, if_neg hother]
    split
    · exact (hh.sent set v _).balanced
    · exact (hh.sent set v _).balanced

/-- An argument of `push_config` for which the decoder has too little memory -/
def PushOverflows (e : Env δ) (k : Nat) (s : Option String) : Prop :=
  ∃ t, s = some t ∧ t ≠ "(keep)" ∧ (bytes t).length + 3 < 2 ^ 64 ∧ e.memory k = true ∧
    Overflows t (BitVec.ofNat 32 (((bytes t).length + 3) / 4 * 3))

theorem push_argument_eq_none (k : Nat) (s : Option String) :
    push_argument e k s = none ↔ PushOverflows e k s := by
  cases s with
  | none => simp [push_argument, PushOverflows]
  | some t =>
    by_cases hkeep : t = "(keep)"
    · simp [push_argument, PushOverflows, hkeep]
    · have hdecode := base64Decode_eq_none t (BitVec.ofNat 32 (((bytes t).length + 3) / 4 * 3))
      by_cases hgive : 2 ^ 64 ≤ (bytes t).length + 3 ∨ ¬ e.memory k = true
      · have hno : ¬ PushOverflows e k (some t) := by
          rintro ⟨u, hu, -, hlen, hmem, -⟩
          cases hu
          cases hgive with
          | inl hbig => omega
          | inr hno => exact hno hmem
        simp only [hno, iff_false, push_argument, if_neg hkeep, decode_config, if_pos hgive]
        simp
      · simp only [push_argument, if_neg hkeep, decode_config, if_neg hgive, Option.map_eq_none_iff,
          hdecode]
        simp only [not_or, Nat.not_le, not_not] at hgive
        constructor
        · exact fun ho => ⟨t, rfl, hkeep, hgive.1, hgive.2, ho⟩
        · rintro ⟨u, hu, -, -, -, ho⟩
          cases hu
          exact ho

/-- `push_config` decodes an argument for which there is too little memory. -/
def Unpushable (e : Env δ) (v : Vm δ) (argv : List String) : Prop :=
  (e.nvram_push_config v).isSome ∧
    (PushOverflows e 0 (some (arg argv 1)) ∨
      push_argument e 0 (some (arg argv 1)) ≠ some none ∧ PushOverflows e 1 (argv[2]?))

theorem cmd_push_config_iff (hw : Wf h) :
    Balanced h (cmd_push_config e h argv) ↔
      ∀ v, found h (arg argv 0) = some v → ¬ Unpushable e v argv := by
  refine find_object_iff hw fun n v _ _ hh => ?_
  rw [Unpushable, ← push_argument_eq_none, ← push_argument_eq_none]
  dsimp only
  split
  · rename_i hno
    simp only [hno, Option.isSome_none, Bool.false_eq_true, false_and, not_false_eq_true, iff_true]
    exact (hh.reply _ _).balanced
  · rename_i push hpush
    simp only [hpush, Option.isSome_some, true_and]
    split
    · rename_i hover
      simp only [hover, true_or, not_true_eq_false, iff_false]
      exact fun hb => not_replied rfl hb.2
    · rename_i hfail
      simp only [hfail, reduceCtorEq, ne_eq, not_true_eq_false, false_and, or_self,
        not_false_eq_true, iff_true]
      exact (hh.reply _ _).balanced
    · rename_i startup hstartup
      simp only [hstartup, reduceCtorEq, ne_eq, Option.some.injEq, not_false_eq_true, true_and,
        false_or]
      split
      · rename_i hover
        simp only [hover, not_true_eq_false, iff_false]
        exact fun hb => not_replied rfl hb.2
      · rename_i hfail
        simp only [hfail, reduceCtorEq, not_false_eq_true, iff_true]
        exact (hh.reply _ _).balanced
      · rename_i priv hpriv
        simp only [hpriv, reduceCtorEq, not_false_eq_true, iff_true]
        split
        · exact ((hh.setSettings _).reply _ _).balanced
        · exact ((hh.setSettings _).reply _ _).balanced

/-! The commands that create, rename and delete a VM -/

section Registry

variable {r : Registry.State} {name : String}

theorem setActing_setActing (b c : Bool) : (r.setActing n b).setActing n c = r.setActing n c := by
  simp [Registry.State.setActing, Registry.State.setNode]

theorem setActing_self (hidle : (r.nodes n).acting = false) : r.setActing n false = r := by
  have hnode : ({ r.nodes n with acting := false } : Registry.Node) = r.nodes n := by
    rw [← hidle]
  rw [Registry.State.setActing, Registry.State.setNode, hnode, Function.update_eq_self]

theorem find_remove (htype : (r.nodes n).objectType = OBJ_TYPE_VM)
    (hindexed : (r.nodes n).indexed = name) (m : String) :
    (r.remove n).find OBJ_TYPE_VM m = if m = name then none else r.find OBJ_TYPE_VM m := by
  simp only [Registry.State.remove, Registry.State.find, Registry.State.setBucket,
    Registry.State.setNode, htype, hindexed, Function.update_self, Registry.Bucket.erase,
    Function.update_apply]

end Registry

theorem name_unique (hw : Wf h) {m m' : String} (hf : h.registry.find OBJ_TYPE_VM m = some n)
    (hf' : h.registry.find OBJ_TYPE_VM m' = some n) : m = m' :=
  (hw.entry m n hf).named.symm.trans (hw.entry m' n hf').named

theorem wf_of_subset {h' : State δ} (hw : Wf h) (hinit : h'.registry.initialized = true)
    (hnext : h.registry.next ≤ h'.registry.next)
    (hsub : ∀ m k, h'.registry.find OBJ_TYPE_VM m = some k →
      h.registry.find OBJ_TYPE_VM m = some k ∧ h'.registry.nodes k = h.registry.nodes k ∧
        h'.vms k = h.vms k) : Wf h' ∧ Returned h h' := by
  refine ⟨⟨hinit, fun m k hf => ?_⟩, fun k hk => ?_⟩
  · obtain ⟨hold, hnodes, hvms⟩ := hsub m k hf
    obtain ⟨hallocated, hnamed, hindexed, htype, hdata, hidle, hcounted, hvm⟩ := hw.entry m k hold
    exact ⟨lt_of_lt_of_le hallocated hnext, by rw [hnodes, hnamed], by rw [hnodes, hindexed],
      by rw [hnodes, htype], by rw [hnodes, hdata], by rw [hnodes, hidle],
      by rw [hnodes]; exact hcounted, by rw [hvms]; exact hvm⟩
  · obtain ⟨m, hm⟩ := hk
    obtain ⟨hold, hnodes, -⟩ := hsub m k hm
    have hcount : refCount h' k = refCount h k := by rw [refCount, hnodes, refCount]
    exact ⟨fun _ => hcount, fun hno => absurd ⟨m, hold⟩ hno⟩

theorem vm_delete_instance_spec (hw : Wf h) (name : String) :
    Wf (vm_delete_instance e h name).2 ∧ Returned h (vm_delete_instance e h name).2 ∧
      (vm_delete_instance e h name).2.out = h.out := by
  have hsame : Returned h h := fun _ hk => ⟨fun _ => rfl, fun hno => absurd hk hno⟩
  cases hf : h.registry.find OBJ_TYPE_VM name with
  | none =>
    simp only [vm_delete_instance, entry_of_not_find hw.initialized hf]
    exact ⟨hw, hsame, trivial⟩
  | some n =>
    have hentry := hw.entry name n hf
    obtain ⟨v, hv, -⟩ := hentry.vm
    by_cases hused : (h.registry.nodes n).refCount > 0
    · simp only [vm_delete_instance, entry_of_find hw.initialized hf, Registry.startAction,
        hentry.idle, Bool.false_eq_true, if_false, if_pos hused]
      exact ⟨hw, hsame, trivial⟩
    · have hv' : ({ h with registry := h.registry.setActing n true } : State δ).vms n = some v := hv
      simp only [vm_delete_instance, entry_of_find hw.initialized hf, Registry.startAction,
        hentry.idle, Bool.false_eq_true, if_false, if_neg hused, hentry.data,
        vm_reg_delete_instance, hv]
      cases hdelete : e.delete_instance v with
      | false =>
        simp only [Bool.false_eq_true, if_false, Registry.endAction, Bool.and_false,
          setActing_setActing, setActing_self hentry.idle]
        exact ⟨hw, hsame, trivial⟩
      | true =>
        simp only [if_true, Registry.endAction, Bool.and_true]
        have hgone (m : String) (k : NodeId)
            (hk : (((h.registry.setActing n true).remove n).setActing n false).find OBJ_TYPE_VM m =
              some k) : h.registry.find OBJ_TYPE_VM m = some k ∧ k ≠ n := by
          have htype : ((h.registry.setActing n true).nodes n).objectType = OBJ_TYPE_VM := by
            simp [Registry.State.setActing, Registry.State.setNode, hentry.type]
          have hindexed : ((h.registry.setActing n true).nodes n).indexed = name := by
            simp [Registry.State.setActing, Registry.State.setNode, hentry.indexed]
          have hfind := (find_remove htype hindexed m).symm.trans hk
          split at hfind
          · cases hfind
          · rename_i hne
            refine ⟨hfind, ?_⟩
            rintro rfl
            exact hne (name_unique hw hfind hf)
        have hboth := @wf_of_subset δ h
          { h with
            registry := ((h.registry.setActing n true).remove n).setActing n false
            vms := Function.update h.vms n none
            nios := ((List.range v.settings.slots.nr_slots).foldl
              CiscoCard.Vm.remove_all_nio_bindings { v.settings.slots with nios := h.nios }).nios }
          hw hw.initialized le_rfl fun m k hk => by
            obtain ⟨hold, hne⟩ := hgone m k hk
            refine ⟨hold, ?_, Function.update_of_ne hne _ _⟩
            simp only [Registry.State.setActing, Registry.State.setNode, Function.update_of_ne hne,
              Registry.State.remove, Registry.State.setBucket]
        exact ⟨hboth.1, hboth.2, trivial⟩

theorem replied_of_out {h' : State δ} (hr : Returned h h') (hout : h'.out = h.out) (code : Nat)
    (t : String) : Balanced h (h'.send_reply code true t) :=
  ⟨hr, [], ⟨code, true, t⟩, by simp [State.send_reply, hout], rfl, by simp⟩

theorem cmd_delete_balanced (hw : Wf h) : Balanced h (cmd_delete e h argv) := by
  obtain ⟨-, hreturned, hout⟩ := vm_delete_instance_spec (e := e) hw (arg argv 0)
  simp only [cmd_delete]
  split
  · exact replied_of_out hreturned hout _ _
  · exact replied_of_out hreturned hout _ _

theorem cmd_clean_delete_balanced (hw : Wf h) : Balanced h (cmd_clean_delete e h argv) := by
  obtain ⟨-, hreturned, hout⟩ := vm_delete_instance_spec (e := e) hw (arg argv 0)
  have hiff : Balanced h (cmd_clean_delete e h argv) ↔
      ∀ v, found h (arg argv 0) = some v → True := by
    refine find_object_iff hw fun n v _ _ hh => ?_
    simp only [acquired_release hh, iff_true]
    split
    · exact replied_of_out hreturned hout _ _
    · exact replied_of_out hreturned hout _ _
  exact hiff.mpr fun _ _ => trivial

theorem registry_exists_acquired (hw : Wf h) (n : NodeId) (name : String) :
    (acquired h n).registry_exists name = (h.registry.find OBJ_TYPE_VM name).isSome := by
  have hfind : (acquired h n).registry.find OBJ_TYPE_VM name = h.registry.find OBJ_TYPE_VM name :=
    rfl
  have hinit : (acquired h n).registry.initialized = true := hw.initialized
  cases hf : h.registry.find OBJ_TYPE_VM name with
  | none =>
    rw [hf] at hfind
    simp only [State.registry_exists, entry_of_not_find hinit hfind, Option.isSome_none]
  | some k =>
    rw [hf] at hfind
    simp only [State.registry_exists, entry_of_find hinit hfind, Option.isSome_some]

/-- The registry once node `n` has the name `name` -/
def moved (r : Registry.State) (n : NodeId) (old name : String) : Registry.State :=
  (r.setNode n { r.nodes n with indexed := name, name := name }).setBucket OBJ_TYPE_VM
    { ((r.types OBJ_TYPE_VM).erase old).emplace name n with
      newest := n :: (r.types OBJ_TYPE_VM).newest.erase n }

theorem find_moved (r : Registry.State) (old name m : String) :
    (moved r n old name).find OBJ_TYPE_VM m =
      if m = name then some n else if m = old then none else r.find OBJ_TYPE_VM m := by
  simp only [moved, Registry.State.find, Registry.State.setBucket, Registry.State.setNode,
    Function.update_self, Registry.Bucket.emplace, Registry.Bucket.erase, Function.update_apply]

theorem rename_eq {r : Registry.State} {old name : String} (hi : r.initialized = true)
    (hf : r.find OBJ_TYPE_VM old = some n) (hfree : r.find OBJ_TYPE_VM name = none)
    (htype : (r.nodes n).objectType = OBJ_TYPE_VM) (hindexed : (r.nodes n).indexed = old)
    (hidle : (r.nodes n).acting = false) :
    Registry.rename r (vmKey old) (some name) = (moved r n old name, .ok n) := by
  simp only [Registry.rename, entry_of_find hi hf, hidle, htype, hfree, hindexed,
    Bool.false_eq_true, if_false, Option.isSome_none, moved]
  rfl

/-- The checks of `vm_rename_instance`, for a name that is not taken -/
def Renamable (e : Env δ) (v : Vm δ) : Prop :=
  v.settings.status = .HALTED ∧ e.memory 0 = true ∧
    (e.vm_file_naming_type = 1 ∨ e.vm_get_lock = true) ∧ e.memory 1 = true

theorem vm_rename_instance_fails {v : Vm δ} {name : String} (hne : v.name ≠ name)
    (hno : ¬ Renamable e v) : vm_rename_instance e h n v name = (false, h) := by
  simp only [vm_rename_instance, if_neg hne]
  split
  · rfl
  split
  · rfl
  split
  · rfl
  split
  · rfl
  split
  · rfl
  · rename_i hstatus _ hmem hlock hmem'
    simp only [ne_eq, not_not, not_and_or] at hstatus hmem hlock hmem'
    exact absurd ⟨hstatus, hmem, hlock, hmem'⟩ hno

theorem vm_rename_instance_ok {v : Vm δ} {old name : String} (hok : Renamable e v)
    (hold : v.name = old) (hi : h.registry.initialized = true) (hf : h.registry.find OBJ_TYPE_VM old = some n)
    (hfree : h.registry.find OBJ_TYPE_VM name = none)
    (htype : (h.registry.nodes n).objectType = OBJ_TYPE_VM)
    (hindexed : (h.registry.nodes n).indexed = old)
    (hidle : (h.registry.nodes n).acting = false) :
    vm_rename_instance e h n v name =
      (true, { h with
        registry := moved h.registry n old name
        vms := Function.update h.vms n (some { v with name }) }) := by
  obtain ⟨hstatus, hmem, hlock, hmem'⟩ := hok
  have hne : old ≠ name := by
    rintro rfl
    rw [hf] at hfree
    cases hfree
  have hexists : h.registry_exists name = false := by
    simp only [State.registry_exists, entry_of_not_find hi hfree]
  have hlock' : ¬ (e.vm_file_naming_type ≠ 1 ∧ ¬ e.vm_get_lock = true) := by
    rintro ⟨htype, hno⟩
    cases hlock with
    | inl h => exact htype h
    | inr h => exact hno h
  simp only [vm_rename_instance, hstatus, ne_eq, not_true_eq_false, if_false, hold, if_neg hne,
    hexists, Bool.false_eq_true, hmem, if_neg hlock', hmem',
    rename_eq hi hf hfree htype hindexed hidle]
  rfl

theorem wf_of_entry {h' : State δ} {name : String} (hw : Wf h)
    (hinit : h'.registry.initialized = true) (hnext : h.registry.next ≤ h'.registry.next)
    (hentry : Entry h' name n)
    (hothers : ∀ m k, h'.registry.find OBJ_TYPE_VM m = some k →
      m = name ∧ k = n ∨ k ≠ n ∧ h.registry.find OBJ_TYPE_VM m = some k ∧
        h'.registry.nodes k = h.registry.nodes k ∧ h'.vms k = h.vms k)
    (hold : Registered h n → refCount h' n = refCount h n)
    (hnew : ¬ Registered h n → refCount h' n = 0) : Wf h' ∧ Returned h h' := by
  refine ⟨⟨hinit, fun m k hf => ?_⟩, fun k hk => ?_⟩
  · obtain ⟨rfl, rfl⟩ | ⟨-, hback, hnodes, hvms⟩ := hothers m k hf
    · exact hentry
    · obtain ⟨hallocated, hnamed, hindexed, htype, hdata, hidle, hcounted, hvm⟩ :=
        hw.entry m k hback
      exact ⟨lt_of_lt_of_le hallocated hnext, by rw [hnodes, hnamed], by rw [hnodes, hindexed],
        by rw [hnodes, htype], by rw [hnodes, hdata], by rw [hnodes, hidle],
        by rw [hnodes]; exact hcounted, by rw [hvms]; exact hvm⟩
  · obtain ⟨m, hm⟩ := hk
    obtain ⟨-, rfl⟩ | ⟨-, hback, hnodes, -⟩ := hothers m k hm
    · exact ⟨hold, hnew⟩
    · have hcount : refCount h' k = refCount h k := by rw [refCount, hnodes, refCount]
      exact ⟨fun _ => hcount, fun hno => absurd ⟨m, hback⟩ hno⟩

theorem nodes_moved (r : Registry.State) (old name : String) (k : NodeId) :
    (moved r n old name).nodes k =
      if k = n then { r.nodes n with indexed := name, name := name } else r.nodes k := by
  simp only [moved, Registry.State.setBucket, Registry.State.setNode, Function.update_apply]

/-- The state once VM `n` has its new name and the reference to it was given back -/
def renamed (h : State δ) (n : NodeId) (v : Vm δ) (old name : String) : State δ :=
  { h with
    registry := (moved (acquired h n).registry n old name).setReferences n (refCount h n)
    vms := Function.update h.vms n (some { v with name }) }

theorem renamed_spec {v : Vm δ} {old name : String} (hw : Wf h)
    (hf : h.registry.find OBJ_TYPE_VM old = some n) :
    Wf (renamed h n v old name) ∧ Returned h (renamed h n v old name) := by
  have hentry := hw.entry old n hf
  have hnode (k : NodeId) : (renamed h n v old name).registry.nodes k =
      if k = n then { h.registry.nodes n with indexed := name, name := name }
      else h.registry.nodes k := by
    by_cases hk : k = n <;>
      simp [renamed, nodes_setReferences, nodes_moved, hk, acquired, refCount]
  have hself := (hnode n).trans (if_pos rfl)
  refine @wf_of_entry δ h n _ name hw hw.initialized le_rfl ?_ ?_ ?_ ?_
  · exact ⟨hentry.allocated, by rw [hself], by rw [hself], by rw [hself]; exact hentry.type,
      by rw [hself]; exact hentry.data, by rw [hself]; exact hentry.idle,
      by rw [hself]; exact hentry.counted, _, Function.update_self _ _ _, rfl⟩
  · intro m k hk
    have hfind : (if m = name then some n else if m = old then none
        else h.registry.find OBJ_TYPE_VM m) = some k :=
      (find_moved (acquired h n).registry old name m).symm.trans hk
    split at hfind
    · rename_i hm
      cases hfind
      exact .inl ⟨hm, rfl⟩
    · split at hfind
      · cases hfind
      · rename_i hne
        have hkn : k ≠ n := by
          rintro rfl
          exact hne (name_unique hw hfind hf)
        exact .inr ⟨hkn, hfind, (hnode k).trans (if_neg hkn), Function.update_of_ne hkn _ _⟩
  · intro _
    rw [refCount, hself, refCount]
  · exact fun hno => absurd ⟨old, hf⟩ hno

/-- The state once VM `n` has its new name, before the reference is given back -/
def underNewName (h : State δ) (n : NodeId) (v : Vm δ) (old name : String) : State δ :=
  { acquired h n with
    registry := moved (acquired h n).registry n old name
    vms := Function.update (acquired h n).vms n (some { v with name }) }

theorem underNewName_release {v : Vm δ} {old name : String} (hw : Wf h)
    (hf : h.registry.find OBJ_TYPE_VM old = some n) :
    (underNewName h n v old name).vm_release n = renamed h n v old name := by
  have hfind : (underNewName h n v old name).registry.find OBJ_TYPE_VM name = some n :=
    (find_moved (acquired h n).registry old name name).trans (if_pos rfl)
  have hcount : refCount (underNewName h n v old name) n = refCount h n + 1 := by
    rw [refCount, underNewName, nodes_moved, if_pos rfl, acquired, nodes_setReferences, if_pos rfl]
  have hold : 0 ≤ refCount h n := (hw.entry old n hf).counted
  have hvm : (underNewName h n v old name).vms n = some { v with name } := Function.update_self _ _ _
  have hinit : (underNewName h n v old name).registry.initialized = true := hw.initialized
  rw [vm_release_eq hinit hvm hfind (by omega), hcount, Int.add_sub_cancel]
  rfl

theorem rename_instance_cases {v : Vm δ} {old name : String} (hw : Wf h) (hname : v.name = old)
    (hf : h.registry.find OBJ_TYPE_VM old = some n)
    (hfree : h.registry.find OBJ_TYPE_VM name = none) :
    (Renamable e v ∧
      vm_rename_instance e (acquired h n) n v name = (true, underNewName h n v old name)) ∨
    (¬ Renamable e v ∧ vm_rename_instance e (acquired h n) n v name = (false, acquired h n)) := by
  have hentry := hw.entry _ n hf
  by_cases hok : Renamable e v
  · have hnode : (acquired h n).registry.nodes n =
        { h.registry.nodes n with refCount := refCount h n + 1 } := by
      rw [acquired, nodes_setReferences, if_pos rfl]
    have hrename := vm_rename_instance_ok (h := acquired h n) (e := e) hok hname hw.initialized
      hf hfree (by rw [hnode]; exact hentry.type) (by rw [hnode]; exact hentry.indexed)
      (by rw [hnode]; exact hentry.idle)
    exact .inl ⟨hok, hrename⟩
  · have hne : v.name ≠ name := by
      intro heq
      rw [← heq, hname, hf] at hfree
      cases hfree
    exact .inr ⟨hok, vm_rename_instance_fails hne hok⟩

theorem cmd_rename_iff (hw : Wf h) :
    Balanced h (cmd_rename e h argv) ↔
      ∀ v, found h (arg argv 0) = some v →
        h.registry.find OBJ_TYPE_VM (arg argv 1) = none → Renamable e v := by
  refine find_object_iff hw fun n v hname hf hh => ?_
  simp only [registry_exists_acquired hw]
  cases hnew : h.registry.find OBJ_TYPE_VM (arg argv 1) with
  | some k =>
    simp only [Option.isSome_some, if_true, reduceCtorEq, false_implies, iff_true]
    exact (hh.reply _ _).balanced
  | none =>
    simp only [Option.isSome_none, Bool.false_eq_true, if_false, true_implies]
    obtain ⟨hok, hrename⟩ | ⟨hno, hfail⟩ := rename_instance_cases (e := e) hw hname hf hnew
    · simp only [hrename, underNewName_release hw hf, hok, iff_true]
      exact replied_of_out (renamed_spec hw hf).2 rfl _ _
    · simp only [hfail, hno, iff_false]
      exact fun hb => hh.not_returned rfl hb.1

/-- The entry that `vm_create` has put in the registry is left behind when the
platform then cannot create the VM. -/
def LeftBehind (e : Env δ) (h : State δ) (argv : List String) : Prop :=
  arg argv 2 ∈ e.platforms ∧ e.vm_create = true ∧
    h.registry.find OBJ_TYPE_VM (arg argv 0) = none ∧ e.registry_memory = .available ∧
    e.create_instance ⟨arg argv 0, atoi (arg argv 1), arg argv 2, Settings.new δ⟩ = none

def added (r : Registry.State) (name : String) : Registry.State :=
  { (r.setNode r.next (.make OBJ_TYPE_VM name r.next)).setBucket OBJ_TYPE_VM
      { (r.types OBJ_TYPE_VM).emplace name r.next with
        newest := r.next :: (r.types OBJ_TYPE_VM).newest } with next := r.next + 1 }

theorem add_cases {r : Registry.State} (hi : r.initialized = true) (name : String)
    (memory : Registry.AddMemory) :
    (r.find OBJ_TYPE_VM name = none ∧ memory = .available ∧
      Registry.add r (vmKey name) r.next memory = (added r name, .ok r.next)) ∨
    (¬ (r.find OBJ_TYPE_VM name = none ∧ memory = .available) ∧
      ∃ error, Registry.add r (vmKey name) r.next memory = (r, .error error)) := by
  have htype : Registry.objectType 0 = some OBJ_TYPE_VM := rfl
  by_cases hok : r.find OBJ_TYPE_VM name = none ∧ memory = .available
  · obtain ⟨hfree, rfl⟩ := hok
    refine .inl ⟨hfree, rfl, ?_⟩
    simp only [Registry.add, vmKey, htype, hi, not_true_eq_false, if_false, reduceCtorEq, hfree]
    rfl
  · refine .inr ⟨hok, ?_⟩
    rcases hadd : Registry.add r (vmKey name) r.next memory with ⟨r', _ | n⟩
    · exact ⟨_, by rw [Registry.add_error hadd]⟩
    · exfalso
      simp only [Registry.add, vmKey, htype, hi, not_true_eq_false, if_false] at hadd
      split at hadd
      · cases hadd
      · rename_i hnode
        split at hadd
        · cases hadd
        · rename_i hfree
          split at hadd
          · cases hadd
          · rename_i hlist
            refine hok ⟨hfree, ?_⟩
            cases memory with
            | available => rfl
            | noNode => contradiction
            | noListNode => contradiction

theorem find_added (r : Registry.State) (name m : String) :
    (added r name).find OBJ_TYPE_VM m =
      if m = name then some r.next else r.find OBJ_TYPE_VM m := by
  simp only [added, Registry.State.find, Registry.State.setBucket, Registry.State.setNode,
    Function.update_self, Registry.Bucket.emplace, Function.update_apply]

theorem nodes_added (r : Registry.State) (name : String) (k : NodeId) :
    (added r name).nodes k =
      if k = r.next then .make OBJ_TYPE_VM name r.next else r.nodes k := by
  simp only [added, Registry.State.setBucket, Registry.State.setNode, Function.update_apply]

/-- The state once a VM was created and the reference to it was given back -/
def created (h : State δ) (v : Vm δ) : State δ :=
  { h with
    registry := (added h.registry v.name).setReferences h.registry.next 0
    vms := Function.update h.vms h.registry.next (some v) }

theorem created_spec (hw : Wf h) (v : Vm δ) : Wf (created h v) ∧ Returned h (created h v) := by
  have hnode (k : NodeId) : (created h v).registry.nodes k =
      if k = h.registry.next then
        { Registry.Node.make OBJ_TYPE_VM v.name h.registry.next with refCount := 0 }
      else h.registry.nodes k := by
    by_cases hk : k = h.registry.next <;> simp [created, nodes_setReferences, nodes_added, hk]
  have hself := (hnode h.registry.next).trans (if_pos rfl)
  have hunknown : ¬ Registered h h.registry.next := by
    rintro ⟨m, hm⟩
    exact absurd (hw.entry m _ hm).allocated (lt_irrefl _)
  refine @wf_of_entry δ h h.registry.next _ v.name hw hw.initialized (Nat.le_succ _) ?_ ?_ ?_ ?_
  · exact ⟨Nat.lt_succ_self _, by rw [hself]; rfl, by rw [hself]; rfl, by rw [hself]; rfl,
      by rw [hself]; rfl, by rw [hself]; rfl, by rw [hself], v, Function.update_self _ _ _, rfl⟩
  · intro m k hk
    have hfind := (find_added h.registry v.name m).symm.trans hk
    split at hfind
    · rename_i hm
      cases hfind
      exact .inl ⟨hm, rfl⟩
    · have hkn : k ≠ h.registry.next := ne_of_lt (hw.entry m k hfind).allocated
      exact .inr ⟨hkn, hfind, (hnode k).trans (if_neg hkn), Function.update_of_ne hkn _ _⟩
  · exact fun hold => absurd hold hunknown
  · intro _
    rw [refCount, hself]

/-- The state once a VM was created, before the reference is given back -/
def adding (h : State δ) (v : Vm δ) : State δ :=
  { h with
    registry := added h.registry v.name
    vms := Function.update h.vms h.registry.next (some v) }

theorem adding_release (hw : Wf h) (v : Vm δ) :
    (adding h v).vm_release h.registry.next = created h v := by
  have hfind : (adding h v).registry.find OBJ_TYPE_VM v.name = some h.registry.next :=
    (find_added h.registry v.name v.name).trans (if_pos rfl)
  have hcount : refCount (adding h v) h.registry.next = 1 := by
    rw [refCount, adding, nodes_added, if_pos rfl]
    rfl
  have hvm : (adding h v).vms h.registry.next = some v := Function.update_self _ _ _
  have hinit : (adding h v).registry.initialized = true := hw.initialized
  rw [vm_release_eq hinit hvm hfind (by omega), hcount]
  rfl

theorem cmd_create_cases (e : Env δ) (argv : List String) (hw : Wf h) :
    (¬ LeftBehind e h argv ∧ ∃ t, cmd_create e h argv = h.send_reply HSC_ERR_CREATE true t) ∨
    (LeftBehind e h argv ∧
      (cmd_create e h argv).registry = added h.registry (arg argv 0)) ∨
    (¬ LeftBehind e h argv ∧
      ∃ v t, cmd_create e h argv = (created h v).send_reply HSC_INFO_OK true t) := by
  simp only [cmd_create, vm_create_instance, LeftBehind]
  by_cases htype : arg argv 2 ∈ e.platforms
  · cases hfiles : e.vm_create with
    | false =>
      simp only [htype, not_true_eq_false, if_false, Bool.false_eq_true, not_false_eq_true, if_true,
        false_and, and_false, true_and]
      exact .inl ⟨_, rfl⟩
    | true =>
      simp only [htype, not_true_eq_false, if_false, true_and]
      obtain ⟨hfree, hmem, hadd⟩ | ⟨hno, error, hadd⟩ :=
        add_cases hw.initialized (arg argv 0) e.registry_memory
      · rw [hmem] at hadd
        simp only [hadd, hfree, hmem, true_and]
        cases hcreate : e.create_instance
            ⟨arg argv 0, atoi (arg argv 1), arg argv 2, Settings.new δ⟩ with
        | none => exact .inr (.inl ⟨rfl, rfl⟩)
        | some settings =>
          simp only [reduceCtorEq, not_false_eq_true, State.setVm, State.setSettings,
            Function.update_self, Option.map_some, Function.update_idem, true_and, false_and,
            false_or]
          have hrelease := adding_release hw ⟨arg argv 0, atoi (arg argv 1), arg argv 2,
            { settings with vtty_con_type := .NONE, vtty_aux_type := .NONE }⟩
          rw [adding] at hrelease
          rw [hrelease]
          exact .inr ⟨_, _, rfl⟩
      · simp only [hadd]
        exact .inl ⟨fun hall => hno ⟨hall.1, hall.2.1⟩, _, rfl⟩
  · simp only [htype, not_false_eq_true, if_true, false_and, true_and]
    exact .inl ⟨_, rfl⟩

theorem cmd_create_iff (hw : Wf h) :
    Balanced h (cmd_create e h argv) ↔ ¬ LeftBehind e h argv := by
  obtain ⟨hno, t, heq⟩ | ⟨hleft, hregistry⟩ | ⟨hno, v, t, heq⟩ :=
    cmd_create_cases e argv hw
  · rw [heq]
    exact iff_of_true (kept_reply h _ _).balanced hno
  · refine iff_of_false ?_ (not_not_intro hleft)
    intro hb
    have hregistered : Registered (cmd_create e h argv) h.registry.next :=
      ⟨arg argv 0, by rw [hregistry, find_added, if_pos rfl]⟩
    have hunknown : ¬ Registered h h.registry.next := by
      rintro ⟨m, hm⟩
      exact absurd (hw.entry m _ hm).allocated (lt_irrefl _)
    have hzero := (hb.1 _ hregistered).2 hunknown
    rw [refCount, hregistry, nodes_added, if_pos rfl] at hzero
    simp [Registry.Node.make] at hzero
  · rw [heq]
    exact iff_of_true (replied_of_out (created_spec hw v).2 rfl _ _) hno

end Dynamips.HvVm
