import Dynamips.Lib.Bytes
import Dynamips.Lib.Runs
import Mathlib.Data.List.TakeWhile

/-! The ROMMON environment variables (rommon_var.cpp): the list in memory, the
file it is rewritten to after each change and the loader of that file. -/
set_option autoImplicit false

namespace Dynamips.RommonVar

abbrev CString := { s : List Byte // 0 ∉ s }

def newline : Byte := 0x0a

def equals : Byte := 0x3d

/-- `rommon_var`, whose value `set_variable` never leaves null. -/
structure Var where
  name : CString
  value : CString
deriving DecidableEq

/-- Which of the allocations in `set_variable` succeed. -/
structure Allocs where
  value : Bool
  var : Bool
  name : Bool

/-- What the file system does while the file is rewritten, and what is left in
the file when it fails. -/
structure RewriteEnv where
  opened : Bool
  printed : Bool
  closed : Bool
  left : List Byte

/-- `rommon_var_list` with the file it names. -/
structure Store where
  filename : Option CString
  varList : List Var
  file : List Byte

def findVariable (list : List Var) (name : CString) : Option Var :=
  list.find? fun var => var.name = name

/-- The change of the value of the variable that `find_variable` returns. -/
def replaceValue (name value : CString) : List Var → List Var
  | [] => []
  | var :: list =>
    if var.name = name then { var with value := value } :: list
    else var :: replaceValue name value list

def setVariable (allocs : Allocs) (list : List Var) (name value : CString) : Bool × List Var :=
  if allocs.value = false then (false, list)
  else if (findVariable list name).isSome then (true, replaceValue name value list)
  else if allocs.var = false then (false, list)
  else if allocs.name = false then (false, list)
  else (true, ⟨name, value⟩ :: list)

/-- What one `fprintf` of `update_file` writes. -/
def entry (var : Var) : List Byte := var.name.val ++ equals :: var.value.val ++ [newline]

def updateFile (env : RewriteEnv) (store : Store) : Bool × Store :=
  if store.filename = none then (false, store)
  else if env.opened = false then (false, store)
  else if env.printed = false ∧ store.varList ≠ [] then (false, { store with file := env.left })
  else if env.closed = false then (false, { store with file := env.left })
  else (true, { store with file := store.varList.flatMap entry })

def rommonVarAdd (allocs : Allocs) (env : RewriteEnv) (store : Store)
    (name value : Option CString) : Bool × Store :=
  match name, value with
  | some name, some value =>
    let changed := setVariable allocs store.varList name value
    if changed.1 then updateFile env { store with varList := changed.2 } else (false, store)
  | _, _ => (false, store)

/-- The lines that `std::getline` takes from a text, after `line`. -/
def getlines (line : List Byte) : List Byte → List (List Byte)
  | [] => if line = [] then [] else [line]
  | c :: text => if c = newline then line :: getlines [] text else getlines (line ++ [c]) text

theorem zero_not_mem_takeWhile (line : List Byte) : 0 ∉ line.takeWhile fun c => c ≠ 0 := by
  intro h
  have hne := List.mem_takeWhile_imp h
  simp at hne

/-- A line of the file up to a zero, cut at its first `=`. -/
def parseLine (line : List Byte) : Option Var :=
  let text := line.takeWhile fun c => c ≠ 0
  let name := text.takeWhile fun c => c ≠ equals
  let rest := text.dropWhile fun c => c ≠ equals
  if rest = [] ∨ name = [] then none
  else some
    { name := ⟨name, fun h => zero_not_mem_takeWhile line ((List.takeWhile_sublist _).subset h)⟩
      value := ⟨rest.drop 1, fun h => zero_not_mem_takeWhile line
        ((List.dropWhile_sublist _).subset ((List.drop_sublist 1 rest).subset h))⟩ }

/-- The loop of `load_file`; `mem k` holds the allocations for the line `k`. -/
def loadLines (mem : Nat → Allocs) : Nat → List (List Byte) → List Var → Bool × List Var
  | _, [], list => (true, list)
  | k, line :: lines, list =>
    match parseLine line with
    | none => loadLines mem (k + 1) lines list
    | some var =>
      let changed := setVariable (mem k) list var.name var.value
      if changed.1 then loadLines mem (k + 1) lines changed.2 else (false, changed.2)

/-- `load_file`, from the text that the stream delivers: none when it cannot be
opened; `read` tells whether the stream ended without an error. -/
def loadFile (mem : Nat → Allocs) (text : Option (List Byte)) (read : Bool) (store : Store) :
    Bool × Store :=
  match text with
  | none => (false, store)
  | some text =>
    if store.filename = none then (false, store)
    else
      let loaded := loadLines mem 0 (getlines [] text) store.varList
      (loaded.1 && read, { store with varList := loaded.2 })

def rommonVarClear (store : Store) : Store := { store with varList := [] }

inductive Op where
  | add (allocs : Allocs) (env : RewriteEnv) (name value : Option CString)
  | load (mem : Nat → Allocs) (text : Option (List Byte)) (read : Bool)
  | clear

def Op.run (store : Store) : Op → Bool × Store
  | .add allocs env name value => rommonVarAdd allocs env store name value
  | .load mem text read => loadFile mem text read store
  | .clear => (true, rommonVarClear store)

def Store.next (store : Store) (op : Op) : Store := (op.run store).2

def valueOf (list : List Var) (name : CString) : Option CString :=
  (findVariable list name).map Var.value

def plenty : Nat → Allocs := fun _ => ⟨true, true, true⟩

/-- The file can be loaded into an empty list, and whenever it is, the list has
the values in memory. -/
def LoadsBack (store : Store) : Prop :=
  (loadFile plenty (some store.file) true { store with varList := [] }).1 = true ∧
  ∀ mem, (loadFile mem (some store.file) true { store with varList := [] }).1 = true →
    ∀ name, valueOf (loadFile mem (some store.file) true { store with varList := [] }).2.varList
      name = valueOf store.varList name

/-- An addition that succeeds leaves a file that loads back, and one that fails
leaves the list as it was. -/
def StepOk (store : Store) : Op → Prop
  | .add allocs env name value =>
    ((rommonVarAdd allocs env store name value).1 = true →
      LoadsBack (rommonVarAdd allocs env store name value).2) ∧
    ((rommonVarAdd allocs env store name value).1 = false →
      (rommonVarAdd allocs env store name value).2.varList = store.varList)
  | .load _ _ _ => True
  | .clear => True

def Good (var : Var) : Prop :=
  var.name.val ≠ [] ∧ equals ∉ var.name.val ∧ newline ∉ var.name.val ∧ newline ∉ var.value.val

/-- The allocations that `set_variable` makes for a name succeed. -/
def Granted (allocs : Allocs) (list : List Var) (name : CString) : Prop :=
  allocs.value = true ∧
    ((findVariable list name).isSome = true ∨ allocs.var = true ∧ allocs.name = true)

def Rewrites (env : RewriteEnv) (store : Store) : Prop :=
  store.filename ≠ none ∧ env.opened = true ∧ env.printed = true ∧ env.closed = true

/-- Where the file can be rewritten the variable fits on a line; where it
cannot, the list had the value already. -/
def Fits (store : Store) : Op → Prop
  | .add allocs env name value =>
    ∀ n v, name = some n → value = some v → Granted allocs store.varList n →
      (Rewrites env store → Good ⟨n, v⟩) ∧
      (¬ Rewrites env store → valueOf store.varList n = some v)
  | .load _ _ _ => True
  | .clear => True

/-- `set_variable` where nothing fails -/
def setVar (list : List Var) (name value : CString) : List Var :=
  if name ∈ list.map Var.name then replaceValue name value list else ⟨name, value⟩ :: list

structure WellFormed (list : List Var) : Prop where
  nodup : (list.map Var.name).Nodup
  good : ∀ var ∈ list, Good var

variable {list : List Var} {name n value v : CString} {var : Var} {allocs : Allocs}

theorem valueOf_cons :
    valueOf (var :: list) n = if var.name = n then some var.value else valueOf list n := by
  unfold valueOf findVariable
  by_cases h : var.name = n
  · rw [List.find?_cons_of_pos (by simpa using h), if_pos h]
    rfl
  · rw [List.find?_cons_of_neg (by simpa using h), if_neg h]

theorem isSome_findVariable :
    (findVariable list n).isSome = true ↔ n ∈ list.map Var.name := by
  simp [findVariable]

theorem valueOf_eq_none (h : n ∉ list.map Var.name) : valueOf list n = none := by
  rw [← isSome_findVariable] at h
  simpa [valueOf] using h

theorem names_replaceValue : (replaceValue name value list).map Var.name = list.map Var.name := by
  induction list with
  | nil => rfl
  | cons var list ih =>
    unfold replaceValue
    split
    · rfl
    · rw [List.map_cons, ih, List.map_cons]

theorem names_setVar :
    (setVar list name value).map Var.name =
      if name ∈ list.map Var.name then list.map Var.name else name :: list.map Var.name := by
  unfold setVar
  split
  · exact names_replaceValue
  · rfl

theorem mem_replaceValue (h : var ∈ replaceValue name value list) :
    var ∈ list ∨ var = ⟨name, value⟩ := by
  induction list with
  | nil => simp [replaceValue] at h
  | cons first list ih =>
    unfold replaceValue at h
    split at h
    · rename_i heq
      rcases List.mem_cons.mp h with rfl | h
      · subst heq
        exact .inr rfl
      · exact .inl (List.mem_cons_of_mem first h)
    · rcases List.mem_cons.mp h with rfl | h
      · exact .inl List.mem_cons_self
      · exact (ih h).imp_left (List.mem_cons_of_mem first)

theorem mem_setVar (h : var ∈ setVar list name value) : var ∈ list ∨ var = ⟨name, value⟩ := by
  unfold setVar at h
  split at h
  · exact mem_replaceValue h
  · exact (List.mem_cons.mp h).symm

theorem wellFormed_setVar (h : WellFormed list) (hgood : Good ⟨name, value⟩) :
    WellFormed (setVar list name value) := by
  refine ⟨?_, ?_⟩
  · rw [names_setVar]
    split
    · exact h.nodup
    · rename_i hnew
      exact List.nodup_cons.mpr ⟨hnew, h.nodup⟩
  · intro var hvar
    rcases mem_setVar hvar with hvar | rfl
    · exact h.good var hvar
    · exact hgood

theorem valueOf_replaceValue (h : name ∈ list.map Var.name) :
    valueOf (replaceValue name value list) n = if name = n then some value else valueOf list n := by
  induction list with
  | nil => simp at h
  | cons var list ih =>
    unfold replaceValue
    by_cases heq : var.name = name
    · subst heq
      rw [if_pos rfl, valueOf_cons, valueOf_cons]
      split
      · rfl
      · rfl
    · rw [if_neg heq, valueOf_cons, valueOf_cons]
      have hmem : name ∈ list.map Var.name := by
        rcases List.mem_cons.mp h with h | h
        · exact absurd h.symm heq
        · exact h
      rw [ih hmem]
      by_cases hn : var.name = n
      · rw [if_pos hn, if_pos hn, if_neg fun he => heq (hn.trans he.symm)]
      · rw [if_neg hn, if_neg hn]

theorem valueOf_setVar :
    valueOf (setVar list name value) n = if name = n then some value else valueOf list n := by
  unfold setVar
  split
  · rename_i h
    exact valueOf_replaceValue h
  · exact valueOf_cons

theorem setVar_eq_self : setVar list name value = list ↔ valueOf list name = some value := by
  constructor
  · intro h
    rw [← h, valueOf_setVar, if_pos rfl]
  · intro h
    have hmem : name ∈ list.map Var.name := by
      by_contra hmem
      rw [valueOf_eq_none hmem] at h
      cases h
    unfold setVar
    rw [if_pos hmem]
    clear hmem
    induction list with
    | nil => rfl
    | cons var list ih =>
      rw [valueOf_cons] at h
      unfold replaceValue
      split at h
      · rename_i heq
        obtain ⟨rfl⟩ := Option.some.inj h
        rw [if_pos heq]
      · rename_i hne
        rw [if_neg hne, ih h]

theorem setVariable_granted (h : Granted allocs list name) :
    setVariable allocs list name value = (true, setVar list name value) := by
  obtain ⟨hvalue, hfound⟩ := h
  unfold setVariable setVar
  rw [if_neg (by simp [hvalue])]
  by_cases hf : (findVariable list name).isSome = true
  · rw [if_pos hf, if_pos (isSome_findVariable.mp hf)]
  · have hrest := hfound.resolve_left hf
    have hnew : name ∉ list.map Var.name := fun hmem => hf (isSome_findVariable.mpr hmem)
    rw [if_neg hf, if_neg hnew, if_neg (by simp [hrest.1]), if_neg (by simp [hrest.2])]

theorem setVariable_refused (h : ¬ Granted allocs list name) :
    setVariable allocs list name value = (false, list) := by
  unfold setVariable
  by_cases hvalue : allocs.value = false
  · rw [if_pos hvalue]
  · rw [if_neg hvalue]
    by_cases hf : (findVariable list name).isSome = true
    · exact absurd ⟨by simpa using hvalue, .inl hf⟩ h
    · rw [if_neg hf]
      by_cases hvar : allocs.var = false
      · rw [if_pos hvar]
      · rw [if_neg hvar]
        by_cases hname : allocs.name = false
        · rw [if_pos hname]
        · exact absurd ⟨by simpa using hvalue, .inr ⟨by simpa using hvar, by simpa using hname⟩⟩ h

theorem getlines_line {line l text : List Byte} (h : newline ∉ l) :
    getlines line (l ++ newline :: text) = (line ++ l) :: getlines [] text := by
  induction l generalizing line with
  | nil =>
    rw [List.nil_append, List.append_nil, getlines, if_pos rfl]
  | cons c l ih =>
    have hc : c ≠ newline := fun heq => h (heq ▸ List.mem_cons_self)
    have hl : newline ∉ l := fun hmem => h (List.mem_cons_of_mem c hmem)
    rw [List.cons_append, getlines, if_neg hc, ih hl, List.append_assoc, List.singleton_append]

theorem getlines_entries (h : ∀ var ∈ list, Good var) :
    getlines [] (list.flatMap entry) =
      list.map fun var => var.name.val ++ equals :: var.value.val := by
  induction list with
  | nil => rfl
  | cons var list ih =>
    obtain ⟨-, -, hname, hvalue⟩ := h var List.mem_cons_self
    have hline : newline ∉ var.name.val ++ equals :: var.value.val := by
      rw [List.mem_append, List.mem_cons]
      rintro (hmem | hmem | hmem)
      · exact hname hmem
      · exact absurd hmem (by decide)
      · exact hvalue hmem
    have hshape : (var :: list).flatMap entry =
        (var.name.val ++ equals :: var.value.val) ++ newline :: list.flatMap entry := by
      simp [entry]
    rw [hshape, getlines_line hline, List.nil_append, List.map_cons,
      ih fun var' hmem => h var' (List.mem_cons_of_mem var hmem)]

theorem takeWhile_of_not_mem {c : Byte} {l rest : List Byte} (h : c ∉ l) :
    (l ++ c :: rest).takeWhile (fun b => b ≠ c) = l := by
  rw [List.takeWhile_append_of_pos]
  · simp
  · intro b hb
    have hne : b ≠ c := fun heq => h (heq ▸ hb)
    simpa using hne

theorem dropWhile_of_not_mem {c : Byte} {l rest : List Byte} (h : c ∉ l) :
    (l ++ c :: rest).dropWhile (fun b => b ≠ c) = c :: rest := by
  rw [List.dropWhile_append_of_pos]
  · simp
  · intro b hb
    have hne : b ≠ c := fun heq => h (heq ▸ hb)
    simpa using hne

theorem parseLine_entry (hempty : var.name.val ≠ []) (hequals : equals ∉ var.name.val) :
    parseLine (var.name.val ++ equals :: var.value.val) = some var := by
  have htext : (var.name.val ++ equals :: var.value.val).takeWhile (fun c => c ≠ 0) =
      var.name.val ++ equals :: var.value.val := by
    rw [List.takeWhile_eq_self_iff]
    intro c hc
    have hne : c ≠ 0 := by
      rintro rfl
      rw [List.mem_append, List.mem_cons] at hc
      rcases hc with hc | hc | hc
      · exact var.name.property hc
      · exact absurd hc (by decide)
      · exact var.value.property hc
    simpa using hne
  unfold parseLine
  simp only [htext, takeWhile_of_not_mem hequals, dropWhile_of_not_mem hequals]
  rw [if_neg (by simp [hempty])]
  rfl

def setAll (vars list : List Var) : List Var :=
  vars.foldl (fun list var => setVar list var.name var.value) list

theorem loadLines_entries {mem : Nat → Allocs} {k : Nat} {vars : List Var}
    (hgood : ∀ var ∈ vars, Good var)
    (hdone : (loadLines mem k (vars.map fun var => var.name.val ++ equals :: var.value.val)
      list).1 = true) :
    (loadLines mem k (vars.map fun var => var.name.val ++ equals :: var.value.val) list).2 =
      setAll vars list := by
  induction vars generalizing k list with
  | nil => rfl
  | cons var vars ih =>
    have hvar := hgood var List.mem_cons_self
    have hparse := parseLine_entry hvar.1 hvar.2.1
    simp only [List.map_cons, loadLines, hparse] at hdone ⊢
    by_cases hgrant : Granted (mem k) list var.name
    · simp only [setVariable_granted hgrant, if_true] at hdone ⊢
      exact ih (fun var' hmem => hgood var' (List.mem_cons_of_mem var hmem)) hdone
    · simp [setVariable_refused hgrant] at hdone

theorem loadLines_plenty (k : Nat) (lines : List (List Byte)) (list : List Var) :
    (loadLines plenty k lines list).1 = true := by
  induction lines generalizing k list with
  | nil => rfl
  | cons line lines ih =>
    unfold loadLines
    split
    · exact ih (k + 1) list
    · rename_i var _
      have hgrant : Granted (plenty k) list var.name := ⟨rfl, .inr ⟨rfl, rfl⟩⟩
      rw [setVariable_granted hgrant]
      exact ih (k + 1) (setVar list var.name var.value)

theorem valueOf_setAll {vars : List Var} (h : (vars.map Var.name).Nodup) :
    valueOf (setAll vars list) n = (valueOf vars n).or (valueOf list n) := by
  induction vars generalizing list with
  | nil => rfl
  | cons var vars ih =>
    rw [List.map_cons, List.nodup_cons] at h
    have hstep : setAll (var :: vars) list = setAll vars (setVar list var.name var.value) := rfl
    rw [hstep, ih h.2, valueOf_setVar, valueOf_cons]
    by_cases hn : var.name = n
    · rw [if_pos hn, if_pos hn, valueOf_eq_none (hn ▸ h.1)]
      rfl
    · rw [if_neg hn, if_neg hn]

theorem newline_getlines {line text l : List Byte} (hline : newline ∉ line)
    (h : l ∈ getlines line text) : newline ∉ l := by
  induction text generalizing line with
  | nil =>
    unfold getlines at h
    split at h
    · cases h
    · rw [List.mem_singleton] at h
      exact h ▸ hline
  | cons c text ih =>
    unfold getlines at h
    split at h
    · rcases List.mem_cons.mp h with rfl | h
      · exact hline
      · exact ih List.not_mem_nil h
    · rename_i hc
      refine ih ?_ h
      rw [List.mem_append, List.mem_singleton]
      rintro (hmem | hmem)
      · exact hline hmem
      · exact hc hmem.symm

theorem good_of_parseLine {line : List Byte} (hline : newline ∉ line)
    (h : parseLine line = some var) : Good var := by
  unfold parseLine at h
  simp only at h
  split at h
  · cases h
  · rename_i hparts
    obtain ⟨-, hname⟩ := not_or.mp hparts
    have htext : newline ∉ line.takeWhile fun c => c ≠ 0 := fun hmem =>
      hline ((List.takeWhile_sublist _).subset hmem)
    obtain rfl := Option.some.inj h
    refine ⟨hname, fun hmem => ?_, fun hmem => ?_, fun hmem => ?_⟩
    · have hne := List.mem_takeWhile_imp hmem
      simp at hne
    · exact htext ((List.takeWhile_sublist _).subset hmem)
    · exact htext ((List.dropWhile_sublist _).subset ((List.drop_sublist 1 _).subset hmem))

theorem wellFormed_loadLines {mem : Nat → Allocs} {k : Nat} {lines : List (List Byte)}
    (hlines : ∀ line ∈ lines, newline ∉ line) (h : WellFormed list) :
    WellFormed (loadLines mem k lines list).2 := by
  induction lines generalizing k list with
  | nil => exact h
  | cons line lines ih =>
    have hrest : ∀ l ∈ lines, newline ∉ l := fun l hl => hlines l (List.mem_cons_of_mem line hl)
    unfold loadLines
    split
    · exact ih hrest h
    · rename_i var hparse
      have hgood := good_of_parseLine (hlines line List.mem_cons_self) hparse
      by_cases hgrant : Granted (mem k) list var.name
      · rw [setVariable_granted hgrant]
        exact ih hrest (wellFormed_setVar h hgood)
      · rw [setVariable_refused hgrant]
        exact h

theorem wellFormed_nil : WellFormed [] := ⟨List.nodup_nil, by simp⟩

theorem loadsBack_of_wellFormed {store : Store} (hname : store.filename ≠ none)
    (hfile : store.file = store.varList.flatMap entry) (h : WellFormed store.varList) :
    LoadsBack store := by
  have hload : ∀ mem, loadFile mem (some store.file) true { store with varList := [] } =
      ((loadLines mem 0 (getlines [] store.file) []).1,
        { store with varList := (loadLines mem 0 (getlines [] store.file) []).2 }) := by
    intro mem
    simp [loadFile, hname]
  refine ⟨?_, ?_⟩
  · rw [hload]
    exact loadLines_plenty 0 _ []
  · intro mem hdone name
    rw [hload] at hdone ⊢
    rw [hfile, getlines_entries h.good] at hdone ⊢
    rw [loadLines_entries h.good hdone, valueOf_setAll h.nodup]
    simp [valueOf, findVariable]

theorem good_of_loadsBack {store : Store} (hloads : LoadsBack store)
    (hname : store.filename ≠ none) (h : valueOf store.varList name = some value) :
    Good ⟨name, value⟩ := by
  have hback := hloads.2 plenty hloads.1 name
  rw [h] at hback
  simp only [loadFile, hname, if_false] at hback
  have hwell := @wellFormed_loadLines [] plenty 0 (getlines [] store.file)
    (fun line hline => newline_getlines List.not_mem_nil hline) wellFormed_nil
  unfold valueOf at hback
  obtain ⟨var, hfind, hvalue⟩ := Option.map_eq_some_iff.mp hback
  have hmem := List.mem_of_find?_eq_some hfind
  have hnames := List.find?_some hfind
  have hvar : var = ⟨name, value⟩ := by
    cases var
    simp only [decide_eq_true_eq] at hnames
    simp only at hvalue
    rw [hnames, hvalue]
  exact hvar ▸ hwell.good var hmem

variable {env : RewriteEnv} {store : Store}

theorem setVar_ne_nil : setVar list name value ≠ [] := by
  intro h
  have hvalue := @valueOf_setVar list name name value
  rw [h, if_pos rfl] at hvalue
  cases hvalue

theorem updateFile_rewrites (h : Rewrites env store) :
    updateFile env store = (true, { store with file := store.varList.flatMap entry }) := by
  obtain ⟨hname, hopened, hprinted, hclosed⟩ := h
  simp [updateFile, hname, hopened, hprinted, hclosed]

theorem updateFile_fails (h : ¬ Rewrites env store) (hlist : store.varList ≠ []) :
    (updateFile env store).1 = false ∧ (updateFile env store).2.varList = store.varList := by
  unfold updateFile
  split
  · exact ⟨rfl, rfl⟩
  · split
    · exact ⟨rfl, rfl⟩
    · split
      · exact ⟨rfl, rfl⟩
      · split
        · exact ⟨rfl, rfl⟩
        · rename_i hname hopened hprinted hclosed
          have hprinted : env.printed = true := by
            by_contra hp
            exact hprinted ⟨by simpa using hp, hlist⟩
          exact absurd ⟨hname, by simpa using hopened, hprinted, by simpa using hclosed⟩ h

theorem add_refused (h : ¬ Granted allocs store.varList n) :
    rommonVarAdd allocs env store (some n) (some v) = (false, store) := by
  simp [rommonVarAdd, setVariable_refused h]

theorem add_rewrites (h : Granted allocs store.varList n) (hr : Rewrites env store) :
    rommonVarAdd allocs env store (some n) (some v) =
      (true, { store with
        varList := setVar store.varList n v
        file := (setVar store.varList n v).flatMap entry }) := by
  have hr' : Rewrites env { store with varList := setVar store.varList n v } := hr
  simp [rommonVarAdd, setVariable_granted h, updateFile_rewrites hr']

theorem add_fails (h : Granted allocs store.varList n) (hr : ¬ Rewrites env store) :
    (rommonVarAdd allocs env store (some n) (some v)).1 = false ∧
      (rommonVarAdd allocs env store (some n) (some v)).2.varList =
        setVar store.varList n v := by
  have hr' : ¬ Rewrites env { store with varList := setVar store.varList n v } := hr
  simpa [rommonVarAdd, setVariable_granted h] using updateFile_fails hr' setVar_ne_nil

theorem stepOk_iff (h : WellFormed store.varList) (op : Op) : StepOk store op ↔ Fits store op := by
  cases op with
  | load mem text read => exact Iff.rfl
  | clear => exact Iff.rfl
  | add allocs env name value =>
    cases name with
    | none =>
      exact iff_of_true ⟨fun hdone => by simp [rommonVarAdd] at hdone, fun _ => by rfl⟩
        fun n v hn => by cases hn
    | some n =>
      cases value with
      | none =>
        exact iff_of_true ⟨fun hdone => by simp [rommonVarAdd] at hdone, fun _ => by rfl⟩
          fun n v _ hv => by cases hv
      | some v =>
        have hfits : Fits store (.add allocs env (some n) (some v)) ↔
            (Granted allocs store.varList n → (Rewrites env store → Good ⟨n, v⟩) ∧
              (¬ Rewrites env store → valueOf store.varList n = some v)) := by
          constructor
          · intro hall
            exact hall n v rfl rfl
          · intro hone n' v' hn hv
            cases hn
            cases hv
            exact hone
        rw [hfits]
        simp only [StepOk]
        by_cases hgrant : Granted allocs store.varList n
        · by_cases hr : Rewrites env store
          · rw [add_rewrites hgrant hr]
            simp only [hgrant, hr, true_imp_iff, not_true_eq_false, false_imp_iff, and_true,
              Bool.true_eq_false]
            constructor
            · intro hloads
              exact good_of_loadsBack hloads hr.1 (by rw [valueOf_setVar, if_pos rfl])
            · intro hgood
              exact loadsBack_of_wellFormed hr.1 rfl (wellFormed_setVar h hgood)
          · have hfails := @add_fails n v allocs env store hgrant hr
            simp only [hfails.1, hfails.2, hgrant, hr, true_imp_iff, not_false_eq_true,
              false_imp_iff, true_and, Bool.false_eq_true]
            exact setVar_eq_self
        · rw [add_refused hgrant]
          simp [hgrant]

theorem wellFormed_run (h : WellFormed store.varList) (op : Op) (hfits : Fits store op) :
    WellFormed (op.run store).2.varList := by
  cases op with
  | clear => exact wellFormed_nil
  | load mem text read =>
    simp only [Op.run, loadFile]
    split
    · exact h
    · split
      · exact h
      · exact wellFormed_loadLines (fun line hline => newline_getlines List.not_mem_nil hline) h
  | add allocs env name value =>
    cases name with
    | none => exact h
    | some n =>
      cases value with
      | none => exact h
      | some v =>
        simp only [Op.run]
        by_cases hgrant : Granted allocs store.varList n
        · have hstep := hfits n v rfl rfl hgrant
          by_cases hr : Rewrites env store
          · rw [add_rewrites hgrant hr]
            exact wellFormed_setVar h (hstep.1 hr)
          · rw [(add_fails hgrant hr).2, setVar_eq_self.mpr (hstep.2 hr)]
            exact h
        · rw [add_refused hgrant]
          exact h

/-- Over every sequence of operations on a list that starts empty: every
addition that succeeds leaves a file that loads back, and every one that fails
leaves the list alone, if and only if each fits where the file is rewritten and
changes nothing where it cannot be. -/
theorem additions_ok_iff (filename : Option CString) (file : List Byte) (ops : List Op) :
    Runs.AllSteps StepOk
        (Runs.history Store.next ⟨filename, [], file⟩ ops) ↔
      Runs.AllSteps Fits
        (Runs.history Store.next ⟨filename, [], file⟩ ops) :=
  Runs.allSteps_history_iff (P := fun store => WellFormed store.varList)
    (fun _ op h hfits => wellFormed_run h op hfits) (fun _ op h => stepOk_iff h op)
    wellFormed_nil ops

/-- The value `a` cut in two by a line end. -/
theorem not_additions_ok :
    ¬ ∀ (filename : Option CString) (file : List Byte) (ops : List Op),
      Runs.AllSteps StepOk
        (Runs.history Store.next ⟨filename, [], file⟩ ops) := by
  intro h
  have hstep := h (some ⟨[0x66], by decide⟩) []
    [.add ⟨true, true, true⟩ ⟨true, true, true, []⟩ (some ⟨[0x50], by decide⟩)
      (some ⟨[0x61, 0x0a, 0x62], by decide⟩)]
  have hadd := (Runs.allSteps_cons.mp hstep).1.1 (by decide)
  have hback := hadd.2 plenty (by decide) ⟨[0x50], by decide⟩
  revert hback
  decide

end Dynamips.RommonVar
