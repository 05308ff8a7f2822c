import Dynamips.Lib.Runs
import Mathlib.Data.List.Count
import Mathlib.Data.List.Nodup

/-! The pool of ghost images of vm.c, and the ghost devices (device.c) that have
their memory in it. -/
set_option autoImplicit false

namespace Dynamips.Ghost
open Runs

structure GhostImage where
  filename : String
  refCount : Nat
  fd : Int
  areaPtr : BitVec 64

/-- What a device has of its image: the file, its descriptor and where it is mapped. -/
abbrev Dev := String × Int × BitVec 64

def GhostImage.dev (img : GhostImage) : Dev := (img.filename, img.fd, img.areaPtr)

/-- The first image that `p` holds of is replaced or taken out. -/
def updateFirst (p : GhostImage → Bool) (f : GhostImage → Option GhostImage) :
    List GhostImage → List GhostImage
  | [] => []
  | img :: pool => if p img then (f img).toList ++ pool else img :: updateFirst p f pool

/-- `opened` is what `memzone_open_file_ro` returns, if it is called. -/
def vmGhostImageGet (opened : Option (Int × BitVec 64)) (pool : List GhostImage)
    (filename : String) : Option (List GhostImage × Int × BitVec 64) :=
  match pool.find? fun img => img.filename = filename with
  | some img =>
    some (updateFirst (fun img => img.filename = filename)
      (fun img => some { img with refCount := img.refCount + 1 }) pool, img.fd, img.areaPtr)
  | none => opened.map fun (fd, areaPtr) => (⟨filename, 1, fd, areaPtr⟩ :: pool, fd, areaPtr)

/-- None where the assertion fails. -/
def vmGhostImageRelease (pool : List GhostImage) (fd : Int) : Option (List GhostImage × Int) :=
  match pool.find? fun img => img.fd = fd with
  | some img =>
    if img.refCount = 0 then none
    else
      some (updateFirst (fun img => img.fd = fd)
        (fun img =>
          if img.refCount - 1 = 0 then none else some { img with refCount := img.refCount - 1 })
        pool, 0)
  | none => some (pool, -1)

structure State where
  pool : List GhostImage
  devs : List Dev

inductive Event where
  | create (filename : String) (opened : Option (Int × BitVec 64))
  | remove (dev : Dev)

/-- A sparse ghost device is created or removed; a file that is opened gets a
descriptor that no open file has. -/
inductive Step : State → Event → State → Prop where
  | create {s : State} {filename : String} {opened : Option (Int × BitVec 64)}
      {pool : List GhostImage} {fd : Int} {areaPtr : BitVec 64}
      (hfresh : ∀ o ∈ opened, ∀ img ∈ s.pool, img.fd ≠ o.1)
      (hget : vmGhostImageGet opened s.pool filename = some (pool, fd, areaPtr)) :
      Step s (.create filename opened) ⟨pool, (filename, fd, areaPtr) :: s.devs⟩
  | failed {s : State} {filename : String} {opened : Option (Int × BitVec 64)}
      (hget : vmGhostImageGet opened s.pool filename = none) :
      Step s (.create filename opened) s
  | remove {s : State} {dev : Dev} {pool : List GhostImage} {ret : Int} (hdev : dev ∈ s.devs)
      (hrelease : vmGhostImageRelease s.pool dev.2.1 = some (pool, ret)) :
      Step s (.remove dev) ⟨pool, s.devs.erase dev⟩

/-- Every device has its image in the pool, with as many references as it has devices
and at least one. -/
structure Pooled (s : State) : Prop where
  names : (s.pool.map GhostImage.filename).Nodup
  fds : (s.pool.map GhostImage.fd).Nodup
  held : ∀ dev ∈ s.devs, ∃ img ∈ s.pool, img.dev = dev
  counted : ∀ img ∈ s.pool, img.refCount = s.devs.count img.dev ∧ 0 < img.refCount

theorem updateFirst_split {p : GhostImage → Bool} {f : GhostImage → Option GhostImage}
    {a b : List GhostImage} {img : GhostImage} (ha : ∀ x ∈ a, p x = false) (himg : p img = true) :
    updateFirst p f (a ++ img :: b) = a ++ ((f img).toList ++ b) := by
  induction a with
  | nil => simp [updateFirst, himg]
  | cons x a ih =>
    rw [List.cons_append, updateFirst, ha x List.mem_cons_self, ih fun y hy =>
      ha y (List.mem_cons_of_mem x hy)]
    rfl

variable {a b : List GhostImage} {img : GhostImage} {devs devs' : List Dev} {dev : Dev}

/-- Only the references to one image change; it goes with the last of them. -/
theorem Pooled.update (h : Pooled ⟨a ++ img :: b, devs⟩) {new : Option GhostImage}
    (hnew : ∀ x ∈ new, x.dev = img.dev ∧ x.refCount = devs'.count img.dev)
    (hsome : new.isSome = decide (0 < devs'.count img.dev))
    (hother : ∀ dev ≠ img.dev, devs'.count dev = devs.count dev) :
    Pooled ⟨a ++ (new.toList ++ b), devs'⟩ := by
  obtain ⟨hnames, hfds, hheld, hcounted⟩ := h
  have hapart : ∀ x ∈ a ++ b, x.dev ≠ img.dev := by
    intro x hx heq
    have hname : x.filename = img.filename := congrArg Prod.fst heq
    have hsplit := hnames
    rw [List.map_append, List.map_cons, List.nodup_middle, ← List.map_append, ← hname] at hsplit
    exact (List.nodup_cons.mp hsplit).1 (List.mem_map_of_mem hx)
  have hsub : ∀ {α : Type} (f : Dev → α), ((a ++ (new.toList ++ b)).map fun x => f x.dev).Sublist
      ((a ++ img :: b).map fun x => f x.dev) := by
    intro α f
    rw [List.map_append, List.map_append, List.map_append, List.map_cons]
    refine (List.Sublist.refl _).append ?_
    cases new with
    | none => exact List.sublist_cons_self _ _
    | some x => simp [(hnew x rfl).1]
  refine ⟨hnames.sublist (hsub Prod.fst), hfds.sublist (hsub fun dev => dev.2.1), ?_, ?_⟩
  · intro dev hdev
    by_cases heq : dev = img.dev
    · subst heq
      rw [decide_eq_true (List.count_pos_iff.mpr hdev), Option.isSome_iff_exists] at hsome
      obtain ⟨x, rfl⟩ := hsome
      exact ⟨x, by simp, (hnew x rfl).1⟩
    · rw [← List.count_pos_iff, hother dev heq, List.count_pos_iff] at hdev
      obtain ⟨x, hx, rfl⟩ := hheld dev hdev
      refine ⟨x, ?_, rfl⟩
      simp only [List.mem_append, List.mem_cons] at hx ⊢
      obtain hx | rfl | hx := hx
      · exact .inl hx
      · exact absurd rfl heq
      · exact .inr (.inr hx)
  · intro x hx
    simp only [List.mem_append, Option.mem_toList] at hx
    by_cases hxn : x ∈ new
    · obtain ⟨hdev, hcount⟩ := hnew x hxn
      rw [Option.isSome_iff_exists.mpr ⟨x, hxn⟩, eq_comm, decide_eq_true_iff] at hsome
      rw [hdev, hcount]
      exact ⟨rfl, hsome⟩
    · have hold : x ∈ a ++ b := by
        rw [List.mem_append]
        tauto
      rw [hother _ (hapart x hold)]
      refine hcounted x ?_
      rw [List.mem_append, List.mem_cons]
      exact (List.mem_append.mp hold).imp_right .inr

theorem Pooled.get {s : State} {filename : String} {opened : Option (Int × BitVec 64)}
    {pool : List GhostImage} {fd : Int} {areaPtr : BitVec 64} (h : Pooled s)
    (hfresh : ∀ o ∈ opened, ∀ img ∈ s.pool, img.fd ≠ o.1)
    (hget : vmGhostImageGet opened s.pool filename = some (pool, fd, areaPtr)) :
    Pooled ⟨pool, (filename, fd, areaPtr) :: s.devs⟩ := by
  rw [vmGhostImageGet] at hget
  split at hget
  · rename_i img hfind
    obtain ⟨himg, a, b, hsplit, ha⟩ := List.find?_eq_some_iff_append.mp hfind
    obtain rfl := of_decide_eq_true himg
    cases hget
    have hdev : (img.filename, img.fd, img.areaPtr) = img.dev := rfl
    obtain ⟨hcount, hpos⟩ := h.counted img (List.mem_of_find?_eq_some hfind)
    rw [hdev, hsplit, updateFirst_split (by simpa using ha) himg]
    refine Pooled.update (hsplit ▸ h) ?_ (by simp) fun dev hne =>
      List.count_cons_of_ne (Ne.symm hne)
    rintro x ⟨⟩
    exact ⟨rfl, by rw [List.count_cons_self, hcount]⟩
  · rename_i hfind
    obtain ⟨⟨fd, areaPtr⟩, rfl, heq⟩ := Option.map_eq_some_iff.mp hget
    cases heq
    have hname : ∀ img ∈ s.pool, img.filename ≠ filename := by simpa using hfind
    have hnew : (filename, fd, areaPtr) ∉ s.devs := by
      intro hdev
      obtain ⟨img, himg, heq⟩ := h.held _ hdev
      exact hname img himg (congrArg Prod.fst heq)
    refine ⟨?_, ?_, ?_, ?_⟩
    · rw [List.map_cons, List.nodup_cons]
      exact ⟨by simpa using hname, h.names⟩
    · rw [List.map_cons, List.nodup_cons]
      exact ⟨by simpa using hfresh _ rfl, h.fds⟩
    · intro dev hdev
      obtain rfl | hdev := List.mem_cons.mp hdev
      · exact ⟨_, List.mem_cons_self, rfl⟩
      · obtain ⟨img, himg, heq⟩ := h.held dev hdev
        exact ⟨img, List.mem_cons_of_mem _ himg, heq⟩
    · intro img himg
      obtain rfl | himg := List.mem_cons.mp himg
      · exact ⟨by rw [GhostImage.dev, List.count_cons_self, List.count_eq_zero_of_not_mem hnew],
          Nat.one_pos⟩
      · have hne : img.dev ≠ (filename, fd, areaPtr) :=
          fun heq => hname img himg (congrArg Prod.fst heq)
        rw [List.count_cons_of_ne (Ne.symm hne)]
        exact h.counted img himg

theorem Pooled.release {s : State} (h : Pooled s) (hdev : dev ∈ s.devs) :
    ∃ pool, vmGhostImageRelease s.pool dev.2.1 = some (pool, 0) ∧
      Pooled ⟨pool, s.devs.erase dev⟩ := by
  obtain ⟨held, hheld, rfl⟩ := h.held dev hdev
  obtain ⟨img, hfind⟩ : ∃ img, s.pool.find? (fun img => img.fd = held.fd) = some img :=
    Option.isSome_iff_exists.mp (List.find?_isSome.mpr ⟨held, hheld, by simp⟩)
  obtain ⟨himg, a, b, hsplit, ha⟩ := List.find?_eq_some_iff_append.mp hfind
  obtain rfl := List.inj_on_of_nodup_map h.fds (List.mem_of_find?_eq_some hfind) hheld
    (of_decide_eq_true himg)
  obtain ⟨hcount, hpos⟩ := h.counted img hheld
  refine ⟨_, by rw [vmGhostImageRelease, GhostImage.dev, hfind]; exact if_neg (by omega), ?_⟩
  rw [hsplit, GhostImage.dev, updateFirst_split (by simpa using ha) himg]
  have herase : (s.devs.erase img.dev).count img.dev = img.refCount - 1 := by
    rw [List.count_erase_self, hcount]
  refine Pooled.update (hsplit ▸ h) ?_ ?_ fun dev hne => List.count_erase_of_ne hne
  · intro x hx
    split at hx
    · cases hx
    · cases hx
      exact ⟨rfl, herase.symm⟩
  · change _ = decide (0 < (s.devs.erase img.dev).count img.dev)
    rw [herase]
    split <;> simp <;> omega

theorem Pooled.step {s s' : State} {event : Event} (h : Pooled s) (hs : Step s event s') :
    Pooled s' := by
  cases hs with
  | create hfresh hget => exact h.get hfresh hget
  | failed => exact h
  | remove hdev hrelease =>
    obtain ⟨pool, hok, hpooled⟩ := h.release hdev
    cases hok.symm.trans hrelease
    exact hpooled

/-- Every device has its image and can give it back, and no assertion fails. -/
def Sound (s : State) : Prop :=
  Pooled s ∧ ∀ dev ∈ s.devs, ∃ pool, vmGhostImageRelease s.pool dev.2.1 = some (pool, 0)

theorem images_sound {trace : List (State × Event)} {t : State}
    (hrun : Run Step ⟨[], []⟩ trace t) : Always Sound trace t := by
  have h := hrun.always (fun _ _ _ h hs => Pooled.step h hs)
    ⟨List.nodup_nil, List.nodup_nil, by simp, by simp⟩
  have hsound : ∀ s, Pooled s → Sound s := fun s hs =>
    ⟨hs, fun dev hdev => (hs.release hdev).imp fun _ hpool => hpool.1⟩
  exact ⟨hsound t h.1, fun x hx => hsound x.1 (h.2 x hx)⟩

theorem images_sound_twice : ∃ trace t, Run Step ⟨[], []⟩ trace t ∧ Always Sound trace t ∧
    t.devs = [("ghost", 3, 0x1000), ("ghost", 3, 0x1000)] := by
  have hfirst : Step ⟨[], []⟩ (.create "ghost" (some (3, 0x1000)))
      ⟨[⟨"ghost", 1, 3, 0x1000⟩], [("ghost", 3, 0x1000)]⟩ := .create (by simp) rfl
  have hsecond : Step ⟨[⟨"ghost", 1, 3, 0x1000⟩], [("ghost", 3, 0x1000)]⟩ (.create "ghost" none)
      ⟨[⟨"ghost", 2, 3, 0x1000⟩], [("ghost", 3, 0x1000), ("ghost", 3, 0x1000)]⟩ :=
    .create (by simp) rfl
  have hrun := Run.start.next hfirst |>.next hsecond
  exact ⟨_, _, hrun, images_sound hrun, rfl⟩

end Dynamips.Ghost
