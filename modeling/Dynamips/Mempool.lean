import Dynamips.Lib.BackLinks
import Dynamips.Lib.Bytes
import Dynamips.Lib.Runs
import Mathlib.Algebra.BigOperators.Group.List.Basic
import Mathlib.Data.List.Perm.Basic

/-! Memory pools, whose blocks carry the links of the list that they are in. The mutex of
a pool is a plain one, which is always taken and given back. -/
set_option autoImplicit false

namespace Dynamips.Mempool
open BackLinks Runs

abbrev PoolPtr := Nat

abbrev BlockPtr := Nat

def memblockTag : BitVec 32 := 0xdeadbeef

def sizeofMemblock : BitVec 64 := 48

def intMax : Int := 2147483647

/-- `memblock`, with the bytes behind it. -/
structure Memblock where
  tag : BitVec 32
  blockSize : BitVec 64
  next : Option BlockPtr
  prev : Option BlockPtr
  pool : PoolPtr
  data : List Byte

structure Pool where
  blockList : Option BlockPtr
  nrBlocks : Int
  totalSize : BitVec 64

structure Mem where
  pools : PoolPtr → Pool
  blocks : BlockPtr → Memblock

namespace Mem

def setPool (s : Mem) (p : PoolPtr) (pool : Pool) : Mem :=
  { s with pools := Function.update s.pools p pool }

def setBlock (s : Mem) (x : BlockPtr) (block : Memblock) : Mem :=
  { s with blocks := Function.update s.blocks x block }

def setNext (s : Mem) (x : BlockPtr) (next : Option BlockPtr) : Mem :=
  s.setBlock x { s.blocks x with next }

def setPrev (s : Mem) (x : BlockPtr) (prev : Option BlockPtr) : Mem :=
  s.setBlock x { s.blocks x with prev }

end Mem

def insertBlock (s : Mem) (p : PoolPtr) (size : BitVec 64) (data : List Byte) (x : BlockPtr) :
    Mem :=
  let s := s.setBlock x
    { tag := memblockTag
      blockSize := size
      next := (s.pools p).blockList
      prev := none
      pool := p
      data }
  let s := match (s.blocks x).next with
    | some y => s.setPrev y (some x)
    | none => s
  s.setPool p
    { blockList := some x
      nrBlocks := (s.pools p).nrBlocks + 1
      totalSize := (s.pools p).totalSize + size }

/-- `allocate`; `storage` is what the memory resource gives, `junk` what is there. -/
def allocate (s : Mem) (p : PoolPtr) (size : BitVec 64) (zeroed : Bool)
    (storage : Option BlockPtr) (junk : Nat → Byte) : Option (BlockPtr × Mem) :=
  if BitVec.allOnes 64 - sizeofMemblock < size ∨
      BitVec.allOnes 64 - (s.pools p).totalSize < size ∨ (s.pools p).nrBlocks = intMax then none
  else
    let data := if zeroed then List.replicate size.toNat 0 else (List.range size.toNat).map junk
    storage.map fun x => (x, insertBlock s p size data x)

def releaseBlock (s : Mem) (x : BlockPtr) : Mem :=
  let p := (s.blocks x).pool
  let s := match (s.blocks x).prev with
    | some y => s.setNext y (s.blocks x).next
    | none => s.setPool p { s.pools p with blockList := (s.blocks x).next }
  let s := match (s.blocks x).next with
    | some y => s.setPrev y (s.blocks x).prev
    | none => s
  let s := s.setPool p
    { s.pools p with
      nrBlocks := (s.pools p).nrBlocks - 1
      totalSize := (s.pools p).totalSize - (s.blocks x).blockSize }
  s.setBlock x { s.blocks x with tag := 0 }

def valid (s : Mem) (x : BlockPtr) : Bool := decide ((s.blocks x).tag = memblockTag)

/-- `mp_alloc`, and `mp_alloc_n0` where the block is not zeroed. -/
def mpAlloc (s : Mem) (pool : Option PoolPtr) (size : BitVec 64) (zeroed : Bool)
    (storage : Option BlockPtr) (junk : Nat → Byte) : Option BlockPtr × Mem :=
  match pool with
  | none => (none, s)
  | some p =>
    match allocate s p size zeroed storage junk with
    | none => (none, s)
    | some (x, s) => (some x, s)

def mpFree (s : Mem) (addr : Option BlockPtr) : Int × Mem :=
  match addr with
  | none => (0, s)
  | some x => if !valid s x then (-1, s) else (0, releaseBlock s x)

/-- The `memcpy` of `mp_realloc`. -/
def copyBlock (s : Mem) (x y : BlockPtr) (size : BitVec 64) : Mem :=
  let n := min (s.blocks x).blockSize.toNat size.toNat
  s.setBlock y { s.blocks y with data := memcpy (s.blocks y).data 0 ((s.blocks x).data.take n) }

def mpRealloc (s : Mem) (addr : Option BlockPtr) (size : BitVec 64)
    (storage : Option BlockPtr) (junk : Nat → Byte) : Option BlockPtr × Mem :=
  match addr with
  | none => (none, s)
  | some x =>
    if !valid s x then (none, s)
    else
      match allocate s (s.blocks x).pool size false storage junk with
      | none => (none, s)
      | some (y, s) => (some y, releaseBlock (copyBlock s x y size) x)

def mpFreeAllBlocks (s : Mem) (pool : Option PoolPtr) : Mem :=
  match pool with
  | none => s
  | some p => s.setPool p ⟨none, 0, 0⟩

inductive Op where
  | alloc (pool : Option PoolPtr) (size : BitVec 64) (zeroed : Bool) (storage : Option BlockPtr)
      (junk : Nat → Byte)
  | realloc (addr : Option BlockPtr) (size : BitVec 64) (storage : Option BlockPtr)
      (junk : Nat → Byte)
  | free (addr : Option BlockPtr)
  | freeAllBlocks (pool : Option PoolPtr)
  | write (x : BlockPtr) (data : List Byte)

structure World where
  mem : Mem
  live : BlockPtr → Option PoolPtr

/-- Pools as `mp_create_pool` leaves them. -/
def World.init (blocks : BlockPtr → Memblock) : World where
  mem := ⟨fun _ => ⟨none, 0, 0⟩, blocks⟩
  live := fun _ => none

/-- A call is with a block that was handed out, with none or with one that is marked as
free; the memory resource gives a block that is not in use. -/
def Enabled (w : World) : Op → Prop
  | .alloc _ _ _ storage _ => ∀ x, storage = some x → w.live x = none
  | .realloc addr _ storage _ =>
    (∀ x, addr = some x → w.live x ≠ none ∨ (w.mem.blocks x).tag ≠ memblockTag) ∧
      ∀ x, storage = some x → w.live x = none
  | .free addr => ∀ x, addr = some x → w.live x ≠ none ∨ (w.mem.blocks x).tag ≠ memblockTag
  | .freeAllBlocks _ => True
  | .write x data => w.live x ≠ none ∧ data.length = (w.mem.blocks x).blockSize.toNat

/-- A block moves from `x` to `y` in what was handed out. -/
def handOver (live : BlockPtr → Option PoolPtr) (x y : Option BlockPtr) (p : Option PoolPtr) :
    BlockPtr → Option PoolPtr :=
  fun z => if y = some z then p else if x = some z then none else live z

@[simp] theorem handOver_none (live : BlockPtr → Option PoolPtr) (p : Option PoolPtr) :
    handOver live none none p = live := by
  funext z
  simp [handOver]

def next (w : World) : Op → World
  | .alloc pool size zeroed storage junk =>
    let r := mpAlloc w.mem pool size zeroed storage junk
    ⟨r.2, handOver w.live none r.1 pool⟩
  | .realloc addr size storage junk =>
    let r := mpRealloc w.mem addr size storage junk
    ⟨r.2, if r.1 = none then w.live else handOver w.live addr r.1 (addr.bind w.live)⟩
  | .free addr =>
    let r := mpFree w.mem addr
    ⟨r.2, if r.1 = 0 then handOver w.live addr none none else w.live⟩
  | .freeAllBlocks pool =>
    ⟨mpFreeAllBlocks w.mem pool, fun x => if w.live x = pool then none else w.live x⟩
  | .write x data => ⟨w.mem.setBlock x { w.mem.blocks x with data }, w.live⟩

def Step (w : World) (op : Op) (w' : World) : Prop := Enabled w op ∧ w' = next w op

/-! What the pools are for. -/

/-- The blocks of the list, each with a link back to the one in front of it. -/
def Linked (blocks : BlockPtr → Memblock) : Option BlockPtr → Option BlockPtr → List BlockPtr → Prop
  | first, _, [] => first = none
  | first, prev, x :: l =>
    first = some x ∧ (blocks x).prev = prev ∧ Linked blocks (blocks x).next (some x) l

/-- The list of a pool has its blocks, once each, and the pool has their number and size. -/
structure PoolOk (w : World) (p : PoolPtr) (l : List BlockPtr) : Prop where
  linked : Linked w.mem.blocks (w.mem.pools p).blockList none l
  nodup : l.Nodup
  mem : ∀ x, x ∈ l ↔ w.live x = some p
  count : (w.mem.pools p).nrBlocks = l.length
  size : (w.mem.pools p).totalSize.toNat = (l.map fun x => (w.mem.blocks x).blockSize.toNat).sum

def PoolsOk (w : World) : Prop := ∀ p, ∃ l, PoolOk w p l

/-- A block that is moved has its first bytes; where it is not, nothing has changed. -/
def ReallocOk (w : World) : Op → Prop
  | .realloc addr size storage junk =>
    let r := mpRealloc w.mem addr size storage junk
    (r.1 = none → r.2 = w.mem) ∧
      ∀ x y, addr = some x → r.1 = some y → (r.2.blocks y).blockSize = size ∧
        (r.2.blocks y).data.length = size.toNat ∧
          (r.2.blocks y).data.take (min (w.mem.blocks x).blockSize.toNat size.toNat) =
            (w.mem.blocks x).data.take (min (w.mem.blocks x).blockSize.toNat size.toNat)
  | _ => True

variable {s : Mem} {p : PoolPtr} {x y z : BlockPtr} {w w' : World} {op : Op}
  {lists : PoolPtr → List BlockPtr} {size : BitVec 64} {data : List Byte}

@[simp] theorem blocks_setBlock (s : Mem) (x z : BlockPtr) (b : Memblock) :
    (s.setBlock x b).blocks z = if z = x then b else s.blocks z := by
  simp [Mem.setBlock, Function.update_apply]

@[simp] theorem pools_setBlock (s : Mem) (x : BlockPtr) (b : Memblock) :
    (s.setBlock x b).pools = s.pools := rfl

@[simp] theorem blocks_setPool (s : Mem) (p : PoolPtr) (pool : Pool) :
    (s.setPool p pool).blocks = s.blocks := rfl

@[simp] theorem pools_setPool (s : Mem) (p q : PoolPtr) (pool : Pool) :
    (s.setPool p pool).pools q = if q = p then pool else s.pools q := by
  simp [Mem.setPool, Function.update_apply]

def prevCell (b : Memblock) : Cell PoolPtr BlockPtr :=
  match b.prev with
  | none => .head b.pool
  | some y => .next y

def heap (s : Mem) : Heap PoolPtr BlockPtr where
  head p := (s.pools p).blockList
  next x := (s.blocks x).next
  pprev x := some (prevCell (s.blocks x))

theorem heap_eq {h h' : Heap PoolPtr BlockPtr} (hread : ∀ c, h.read c = h'.read c)
    (hpprev : ∀ x, h.pprev x = h'.pprev x) : h = h' := by
  obtain ⟨head, next, pprev⟩ := h
  obtain ⟨head', next', pprev'⟩ := h'
  obtain rfl : head = head' := funext fun p => hread (.head p)
  obtain rfl : next = next' := funext fun x => hread (.next x)
  obtain rfl : pprev = pprev' := funext hpprev
  rfl

theorem blocks_insertBlock (hx : (s.pools p).blockList ≠ some x) (z : BlockPtr) :
    (insertBlock s p size data x).blocks z =
      if z = x then ⟨memblockTag, size, (s.pools p).blockList, none, p, data⟩
      else { s.blocks z with
        prev := if (s.pools p).blockList = some z then some x else (s.blocks z).prev } := by
  cases hlist : (s.pools p).blockList with
  | none => simp [insertBlock, hlist]
  | some y =>
    have hyx : y ≠ x := by
      rintro rfl
      exact hx hlist
    by_cases hz : z = x
    · subst hz
      simp [insertBlock, Mem.setPrev, hlist, Ne.symm hyx]
    · by_cases hzy : z = y
      · subst hzy
        simp [insertBlock, Mem.setPrev, hlist, hz]
      · simp [insertBlock, Mem.setPrev, hlist, hz, hzy, Ne.symm hzy]

theorem pools_insertBlock (s : Mem) (p : PoolPtr) (size : BitVec 64) (data : List Byte)
    (x : BlockPtr) (q : PoolPtr) : (insertBlock s p size data x).pools q =
      if q = p then ⟨some x, (s.pools p).nrBlocks + 1, (s.pools p).totalSize + size⟩
      else s.pools q := by
  cases hlist : (s.pools p).blockList <;> simp [insertBlock, Mem.setPrev, hlist]

theorem heap_insertBlock (hx : (s.pools p).blockList ≠ some x) :
    heap (insertBlock s p size data x) = insertAt (heap s) (.head p) x := by
  have hread : (heap s).read (.head p) = (s.pools p).blockList := rfl
  refine heap_eq (fun c => ?_) fun z => ?_
  · rw [read_insertAt, hread]
    cases c with
    | head q => by_cases hq : q = p <;> simp [heap, Heap.read, pools_insertBlock, hq]
    | next z => by_cases hz : z = x <;> simp [heap, Heap.read, blocks_insertBlock hx, hz]
  · rw [pprev_insertAt (by simp), hread]
    by_cases hz : z = x
    · simp [heap, blocks_insertBlock hx, hz, prevCell]
    · by_cases hfirst : (s.pools p).blockList = some z
      · simp [heap, blocks_insertBlock hx, hz, hfirst, prevCell]
      · simp [heap, blocks_insertBlock hx, hz, hfirst, prevCell]

theorem ne_of_eq_some {α : Type} {o : Option α} {x y : α} (hx : o ≠ some x) (hy : o = some y) :
    x ≠ y := by
  rintro rfl
  exact hx hy

theorem blocks_releaseBlock (hp : (s.blocks x).prev ≠ some x) (hn : (s.blocks x).next ≠ some x)
    (z : BlockPtr) : (releaseBlock s x).blocks z =
      if z = x then { s.blocks x with tag := 0 }
      else { s.blocks z with
        next := if (s.blocks x).prev = some z then (s.blocks x).next else (s.blocks z).next
        prev := if (s.blocks x).next = some z then (s.blocks x).prev else (s.blocks z).prev } := by
  cases hprev : (s.blocks x).prev with
  | none =>
    cases hnext : (s.blocks x).next with
    | none => simp [releaseBlock, hprev, hnext]
    | some b =>
      have hxb := ne_of_eq_some hn hnext
      by_cases hzb : z = b
      · subst hzb
        simp [releaseBlock, Mem.setPrev, hprev, hnext, hxb, Ne.symm hxb]
      · simp [releaseBlock, Mem.setPrev, hprev, hnext, hxb, hzb, Ne.symm hzb]
  | some a =>
    have hxa := ne_of_eq_some hp hprev
    cases hnext : (s.blocks x).next with
    | none =>
      by_cases hza : z = a
      · subst hza
        simp [releaseBlock, Mem.setNext, hprev, hnext, hxa, Ne.symm hxa]
      · simp [releaseBlock, Mem.setNext, hprev, hnext, hxa, hza, Ne.symm hza]
    | some b =>
      have hxb := ne_of_eq_some hn hnext
      by_cases hza : z = a
      · subst hza
        by_cases hzb : z = b
        · subst hzb
          simp [releaseBlock, Mem.setNext, Mem.setPrev, hprev, hnext, hxa, Ne.symm hxa]
        · simp [releaseBlock, Mem.setNext, Mem.setPrev, hprev, hnext, hxa, Ne.symm hxa, hxb, hzb,
            Ne.symm hzb]
      · by_cases hzb : z = b
        · subst hzb
          simp [releaseBlock, Mem.setNext, Mem.setPrev, hprev, hnext, hxa, hza, Ne.symm hza, hxb,
            Ne.symm hxb]
        · simp [releaseBlock, Mem.setNext, Mem.setPrev, hprev, hnext, hxa, hza, Ne.symm hza, hxb,
            hzb, Ne.symm hzb]

theorem pools_releaseBlock (hp : (s.blocks x).prev ≠ some x) (hn : (s.blocks x).next ≠ some x)
    (q : PoolPtr) : (releaseBlock s x).pools q =
      if q = (s.blocks x).pool then
        ⟨if (s.blocks x).prev = none then (s.blocks x).next else (s.pools q).blockList,
          (s.pools q).nrBlocks - 1, (s.pools q).totalSize - (s.blocks x).blockSize⟩
      else s.pools q := by
  cases hprev : (s.blocks x).prev with
  | none =>
    cases hnext : (s.blocks x).next with
    | none => by_cases hq : q = (s.blocks x).pool <;> simp [releaseBlock, hprev, hnext, hq]
    | some b =>
      have hxb := ne_of_eq_some hn hnext
      by_cases hq : q = (s.blocks x).pool <;>
        simp [releaseBlock, Mem.setPrev, hprev, hnext, hq, hxb]
  | some a =>
    have hxa := ne_of_eq_some hp hprev
    cases hnext : (s.blocks x).next with
    | none =>
      by_cases hq : q = (s.blocks x).pool <;>
        simp [releaseBlock, Mem.setNext, hprev, hnext, hq, hxa]
    | some b =>
      have hxb := ne_of_eq_some hn hnext
      by_cases hq : q = (s.blocks x).pool <;>
        simp [releaseBlock, Mem.setNext, Mem.setPrev, hprev, hnext, hq, hxa, hxb]

theorem heap_releaseBlock (hp : (s.blocks x).prev ≠ some x) (hn : (s.blocks x).next ≠ some x)
    (hpool : ∀ y, (s.blocks x).next = some y → (s.blocks y).pool = (s.blocks x).pool) :
    heap (releaseBlock s x) = unlink (heap s) x := by
  have hcell : (heap s).pprev x = some (prevCell (s.blocks x)) := rfl
  refine heap_eq (fun c => ?_) fun z => ?_
  · rw [read_unlink hcell]
    cases c with
    | head q =>
      cases hprev : (s.blocks x).prev with
      | none =>
        by_cases hq : q = (s.blocks x).pool <;>
          simp [heap, Heap.read, pools_releaseBlock hp hn, prevCell, hprev, hq]
      | some a =>
        by_cases hq : q = (s.blocks x).pool <;>
          simp [heap, Heap.read, pools_releaseBlock hp hn, prevCell, hprev, hq]
    | next z =>
      cases hprev : (s.blocks x).prev with
      | none =>
        by_cases hz : z = x <;>
          simp [heap, Heap.read, blocks_releaseBlock hp hn, prevCell, hprev, hz]
      | some a =>
        by_cases hz : z = x
        · have hxa := ne_of_eq_some hp hprev
          simp [heap, Heap.read, blocks_releaseBlock hp hn, prevCell, hprev, hz, hxa]
        · by_cases hza : z = a
          · subst hza
            simp [heap, Heap.read, blocks_releaseBlock hp hn, prevCell, hprev, hz]
          · simp [heap, Heap.read, blocks_releaseBlock hp hn, prevCell, hprev, hz, hza, Ne.symm hza]
  · rw [pprev_unlink hcell]
    by_cases hz : z = x
    · subst hz
      simp [heap, blocks_releaseBlock hp hn, prevCell, hn]
    · by_cases hnext : (s.blocks x).next = some z
      · have hsame := hpool z hnext
        simp [heap, blocks_releaseBlock hp hn, prevCell, hz, hnext, hsame]
      · simp [heap, blocks_releaseBlock hp hn, prevCell, hz, hnext]

end Dynamips.Mempool
