import Dynamips.Ppc32Mem

/-! The translated code blocks of the PPC32 JIT compiler and the executable
pages that they are built from (ppc32_jit.h, ppc32_jit.c). -/
set_option autoImplicit false

namespace Dynamips.Ppc32

def PPC_EXEC_AREA_SIZE : BitVec 32 := 64

def PPC_JIT_BUFSIZE : Nat := 32768

def PPC_JIT_MAX_CHUNKS : Nat := 64

def PPC32_INSN_PER_PAGE : Nat := 1024

/-- An entry of `exec_page_array`. -/
abbrev ExecPageId := Nat

/-- A block that `ppc32_jit_tcb_alloc` got from malloc, in the order of the calls. -/
abbrev TcbId := Nat

/-- `ppc32_jit_tcb_t`. `jitChunks` are the slots below `jit_chunk_pos`; those
from there on are NULL. An address is counted from the executable area. -/
structure Tcb where
  noFlush : Bool
  startIa : BitVec 32
  jitInsnPtr : BitVec 10 → Option Int
  accCount : BitVec 64
  jitPtr : Int
  jitBuffer : Option ExecPageId
  jitChunks : List (Option ExecPageId)
  physPage : BitVec 32
  physHash : BitVec 16
  targetBitmap : BitVec 10 → Bool
  targetUndefCnt : BitVec 32

def Tcb.zero : Tcb where
  noFlush := false
  startIa := 0
  jitInsnPtr := fun _ => none
  accCount := 0
  jitPtr := 0
  jitBuffer := none
  jitChunks := []
  physPage := 0
  physHash := 0
  targetBitmap := fun _ => false
  targetUndefCnt := 0

/-- The JIT fields of `cpu_ppc_t`. `compiling` and `lost` are not in the source:
the block that is being translated, and whether a block was taken off the list
while it was. -/
structure Jit where
  tcbs : TcbId → Tcb
  mallocs : Nat
  tcbList : List TcbId
  tcbFreeList : List TcbId
  execBlkMap : BitVec 17 → Option TcbId
  execPhysMap : BitVec 16 → List TcbId
  execPageCount : Nat
  execPageFreeList : List ExecPageId
  execPageAlloc : BitVec 64
  compiledPages : BitVec 32
  jitFlushMethod : Bool
  compiling : Option TcbId
  lost : Bool

def Jit.setTcb (j : Jit) (b : TcbId) (t : Tcb) : Jit :=
  { j with tcbs := Function.update j.tcbs b t }

/-- `exec_page_count` for an area of some megabytes. -/
def execPageCountOf (areaSize : BitVec 32) : Nat :=
  ((if areaSize = 0 then PPC_EXEC_AREA_SIZE else areaSize) * 1048576).toNat / PPC_JIT_BUFSIZE

def jitInit (execAreaSize : BitVec 32) : Jit where
  tcbs := fun _ => Tcb.zero
  mallocs := 0
  tcbList := []
  tcbFreeList := []
  execBlkMap := fun _ => none
  execPhysMap := fun _ => []
  execPageCount := execPageCountOf execAreaSize
  execPageFreeList := (List.range (execPageCountOf execAreaSize)).reverse
  execPageAlloc := 0
  compiledPages := 0
  jitFlushMethod := false
  compiling := none
  lost := false

def vpage (ia : BitVec 32) : BitVec 32 := ia &&& ~~~PPC32_MIN_PAGE_IMASK

def insnOffset (ia : BitVec 32) : BitVec 10 :=
  ((ia &&& PPC32_MIN_PAGE_IMASK) >>> 2).setWidth 10

variable (sboxArray : BitVec 8 → BitVec 32)

def sboxU32 (val : BitVec 32) : BitVec 32 :=
  let hash := sboxArray (val.setWidth 8) * 3
  let hash := (hash ^^^ sboxArray ((val >>> 8).setWidth 8)) * 3
  let hash := (hash ^^^ sboxArray ((val >>> 16).setWidth 8)) * 3
  hash ^^^ sboxArray ((val >>> 24).setWidth 8)

def jitGetIaHash (ia : BitVec 32) : BitVec 17 :=
  let pageHash := sboxU32 sboxArray (ia >>> 12)
  (pageHash ^^^ (pageHash >>> 14)).setWidth 17

def jitGetPhysHash (physPage : BitVec 32) : BitVec 16 :=
  let pageHash := sboxU32 sboxArray physPage
  (pageHash ^^^ (pageHash >>> 12)).setWidth 16

def jitFindByPhysPage (j : Jit) (physPage : BitVec 32) : Option TcbId :=
  (j.execPhysMap (jitGetPhysHash sboxArray physPage)).find? fun b =>
    (j.tcbs b).physPage == physPage

def execPageFree (j : Jit) : Option ExecPageId → Jit
  | none => j
  | some p =>
    { j with
      execPageFreeList := p :: j.execPageFreeList
      execPageAlloc := j.execPageAlloc - 1 }

def tcbFreeCodeChunks (j : Jit) (b : TcbId) : Jit :=
  let t := j.tcbs b
  let j := t.jitChunks.foldl execPageFree j
  let j := execPageFree j t.jitBuffer
  j.setTcb b { t with jitChunks := t.jitChunks.map fun _ => none, jitBuffer := none }

/-- The list removal of `ppc32_jit_tcb_free`. -/
def tcbUnlink (j : Jit) (b : TcbId) : Jit :=
  { j with
    tcbList := j.tcbList.erase b
    execPhysMap := Function.update j.execPhysMap (j.tcbs b).physHash
      ((j.execPhysMap (j.tcbs b).physHash).erase b)
    lost := j.lost || decide (j.compiling = some b) }

def tcbFree (j : Jit) (b : TcbId) (listRemoval : Bool) : Jit :=
  let j := if listRemoval then tcbUnlink j b else j
  let j := tcbFreeCodeChunks j b
  { j with tcbFreeList := b :: j.tcbFreeList }

def Jit.setBlk (j : Jit) (iaHash : BitVec 17) (b : Option TcbId) : Jit :=
  { j with execBlkMap := Function.update j.execBlkMap iaHash b }

/-- A block is freed and its entry of `exec_blk_map` cleared, as
`ppc32_jit_flush` and `ppc32_mem_access` do. -/
def tcbRetire (j : Jit) (b : TcbId) : Jit :=
  let iaHash := jitGetIaHash sboxArray (j.tcbs b).startIa
  let j := tcbFree j b true
  if j.execBlkMap iaHash = some b then j.setBlk iaHash none else j

/-- The body of the loop of `ppc32_jit_flush`. -/
def flushBlock (threshold : BitVec 32) (jc : Jit × BitVec 32) (p : TcbId) : Jit × BitVec 32 :=
  if (jc.1.tcbs p).noFlush then jc
  else if (jc.1.tcbs p).accCount ≤ threshold.setWidth 64 then
    (tcbRetire sboxArray jc.1 p, jc.2 + 1)
  else jc

def jitFlush (j : Jit) (threshold : BitVec 32) : Jit × BitVec 32 :=
  let threshold := if threshold = 0 then -1 else threshold
  let r := j.tcbList.foldl (flushBlock sboxArray threshold) (j, 0)
  ({ r.1 with compiledPages := r.1.compiledPages - r.2 }, r.2)

/-- The flush of `exec_page_alloc` when no page is free. -/
def flushForPage (j : Jit) : Jit :=
  let j' :=
    if j.jitFlushMethod then (jitFlush sboxArray j 0).1
    else
      let j' := (jitFlush sboxArray j 100).1
      if j'.execPageFreeList.isEmpty then (jitFlush sboxArray j' 0).1 else j'
  { j' with jitFlushMethod := !j'.jitFlushMethod }

/-- The end of `exec_page_alloc`. -/
def takePage (j : Jit) : Jit × Option ExecPageId :=
  match j.execPageFreeList with
  | [] => (j, none)
  | p :: rest =>
    ({ j with execPageFreeList := rest, execPageAlloc := j.execPageAlloc + 1 }, some p)

def execPageAlloc (j : Jit) : Jit × Option ExecPageId :=
  takePage (if j.execPageFreeList.isEmpty then flushForPage sboxArray j else j)

def Tcb.link (t : Tcb) (p : ExecPageId) : Tcb :=
  { t with
    jitChunks := t.jitChunks ++ [t.jitBuffer]
    jitBuffer := some p
    jitPtr := p * PPC_JIT_BUFSIZE }

def tcbAdjustBuffer (j : Jit) (b : TcbId) : Jit :=
  let t := j.tcbs b
  if t.jitPtr - (t.jitBuffer.getD 0 * PPC_JIT_BUFSIZE : Nat) ≤ PPC_JIT_BUFSIZE - 512 then j
  else if PPC_JIT_MAX_CHUNKS ≤ t.jitChunks.length then j
  else
    match execPageAlloc sboxArray j with
    | (j', none) => j'
    | (j', some p) => j'.setTcb b ((j'.tcbs b).link p)

/-- What the translator makes of a page: the host code of each instruction, the
instructions that a branch of the page goes to, and the jump to the next page. -/
structure PageCode where
  size : BitVec 10 → Nat
  isTarget : BitVec 10 → Bool
  pageJump : Nat

def Tcb.output (t : Tcb) (isTarget : Bool) (pos : BitVec 10) (size : Nat) : Tcb :=
  { t with
    jitInsnPtr := if isTarget then Function.update t.jitInsnPtr pos (some t.jitPtr)
      else t.jitInsnPtr
    jitPtr := t.jitPtr + size }

/-- The instructions of the page that get a `JIT_OP_BRANCH_TARGET`. -/
def branchTarget (code : PageCode) (ia : BitVec 32) (t : Tcb) (pos : BitVec 10) : Bool :=
  t.targetBitmap pos || code.isTarget pos || pos == 0 ||
    (vpage ia == t.startIa && pos == insnOffset ia)

/-- The code generation loop of `ppc32_op_gen_page`. -/
def opGenInsns (code : PageCode) (target : BitVec 10 → Bool) (b : TcbId) (j : Jit) :
    List (BitVec 10) → Jit
  | [] => j
  | pos :: rest =>
    let j := j.setTcb b ((j.tcbs b).output (target pos) pos (code.size pos))
    opGenInsns code target b (tcbAdjustBuffer sboxArray j b) rest

def opGenPage (code : PageCode) (ia : BitVec 32) (j : Jit) (b : TcbId) : Jit :=
  let target := branchTarget code ia (j.tcbs b)
  let j := opGenInsns sboxArray code target b j
    ((List.range PPC32_INSN_PER_PAGE).map (BitVec.ofNat 10))
  j.setTcb b { j.tcbs b with jitPtr := (j.tcbs b).jitPtr + code.pageJump }

/-- What the rest of the emulator and the C library answer during a compilation. -/
structure CompileEnv where
  translate : Option (BitVec 32)
  malloc : Bool
  memOpLookup : Bool
  calloc : Bool

def tcbAlloc (env : CompileEnv) (j : Jit) : Jit × Option TcbId :=
  match j.tcbFreeList with
  | b :: rest => ({ j with tcbFreeList := rest }.setTcb b Tcb.zero, some b)
  | [] =>
    if env.malloc then
      ({ j with mallocs := j.mallocs + 1 }.setTcb j.mallocs Tcb.zero, some j.mallocs)
    else (j, none)

/-- A block that is not on `tcb_list` is given up. -/
def tcbAbandon (j : Jit) (b : TcbId) : Jit :=
  { tcbFree j b false with compiling := none }

def Tcb.start (vaddr physPage : BitVec 32) (p : ExecPageId) : Tcb :=
  { Tcb.zero with
    startIa := vaddr
    physPage := physPage
    physHash := jitGetPhysHash sboxArray physPage
    jitBuffer := some p
    jitPtr := p * PPC_JIT_BUFSIZE }

def tcbCreate (env : CompileEnv) (j : Jit) (vaddr : BitVec 32) : Jit × Option TcbId :=
  match env.translate with
  | none => (j, none)
  | some physPage =>
    match tcbAlloc env j with
    | (j, none) => (j, none)
    | (j, some b) =>
      match execPageAlloc sboxArray { j with compiling := some b } with
      | (j, none) => (tcbAbandon j b, none)
      | (j, some p) =>
        let j := j.setTcb b (Tcb.start sboxArray vaddr physPage p)
        if env.memOpLookup then (j, some b) else (tcbAbandon j b, none)

/-- The block joins `tcb_list` and `exec_phys_map`. -/
def tcbLink (j : Jit) (b : TcbId) : Jit :=
  { j with
    tcbList := b :: j.tcbList
    execPhysMap := Function.update j.execPhysMap (j.tcbs b).physHash
      (b :: j.execPhysMap (j.tcbs b).physHash)
    compiledPages := j.compiledPages + 1
    compiling := none }

def tcbCompile (env : CompileEnv) (code : PageCode) (j : Jit) (vaddr : BitVec 32) :
    Jit × Option TcbId :=
  match tcbCreate sboxArray env j (vpage vaddr) with
  | (j, none) => (j, none)
  | (j, some b) =>
    if env.calloc then (tcbLink (opGenPage sboxArray code vaddr j b) b, some b)
    else (tcbAbandon j b, none)

def tcbRecompile (code : PageCode) (ia : BitVec 32) (j : Jit) (b : TcbId) : Jit :=
  let j := tcbFreeCodeChunks { j with compiling := some b } b
  let j := j.setTcb b { j.tcbs b with jitInsnPtr := fun _ => none }
  match execPageAlloc sboxArray j with
  | (j, none) => { j with compiling := none }
  | (j, some p) =>
    let j := j.setTcb b { j.tcbs b with jitBuffer := some p, noFlush := true }
    let j := opGenPage sboxArray code ia j b
    let j := j.setTcb b { j.tcbs b with noFlush := false, targetUndefCnt := 0 }
    { j with compiling := none }

/-- An entry at an instruction with no host code, in `ppc32_jit_tcb_exec`. -/
def Tcb.missed (t : Tcb) (pos : BitVec 10) : Tcb :=
  { t with
    targetBitmap := Function.update t.targetBitmap pos true
    targetUndefCnt := t.targetUndefCnt + 1 }

/-- `ppc32_jit_tcb_exec`, up to the call of the host code or of the interpreter. -/
def tcbExec (code : PageCode) (ia : BitVec 32) (j : Jit) (b : TcbId) : Jit :=
  match (j.tcbs b).jitInsnPtr (insnOffset ia) with
  | some _ => j
  | none =>
    let j := j.setTcb b ((j.tcbs b).missed (insnOffset ia))
    if (j.tcbs b).targetUndefCnt = 16 then tcbRecompile sboxArray code ia j b else j

/-- `ppc32_jit_tcb_run`, with the count of the caller. -/
def tcbRun (code : PageCode) (ia : BitVec 32) (j : Jit) (b : TcbId) : Jit :=
  let j := j.setTcb b { j.tcbs b with accCount := (j.tcbs b).accCount + 1 }
  if ia &&& 3 = 0 then tcbExec sboxArray code ia j b else j

/-- The block that `ppc32_jit_run_cpu` finds in `exec_blk_map` for another page
of code leaves it. -/
def tcbEvict (j : Jit) (iaHash : BitVec 17) : Jit :=
  match j.execBlkMap iaHash with
  | some b => (tcbFree j b true).setBlk iaHash none
  | none => j

/-- `ppc32_jit_tcb_match` on the entry of `exec_blk_map` for `ia`. -/
def matchingBlock (j : Jit) (ia : BitVec 32) : Option TcbId :=
  (j.execBlkMap (jitGetIaHash sboxArray ia)).filter fun b => (j.tcbs b).startIa == vpage ia

/-- One turn of the loop of `ppc32_jit_run_cpu`, with the code that a
compilation and a recompilation would make of the page. -/
def jitRunCpu (env : CompileEnv) (code recode : PageCode) (j : Jit) (ia : BitVec 32) : Jit :=
  match matchingBlock sboxArray j ia with
  | some b => tcbRun sboxArray recode ia j b
  | none =>
    let iaHash := jitGetIaHash sboxArray ia
    match tcbCompile sboxArray env code (tcbEvict j iaHash) ia with
    | (j, none) => j
    | (j, some b) => tcbRun sboxArray recode ia (j.setBlk iaHash (some b)) b

/-- The invalidation in `ppc32_mem_access` for a write through an entry with
`MTS_FLAG_EXEC` to an address from `PPC32_EXC_SYS_RST` on. -/
def jitInvalidate (j : Jit) (physPage : BitVec 32) : Jit :=
  match jitFindByPhysPage sboxArray j physPage with
  | some b => tcbRetire sboxArray j b
  | none => j

/-- `ppc32_icbi`, with what `translate` answers. -/
def icbi (j : Jit) (vaddr : BitVec 32) (translate : Option (BitVec 32)) : Jit :=
  match translate.bind (jitFindByPhysPage sboxArray j) with
  | some b =>
    if (j.tcbs b).startIa = vpage vaddr then
      (tcbFree j b true).setBlk (jitGetIaHash sboxArray vaddr) none
    else j
  | none => j

inductive JitEvent where
  | runCpu (ia : BitVec 32) (env : CompileEnv) (code recode : PageCode)
  | invalidate (physPage : BitVec 32)
  | icbi (vaddr : BitVec 32) (translate : Option (BitVec 32))
  | flush (threshold : BitVec 32)

def jitStep (j : Jit) : JitEvent → Jit
  | .runCpu ia env code recode => jitRunCpu sboxArray env code recode j ia
  | .invalidate physPage => jitInvalidate sboxArray j physPage
  | .icbi vaddr translate => icbi sboxArray j vaddr translate
  | .flush threshold => (jitFlush sboxArray j threshold).1

end Dynamips.Ppc32
