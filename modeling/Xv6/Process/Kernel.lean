import Xv6.File
import Xv6.Mem.Vm

/-!
# Processes, files and pipes

The parts of `kernel/proc.c`, `kernel/file.c`, `kernel/pipe.c` and
`kernel/sysfile.c` that allocate and release pages. The process table and the
file table are part of the state; pointers into them are indices. Locks, the
kernel stacks, the names of processes and their current directories are left
out: no page depends on them.
-/

namespace Xv6.Process

open Function Lib Mem

/-- `enum procstate`. -/
inductive Procstate where
  | unused
  | used
  | sleeping
  | runnable
  | running
  | zombie
  deriving DecidableEq, Repr

/-- `struct proc`. -/
structure Proc where
  state : Procstate
  killed : Bool
  /-- The exit status for `wait`. -/
  xstate : Int
  pid : Int
  parent : Option Nat
  /-- The size of user memory in bytes. -/
  sz : Nat
  /-- The address of the root of the user page table, or 0. -/
  pagetable : Nat
  /-- The address of the trapframe page, or 0. -/
  trapframe : Nat
  ofile : Nat → Option Nat

/-- A process before its first use. -/
def Proc.zero : Proc where
  state := .unused
  killed := false
  xstate := 0
  pid := 0
  parent := none
  sz := 0
  pagetable := 0
  trapframe := 0
  ofile := fun _ => none

/-- Physical memory, the process table and the file table. -/
structure Kernel where
  phys : Phys
  proc : Nat → Proc
  ftable : Nat → File
  initproc : Option Nat
  nextpid : Int

/-- A program over the kernel's state. -/
abbrev KernelM := StateT Kernel (Except Panic)

/-- A program over physical memory. -/
def onPhys {α : Type} (m : PhysM α) : KernelM α := fun K =>
  match m K.phys with
  | .ok (a, s) => .ok (a, { K with phys := s })
  | .error e => .error e

/-- The kernel with another entry of the process table. -/
def Kernel.setProc (K : Kernel) (p : Nat) (pr : Proc) : Kernel :=
  { K with proc := update K.proc p pr }

/-- The kernel with another entry of the file table. -/
def Kernel.setFile (K : Kernel) (f : Nat) (file : File) : Kernel :=
  { K with ftable := update K.ftable f file }

def getProc (p : Nat) : KernelM Proc := do return (← get).proc p

def modifyProc (p : Nat) (g : Proc → Proc) : KernelM Unit :=
  modify fun K => K.setProc p (g (K.proc p))

def modifyFile (f : Nat) (g : File → File) : KernelM Unit :=
  modify fun K => K.setFile f (g (K.ftable f))

/-- `v` as `n` bytes, the lowest first. -/
def leBytes (n v : Nat) : List UInt8 := (List.range n).map fun j => UInt8.ofNat (v / 256 ^ j)

/-- An `int` as a machine word of 32 bits. -/
def word32 (n : Int) : Nat := (n % 2 ^ 32).toNat

variable [Layout]

/-! ## Files and pipes -/

/-- `filealloc`. -/
def filealloc : KernelM (Option Nat) := do
  let K ← get
  match freeFile K.ftable with
  | none => pure none
  | some f => do
    modifyFile f fun file => { file with ref := 1 }
    pure (some f)

/-- `filedup`. -/
def filedup (f : Nat) : KernelM Unit := do
  let K ← get
  if (K.ftable f).ref < 1 then throw .filedup
  else modifyFile f fun file => { file with ref := file.ref + 1 }

/-- The offsets of the fields of `struct pipe`. -/
def pipeNread : Nat := 536

@[inherit_doc pipeNread] def pipeNwrite : Nat := 540

@[inherit_doc pipeNread] def pipeReadopen : Nat := 544

@[inherit_doc pipeNread] def pipeWriteopen : Nat := 548

/-- `pipeclose`. -/
def pipeclose (pi : Nat) (writable : Bool) : PhysM Unit := do
  (if writable then store32 (pi + pipeWriteopen) 0 else store32 (pi + pipeReadopen) 0)
  let readopen ← load32 (pi + pipeReadopen)
  let writeopen ← load32 (pi + pipeWriteopen)
  if readopen = 0 ∧ writeopen = 0 then kfree pi else pure ()

/-- `fileclose`. What it does to the inode of a file is left out. -/
def fileclose (f : Nat) : KernelM Unit := do
  let K ← get
  let ff := K.ftable f
  if ff.ref < 1 then throw .fileclose
  else if ff.ref - 1 > 0 then modifyFile f fun file => { file with ref := file.ref - 1 }
  else do
    modifyFile f fun file => { file with ref := 0, type := .none }
    if ff.type = .pipe then onPhys (pipeclose ff.pipe ff.writable) else pure ()

/-- The end of `pipealloc`, when it cannot have a page or the files. -/
def pipeallocBad (f0 f1 : Option Nat) : KernelM (Option (Nat × Nat)) := do
  (match f0 with
    | some f => fileclose f
    | none => pure ())
  (match f1 with
    | some f => fileclose f
    | none => pure ())
  pure none

/-- `pipealloc`: the files of the read end and of the write end. -/
def pipealloc : KernelM (Option (Nat × Nat)) := do
  match ← filealloc with
  | none => pipeallocBad none none
  | some f0 => do
    match ← filealloc with
    | none => pipeallocBad (some f0) none
    | some f1 => do
      let pi ← onPhys kalloc
      if pi = 0 then pipeallocBad (some f0) (some f1)
      else do
        onPhys (store32 (pi + pipeReadopen) 1)
        onPhys (store32 (pi + pipeWriteopen) 1)
        onPhys (store32 (pi + pipeNwrite) 0)
        onPhys (store32 (pi + pipeNread) 0)
        modifyFile f0 fun file =>
          { file with type := .pipe, readable := true, writable := false, pipe := pi }
        modifyFile f1 fun file =>
          { file with type := .pipe, readable := false, writable := true, pipe := pi }
        pure (some (f0, f1))

/-- `fdalloc`. -/
def fdalloc (p f : Nat) : KernelM (Option Nat) := do
  let pr ← getProc p
  match freeFd pr.ofile with
  | none => pure none
  | some fd => do
    modifyProc p fun pr => { pr with ofile := update pr.ofile fd (some f) }
    pure (some fd)

/-- `p->ofile[fd] = 0`. -/
def clearFd (p fd : Nat) : KernelM Unit :=
  modifyProc p fun pr => { pr with ofile := update pr.ofile fd none }

/-- `argfd`: the descriptor and its file. -/
def argfd (p : Nat) (fd : Int) : KernelM (Option (Nat × Nat)) := do
  let pr ← getProc p
  if fd < 0 ∨ fd ≥ nofile then pure none
  else
    match pr.ofile fd.toNat with
    | none => pure none
    | some f => pure (some (fd.toNat, f))

/-- `sys_dup`. -/
def sysDup (p : Nat) (n : Int) : KernelM Int := do
  match ← argfd p n with
  | none => pure (-1)
  | some (_, f) => do
    match ← fdalloc p f with
    | none => pure (-1)
    | some fd => do
      filedup f
      pure fd

/-- `sys_close`. -/
def sysClose (p : Nat) (n : Int) : KernelM Int := do
  match ← argfd p n with
  | none => pure (-1)
  | some (fd, f) => do
    clearFd p fd
    fileclose f
    pure 0

/-- The end of `sys_pipe` when it fails. -/
def sysPipeBad (rf wf : Nat) : KernelM Int := do
  fileclose rf
  fileclose wf
  pure (-1)

/-- `sys_pipe`. -/
def sysPipe (p fdarray : Nat) : KernelM Int := do
  match ← pipealloc with
  | none => pure (-1)
  | some (rf, wf) => do
    match ← fdalloc p rf with
    | none => sysPipeBad rf wf
    | some fd0 => do
      match ← fdalloc p wf with
      | none => do
        clearFd p fd0
        sysPipeBad rf wf
      | some fd1 => do
        let pr ← getProc p
        let r0 ← onPhys (copyout pr.pagetable fdarray (leBytes 4 fd0))
        let r1 ← (if r0 < 0 then pure (-1)
          else onPhys (copyout pr.pagetable ((fdarray + 4) % 2 ^ 64) (leBytes 4 fd1)))
        if r1 < 0 then do
          clearFd p fd0
          clearFd p fd1
          sysPipeBad rf wf
        else pure 0

/-! ## Processes -/

/-- `freeproc`. -/
def freeproc (p : Nat) : KernelM Unit := do
  let pr ← getProc p
  (if pr.trapframe ≠ 0 then onPhys (kfree pr.trapframe) else pure ())
  (if pr.pagetable ≠ 0 then onPhys (procFreepagetable pr.pagetable pr.sz) else pure ())
  modifyProc p fun pr => { pr with
    trapframe := 0, pagetable := 0, sz := 0, pid := 0, parent := none, killed := false,
    xstate := 0, state := .unused }

/-- `allocpid`. After the largest `int` comes the smallest. -/
def allocpid : KernelM Int := do
  let K ← get
  modify fun K => { K with nextpid := int (K.nextpid + 1) }
  pure K.nextpid

/-- `allocproc`: the first unused process, with a trapframe and an empty page
table. -/
def allocproc : KernelM (Option Nat) := do
  let K ← get
  match (List.range nproc).find? fun p => (K.proc p).state = .unused with
  | none => pure none
  | some p => do
    let pid ← allocpid
    modifyProc p fun pr => { pr with pid := pid, state := .used }
    let trapframe ← onPhys kalloc
    modifyProc p fun pr => { pr with trapframe := trapframe }
    if trapframe = 0 then do
      freeproc p
      pure none
    else do
      let pagetable ← onPhys (procPagetable trapframe)
      modifyProc p fun pr => { pr with pagetable := pagetable }
      if pagetable = 0 then do
        freeproc p
        pure none
      else pure (some p)

/-- The offsets of the fields of `struct trapframe`. -/
def trapframeEpc : Nat := 24

@[inherit_doc trapframeEpc] def trapframeSp : Nat := 48

@[inherit_doc trapframeEpc] def trapframeA0 : Nat := 112

@[inherit_doc trapframeEpc] def trapframeA1 : Nat := 120

/-- `sizeof(struct trapframe)`. -/
def trapframeSize : Nat := 288

/-- `initcode`. -/
def initcode : List UInt8 :=
  [0x17, 0x05, 0x00, 0x00, 0x13, 0x05, 0x45, 0x02,
   0x97, 0x05, 0x00, 0x00, 0x93, 0x85, 0x35, 0x02,
   0x93, 0x08, 0x70, 0x00, 0x73, 0x00, 0x00, 0x00,
   0x93, 0x08, 0x20, 0x00, 0x73, 0x00, 0x00, 0x00,
   0xef, 0xf0, 0x9f, 0xff, 0x2f, 0x69, 0x6e, 0x69,
   0x74, 0x00, 0x00, 0x24, 0x00, 0x00, 0x00, 0x00,
   0x00, 0x00, 0x00, 0x00]

/-- `userinit`. It does not check that `allocproc` succeeds. -/
def userinit : KernelM Unit := do
  match ← allocproc with
  | none => throw .kerneltrap
  | some p => do
    modify fun K => { K with initproc := some p }
    let pr ← getProc p
    onPhys (uvmfirst pr.pagetable initcode)
    modifyProc p fun pr => { pr with sz := pgSize }
    onPhys (store64 (pr.trapframe + trapframeEpc) 0)
    onPhys (store64 (pr.trapframe + trapframeSp) pgSize)
    modifyProc p fun pr => { pr with state := .runnable }

/-- `growproc`. -/
def growproc (p : Nat) (n : Int) : KernelM Int := do
  let pr ← getProc p
  let newsz := ((pr.sz + n) % 2 ^ 64).toNat
  if n > 0 then do
    let sz ← onPhys (uvmalloc pr.pagetable pr.sz newsz pteW)
    if sz = 0 then pure (-1)
    else do
      modifyProc p fun pr => { pr with sz := sz }
      pure 0
  else if n < 0 then do
    let sz ← onPhys (uvmdealloc pr.pagetable pr.sz newsz)
    modifyProc p fun pr => { pr with sz := sz }
    pure 0
  else pure 0

/-- `sys_sbrk`. -/
def sysSbrk (p : Nat) (n : Int) : KernelM Int := do
  let pr ← getProc p
  let r ← growproc p n
  if r < 0 then pure (-1) else pure pr.sz

/-- The loop of `fork` over the descriptors from `fd` on. -/
def dupRounds (p np fd : Nat) : Nat → KernelM Unit
  | 0 => pure ()
  | n + 1 => do
    let pr ← getProc p
    (match pr.ofile fd with
      | none => pure ()
      | some f => do
        filedup f
        modifyProc np fun pr => { pr with ofile := update pr.ofile fd (some f) })
    dupRounds p np (fd + 1) n

/-- `fork`. -/
def fork (p : Nat) : KernelM Int := do
  match ← allocproc with
  | none => pure (-1)
  | some np => do
    let pr ← getProc p
    let npr ← getProc np
    let r ← onPhys (uvmcopy pr.pagetable npr.pagetable pr.sz)
    if r < 0 then do
      freeproc np
      pure (-1)
    else do
      modifyProc np fun npr => { npr with sz := pr.sz }
      onPhys (memmove npr.trapframe pr.trapframe trapframeSize)
      onPhys (store64 (npr.trapframe + trapframeA0) 0)
      dupRounds p np 0 nofile
      modifyProc np fun npr => { npr with parent := some p }
      modifyProc np fun npr => { npr with state := .runnable }
      pure npr.pid

/-- The loop of `exit` over the descriptors from `fd` on. -/
def closeRounds (p fd : Nat) : Nat → KernelM Unit
  | 0 => pure ()
  | n + 1 => do
    let pr ← getProc p
    (match pr.ofile fd with
      | none => pure ()
      | some f => do
        fileclose f
        clearFd p fd)
    closeRounds p (fd + 1) n

/-- Process `pp` after `p` has given up its children. -/
def Kernel.adopt (K : Kernel) (p pp : Nat) : Proc :=
  if pp < nproc ∧ (K.proc pp).parent = some p then { K.proc pp with parent := K.initproc }
  else K.proc pp

/-- `reparent`. -/
def reparent (p : Nat) : KernelM Unit := modify fun K => { K with proc := K.adopt p }

/-- `exit`. -/
def exit (p : Nat) (status : Int) : KernelM Unit := do
  let K ← get
  if K.initproc = some p then throw .initExiting
  else do
    closeRounds p 0 nofile
    reparent p
    modifyProc p fun pr => { pr with xstate := status, state := .zombie }

/-- `wait`. It returns nothing where the source sleeps: when a child exits, the
process makes the call again. -/
def wait (p addr : Nat) : KernelM (Option Int) := do
  let K ← get
  match (List.range nproc).find? fun pp =>
      (K.proc pp).parent = some p ∧ (K.proc pp).state = .zombie with
  | some pp => do
    let child := K.proc pp
    let r ← (if addr ≠ 0 then
        onPhys (copyout (K.proc p).pagetable addr (leBytes 4 (word32 child.xstate)))
      else pure 0)
    if r < 0 then pure (some (-1))
    else do
      freeproc pp
      pure (some child.pid)
  | none =>
    if (∀ pp < nproc, (K.proc pp).parent ≠ some p) ∨ (K.proc p).killed then pure (some (-1))
    else pure none

/-- `kill`. -/
def kill (pid : Int) : KernelM Int := do
  let K ← get
  match (List.range nproc).find? fun p => (K.proc p).pid = pid with
  | none => pure (-1)
  | some p => do
    modifyProc p fun pr => { pr with
      killed := true, state := if pr.state = .sleeping then .runnable else pr.state }
    pure 0

end Xv6.Process
