import Xv6.Process.Kernel

/-!
# `exec`

`kernel/exec.c` and `sys_exec`. The file system is a parameter: a path names an
inode or nothing, and `readi` of an inode returns at most as many bytes as it is
asked for. The headers of the file are read byte by byte, with the widths that
the source's variables have.
-/

namespace Xv6.Process

open Lib Mem

/-- An inode as `exec` sees it. -/
structure Inode where
  /-- The bytes that `readi` copies. -/
  readi : (off n : Nat) → List UInt8
  readi_le : ∀ off n, (readi off n).length ≤ n

/-- `namei`. -/
abbrev Namei := List UInt8 → Option Inode

/-! ## The ELF format -/

/-- The field of `n` bytes at offset `i`. -/
def field (bs : List UInt8) (i n : Nat) : Nat := getLE (fun j => bs.getD j 0) i n

/-- `sizeof(struct elfhdr)`. -/
def elfSize : Nat := 64

/-- `sizeof(struct proghdr)`. -/
def proghdrSize : Nat := 56

/-- `ELF_MAGIC`. -/
def elfMagic : Nat := 0x464C457F

/-- `ELF_PROG_LOAD`. -/
def elfProgLoad : Nat := 1

/-- The fields of `struct elfhdr` that `exec` reads. -/
structure Elfhdr where
  magic : Nat
  entry : Nat
  phoff : Nat
  phnum : Nat

def elfhdr (bs : List UInt8) : Elfhdr where
  magic := field bs 0 4
  entry := field bs 24 8
  phoff := field bs 32 8
  phnum := field bs 56 2

/-- The fields of `struct proghdr` that `exec` reads. -/
structure Proghdr where
  type : Nat
  flags : Nat
  off : Nat
  vaddr : Nat
  filesz : Nat
  memsz : Nat
  deriving DecidableEq

def proghdr (bs : List UInt8) : Proghdr where
  type := field bs 0 4
  flags := field bs 4 4
  off := field bs 8 8
  vaddr := field bs 16 8
  filesz := field bs 32 8
  memsz := field bs 40 8

/-- `flags2perm`. -/
def flags2perm (flags : Nat) : Nat :=
  (if flags &&& 1 ≠ 0 then pteX else 0) ||| (if flags &&& 2 ≠ 0 then pteW else 0)

variable [Layout]

/-! ## Loading a program -/

/-- The loop of `loadseg` from byte `i` on. -/
def loadsegRounds (pagetable va : Nat) (ip : Inode) (offset sz i : Nat) : Nat → PhysM Int
  | 0 => pure 0
  | more + 1 => do
    let pa ← walkaddr pagetable ((va + i) % 2 ^ 64)
    if pa = 0 then throw .loadseg
    else do
      let n := if sz - i < pgSize then sz - i else pgSize
      let bs := ip.readi ((offset + i) % 2 ^ 32) n
      storeBytes pa bs
      if bs.length ≠ n then pure (-1)
      else loadsegRounds pagetable va ip offset sz (i + pgSize) more

/-- `loadseg`. -/
def loadseg (pagetable va : Nat) (ip : Inode) (offset sz : Nat) : PhysM Int :=
  loadsegRounds pagetable va ip offset sz 0 ((sz + pgSize - 1) / pgSize)

/-- The loop of `exec` over the program headers. It returns whether all were
loaded, and the size reached. -/
def segRounds (pagetable : Nat) (ip : Inode) (off sz : Nat) : Nat → PhysM (Bool × Nat)
  | 0 => pure (true, sz)
  | n + 1 => do
    let bs := ip.readi off proghdrSize
    let ph := proghdr bs
    if bs.length ≠ proghdrSize then pure (false, sz)
    else if ph.type ≠ elfProgLoad then
      segRounds pagetable ip ((off + proghdrSize) % 2 ^ 32) sz n
    else if ph.memsz < ph.filesz then pure (false, sz)
    else if (ph.vaddr + ph.memsz) % 2 ^ 64 < ph.vaddr then pure (false, sz)
    else if ph.vaddr % pgSize ≠ 0 then pure (false, sz)
    else do
      let sz1 ← uvmalloc pagetable sz ((ph.vaddr + ph.memsz) % 2 ^ 64) (flags2perm ph.flags)
      if sz1 = 0 then pure (false, sz)
      else do
        let r ← loadseg pagetable ph.vaddr ip (ph.off % 2 ^ 32) (ph.filesz % 2 ^ 32)
        if r < 0 then pure (false, sz1)
        else segRounds pagetable ip ((off + proghdrSize) % 2 ^ 32) sz1 n

/-! ## The stack of the new program -/

/-- The string at a physical address, with its NUL. -/
def loadStr (a : Nat) : PhysM (List UInt8) := do
  let bs ← loadBytes a pgSize
  pure (upToNul bs).1

/-- `sp -= n; sp -= sp % 16`. -/
def pushSp (sp n : Nat) : Nat :=
  let sp := (sp + 2 ^ 64 - n) % 2 ^ 64
  sp - sp % 16

/-- The loop of `exec` that pushes the argument strings. -/
def argRounds (pagetable stackbase : Nat) : List Nat → Nat → List Nat → PhysM (Option (Nat × List Nat))
  | [], sp, ustack => pure (some (sp, ustack))
  | arg :: argv, sp, ustack =>
    if ustack.length ≥ maxArg then pure none
    else do
      let str ← loadStr arg
      let sp := pushSp sp str.length
      if sp < stackbase then pure none
      else do
        let r ← copyout pagetable sp str
        if r < 0 then pure none
        else argRounds pagetable stackbase argv sp (ustack ++ [sp])

/-- The arguments and the array of pointers to them. -/
def pushArgs (pagetable sz : Nat) (argv : List Nat) : PhysM (Option Nat) := do
  let stackbase := sz - pgSize
  match ← argRounds pagetable stackbase argv sz [] with
  | none => pure none
  | some (sp, ustack) => do
    let bs := (ustack ++ [0]).flatMap (leBytes 8)
    let sp := pushSp sp bs.length
    if sp < stackbase then pure none
    else do
      let r ← copyout pagetable sp bs
      if r < 0 then pure none else pure (some sp)

/-- The guard page and the stack page at the end of the program, and what is on
the stack. It returns the size reached, and the stack pointer if it succeeds. -/
def makeStack (pagetable sz : Nat) (argv : List Nat) : PhysM (Nat × Option Nat) := do
  let sz := pgRoundUp sz
  let sz1 ← uvmalloc pagetable sz (sz + 2 * pgSize) pteW
  if sz1 = 0 then pure (sz, none)
  else do
    uvmclear pagetable (sz1 - 2 * pgSize)
    let sp ← pushArgs pagetable sz1 argv
    pure (sz1, sp)

/-- `exec`. Its `bad` label frees the page table that it has built. -/
def exec (p : Nat) (namei : Namei) (path : List UInt8) (argv : List Nat) : KernelM Int := do
  match namei path with
  | none => pure (-1)
  | some ip => do
    let elf := elfhdr (ip.readi 0 elfSize)
    if (ip.readi 0 elfSize).length ≠ elfSize then pure (-1)
    else if elf.magic ≠ elfMagic then pure (-1)
    else do
      let pr ← getProc p
      let pagetable ← onPhys (procPagetable pr.trapframe)
      if pagetable = 0 then pure (-1)
      else do
        let (loaded, sz) ← onPhys (segRounds pagetable ip (elf.phoff % 2 ^ 32) 0 elf.phnum)
        if loaded = false then do
          onPhys (procFreepagetable pagetable sz)
          pure (-1)
        else do
          let (sz, stack) ← onPhys (makeStack pagetable sz argv)
          match stack with
          | none => do
            onPhys (procFreepagetable pagetable sz)
            pure (-1)
          | some sp => do
            onPhys (store64 (pr.trapframe + trapframeA1) sp)
            modifyProc p fun pr => { pr with pagetable := pagetable, sz := sz }
            onPhys (store64 (pr.trapframe + trapframeEpc) elf.entry)
            onPhys (store64 (pr.trapframe + trapframeSp) sp)
            onPhys (procFreepagetable pr.pagetable pr.sz)
            pure argv.length

/-! ## `sys_exec` -/

/-- `fetchaddr`. -/
def fetchaddr (pr : Proc) (addr : Nat) : PhysM (Option Nat) :=
  if addr ≥ pr.sz ∨ (addr + 8) % 2 ^ 64 > pr.sz then pure none
  else do
    let (r, bs) ← copyin pr.pagetable addr 8
    if r ≠ 0 then pure none else pure (some (field bs 0 8))

/-- `fetchstr` into a buffer in physical memory. -/
def fetchstr (pr : Proc) (addr buf max : Nat) : PhysM Int := do
  let (r, bs) ← copyinstr pr.pagetable addr max
  storeBytes buf bs
  if r < 0 then pure (-1) else pure (bs.length - 1)

/-- The loop of `sys_exec` that fetches the arguments, with the pages filled so
far. It says whether it reached the end of the array. -/
def argvRounds (pr : Proc) (uargv : Nat) (argv : List Nat) : Nat → PhysM (Bool × List Nat)
  | 0 => pure (false, argv)
  | n + 1 => do
    match ← fetchaddr pr ((uargv + 8 * argv.length) % 2 ^ 64) with
    | none => pure (false, argv)
    | some uarg =>
      if uarg = 0 then pure (true, argv)
      else do
        let page ← kalloc
        if page = 0 then pure (false, argv)
        else do
          let r ← fetchstr pr uarg page pgSize
          if r < 0 then pure (false, argv ++ [page])
          else argvRounds pr uargv (argv ++ [page]) n

/-- The loops of `sys_exec` that free the arguments. -/
def freeArgs : List Nat → PhysM Unit
  | [] => pure ()
  | page :: argv => do
    kfree page
    freeArgs argv

/-- `sys_exec`. -/
def sysExec (p : Nat) (namei : Namei) (upath uargv : Nat) : KernelM Int := do
  let pr ← getProc p
  let (r, path) ← onPhys (copyinstr pr.pagetable upath maxPath)
  if r < 0 then pure (-1)
  else do
    let (fetched, argv) ← onPhys (argvRounds pr uargv [] maxArg)
    if fetched = false then do
      onPhys (freeArgs argv)
      pure (-1)
    else do
      let ret ← exec p namei path.dropLast argv
      onPhys (freeArgs argv)
      pure ret

end Xv6.Process
