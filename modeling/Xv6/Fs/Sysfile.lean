import Xv6.Fs.Dir

/-!
# System calls

`kernel/file.c`, `kernel/sysfile.c`, and what `fork`, `exec` and `exit` do to
files. What a call gets from elsewhere is an argument: the strings that
`argstr` has fetched or that it cannot fetch, user memory, whether there is
memory for a new process or a pipe, and what a pipe or a device returns.
-/

namespace Xv6.Fs

open Function

open Xv6.Inode (Dinode ninode)

variable [Superblock]

def modifyFile (f : Nat) (g : File → File) : FsM Unit :=
  modify fun s => { s with ftable := update s.ftable f (g (s.ftable f)) }

def modifyProc (p : Nat) (g : Proc → Proc) : FsM Unit :=
  modify fun s => { s with proc := update s.proc p (g (s.proc p)) }

/-! ## Files -/

/-- `filealloc`. -/
def filealloc : FsM (Option Nat) := do
  match freeFile (← get).ftable with
  | none => pure none
  | some f => do
    modifyFile f fun file => { file with ref := 1 }
    pure (some f)

/-- `filedup`. -/
def filedup (f : Nat) : FsM Unit := do
  if ((← get).ftable f).ref < 1 then throw .filedup
  else modifyFile f fun file => { file with ref := file.ref + 1 }

/-- `fileclose`. What it does to a pipe is left out. -/
def fileclose (f : Nat) : FsM Unit := do
  let ff := (← get).ftable f
  if ff.ref < 1 then throw .fileclose
  else if ff.ref - 1 > 0 then modifyFile f fun file => { file with ref := file.ref - 1 }
  else do
    modifyFile f fun file => { file with ref := 0, type := .none }
    if ff.type = .inode ∨ ff.type = .device then do
      beginOp
      iput ff.ip
      endOp
    else pure ()

/-- `filestat`. `ok` says whether the result can be copied out. -/
def filestat (f : Nat) (ok : Bool) : FsM Int := do
  let file := (← get).ftable f
  if file.type = .inode ∨ file.type = .device then do
    ilock file.ip
    iunlock file.ip
    if ok then pure 0 else pure (-1)
  else pure (-1)

/-- A number of bytes as a `uint`. -/
def uint (n : Int) : Nat := (n % 2 ^ 32).toNat

/-- `fileread`: its result, and the bytes it copies from an inode. `io` is what a
pipe or a device returns. -/
def fileread (f : Nat) (m : UserMem) (addr : Nat) (n io : Int) : FsM (Int × List UInt8) := do
  let file := (← get).ftable f
  if file.readable = false then pure (-1, [])
  else
    match file.type with
    | .pipe => pure (io, [])
    | .device => pure (io, [])
    | .inode => do
      ilock file.ip
      let file := (← get).ftable f
      match ← readi file.ip (.user m addr) file.off (uint n) with
      | none => do
        iunlock file.ip
        pure (-1, [])
      | some bs => do
        modifyFile f fun file => { file with off := file.off + bs.length }
        iunlock file.ip
        pure (bs.length, bs)
    | .none => throw .fileread

/-- `max` in `filewrite`: how much one transaction writes. -/
def writeMax : Nat := ((maxOpBlocks - 1 - 1 - 2) / 2) * bsize

/-- The loop of `filewrite` from byte `i` of `n` on: how many bytes are written
when it ends. -/
def filewriteRounds (f : Nat) (m : UserMem) (addr n : Nat) : Nat → Nat → FsM Nat
  | 0, i => pure i
  | k + 1, i =>
    if i < n then do
      let n1 := min (n - i) writeMax
      beginOp
      ilock ((← get).ftable f).ip
      let file := (← get).ftable f
      let r ← writei file.ip (.user m (addr + i)) file.off n1
      (if r > 0 then modifyFile f fun file => { file with off := file.off + r.toNat } else pure ())
      iunlock file.ip
      endOp
      if r ≠ n1 then pure i else filewriteRounds f m addr n k (i + n1)
    else pure i

/-- `filewrite`. -/
def filewrite (f : Nat) (m : UserMem) (addr : Nat) (n io : Int) : FsM Int := do
  let file := (← get).ftable f
  if file.writable = false then pure (-1)
  else
    match file.type with
    | .pipe => pure io
    | .device => pure io
    | .inode => do
      let i ← filewriteRounds f m addr n.toNat n.toNat 0
      pure (if (i : Int) = n then n else -1)
    | .none => throw .filewrite

/-! ## Descriptors -/

/-- `argfd`: the descriptor and its file. -/
def argfd (p : Nat) (fd : Int) : FsM (Option (Nat × Nat)) := do
  let s ← get
  if fd < 0 ∨ fd ≥ nofile then pure none
  else
    match (s.proc p).ofile fd.toNat with
    | none => pure none
    | some f => pure (some (fd.toNat, f))

/-- `p->ofile[fd] = f`. -/
def setFd (p fd : Nat) (f : Option Nat) : FsM Unit :=
  modifyProc p fun pr => { pr with ofile := update pr.ofile fd f }

/-- `fdalloc`. -/
def fdalloc (p f : Nat) : FsM (Option Nat) := do
  match freeFd ((← get).proc p).ofile with
  | none => pure none
  | some fd => do
    setFd p fd (some f)
    pure (some fd)

/-- `sys_dup`. -/
def sysDup (p : Nat) (n : Int) : FsM Int := do
  match ← argfd p n with
  | none => pure (-1)
  | some (_, f) => do
    match ← fdalloc p f with
    | none => pure (-1)
    | some fd => do
      filedup f
      pure fd

/-- `sys_read`. -/
def sysRead (p : Nat) (fd : Int) (m : UserMem) (addr : Nat) (n io : Int) :
    FsM (Int × List UInt8) := do
  match ← argfd p fd with
  | none => pure (-1, [])
  | some (_, f) => fileread f m addr n io

/-- `sys_write`. -/
def sysWrite (p : Nat) (fd : Int) (m : UserMem) (addr : Nat) (n io : Int) : FsM Int := do
  match ← argfd p fd with
  | none => pure (-1)
  | some (_, f) => filewrite f m addr n io

/-- `sys_close`. -/
def sysClose (p : Nat) (n : Int) : FsM Int := do
  match ← argfd p n with
  | none => pure (-1)
  | some (fd, f) => do
    setFd p fd none
    fileclose f
    pure 0

/-- `sys_fstat`. -/
def sysFstat (p : Nat) (fd : Int) (ok : Bool) : FsM Int := do
  match ← argfd p fd with
  | none => pure (-1)
  | some (_, f) => filestat f ok

/-! ## Names -/

/-- `sys_link` from the label `bad` on. -/
def sysLinkBad (ip : Nat) : FsM Int := do
  ilock ip
  modifyCopy ip fun d => { d with nlink := (d.nlink + 2 ^ 16 - 1) % 2 ^ 16 }
  iupdate ip
  iunlockput ip
  endOp
  pure (-1)

/-- `sys_link` after `nlink++`. -/
def sysLinkNew (p ip : Nat) (new : List UInt8) : FsM Int := do
  match ← nameiparent p new with
  | none => sysLinkBad ip
  | some (dp, name) => do
    ilock dp
    let r ← dirlink dp name (← getInode ip).inum
    if r < 0 then do
      iunlockput dp
      sysLinkBad ip
    else do
      iunlockput dp
      iput ip
      endOp
      pure 0

/-- `sys_link`. -/
def sysLink (p : Nat) (old new : Option (List UInt8)) : FsM Int := do
  match old, new with
  | some old, some new => do
    beginOp
    match ← namei p old with
    | none => do
      endOp
      pure (-1)
    | some ip => do
      ilock ip
      let d := (← getInode ip).copy
      if d.type = tDir then do
        iunlockput ip
        endOp
        pure (-1)
      else do
        modifyCopy ip fun d => { d with nlink := (d.nlink + 1) % 2 ^ 16 }
        iupdate ip
        iunlock ip
        sysLinkNew p ip new
  | _, _ => pure (-1)

/-- `sys_unlink` from the label `bad` on. -/
def sysUnlinkBad (dp : Nat) : FsM Int := do
  iunlockput dp
  endOp
  pure (-1)

/-- `sys_unlink` after it has found the entry. -/
def sysUnlinkEntry (dp ip off : Nat) : FsM Int := do
  ilock ip
  let d := (← getInode ip).copy
  if short d.nlink < 1 then throw .unlinkNlink
  else do
    let keep ← (if d.type = tDir then do return !(← isdirempty ip) else pure false)
    if keep then do
      iunlockput ip
      sysUnlinkBad dp
    else do
      let r ← writei dp (.kernel (List.replicate direntSize 0)) off direntSize
      if r ≠ direntSize then throw .unlinkWritei
      else do
        (if d.type = tDir then do
            modifyCopy dp fun d => { d with nlink := (d.nlink + 2 ^ 16 - 1) % 2 ^ 16 }
            iupdate dp
          else pure ())
        iunlockput dp
        modifyCopy ip fun d => { d with nlink := (d.nlink + 2 ^ 16 - 1) % 2 ^ 16 }
        iupdate ip
        iunlockput ip
        endOp
        pure 0

/-- `sys_unlink`. -/
def sysUnlink (p : Nat) (path : Option (List UInt8)) : FsM Int := do
  match path with
  | none => pure (-1)
  | some path => do
    beginOp
    match ← nameiparent p path with
    | none => do
      endOp
      pure (-1)
    | some (dp, name) => do
      ilock dp
      if namecmp name dot = 0 ∨ namecmp name dotdot = 0 then sysUnlinkBad dp
      else do
        match ← dirlookup dp name with
        | none => sysUnlinkBad dp
        | some (ip, off) => sysUnlinkEntry dp ip off

/-- `create` from the label `fail` on. -/
def createFail (dp ip : Nat) : FsM (Option Nat) := do
  modifyCopy ip fun d => { d with nlink := 0 }
  iupdate ip
  iunlockput ip
  iunlockput dp
  pure none

/-- The entries `.` and `..` of a new directory, and whether they could be
made. -/
def createDots (dp ip : Nat) : FsM Bool := do
  let r ← dirlink ip dot (← getInode ip).inum
  if r < 0 then pure false
  else do
    let r ← dirlink ip dotdot (← getInode dp).inum
    pure (0 ≤ r)

/-- `create` after `ialloc`. -/
def createNew (dp ip : Nat) (name : Name) (type major minor : Nat) : FsM (Option Nat) := do
  ilock ip
  modifyCopy ip fun d => { d with major := major, minor := minor, nlink := 1 }
  iupdate ip
  let ok ← (if type = tDir then createDots dp ip else pure true)
  if ok then do
    let r ← dirlink dp name (← getInode ip).inum
    if r < 0 then createFail dp ip
    else do
      (if type = tDir then do
          modifyCopy dp fun d => { d with nlink := (d.nlink + 1) % 2 ^ 16 }
          iupdate dp
        else pure ())
      iunlockput dp
      pure (some ip)
  else createFail dp ip

/-- `create`: the inode, locked. -/
def create (p : Nat) (path : List UInt8) (type major minor : Nat) : FsM (Option Nat) := do
  match ← nameiparent p path with
  | none => pure none
  | some (dp, name) => do
    ilock dp
    match ← dirlookup dp name with
    | some (ip, _) => do
      iunlockput dp
      ilock ip
      let d := (← getInode ip).copy
      if type = tFile ∧ (d.type = tFile ∨ d.type = tDevice) then pure (some ip)
      else do
        iunlockput ip
        pure none
    | none => do
      match ← ialloc type with
      | none => do
        iunlockput dp
        pure none
      | some ip => createNew dp ip name type major minor

/-- `O_WRONLY`. -/
def oWronly : Nat := 0x001

/-- `O_RDWR`. -/
def oRdwr : Nat := 0x002

/-- `O_CREATE`. -/
def oCreate : Nat := 0x200

/-- `O_TRUNC`. -/
def oTrunc : Nat := 0x400

/-- The first part of `sys_open`: the inode, locked. -/
def openInode (p : Nat) (path : List UInt8) (omode : Nat) : FsM (Option Nat) := do
  if omode &&& oCreate ≠ 0 then create p path tFile 0 0
  else do
    match ← namei p path with
    | none => pure none
    | some ip => do
      ilock ip
      let d := (← getInode ip).copy
      if d.type = tDir ∧ omode ≠ 0 then do
        iunlockput ip
        pure none
      else pure (some ip)

/-- `sys_open` where it fails with the inode locked. -/
def sysOpenBad (ip : Nat) : FsM Int := do
  iunlockput ip
  endOp
  pure (-1)

/-- The second part of `sys_open`. -/
def openFile (p ip omode : Nat) : FsM Int := do
  let d := (← getInode ip).copy
  if d.type = tDevice ∧ (short d.major < 0 ∨ short d.major ≥ ndev) then sysOpenBad ip
  else do
    match ← filealloc with
    | none => sysOpenBad ip
    | some f => do
      match ← fdalloc p f with
      | none => do
        fileclose f
        sysOpenBad ip
      | some fd => do
        (if d.type = tDevice then
            modifyFile f fun file => { file with type := .device, major := d.major }
          else modifyFile f fun file => { file with type := .inode, off := 0 })
        modifyFile f fun file => { file with
          ip := ip
          readable := omode &&& oWronly = 0
          writable := omode &&& oWronly ≠ 0 ∨ omode &&& oRdwr ≠ 0 }
        (if omode &&& oTrunc ≠ 0 ∧ d.type = tFile then itrunc ip else pure ())
        iunlock ip
        endOp
        pure fd

/-- `sys_open`. -/
def sysOpen (p : Nat) (path : Option (List UInt8)) (omode : Nat) : FsM Int := do
  match path with
  | none => pure (-1)
  | some path => do
    beginOp
    match ← openInode p path omode with
    | none => do
      endOp
      pure (-1)
    | some ip => openFile p ip omode

/-- The end of `sys_mkdir` and `sys_mknod`. -/
def sysCreate (p : Nat) (path : Option (List UInt8)) (type major minor : Nat) : FsM Int := do
  beginOp
  match path with
  | none => do
    endOp
    pure (-1)
  | some path => do
    match ← create p path type major minor with
    | none => do
      endOp
      pure (-1)
    | some ip => do
      iunlockput ip
      endOp
      pure 0

/-- `sys_mkdir`. -/
def sysMkdir (p : Nat) (path : Option (List UInt8)) : FsM Int := sysCreate p path tDir 0 0

/-- `sys_mknod`. The device numbers are cut to a `short`. -/
def sysMknod (p : Nat) (path : Option (List UInt8)) (major minor : Int) : FsM Int :=
  sysCreate p path tDevice (major % 2 ^ 16).toNat (minor % 2 ^ 16).toNat

/-- `sys_chdir`. -/
def sysChdir (p : Nat) (path : Option (List UInt8)) : FsM Int := do
  beginOp
  match path with
  | none => do
    endOp
    pure (-1)
  | some path => do
    match ← namei p path with
    | none => do
      endOp
      pure (-1)
    | some ip => do
      ilock ip
      let d := (← getInode ip).copy
      if d.type ≠ tDir then do
        iunlockput ip
        endOp
        pure (-1)
      else do
        iunlock ip
        match ((← get).proc p).cwd with
        | none => throw .kerneltrap
        | some cwd => do
          iput cwd
          endOp
          modifyProc p fun pr => { pr with cwd := some ip }
          pure 0

/-! ## Pipes -/

/-- The end of `pipealloc`, when it cannot have a page or the files. -/
def pipeallocBad (f0 f1 : Option Nat) : FsM (Option (Nat × Nat)) := do
  (match f0 with
    | some f => fileclose f
    | none => pure ())
  (match f1 with
    | some f => fileclose f
    | none => pure ())
  pure none

/-- `pipealloc`: the files of the read end and of the write end. `pi` is what
`kalloc` returns. -/
def pipealloc (pi : Nat) : FsM (Option (Nat × Nat)) := do
  match ← filealloc with
  | none => pipeallocBad none none
  | some f0 => do
    match ← filealloc with
    | none => pipeallocBad (some f0) none
    | some f1 =>
      if pi = 0 then pipeallocBad (some f0) (some f1)
      else do
        modifyFile f0 fun file =>
          { file with type := .pipe, readable := true, writable := false, pipe := pi }
        modifyFile f1 fun file =>
          { file with type := .pipe, readable := false, writable := true, pipe := pi }
        pure (some (f0, f1))

/-- The end of `sys_pipe` when it fails. -/
def sysPipeBad (rf wf : Nat) : FsM Int := do
  fileclose rf
  fileclose wf
  pure (-1)

/-- `sys_pipe`. `ok` says whether the descriptors can be copied out. -/
def sysPipe (p pi : Nat) (ok : Bool) : FsM Int := do
  match ← pipealloc pi with
  | none => pure (-1)
  | some (rf, wf) => do
    match ← fdalloc p rf with
    | none => sysPipeBad rf wf
    | some fd0 => do
      match ← fdalloc p wf with
      | none => do
        setFd p fd0 none
        sysPipeBad rf wf
      | some fd1 =>
        if ok then pure 0
        else do
          setFd p fd0 none
          setFd p fd1 none
          sysPipeBad rf wf

/-! ## Processes -/

/-- The calls of `readi` in `exec`, at the offsets and with the lengths that it
finds in the file. It may stop after any of them. -/
def execReads (ip : Nat) : List (Nat × Nat) → FsM Unit
  | [] => pure ()
  | (off, n) :: l => do
    let _ ← readi ip .kernel off n
    execReads ip l

/-- What follows the label `bad` in `exec`. -/
def execBad : Option Nat → FsM Bool
  | none => pure false
  | some ip => do
    iunlockput ip
    endOp
    pure false

/-- `exec`, as far as it concerns files. `loaded` says whether the program is loaded, and `ok`
whether there is a stack with the arguments then. -/
def exec (p : Nat) (path : Option (List UInt8)) (l : List (Nat × Nat)) (loaded ok : Bool) : FsM Bool := do
  match path with
  | none => pure false
  | some path => do
    beginOp
    match ← namei p path with
    | none => do
      endOp
      pure false
    | some ip => do
      ilock ip
      execReads ip l
      if loaded then do
        iunlockput ip
        endOp
        -- `ip = 0` here
        if ok then pure true else execBad none
      else execBad (some ip)

/-- The loop of `fork` over the descriptors from `fd` on. -/
def dupRounds (p np fd : Nat) : Nat → FsM Unit
  | 0 => pure ()
  | n + 1 => do
    (match ((← get).proc p).ofile fd with
      | none => pure ()
      | some f => do
        filedup f
        setFd np fd (some f))
    dupRounds p np (fd + 1) n

/-- `fork`: the new process. `ok` says whether there is memory for it. -/
def fork (p : Nat) (ok : Bool) : FsM (Option Nat) := do
  let s ← get
  match (List.range nproc).find? fun np => (s.proc np).state = .unused with
  | none => pure none
  | some np =>
    if ok then do
      dupRounds p np 0 nofile
      match ((← get).proc p).cwd with
      | none => throw .kerneltrap
      | some cwd => do
        let cwd ← idup cwd
        modifyProc np fun pr => { pr with cwd := some cwd, state := .runnable }
        pure (some np)
    else pure none

/-- The loop of `exit` over the descriptors from `fd` on. -/
def closeRounds (p fd : Nat) : Nat → FsM Unit
  | 0 => pure ()
  | n + 1 => do
    (match ((← get).proc p).ofile fd with
      | none => pure ()
      | some f => do
        fileclose f
        setFd p fd none)
    closeRounds p (fd + 1) n

/-- `initproc`: `userinit` takes the first entry of the process table. -/
def initproc : Nat := 0

/-- `exit`. -/
def exit (p : Nat) : FsM Unit := do
  if p = initproc then throw .initExiting
  else do
    closeRounds p 0 nofile
    match ((← get).proc p).cwd with
    | none => throw .kerneltrap
    | some cwd => do
      beginOp
      iput cwd
      endOp
      modifyProc p fun pr => { pr with cwd := none, state := .zombie }

/-! ## Runs -/

/-- What `argstr` may fetch: characters without a NUL, and fewer than
`MAXPATH`. -/
structure Path where
  chars : List UInt8
  noNul : 0 ∉ chars
  short : chars.length < maxPath

/-- A call, and the process that makes it. -/
inductive Call where
  | dup (p : Nat) (fd : Int)
  | read (p : Nat) (fd : Int) (m : UserMem) (addr : Nat) (n io : Int)
  | write (p : Nat) (fd : Int) (m : UserMem) (addr : Nat) (n io : Int)
  | close (p : Nat) (fd : Int)
  | fstat (p : Nat) (fd : Int) (ok : Bool)
  | link (p : Nat) (old new : Option Path)
  | unlink (p : Nat) (path : Option Path)
  | open (p : Nat) (path : Option Path) (omode : Nat)
  | mkdir (p : Nat) (path : Option Path)
  | mknod (p : Nat) (path : Option Path) (major minor : Int)
  | chdir (p : Nat) (path : Option Path)
  | pipe (p pi : Nat) (ok : Bool)
  | exec (p : Nat) (path : Option Path) (reads : List (Nat × Nat)) (loaded ok : Bool)
  | fork (p : Nat) (ok : Bool)
  | exit (p : Nat)
  /-- `wait` returns, and the entry of process `q` is free again. -/
  | wait (p q : Nat)

/-- The process that makes a call. -/
def Call.proc : Call → Nat
  | dup p _ => p
  | read p .. => p
  | write p .. => p
  | close p _ => p
  | fstat p .. => p
  | link p .. => p
  | unlink p _ => p
  | «open» p .. => p
  | mkdir p _ => p
  | mknod p .. => p
  | chdir p _ => p
  | pipe p .. => p
  | exec p .. => p
  | fork p _ => p
  | exit p => p
  | wait p _ => p

/-- What a call does. Its result goes to a register of the process. -/
def Call.run : Call → FsM Unit
  | dup p fd => do let _ ← sysDup p fd
  | read p fd m addr n io => do let _ ← sysRead p fd m addr n io
  | write p fd m addr n io => do let _ ← sysWrite p fd m addr n io
  | close p fd => do let _ ← sysClose p fd
  | fstat p fd ok => do let _ ← sysFstat p fd ok
  | link p old new => do let _ ← sysLink p (old.map Path.chars) (new.map Path.chars)
  | unlink p path => do let _ ← sysUnlink p (path.map Path.chars)
  | «open» p path omode => do let _ ← sysOpen p (path.map Path.chars) omode
  | mkdir p path => do let _ ← sysMkdir p (path.map Path.chars)
  | mknod p path major minor => do let _ ← sysMknod p (path.map Path.chars) major minor
  | chdir p path => do let _ ← sysChdir p (path.map Path.chars)
  | pipe p pi ok => do let _ ← sysPipe p pi ok
  | exec p path l loaded ok => do let _ ← Fs.exec p (path.map Path.chars) l loaded ok
  | fork p ok => do let _ ← Fs.fork p ok
  | exit p => Fs.exit p
  | wait _ q => do
    if ((← get).proc q).state = .zombie then
      modifyProc q fun pr => { pr with state := .unused }
    else pure ()

/-- A process makes calls when it is runnable. -/
def Call.enabled (s : Fs) (c : Call) : Prop := c.proc < nproc ∧ (s.proc c.proc).state = .runnable

instance (s : Fs) (c : Call) : Decidable (c.enabled s) := inferInstanceAs (Decidable (_ ∧ _))

/-- One call. A panic ends the run. -/
def step (s : Fs) (c : Call) : Option Fs :=
  if c.enabled s then
    match c.run s with
    | .ok (_, s') => some s'
    | .error _ => none
  else none

/-- The first process at the root, as `userinit` leaves it. The cache is empty. -/
def boot (disk : Disk) (evict : Nat → List Nat) : Fs where
  disk := disk
  cache := fun _ => none
  lh := []
  outstanding := 0
  evict := evict
  reads := 0
  logged := []
  itable := fun e => if e = 0 then { Inode.zero with inum := rootIno, ref := 1 } else Inode.zero
  ftable := fun _ => File.zero
  proc := fun p =>
    if p = initproc then { state := .runnable, ofile := fun _ => none, cwd := some 0 }
    else { state := .unused, ofile := fun _ => none, cwd := none }

/-! ## An empty file system

A disk of 60 blocks with the root directory and nothing else, laid out as
`mkfs/mkfs.c` does. -/

/-- The superblock of the small disk. -/
@[reducible] def small : Superblock where
  size := 60
  ninodes := 16
  nlog := Xv6.nlog
  inodestart := 32
  bmapstart := 34

/-- Blocks 0 to 35 are in use, and block 35 has the entries of the root. -/
def emptyDisk : Disk := fun b =>
  if b = 32 then writeDinode Block.zero (dinodeOff rootIno) { Dinode.fresh tDir with
    nlink := 1, size := 2 * direntSize, addrs := (List.replicate 13 0).set 0 35 }
  else if b = 34 then Block.zero.splice 0 [255, 255, 255, 255, 15]
  else if b = 35 then
    (Block.zero.splice 0 (Dirent.bytes ⟨rootIno, strncpy dot dirsiz⟩)).splice direntSize
      (Dirent.bytes ⟨rootIno, strncpy dotdot dirsiz⟩)
  else Block.zero

/-- The path `a`. -/
def pathA : Path := ⟨[97], by decide, by decide⟩

/-- The path `f`. -/
def pathF : Path := ⟨[102], by decide, by decide⟩

end Xv6.Fs
