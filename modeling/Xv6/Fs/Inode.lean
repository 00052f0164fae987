import Xv6.File
import Xv6.Process.Lifecycle
import Xv6.Fs.Layout

/-!
# Blocks and inodes

`kernel/fs.c` up to `writei`, on top of the buffer cache and the log. Calls run
one after the other, so a lock that is taken is one that the caller itself
holds: `acquiresleep` then never returns.

A buffer that is in the cache holds data that may differ from its block on the
disk. `log_write` puts the block in the header of the log, and `end_op` writes
the blocks of the header to the disk. A buffer that is not in the header may be
recycled whenever some block is read; `evict` says which ones are. While a
buffer is in use its data is a local value, and `log_write` gets the data that
the buffer has by then.

There is one device.
-/

namespace Xv6

open Function

open Xv6.Inode (Dinode ninode)

namespace Fs

/-- `struct inode`. -/
structure Inode where
  inum : Nat
  ref : Nat
  /-- Whether the sleep-lock is held. -/
  lock : Bool
  valid : Bool
  /-- The copy of the inode on the disk. -/
  copy : Dinode

/-- An inode of the table before its first use. -/
def Inode.zero : Inode where
  inum := 0
  ref := 0
  lock := false
  valid := false
  copy := Dinode.fresh 0

/-- The parts of `struct proc` that concern files. -/
structure Proc where
  state : ProcTable.State
  ofile : Nat → Option Nat
  /-- The current directory, an index of the inode table. -/
  cwd : Option Nat

/-- How a call may end other than by returning. -/
inductive Stop where
  /-- `too big a transaction` -/
  | logTooBig
  /-- `log_write outside of trans` -/
  | logOutside
  /-- `freeing free block` -/
  | freeingFreeBlock
  /-- `iget: no inodes` -/
  | igetNoInodes
  /-- `ilock` -/
  | ilock
  /-- `ilock: no type` -/
  | ilockNoType
  /-- `iunlock` -/
  | iunlock
  /-- `bmap: out of range` -/
  | bmapOutOfRange
  /-- `dirlookup not DIR` -/
  | dirlookupNotDir
  /-- `dirlookup read` -/
  | dirlookupRead
  /-- `dirlink read` -/
  | dirlinkRead
  /-- `isdirempty: readi` -/
  | isdiremptyReadi
  /-- `unlink: nlink < 1` -/
  | unlinkNlink
  /-- `unlink: writei` -/
  | unlinkWritei
  /-- `filedup` -/
  | filedup
  /-- `fileclose` -/
  | fileclose
  /-- `fileread` -/
  | fileread
  /-- `filewrite` -/
  | filewrite
  /-- `init exiting` -/
  | initExiting
  /-- A null pointer is used. -/
  | kerneltrap
  /-- The call sleeps and nothing can wake it. -/
  | sleeps
  deriving DecidableEq, Repr

end Fs

/-- The disk, and what the kernel keeps in memory. -/
structure Fs where
  disk : Disk
  /-- The data of the buffers that are in the cache. -/
  cache : Nat → Option Block
  /-- `log.lh`: the blocks that the next commit writes. -/
  lh : List Nat
  /-- `log.outstanding`. -/
  outstanding : Nat
  /-- Which buffers are recycled at each read. -/
  evict : Nat → List Nat
  /-- How many reads there were. -/
  reads : Nat
  /-- The blocks that `log_write` was called for, the last one first, with a list
  for each `begin_op`. The kernel does not keep this. -/
  logged : List (List Nat)
  itable : Nat → Fs.Inode
  ftable : Nat → File
  proc : Nat → Fs.Proc

/-- A program over the file system. -/
abbrev FsM := StateT Fs (Except Fs.Stop)

namespace Fs

/-- What a read of a block gives: the buffer, or the disk. -/
def view (s : Fs) (b : Nat) : Block := (s.cache b).getD (s.disk b)

def modifyInode (ip : Nat) (g : Inode → Inode) : FsM Unit :=
  modify fun s => { s with itable := update s.itable ip (g (s.itable ip)) }

def getInode (ip : Nat) : FsM Inode := do return (← get).itable ip

variable [Superblock]

/-! ## The cache and the log -/

/-- Recycle a buffer, unless the log has it. -/
def recycle (lh : List Nat) (cache : Nat → Option Block) (b : Nat) : Nat → Option Block :=
  if b ∈ lh then cache else update cache b none

omit [Superblock] in
/-- `bread`, and the data of the buffer. -/
def bread (b : Nat) : FsM Block := do
  let s ← get
  let cache := (s.evict s.reads).foldl (recycle s.lh) s.cache
  match cache b with
  | some data => do
    set { s with cache := cache, reads := s.reads + 1 }
    pure data
  | none => do
    set { s with cache := update cache b (some (s.disk b)), reads := s.reads + 1 }
    pure (s.disk b)

omit [Superblock] in
/-- The buffer of a block gets new data. -/
def setBuf (b : Nat) (data : Block) : FsM Unit :=
  modify fun s => { s with cache := update s.cache b (some data) }

/-- `log_write`, for a buffer that holds `data`. -/
def logWrite (b : Nat) (data : Block) : FsM Unit := do
  let s ← get
  if s.lh.length ≥ logSize ∨ s.lh.length ≥ Superblock.nlog - 1 then throw .logTooBig
  else if s.outstanding < 1 then throw .logOutside
  else do
    setBuf b data
    modify fun s => { s with
      lh := if b ∈ s.lh then s.lh else s.lh ++ [b]
      logged := (b :: s.logged.headD []) :: s.logged.tail }

/-- `begin_op`. -/
def beginOp : FsM Unit := do
  let s ← get
  if s.lh.length + (s.outstanding + 1) * maxOpBlocks > logSize then throw .sleeps
  else set { s with outstanding := s.outstanding + 1, logged := [] :: s.logged }

/-- `commit`: the blocks in the header are written to their places. -/
def commit : FsM Unit :=
  modify fun s => { s with
    disk := s.lh.foldl (fun d b => update d b (s.view b)) s.disk, lh := [] }

/-- `end_op`. -/
def endOp : FsM Unit := do
  modify fun s => { s with outstanding := s.outstanding - 1 }
  let s ← get
  if s.outstanding = 0 then commit else pure ()

/-! ## Blocks -/

/-- `bzero`. -/
def bzero (b : Nat) : FsM Unit := do
  let _ ← bread b
  logWrite b Block.zero

/-- The first bit that is clear, of the `n` bits from `bi` on. -/
def clearBit (data : Block) (bi : Nat) : Nat → Option Nat
  | 0 => none
  | n + 1 => if data.bit bi then clearBit data (bi + 1) n else some bi

/-- The loop of `balloc` over the blocks of the bitmap, from the one of block `b`
on. -/
def ballocRounds (b : Nat) : Nat → FsM Nat
  | 0 => pure 0
  | n + 1 => do
    let data ← bread (bblock b)
    match clearBit data 0 (min bpb (Superblock.size - b)) with
    | some bi => do
      logWrite (bblock b) (data.setBit bi)
      bzero (b + bi)
      pure (b + bi)
    | none => ballocRounds (b + bpb) n

/-- `balloc`. -/
def balloc : FsM Nat := ballocRounds 0 ((Superblock.size + bpb - 1) / bpb)

/-- `bfree`. -/
def bfree (b : Nat) : FsM Unit := do
  let data ← bread (bblock b)
  if data.bit (b % bpb) then logWrite (bblock b) (data.clearBit (b % bpb))
  else throw .freeingFreeBlock

/-! ## Inodes -/

/-- `iget`: the entry of the inode in the table, or an empty one. -/
def iget (inum : Nat) : FsM Nat := do
  let s ← get
  match (List.range ninode).find? fun e => 0 < (s.itable e).ref ∧ (s.itable e).inum = inum with
  | some e => do
    modifyInode e fun ip => { ip with ref := ip.ref + 1 }
    pure e
  | none =>
    match (List.range ninode).find? fun e => (s.itable e).ref = 0 with
    | some e => do
      modifyInode e fun ip => { ip with inum := inum, ref := 1, valid := false }
      pure e
    | none => throw .igetNoInodes

/-- The loop of `ialloc` over the inodes from `inum` on. -/
def iallocRounds (type inum : Nat) : Nat → FsM (Option Nat)
  | 0 => pure none
  | n + 1 => do
    let data ← bread (iblock inum)
    if (readDinode data (dinodeOff inum)).type = 0 then do
      logWrite (iblock inum) (writeDinode data (dinodeOff inum) (Dinode.fresh type))
      let e ← iget inum
      pure (some e)
    else iallocRounds type (inum + 1) n

/-- `ialloc`. -/
def ialloc (type : Nat) : FsM (Option Nat) := iallocRounds type 1 (ninodes - 1)

/-- `iupdate`. -/
def iupdate (ip : Nat) : FsM Unit := do
  let inode ← getInode ip
  let data ← bread (iblock inode.inum)
  logWrite (iblock inode.inum) (writeDinode data (dinodeOff inode.inum) inode.copy)

/-- `idup`. -/
def idup (ip : Nat) : FsM Nat := do
  modifyInode ip fun ip => { ip with ref := ip.ref + 1 }
  pure ip

/-- `acquiresleep` of the lock of an inode. -/
def acquiresleep (ip : Nat) : FsM Unit := do
  let inode ← getInode ip
  if inode.lock then throw .sleeps else modifyInode ip fun ip => { ip with lock := true }

/-- `releasesleep`. -/
def releasesleep (ip : Nat) : FsM Unit := modifyInode ip fun ip => { ip with lock := false }

/-- `ilock`. -/
def ilock (ip : Nat) : FsM Unit := do
  let inode ← getInode ip
  if inode.ref < 1 then throw .ilock
  else do
    acquiresleep ip
    if inode.valid then pure ()
    else do
      let data ← bread (iblock inode.inum)
      let d := readDinode data (dinodeOff inode.inum)
      modifyInode ip fun ip => { ip with copy := d, valid := true }
      if d.type = 0 then throw .ilockNoType else pure ()

/-- `iunlock`. -/
def iunlock (ip : Nat) : FsM Unit := do
  let inode ← getInode ip
  if inode.lock = false ∨ inode.ref < 1 then throw .iunlock else releasesleep ip

/-- Change a field of the copy of an inode. -/
def modifyCopy (ip : Nat) (g : Dinode → Dinode) : FsM Unit :=
  modifyInode ip fun ip => { ip with copy := g ip.copy }

/-- Store a block number in `ip->addrs`. -/
def setAddr (ip n addr : Nat) : FsM Unit :=
  modifyCopy ip fun d => { d with addrs := d.addrs.set n addr }

/-- `bmap`. -/
def bmap (ip bn : Nat) : FsM Nat := do
  let inode ← getInode ip
  if bn < ndirect then
    let addr := inode.copy.addrs.getD bn 0
    if addr = 0 then do
      let addr ← balloc
      (if addr = 0 then pure () else setAddr ip bn addr)
      pure addr
    else pure addr
  else if bn - ndirect < nindirect then do
    let addr := inode.copy.addrs.getD ndirect 0
    let addr ← (if addr = 0 then do
        let addr ← balloc
        (if addr = 0 then pure () else setAddr ip ndirect addr)
        pure addr
      else pure addr)
    if addr = 0 then pure 0
    else do
      let data ← bread addr
      let entry := data.word (4 * (bn - ndirect))
      if entry = 0 then do
        let entry ← balloc
        (if entry = 0 then pure ()
          else logWrite addr (data.setWord (4 * (bn - ndirect)) entry))
        pure entry
      else pure entry
  else throw .bmapOutOfRange

/-- The loop of `itrunc` over the direct blocks from `i` on. -/
def truncDirect (ip i : Nat) : Nat → FsM Unit
  | 0 => pure ()
  | n + 1 => do
    let addr := (← getInode ip).copy.addrs.getD i 0
    (if addr = 0 then pure ()
      else do
        bfree addr
        setAddr ip i 0)
    truncDirect ip (i + 1) n

/-- The loop of `itrunc` over the entries of the indirect block from `j` on. -/
def truncEntries (data : Block) (j : Nat) : Nat → FsM Unit
  | 0 => pure ()
  | n + 1 => do
    let addr := data.word (4 * j)
    (if addr = 0 then pure () else bfree addr)
    truncEntries data (j + 1) n

/-- `itrunc`. -/
def itrunc (ip : Nat) : FsM Unit := do
  truncDirect ip 0 ndirect
  let addr := (← getInode ip).copy.addrs.getD ndirect 0
  (if addr = 0 then pure ()
    else do
      let data ← bread addr
      truncEntries data 0 nindirect
      bfree addr
      setAddr ip ndirect 0)
  modifyCopy ip fun d => { d with size := 0 }
  iupdate ip

/-- `iput`. -/
def iput (ip : Nat) : FsM Unit := do
  let inode ← getInode ip
  (if inode.ref = 1 ∧ inode.valid ∧ inode.copy.nlink = 0 then do
      acquiresleep ip
      itrunc ip
      modifyCopy ip fun d => { d with type := 0 }
      iupdate ip
      modifyInode ip fun ip => { ip with valid := false }
      releasesleep ip
    else pure ())
  modifyInode ip fun ip => { ip with ref := ip.ref - 1 }

/-- `iunlockput`. -/
def iunlockput (ip : Nat) : FsM Unit := do
  iunlock ip
  iput ip

/-! ## The contents of files -/

/-- User memory. -/
structure UserMem where
  /-- The pages that a process may use, by page number. -/
  mapped : Nat → Bool
  byte : Nat → UInt8

/-- `PGSIZE`. -/
def pgSize : Nat := 4096

/-- `copyin`: the bytes it copies, and whether these are all. It takes at most
one round per byte. -/
def UserMem.copyin (m : UserMem) : Nat → Nat → Nat → List UInt8 × Bool
  | 0, _, len => ([], len = 0)
  | k + 1, va, len =>
    if len = 0 then ([], true)
    else if m.mapped (va / pgSize) then
      let n := min (pgSize - va % pgSize) len
      let (bs, ok) := m.copyin k (va + n) (len - n)
      ((List.range n).map (fun j => m.byte (va + j)) ++ bs, ok)
    else ([], false)

/-- Where `writei` takes its bytes from. -/
inductive Src where
  | kernel (bs : List UInt8)
  | user (m : UserMem) (va : Nat)

/-- `either_copyin`: the bytes it copies, and whether these are all. -/
def Src.copyin (len : Nat) : Src → List UInt8 × Bool
  | kernel bs => (bs.take len, true)
  | user m va => m.copyin len va len

/-- The source `n` bytes further on. -/
def Src.advance (n : Nat) : Src → Src
  | kernel bs => kernel (bs.drop n)
  | user m va => user m (va + n)

/-- Where `readi` copies to. The bytes themselves are what it returns. -/
inductive Dst where
  | kernel
  | user (m : UserMem) (va : Nat)

/-- `either_copyout`: whether it can copy. -/
def Dst.copyout (len : Nat) : Dst → Bool
  | kernel => true
  | user m va => (m.copyin len va len).2

/-- The destination `n` bytes further on. -/
def Dst.advance (n : Nat) : Dst → Dst
  | kernel => kernel
  | user m va => user m (va + n)

/-- The loop of `readi`, with `n` bytes to go. Nothing is its `-1`. -/
def readRounds (ip : Nat) : Nat → Dst → Nat → Nat → FsM (Option (List UInt8))
  | 0, _, _, _ => pure (some [])
  | k + 1, dst, off, n =>
    if n = 0 then pure (some [])
    else do
      let addr ← bmap ip (off / bsize)
      if addr = 0 then pure (some [])
      else do
        let data ← bread addr
        let m := min n (bsize - off % bsize)
        if dst.copyout m then do
          let rest ← readRounds ip k (dst.advance m) (off + m) (n - m)
          pure (rest.map (data.slice (off % bsize) m ++ ·))
        else pure none

/-- `readi`: the bytes it copies. Each round copies at least one. -/
def readi (ip : Nat) (dst : Dst) (off n : Nat) : FsM (Option (List UInt8)) := do
  let size := (← getInode ip).copy.size
  if off > size ∨ off + n ≥ 2 ^ 32 then pure (some [])
  else
    let n := if off + n > size then size - off else n
    readRounds ip n dst off n

/-- The loop of `writei`, with `n` bytes to go, and how many it writes. -/
def writeRounds (ip : Nat) : Nat → Src → Nat → Nat → FsM Nat
  | 0, _, _, _ => pure 0
  | k + 1, src, off, n =>
    if n = 0 then pure 0
    else do
      let addr ← bmap ip (off / bsize)
      if addr = 0 then pure 0
      else do
        let data ← bread addr
        let m := min n (bsize - off % bsize)
        let (bs, ok) := src.copyin m
        let data := data.splice (off % bsize) bs
        if ok then do
          logWrite addr data
          let tot ← writeRounds ip k (src.advance m) (off + m) (n - m)
          pure (m + tot)
        else do
          -- the buffer keeps what `copyin` has copied
          setBuf addr data
          pure 0

/-- `writei`. -/
def writei (ip : Nat) (src : Src) (off n : Nat) : FsM Int := do
  let size := (← getInode ip).copy.size
  if off > size ∨ off + n ≥ 2 ^ 32 then pure (-1)
  else if off + n > maxFile * bsize then pure (-1)
  else do
    let tot ← writeRounds ip n src off n
    (if off + tot > size then modifyCopy ip fun d => { d with size := off + tot } else pure ())
    iupdate ip
    pure tot

end Fs

end Xv6
