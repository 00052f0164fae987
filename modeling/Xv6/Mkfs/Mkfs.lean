import Xv6.Fs.Own

/-!
# `mkfs`

`mkfs/mkfs.c`. It has its own code for inodes and for the blocks of files, and shares with the
kernel only the layout of the structures on the disk. The image is a file on the host: a sector
that the file does not have cannot be read.

The host's `read` gives a file in pieces of at most `BSIZE` bytes, and nothing says how long each of
them is.
-/

namespace Xv6.Mkfs

open Fs
open Xv6.Inode (Dinode)

/-! ## The layout of the disk -/

/-- `FSSIZE`: how many blocks the file system has. -/
def fssize : Nat := 2000

/-- `NINODES`. -/
def ninodes : Nat := 200

def nbitmap : Nat := fssize / (bsize * 8) + 1

def ninodeblocks : Nat := ninodes / ipb + 1

/-- How many meta blocks there are: boot, superblock, log, inodes and bitmap. -/
def nmeta : Nat := 2 + nlog + ninodeblocks + nbitmap

/-- How many data blocks there are. -/
def nblocks : Nat := fssize - nmeta

/-- `FSMAGIC`. -/
def fsMagic : Nat := 0x10203040

/-- `sb`, as far as the kernel uses it. -/
instance geometry : Geometry where
  size := fssize
  ninodes := ninodes
  nlog := nlog
  inodestart := 2 + nlog
  bmapstart := 2 + nlog + ninodeblocks
  root_lt := by decide
  ninodes_le := by decide
  inodestart_pos := by decide
  inodes_le := by decide
  bitmap_le := by decide
  size_lt := by decide

/-- The words of `struct superblock`. -/
def superblockWord : Nat → Nat
  | 0 => fsMagic
  | 1 => fssize
  | 2 => nblocks
  | 3 => ninodes
  | 4 => nlog
  | 5 => 2
  | 6 => 2 + nlog
  | _ => 2 + nlog + ninodeblocks

/-! ## The image -/

/-- The image and the global variables of `mkfs`. -/
structure Image where
  disk : Disk
  /-- How many sectors the image has. -/
  nsect : Nat
  freeinode : Nat
  freeblock : Nat

/-- After the loop that writes zeroes. -/
def blank : Image where
  disk := fun _ => Block.zero
  nsect := fssize
  freeinode := 1
  freeblock := nmeta

/-- How `mkfs` may end without an image. -/
inductive Abort where
  /-- `rsect` reads past the end of the image. -/
  | dieRead
  /-- A file cannot be opened. -/
  | dieOpen
  /-- `assert(rootino == ROOTINO)` -/
  | rootino
  /-- `assert(index(shortname, '/') == 0)` -/
  | slash
  /-- `assert(fbn < MAXFILE)` -/
  | maxfile
  /-- `assert(used < BSIZE*8)` -/
  | balloc
  deriving DecidableEq

abbrev MkM := StateT Image (Except Abort)

/-- `wsect`. -/
def wsect (sec : Nat) (buf : Block) : MkM Unit :=
  modify fun m => { m with disk := Function.update m.disk sec buf, nsect := max m.nsect (sec + 1) }

/-- `rsect`. -/
def rsect (sec : Nat) : MkM Block := do
  let m ← get
  if sec < m.nsect then pure (m.disk sec) else throw .dieRead

/-- `winode`. -/
def winode (inum : Nat) (ip : Dinode) : MkM Unit := do
  let buf ← rsect (iblock inum)
  wsect (iblock inum) (writeDinode buf (dinodeOff inum) ip)

/-- `rinode`. -/
def rinode (inum : Nat) : MkM Dinode := do
  let buf ← rsect (iblock inum)
  pure (readDinode buf (dinodeOff inum))

/-- `ialloc`. -/
def ialloc (type : Nat) : MkM Nat := do
  let inum := (← get).freeinode
  modify fun m => { m with freeinode := m.freeinode + 1 }
  winode inum { Dinode.fresh type with nlink := 1 }
  pure inum

/-- `balloc`. -/
def balloc (used : Nat) : MkM Unit :=
  if used < bsize * 8 then wsect (2 + nlog + ninodeblocks) ((List.range used).foldl Block.setBit Block.zero)
  else throw .balloc

/-- `freeblock++`. -/
def newBlock : MkM Nat := do
  let b := (← get).freeblock
  modify fun m => { m with freeblock := m.freeblock + 1 }
  pure b

/-- A block number of an inode, with a new block if there is none. -/
def needAddr (din : Dinode) (k : Nat) : MkM Dinode :=
  if din.addrs.getD k 0 = 0 then do
    let b ← newBlock
    pure (withAddr din k b)
  else pure din

/-- An indirect block, read from sector `sec`, with a new block in entry `j` if there is none. -/
def needEntry (sec : Nat) (indirect : Block) (j : Nat) : MkM Block :=
  if indirect.word (4 * j) = 0 then do
    let b ← newBlock
    wsect sec (indirect.setWord (4 * j) b)
    pure (indirect.setWord (4 * j) b)
  else pure indirect

/-- The block `fbn` of a file, in `iappend`. The inode may get new blocks. -/
def fileBlock (din : Dinode) (fbn : Nat) : MkM (Nat × Dinode) :=
  if fbn < ndirect then do
    let din ← needAddr din fbn
    pure (din.addrs.getD fbn 0, din)
  else do
    let din ← needAddr din ndirect
    let indirect ← rsect (din.addrs.getD ndirect 0)
    let indirect ← needEntry (din.addrs.getD ndirect 0) indirect (fbn - ndirect)
    pure (indirect.word (4 * (fbn - ndirect)), din)

/-- The loop of `iappend`. Each round appends one byte at least. -/
def appendRounds : Nat → Dinode → Nat → List UInt8 → MkM (Dinode × Nat)
  | 0, din, off, _ => pure (din, off)
  | k + 1, din, off, p =>
    if p = [] then pure (din, off)
    else if off / bsize < maxFile then do
      let (x, din) ← fileBlock din (off / bsize)
      let n1 := min p.length ((off / bsize + 1) * bsize - off)
      let buf ← rsect x
      wsect x (buf.splice (off - off / bsize * bsize) (p.take n1))
      appendRounds k din (off + n1) (p.drop n1)
    else throw .maxfile

/-- `iappend`. -/
def iappend (inum : Nat) (p : List UInt8) : MkM Unit := do
  let din ← rinode inum
  let (din, off) ← appendRounds p.length din din.size p
  winode inum { din with size := off }

/-! ## `main` -/

/-- A file that is given to `mkfs`. -/
structure Input where
  /-- `argv[i]`, without the NUL. -/
  arg : List UInt8
  /-- What the calls of `read` return, or nothing if the file cannot be opened. -/
  chunks : Option (List (List UInt8))
  arg_ne : ∀ c ∈ arg, c ≠ 0
  chunk_le : ∀ cs, chunks = some cs → ∀ p ∈ cs, p ≠ [] ∧ p.length ≤ bsize

/-- `"user/"`. -/
def userDir : List UInt8 := [117, 115, 101, 114, 47]

/-- `shortname`, without `user/`. -/
def shortname (arg : List UInt8) : List UInt8 := if arg.take 5 = userDir then arg.drop 5 else arg

/-- The character `_`. -/
def underscore : UInt8 := 95

/-- The name of the file in the root directory, before it is cut to `DIRSIZ` characters. -/
def Input.name (f : Input) : List UInt8 :=
  if (shortname f.arg).head? = some underscore then (shortname f.arg).tail else shortname f.arg

/-- The bytes of the file. -/
def Input.content (f : Input) : List UInt8 := (f.chunks.getD []).flatten

/-- Add an entry to the root directory. -/
def addEntry (inum : Nat) (name : List UInt8) : MkM Unit :=
  iappend rootIno (Dirent.bytes ⟨inum, strncpy name dirsiz⟩)

/-- The loop that copies a file. -/
def copyChunks (inum : Nat) : List (List UInt8) → MkM Unit
  | [] => pure ()
  | p :: ps => do
    iappend inum p
    copyChunks inum ps

/-- A round of the loop of `main`. -/
def addFile (f : Input) : MkM Unit :=
  if slash ∈ shortname f.arg then throw .slash
  else
    match f.chunks with
    | none => throw .dieOpen
    | some chunks => do
      let inum ← ialloc tFile
      addEntry inum f.name
      copyChunks inum chunks

/-- The loop of `main`. -/
def addFiles : List Input → MkM Unit
  | [] => pure ()
  | f :: fs => do
    addFile f
    addFiles fs

/-- The end of `main`: the size of the root directory is rounded up, and the bitmap is written. -/
def finish (rootino : Nat) : MkM Unit := do
  let din ← rinode rootino
  winode rootino { din with size := (din.size / bsize + 1) * bsize }
  balloc (← get).freeblock

/-- `main`, after the loop that writes zeroes. -/
def main (files : List Input) : MkM Unit := do
  wsect 1 (Block.zero.putWords 0 8 superblockWord)
  let rootino ← ialloc tDir
  if rootino ≠ rootIno then throw .rootino
  else do
    addEntry rootino dot
    addEntry rootino dotdot
    addFiles files
    finish rootino

/-- The image that `mkfs` makes. -/
def mkfs (files : List Input) : Except Abort Image := (main files blank).map (·.2)

end Xv6.Mkfs
