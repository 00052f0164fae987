import Xv6.Fs.Inode

/-!
# Directories and paths

The rest of `kernel/fs.c`. A directory is a file of entries of 16 bytes. An
entry whose inode number is zero is not in use. A string is the list of its
characters, without the terminating NUL.
-/

namespace Xv6.Fs

open Xv6.Inode (Dinode ninode)

variable [Superblock]

/-! ## Directories -/

/-- `readi` of the entry at an offset, or nothing if it does not read all of
it. -/
def readEntry (dp off : Nat) : FsM (Option Dirent) := do
  match ← readi dp .kernel off direntSize with
  | some bs => if bs.length = direntSize then pure (some (readDirent bs)) else pure none
  | none => pure none

/-- The loop of `dirlookup` from offset `off` on: the inode number and the offset
of the entry. -/
def lookupRounds (dp : Nat) (name : Name) (size : Nat) : Nat → Nat → FsM (Option (Nat × Nat))
  | 0, _ => pure none
  | k + 1, off =>
    if off < size then do
      match ← readEntry dp off with
      | none => throw .dirlookupRead
      | some de =>
        if de.inum ≠ 0 ∧ namecmp name de.name = 0 then pure (some (de.inum, off))
        else lookupRounds dp name size k (off + direntSize)
    else pure none

/-- `dirlookup`: the inode and the offset of the entry. -/
def dirlookup (dp : Nat) (name : Name) : FsM (Option (Nat × Nat)) := do
  let d := (← getInode dp).copy
  if d.type ≠ tDir then throw .dirlookupNotDir
  else do
    match ← lookupRounds dp name d.size d.size 0 with
    | none => pure none
    | some (inum, off) => do
      let ip ← iget inum
      pure (some (ip, off))

/-- The loop of `dirlink` from offset `off` on: where there is an entry that is
not in use, or the end. -/
def emptyRounds (dp size : Nat) : Nat → Nat → FsM Nat
  | 0, off => pure off
  | k + 1, off =>
    if off < size then do
      match ← readEntry dp off with
      | none => throw .dirlinkRead
      | some de => if de.inum = 0 then pure off else emptyRounds dp size k (off + direntSize)
    else pure off

/-- `dirlink`. -/
def dirlink (dp : Nat) (name : Name) (inum : Nat) : FsM Int := do
  match ← dirlookup dp name with
  | some (ip, _) => do
    iput ip
    pure (-1)
  | none => do
    let size := (← getInode dp).copy.size
    let off ← emptyRounds dp size size 0
    let de : Dirent := { inum := inum, name := strncpy name dirsiz }
    let r ← writei dp (.kernel de.bytes) off direntSize
    if r ≠ direntSize then pure (-1) else pure 0

/-- The loop of `isdirempty` from offset `off` on. -/
def isdiremptyRounds (dp size : Nat) : Nat → Nat → FsM Bool
  | 0, _ => pure true
  | k + 1, off =>
    if off < size then do
      match ← readEntry dp off with
      | none => throw .isdiremptyReadi
      | some de => if de.inum ≠ 0 then pure false else isdiremptyRounds dp size k (off + direntSize)
    else pure true

/-- `isdirempty`. -/
def isdirempty (dp : Nat) : FsM Bool := do
  let size := (← getInode dp).copy.size
  isdiremptyRounds dp size size (2 * direntSize)

/-! ## Paths -/

/-- The character `/`. -/
def slash : UInt8 := 47

/-- `skipelem`: the next element of a path and the rest of it. -/
def skipelem (path : List UInt8) : Option (Name × List UInt8) :=
  match path.dropWhile (· = slash) with
  | [] => none
  | c :: path =>
    let elem := (c :: path).takeWhile (· ≠ slash)
    let rest := (c :: path).dropWhile (· ≠ slash)
    some (elem.take dirsiz, rest.dropWhile (· = slash))

/-- The loop of `namex`. Each element is one character at least, so a round per
character is enough. -/
def namexRounds (parent : Bool) : Nat → Nat → List UInt8 → FsM (Option (Nat × Name))
  | 0, _, _ => throw .sleeps
  | k + 1, ip, path =>
    match skipelem path with
    | none =>
      if parent then do
        iput ip
        pure none
      else pure (some (ip, []))
    | some (name, path) => do
      ilock ip
      let d := (← getInode ip).copy
      if d.type ≠ tDir then do
        iunlockput ip
        pure none
      else if parent ∧ path = [] then do
        iunlock ip
        pure (some (ip, name))
      else do
        match ← dirlookup ip name with
        | none => do
          iunlockput ip
          pure none
        | some (next, _) => do
          iunlockput ip
          namexRounds parent k next path

/-- `namex`, called by process `p`: the inode, and the last element if that of its
parent is asked for. -/
def namex (p : Nat) (parent : Bool) (path : List UInt8) : FsM (Option (Nat × Name)) := do
  let s ← get
  let ip ← (if path.head? = some slash then iget rootIno
    else
      match (s.proc p).cwd with
      | some cwd => idup cwd
      | none => throw .kerneltrap)
  namexRounds parent (path.length + 1) ip path

/-- `namei`. -/
def namei (p : Nat) (path : List UInt8) : FsM (Option Nat) := do
  match ← namex p false path with
  | some (ip, _) => pure (some ip)
  | none => pure none

/-- `nameiparent`. -/
def nameiparent (p : Nat) (path : List UInt8) : FsM (Option (Nat × Name)) := namex p true path

end Xv6.Fs
