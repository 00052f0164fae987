import Mathlib

/-!
# Constants

The numbers of `kernel/param.h` and `kernel/fs.h`, and the type `int`.
-/

namespace Xv6

/-- `MAXOPBLOCKS`: how many blocks one file-system operation may write. -/
def maxOpBlocks : Nat := 10

/-- `LOGSIZE`: how many data blocks the on-disk log holds. -/
def logSize : Nat := maxOpBlocks * 3

/-- `nlog` of `mkfs/mkfs.c`: how many blocks the log area of a new disk has, the
header block included. The superblock carries it to `log.size`. -/
def nlog : Nat := logSize

/-- `NBUF`: how many buffers the block cache has. -/
def nbuf : Nat := maxOpBlocks * 3

/-- `NPROC`: how many processes there may be. -/
def nproc : Nat := 64

/-- `NOFILE`: how many files a process may have open. -/
def nofile : Nat := 16

/-- `NFILE`: how many files the system may have open. -/
def nfile : Nat := 100

/-- `MAXARG`: how many arguments `exec` takes. -/
def maxArg : Nat := 32

/-- `MAXPATH`: how long a path may be, its NUL included. -/
def maxPath : Nat := 128

/-- `ROOTDEV`: the device number of the root file system. -/
def rootDev : Nat := 1

/-- `BSIZE`: how many bytes a block has. -/
def bsize : Nat := 1024

/-- A number as an `int`. -/
def int (n : Int) : Int := (n + 2 ^ 31) % 2 ^ 32 - 2 ^ 31

end Xv6
