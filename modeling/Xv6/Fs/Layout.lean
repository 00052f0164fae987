import Xv6.Block
import Xv6.Inode.Table

/-!
# The format of the disk

What `kernel/fs.h` says: where the inodes and the bitmap are, and how a
`struct dinode` and a `struct dirent` lie in the bytes of a block. All numbers
are stored with the lowest byte first, so the first word of an inode is
`type` and `major`, the second `minor` and `nlink`, the third `size`, and the
other thirteen are `addrs`.
-/

namespace Xv6.Fs

open Function

open Inode (Dinode)

/-! ## Constants -/

/-- `ROOTINO`: the inode number of the root. -/
def rootIno : Nat := 1

/-- `NDIRECT`. -/
def ndirect : Nat := 12

/-- `NINDIRECT`: how many block numbers a block holds. -/
def nindirect : Nat := 256

/-- `MAXFILE`: how many blocks a file may have. -/
def maxFile : Nat := ndirect + nindirect

/-- `sizeof(struct dinode)`. -/
def dinodeSize : Nat := 64

/-- `IPB`: how many inodes a block holds. -/
def ipb : Nat := bsize / dinodeSize

/-- `BPB`: how many bits a block holds. -/
def bpb : Nat := bsize * 8

/-- `DIRSIZ`: how long a name in a directory may be. -/
def dirsiz : Nat := 14

/-- `sizeof(struct dirent)`. -/
def direntSize : Nat := 16

/-- `NDEV`. -/
def ndev : Nat := 10

/-- `T_DIR`. -/
def tDir : Nat := 1

/-- `T_FILE`. -/
def tFile : Nat := 2

/-- `T_DEVICE`. -/
def tDevice : Nat := 3

/-- The value of a `short`. -/
def short (n : Nat) : Int := if n < 2 ^ 15 then n else (n : Int) - 2 ^ 16

/-- The fields of `struct superblock` that the file system uses. -/
class Superblock where
  /-- How many blocks the disk has. -/
  size : Nat
  ninodes : Nat
  nlog : Nat
  inodestart : Nat
  bmapstart : Nat

export Superblock (ninodes bmapstart)

/-- `IBLOCK`. -/
def iblock [Superblock] (inum : Nat) : Nat := inum / ipb + Superblock.inodestart

/-- `BBLOCK`. -/
def bblock [Superblock] (b : Nat) : Nat := b / bpb + bmapstart

/-! ## Inodes -/

/-- The `w`-th word of an inode on the disk. -/
def dinodeWord (d : Dinode) : Nat → Nat
  | 0 => d.type + 2 ^ 16 * d.major
  | 1 => d.minor + 2 ^ 16 * d.nlink
  | 2 => d.size
  | w + 3 => d.addrs.getD w 0

/-- The inode at an offset of a block. -/
def readDinode (b : Block) (off : Nat) : Dinode where
  type := b.word off % 2 ^ 16
  major := b.word off / 2 ^ 16
  minor := b.word (off + 4) % 2 ^ 16
  nlink := b.word (off + 4) / 2 ^ 16
  size := b.word (off + 8)
  addrs := (List.range (ndirect + 1)).map fun k => b.word (off + 12 + 4 * k)

/-- Store an inode at an offset of a block. -/
def writeDinode (b : Block) (off : Nat) (d : Dinode) : Block :=
  b.putWords off 16 (dinodeWord d)

/-- Where an inode lies in its block. -/
def dinodeOff (inum : Nat) : Nat := dinodeSize * (inum % ipb)

/-- The fields are in the range of their types. -/
structure Fits (d : Dinode) : Prop where
  type : d.type < 2 ^ 16
  major : d.major < 2 ^ 16
  minor : d.minor < 2 ^ 16
  nlink : d.nlink < 2 ^ 16
  size : d.size < 2 ^ 32
  length : d.addrs.length = ndirect + 1
  addr : ∀ n, d.addrs.getD n 0 < 2 ^ 32

lemma dinodeOff_le (inum : Nat) : dinodeOff inum + dinodeSize ≤ bsize := by
  have hlt : inum % 16 < 16 := Nat.mod_lt _ (by decide)
  show 64 * (inum % 16) + 64 ≤ 1024
  omega

lemma fits_readDinode (b : Block) (off : Nat) : Fits (readDinode b off) where
  type := Nat.mod_lt _ (by decide)
  major := by
    have := b.word_lt off
    simp only [readDinode]
    omega
  minor := Nat.mod_lt _ (by decide)
  nlink := by
    have := b.word_lt (off + 4)
    simp only [readDinode]
    omega
  size := b.word_lt _
  length := by simp [readDinode]
  addr := by
    intro n
    by_cases hn : n < ndirect + 1
    · have hword := b.word_lt (off + 12 + 4 * n)
      simpa [readDinode, List.getD, hn] using hword
    · simp [readDinode, List.getD, hn]

lemma fresh_addrs (type n : Nat) : (Dinode.fresh type).addrs.getD n 0 = 0 := by
  show (List.replicate 13 0).getD n 0 = 0
  rw [List.getD_eq_getElem?_getD, List.getElem?_replicate]
  split <;> rfl

lemma fits_fresh {type : Nat} (h : type < 2 ^ 16) : Fits (Dinode.fresh type) where
  type := h
  major := Nat.two_pow_pos 16
  minor := Nat.two_pow_pos 16
  nlink := Nat.two_pow_pos 16
  size := Nat.two_pow_pos 32
  length := rfl
  addr := by
    intro n
    rw [fresh_addrs]
    exact Nat.two_pow_pos 32

/-- An inode reads back as it was stored. -/
lemma readDinode_writeDinode (b : Block) {off : Nat} {d : Dinode} (hd : Fits d)
    (hoff : off + dinodeSize ≤ bsize) : readDinode (writeDinode b off d) off = d := by
  have hfit : off + 4 * 16 ≤ bsize := hoff
  have hword : ∀ w < 16, (writeDinode b off d).word (off + 4 * w) = dinodeWord d w % 2 ^ 32 :=
    fun w hw => b.word_putWords (dinodeWord d) hw hfit
  have h0 : (writeDinode b off d).word off = (d.type + 2 ^ 16 * d.major) % 2 ^ 32 := hword 0 (by omega)
  have h1 : (writeDinode b off d).word (off + 4) = (d.minor + 2 ^ 16 * d.nlink) % 2 ^ 32 :=
    hword 1 (by omega)
  have h2 : (writeDinode b off d).word (off + 8) = d.size % 2 ^ 32 := hword 2 (by omega)
  have haddrs : ((List.range (ndirect + 1)).map fun k => (writeDinode b off d).word (off + 12 + 4 * k)) =
      d.addrs := by
    apply List.ext_getElem
    · rw [List.length_map, List.length_range, hd.length]
    · intro k hk hk'
      have hk13 : k < 13 := by simpa [ndirect] using hk
      have hlt := hd.addr k
      rw [List.getElem_map, List.getElem_range, show off + 12 + 4 * k = off + 4 * (k + 3) by omega,
        hword (k + 3) (by omega)]
      show d.addrs.getD k 0 % 2 ^ 32 = _
      rw [Nat.mod_eq_of_lt hlt, List.getD_eq_getElem _ _ hk']
  have htype := hd.type
  have hmajor := hd.major
  have hminor := hd.minor
  have hnlink := hd.nlink
  have hsize := hd.size
  rw [readDinode, haddrs, h0, h1, h2]
  cases d
  simp only [Dinode.mk.injEq, and_true]
  simp only at htype hmajor hminor hnlink hsize
  omega

/-- An inode beside the stored one is unchanged. -/
lemma readDinode_writeDinode_of_disjoint (b : Block) {off i : Nat} (d : Dinode)
    (h : i + dinodeSize ≤ off ∨ off + dinodeSize ≤ i) :
    readDinode (writeDinode b off d) i = readDinode b i := by
  have hword : ∀ w < 16, (writeDinode b off d).word (i + 4 * w) = b.word (i + 4 * w) := by
    intro w hw
    apply b.word_putWords_of_disjoint
    unfold dinodeSize at h
    omega
  have h0 : (writeDinode b off d).word i = b.word i := hword 0 (by omega)
  have h1 : (writeDinode b off d).word (i + 4) = b.word (i + 4) := hword 1 (by omega)
  have h2 : (writeDinode b off d).word (i + 8) = b.word (i + 8) := hword 2 (by omega)
  have haddrs : ∀ k ∈ List.range (ndirect + 1),
      (writeDinode b off d).word (i + 12 + 4 * k) = b.word (i + 12 + 4 * k) := by
    intro k hk
    have hk13 : k < 13 := List.mem_range.mp hk
    rw [show i + 12 + 4 * k = i + 4 * (k + 3) by omega, hword (k + 3) (by omega)]
  rw [readDinode, readDinode, List.map_congr_left haddrs, h0, h1, h2]

/-- Two inodes of one block do not overlap. -/
lemma dinodeOff_disjoint {i j : Nat} (hblock : i / ipb = j / ipb) (hne : i ≠ j) :
    dinodeOff i + dinodeSize ≤ dinodeOff j ∨ dinodeOff j + dinodeSize ≤ dinodeOff i := by
  have hmod : i % ipb ≠ j % ipb := by
    intro hc
    exact hne (by rw [← Nat.div_add_mod i ipb, ← Nat.div_add_mod j ipb, hblock, hc])
  unfold dinodeOff dinodeSize
  omega

/-- The other inodes are unchanged, in the block of the stored one too. -/
lemma readDinode_update_other [Superblock] (v : Nat → Block) (d : Dinode) {i j : Nat} (hj : j ≠ i) :
    readDinode (update v (iblock i) (writeDinode (v (iblock i)) (dinodeOff i) d) (iblock j))
      (dinodeOff j) = readDinode (v (iblock j)) (dinodeOff j) := by
  by_cases hblock : iblock j = iblock i
  · have hdiv : j / ipb = i / ipb := by
      unfold iblock at hblock
      omega
    rw [hblock, update_self]
    exact readDinode_writeDinode_of_disjoint _ d (dinodeOff_disjoint hdiv hj)
  · rw [update_of_ne hblock]

/-! ## Directory entries -/

/-- The characters of a name, without the terminating NUL. -/
abbrev Name := List UInt8

/-- The name `.`. -/
def dot : Name := [46]

/-- The name `..`. -/
def dotdot : Name := [46, 46]

/-- `struct dirent`. -/
structure Dirent where
  inum : Nat
  /-- `DIRSIZ` characters, of which those from the first NUL on do not count. -/
  name : List UInt8
  deriving DecidableEq

/-- The entry in the bytes that `readi` has copied. -/
def readDirent (bs : List UInt8) : Dirent where
  inum := (bs.getD 0 0).toNat + 256 * (bs.getD 1 0).toNat
  name := bs.drop 2

/-- The bytes of an entry. -/
def Dirent.bytes (de : Dirent) : List UInt8 :=
  UInt8.ofNat de.inum :: UInt8.ofNat (de.inum / 256) :: de.name

/-- `strncmp`: zero if the strings agree in their first `n` characters. -/
def strncmp : List UInt8 → List UInt8 → Nat → Int
  | _, _, 0 => 0
  | p, q, n + 1 =>
    if p.headD 0 ≠ 0 ∧ p.headD 0 = q.headD 0 then strncmp p.tail q.tail n
    else ((p.headD 0).toNat : Int) - (q.headD 0).toNat

/-- `strncpy`: the `n` bytes that it stores. -/
def strncpy : List UInt8 → Nat → List UInt8
  | _, 0 => []
  | [], n + 1 => 0 :: strncpy [] n
  | c :: t, n + 1 => c :: strncpy (if c = 0 then [] else t) n

/-- `namecmp`. -/
def namecmp (s t : List UInt8) : Int := strncmp s t dirsiz

end Xv6.Fs
