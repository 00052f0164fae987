import Xv6.Mkfs.Build

/-!
# Images that are consistent

The invariants that the kernel expects of an image: files have no holes, no block is in two places,
the bitmap marks the blocks in use, and the link count of an inode is the number of its names.

`mkfs` rounds the size of the root directory up to the next multiple of `BSIZE`, even if it is one
already. With 62 files the 64 entries of the root fill one block exactly, and the size says that there is a second
one. A file may also be given the name `.`, and an entry with that name is not one that counts as a link. The image
is consistent in all other cases (`consistent_iff`).
-/

namespace Xv6.Mkfs

open Fs Lib List
open Xv6.Inode (Dinode)

/-- The byte at an offset of a file. The kernel reads zeroes where there is no block. -/
def fileByte (v : Disk) (d : Dinode) (off : Nat) : UInt8 :=
  if slotAddr v d (off / bsize) = 0 then 0
  else UInt8.ofNat ((v (slotAddr v d (off / bsize))).byte (off % bsize))

/-- The entries of a directory. -/
def entries (v : Disk) (d : Dinode) : List Dirent :=
  (range (d.size / direntSize)).map fun k =>
    readDirent ((range direntSize).map fun j => fileByte v d (direntSize * k + j))

/-- The inodes that are directories. -/
def directories (m : Image) : List Nat :=
  (range m.freeinode).filter fun i => (node m.disk i).type = tDir

/-- An entry that names an inode, and is not called `.`. -/
def isLink (i : Nat) (de : Dirent) : Bool := de.inum = i ∧ namecmp de.name dot ≠ 0

/-- How many entries name an inode, those called `.` aside. -/
def links (m : Image) (i : Nat) : Nat :=
  ((directories m).flatMap fun d => entries m.disk (node m.disk d)).countP (isLink i)

structure Consistent (m : Image) : Prop where
  /-- Every block before the end of a file is there. -/
  noHoles : ∀ i, 1 ≤ i → i < m.freeinode → ∀ n, n * bsize < (node m.disk i).size →
    n < maxFile ∧ slotAddr m.disk (node m.disk i) n ≠ 0
  range : ∀ i, 1 ≤ i → i < m.freeinode → ∀ n ≤ maxFile, slotAddr m.disk (node m.disk i) n ≠ 0 →
    nmeta ≤ slotAddr m.disk (node m.disk i) n ∧ slotAddr m.disk (node m.disk i) n < m.freeblock
  distinct : ∀ i, 1 ≤ i → i < m.freeinode → ∀ j, 1 ≤ j → j < m.freeinode → ∀ n ≤ maxFile, ∀ k ≤ maxFile,
    slotAddr m.disk (node m.disk i) n ≠ 0 →
    slotAddr m.disk (node m.disk i) n = slotAddr m.disk (node m.disk j) k → i = j ∧ n = k
  bitmap : ∀ b < bpb, bitOf m.disk b = true ↔ b < m.freeblock
  nlink : ∀ i, 1 ≤ i → i < m.freeinode → (node m.disk i).nlink = links m i

/-- `balloc` sets the first bits. -/
lemma bit_balloc {n : Nat} (hn : n ≤ 8 * bsize) (b : Nat) :
    ((range n).foldl Block.setBit Block.zero).bit b = decide (b < n) := by
  induction n with
  | zero => simp [Block.bit, Block.byte_zero]
  | succ n ih =>
    rw [range_succ, foldl_append, foldl_cons, foldl_nil, Block.bit_setBit _ _ (by omega),
      ih (by omega), ← Bool.decide_or, decide_eq_decide]
    omega

variable {fs : List Input} {N : Nat → Dinode} {o : Nat → Option (Nat × Nat)} {m : Image} {i : Nat}

section

variable (h : Built fs N o m)
include h

lemma Built.length_le : fs.length + 2 ≤ ninodes := h.inodes ▸ h.img.inodes.2

lemma Built.node_eq (hi : i < fs.length + 2) : node m.disk i = N i :=
  h.img.disk i (Nat.lt_of_lt_of_le hi h.length_le) (Set.notMem_empty i)

lemma Built.type_ne (hi : 1 ≤ i) (hif : i < fs.length + 2) : (N i).type ≠ 0 := h.type i hi hif ▸ typeOf_ne i

lemma Built.slot_iff (hi : 1 ≤ i) (hif : i < fs.length + 2) {n : Nat} (hn : n ≤ maxFile) :
    slotAddr m.disk (N i) n ≠ 0 ↔ Reach (contents fs i).length n :=
  h.img.slots i (Nat.lt_of_lt_of_le hif h.length_le) (h.type_ne hi hif) n hn

lemma Built.owner (hi : 1 ≤ i) (hif : i < fs.length + 2) {n : Nat} (hn : n ≤ maxFile)
    (hne : slotAddr m.disk (N i) n ≠ 0) : o (slotAddr m.disk (N i) n) = some (i, n) :=
  h.img.owner (Nat.lt_of_lt_of_le hif h.length_le) (h.type_ne hi hif) hn hne

lemma Built.rootLength : (contents fs rootIno).length = direntSize * (fs.length + 2) := by
  rw [contents_root, length_entries h.length_le]

/-- The image has the contents of the files. -/
lemma Built.fileByte_eq (hi : 1 ≤ i) (hif : i < fs.length + 2) {off : Nat} (hoff : off < maxFile * bsize) :
    fileByte m.disk (N i) off = (contents fs i).getD off 0 := by
  have hdiv : off / bsize * bsize + off % bsize = off := Nat.div_add_mod' ..
  have hlt : off / bsize < maxFile := Nat.div_lt_of_lt_mul (by rwa [Nat.mul_comm])
  unfold fileByte
  split
  next hzero =>
    have hreach : ¬ Reach (contents fs i).length (off / bsize) :=
      fun hc => (h.slot_iff hi hif (Nat.le_of_lt hlt)).mpr hc hzero
    have hle := le_of_not_reach hlt hreach
    rw [getD_eq_default _ _ (by omega)]
  next hne =>
    have hbytes := h.img.bytes _ _ _ (h.owner hi hif (Nat.le_of_lt hlt) hne) hlt (off % bsize)
      (Nat.mod_lt _ (by decide))
    rw [hbytes, hdiv, UInt8.ofNat_toNat]

/-! ## Holes -/

lemma Built.noHoles_file (hi : 2 ≤ i) (hif : i < fs.length + 2) {n : Nat} (hn : n * bsize < (N i).size) :
    n < maxFile ∧ slotAddr m.disk (N i) n ≠ 0 := by
  have hlen := h.length i (by omega) hif
  rw [h.fileSize i hi hif] at hn
  have hlt : n < maxFile := Nat.lt_of_mul_lt_mul_right (Nat.lt_of_lt_of_le hn hlen)
  exact ⟨hlt, (h.slot_iff (by omega) hif (Nat.le_of_lt hlt)).mpr (.inl ⟨hlt, hn⟩)⟩

/-- The root has a hole if its entries fill its blocks. -/
lemma Built.noHoles_root : (∀ n, n * bsize < (N rootIno).size → n < maxFile ∧
    slotAddr m.disk (N rootIno) n ≠ 0) ↔
    (fs.length + 2) % 64 ≠ 0 := by
  have hle := h.length_le
  have hslot := fun n hn => h.slot_iff (i := rootIno) (Nat.le_refl 1) (by unfold rootIno; omega) (n := n) hn
  rw [h.rootSize, h.rootLength] at *
  unfold ninodes at hle
  constructor
  · intro hall hmod
    have hroot := hall (direntSize * (fs.length + 2) / bsize) (by unfold bsize; omega)
    rcases (hslot _ (Nat.le_of_lt hroot.1)).mp hroot.2 with ⟨-, hlt⟩ | ⟨heq, -⟩
    · unfold direntSize bsize at hlt
      omega
    · exact Nat.ne_of_lt hroot.1 heq
  · intro hmod n hn
    have hlt : n < maxFile := by
      unfold direntSize bsize at hn
      unfold maxFile ndirect nindirect
      omega
    refine ⟨hlt, (hslot n (Nat.le_of_lt hlt)).mpr (.inl ⟨hlt, ?_⟩)⟩
    unfold direntSize bsize at *
    omega

/-! ## Links -/

/-- The entries of the root, and then the rest of its last block. -/
lemma Built.entries_root : ∃ r, entries m.disk (N rootIno) = rootEntries fs ++ replicate r Dirent.zero := by
  have hle := h.length_le
  have hsize : fs.length + 2 ≤ (N rootIno).size / direntSize ∧ (N rootIno).size ≤ maxFile * bsize := by
    rw [h.rootSize, h.rootLength]
    unfold ninodes at hle
    unfold direntSize bsize maxFile ndirect nindirect
    omega
  have hentry : ∀ k ∈ range ((N rootIno).size / direntSize),
      readDirent ((range direntSize).map fun j => fileByte m.disk (N rootIno) (direntSize * k + j)) =
        (rootEntries fs).getD k Dirent.zero := by
    intro k hk
    rw [mem_range] at hk
    rw [← readDirent_flatMap (fits_rootEntries hle) k, ← contents_root]
    congr 1
    refine map_congr_left fun j hj => ?_
    rw [mem_range] at hj
    refine h.fileByte_eq (i := rootIno) (Nat.le_refl 1) (by unfold rootIno; omega) ?_
    unfold direntSize at *
    omega
  refine ⟨(N rootIno).size / direntSize - (fs.length + 2), ?_⟩
  rw [entries, map_congr_left hentry]
  apply ext_getElem
  · rw [length_map, length_range, length_append, length_replicate, length_rootEntries]
    omega
  · intro k hk hk'
    rw [getElem_map, getElem_range]
    by_cases hlt : k < (rootEntries fs).length
    · rw [getD_eq_getElem _ _ hlt, getElem_append_left hlt]
    · rw [getD_eq_default _ _ (by omega), getElem_append_right (by omega), getElem_replicate]

lemma Built.directories_eq : directories m = [rootIno] := by
  have hle := h.length_le
  have hzero : (node m.disk 0).type = 0 := by
    by_contra hc
    rw [h.node_eq (by omega)] at hc
    exact absurd ((h.img.alloc 0 (by decide)).mp hc).1 (by decide)
  have hfile : ∀ k < fs.length, (node m.disk (k + 2)).type ≠ tDir := by
    intro k hk
    rw [h.node_eq (by omega), h.type (k + 2) (by omega) (by omega), typeOf,
      if_neg (by unfold rootIno; omega)]
    decide
  have hroot : (node m.disk 1).type = tDir := by
    rw [h.node_eq (by omega), h.type 1 (by omega) (by omega)]
    rfl
  have hrest : ((range fs.length).map (2 + ·)).filter (fun i => (node m.disk i).type = tDir) = [] := by
    refine filter_eq_nil_iff.mpr fun i hi => ?_
    obtain ⟨k, hk, rfl⟩ := mem_map.mp hi
    rw [decide_eq_true_iff, Nat.add_comm]
    exact hfile k (mem_range.mp hk)
  rw [directories, h.inodes, Nat.add_comm, range_add, filter_append, hrest]
  simp [range_succ, hroot, hzero, tDir, rootIno]

end

lemma Input.name_ne_zero (f : Input) : ∀ c ∈ f.name, c ≠ 0 := by
  intro c hc
  refine f.arg_ne c ?_
  have hshort : c ∈ shortname f.arg := by
    unfold Input.name at hc
    split at hc
    · exact mem_of_mem_tail hc
    · exact hc
  unfold shortname at hshort
  split at hshort
  · exact mem_of_mem_drop hshort
  · exact hshort

/-- The entry of a file is called `.` only if the file is. -/
lemma namecmp_entryOf (k : Nat) (f : Input) : namecmp (entryOf k f).name dot = 0 ↔ f.name = dot := by
  rw [namecmp_eq_zero, entryOf, cstr_strncpy, cstr_eq_take f.name_ne_zero]
  show f.name.take 14 = [46] ↔ f.name = [46]
  constructor
  · intro htake
    have hlen := congrArg length htake
    rw [length_take, length_singleton] at hlen
    rwa [take_of_length_le (by omega)] at htake
  · intro hname
    rw [hname]
    rfl

lemma countP_root (fs : List Input) : (rootEntries fs).countP (isLink rootIno) = 1 := by
  induction fs using reverseRecOn with
  | nil => decide
  | append_singleton fs f ih =>
    have hne : ¬ (entryOf fs.length f).inum = rootIno := by
      show fs.length + 2 ≠ 1
      omega
    rw [rootEntries_append, countP_append, ih, countP_singleton]
    simp [isLink, hne]

lemma countP_file (fs : List Input) (k : Nat) :
    (rootEntries fs).countP (isLink (k + 2)) = fs[k]?.elim 0 fun f => if f.name = dot then 0 else 1 := by
  induction fs using reverseRecOn with
  | nil =>
    have hne : rootIno ≠ k + 2 := by
      unfold rootIno
      omega
    simp [rootEntries, isLink, hne]
  | append_singleton fs f ih =>
    rw [rootEntries_append, countP_append, ih, countP_singleton]
    by_cases hk : k = fs.length
    · subst hk
      have hinum : (entryOf fs.length f).inum = fs.length + 2 := rfl
      simp only [isLink, hinum, true_and, ne_eq, namecmp_entryOf]
      simp
    · have hne : ¬ (entryOf fs.length f).inum = k + 2 := by
        show fs.length + 2 ≠ k + 2
        omega
      simp only [isLink, hne, false_and, decide_false]
      by_cases hlt : k < fs.length
      · rw [getElem?_append_left hlt]
        rfl
      · rw [getElem?_eq_none (by omega),
          getElem?_eq_none (by rw [length_append, length_singleton]; omega)]
        rfl

lemma Built.links_eq (h : Built fs N o m) (hi : 1 ≤ i) :
    links m i = (rootEntries fs).countP (isLink i) := by
  obtain ⟨r, hr⟩ := h.entries_root
  have hzero : isLink i Dirent.zero = false := by
    have hne : ¬ Dirent.zero.inum = i := by
      show ¬ 0 = i
      omega
    simp [isLink, hne]
  rw [links, h.directories_eq, flatMap_singleton, h.node_eq (by unfold rootIno; omega), hr,
    countP_append, countP_replicate, hzero]
  rfl

lemma Built.nlink_iff (h : Built fs N o m) :
    (∀ i, 1 ≤ i → i < m.freeinode → (node m.disk i).nlink = links m i) ↔ ∀ f ∈ fs, f.name ≠ dot := by
  have hle := h.length_le
  have hnlink : ∀ i, 1 ≤ i → i < fs.length + 2 → (node m.disk i).nlink = 1 := by
    intro i hi hif
    rw [h.node_eq hif, h.nlink i hi hif]
  rw [h.inodes]
  constructor
  · intro hall f hf hdot
    obtain ⟨k, hk, rfl⟩ := getElem_of_mem hf
    have hlinks := hall (k + 2) (by omega) (by omega)
    rw [hnlink _ (by omega) (by omega), h.links_eq (by omega), countP_file, getElem?_eq_getElem hk,
      Option.elim_some, if_pos hdot] at hlinks
    cases hlinks
  · intro hnames i hi hif
    rw [hnlink i hi hif, h.links_eq hi]
    match i with
    | 1 => exact (countP_root fs).symm
    | k + 2 =>
      have hk : k < fs.length := by omega
      rw [countP_file, getElem?_eq_getElem hk, Option.elim_some, if_neg (hnames _ (getElem_mem hk))]

/-! ## The whole image -/

lemma Built.consistent_iff (hb : Built fs N o m) :
    Consistent m ↔ (fs.length + 2) % 64 ≠ 0 ∧ ∀ f ∈ fs, f.name ≠ dot := by
  rw [← hb.noHoles_root, ← hb.nlink_iff]
  have hinodes := hb.inodes
  have hlimit := hb.limit
  constructor
  · intro hc
    refine ⟨fun n hn => ?_, hc.nlink⟩
    have hroot := hc.noHoles rootIno (Nat.le_refl 1) (by unfold rootIno; omega) n
    rw [hb.node_eq (by unfold rootIno; omega)] at hroot
    exact hroot hn
  · rintro ⟨hroot, hnlink⟩
    constructor
    case noHoles =>
      intro i hi hif n hn
      rw [hinodes] at hif
      rw [hb.node_eq hif] at hn ⊢
      by_cases hir : i = rootIno
      · subst hir
        exact hroot n hn
      · exact hb.noHoles_file (by unfold rootIno at hir; omega) hif hn
    case range =>
      intro i hi hif n hn hne
      rw [hinodes] at hif
      rw [hb.node_eq hif] at hne ⊢
      exact hb.img.range (hb.owner hi hif hn hne)
    case distinct =>
      intro i hi hif j hj hjf n hn k hk hne heq
      rw [hinodes] at hif hjf
      rw [hb.node_eq hif] at hne heq
      rw [hb.node_eq hjf] at heq
      have howner := hb.owner hi hif hn hne
      rw [heq, hb.owner hj hjf hk (heq ▸ hne)] at howner
      obtain ⟨hji, hkn⟩ := Prod.mk.inj (Option.some.inj howner)
      exact ⟨hji.symm, hkn.symm⟩
    case bitmap =>
      intro b hlt
      have hblock : bblock b = Superblock.bmapstart := by
        rw [bblock, Nat.div_eq_of_lt hlt, Nat.zero_add]
      rw [bitOf, hblock, hb.bitmap, Nat.mod_eq_of_lt hlt, bit_balloc, decide_eq_true_iff]
      unfold fssize at hlimit
      unfold bsize
      omega
    case nlink => exact hnlink

/-- `mkfs` makes a consistent image, if the entries of the root do not fill its blocks and no file
is called `.`, and only then. -/
theorem mkfs_consistent_iff {files : List Input} {m : Image} (hlen : files.length ≤ ninodes - 2)
    (h : mkfs files = .ok m) :
    Consistent m ↔ (files.length + 2) % 64 ≠ 0 ∧ ∀ f ∈ files, f.name ≠ dot := by
  have hninodes : 2 ≤ ninodes := by decide
  obtain ⟨N, o, hb⟩ := mkfs_built (by omega) h
  exact hb.consistent_iff

/-- Empty files with names of two letters. -/
def emptyFile (k : Fin 62) : Input where
  arg := [97 + UInt8.ofNat (k.val / 8), 97 + UInt8.ofNat (k.val % 8)]
  chunks := some []
  arg_ne := by
    revert k
    decide +kernel
  chunk_le := by
    intro cs hcs
    cases hcs
    nofun

lemma emptyFile_good (k : Fin 62) : (emptyFile k).Good where
  slash := by
    revert k
    decide +kernel
  opens := nofun
  length := Nat.zero_le _

/-- `user/_cat`, a file of two blocks. -/
def cat : Input where
  arg := userDir ++ [underscore, 99, 97, 116]
  chunks := some [replicate 1024 7, replicate 300 1]
  arg_ne := by decide +kernel
  chunk_le := by
    rintro cs ⟨⟩
    decide +kernel

/-- Two files, one with data. -/
theorem mkfs_consistent_cat : ∃ m, mkfs [cat, emptyFile 0] = .ok m ∧ Consistent m := by
  have hgood : ∀ f ∈ [cat, emptyFile 0], f.Good := by
    intro f hf
    rcases mem_pair.mp hf with rfl | rfl
    · exact ⟨by decide, nofun, by decide +kernel⟩
    · exact emptyFile_good 0
  obtain ⟨m, hm⟩ := mkfs_ok (by decide) hgood (by decide)
  exact ⟨m, hm, (mkfs_consistent_iff (by decide) hm).mpr ⟨by decide, by decide⟩⟩

/-- With 62 files the root directory has a hole. -/
theorem mkfs_hole : ∃ files m, files.length ≤ ninodes - 2 ∧ mkfs files = .ok m ∧ ¬ Consistent m := by
  have hgood : ∀ f ∈ (finRange 62).map emptyFile, f.Good := by
    intro f hf
    obtain ⟨k, -, rfl⟩ := mem_map.mp hf
    exact emptyFile_good k
  have hlen : ((finRange 62).map emptyFile).length = 62 := by rw [length_map, length_finRange]
  obtain ⟨m, hm⟩ := mkfs_ok (by rw [hlen]; decide) hgood (by decide +kernel)
  obtain ⟨N, o, hb⟩ := mkfs_built (by rw [hlen]; decide) hm
  refine ⟨_, m, by rw [hlen]; decide, hm, fun hc => ?_⟩
  have hmod := (hb.consistent_iff.mp hc).1
  rw [hlen] at hmod
  exact hmod rfl

end Xv6.Mkfs
