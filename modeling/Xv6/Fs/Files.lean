import Xv6.Fs.Contents

/-!
# Files as sequences of bytes

A consistent file system is a function from inode numbers to files (`files`), and a
file is its metadata and a list of bytes. On this level there are no blocks: `readi`
returns a part of the list, and `writei` replaces a part of it and changes no other
file.
-/

namespace Xv6.Fs

open Function Lib
open Xv6.Inode (Dinode ninode)

/-! ## Files -/

/-- What there is to see of an allocated inode. -/
structure Node where
  type : Nat
  major : Nat
  minor : Nat
  nlink : Nat
  bytes : List UInt8
  deriving DecidableEq

/-- The file of an inode. -/
def nodeOf (v : Nat → Block) (d : Dinode) : Node where
  type := d.type
  major := d.major
  minor := d.minor
  nlink := d.nlink
  bytes := contents v d

lemma length_nodeOf (v : Nat → Block) (d : Dinode) : (nodeOf v d).bytes.length = d.size := length_contents

section

variable [Superblock]

/-- The files that the inodes `N` have in the blocks `v`. -/
def fileMap (v : Nat → Block) (N : Nat → Dinode) (i : Nat) : Option Node :=
  if i < ninodes ∧ (N i).type ≠ 0 then some (nodeOf v (N i)) else none

/-- An inode on the disk. -/
def dinode (s : Fs) (i : Nat) : Dinode := readDinode (s.view (iblock i)) (dinodeOff i)

/-- The files of the system. -/
def files (s : Fs) : Nat → Option Node := fileMap s.view s.dinode

/-- The data of every file is in order. -/
def allData : Nat → Bool := fun _ => true

/-- The inodes, the bitmap and the buffers are in order, and so is the data of the files
of the types `K`. -/
def Sound (K : Nat → Bool) (s : Fs) : Prop := ∃ o, Sys K s.view s.dinode o s.itable ∅ s

/-- The inodes, the bitmap, the data of all files and the buffers are in order. -/
abbrev Consistent (s : Fs) : Prop := Sound allData s

/-- An inode has no holes. -/
def NoHoles (s : Fs) (i : Nat) : Prop := Dense s.view (s.dinode i)

end

variable {v v' : Nat → Block} {N N' : Nat → Dinode} {o o' : Nat → Option (Nat × Nat)} {I : Nat → Inode}
variable {s s₀ : Fs} {i e : Nat} {K : Nat → Bool}

lemma slotAddr_of_gt {d : Dinode} {n : Nat} (hn : maxFile < n) : slotAddr v d n = 0 := by
  have hlarge : ndirect + 257 ≤ n := hn
  rw [slotAddr, if_neg (by omega), if_neg (by omega)]
  split
  · rfl
  · have hbyte : ∀ j, bsize ≤ j → (v (d.addrs.getD ndirect 0)).byte j = 0 := fun j hj => dif_neg (by omega)
    have hoff : bsize ≤ 4 * (n - ndirect) := by
      unfold bsize
      omega
    rw [Block.word, hbyte _ hoff, hbyte _ (Nat.le_add_right_of_le hoff),
      hbyte _ (Nat.le_add_right_of_le hoff),
      hbyte _ (Nat.le_add_right_of_le hoff)]

variable [Geometry]

/-- The bytes of a file are in its own blocks. -/
lemma Owned.contents_eq {L : Set Nat} (h : Owned v N o L) (hi : i < ninodes)
    (ht : (N i).type ≠ 0) (hv : ∀ b m, o b = some (i, m) → v' b = v b) :
    contents v' (N i) = contents v (N i) := by
  have hslot : ∀ n, slotAddr v' (N i) n = slotAddr v (N i) n :=
    slotAddr_congr rfl fun hne => hv _ _ (h.indirect hi ht hne)
  refine contents_congr rfl fun p _ => fileByte_congr (hslot _) fun hne => ?_
  rcases Nat.lt_or_ge maxFile (p / bsize) with hgt | hle
  · exact absurd (slotAddr_of_gt hgt) hne
  · exact hv _ _ (h.owner hi ht hle hne)

lemma Owned.node_eq {L : Set Nat} (h : Owned v N o L) (hi : i < ninodes)
    (ht : (N i).type ≠ 0) (hv : ∀ b m, o b = some (i, m) → v' b = v b) :
    nodeOf v' (N i) = nodeOf v (N i) := by
  unfold nodeOf
  rw [h.contents_eq hi ht hv]

lemma Owned.dense_eq {L : Set Nat} (h : Owned v N o L) (hi : i < ninodes)
    (ht : (N i).type ≠ 0) (hv : ∀ b m, o b = some (i, m) → v' b = v b) (hd : Dense v (N i)) :
    Dense v' (N i) where
  size := hd.size
  present q hq := by
    rw [slotAddr_congr (v := v) (d := N i) rfl fun hne => hv _ _ (h.indirect hi ht hne)]
    exact hd.present q hq

/-- Only the inodes that there are matter. -/
lemma Owned.congr_nodes {L : Set Nat} (h : Owned v N o L) (hN : ∀ i < ninodes, N' i = N i) :
    Owned v N' o L where
  ledger := by
    refine h.ledger.congr (fun ⟨i, n⟩ => ?_) fun _ => Iff.rfl
    by_cases hi : i < ninodes
    · rw [slotRef, slotRef, hN i hi]
    · rw [slotRef, slotRef, if_neg (by simp [hi]), if_neg (by simp [hi])]
  marked := h.marked

lemma fixed_allData {b : Nat} : Fixed allData N o b ↔ b < dataStart ∨ o b ≠ none := by
  constructor
  · rintro (hb | ⟨i, n, hown, -⟩)
    · exact .inl hb
    · exact .inr (by rw [hown]; simp)
  · rintro (hb | hown)
    · exact .inl hb
    · obtain ⟨⟨i, n⟩, hx⟩ := Option.ne_none_iff_exists'.mp hown
      exact .inr ⟨i, n, hx, .inr rfl⟩

lemma iblock_lt_data (hi : i < ninodes) : iblock i < dataStart :=
  Nat.lt_of_lt_of_le (iblock_lt hi) (Nat.le_add_right _ _)

section

variable (h : Sys K v N o I ∅ s)
include h

lemma Sys.dinode_eq (hi : i < ninodes) : s.dinode i = N i := by
  rw [dinode, h.at_.view _ (.inl (iblock_lt_data hi))]
  exact h.nodes.disk i hi nofun

/-- What holds of the blocks and the inodes holds of those that the state shows. -/
lemma Sys.sound : Sys K s.view s.dinode o s.itable ∅ s where
  at_ := by
    have hfixed : ∀ b, Fixed K s.dinode o b → Fixed K N o b := by
      rintro b (hb | ⟨i, n, hown, hK⟩)
      · exact .inl hb
      · obtain ⟨hi, -⟩ := h.owned.own_iff.mp hown
        exact .inr ⟨i, n, hown, by rwa [h.dinode_eq hi] at hK⟩
    rw [h.at_.itable]
    exact h.at_.weaken fun b hb => ⟨hfixed b hb, h.at_.view b (hfixed b hb)⟩
  owned := by
    refine (h.owned.congr (fun b hb => ?_) fun b j hb => ?_).congr_nodes fun i hi => h.dinode_eq hi
    · unfold bitOf
      rw [h.at_.view _ (fixed_bblock hb)]
    · exact h.at_.view b (.inr ⟨j, maxFile, hb, .inl rfl⟩)
  nodes := by
    rw [h.at_.itable]
    exact {
      disk := fun i hi _ => rfl
      fits := fun i hi => h.dinode_eq hi ▸ h.nodes.fits i hi
      copy := fun e he => by
        rw [h.dinode_eq (h.nodes.inum e he)]
        exact h.nodes.copy e he
      inum := h.nodes.inum
      uniq := h.nodes.uniq }

end

lemma Sys.files_eq (h : Sys allData v N o I ∅ s) : s.files = fileMap v N := by
  funext i
  unfold files fileMap
  by_cases hi : i < ninodes ∧ (N i).type ≠ 0
  · have hview : ∀ b m, o b = some (i, m) → s.view b = v b := fun b m hb =>
      h.at_.view b (fixed_allData.mpr (.inr (by rw [hb]; simp)))
    rw [h.dinode_eq hi.1, if_pos hi, if_pos hi, h.owned.node_eq hi.1 hi.2 hview]
  · rw [if_neg hi, if_neg]
    rintro ⟨hlt, ht⟩
    exact hi ⟨hlt, h.dinode_eq hlt ▸ ht⟩

lemma Sys.noHoles (h : Sys K v N o I ∅ s) (hi : i < ninodes) (ht : (N i).type ≠ 0) :
    NoHoles s i ↔ Dense v (N i) := by
  have hind : ∀ n, slotAddr s.view (N i) n = slotAddr v (N i) n := by
    refine slotAddr_congr rfl fun hne => ?_
    exact h.at_.view _ (.inr ⟨i, maxFile, h.owned.indirect hi ht hne, .inl rfl⟩)
  unfold NoHoles
  rw [h.dinode_eq hi]
  exact ⟨fun hd => ⟨hd.size, fun q hq => hind q ▸ hd.present q hq⟩,
    fun hd => ⟨hd.size, fun q hq => (hind q).symm ▸ hd.present q hq⟩⟩

/-! ## Reading and writing -/

lemma Sys.busy {S : Set Nat} (h : Sys K v N o I ∅ s) : Busy s ∅ K v N o I S s :=
  ⟨⟨h.at_, h.owned, h.nodes.mono (Set.empty_subset S)⟩, Logs.refl s⟩

lemma Sys.file (h : Sys K v N o I ∅ s) (he : Loaded I e) (hi : (I e).inum = i) :
    fileMap v N i = some (nodeOf v (N i)) := by
  obtain ⟨hlt, ht, -, -⟩ := h.node he hi
  exact if_pos ⟨hlt, ht⟩

/-- All data is in order, so that of some types is. -/
lemma Sound.weaken (h : Consistent s) : Sound K s := by
  obtain ⟨o, hsys⟩ := h
  refine ⟨o, hsys.at_.weaken fun b hb => ⟨hb.imp_right ?_, rfl⟩, hsys.owned, hsys.nodes⟩
  exact fun ⟨i, n, hown, _⟩ => ⟨i, n, hown, .inr rfl⟩

lemma fileMap_others {L : Set Nat} (h : Others i v N o v' N' o') (hown : Owned v N o L) {j : Nat}
    (hj : j ≠ i) : fileMap v' N' j = fileMap v N j := by
  unfold fileMap
  rw [h.node j hj]
  by_cases hlt : j < ninodes ∧ (N j).type ≠ 0
  · rw [if_pos hlt, if_pos hlt, hown.node_eq hlt.1 hlt.2 fun b m hb => (h.block b j m hb hj).2]
  · rw [if_neg hlt, if_neg hlt]

/-- `writei` on the level of files. -/
lemma Stored.fileMap_eq {off r : Nat} {f : Nat → UInt8} (h : Stored i allData off r f v N o v' N' o')
    (hown : Owned v N o ∅) (hi : i < ninodes) (ht : (N i).type ≠ 0) :
    fileMap v' N' = update (fileMap v N) i
      (some { nodeOf v (N i) with bytes := overwrite (Fs.contents v (N i)) off ((List.range r).map f) }) := by
  funext j
  by_cases hj : j = i
  · subst hj
    have ht' : (N' j).type ≠ 0 := by rwa [h.fields]
    rw [update_self, fileMap, if_pos ⟨hi, ht'⟩, ← h.contents rfl]
    unfold nodeOf
    rw [h.fields]
  · rw [update_of_ne hj]
    exact fileMap_others h.others hown hj

lemma readi_files {dst : Dst} {off n : Nat} {E : Stop → Prop} (hs : Consistent s) (he : Loaded s.itable e)
    (hi : (s.itable e).inum = i) (hd : NoHoles s i) (hdst : dst.Writable n) {x : Node}
    (hx : s.files i = some x) :
    Ends (readi e dst off n) s (fun r s' =>
      r = some (if off > x.bytes.length ∨ off + n ≥ 2 ^ 32 then [] else (x.bytes.drop off).take n) ∧
      Consistent s' ∧ s'.files = s.files ∧ s'.itable = s.itable ∧ Logs s ∅ s') E := by
  obtain ⟨o, hsys⟩ := hs
  obtain rfl : nodeOf s.view (s.dinode i) = x := Option.some.inj ((hsys.file he hi).symm.trans hx)
  refine (readi_spec he hi rfl hd hdst s (hsys.busy (S := ∅))).mono fun r s' ⟨hbusy, hr⟩ => ?_
  refine ⟨?_, ⟨o, hbusy.sound⟩, hbusy.files_eq, hbusy.at_.itable, hbusy.toLogs⟩
  simp only [hr, length_nodeOf]
  rfl

/-- The bitmap that the state shows. -/
lemma Sys.full (h : Sys K v N o I ∅ s) (hfull : Full v) : Full s.view := fun b hb => by
  unfold bitOf
  rw [h.at_.view _ (fixed_bblock hb)]
  exact hfull b hb

/-- The other files keep their blocks. -/
lemma Others.dense {j : Nat} (h : Others i v N o v' N' o') (hown : Owned v N o ∅) (hj : j ≠ i)
    (hlt : j < ninodes) (ht : (N j).type ≠ 0) (hd : Dense v (N j)) : Dense v' (N' j) := by
  rw [h.node j hj]
  exact hown.dense_eq hlt ht (fun b m hb => (h.block b j m hb hj).2) hd

lemma files_ne_none {j : Nat} : s.files j ≠ none ↔ j < ninodes ∧ (s.dinode j).type ≠ 0 := by
  unfold files fileMap
  split
  next h => exact ⟨fun _ => h, fun _ => by simp⟩
  next h => exact ⟨fun hc => absurd rfl hc, fun hc => absurd hc h⟩

lemma writei_files {src : Src} {off n : Nat} (hs : Consistent s) (he : Loaded s.itable e)
    (hi : (s.itable e).inum = i) (hd : NoHoles s i) {x : Node} (hx : s.files i = some x)
    (hr : ¬ Refused x.bytes.length off n) (hsrc : src.Readable n) :
    Ends (writei e src off n) s (fun r s' => ∃ k : Nat, r = k ∧ k ≤ n ∧ (k < n → Full s'.view) ∧
      Consistent s' ∧
      s'.files = update s.files i (some { x with bytes := overwrite x.bytes off (src.bytes k) }) ∧
      (∀ j, s.files j ≠ none → NoHoles s j → NoHoles s' j) ∧
      s'.itable = setCopy s.itable e (s'.dinode i)) (Over (some (opBlocks n)) s) := by
  obtain ⟨o, hsys⟩ := hs
  obtain ⟨hlt, ht, -, -⟩ := hsys.node he hi
  obtain rfl : nodeOf s.view (s.dinode i) = x := Option.some.inj ((hsys.file he hi).symm.trans hx)
  rw [length_nodeOf] at hr
  refine (writei_spec he hi (Set.mem_singleton i) hd hr (fun _ => hsrc) (within_some.mpr (by simp)) s
    hsys.busy).mono fun r s' ⟨k, hr, hk, v', N', o', T', hbusy, hstored, _, hfull⟩ => ?_
  rw [Set.sdiff_self] at hbusy
  have hdinode := hbusy.toSys.dinode_eq hlt
  refine ⟨k, hr, hk, fun hshort => hbusy.toSys.full (hfull hshort hsrc).1, ⟨o', hbusy.toSys.sound⟩, ?_,
    fun j hj hdj => ?_, by rw [hdinode]; exact hbusy.at_.itable⟩
  · rw [hbusy.toSys.files_eq]
    exact hstored.fileMap_eq hsys.owned hlt ht
  · obtain ⟨hjlt, htj⟩ := files_ne_none.mp hj
    by_cases hji : j = i
    · subst hji
      exact (hbusy.toSys.noHoles hlt (by rwa [hstored.fields])).mpr hstored.dense
    · refine (hbusy.toSys.noHoles hjlt (by rwa [hstored.others.node j hji])).mpr ?_
      exact hstored.others.dense hsys.owned hji hjlt htj hdj

/-! ## A small file system

A disk of 100 blocks with the root directory and an empty file `f`, laid out as
`mkfs/mkfs.c` does. -/

section

omit [Geometry]

/-- The inode of the root. -/
def rootNode : Dinode := { Dinode.fresh tDir with
  nlink := 1, size := 3 * direntSize, addrs := (List.replicate 13 0).set 0 35 }

/-- The inode of the file. -/
def fileNode : Dinode := { Dinode.fresh tFile with nlink := 1 }

/-- The entries of the root. -/
def rootDirents : List Dirent :=
  [⟨rootIno, strncpy dot dirsiz⟩, ⟨rootIno, strncpy dotdot dirsiz⟩, ⟨2, strncpy [102] dirsiz⟩]

/-- Blocks 0 to 35 are in use, and block 35 has the entries of the root. -/
def sampleDisk : Disk := fun b =>
  if b = 32 then
    writeDinode (writeDinode Block.zero (dinodeOff rootIno) rootNode) (dinodeOff 2) fileNode
  else if b = 34 then Block.zero.splice 0 [255, 255, 255, 255, 15]
  else if b = 35 then Block.zero.splice 0 (rootDirents.flatMap Dirent.bytes)
  else Block.zero

/-- The root is the current directory of the first process, and the file is open. -/
def sample : Fs where
  disk := sampleDisk
  cache := fun _ => none
  lh := []
  outstanding := 0
  evict := fun _ => []
  reads := 0
  logged := []
  itable := fun e =>
    if e = 0 then ⟨rootIno, 1, false, true, rootNode⟩
    else if e = 1 then ⟨2, 1, false, true, fileNode⟩
    else Inode.zero
  ftable := fun f =>
    if f = 0 then { File.zero with type := .inode, ref := 1, readable := true, writable := true, ip := 1 }
    else File.zero
  proc := fun p =>
    if p = initproc then
      { state := .runnable, ofile := fun fd => if fd = 0 then some 0 else none, cwd := some 0 }
    else { state := .unused, ofile := fun _ => none, cwd := none }

lemma slotAddr_rootNode (v : Nat → Block) (n : Nat) : slotAddr v rootNode n = if n = 0 then 35 else 0 := by
  have haddr : ∀ k, rootNode.addrs.getD k 0 = if k = 0 then 35 else 0 := by
    intro k
    show ((List.replicate 13 0).set 0 35).getD k 0 = _
    rw [List.getD_eq_getElem?_getD, List.getElem?_set, List.getElem?_replicate]
    rcases Nat.eq_zero_or_pos k with rfl | hk
    · rfl
    · rw [if_neg (Nat.ne_of_lt hk), if_neg (Nat.ne_of_gt hk)]
      split <;> rfl
  unfold slotAddr
  rw [haddr ndirect, haddr n]
  split
  · rfl
  next hn =>
    have hne : n ≠ 0 := by
      rintro rfl
      exact hn (by decide)
    rw [if_neg hne]
    split <;> rfl

lemma slotAddr_fileNode (v : Nat → Block) (n : Nat) : slotAddr v fileNode n = 0 := by
  have haddr : ∀ k, fileNode.addrs.getD k 0 = 0 := fresh_addrs tFile
  unfold slotAddr
  rw [haddr ndirect, haddr n]
  split
  · rfl
  · split <;> rfl

lemma sample_entry {e : Nat} (he : 0 < (sample.itable e).ref) : e = 0 ∨ e = 1 := by
  by_contra hne
  rw [not_or] at hne
  simp [sample, hne, Inode.zero] at he

/-- The sample in the middle of a transaction. -/
def sampleOp : Fs := { sample with outstanding := 1, logged := [[]] }

lemma sampleOp_loaded : Loaded sampleOp.itable 1 := ⟨by decide, by decide, rfl⟩

/-- The superblock of the small disk. -/
@[reducible] def roomy : Geometry where
  size := 100
  ninodes := 16
  nlog := Xv6.nlog
  inodestart := 32
  bmapstart := 34
  root_lt := by decide
  ninodes_le := by decide
  inodestart_pos := by decide
  inodes_le := by decide
  bitmap_le := by decide
  size_lt := by decide

lemma sample_dinode {i : Nat} (hi : i < 16) : letI := roomy
    sample.dinode i = if i = rootIno then rootNode else if i = 2 then fileNode
      else readDinode Block.zero (dinodeOff i) := by
  let := roomy
  have hblock : sample.view (iblock i) = sampleDisk 32 := by
    have hiblock : iblock i = 32 := by
      show i / 16 + 32 = 32
      omega
    rw [hiblock]
    rfl
  have hdiv : ∀ j < 16, i / ipb = j / ipb := by
    intro j hj
    show i / 16 = j / 16
    omega
  have hroot : Fits rootNode := ⟨by decide, by decide, by decide, by decide, by decide, by decide, by
    intro n
    show ((List.replicate 13 0).set 0 35).getD n 0 < 2 ^ 32
    rw [List.getD_eq_getElem?_getD, List.getElem?_set]
    split
    · exact Nat.lt_of_le_of_lt (by split <;> decide) (show 35 < 2 ^ 32 by decide)
    · rw [List.getElem?_replicate]
      split <;> decide⟩
  have hfile : Fits fileNode := { fits_fresh (show tFile < 2 ^ 16 by decide) with
    nlink := show 1 < 2 ^ 16 by decide }
  rw [dinode, hblock]
  show readDinode (writeDinode (writeDinode Block.zero (dinodeOff rootIno) rootNode) (dinodeOff 2) fileNode)
    (dinodeOff i) = _
  by_cases h2 : i = 2
  · subst h2
    exact readDinode_writeDinode _ hfile (dinodeOff_le 2)
  · rw [readDinode_writeDinode_of_disjoint _ _ (dinodeOff_disjoint (hdiv 2 (by decide)) h2), if_neg h2]
    split
    next h1 =>
      subst h1
      exact readDinode_writeDinode _ hroot (dinodeOff_le rootIno)
    next h1 => exact readDinode_writeDinode_of_disjoint _ _ (dinodeOff_disjoint (hdiv _ (by decide)) h1)

lemma sample_type {i : Nat} (hi : i < 16) (ht : letI := roomy; (sample.dinode i).type ≠ 0) :
    i = rootIno ∨ i = 2 := by
  by_contra hne
  rw [not_or] at hne
  rw [sample_dinode hi, if_neg hne.1, if_neg hne.2] at ht
  exact ht (by simp [readDinode, Block.word_zero])

lemma sample_inUse : letI := roomy
    (∀ b < 100, InUse sample.view b ↔ b = 35) ∧ ∀ b < dataStart, bitOf sample.view b = true := by
  decide +kernel

lemma sample_consistent : letI := roomy; Consistent sample := by
  let := roomy
  obtain ⟨hin, hmarked⟩ := sample_inUse
  refine ⟨fun b => if b = 35 then some (rootIno, 0) else none, ⟨fun _ _ => rfl, nofun, nofun, rfl⟩,
    ⟨⟨fun {a x} => ?_, nofun, fun a => ?_⟩, hmarked⟩,
    ⟨fun _ _ _ => rfl, fun i _ => fits_readDinode _ _, fun e he => ?_, fun e he => ?_,
      fun e _ e' _ he he' => ?_⟩⟩
  · obtain ⟨i, n⟩ := x
    rw [slotRef_eq_some]
    constructor
    · intro h
      split at h
      next ha =>
        cases h
        subst ha
        rw [sample_dinode (by decide), if_pos rfl]
        exact ⟨by decide, by decide, by decide, slotAddr_rootNode _ _, by decide⟩
      next => cases h
    · rintro ⟨hi, ht, -, hslot, ha⟩
      rcases sample_type hi ht with rfl | rfl
      · rw [sample_dinode hi, if_pos rfl, slotAddr_rootNode] at hslot
        split at hslot
        next hn =>
          subst hn hslot
          rfl
        next => exact absurd hslot.symm ha
      · rw [sample_dinode hi, if_neg (by decide), if_pos rfl, slotAddr_fileNode] at hslot
        exact absurd hslot.symm ha
  · by_cases ha : a < 100
    · rw [hin a ha]
      by_cases h35 : a = 35
      · simp [h35]
      · simp [h35]
    · constructor
      · exact fun h => absurd h.2.1 ha
      · rintro (h | h)
        · rw [if_neg (by omega)] at h
          exact absurd rfl h
        · exact h.elim
  · rcases sample_entry he.ref with rfl | rfl
    · show rootNode = sample.dinode rootIno ∧ (sample.dinode rootIno).type ≠ 0
      rw [sample_dinode (by decide)]
      decide
    · show fileNode = sample.dinode 2 ∧ (sample.dinode 2).type ≠ 0
      rw [sample_dinode (by decide)]
      decide
  · rcases sample_entry he.ref with rfl | rfl
    · show rootIno < 16
      decide
    · show 2 < 16
      decide
  · rcases sample_entry he with rfl | rfl <;> rcases sample_entry he' with rfl | rfl <;> decide

lemma sampleOp_consistent : letI := roomy; Consistent sampleOp := by
  let := roomy
  obtain ⟨o, hat, howned, hnodes⟩ := sample_consistent
  exact ⟨o, ⟨hat.view, hat.clean, hat.pinned, rfl⟩, howned, hnodes⟩

lemma sampleOp_noHoles : letI := roomy; NoHoles sampleOp 2 := by
  let := roomy
  show Dense sampleOp.view (sample.dinode 2)
  rw [sample_dinode (by decide)]
  exact ⟨by decide, fun q hq => absurd hq (Nat.not_lt_zero _)⟩

lemma sampleOp_file : letI := roomy; sampleOp.files 2 = some ⟨tFile, 0, 0, 1, []⟩ := by
  let := roomy
  have hd : sampleOp.dinode 2 = fileNode := sample_dinode (by decide)
  unfold files fileMap
  rw [hd]
  rfl

end

/-! ## Bytes and blocks -/

/-- Files are sequences of bytes, and the log is the only thing that a write may stop for. -/
theorem readi_writei_bytes (hs : Consistent s) (he : Loaded s.itable e) (hd : NoHoles s (s.itable e).inum)
    {x : Node} (hx : s.files (s.itable e).inum = some x) :
    (∀ (src : Src) (off n : Nat), src.Readable n →
      (Refused x.bytes.length off n → writei e src off n s = .ok (-1, s)) ∧
      (¬ Refused x.bytes.length off n →
        Ends (writei e src off n) s (fun r s' => ∃ k : Nat, r = k ∧ k ≤ n ∧ (k < n → Full s'.view) ∧
          s'.files = update s.files (s.itable e).inum
            (some { x with bytes := overwrite x.bytes off (src.bytes k) }) ∧ Consistent s')
          (Over (some (opBlocks n)) s))) ∧
    ∀ (dst : Dst) (off n : Nat), dst.Writable n →
      Returns (readi e dst off n) s fun r s' =>
        r = some (if off > x.bytes.length ∨ off + n ≥ 2 ^ 32 then [] else (x.bytes.drop off).take n) ∧
        s'.files = s.files ∧ Consistent s' := by
  refine ⟨fun src off n hsrc => ⟨fun hr => writei_refused ?_, fun hr => ?_⟩, fun dst off n hdst => ?_⟩
  · obtain ⟨o, hsys⟩ := hs
    obtain ⟨-, -, hcopy, -⟩ := hsys.node he rfl
    obtain rfl : nodeOf s.view (s.dinode _) = x := Option.some.inj ((hsys.file he rfl).symm.trans hx)
    rwa [length_nodeOf, ← hcopy] at hr
  · exact (writei_files hs he rfl hd hx hr hsrc).mono fun r s' ⟨k, hr, hk, hfull, hs', hfiles, _⟩ =>
      ⟨k, hr, hk, hfull, hfiles, hs'⟩
  · exact (readi_files hs he rfl hd hdst hx).returns.mono fun r s' ⟨hr, hs', hfiles, _⟩ => ⟨hr, hfiles, hs'⟩

omit [Geometry] in
/-- Two bytes are written to the empty file. -/
theorem readi_writei_bytes_sample : letI := roomy
    Returns (writei 1 (.kernel [104, 105]) 0 2) sampleOp fun r s' => ∃ k : Nat, r = k ∧ k ≤ 2 ∧
      (k < 2 → Full s'.view) ∧ s'.files = update sampleOp.files 2 (some ⟨tFile, 0, 0, 1,
        overwrite [] 0 ((Src.kernel [104, 105]).bytes k)⟩) ∧ Consistent s' := by
  let := roomy
  have hends := ((readi_writei_bytes sampleOp_consistent sampleOp_loaded sampleOp_noHoles sampleOp_file).1
    (.kernel [104, 105]) 0 2 (Nat.le_refl 2)).2 (by decide)
  refine (hends.errors ?_).returns
  rintro e (⟨-, hfull⟩ | ⟨-, hout⟩)
  · exact absurd (hfull 6 rfl) (by decide)
  · exact absurd hout (by decide)

/-- The error that a program stops with. -/
def stop {α : Type} (m : FsM α) (s : Fs) : Option Stop :=
  match m s with
  | .ok _ => none
  | .error e => some e

omit [Geometry] in
/-- The 29 blocks of the file, the indirect block and the bitmap do not fit into the log. -/
theorem writei_tooBig : letI := roomy
    Consistent sampleOp ∧ Loaded sampleOp.itable 1 ∧ NoHoles sampleOp (sampleOp.itable 1).inum ∧
      (Src.kernel (List.replicate (29 * bsize) 0)).Readable (29 * bsize) ∧
      ¬ Refused (sampleOp.itable 1).copy.size 0 (29 * bsize) ∧
      stop (writei 1 (.kernel (List.replicate (29 * bsize) 0)) 0 (29 * bsize)) sampleOp = some .logTooBig :=
  ⟨sampleOp_consistent, sampleOp_loaded, sampleOp_noHoles, by
    show 29 * bsize ≤ (List.replicate (29 * bsize) (0 : UInt8)).length
    rw [List.length_replicate], by decide, by decide +kernel⟩

/-- A piece of `filewrite` writes no more blocks to the log than an operation may, wherever
the free blocks are. -/
theorem writei_chunk_logged {src : Src} {off n : Nat} (hs : Sound (fun _ => false) s)
    (he : Loaded s.itable e) (hd : NoHoles s (s.itable e).inum) (hn : n ≤ writeMax) :
    Ends (writei e src off n) s (fun _ s' => ∃ l, s'.logged.headD [] = l ++ s.logged.headD [] ∧
      l.toFinset.card ≤ maxOpBlocks) (Over (some maxOpBlocks) s) := by
  obtain ⟨o, hsys⟩ := hs
  obtain ⟨-, -, hcopy, -⟩ := hsys.node he rfl
  by_cases hr : Refused (s.itable e).copy.size off n
  · rw [Ends, writei_refused hr]
    exact ⟨[], rfl, Nat.zero_le _⟩
  · have hcost : opBlocks n ≤ maxOpBlocks := by
      have hmax : n ≤ 3072 := hn
      unfold opBlocks maxOpBlocks bsize
      omega
    rw [hcopy] at hr
    have hwithin : Within ((∅ : Finset Nat).card + opBlocks n) (some maxOpBlocks) :=
      within_some.mpr (by simpa using hcost)
    have hspec : Ends (writei e src off n) s _ _ :=
      writei_spec he rfl (Set.mem_singleton _) hd hr (fun hc => by cases hc) hwithin s hsys.busy
    refine hspec.mono fun r s' hwrote => ?_
    obtain ⟨k, -, -, v', N', o', T', hbusy, -, hwithin, -⟩ := hwrote
    obtain ⟨l, hl, hlogged⟩ := hbusy.logged
    exact ⟨l, hlogged, hl ▸ within_some.mp hwithin⟩

omit [Geometry] in
/-- A piece of the file is written. -/
theorem writei_chunk_logged_sample : letI := roomy
    Ends (writei 1 (.user ⟨fun _ => true, fun _ => 7⟩ 0) 0 3072) sampleOp
      (fun _ s' => ∃ l, s'.logged.headD [] = l ++ sampleOp.logged.headD [] ∧ l.toFinset.card ≤ maxOpBlocks)
      (Over (some maxOpBlocks) sampleOp) := by
  let := roomy
  refine writei_chunk_logged ?_ sampleOp_loaded sampleOp_noHoles (by decide)
  exact sampleOp_consistent.weaken

end Xv6.Fs
