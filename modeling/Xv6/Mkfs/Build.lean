import Xv6.Fs.Entries
import Xv6.Mkfs.Append

/-!
# The files of an image

`mkfs` makes the root directory and then adds the files, one after the other. `Holds C f m` says that the
inodes before `f` have the contents `C`. The contents that the image should have are a function of the
files (`contents`), and the loop of `main` keeps that the image holds the contents of the files so far.
-/

namespace Xv6.Mkfs

open Fs Function Lib List
open Xv6.Inode (Dinode)

/-- The root is a directory, and all else are files. -/
def typeOf (i : Nat) : Nat := if i = rootIno then tDir else tFile

lemma typeOf_ne (i : Nat) : typeOf i ≠ 0 := by
  unfold typeOf
  split <;> decide

lemma typeOf_lt (i : Nat) : typeOf i < 2 ^ 16 := by
  unfold typeOf
  split <;> decide

/-- The inode of a file with these bytes. -/
structure Describes (d : Dinode) (i : Nat) (bs : List UInt8) : Prop where
  type : d.type = typeOf i
  nlink : d.nlink = 1
  size : d.size = bs.length
  length : bs.length ≤ maxFile * bsize

def Holds (C : Nat → List UInt8) (f : Nat) (m : Image) : Prop :=
  m.freeinode = f ∧ ∃ N o, Files N C o ∅ m ∧ ∀ i, 1 ≤ i → i < f → Describes (N i) i (C i)

section

variable {N : Nat → Dinode} {C : Nat → List UInt8} {P : Nat → Nat → Prop} {o : Nat → Option (Nat × Nat)}
variable {S : Set Nat} {m : Image} {d : Dinode} {E : Abort → Prop} {i f : Nat}

lemma Img.iblock_lt_nsect (h : Img N C P o S m) (hi : i < ninodes) : iblock i < m.nsect := by
  rw [h.nsect]
  exact Nat.lt_trans (iblock_bounds hi).2 (by decide)

lemma Img.rsect_eq (h : Img N C P o S m) (hi : i < ninodes) :
    rsect (iblock i) m = .ok (m.disk (iblock i), m) := by
  show (if iblock i < m.nsect then pure (m.disk (iblock i)) else throw .dieRead : MkM Block) m = _
  rw [if_pos (h.iblock_lt_nsect hi)]
  rfl

lemma Img.rinode_eq (h : Img N C P o S m) (hi : i < ninodes) (hiS : i ∉ S) : rinode i m = .ok (N i, m) := by
  show (rsect (iblock i) m >>= _) = _
  rw [h.rsect_eq hi, ← h.disk i hi hiS]
  rfl

lemma Img.winode_eq (h : Img N C P o S m) (hi : i < ninodes) (d : Dinode) :
    winode i d m = .ok (⟨⟩, m.put (iblock i) (writeDinode (m.disk (iblock i)) (dinodeOff i) d)) := by
  show (rsect (iblock i) m >>= _) = _
  rw [h.rsect_eq hi]
  exact wsect_eq _ (h.iblock_lt_nsect hi)

lemma iappend_spec (h : Holds C f m) (hi : 1 ≤ i ∧ i < f) (p : List UInt8) :
    Ends (iappend i p) m
      (fun _ m' => Holds (update C i (C i ++ p)) f m' ∧
        m'.freeblock ≤ m.freeblock + appendBlocks (C i).length p.length)
      (fun _ => ¬ Room (C i).length p.length m.freeblock) := by
  obtain ⟨hf, N, o, hfiles, hdesc⟩ := h
  have hlt : i < ninodes := by
    have := hfiles.img.inodes.2
    omega
  have hi' := hdesc i hi.1 hi.2
  have ht : (N i).type ≠ 0 := hi'.type ▸ typeOf_ne i
  have hopen : Files N C o {i} m := ⟨hfiles.img.mono (Set.empty_subset _), hfiles.limit⟩
  refine ends_bind_of_eq (hfiles.img.rinode_eq hlt (Set.notMem_empty i)) ?_
  rw [hi'.size]
  refine (appendRounds_spec p.length hopen hlt ht (Set.mem_singleton i) p (Nat.le_refl _)).bind ?_
  rintro ⟨d, off⟩ m₁ ⟨⟨a, ha⟩, hoff, hmax, hinodes, hblocks, o₁, hfiles₁⟩
  have hlength : off ≤ maxFile * bsize := hmax.trans (max_le hi'.length (Nat.le_refl _))
  have hsize : off < 2 ^ 32 := Nat.lt_of_le_of_lt hlength (by decide)
  have himg := (hfiles₁.img.setSize hlt (Set.mem_singleton i) hsize).putNode hlt
  rw [update_self, update_idem, update_self, Set.sdiff_self] at himg
  have hwrite := hfiles₁.img.winode_eq hlt { d with size := off }
  refine ends_of_eq hwrite ⟨⟨hinodes.trans hf, _, o₁, ⟨himg, hfiles₁.limit⟩, fun j hj hjf => ?_⟩, hblocks⟩
  by_cases hji : j = i
  · subst hji
    rw [update_self, update_self]
    have htype : d.type = (N j).type := (congrArg Dinode.type ha :)
    have hnlink : d.nlink = (N j).nlink := (congrArg Dinode.nlink ha :)
    exact ⟨htype.trans hi'.type, hnlink.trans hi'.nlink, hoff, hoff ▸ hlength⟩
  · rw [update_of_ne hji, update_of_ne hji]
    exact hdesc j hj hjf

lemma ialloc_spec (h : Holds C f m) (hf : f < ninodes) (hC : C f = []) :
    Ends (ialloc (typeOf f)) m (fun r m' => r = f ∧ Holds C (f + 1) m' ∧ m'.freeblock = m.freeblock) E := by
  obtain ⟨rfl, N, o, hfiles, hdesc⟩ := h
  have hP : ∀ k, ¬ Reach (C m.freeinode).length k := by
    intro k
    rw [hC]
    rintro (⟨-, hc⟩ | ⟨-, hc⟩)
    · exact Nat.not_lt_zero _ hc
    · exact Nat.not_lt_zero _ hc
  have himg := (hfiles.img.mono (Set.empty_subset {m.freeinode})).allocNode hf (Set.mem_singleton _)
    (typeOf_lt m.freeinode) (typeOf_ne m.freeinode) hP
  have hput := himg.putNode hf
  rw [update_self, Set.sdiff_self] at hput
  have hwrite := himg.winode_eq hf { Dinode.fresh (typeOf m.freeinode) with nlink := 1 }
  refine ends_get_bind (ends_modify_bind (ends_bind_of_eq hwrite (ends_pure ?_)))
  refine ⟨rfl, ⟨rfl, _, o, ⟨hput, hfiles.limit⟩, fun j hj hjf => ?_⟩, rfl⟩
  by_cases hji : j = m.freeinode
  · rw [hji, update_self, hC]
    exact ⟨rfl, rfl, rfl, Nat.zero_le _⟩
  · rw [update_of_ne hji]
    exact hdesc j hj (by omega)

end

/-! ## What the image should hold -/

/-- The entry of the root directory for a file. -/
def entryOf (k : Nat) (f : Input) : Dirent := ⟨k + 2, strncpy f.name dirsiz⟩

/-- The entries of the root directory. -/
def rootEntries (fs : List Input) : List Dirent :=
  ⟨rootIno, strncpy dot dirsiz⟩ :: ⟨rootIno, strncpy dotdot dirsiz⟩ :: fs.mapIdx entryOf

/-- The bytes of each inode. -/
def contents (fs : List Input) (i : Nat) : List UInt8 :=
  if i = rootIno then (rootEntries fs).flatMap Dirent.bytes
  else if i < 2 then []
  else (fs[i - 2]?.map Input.content).getD []

variable {fs : List Input} {f : Input} {m : Image}

lemma contents_root : contents fs rootIno = (rootEntries fs).flatMap Dirent.bytes := if_pos rfl

lemma contents_file {k : Nat} (hk : k < fs.length) : contents fs (k + 2) = (fs[k]).content := by
  unfold contents
  rw [if_neg (by unfold rootIno; omega), if_neg (by omega), Nat.add_sub_cancel, getElem?_eq_getElem hk]
  rfl

lemma contents_next : contents fs (fs.length + 2) = [] := by
  unfold contents
  rw [if_neg (by unfold rootIno; omega), if_neg (by omega), Nat.add_sub_cancel,
    getElem?_eq_none (Nat.le_refl _)]
  rfl

lemma rootEntries_append : rootEntries (fs ++ [f]) = rootEntries fs ++ [entryOf fs.length f] := by
  simp [rootEntries]

lemma length_rootEntries : (rootEntries fs).length = fs.length + 2 := by simp [rootEntries]

lemma fits_rootEntries (hlen : fs.length + 2 ≤ ninodes) : ∀ de ∈ rootEntries fs, de.Fits := by
  intro de hde
  have hmax : ninodes < 2 ^ 16 := by decide
  simp only [rootEntries, mem_cons, mem_mapIdx] at hde
  rcases hde with rfl | rfl | ⟨k, hk, rfl⟩
  · exact ⟨by decide, length_strncpy ..⟩
  · exact ⟨by decide, length_strncpy ..⟩
  · exact ⟨show k + 2 < 2 ^ 16 by omega, length_strncpy ..⟩

lemma length_entries (hlen : fs.length + 2 ≤ ninodes) :
    ((rootEntries fs).flatMap Dirent.bytes).length = direntSize * (fs.length + 2) := by
  have hbytes : ∀ de ∈ rootEntries fs, (Dirent.bytes de).length = direntSize :=
    fun de hde => Dirent.length_bytes (fits_rootEntries hlen de hde)
  rw [length_flatMap, map_congr_left hbytes, map_const', sum_replicate, length_rootEntries,
    smul_eq_mul, Nat.mul_comm]

/-- A file is added to the root directory, and then its bytes are copied. -/
lemma contents_append : contents (fs ++ [f]) =
    update (update (contents fs) rootIno
      (contents fs rootIno ++ (entryOf fs.length f).bytes)) (fs.length + 2) f.content := by
  funext i
  by_cases hi : i = fs.length + 2
  · rw [hi, update_self, contents_file (by simp)]
    simp
  rw [update_of_ne hi]
  by_cases hroot : i = rootIno
  · rw [hroot, update_self, contents_root, contents_root, rootEntries_append, flatMap_append,
      flatMap_singleton]
  · rw [update_of_ne hroot]
    unfold contents
    rw [if_neg hroot, if_neg hroot]
    split
    · rfl
    · congr 2
      by_cases hlt : i - 2 < fs.length
      · rw [getElem?_append_left hlt]
      · rw [getElem?_eq_none (l := fs) (by omega),
          getElem?_eq_none (by rw [length_append, length_singleton]; omega)]

/-! ## The run -/

/-- `mkfs` can read the file, and it is not too long. -/
structure Input.Good (f : Input) : Prop where
  slash : slash ∉ shortname f.arg
  opens : f.chunks ≠ none
  length : f.content.length ≤ maxFile * bsize

/-- How many blocks `mkfs` may take for a file. -/
def Input.cost (f : Input) : Nat := 4 * ((f.chunks.getD []).length + 1)

lemma appendBlocks_le (len : Nat) {l : Nat} (hl : l ≤ bsize) : appendBlocks len l ≤ 4 := by
  unfold appendBlocks bsize at *
  split
  · exact Nat.zero_le 4
  · have : (len % 1024 + l - 1) / 1024 ≤ 1 := by omega
    omega

section

variable {C : Nat → List UInt8} {E : Abort → Prop} {i n : Nat}

lemma copyChunks_spec (h : Holds C n m) (hi : 1 ≤ i ∧ i < n) (cs : List (List UInt8))
    (hcs : ∀ p ∈ cs, p.length ≤ bsize) :
    Ends (copyChunks i cs) m
      (fun _ m' => Holds (update C i (C i ++ cs.flatten)) n m' ∧
        m'.freeblock ≤ m.freeblock + 4 * cs.length)
      (fun _ => ¬ ((C i ++ cs.flatten).length ≤ maxFile * bsize ∧ m.freeblock + 4 * cs.length ≤ fssize)) := by
  induction cs generalizing C m with
  | nil =>
    refine ends_pure ⟨?_, Nat.le_add_right _ _⟩
    rwa [flatten_nil, append_nil, update_eq_self]
  | cons p cs ih =>
    have hcost := appendBlocks_le (C i).length (hcs p mem_cons_self)
    refine ((iappend_spec h hi p).errors fun e hc hroom => hc ?_).bind ?_
    · simp only [flatten_cons, length_append, length_cons] at hroom
      exact ⟨by omega, by omega⟩
    rintro - m₁ ⟨hholds, hfree⟩
    have hrest := ih hholds fun q hq => hcs q (mem_cons_of_mem p hq)
    rw [update_self, update_idem, append_assoc, ← flatten_cons] at hrest
    refine (hrest.mono ?_).errors fun e hc hroom => hc ?_
    · rintro - m₂ ⟨hholds₂, hfree₂⟩
      exact ⟨hholds₂, by rw [length_cons]; omega⟩
    · rw [length_cons] at hroom
      exact ⟨hroom.1, by omega⟩

end

/-- An entry is added to the root directory. -/
lemma addEntry_spec {C : Nat → List UInt8} {n : Nat} (inum : Nat) (name : List UInt8)
    (h : Holds C n m) (hn : 1 < n)
    (hlen : (C rootIno).length ≤ direntSize * ninodes) :
    Ends (addEntry inum name) m
      (fun _ m' => Holds (update C rootIno (C rootIno ++ Dirent.bytes ⟨inum, strncpy name dirsiz⟩)) n m' ∧
        m'.freeblock ≤ m.freeblock + 4)
      (fun _ => ¬ m.freeblock + 4 ≤ fssize) := by
  have hbytes : (Dirent.bytes ⟨inum, strncpy name dirsiz⟩).length = direntSize := by
    simp only [Dirent.bytes, length_cons, length_strncpy, dirsiz, direntSize]
  have hcost := appendBlocks_le (C rootIno).length (l := direntSize) (by decide)
  have hspec := iappend_spec h (i := rootIno) ⟨Nat.le_refl 1, hn⟩ (Dirent.bytes ⟨inum, strncpy name dirsiz⟩)
  rw [hbytes] at hspec
  refine (hspec.mono ?_).errors fun e hc hroom => hc ⟨?_, by omega⟩
  · rintro - m' ⟨hholds, hfree⟩
    exact ⟨hholds, by omega⟩
  · have : direntSize * ninodes + direntSize ≤ maxFile * bsize := by decide
    omega

lemma addFile_spec (h : Holds (contents fs) (fs.length + 2) m) (hlen : fs.length + 2 < ninodes) :
    Ends (addFile f) m
      (fun _ m' => Holds (contents (fs ++ [f])) (fs.length + 3) m' ∧ m'.freeblock ≤ m.freeblock + f.cost)
      (fun _ => ¬ (f.Good ∧ m.freeblock + f.cost ≤ fssize)) := by
  have hroot : (contents fs rootIno).length ≤ direntSize * ninodes := by
    rw [contents_root, length_entries (Nat.le_of_lt hlen)]
    exact Nat.mul_le_mul_left _ (Nat.le_of_lt hlen)
  have hne : fs.length + 2 ≠ rootIno := by
    unfold rootIno
    omega
  have htype : typeOf (fs.length + 2) = tFile := if_neg hne
  unfold addFile
  split
  next hslash => exact ends_throw fun hc => hc.1.slash hslash
  next hslash =>
  split
  next hnone => exact ends_throw fun hc => hc.1.opens hnone
  next cs hcs =>
    have hcost : f.cost = 4 * (cs.length + 1) := by rw [Input.cost, hcs, Option.getD_some]
    have hcontent : f.content = cs.flatten := by rw [Input.content, hcs, Option.getD_some]
    rw [← htype]
    refine (ialloc_spec h hlen contents_next).bind ?_
    rintro inum m₁ ⟨rfl, hholds₁, hfree₁⟩
    refine ((addEntry_spec _ f.name hholds₁ (by omega) hroot).errors fun e hc hroom => hc ?_).bind ?_
    · have := hroom.2
      omega
    rintro - m₂ ⟨hholds₂, hfree₂⟩
    have hcopy := copyChunks_spec hholds₂ (i := fs.length + 2) ⟨by omega, by omega⟩ cs
      fun p hp => (f.chunk_le cs hcs p hp).2
    rw [update_of_ne hne, contents_next, nil_append, ← hcontent] at hcopy
    refine (hcopy.mono ?_).errors fun e hc hroom => hc ⟨hroom.1.length, by have := hroom.2; omega⟩
    rintro - m₃ ⟨hholds₃, hfree₃⟩
    rw [contents_append]
    exact ⟨hholds₃, by omega⟩

/-- The loop of `main`. -/
lemma addFiles_spec (gs : List Input) (h : Holds (contents fs) (fs.length + 2) m)
    (hlen : (fs ++ gs).length + 2 ≤ ninodes) :
    Ends (addFiles gs) m
      (fun _ m' => Holds (contents (fs ++ gs)) ((fs ++ gs).length + 2) m' ∧
        m'.freeblock ≤ m.freeblock + (gs.map Input.cost).sum)
      (fun _ => ¬ ((∀ f ∈ gs, f.Good) ∧ m.freeblock + (gs.map Input.cost).sum ≤ fssize)) := by
  induction gs generalizing fs m with
  | nil =>
    rw [append_nil]
    exact ends_pure ⟨h, Nat.le_add_right _ _⟩
  | cons f gs ih =>
    have happ : fs ++ f :: gs = fs ++ [f] ++ gs := by rw [append_assoc, singleton_append]
    have hlt : fs.length + 2 < ninodes := by
      rw [length_append, length_cons] at hlen
      omega
    refine ((addFile_spec h hlt).errors fun e hc hroom => hc ⟨hroom.1 f mem_cons_self, ?_⟩).bind ?_
    · have := hroom.2
      rw [map_cons, sum_cons] at this
      omega
    rintro - m₁ ⟨hholds, hfree⟩
    rw [happ] at hlen ⊢
    have hlength : (fs ++ [f]).length + 2 = fs.length + 3 := by rw [length_append, length_singleton]
    rw [← hlength] at hholds
    refine ((ih hholds hlen).mono ?_).errors fun e hc hroom => hc ⟨?_, ?_⟩
    · rintro - m₂ ⟨hholds₂, hfree₂⟩
      exact ⟨hholds₂, by rw [map_cons, sum_cons]; omega⟩
    · exact fun g hg => hroom.1 g (mem_cons_of_mem f hg)
    · have := hroom.2
      rw [map_cons, sum_cons] at this
      omega

/-! ## The whole of `mkfs` -/

/-- The image before the first inode is allocated. -/
lemma holds_blank : Holds (fun _ => []) 1 (blank.put 1 superblock) := by
  have hnode : ∀ i < ninodes, node (blank.put 1 superblock).disk i = readDinode Block.zero (dinodeOff i) := by
    intro i hi
    have hne : iblock i ≠ 1 := by
      have := (iblock_bounds hi).1
      omega
    show readDinode (update blank.disk 1 superblock (iblock i)) _ = _
    rw [update_of_ne hne]
    rfl
  have htype : ∀ i < ninodes, (node (blank.put 1 superblock).disk i).type = 0 := by
    intro i hi
    rw [hnode i hi]
    show Block.zero.word _ % 2 ^ 16 = 0
    rw [Block.word_zero, Nat.zero_mod]
  refine ⟨rfl, node (blank.put 1 superblock).disk, fun _ => none, ⟨?_, by decide⟩,
    fun i hi hc => absurd hc (by omega)⟩
  constructor
  case nsect => rfl
  case super => exact blank.put_self 1 superblock
  case inodes => exact ⟨Nat.le_refl 1, by decide⟩
  case blocks => exact Nat.le_refl _
  case disk => exact fun _ _ _ => rfl
  case fits => exact fun i _ => fits_readDinode _ _
  case alloc =>
    intro i hi
    exact ⟨fun hc => absurd (htype i hi) hc, fun hc => absurd hc.2 (by have := hc.1; show ¬ i < 1; omega)⟩
  case ledger =>
    constructor
    case own_iff =>
      rintro b ⟨i, n⟩
      refine ⟨nofun, fun hc => ?_⟩
      have hsome := slotRef_eq_some.mp hc
      exact absurd (htype i hsome.1) hsome.2.1
    case at_hand => exact fun _ _ => rfl
    case used_iff =>
      intro b
      refine ⟨fun hc => absurd hc.2 (Nat.not_lt.mpr hc.1), ?_⟩
      rintro (hc | hc)
      · exact absurd rfl hc
      · exact absurd hc (Set.notMem_empty b)
  case zero =>
    intro b hb
    have hne : b ≠ 1 := by
      have : nmeta ≤ b := hb
      have : 1 < nmeta := by decide
      omega
    exact update_of_ne hne ..
  case slots => exact fun i hi ht => absurd (htype i hi) ht
  case bytes => exact fun i n b hb => nomatch hb

lemma contents_nil : contents [] =
    update (update (fun _ => []) rootIno (Dirent.bytes ⟨rootIno, strncpy dot dirsiz⟩)) rootIno
      (Dirent.bytes ⟨rootIno, strncpy dot dirsiz⟩ ++ Dirent.bytes ⟨rootIno, strncpy dotdot dirsiz⟩) := by
  funext i
  rw [update_idem]
  by_cases hi : i = rootIno
  · rw [hi, update_self]
    rfl
  · rw [update_of_ne hi]
    unfold contents
    rw [if_neg hi]
    split
    · rfl
    · rfl

/-- What `mkfs` has made of the files. -/
structure Built (fs : List Input) (N : Nat → Dinode) (o : Nat → Option (Nat × Nat)) (m : Image) : Prop where
  img : Img N (contents fs) (fun i n => Reach (contents fs i).length n) o ∅ m
  limit : m.freeblock ≤ fssize
  inodes : m.freeinode = fs.length + 2
  type : ∀ i, 1 ≤ i → i < fs.length + 2 → (N i).type = typeOf i
  nlink : ∀ i, 1 ≤ i → i < fs.length + 2 → (N i).nlink = 1
  rootSize : (N rootIno).size = ((contents fs rootIno).length / bsize + 1) * bsize
  fileSize : ∀ i, 2 ≤ i → i < fs.length + 2 → (N i).size = (contents fs i).length
  length : ∀ i, 1 ≤ i → i < fs.length + 2 → (contents fs i).length ≤ maxFile * bsize
  bitmap : m.disk Superblock.bmapstart = (range m.freeblock).foldl Block.setBit Block.zero

lemma finish_spec {E : Abort → Prop} (h : Holds (contents fs) (fs.length + 2) m) :
    Ends (finish rootIno) m (fun _ m' => ∃ N o, Built fs N o m') E := by
  obtain ⟨hf, N, o, hfiles, hdesc⟩ := h
  have hlt : rootIno < ninodes := by decide
  have hnmeta := hfiles.img.blocks
  have hroot := hdesc rootIno (Nat.le_refl 1) (by unfold rootIno; omega)
  have hlimit := hfiles.limit
  obtain ⟨size, hsize⟩ : ∃ size, size = ((N rootIno).size / bsize + 1) * bsize := ⟨_, rfl⟩
  have hsize_lt : size < 2 ^ 32 := by
    have hinodes := hfiles.img.inodes.2
    have hlen : (N rootIno).size ≤ direntSize * ninodes := by
      rw [hroot.size, contents_root, length_entries (by omega)]
      exact Nat.mul_le_mul_left _ (by omega)
    rw [hsize]
    unfold bsize direntSize ninodes at *
    omega
  refine ends_bind_of_eq (hfiles.img.rinode_eq hlt (Set.notMem_empty _)) ?_
  rw [← hsize]
  -- the inode of the root is written back
  have himg := ((hfiles.img.mono (Set.empty_subset {rootIno})).setSize hlt (Set.mem_singleton _) hsize_lt).putNode hlt
  rw [update_self, Set.sdiff_self] at himg
  refine ends_bind_of_eq (hfiles.img.winode_eq hlt _) (ends_get_bind ?_)
  -- and then the bitmap
  obtain ⟨m₁, hm₁⟩ : ∃ m₁, m₁ = m.put (iblock rootIno) (writeDinode (m.disk (iblock rootIno)) (dinodeOff rootIno)
    { N rootIno with size := size }) := ⟨_, rfl⟩
  rw [← hm₁] at himg ⊢
  have hfree : m₁.freeblock = m.freeblock := by rw [hm₁]; rfl
  unfold balloc
  rw [if_pos (by rw [hfree]; unfold bsize fssize at *; omega)]
  have hsect : Superblock.bmapstart < m₁.nsect := by
    rw [himg.nsect]
    decide
  refine ends_of_eq (wsect_eq _ hsect) ?_
  refine ⟨_, o, himg.putBitmap _, ?_, ?_, ?_, ?_, ?_, ?_, fun i hi hif => (hdesc i hi hif).length, ?_⟩
  case refine_1 => exact hfree ▸ hlimit
  case refine_2 =>
    show m₁.freeinode = _
    rw [hm₁]
    exact hf
  case refine_3 =>
    intro i hi hif
    rw [← (hdesc i hi hif).type]
    by_cases hir : i = rootIno
    · rw [hir, update_self]
    · rw [update_of_ne hir]
  case refine_4 =>
    intro i hi hif
    rw [← (hdesc i hi hif).nlink]
    by_cases hir : i = rootIno
    · rw [hir, update_self]
    · rw [update_of_ne hir]
  case refine_5 => rw [update_self, hsize, hroot.size]
  case refine_6 =>
    intro i hi hif
    rw [update_of_ne (by unfold rootIno; omega)]
    exact (hdesc i (by omega) hif).size
  case refine_7 => exact m₁.put_self _ _

/-- `main` makes the image, and it does not fail if all files are good and there is enough room. -/
lemma main_spec (files : List Input) (hlen : files.length + 2 ≤ ninodes) :
    Ends (main files) blank (fun _ m => ∃ N o, Built files N o m)
      (fun _ => ¬ ((∀ f ∈ files, f.Good) ∧ nmeta + 8 + (files.map Input.cost).sum ≤ fssize)) := by
  have hroot : typeOf 1 = tDir := if_pos rfl
  refine ends_bind_of_eq (wsect_eq _ (by decide : 1 < blank.nsect)) ?_
  rw [← hroot]
  refine (ialloc_spec holds_blank (by decide) rfl).bind ?_
  rintro rootino m₁ ⟨rfl, hholds₁, hfree₁⟩
  have hfree : m₁.freeblock = nmeta := hfree₁
  rw [if_neg (fun hc => hc rfl)]
  refine ((addEntry_spec _ dot hholds₁ (Nat.lt_succ_self 1) (Nat.zero_le _)).errors
    fun e hc hroom => hc (by omega)).bind ?_
  rintro - m₂ ⟨hholds₂, hfree₂⟩
  refine ((addEntry_spec _ dotdot hholds₂ (Nat.lt_succ_self 1) ?_).errors
    fun e hc hroom => hc (by omega)).bind ?_
  · rw [update_self]
    decide
  rintro - m₃ ⟨hholds₃, hfree₃⟩
  have hholds : Holds (contents []) 2 m₃ := by
    rw [contents_nil]
    rwa [update_self, nil_append] at hholds₃
  refine ((addFiles_spec files hholds hlen).errors fun e hc hroom => hc ⟨hroom.1, by omega⟩).bind ?_
  rintro - m₄ ⟨hholds₄, -⟩
  exact finish_spec hholds₄

/-- An image that `mkfs` has written. -/
lemma mkfs_built {files : List Input} (hlen : files.length + 2 ≤ ninodes) (h : mkfs files = .ok m) :
    ∃ N o, Built files N o m := by
  unfold mkfs at h
  cases hm : main files blank with
  | error e =>
    rw [hm] at h
    cases h
  | ok r =>
    rw [hm] at h
    cases h
    exact (main_spec files hlen).ok hm

/-- `mkfs` does not abort if it can read all files and there is room for them. -/
lemma mkfs_ok {files : List Input} (hlen : files.length + 2 ≤ ninodes) (hgood : ∀ f ∈ files, f.Good)
    (hroom : nmeta + 8 + (files.map Input.cost).sum ≤ fssize) : ∃ m, mkfs files = .ok m := by
  cases hm : main files blank with
  | error e => exact absurd ⟨hgood, hroom⟩ ((main_spec files hlen).error hm)
  | ok r => exact ⟨r.2, by rw [mkfs, hm]; rfl⟩

end Xv6.Mkfs
