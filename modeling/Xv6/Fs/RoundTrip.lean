import Xv6.Fs.Bmap
import Xv6.Mkfs.Mkfs

/-!
# Inodes go to their blocks and come back

`iupdate` writes the copy of an inode that is in memory, and `ilock` reads it when the entry of the
table was given to another inode in between. Sixteen inodes share a block, so the others of the
block must come out as they went in.

The superblock is any that `mkfs` may compute: the log starts at block 2, and the inodes, the bitmap
and the data follow, whatever the three sizes are. Nothing says that the areas fit on the disk.
-/

namespace Xv6.Fs

open Function Lib
open Xv6.Inode (Dinode ninode)

/-! ## The areas of the disk -/

/-- A superblock as `mkfs` computes it. -/
class Made extends Superblock where
  inodestart_eq : inodestart = 2 + nlog
  bmapstart_eq : bmapstart = 2 + nlog + (ninodes / ipb + 1)

/-- The superblock of the repository's `mkfs`. -/
abbrev mkfsMade : Made where
  toSuperblock := Mkfs.geometry.toSuperblock
  inodestart_eq := rfl
  bmapstart_eq := rfl

section

variable [Superblock]

/-- The blocks of the log, from `logstart` on. -/
def logArea : Set Nat := Set.Ico 2 (2 + Superblock.nlog)

def inodeArea : Set Nat := Set.Ico Superblock.inodestart bmapstart

def bitmapArea : Set Nat := Set.Ico bmapstart dataStart

def dataArea : Set Nat := Set.Ico dataStart Superblock.size

end

section

variable [Made]

lemma iblock_mem {i : Nat} (hi : i < ninodes) : iblock i ∈ inodeArea := by
  have hend := Made.bmapstart_eq
  have hstart := Made.inodestart_eq
  have hdiv : i / ipb ≤ ninodes / ipb := Nat.div_le_div_right (by omega)
  refine ⟨Nat.le_add_left _ _, ?_⟩
  unfold iblock
  omega

lemma bblock_mem {b : Nat} (hb : b < Superblock.size) : bblock b ∈ bitmapArea := by
  have hdiv : b / bpb ≤ Superblock.size / bpb := Nat.div_le_div_right (by omega)
  refine ⟨Nat.le_add_left _ _, ?_⟩
  unfold bblock dataStart
  omega

lemma areas_disjoint : [logArea, inodeArea, bitmapArea, dataArea].Pairwise Disjoint := by
  have hstart := Made.inodestart_eq
  have hend : 2 + Superblock.nlog ≤ bmapstart := Made.bmapstart_eq ▸ Nat.le_add_right _ _
  have hdata : bmapstart ≤ dataStart := Nat.le_add_right _ _
  simp only [logArea, inodeArea, bitmapArea, dataArea, List.pairwise_cons, List.mem_cons,
    List.not_mem_nil, or_false, forall_eq_or_imp, forall_eq, Set.Ico_disjoint_Ico]
  simp
  omega

end

/-! ## The way of an inode -/

section

variable [Superblock] {X : Nat → Prop} {v : Nat → Block} {I : Nat → Inode} {s : Fs} {e i : Nat}

lemma iupdate_at (hs : At X v I s) (hi : (I e).inum = i) (hX : X (iblock i))
    (hroom : s.lh.length < logCap) (hout : 0 < s.outstanding) :
    Returns (iupdate e) s fun _ => At X
      (update v (iblock i) (writeDinode (v (iblock i)) (dinodeOff i) (I e).copy)) I := by
  refine (Ends.errors (E := Over (some 1) s) ?_ fun err herr => ?_).returns
  · refine getInode_bind hs.itable ?_
    rw [hi]
    refine (bread_at _ s ⟨hs, Logs.refl s⟩).bind fun data t ht => ?_
    rw [ht.2 hX]
    refine (logWrite_at _ _ (within_some.mpr ?_) t ht.1).mono fun _ u hu => ?_
    · rw [Finset.card_empty]
    · exact hu.toAt.weaken fun b hb => ⟨.inl hb, rfl⟩
  · rcases herr with ⟨-, hfull⟩ | ⟨-, hzero⟩
    · have := hfull 1 rfl
      omega
    · omega

omit [Superblock] in
/-- `iget` takes an entry that is free, and forgets whose it was. -/
lemma iget_at (hs : At X v I s) (habsent : ∀ k < ninode, 0 < (I k).ref → (I k).inum ≠ i)
    (hfree : ∃ k < ninode, (I k).ref = 0) :
    Returns (iget i) s fun e t => e < ninode ∧ (I e).ref = 0 ∧
      At X v (update I e { I e with inum := i, ref := 1, valid := false }) t := by
  refine Ends.returns (ends_get_bind ?_)
  rw [hs.itable]
  split
  next k hfind =>
    have hmem := List.mem_range.mp (List.mem_of_find?_eq_some hfind)
    have hfound := List.find?_some hfind
    obtain ⟨href, hinum⟩ := of_decide_eq_true hfound
    exact absurd hinum (habsent k hmem href)
  split
  next k hfind =>
    have hmem := List.mem_range.mp (List.mem_of_find?_eq_some hfind)
    have hfound := List.find?_some hfind
    refine (modifyInode_at k _ s ⟨hs, Logs.refl s⟩).bind fun _ t ht => ends_pure ?_
    exact ⟨hmem, of_decide_eq_true hfound, ht.toAt⟩
  next hnone =>
    obtain ⟨k, hk, href⟩ := hfree
    have := List.find?_eq_none.mp hnone k (List.mem_range.mpr hk)
    rw [decide_eq_true_eq] at this
    exact absurd href this

/-- `ilock` of an entry that is not valid reads the block of the inode. -/
lemma ilock_at (hs : At X v I s) (hi : (I e).inum = i) (hX : X (iblock i)) (href : 0 < (I e).ref)
    (hlock : (I e).lock = false) (hvalid : (I e).valid = false)
    (htype : (readDinode (v (iblock i)) (dinodeOff i)).type ≠ 0) :
    Returns (ilock e) s fun _ => At X v (update I e { I e with
      lock := true, valid := true, copy := readDinode (v (iblock i)) (dinodeOff i) }) := by
  refine Ends.returns (getInode_bind hs.itable ?_)
  rw [if_neg (by omega)]
  have hacq : Ends (acquiresleep e) s
      (fun _ => Held s ∅ X v (update I e { I e with lock := true })) fun _ => False := by
    refine getInode_bind hs.itable ?_
    rw [if_neg (by simp [hlock])]
    exact modifyInode_at e _ s ⟨hs, Logs.refl s⟩
  refine hacq.bind fun _ t ht => ?_
  rw [hvalid, if_neg (by decide), hi]
  refine (bread_at _ t ht).bind fun data u hu => ?_
  rw [hu.2 hX]
  refine (modifyInode_at e _ u hu.1).bind fun _ w hw => ?_
  rw [if_neg htype]
  rw [update_self, update_idem] at hw
  exact ends_pure hw.toAt

end

/-- No entry of the table is that of the inode, and there is one to be had. -/
structure GivenUp (I : Nat → Inode) (i : Nat) : Prop where
  absent : ∀ k < ninode, 0 < (I k).ref → (I k).inum ≠ i
  free : ∃ k < ninode, (I k).ref = 0
  unlocked : ∀ k < ninode, (I k).ref = 0 → (I k).lock = false

/-- What `iupdate` has written is what `iget` and `ilock` get, in every later state in which the
inode is still on the disk as it was left. -/
theorem inode_round_trip [Made] {X : Nat → Prop} {v : Nat → Block} {I : Nat → Inode} {s : Fs} {e i : Nat}
    (hlt : i < ninodes) (hs : At X v I s) (hX : X (iblock i)) (hi : (I e).inum = i)
    (htype : (I e).copy.type ≠ 0) (hfits : Fits (I e).copy) (hroom : s.lh.length < logCap)
    (hout : 0 < s.outstanding) :
    (∃ v', Returns (iupdate e) s (fun _ => At X v' I) ∧
      (∀ j, j ≠ i → readDinode (v' (iblock j)) (dinodeOff j) = readDinode (v (iblock j)) (dinodeOff j)) ∧
      (∀ b, b ∉ inodeArea → v' b = v b) ∧
      ∀ Y w J t, At Y w J t → Y (iblock i) → GivenUp J i →
        readDinode (w (iblock i)) (dinodeOff i) = readDinode (v' (iblock i)) (dinodeOff i) →
        Returns (do let k ← iget i; ilock k; pure k) t fun k u =>
          (u.itable k).inum = i ∧ (u.itable k).valid = true ∧ (u.itable k).copy = (I e).copy) ∧
    (∀ j < ninodes, iblock j ∈ inodeArea) ∧ (∀ b < Superblock.size, bblock b ∈ bitmapArea) ∧
    [logArea, inodeArea, bitmapArea, dataArea].Pairwise Disjoint := by
  refine ⟨⟨_, iupdate_at hs hi hX hroom hout, fun j hj => readDinode_update_other v _ hj,
    fun b hb => ?_, ?_⟩,
    fun j => iblock_mem, fun b => bblock_mem, areas_disjoint⟩
  · have hne : b ≠ iblock i := fun hb' => hb (hb' ▸ iblock_mem hlt)
    exact update_of_ne hne ..
  intro Y w J t ht hY hup hsame
  rw [update_self, readDinode_writeDinode _ hfits (dinodeOff_le i)] at hsame
  refine (iget_at ht hup.absent hup.free).bind fun k u ⟨hk, href, hu⟩ => ?_
  refine (ilock_at hu (by rw [update_self]) hY (by rw [update_self]; exact Nat.one_pos) ?_ (by rw [update_self])
    (hsame ▸ htype)).bind fun _ u' hu' => returns_pure ?_
  · rw [update_self]
    exact hup.unlocked k hk href
  · rw [hu'.itable, update_self, update_self]
    exact ⟨rfl, rfl, hsame⟩

/-- A transaction in which the root directory is in entry 0. -/
def rootLoaded : Fs := { boot (fun _ => Block.zero) (fun _ => []) with
  outstanding := 1
  itable := fun _ => ⟨rootIno, 1, true, true, { Dinode.fresh tDir with nlink := 1 }⟩ }

/-- On the disk of the repository, after the whole table was given up. -/
theorem inode_round_trip_root :
    letI := mkfsMade
    Returns (do
      iupdate 0
      modify fun s : Fs => { s with itable := fun _ => Inode.zero }
      let k ← iget rootIno
      ilock k
      pure k) rootLoaded fun k u => (u.itable k).copy = { Dinode.fresh tDir with nlink := 1 } := by
  let := mkfsMade
  have hat : At (fun _ => True) (fun _ => Block.zero) rootLoaded.itable rootLoaded :=
    ⟨fun _ _ => rfl, nofun, nofun, rfl⟩
  have hfits : Fits { Dinode.fresh tDir with nlink := 1 } :=
    { fits_fresh (by decide) with nlink := by decide }
  obtain ⟨⟨v', hupdate, -, -, hback⟩, -⟩ :=
    inode_round_trip (i := rootIno) (e := 0) (by decide) hat trivial rfl (by decide) hfits (by decide) (by decide)
  refine hupdate.bind fun _ s hs => ?_
  have hnext : At _ v' (fun _ => Inode.zero) { s with itable := fun _ => Inode.zero } :=
    ⟨hs.view, hs.clean, hs.pinned, rfl⟩
  refine returns_bind_of_eq rfl ((hback _ _ _ _ hnext trivial ?_ rfl).mono fun k u hu => hu.2.2)
  exact ⟨fun k _ hpos => absurd hpos (by decide), ⟨0, by decide, rfl⟩, fun k _ _ => rfl⟩

end Xv6.Fs
