import Xv6.Fs.Blocks
import Xv6.Lib.Ledger

/-!
# The blocks of files

Every allocated inode has a place for each of its blocks: place `n` below
`MAXFILE` is that of the `n`-th block of the file, in `addrs` or in the indirect
block, and place `MAXFILE` is that of the indirect block itself. The places, the
bitmap and the owners of the blocks form a ledger.

`N` stands for the inodes, by number. They are not read from the disk here: in the
middle of a call the copy in memory is ahead of it.
-/

namespace Xv6.Fs

open Function Lib
open Xv6.Inode (Dinode ninode)

/-- What `mkfs` makes: the inodes, the bitmap and the data follow each other. -/
class Geometry extends Superblock where
  root_lt : rootIno < ninodes
  ninodes_le : ninodes ≤ 2 ^ 16
  inodestart_pos : 1 < inodestart
  inodes_le : inodestart + (ninodes / ipb + 1) ≤ bmapstart
  bitmap_le : bmapstart + (size / bpb + 1) ≤ size
  size_lt : size < 2 ^ 31

/-- The first block of the data area. -/
def dataStart [Superblock] : Nat := bmapstart + (Superblock.size / bpb + 1)

section

variable [Geometry]

lemma dataStart_le_size : dataStart ≤ Superblock.size := Geometry.bitmap_le

lemma dataStart_pos : 0 < dataStart := Nat.lt_of_lt_of_le (Nat.succ_pos _) (Nat.le_add_left _ _)

lemma iblock_lt {inum : Nat} (h : inum < ninodes) : iblock inum < bmapstart := by
  have hle := Geometry.inodes_le
  have hdiv : inum / ipb ≤ ninodes / ipb := Nat.div_le_div_right (by omega)
  unfold iblock
  omega

lemma bblock_ge (b : Nat) : bmapstart ≤ bblock b := Nat.le_add_left _ _

lemma bblock_lt {b : Nat} (h : b < Superblock.size) : bblock b < dataStart := by
  have hdiv : b / bpb ≤ Superblock.size / bpb := Nat.div_le_div_right (by omega)
  unfold bblock dataStart
  omega

end

/-! ## Places -/

/-- The block in place `n` of an inode, or 0. -/
def slotAddr (v : Nat → Block) (d : Dinode) (n : Nat) : Nat :=
  if n < ndirect then d.addrs.getD n 0
  else if n = maxFile then d.addrs.getD ndirect 0
  else if d.addrs.getD ndirect 0 = 0 then 0
  else (v (d.addrs.getD ndirect 0)).word (4 * (n - ndirect))

/-- An inode with another block number. -/
def withAddr (d : Dinode) (n a : Nat) : Dinode := { d with addrs := d.addrs.set n a }

lemma withAddr_addrs {d : Dinode} (hd : d.addrs.length = ndirect + 1) {n : Nat} (hn : n ≤ ndirect)
    (a k : Nat) : (withAddr d n a).addrs.getD k 0 = if k = n then a else d.addrs.getD k 0 := by
  unfold withAddr
  rw [List.getD_eq_getElem?_getD, List.getD_eq_getElem?_getD, List.getElem?_set]
  by_cases hk : k = n
  · subst hk
    rw [if_pos rfl, if_pos rfl, if_pos (by omega)]
    rfl
  · rw [if_neg (Ne.symm hk), if_neg hk]

variable {v v' : Nat → Block} {d : Dinode}

lemma slotAddr_direct {n : Nat} (hn : n < ndirect) : slotAddr v d n = d.addrs.getD n 0 := if_pos hn

lemma slotAddr_indirect : slotAddr v d maxFile = d.addrs.getD ndirect 0 := by
  rw [slotAddr, if_neg (by decide), if_pos rfl]

lemma slotAddr_entry {n : Nat} (hn : ndirect ≤ n) (hn' : n < maxFile) :
    slotAddr v d n = if d.addrs.getD ndirect 0 = 0 then 0
      else (v (d.addrs.getD ndirect 0)).word (4 * (n - ndirect)) := by
  rw [slotAddr, if_neg (by omega), if_neg (by omega)]

lemma slotAddr_congr {d' : Dinode} (haddrs : d'.addrs = d.addrs)
    (hv : d.addrs.getD ndirect 0 ≠ 0 → v' (d.addrs.getD ndirect 0) = v (d.addrs.getD ndirect 0)) (n : Nat) :
    slotAddr v' d' n = slotAddr v d n := by
  unfold slotAddr
  rw [haddrs]
  split
  · rfl
  split
  · rfl
  split
  · rfl
  next hne => rw [hv hne]

/-- A direct block is attached or detached. -/
lemma slotAddr_withAddr (hd : d.addrs.length = ndirect + 1) {k : Nat} (hk : k < ndirect) (a n : Nat) :
    slotAddr v (withAddr d k a) n = if n = k then a else slotAddr v d n := by
  have haddr := withAddr_addrs hd (Nat.le_of_lt hk) a
  have hind : (withAddr d k a).addrs.getD ndirect 0 = d.addrs.getD ndirect 0 := by
    rw [haddr, if_neg (by omega)]
  by_cases hnk : n = k
  · subst hnk
    rw [slotAddr_direct hk, haddr, if_pos rfl, if_pos rfl]
  · rw [if_neg hnk]
    unfold slotAddr
    rw [hind, haddr, if_neg hnk]

/-- An indirect block of zeroes is attached. -/
lemma slotAddr_withIndirect (hd : d.addrs.length = ndirect + 1) (hzero : d.addrs.getD ndirect 0 = 0)
    {a : Nat} (hv : v a = Block.zero) (n : Nat) :
    slotAddr v (withAddr d ndirect a) n = if n = maxFile then a else slotAddr v d n := by
  have haddr := withAddr_addrs hd (Nat.le_refl ndirect) a
  unfold slotAddr
  rw [haddr ndirect, if_pos rfl, hzero]
  by_cases hn : n < ndirect
  · rw [if_pos hn, if_pos hn, haddr, if_neg (by omega), if_neg (by unfold maxFile; omega)]
  · rw [if_neg hn, if_neg hn]
    by_cases hm : n = maxFile
    · rw [if_pos hm, if_pos hm]
    · rw [if_neg hm, if_neg hm, if_neg hm, if_pos rfl]
      split
      · rfl
      · rw [hv, Block.word_zero]

/-- An entry of the indirect block is set. -/
lemma slotAddr_setWord {j a : Nat} (hind : d.addrs.getD ndirect 0 ≠ 0) (hj : j < nindirect)
    (ha : a < 2 ^ 32)
    {n : Nat} (hn : n ≤ maxFile) :
    slotAddr (update v (d.addrs.getD ndirect 0)
        ((v (d.addrs.getD ndirect 0)).setWord (4 * j) a)) d n =
      if n = ndirect + j then a else slotAddr v d n := by
  unfold nindirect at hj
  unfold maxFile nindirect at hn
  by_cases hd : n < ndirect
  · rw [slotAddr_direct hd, slotAddr_direct hd, if_neg (by omega)]
  by_cases hm : n = maxFile
  · have hne : n ≠ ndirect + j := by
      unfold maxFile nindirect at hm
      omega
    rw [if_neg hne, hm, slotAddr_indirect, slotAddr_indirect]
  · have hlt : n < maxFile := by
      unfold maxFile nindirect at hm ⊢
      omega
    rw [slotAddr_entry (by omega) hlt, slotAddr_entry (by omega) hlt, if_neg hind, if_neg hind,
      update_self]
    by_cases hnj : n = ndirect + j
    · rw [if_pos hnj, hnj, Nat.add_sub_cancel_left, Block.word_setWord _ _ (by unfold bsize; omega),
        Nat.mod_eq_of_lt ha]
    · rw [if_neg hnj, Block.word_setWord_of_disjoint _ _ (by omega)]

/-! ## Ownership -/

section

variable [Superblock]

/-- The place `x.2` of inode `x.1`, if that is allocated. -/
def slotRef (v : Nat → Block) (N : Nat → Dinode) (x : Nat × Nat) : Option Nat :=
  if x.1 < ninodes ∧ (N x.1).type ≠ 0 ∧ x.2 ≤ maxFile ∧ slotAddr v (N x.1) x.2 ≠ 0 then
    some (slotAddr v (N x.1) x.2)
  else none

/-- A data block that the bitmap says is in use. -/
def InUse (v : Nat → Block) (b : Nat) : Prop :=
  dataStart ≤ b ∧ b < Superblock.size ∧ bitOf v b = true

instance (v : Nat → Block) (b : Nat) : Decidable (InUse v b) := inferInstanceAs (Decidable (_ ∧ _ ∧ _))

/-- The blocks in use are those in the places of inodes, and those of `L`. -/
structure Owned (v : Nat → Block) (N : Nat → Dinode) (o : Nat → Option (Nat × Nat)) (L : Set Nat) :
    Prop where
  ledger : Ledger (slotRef v N) o L (InUse v)
  marked : ∀ b < dataStart, bitOf v b = true

end

variable [Geometry]
variable {N N' : Nat → Dinode} {o : Nat → Option (Nat × Nat)} {L : Set Nat} {i n a : Nat}

lemma slotRef_eq_some : slotRef v N (i, n) = some a ↔
    i < ninodes ∧ (N i).type ≠ 0 ∧ n ≤ maxFile ∧ slotAddr v (N i) n = a ∧ a ≠ 0 := by
  unfold slotRef
  rw [Option.ite_none_right_eq_some, Option.some.injEq]
  constructor
  · rintro ⟨⟨hi, ht, hn, hne⟩, rfl⟩
    exact ⟨hi, ht, hn, rfl, hne⟩
  · rintro ⟨hi, ht, hn, rfl, hne⟩
    exact ⟨⟨hi, ht, hn, hne⟩, rfl⟩

lemma slotRef_congr (htype : (N' i).type = (N i).type)
    (hslot : i < ninodes → (N i).type ≠ 0 → n ≤ maxFile →
      slotAddr v' (N' i) n = slotAddr v (N i) n) : slotRef v' N' (i, n) = slotRef v N (i, n) := by
  ext a
  rw [slotRef_eq_some, slotRef_eq_some, htype]
  constructor
  · rintro ⟨hi, ht, hn, hs, hne⟩
    exact ⟨hi, ht, hn, hslot hi ht hn ▸ hs, hne⟩
  · rintro ⟨hi, ht, hn, hs, hne⟩
    exact ⟨hi, ht, hn, (hslot hi ht hn).trans hs, hne⟩

lemma slotRef_eq_none (hi : i < ninodes) (ht : (N i).type ≠ 0) (hn : n ≤ maxFile) :
    slotRef v N (i, n) = none ↔ slotAddr v (N i) n = 0 := by
  unfold slotRef
  simp [hi, ht, hn]

/-- A block in place `n` of inode `i`, and nothing else changes. -/
lemma slotRef_attach (ha : a ≠ 0) (hi : i < ninodes) (ht : (N i).type ≠ 0) (hn : n ≤ maxFile)
    (hself : ∀ m ≤ maxFile, slotAddr v' (N' i) m = if m = n then a else slotAddr v (N i) m)
    (htype : (N' i).type = (N i).type)
    (hother : ∀ j ≠ i, N' j = N j ∧ ∀ m ≤ maxFile, j < ninodes → (N j).type ≠ 0 →
      slotAddr v' (N j) m = slotAddr v (N j) m) (x : Nat × Nat) :
    slotRef v' N' x = if x = (i, n) then some a else slotRef v N x := by
  obtain ⟨j, m⟩ := x
  by_cases hji : j = i
  · subst hji
    by_cases hmn : m = n
    · subst hmn
      rw [if_pos rfl, slotRef_eq_some, htype]
      exact ⟨hi, ht, hn, by rw [hself m hn, if_pos rfl], ha⟩
    · rw [if_neg (by simp [hmn])]
      exact slotRef_congr htype fun _ _ hm => by rw [hself m hm, if_neg hmn]
  · rw [if_neg (by simp [hji])]
    refine slotRef_congr (by rw [(hother j hji).1]) fun hj htj hm => ?_
    rw [(hother j hji).1]
    exact (hother j hji).2 m hm hj htj

lemma inUse_congr (hbit : ∀ b < Superblock.size, bitOf v' b = bitOf v b) (b : Nat) :
    InUse v' b ↔ InUse v b := by
  unfold InUse
  by_cases hb : b < Superblock.size
  · rw [hbit b hb]
  · simp [hb]

section

variable (h : Owned v N o L)
include h

lemma Owned.own_iff : o a = some (i, n) ↔
    i < ninodes ∧ (N i).type ≠ 0 ∧ n ≤ maxFile ∧ slotAddr v (N i) n = a ∧ a ≠ 0 :=
  h.ledger.own_iff.trans slotRef_eq_some

/-- The block in a place is owned by it. -/
lemma Owned.owner (hi : i < ninodes) (ht : (N i).type ≠ 0) (hn : n ≤ maxFile)
    (hne : slotAddr v (N i) n ≠ 0) : o (slotAddr v (N i) n) = some (i, n) :=
  h.own_iff.mpr ⟨hi, ht, hn, rfl, hne⟩

lemma Owned.data {x : Nat × Nat} (hx : o a = some x) : dataStart ≤ a ∧ a < Superblock.size := by
  have hused := (h.ledger.used_iff a).mpr (.inl (by rw [hx]; simp))
  exact ⟨hused.1, hused.2.1⟩

lemma Owned.bit {x : Nat × Nat} (hx : o a = some x) : bitOf v a = true :=
  ((h.ledger.used_iff a).mpr (.inl (by rw [hx]; simp))).2.2

lemma Owned.data_at_hand (ha : a ∈ L) : dataStart ≤ a ∧ a < Superblock.size := by
  have hused := (h.ledger.used_iff a).mpr (.inr ha)
  exact ⟨hused.1, hused.2.1⟩

/-- Nothing but the indirect blocks and the bitmap matters. -/
lemma Owned.congr (hbit : ∀ b < Superblock.size, bitOf v' b = bitOf v b)
    (hind : ∀ b j, o b = some (j, maxFile) → v' b = v b) : Owned v' N o L where
  ledger := by
    refine h.ledger.congr (fun ⟨j, m⟩ => ?_) (inUse_congr hbit)
    refine slotRef_congr rfl fun hj ht hm => slotAddr_congr rfl (fun hne => ?_) m
    have hown := h.owner hj ht (Nat.le_refl maxFile) (by rwa [slotAddr_indirect])
    rw [slotAddr_indirect] at hown
    exact hind _ j hown
  marked b hb := by
    rw [hbit b (lt_of_lt_of_le hb dataStart_le_size)]
    exact h.marked b hb

/-- An inode changes, but not the blocks it has. -/
lemma Owned.setNode {d' : Dinode}
    (hslot : ∀ m ≤ maxFile, slotRef v (update N i d') (i, m) = slotRef v N (i, m)) :
    Owned v (update N i d') o L where
  ledger := by
    refine h.ledger.congr (fun ⟨j, m⟩ => ?_) fun b => Iff.rfl
    by_cases hji : j = i
    · subst hji
      by_cases hm : m ≤ maxFile
      · exact hslot m hm
      · rw [slotRef, slotRef, if_neg (by simp [hm]), if_neg (by simp [hm])]
    · exact slotRef_congr (by rw [update_of_ne hji]) fun _ _ _ => by rw [update_of_ne hji]
  marked := h.marked

/-- An inode changes outside `addrs` and stays allocated. -/
lemma Owned.setFields {d' : Dinode} (htype : d'.type = (N i).type) (haddrs : d'.addrs = (N i).addrs) :
    Owned v (update N i d') o L := by
  refine h.setNode fun m _ => slotRef_congr ?_ fun _ _ _ => ?_
  · rw [update_self, htype]
  · rw [update_self]
    exact slotAddr_congr haddrs (fun _ => rfl) m

/-- A block in place `n` of inode `i`. -/
lemma Owned.attach (ha : a ∈ L) (hi : i < ninodes) (ht : (N i).type ≠ 0) (hn : n ≤ maxFile)
    (hzero : slotAddr v (N i) n = 0) (hbit : ∀ b < Superblock.size, bitOf v' b = bitOf v b)
    (hself : ∀ m ≤ maxFile, slotAddr v' (N' i) m = if m = n then a else slotAddr v (N i) m)
    (htype : (N' i).type = (N i).type)
    (hother : ∀ j ≠ i, N' j = N j ∧ ∀ m ≤ maxFile, j < ninodes → (N j).type ≠ 0 →
      slotAddr v' (N j) m = slotAddr v (N j) m) :
    Owned v' N' (update o a (some (i, n))) (L \ {a}) where
  ledger := by
    have hne : a ≠ 0 := by
      have := (h.data_at_hand ha).1
      have := dataStart_pos
      omega
    exact (h.ledger.congr (fun x => (rfl : slotRef v N x = slotRef v N x)) (inUse_congr hbit)).attach ha
      ((slotRef_eq_none hi ht hn).mpr hzero) (slotRef_attach hne hi ht hn hself htype hother)
  marked b hb := by
    rw [hbit b (lt_of_lt_of_le hb dataStart_le_size)]
    exact h.marked b hb

end

end Xv6.Fs
