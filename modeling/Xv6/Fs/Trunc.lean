import Xv6.Fs.Table

/-!
# Truncating a file

`itrunc` gives back the direct blocks of a file, then those that the indirect block
names, then the indirect block itself. A block is free before the inode has
forgotten it, and the entries of the indirect block are never cleared. So the ledger
is not in order while `itrunc` runs. The blocks are followed as a list instead: the
places 0 to `MAXFILE` in their order are the order in which the blocks are freed
(`blocksOf`), and the places are emptied all at once in the end.
-/

namespace Xv6.Fs

open Finset Function Lib
open Xv6.Inode (Dinode)

/-! ## Lists of blocks -/

/-- The blocks that `a` has in the `n` places from `k` on. -/
def blocksFrom (a : Nat → Nat) (k n : Nat) : List Nat := ((List.range' k n).map a).filter (· ≠ 0)

/-- The blocks of a file, in the order in which `itrunc` frees them. -/
def blocksOf (v : Nat → Block) (d : Dinode) : List Nat := blocksFrom (slotAddr v d) 0 (maxFile + 1)

lemma blocksFrom_succ (a : Nat → Nat) (k n : Nat) :
    blocksFrom a k (n + 1) = if a k = 0 then blocksFrom a (k + 1) n else a k :: blocksFrom a (k + 1) n := by
  simp only [blocksFrom, List.range'_succ, List.map_cons, List.filter_cons, decide_not, Bool.not_eq_true',
    decide_eq_false_iff_not, ite_not]

lemma blocksFrom_add (a : Nat → Nat) (k m n : Nat) :
    blocksFrom a k (m + n) = blocksFrom a k m ++ blocksFrom a (k + m) n := by
  rw [blocksFrom, ← List.range'_append_1, List.map_append, List.filter_append]
  rfl

lemma blocksFrom_congr {a a' : Nat → Nat} {k n : Nat} (h : ∀ m, k ≤ m → a' m = a m) :
    blocksFrom a' k n = blocksFrom a k n := by
  rw [blocksFrom, List.map_congr_left fun m hm => h m (List.mem_range'_1.mp hm).1]
  rfl

lemma mem_blocksOf {v : Nat → Block} {d : Dinode} {b : Nat} :
    b ∈ blocksOf v d ↔ ∃ m ≤ maxFile, slotAddr v d m = b ∧ b ≠ 0 := by
  simp only [blocksOf, blocksFrom, List.mem_filter, List.mem_map, List.mem_range'_1, decide_eq_true_eq]
  constructor
  · rintro ⟨⟨m, ⟨-, hm⟩, rfl⟩, hb⟩
    exact ⟨m, by omega, rfl, hb⟩
  · rintro ⟨m, hm, rfl, hb⟩
    exact ⟨⟨m, ⟨Nat.zero_le m, by omega⟩, rfl⟩, hb⟩

section

variable [Superblock]

/-- The bitmap without the blocks of `l`. -/
def freeBlocks (v : Nat → Block) (l : List Nat) : Nat → Block := l.foldl unmarkBlock v

/-- `bfree` may be called for the blocks of `l` one after the other. -/
structure Freeable (v : Nat → Block) (l : List Nat) : Prop where
  nodup : l.Nodup
  lt : ∀ a ∈ l, a < Superblock.size
  bit : ∀ a ∈ l, bitOf v a = true

def bitmapBlocks : Finset Nat := Finset.Ico bmapstart dataStart

/-- The blocks that `itrunc` may add to the log: those of the bitmap, and the one of the inode. -/
def truncBlocks : Nat := Superblock.size / bpb + 2

/-- `Held`, where the blocks written to the log are some of `B`. -/
def Inside (s₀ : Fs) (B : Finset Nat) (X : Nat → Prop) (v : Nat → Block) (I : Nat → Inode)
    (s : Fs) : Prop :=
  ∃ T ⊆ B, Held s₀ T X v I s

end

variable {X : Nat → Prop} {v : Nat → Block} {N : Nat → Dinode} {o : Nat → Option (Nat × Nat)}
variable {I : Nat → Inode} {s s₀ : Fs} {i e : Nat} {K : Nat → Bool} {S : Set Nat} {T B : Finset Nat}
variable {c : Option Nat} {l l' : List Nat} {a : Nat → Nat}
variable [Geometry]

lemma bitOf_freeBlocks (v : Nat → Block) (l : List Nat) (b : Nat) :
    bitOf (freeBlocks v l) b = (bitOf v b && decide (b ∉ l)) := by
  induction l generalizing v with
  | nil => simp [freeBlocks]
  | cons a l ih =>
    show bitOf (freeBlocks (unmarkBlock v a) l) b = _
    rw [ih, bitOf_unmarkBlock]
    simp [Bool.and_assoc]

/-- Only blocks of the bitmap change. -/
lemma freeBlocks_other {b : Nat} (hl : ∀ a ∈ l, a < Superblock.size) (hb : b ∉ bitmapBlocks) :
    freeBlocks v l b = v b := by
  induction l generalizing v with
  | nil => rfl
  | cons a l ih =>
    obtain ⟨ha, hl⟩ := List.forall_mem_cons.mp hl
    have hne : b ≠ bblock a := by
      rintro rfl
      exact hb (mem_Ico.mpr ⟨bblock_ge a, bblock_lt ha⟩)
    show freeBlocks (unmarkBlock v a) l b = _
    rw [ih hl, unmarkBlock, update_of_ne hne]

lemma freeBlocks_data {b : Nat} (hl : ∀ a ∈ l, a < Superblock.size) (hb : dataStart ≤ b) :
    freeBlocks v l b = v b := by
  refine freeBlocks_other hl fun hmem => ?_
  have := (mem_Ico.mp hmem).2
  omega

lemma Freeable.left (h : Freeable v (l ++ l')) : Freeable v l where
  nodup := h.nodup.of_append_left
  lt a ha := h.lt a (List.mem_append_left _ ha)
  bit a ha := h.bit a (List.mem_append_left _ ha)

/-- What is still to be freed after `l`. -/
lemma Freeable.right (h : Freeable v (l ++ l')) : Freeable (freeBlocks v l) l' where
  nodup := h.nodup.of_append_right
  lt a ha := h.lt a (List.mem_append_right _ ha)
  bit a ha := by
    have hnot : a ∉ l := fun hl => List.disjoint_of_nodup_append h.nodup hl ha
    rw [bitOf_freeBlocks, h.bit a (List.mem_append_right _ ha)]
    simp [hnot]

/-! ## The loops -/

section

variable (hX : ∀ b < dataStart, X b) (hB : bitmapBlocks ⊆ B) (hc : Within (B.card + 1) c)
include hX hB hc

lemma bfree_inside {b : Nat} (hf : Freeable v (b :: l)) :
    Triple (Inside s₀ B X v I) (bfree b) (fun _ => Inside s₀ B X (unmarkBlock v b) I) (Over c s₀) := by
  rintro s ⟨T, hT, hs⟩
  have hlt := hf.lt b List.mem_cons_self
  have hcard := card_le_card hT
  refine (bfree_at (hX _ (bblock_lt hlt)) (hf.bit b List.mem_cons_self) (hc.mono (by omega)) s hs).mono
    fun _ t ht => ⟨_, insert_subset (hB ?_) hT, ht⟩
  exact mem_Ico.mpr ⟨bblock_ge b, bblock_lt hlt⟩

lemma truncEntries_inside {data : Block} {n j : Nat}
    (ha : ∀ m, j ≤ m → m < j + n → data.word (4 * m) = a (ndirect + m))
    (hf : Freeable v (blocksFrom a (ndirect + j) n)) :
    Triple (Inside s₀ B X v I) (truncEntries data j n)
      (fun _ => Inside s₀ B X (freeBlocks v (blocksFrom a (ndirect + j) n)) I) (Over c s₀) := by
  induction n generalizing j v with
  | zero => exact triple_pure fun s hs => hs
  | succ n ih =>
    have hnext : ∀ m, j + 1 ≤ m → m < j + 1 + n → data.word (4 * m) = a (ndirect + m) :=
      fun m hm hm' => ha m (by omega) (by omega)
    rw [truncEntries, ha j (Nat.le_refl j) (by omega)]
    rw [blocksFrom_succ] at hf ⊢
    split
    next hzero =>
      rw [if_pos hzero] at hf
      exact Triple.bind (triple_pure fun s hs => hs) fun _ => ih hnext hf
    next hne =>
      rw [if_neg hne] at hf
      exact (bfree_inside hX hB hc hf).bind fun _ =>
        ih hnext (Freeable.right (l := [a (ndirect + j)]) hf)

end

section

omit [Geometry]

/-- The list with zeroes in the `n` places from `k` on. -/
def zeroFrom (l : List Nat) (k : Nat) : Nat → List Nat
  | 0 => l
  | n + 1 => zeroFrom (l.set k 0) (k + 1) n

lemma getD_set_zero (l : List Nat) (k m : Nat) : (l.set k 0).getD m 0 = if m = k then 0 else l.getD m 0 := by
  rw [List.getD_eq_getElem?_getD, List.getElem?_set]
  by_cases hmk : k = m
  · subst hmk
    rw [if_pos rfl, if_pos rfl]
    split <;> rfl
  · rw [if_neg hmk, if_neg (Ne.symm hmk), List.getD_eq_getElem?_getD]

/-- The place is empty already. -/
lemma set_zero_of_getD {l : List Nat} {k : Nat} (h : l.getD k 0 = 0) : l.set k 0 = l := by
  by_cases hk : k < l.length
  · rw [List.getD_eq_getElem _ _ hk] at h
    rw [← h]
    exact List.set_getElem_self hk
  · exact List.set_eq_of_length_le (Nat.le_of_not_lt hk)

lemma getD_zeroFrom (l : List Nat) (k n m : Nat) :
    (zeroFrom l k n).getD m 0 = if k ≤ m ∧ m < k + n then 0 else l.getD m 0 := by
  induction n generalizing l k with
  | zero => rw [zeroFrom, if_neg (by omega)]
  | succ n ih =>
    rw [zeroFrom, ih, getD_set_zero]
    by_cases hmk : m = k
    · rw [if_neg (by omega), if_pos hmk, if_pos (by omega)]
    · rw [if_neg hmk]
      exact if_congr (by omega) rfl rfl

lemma length_zeroFrom (l : List Nat) (k n : Nat) : (zeroFrom l k n).length = l.length := by
  induction n generalizing l k with
  | zero => rfl
  | succ n ih => rw [zeroFrom, ih, List.length_set]

lemma inside_modifyCopy (g : Dinode → Dinode) {E : Stop → Prop} :
    Triple (Inside s₀ B X v I) (modifyCopy e g) (fun _ => Inside s₀ B X v (setCopy I e (g (I e).copy))) E := by
  rintro s ⟨T, hT, hs⟩
  exact (modifyCopy_at e g s hs).mono fun _ t ht => ⟨T, hT, ht⟩

end

/-- The loop over the direct blocks, in an inode that has `a` in the places that are left. -/
lemma truncDirect_inside (hX : ∀ b < dataStart, X b) (hB : bitmapBlocks ⊆ B) (hc : Within (B.card + 1) c)
    {n k : Nat} (ha : ∀ m, k ≤ m → m < k + n → (I e).copy.addrs.getD m 0 = a m)
    (hf : Freeable v (blocksFrom a k n)) :
    Triple (Inside s₀ B X v I) (truncDirect e k n)
      (fun _ => Inside s₀ B X (freeBlocks v (blocksFrom a k n))
        (setCopy I e { (I e).copy with addrs := zeroFrom (I e).copy.addrs k n })) (Over c s₀) := by
  induction n generalizing k v I with
  | zero => exact triple_pure fun s hs => (setCopy_eq_self (I := I) (e := e) rfl).symm ▸ hs
  | succ n ih =>
    have hk := ha k (Nat.le_refl k) (by omega)
    rintro s hs
    refine getInode_bind hs.choose_spec.2.itable ?_
    rw [hk]
    rw [blocksFrom_succ] at hf ⊢
    rw [zeroFrom]
    dsimp only
    split
    next hzero =>
      rw [if_pos hzero] at hf
      rw [set_zero_of_getD (hk.trans hzero)]
      exact Ends.bind (ends_pure hs) fun _ => ih (fun m hm hm' => ha m (by omega) (by omega)) hf
    next hne =>
      rw [if_neg hne] at hf
      refine Ends.bind ((bfree_inside hX hB hc hf s hs).bind fun _ => inside_modifyCopy _) fun _ t ht => ?_
      have hcopy : (setCopy I e { (I e).copy with addrs := (I e).copy.addrs.set k 0 } e).copy =
          { (I e).copy with addrs := (I e).copy.addrs.set k 0 } := by rw [setCopy_self]
      have hrest := ih (I := setCopy I e { (I e).copy with addrs := (I e).copy.addrs.set k 0 }) (k := k + 1)
        (fun m hm hm' => ?_) (Freeable.right (l := [a k]) hf) t ht
      · rw [hcopy, setCopy_setCopy] at hrest
        exact hrest
      · rw [hcopy, getD_set_zero, if_neg (by omega)]
        exact ha m (by omega) (by omega)

/-! ## The whole of `itrunc` -/

section

omit [Geometry]

/-- The inode of an empty file. -/
def emptied (d : Dinode) : Dinode := { d with size := 0, addrs := List.replicate (ndirect + 1) 0 }

lemma slotAddr_emptied (v : Nat → Block) (d : Dinode) (n : Nat) : slotAddr v (emptied d) n = 0 := by
  have hzero : ∀ k, (emptied d).addrs.getD k 0 = 0 := fresh_addrs d.type
  unfold slotAddr
  rw [hzero, hzero]
  simp

lemma fits_emptied {d : Dinode} (h : Fits d) : Fits (emptied d) :=
  { h with
    size := show 0 < 2 ^ 32 by decide
    length := rfl
    addr := fun n => lt_of_eq_of_lt (fresh_addrs d.type n) (by decide) }

lemma eq_zeroes {l : List Nat} (hl : l.length = ndirect + 1) (h : ∀ m, l.getD m 0 = 0) :
    l = List.replicate (ndirect + 1) 0 := by
  refine List.eq_replicate_iff.mpr ⟨hl, fun b hb => ?_⟩
  obtain ⟨m, hm, rfl⟩ := List.getElem_of_mem hb
  rw [← List.getD_eq_getElem l 0 hm]
  exact h m

/-- The places behind the direct ones. -/
lemma slotAddr_behind {v' : Nat → Block} {d d' : Dinode} {n : Nat} (hn : ndirect ≤ n)
    (hind : d'.addrs.getD ndirect 0 = d.addrs.getD ndirect 0)
    (hv : d.addrs.getD ndirect 0 ≠ 0 → v' (d.addrs.getD ndirect 0) = v (d.addrs.getD ndirect 0)) :
    slotAddr v' d' n = slotAddr v d n := by
  rw [slotAddr, slotAddr, if_neg (Nat.not_lt.mpr hn), if_neg (Nat.not_lt.mpr hn), hind]
  split
  · rfl
  split
  · rfl
  next hne => rw [hv hne]

/-- Without an indirect block there is nothing behind the direct blocks. -/
lemma blocksFrom_indirect {d : Dinode} (hzero : d.addrs.getD ndirect 0 = 0) :
    blocksFrom (slotAddr v d) ndirect (nindirect + 1) = [] := by
  refine List.filter_eq_nil_iff.mpr fun b hb => ?_
  obtain ⟨m, hm, rfl⟩ := List.mem_map.mp hb
  have hlo := (List.mem_range'_1.mp hm).1
  rw [slotAddr, if_neg (by omega), hzero]
  simp

end

/-- The indirect block and what it names. -/
lemma truncIndirect_inside (hX : ∀ b < dataStart, X b) (hB : bitmapBlocks ⊆ B) (hc : Within (B.card + 1) c)
    {a : Nat} (ha : (I e).copy.addrs.getD ndirect 0 = a) (hXa : a ≠ 0 → X a)
    (hf : Freeable v (blocksFrom (slotAddr v (I e).copy) ndirect (nindirect + 1))) :
    Triple (Inside s₀ B X v I)
      (if a = 0 then pure ()
        else do
          let data ← bread a
          truncEntries data 0 nindirect
          bfree a
          setAddr e ndirect 0)
      (fun _ => Inside s₀ B X (freeBlocks v (blocksFrom (slotAddr v (I e).copy) ndirect (nindirect + 1)))
        (setCopy I e (withAddr (I e).copy ndirect 0))) (Over c s₀) := by
  split
  next hzero =>
    rw [hzero] at ha
    rw [blocksFrom_indirect ha, withAddr, set_zero_of_getD ha, setCopy_eq_self (I := I) (e := e) rfl]
    exact triple_pure fun s hs => hs
  next hne =>
    have hentry : ∀ m, 0 ≤ m → m < 0 + nindirect →
      (v a).word (4 * m) = slotAddr v (I e).copy (ndirect + m) := by
      intro m _ hm
      rw [slotAddr_entry (by omega) (by unfold maxFile; omega), ha, if_neg hne, Nat.add_sub_cancel_left]
    have hlast : blocksFrom (slotAddr v (I e).copy) (ndirect + nindirect) 1 = [a] := by
      rw [blocksFrom_succ, show ndirect + nindirect = maxFile from rfl, slotAddr_indirect, ha, if_neg hne]
      rfl
    rw [blocksFrom_add, hlast] at hf ⊢
    rintro s ⟨T, hT, hs⟩
    refine (bread_at a s hs).bind fun data t ht => ?_
    rw [ht.2 (hXa hne)]
    refine (truncEntries_inside hX hB hc hentry hf.left t ⟨T, hT, ht.1⟩).bind fun _ u hu => ?_
    refine (bfree_inside hX hB hc hf.right u hu).bind fun _ w hw => ?_
    rw [freeBlocks, List.foldl_append]
    exact inside_modifyCopy _ w hw

/-- The blocks are freed and the copy of the inode is cleared. What is left is `iupdate`. -/
lemma itrunc_inside (hX : ∀ b < dataStart, X b) (hB : bitmapBlocks ⊆ B) (hc : Within (B.card + 1) c)
    {d : Dinode} (hd : (I e).copy = d) (hlen : d.addrs.length = ndirect + 1)
    (hf : Freeable v (blocksOf v d))
    (hind : d.addrs.getD ndirect 0 ≠ 0 → X (d.addrs.getD ndirect 0) ∧ dataStart ≤ d.addrs.getD ndirect 0)
    {Q : Unit → Fs → Prop} (hs : Inside s₀ B X v I s)
    (hrest : ∀ t, Inside s₀ B X (freeBlocks v (blocksOf v d)) (setCopy I e (emptied d)) t →
      Ends (iupdate e) t Q (Over c s₀)) :
    Ends (itrunc e) s Q (Over c s₀) := by
  have hsplit : blocksOf v d = blocksFrom (slotAddr v d) 0 ndirect ++
      blocksFrom (slotAddr v d) ndirect (nindirect + 1) := by
    rw [blocksOf, show maxFile + 1 = ndirect + (nindirect + 1) from rfl, blocksFrom_add, Nat.zero_add]
  rw [hsplit] at hf hrest
  rw [freeBlocks, List.foldl_append] at hrest
  refine (truncDirect_inside hX hB hc (fun m _ hm => ?_) hf.left s hs).bind fun _ t ht => ?_
  · rw [hd]
    exact (slotAddr_direct (by omega)).symm
  rw [hd] at ht
  generalize hd' : ({ d with addrs := zeroFrom d.addrs 0 ndirect } : Dinode) = d' at ht
  have haddr : ∀ m, d'.addrs.getD m 0 = if m < ndirect then 0 else d.addrs.getD m 0 := by
    intro m
    rw [← hd', getD_zeroFrom, Nat.zero_add]
    exact if_congr (by omega) rfl rfl
  have hslot : blocksFrom (slotAddr (freeBlocks v (blocksFrom (slotAddr v d) 0 ndirect)) d') ndirect
      (nindirect + 1) = blocksFrom (slotAddr v d) ndirect (nindirect + 1) := by
    refine blocksFrom_congr fun m hm => slotAddr_behind hm ?_ fun hne => freeBlocks_data hf.left.lt
      (hind hne).2
    rw [haddr, if_neg (Nat.lt_irrefl _)]
  have hcopy : (setCopy I e d' e).copy = d' := by rw [setCopy_self]
  refine getInode_bind ht.choose_spec.2.itable ?_
  refine (truncIndirect_inside hX hB hc rfl ?_ ?_ t ht).bind fun _ u hu => ?_
  · rw [hcopy, haddr, if_neg (Nat.lt_irrefl _)]
    exact fun hne => (hind hne).1
  · rw [hcopy, hslot]
    exact hf.right
  rw [hcopy, hslot, setCopy_setCopy] at hu
  refine (inside_modifyCopy (fun d => { d with size := 0 }) u hu).bind fun _ w hw => hrest w ?_
  rw [setCopy_self, setCopy_setCopy] at hw
  have hempty : ({ withAddr d' ndirect 0 with size := 0 } : Dinode) = emptied d := by
    have hzeroes : d'.addrs.set ndirect 0 = List.replicate (ndirect + 1) 0 := by
      refine eq_zeroes ?_ fun m => ?_
      · rw [List.length_set, ← hd', length_zeroFrom, hlen]
      · rw [getD_set_zero, haddr]
        split
        · rfl
        split
        · rfl
        · exact List.getD_eq_default _ _ (by omega)
    subst hd'
    rw [withAddr, emptied, hzeroes]
  rw [hempty] at hw
  exact hw

/-! ## The ledger -/

/-- The owners without the places of inode `i`. -/
def disowned (o : Nat → Option (Nat × Nat)) (i : Nat) : Nat → Option (Nat × Nat) :=
  Ledger.drop (fun x => x.1 == i) o

omit [Geometry] in
lemma disowned_eq_some {b j m : Nat} : disowned o i b = some (j, m) ↔ o b = some (j, m) ∧ j ≠ i := by
  simp [disowned, Ledger.drop, Option.filter_eq_some_iff]

section

variable {L : Set Nat} (h : Owned v N o L) (hi : i < ninodes) (ht : (N i).type ≠ 0)
include h hi ht

lemma Owned.mem_blocksOf {b : Nat} : b ∈ blocksOf v (N i) ↔ ∃ m, o b = some (i, m) := by
  simp only [Fs.mem_blocksOf, h.own_iff, hi, ht, ne_eq, not_false_eq_true, true_and]

lemma Owned.freeable : Freeable v (blocksOf v (N i)) where
  nodup := by
    rw [blocksOf, blocksFrom, List.filter_map]
    refine List.Nodup.map_on (fun m hm n hn hmn => ?_) (List.Nodup.filter _ List.nodup_range')
    simp only [List.mem_filter, List.mem_range'_1, comp_apply, decide_eq_true_eq] at hm hn
    have hown := h.owner hi ht (Nat.le_of_lt_succ (by omega)) hm.2
    rw [hmn, h.owner hi ht (Nat.le_of_lt_succ (by omega)) hn.2] at hown
    exact (Prod.mk.inj (Option.some.inj hown)).2.symm
  lt b hb := by
    obtain ⟨m, hm⟩ := (h.mem_blocksOf hi ht).mp hb
    exact (h.data hm).2
  bit b hb := by
    obtain ⟨m, hm⟩ := (h.mem_blocksOf hi ht).mp hb
    exact h.bit hm

lemma Owned.others_release :
    Others i v N o (Fs.storeNode (freeBlocks v (blocksOf v (N i))) i (emptied (N i)))
      (update N i (emptied (N i))) (disowned o i) where
  node _ hj := update_of_ne hj ..
  block b _ _ hb hj := by
    have hdata := (h.data hb).1
    rw [storeNode_of_ge hi (Nat.le_trans (Nat.le_add_right _ _) hdata)]
    exact ⟨disowned_eq_some.mpr ⟨hb, hj⟩, freeBlocks_data (h.freeable hi ht).lt hdata⟩

/-- All blocks of inode `i` are given back. -/
lemma Owned.release : Owned (freeBlocks v (blocksOf v (N i))) (update N i (emptied (N i)))
    (disowned o i) L where
  ledger := by
    refine h.ledger.release _ (fun ⟨j, m⟩ => ?_) fun b => ?_
    · by_cases hji : j = i
      · subst hji
        rw [if_pos (beq_self_eq_true j)]
        by_cases hm : m ≤ maxFile
        · refine (slotRef_eq_none hi (by rwa [update_self]) hm).mpr ?_
          rw [update_self, slotAddr_emptied]
        · rw [slotRef, if_neg (by simp [hm])]
      · rw [if_neg (by simpa using hji)]
        refine slotRef_congr (by rw [update_of_ne hji]) fun hj htj _ => ?_
        rw [update_of_ne hji]
        exact slotAddr_congr rfl (fun hne => freeBlocks_data (h.freeable hi ht).lt
          (h.data (h.indirect hj htj hne)).1) m
    · have hmem := h.mem_blocksOf hi ht (b := b)
      simp only [InUse, bitOf_freeBlocks, hmem, Bool.and_eq_true, decide_eq_true_eq, not_exists, and_assoc,
        beq_eq_false_iff_ne]
      have hfree : (∀ m, ¬ o b = some (i, m)) ↔ ∀ x, o b = some x → x.1 ≠ i :=
        ⟨fun hno x hx hxi => hno x.2 (hxi ▸ hx), fun hall m hm => hall (i, m) hm rfl⟩
      rw [hfree]
  marked b hb := by
    rw [bitOf_freeBlocks, h.marked b hb, Bool.true_and, decide_eq_true_eq, h.mem_blocksOf hi ht]
    rintro ⟨m, hm⟩
    have hle := (h.data hm).1
    omega

end

lemma itrunc_spec (he : Loaded I e) (hi : (I e).inum = i) (hS : i ∈ S)
    (hc : Within ((T ∪ bitmapBlocks).card + 1) c) :
    Triple (Busy s₀ T K v N o I S) (itrunc e)
      (fun _ s => ∃ T' ⊆ insert (iblock i) (T ∪ bitmapBlocks),
        Busy s₀ T' K (storeNode (freeBlocks v (blocksOf v (N i))) i (emptied (N i)))
          (update N i (emptied (N i))) (disowned o i) (setCopy I e (emptied (N i))) (S \ {i}) s)
      (Over c s₀) := by
  intro s hs
  obtain ⟨hlt, ht, hcopy, hfits⟩ := hs.node he hi
  have hfree := hs.owned.freeable hlt ht
  refine itrunc_inside (fun b hb => .inl hb) subset_union_right hc hcopy hfits.length hfree (fun hne => ?_)
    ⟨T, subset_union_left, hs.held⟩ fun t ⟨T', hT', ht'⟩ => ?_
  · have hown := hs.owned.indirect hlt ht hne
    exact ⟨.inr ⟨i, maxFile, hown, .inl rfl⟩, (hs.owned.data hown).1⟩
  have hbusy : Busy s₀ T' K (freeBlocks v (blocksOf v (N i))) (update N i (emptied (N i))) (disowned o i)
      (setCopy I e (emptied (N i))) S t := by
    refine ⟨⟨ht'.toAt.weaken fun b hb => ⟨hb.imp_right ?_, rfl⟩, hs.owned.release hlt ht, ?_⟩, ht'.toLogs⟩
    · rintro ⟨j, m, hown, hj⟩
      obtain ⟨hown, hji⟩ := disowned_eq_some.mp hown
      rw [update_of_ne hji] at hj
      exact ⟨j, m, hown, hj⟩
    · have hset := hs.nodes.setCopy he (hi ▸ hS) (fits_emptied hfits) (show (emptied (N i)).type ≠ 0 from ht)
      rw [hi] at hset
      exact hset.congr fun j hj => freeBlocks_other hfree.lt fun hmem =>
        absurd (iblock_lt hj) (Nat.not_lt.mpr (mem_Ico.mp hmem).1)
  have hspec := iupdate_spec (loaded_setCopy.mpr he) ((setCopy_ref I e _ e).2.1.trans hi)
    (hc.mono (Nat.succ_le_succ (card_le_card hT'))) t hbusy
  rw [update_self] at hspec
  exact hspec.mono fun _ u hu => ⟨_, insert_subset_insert _ hT', hu⟩

omit [Geometry] in
lemma dense_emptied (v : Nat → Block) (d : Dinode) : Dense v (emptied d) :=
  ⟨Nat.zero_le _, fun _ hq => absurd hq (Nat.not_lt_zero _)⟩

end Xv6.Fs
