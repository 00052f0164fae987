import Xv6.Mkfs.Mkfs

/-!
# What is in the image

`Img N C P o S m` says that the inodes are `N` and the contents of the files are `C`. Block `b` is in the
place `o b` of an inode, and the blocks that are in no place are those before `nmeta` and from `freeblock`
on. `P` says which places have a block. The inodes of `S` have been changed and are not written back.
-/

namespace Xv6.Mkfs

open Function Lib Fs
open Xv6.Inode (Dinode)

/-- The inode in the image. -/
def node (v : Disk) (i : Nat) : Dinode := readDinode (v (iblock i)) (dinodeOff i)

/-- The superblock. -/
def superblock : Block := Block.zero.putWords 0 8 superblockWord

structure Img (N : Nat → Dinode) (C : Nat → List UInt8) (P : Nat → Nat → Prop)
    (o : Nat → Option (Nat × Nat))
    (S : Set Nat) (m : Image) : Prop where
  nsect : m.nsect = fssize
  super : m.disk 1 = superblock
  inodes : 1 ≤ m.freeinode ∧ m.freeinode ≤ ninodes
  blocks : nmeta ≤ m.freeblock
  disk : ∀ i < ninodes, i ∉ S → node m.disk i = N i
  fits : ∀ i < ninodes, Fits (N i)
  alloc : ∀ i < ninodes, (N i).type ≠ 0 ↔ 1 ≤ i ∧ i < m.freeinode
  ledger : Ledger (slotRef m.disk N) o ∅ (fun b => nmeta ≤ b ∧ b < m.freeblock)
  zero : ∀ b, m.freeblock ≤ b → m.disk b = Block.zero
  slots : ∀ i < ninodes, (N i).type ≠ 0 → ∀ n ≤ maxFile, slotAddr m.disk (N i) n ≠ 0 ↔ P i n
  bytes : ∀ i n b, o b = some (i, n) → n < maxFile →
    ∀ j < bsize, (m.disk b).byte j = ((C i).getD (n * bsize + j) 0).toNat

lemma iblock_bounds {i : Nat} (hi : i < ninodes) : 2 ≤ iblock i ∧ iblock i < nmeta := by
  have hlt : iblock i < Superblock.bmapstart := iblock_lt hi
  have hge : 2 + nlog ≤ iblock i := Nat.le_add_left _ _
  exact ⟨by omega, Nat.lt_of_lt_of_le hlt (by decide)⟩

lemma node_write_self (v : Disk) {i : Nat} {d : Dinode} (hd : Fits d) :
    node (update v (iblock i) (writeDinode (v (iblock i)) (dinodeOff i) d)) i = d := by
  rw [node, update_self]
  exact readDinode_writeDinode _ hd (dinodeOff_le i)

lemma node_write_of_ne (v : Disk) {i j : Nat} (d : Dinode) (hji : j ≠ i) :
    node (update v (iblock i) (writeDinode (v (iblock i)) (dinodeOff i) d)) j = node v j := by
  by_cases hb : iblock j = iblock i
  · have hdiv : j / ipb = i / ipb := Nat.add_right_cancel hb
    rw [node, node, hb, update_self]
    exact readDinode_writeDinode_of_disjoint _ _ (dinodeOff_disjoint hdiv hji)
  · rw [node, node, update_of_ne hb]

/-- Another block is in a sector of the image. -/
def Image.put (m : Image) (b : Nat) (buf : Block) : Image := { m with disk := update m.disk b buf }

lemma Image.put_self (m : Image) (b : Nat) (buf : Block) : (m.put b buf).disk b = buf := update_self ..

namespace Img

variable {N : Nat → Dinode} {C : Nat → List UInt8} {P P' : Nat → Nat → Prop} {o : Nat → Option (Nat × Nat)}
variable {S S' : Set Nat} {m : Image} {d : Dinode} {i n b : Nat}
variable (h : Img N C P o S m)
include h

/-- The block in a place is one that has been allocated. -/
lemma range {x : Nat × Nat} (hb : o b = some x) : nmeta ≤ b ∧ b < m.freeblock :=
  (h.ledger.used_iff b).mpr (.inl (by rw [hb]; nofun))

lemma own_iff : o b = some (i, n) ↔
    i < ninodes ∧ (N i).type ≠ 0 ∧ n ≤ maxFile ∧ slotAddr m.disk (N i) n = b ∧ b ≠ 0 :=
  h.ledger.own_iff.trans slotRef_eq_some

lemma owner (hi : i < ninodes) (ht : (N i).type ≠ 0) (hn : n ≤ maxFile)
    (hne : slotAddr m.disk (N i) n ≠ 0) :
    o (slotAddr m.disk (N i) n) = some (i, n) :=
  h.own_iff.mpr ⟨hi, ht, hn, rfl, hne⟩

lemma freeblock_pos : 0 < m.freeblock := Nat.lt_of_lt_of_le (by decide) h.blocks

lemma congrPlaces (hP : ∀ i n, n ≤ maxFile → (P' i n ↔ P i n)) : Img N C P' o S m :=
  { h with slots := fun i hi ht n hn => (h.slots i hi ht n hn).trans (hP i n hn).symm }

lemma mono (hS : S ⊆ S') : Img N C P o S' m :=
  { h with disk := fun i hi hiS => h.disk i hi fun hc => hiS (hS hc) }

/-- The places of an inode do not depend on blocks other than its indirect block. -/
lemma slotAddr_eq {v : Disk} (hi : i < ninodes) (ht : (N i).type ≠ 0)
    (hv : ∀ c, o c = some (i, maxFile) → v c = m.disk c) :
    slotAddr v (N i) n = slotAddr m.disk (N i) n := by
  refine slotAddr_congr rfl (fun hne => hv _ ?_) n
  have hown := h.owner hi ht (Nat.le_refl maxFile) (by rwa [slotAddr_indirect])
  rwa [slotAddr_indirect] at hown

lemma slotRef_eq {v : Disk} (hv : ∀ c j, o c = some (j, maxFile) → v c = m.disk c) (x : Nat × Nat) :
    slotRef v N x = slotRef m.disk N x :=
  slotRef_congr rfl fun hi ht _ => h.slotAddr_eq hi ht fun c => hv c _

/-! ## The blocks of files -/

/-- A free block is put in a place. The disk may change in the indirect block of the inode. -/
lemma attach {v : Disk} (hi : i < ninodes) (ht : (N i).type ≠ 0) (hS : i ∈ S) (hn : n ≤ maxFile)
    (hP : ¬ P i n) (hd : Fits d) (htype : d.type = (N i).type)
    (hv : ∀ c, o c ≠ some (i, maxFile) → v c = m.disk c)
    (hself : ∀ k ≤ maxFile, slotAddr v d k = if k = n then m.freeblock else slotAddr m.disk (N i) k)
    (hC : n < maxFile → (C i).length ≤ n * bsize) :
    Img (update N i d) C (fun j k => P j k ∨ j = i ∧ k = n)
      (update o m.freeblock (some (i, n))) S
      { m with disk := v, freeblock := m.freeblock + 1 } := by
  have hpos : m.freeblock ≠ 0 := Nat.ne_of_gt h.freeblock_pos
  -- what is not allocated, or is not for data, does not change
  have hlow : ∀ c, c < nmeta ∨ m.freeblock ≤ c → v c = m.disk c := by
    intro c hc
    refine hv c fun ho => ?_
    have := h.range ho
    omega
  have hother : ∀ j ≠ i, j < ninodes → (N j).type ≠ 0 →
    ∀ k, slotAddr v (N j) k = slotAddr m.disk (N j) k := by
    intro j hji hj htj k
    refine h.slotAddr_eq hj htj fun c hc => hv c ?_
    rw [hc]
    intro he
    exact hji (Prod.mk.inj (Option.some.inj he)).1
  have htype' : ∀ j, (update N i d j).type = (N j).type := by
    intro j
    by_cases hji : j = i
    · rw [hji, update_self, htype]
    · rw [update_of_ne hji]
  constructor
  case nsect => exact h.nsect
  case super => exact (hlow 1 (.inl (by decide))).trans h.super
  case inodes => exact h.inodes
  case blocks => exact Nat.le_succ_of_le h.blocks
  case disk =>
    intro j hj hjS
    have hji : j ≠ i := fun hc => hjS (hc ▸ hS)
    have hblock : v (iblock j) = m.disk (iblock j) := hlow _ (.inl (iblock_bounds hj).2)
    rw [update_of_ne hji, ← h.disk j hj hjS]
    exact congrArg (readDinode · _) hblock
  case fits =>
    intro j hj
    by_cases hji : j = i
    · rw [hji, update_self]
      exact hd
    · rw [update_of_ne hji]
      exact h.fits j hj
  case alloc =>
    intro j hj
    rw [htype']
    exact h.alloc j hj
  case ledger =>
    have hnone : slotRef m.disk N (i, n) = none :=
      (slotRef_eq_none hi ht hn).mpr (not_not.mp fun hne => hP ((h.slots i hi ht n hn).mp hne))
    have htake : Ledger (slotRef m.disk N) o (insert m.freeblock ∅) (fun b => nmeta ≤ b ∧
      b < m.freeblock + 1) :=
      h.ledger.take (by omega) fun b => by
        have := h.blocks
        omega
    have href : ∀ x, slotRef v (update N i d) x =
        if x = (i, n) then some m.freeblock else slotRef m.disk N x :=
      slotRef_attach hpos hi ht hn (fun k hk => by rw [update_self, hself k hk]) (htype' i)
        fun j hji => ⟨update_of_ne hji .., fun k _ hj htj => hother j hji hj htj k⟩
    have hattach := htake.attach (Set.mem_insert _ _) hnone href
    rwa [Set.insert_sdiff_of_mem _ (Set.mem_singleton _), Set.empty_sdiff] at hattach
  case zero =>
    intro c hc
    have hc' : m.freeblock ≤ c := Nat.le_of_succ_le hc
    exact (hlow c (.inr hc')).trans (h.zero c hc')
  case slots =>
    intro j hj htj k hk
    rw [htype'] at htj
    by_cases hji : j = i
    · subst hji
      rw [update_self]
      show slotAddr v d k ≠ 0 ↔ _
      rw [hself k hk]
      split
      next hkn => exact ⟨fun _ => .inr ⟨rfl, hkn⟩, fun _ => hpos⟩
      next hkn =>
        rw [h.slots j hj htj k hk]
        exact ⟨.inl, fun hc => hc.resolve_right fun hc => hkn hc.2⟩
    · rw [update_of_ne hji]
      show slotAddr v (N j) k ≠ 0 ↔ _
      rw [hother j hji hj htj k, h.slots j hj htj k hk]
      exact ⟨.inl, fun hc => hc.resolve_right fun hc => hji hc.1⟩
  case bytes =>
    intro j k c hc hk l hl
    show (v c).byte l = _
    by_cases hcb : c = m.freeblock
    · rw [hcb, update_self] at hc
      cases hc
      have hlen := hC hk
      rw [hcb, hlow _ (.inr (Nat.le_refl _)), h.zero _ (Nat.le_refl _), List.getD_eq_default _ _ (by omega),
        Block.byte_zero]
      rfl
    · rw [update_of_ne hcb] at hc
      rw [hv c (by rw [hc]; intro he; cases he; exact Nat.lt_irrefl _ hk)]
      exact h.bytes j k c hc hk l hl

/-- Bytes are stored behind the last one of a file, in the block where that ends. -/
lemma write {q : List UInt8} (hb : o b = some (i, (C i).length / bsize))
    (hn : (C i).length / bsize < maxFile)
    (hq : (C i).length % bsize + q.length ≤ bsize) :
    Img N (update C i (C i ++ q)) P o S
      (m.put b ((m.disk b).splice ((C i).length % bsize) q)) := by
  have hrange := h.range hb
  have hlen : (C i).length / bsize * bsize + (C i).length % bsize = (C i).length := Nat.div_add_mod' ..
  have hdisk : ∀ c ≠ b, (m.put b ((m.disk b).splice ((C i).length % bsize) q)).disk c = m.disk c :=
    fun c hc => update_of_ne hc ..
  have hind : ∀ c j, o c = some (j, maxFile) →
      (m.put b ((m.disk b).splice ((C i).length % bsize) q)).disk c = m.disk c := by
    intro c j hc
    refine hdisk c fun hcb => ?_
    rw [hcb, hb] at hc
    exact Nat.ne_of_lt hn (Prod.mk.inj (Option.some.inj hc)).2
  constructor
  case nsect => exact h.nsect
  case super =>
    rw [hdisk 1]
    · exact h.super
    · have : 1 < nmeta := by decide
      omega
  case inodes => exact h.inodes
  case blocks => exact h.blocks
  case disk =>
    intro j hj hjS
    have hne : iblock j ≠ b := by
      have := iblock_bounds hj
      omega
    rw [← h.disk j hj hjS, node, node, hdisk _ hne]
  case fits => exact h.fits
  case alloc => exact h.alloc
  case ledger => exact h.ledger.congr (h.slotRef_eq hind) fun _ => Iff.rfl
  case zero =>
    intro c hc
    have hc' : m.freeblock ≤ c := hc
    rw [hdisk c (by omega)]
    exact h.zero c hc'
  case slots =>
    intro j hj htj k hk
    rw [h.slotAddr_eq hj htj fun c => hind c j]
    exact h.slots j hj htj k hk
  case bytes =>
    intro j k c hc hk l hl
    by_cases hcb : c = b
    · subst hcb
      rw [hb] at hc
      cases hc
      have hold := h.bytes i _ c hb hn l hl
      show (update m.disk c _ c).byte l = _
      rw [update_self, update_self]
      by_cases hin : (C i).length % bsize ≤ l ∧ l < (C i).length % bsize + q.length
      · rw [Block.byte_splice _ hl hin, List.getD_append_right _ _ _ _ (by omega)]
        congr 2
        omega
      · rw [Block.byte_splice_of_disjoint _ (by omega), hold]
        by_cases hl' : (C i).length / bsize * bsize + l < (C i).length
        · rw [List.getD_append _ _ _ _ hl']
        · rw [List.getD_eq_default _ _ (by omega),
            List.getD_eq_default _ _ (by rw [List.length_append]; omega)]
    · rw [hdisk c hcb, h.bytes j k c hc hk l hl]
      by_cases hji : j = i
      · subst hji
        have hkn : k ≠ (C j).length / bsize := by
          intro hkn
          rw [h.own_iff, hkn] at hc
          rw [h.own_iff] at hb
          exact hcb (hc.2.2.2.1.symm.trans hb.2.2.2.1)
        rw [update_self]
        by_cases hlt : k < (C j).length / bsize
        · have hle : (k + 1) * bsize ≤ (C j).length / bsize * bsize := Nat.mul_le_mul_right _ hlt
          rw [Nat.succ_mul] at hle
          rw [List.getD_append _ _ _ _ (by omega)]
        · have hle : ((C j).length / bsize + 1) * bsize ≤ k * bsize := Nat.mul_le_mul_right _ (by omega)
          rw [Nat.succ_mul] at hle
          rw [List.getD_eq_default _ _ (by omega),
            List.getD_eq_default _ _ (by rw [List.length_append]; omega)]
      · rw [update_of_ne hji]

/-! ## Inodes -/

/-- An inode that is not written back changes, but not the blocks it has. -/
lemma setNode {f : Nat} (hiS : i ∈ S) (hd : Fits d) (hf : 1 ≤ f ∧ f ≤ ninodes)
    (halloc : ∀ j < ninodes, (update N i d j).type ≠ 0 ↔ 1 ≤ j ∧ j < f)
    (href : ∀ k, slotRef m.disk (update N i d) (i, k) = slotRef m.disk N (i, k))
    (hslot : d.type ≠ 0 → ∀ k ≤ maxFile, slotAddr m.disk d k ≠ 0 ↔ P i k) :
    Img (update N i d) C P o S { m with freeinode := f } := by
  refine { h with inodes := hf, disk := ?_, fits := ?_, alloc := halloc, ledger := ?_, slots := ?_ }
  · intro j hj hjS
    have hji : j ≠ i := fun hc => hjS (hc ▸ hiS)
    rw [update_of_ne hji]
    exact h.disk j hj hjS
  · intro j hj
    by_cases hji : j = i
    · rw [hji, update_self]
      exact hd
    · rw [update_of_ne hji]
      exact h.fits j hj
  · refine h.ledger.congr (fun ⟨j, k⟩ => ?_) fun _ => Iff.rfl
    by_cases hji : j = i
    · rw [hji]
      exact href k
    · exact slotRef_congr (by rw [update_of_ne hji]) fun _ _ _ => by rw [update_of_ne hji]
  · intro j hj htj k hk
    by_cases hji : j = i
    · subst hji
      rw [update_self] at htj ⊢
      exact hslot htj k hk
    · rw [update_of_ne hji] at htj ⊢
      exact h.slots j hj htj k hk

/-- The size of a file changes. -/
lemma setSize {size : Nat} (hi : i < ninodes) (hiS : i ∈ S) (hsize : size < 2 ^ 32) :
    Img (update N i { N i with size := size }) C P o S m := by
  have htype : ∀ j, (update N i { N i with size := size } j).type = (N j).type := by
    intro j
    by_cases hji : j = i
    · rw [hji, update_self]
    · rw [update_of_ne hji]
  have hslot : ∀ k, slotAddr m.disk { N i with size := size } k = slotAddr m.disk (N i) k :=
    slotAddr_congr rfl fun _ => rfl
  refine h.setNode hiS { h.fits i hi with size := hsize } h.inodes (fun j hj => ?_)
    (fun k => ?_) fun ht k hk => ?_
  · rw [htype]
    exact h.alloc j hj
  · refine slotRef_congr (htype i) fun _ _ _ => ?_
    rw [update_self, hslot]
  · rw [hslot]
    exact h.slots i hi ht k hk

/-- An inode is allocated. -/
lemma allocNode {type : Nat} (hi : m.freeinode < ninodes) (hiS : m.freeinode ∈ S) (htype : type < 2 ^ 16)
    (hne : type ≠ 0) (hP : ∀ k, ¬ P m.freeinode k) :
    Img (update N m.freeinode { Dinode.fresh type with nlink := 1 }) C P o S
      { m with freeinode := m.freeinode + 1 } := by
  have hnone : ∀ k, slotAddr m.disk { Dinode.fresh type with nlink := 1 } k = 0 := by
    intro k
    have haddrs := fresh_addrs type
    unfold slotAddr
    simp only [haddrs, ite_true, ite_self]
  have hold : (N m.freeinode).type = 0 := by
    by_contra hc
    exact Nat.lt_irrefl _ ((h.alloc _ hi).mp hc).2
  refine h.setNode hiS { fits_fresh htype with nlink := (by decide : 1 < 2 ^ 16) } (by omega)
    (fun j hj => ?_) (fun k => ?_)
    fun _ k _ => ?_
  · have halloc := h.alloc j hj
    have hpos := h.inodes.1
    by_cases hji : j = m.freeinode
    · rw [hji, update_self]
      exact ⟨fun _ => ⟨hpos, Nat.lt_succ_self _⟩, fun _ => hne⟩
    · rw [update_of_ne hji, halloc]
      omega
  · rw [slotRef, slotRef, update_self, hnone, hold]
    simp
  · rw [hnone]
    exact ⟨fun hc => absurd rfl hc, fun hc => absurd hc (hP k)⟩

/-- A block of inodes or of the bitmap is written. -/
lemma putMeta {buf : Block} (hb : 1 < b ∧ b < nmeta)
    (hnode : ∀ j < ninodes, j ∉ S' → node (update m.disk b buf) j = N j) :
    Img N C P o S' (m.put b buf) := by
  have hnmeta := h.blocks
  have hdisk : ∀ c ≠ b, (m.put b buf).disk c = m.disk c := fun c hc => update_of_ne hc ..
  have hown : ∀ c x, o c = some x → (m.put b buf).disk c = m.disk c := by
    intro c x hc
    have := h.range hc
    exact hdisk c (by omega)
  refine { h with super := ?_, disk := hnode, ledger := ?_, zero := ?_, slots := ?_, bytes := ?_ }
  · rw [hdisk 1 (by omega)]
    exact h.super
  · exact h.ledger.congr (h.slotRef_eq fun c j => hown c _) fun _ => Iff.rfl
  · intro c hc
    have hc' : m.freeblock ≤ c := hc
    rw [hdisk c (by omega)]
    exact h.zero c hc'
  · intro j hj htj k hk
    rw [h.slotAddr_eq hj htj fun c => hown c _]
    exact h.slots j hj htj k hk
  · intro j k c hc hk
    rw [hown c _ hc]
    exact h.bytes j k c hc hk

/-- The bitmap is written. -/
lemma putBitmap (buf : Block) : Img N C P o S (m.put Superblock.bmapstart buf) := by
  refine h.putMeta (by decide) fun j hj hjS => ?_
  have hne : iblock j ≠ Superblock.bmapstart := Nat.ne_of_lt (iblock_lt hj)
  rw [← h.disk j hj hjS, node, node, update_of_ne hne]

/-- An inode is written back. -/
lemma putNode (hi : i < ninodes) :
    Img N C P o (S \ {i}) (m.put (iblock i) (writeDinode (m.disk (iblock i)) (dinodeOff i) (N i))) := by
  refine h.putMeta (iblock_bounds hi) fun j hj hjS => ?_
  by_cases hji : j = i
  · rw [hji]
    exact node_write_self _ (h.fits i hi)
  · rw [node_write_of_ne _ _ hji]
    exact h.disk j hj fun hc => hjS ⟨hc, hji⟩

end Img

end Xv6.Mkfs
