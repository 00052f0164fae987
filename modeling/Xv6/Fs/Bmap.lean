import Xv6.Fs.Own

/-!
# Finding and allocating the blocks of a file

`Sys K v N o I S s` is what holds of the state between the steps of `bmap`,
`itrunc` and `writei`: the blocks of the files form a ledger, and the inodes on the
disk and in the table are `N`. The inodes of `S` have changed in memory and are not
yet written to the disk.

The data of files is not always in order: `writei` may leave a changed buffer that
is not in the log. `K` says of which types of inodes the data is in order.
-/

namespace Xv6.Fs

open Finset Function Lib
open Xv6.Inode (Dinode ninode)

/-! ## The invariant -/

/-- An entry of the table that is in use and has been read from the disk. -/
structure Loaded (I : Nat → Inode) (e : Nat) : Prop where
  lt : e < ninode
  ref : 0 < (I e).ref
  valid : (I e).valid = true

section

variable [Superblock]

/-- The blocks whose contents are in order: all metadata, and the data of inodes of
the types `K`. -/
def Fixed (K : Nat → Bool) (N : Nat → Dinode) (o : Nat → Option (Nat × Nat)) (b : Nat) : Prop :=
  b < dataStart ∨ ∃ i n, o b = some (i, n) ∧ (n = maxFile ∨ K (N i).type = true)

/-- The inodes on the disk and in the table are `N`, except for those of `S` on the
disk. -/
structure Nodes (v : Nat → Block) (N : Nat → Dinode) (I : Nat → Inode) (S : Set Nat) : Prop where
  disk : ∀ i < ninodes, i ∉ S → readDinode (v (iblock i)) (dinodeOff i) = N i
  fits : ∀ i < ninodes, Fits (N i)
  copy : ∀ e, Loaded I e → (I e).copy = N (I e).inum ∧ (N (I e).inum).type ≠ 0
  inum : ∀ e, Loaded I e → (I e).inum < ninodes
  uniq : ∀ e < ninode, ∀ e' < ninode, 0 < (I e).ref → 0 < (I e').ref → (I e).inum = (I e').inum → e = e'

/-- The state in the middle of a call. -/
structure Sys (K : Nat → Bool) (v : Nat → Block) (N : Nat → Dinode) (o : Nat → Option (Nat × Nat))
    (I : Nat → Inode) (S : Set Nat) (s : Fs) : Prop where
  at_ : At (Fixed K N o) v I s
  owned : Owned v N o ∅
  nodes : Nodes v N I S

/-- `Sys`, and what was written to the log since `s₀`. -/
structure Busy (s₀ : Fs) (T : Finset Nat) (K : Nat → Bool) (v : Nat → Block) (N : Nat → Dinode)
    (o : Nat → Option (Nat × Nat)) (I : Nat → Inode) (S : Set Nat) (s : Fs) : Prop
    extends Sys K v N o I S s, Logs s₀ T s

/-- What happens to inode `i` leaves the others alone. -/
structure Others (i : Nat) (v : Nat → Block) (N : Nat → Dinode) (o : Nat → Option (Nat × Nat))
    (v' : Nat → Block) (N' : Nat → Dinode) (o' : Nat → Option (Nat × Nat)) : Prop where
  node : ∀ j ≠ i, N' j = N j
  block : ∀ b j m, o b = some (j, m) → j ≠ i → o' b = some (j, m) ∧ v' b = v b

end

variable [Geometry]
variable {K : Nat → Bool} {v v' v'' : Nat → Block} {N N' N'' : Nat → Dinode}
variable {o o' o'' : Nat → Option (Nat × Nat)} {I : Nat → Inode} {S : Set Nat} {s s₀ : Fs} {i e : Nat}
variable {T : Finset Nat} {c : Option Nat}

section

omit [Geometry]

lemma Others.refl : Others i v N o v N o := ⟨fun _ _ => rfl, fun _ _ _ h _ => ⟨h, rfl⟩⟩

lemma Others.trans (h : Others i v N o v' N' o') (h' : Others i v' N' o' v'' N'' o'') :
    Others i v N o v'' N'' o'' where
  node j hj := (h'.node j hj).trans (h.node j hj)
  block b j m hb hj := by
    obtain ⟨ho, hv⟩ := h.block b j m hb hj
    obtain ⟨ho', hv'⟩ := h'.block b j m ho hj
    exact ⟨ho', hv'.trans hv⟩

end

lemma Busy.held (h : Busy s₀ T K v N o I S s) : Held s₀ T (Fixed K N o) v I s := ⟨h.at_, h.toLogs⟩

/-- Only the buffers have moved. -/
lemma Busy.of_held {s' : Fs} (h : Busy s₀ T K v N o I S s) (h' : Held s₀ T (Fixed K N o) v I s') :
    Busy s₀ T K v N o I S s' := ⟨⟨h'.toAt, h.owned, h.nodes⟩, h'.toLogs⟩

/-! ## Changes of an inode in memory -/

section

omit [Geometry]

/-- An entry of the table with another copy. -/
def setCopy (I : Nat → Inode) (e : Nat) (d : Dinode) : Nat → Inode :=
  update I e { I e with copy := d }

lemma setCopy_self (I : Nat → Inode) (e : Nat) (d : Dinode) :
    setCopy I e d e = { I e with copy := d } := update_self ..

lemma setCopy_other {e' : Nat} (h : e' ≠ e) (d : Dinode) : setCopy I e d e' = I e' :=
  update_of_ne h ..

lemma setCopy_setCopy (I : Nat → Inode) (e : Nat) (d d' : Dinode) :
    setCopy (setCopy I e d) e d' = setCopy I e d' := by
  unfold setCopy
  rw [update_self, update_idem]

lemma setCopy_eq_self (h : (I e).copy = d) : setCopy I e d = I := by
  unfold setCopy
  rw [← h]
  exact update_eq_self e I

lemma setCopy_ref (I : Nat → Inode) (e : Nat) (d : Dinode) (e' : Nat) :
    (setCopy I e d e').ref = (I e').ref ∧ (setCopy I e d e').inum = (I e').inum ∧
      (setCopy I e d e').valid = (I e').valid := by
  by_cases h : e' = e
  · subst h
    rw [setCopy_self]
    exact ⟨rfl, rfl, rfl⟩
  · rw [setCopy_other h]
    exact ⟨rfl, rfl, rfl⟩

lemma loaded_setCopy {e' : Nat} {d : Dinode} : Loaded (setCopy I e d) e' ↔ Loaded I e' := by
  obtain ⟨href, -, hvalid⟩ := setCopy_ref I e d e'
  constructor
  · exact fun h => ⟨h.lt, href ▸ h.ref, hvalid ▸ h.valid⟩
  · exact fun h => ⟨h.lt, href.symm ▸ h.ref, hvalid.symm ▸ h.valid⟩

lemma modifyInode_at {X : Nat → Prop} (e : Nat) (g : Inode → Inode) {E : Stop → Prop} :
    Triple (Held s₀ T X v I) (modifyInode e g) (fun _ => Held s₀ T X v (update I e (g (I e)))) E :=
  triple_modify fun s hs => {
    hs.toLogs.same rfl rfl rfl with
    view := hs.view
    clean := hs.clean
    pinned := hs.pinned
    itable := by
      show update s.itable e (g (s.itable e)) = _
      rw [hs.itable] }

lemma modifyCopy_at {X : Nat → Prop} (e : Nat) (g : Dinode → Dinode) {E : Stop → Prop} :
    Triple (Held s₀ T X v I) (modifyCopy e g) (fun _ => Held s₀ T X v (setCopy I e (g (I e).copy))) E :=
  modifyInode_at e _

lemma getInode_bind {α : Type} {k : Inode → FsM α} {Q : α → Fs → Prop} {E : Stop → Prop}
    (hI : s.itable = I) (h : Ends (k (I e)) s Q E) : Ends (getInode e >>= k) s Q E := by
  subst hI
  exact h

end

lemma Nodes.mono {S' : Set Nat} (h : Nodes v N I S) (hS : S ⊆ S') : Nodes v N I S' :=
  { h with disk := fun i hi hn => h.disk i hi fun hs => hn (hS hs) }

lemma Busy.mono {S' : Set Nat} (h : Busy s₀ T K v N o I S s) (hS : S ⊆ S') : Busy s₀ T K v N o I S' s :=
  ⟨⟨h.at_, h.owned, h.nodes.mono hS⟩, h.toLogs⟩

lemma Nodes.setCopy {d : Dinode} (h : Nodes v N I S) (he : Loaded I e) (hS : (I e).inum ∈ S)
    (hd : Fits d) (ht : d.type ≠ 0) :
    Nodes v (update N (I e).inum d) (setCopy I e d) S where
  disk i hi hn := by
    have hne : i ≠ (I e).inum := by
      rintro rfl
      exact hn hS
    rw [update_of_ne hne]
    exact h.disk i hi hn
  fits i hi := by
    by_cases hie : i = (I e).inum
    · rw [hie, update_self]
      exact hd
    · rw [update_of_ne hie]
      exact h.fits i hi
  copy e' he' := by
    have hl := loaded_setCopy.mp he'
    rw [(setCopy_ref I e d e').2.1]
    by_cases hee : e' = e
    · subst hee
      rw [setCopy_self, update_self]
      exact ⟨rfl, ht⟩
    · have hne : (I e').inum ≠ (I e).inum := fun hc => hee (h.uniq e' hl.lt e he.lt hl.ref he.ref hc)
      rw [setCopy_other hee, update_of_ne hne]
      exact h.copy e' hl
  inum e' he' := by
    rw [(setCopy_ref I e d e').2.1]
    exact h.inum e' (loaded_setCopy.mp he')
  uniq e₁ h₁ e₂ h₂ := by
    rw [(setCopy_ref I e d e₁).1, (setCopy_ref I e d e₁).2.1, (setCopy_ref I e d e₂).1,
      (setCopy_ref I e d e₂).2.1]
    exact h.uniq e₁ h₁ e₂ h₂

lemma Nodes.congr (h : Nodes v N I S)
    (hv : ∀ i < ninodes, v' (iblock i) = v (iblock i)) : Nodes v' N I S :=
  { h with
    disk := fun i hi hn => by
      rw [hv i hi]
      exact h.disk i hi hn }

/-! ## Allocation -/

variable {L : Set Nat} {r : Nat}

section

omit [Geometry]

/-- What `bmap` may do to inode `i`: more blocks, and all that was there stays. -/
structure Grown (i : Nat) (v : Nat → Block) (N : Nat → Dinode) (o : Nat → Option (Nat × Nat))
    (v' : Nat → Block) (N' : Nat → Dinode) (o' : Nat → Option (Nat × Nat)) : Prop where
  node : ∀ j ≠ i, N' j = N j
  fields : N' i = { N i with addrs := (N' i).addrs }
  block : ∀ b j m, o b = some (j, m) → o' b = some (j, m) ∧ (j ≠ i ∨ m ≠ maxFile → v' b = v b)
  fresh : ∀ b j m, o b = none → o' b = some (j, m) → j = i ∧ (m ≠ maxFile → v' b = Block.zero)

lemma Grown.refl : Grown i v N o v N o where
  node _ _ := rfl
  fields := rfl
  block _ _ _ h := ⟨h, fun _ => rfl⟩
  fresh b j m h h' := by
    rw [h] at h'
    cases h'

/-- How many blocks the indirect block may still add to those of `T`: its own number
and that of its part of the bitmap. -/
def pending (d : Dinode) (T : Finset Nat) : Nat :=
  if d.addrs.getD ndirect 0 = 0 then 2 else if d.addrs.getD ndirect 0 ∈ T then 0 else 1

lemma pending_mono {d : Dinode} {T' : Finset Nat} (h : T ⊆ T') : pending d T' ≤ pending d T := by
  unfold pending
  split
  · exact Nat.le_refl 2
  · split
    · exact Nat.zero_le _
    next hT' => rw [if_neg fun hc => hT' (h hc)]

lemma pending_of_mem {d : Dinode} (hne : d.addrs.getD ndirect 0 ≠ 0) (h : d.addrs.getD ndirect 0 ∈ T) :
    pending d T = 0 := by
  rw [pending, if_neg hne, if_pos h]

lemma card_insert_two (T : Finset Nat) (a b : Nat) : (insert a (insert b T)).card ≤ T.card + 2 := by
  have h1 := card_insert_le a (insert b T)
  have h2 := card_insert_le b T
  omega

end

/-- What `balloc` does to the blocks when it returns `r`. -/
def allocBlock (v : Nat → Block) (r : Nat) : Nat → Block := update (markBlock v r) r Block.zero

lemma allocBlock_self (v : Nat → Block) (r : Nat) : allocBlock v r r = Block.zero := update_self ..

lemma allocBlock_of_data {b : Nat} (hr : r < Superblock.size) (hb : dataStart ≤ b) (hne : b ≠ r) :
    allocBlock v r b = v b := by
  have hlt := bblock_lt hr
  rw [allocBlock, update_of_ne hne, markBlock, update_of_ne (by omega)]

lemma allocBlock_of_inodes {b : Nat} (hr : dataStart ≤ r) (hb : b < bmapstart) :
    allocBlock v r b = v b := by
  have hge := bblock_ge r
  have hle : bmapstart ≤ dataStart := Nat.le_add_right _ _
  rw [allocBlock, update_of_ne (by omega), markBlock, update_of_ne (by omega)]

lemma bitOf_allocBlock (hr : dataStart ≤ r) {b : Nat} (hb : b < Superblock.size) :
    bitOf (allocBlock v r) b = bitOf (markBlock v r) b := by
  have hlt := bblock_lt hb
  unfold bitOf allocBlock
  rw [update_of_ne (by omega)]

/-- A free block is a data block that nothing owns. -/
lemma Owned.free_block (h : Owned v N o L) (hbit : bitOf v r = false) :
    dataStart ≤ r ∧ o r = none := by
  constructor
  · by_contra hlt
    rw [h.marked r (by omega)] at hbit
    cases hbit
  · by_contra hne
    obtain ⟨x, hx⟩ := Option.ne_none_iff_exists'.mp hne
    rw [h.bit hx] at hbit
    cases hbit

/-- `balloc`, seen from the ledger. -/
lemma Owned.alloc (h : Owned v N o L) (hr : r < Superblock.size) (hbit : bitOf v r = false) :
    Owned (allocBlock v r) N o (insert r L) := by
  obtain ⟨hdata, hnone⟩ := h.free_block hbit
  have hind : ∀ b j, o b = some (j, maxFile) → allocBlock v r b = v b := by
    intro b j hb
    refine allocBlock_of_data hr (h.data hb).1 ?_
    rintro rfl
    rw [hnone] at hb
    cases hb
  have hslots : ∀ x, slotRef (allocBlock v r) N x = slotRef v N x := by
    rintro ⟨j, m⟩
    refine slotRef_congr rfl fun hj ht hm => slotAddr_congr rfl (fun hne => ?_) m
    have hown := h.owner hj ht (Nat.le_refl maxFile) (by rwa [slotAddr_indirect])
    rw [slotAddr_indirect] at hown
    exact hind _ j hown
  refine ⟨(h.ledger.congr hslots fun _ => Iff.rfl).take (a := r) ?_ fun b => ?_, fun b hb => ?_⟩
  · rintro ⟨-, -, hset⟩
    rw [hbit] at hset
    cases hset
  · unfold InUse
    by_cases hb : b < Superblock.size
    · rw [bitOf_allocBlock hdata hb, bitOf_markBlock, Bool.or_eq_true, decide_eq_true_eq]
      constructor
      · rintro ⟨h1, h2, h3 | h3⟩
        · exact .inl ⟨h1, h2, h3⟩
        · exact .inr h3
      · rintro (⟨h1, h2, h3⟩ | rfl)
        · exact ⟨h1, h2, .inl h3⟩
        · exact ⟨hdata, hb, .inr rfl⟩
    · constructor
      · exact fun hc => absurd hc.2.1 hb
      · rintro (hc | rfl)
        · exact absurd hc.2.1 hb
        · exact absurd hr hb
  · rw [bitOf_allocBlock hdata (lt_of_lt_of_le hb dataStart_le_size), bitOf_markBlock, h.marked b hb]
    rfl

/-- The other inodes do not see the new block. -/
lemma Owned.alloc_slot (h : Owned v N o L) (hr : r < Superblock.size) (hbit : bitOf v r = false)
    {j m : Nat} (hj : j < ninodes) (ht : (N j).type ≠ 0) :
    slotAddr (allocBlock v r) (N j) m = slotAddr v (N j) m := by
  obtain ⟨-, hnone⟩ := h.free_block hbit
  refine slotAddr_congr rfl (fun hne => ?_) m
  have hown := h.owner hj ht (Nat.le_refl maxFile) (by rwa [slotAddr_indirect])
  rw [slotAddr_indirect] at hown
  refine allocBlock_of_data hr (h.data hown).1 ?_
  rintro rfl
  rw [hnone] at hown
  cases hown

/-- The new block goes to a place in `addrs`. -/
lemma Owned.attachAddr (h : Owned v N o ∅) (hr : r < Superblock.size) (hbit : bitOf v r = false)
    (hi : i < ninodes) (ht : (N i).type ≠ 0) {k n : Nat} (hn : n ≤ maxFile)
    (hzero : slotAddr v (N i) n = 0)
    (hself : ∀ m ≤ maxFile, slotAddr (allocBlock v r) (withAddr (N i) k r) m =
      if m = n then r else slotAddr v (N i) m) :
    Owned (allocBlock v r) (update N i (withAddr (N i) k r))
      (update o r (some (i, n))) ∅ := by
  have halloc := h.alloc hr hbit
  have hset : (insert r ∅ : Set Nat) \ {r} = ∅ := by simp
  rw [← hset]
  have hslot := fun m => h.alloc_slot hr hbit hi ht (m := m)
  refine halloc.attach (Set.mem_insert r ∅) hi ht hn ((hslot n).trans hzero) (fun _ _ => rfl) ?_ ?_ ?_
  · intro m hm
    rw [update_self, hself m hm, hslot m]
  · rw [update_self]
    rfl
  · intro j hj
    exact ⟨update_of_ne hj .., fun _ _ _ _ => rfl⟩

/-- The new block goes to an entry of the indirect block. -/
lemma Owned.attachEntry (h : Owned v N o ∅) (hr : r < Superblock.size) (hbit : bitOf v r = false)
    (hi : i < ninodes) (ht : (N i).type ≠ 0) {j : Nat} (hj : j < nindirect)
    (hind : (N i).addrs.getD ndirect 0 ≠ 0) (hzero : slotAddr v (N i) (ndirect + j) = 0) :
    Owned (update (allocBlock v r) ((N i).addrs.getD ndirect 0)
        ((v ((N i).addrs.getD ndirect 0)).setWord (4 * j) r)) N
      (update o r (some (i, ndirect + j))) ∅ := by
  have hsize := Geometry.size_lt
  have halloc := h.alloc hr hbit
  have hslot := fun m => h.alloc_slot hr hbit hi ht (m := m)
  obtain ⟨hdata, hnone⟩ := h.free_block hbit
  have hown : o ((N i).addrs.getD ndirect 0) = some (i, maxFile) := by
    rw [← slotAddr_indirect (v := v)]
    exact h.owner hi ht (Nat.le_refl maxFile) (by rwa [slotAddr_indirect])
  have hindData := (h.data hown).1
  have hne : (N i).addrs.getD ndirect 0 ≠ r := by
    intro hc
    rw [hc, hnone] at hown
    cases hown
  have hsame : v ((N i).addrs.getD ndirect 0) = allocBlock v r ((N i).addrs.getD ndirect 0) :=
    (allocBlock_of_data hr hindData hne).symm
  have hset : (insert r ∅ : Set Nat) \ {r} = ∅ := by simp
  rw [← hset, hsame]
  have hle : ndirect + j ≤ maxFile := by
    unfold maxFile
    omega
  refine halloc.attach (Set.mem_insert r ∅) hi ht hle ((hslot _).trans hzero) (fun b hb => ?_) ?_ rfl ?_
  · -- the indirect block is not in the bitmap
    have hlt := bblock_lt hb
    unfold bitOf
    rw [update_of_ne (by omega)]
  · intro m hm
    rw [slotAddr_setWord hind hj (by omega) hm]
  · intro k hk
    refine ⟨rfl, fun m _ hlt htk => slotAddr_congr rfl (fun hne' => ?_) m⟩
    have hownk := h.owner hlt htk (Nat.le_refl maxFile) (by rwa [slotAddr_indirect])
    rw [slotAddr_indirect] at hownk
    refine update_of_ne (fun hc => ?_) ..
    rw [hc, hown] at hownk
    exact hk (Prod.mk.inj (Option.some.inj hownk)).1.symm

lemma Sys.node (h : Sys K v N o I S s) (he : Loaded I e) (hi : (I e).inum = i) :
    i < ninodes ∧ (N i).type ≠ 0 ∧ (I e).copy = N i ∧ Fits (N i) := by
  subst hi
  have hlt := h.nodes.inum e he
  obtain ⟨hcopy, ht⟩ := h.nodes.copy e he
  exact ⟨hlt, ht, hcopy, h.nodes.fits _ hlt⟩

omit [Geometry] in
lemma Grown.trans (h : Grown i v N o v' N' o') (h' : Grown i v' N' o' v'' N'' o'') :
    Grown i v N o v'' N'' o'' where
  node j hj := (h'.node j hj).trans (h.node j hj)
  fields := by rw [h'.fields, h.fields]
  block b j m hb := by
    obtain ⟨ho, hv⟩ := h.block b j m hb
    obtain ⟨ho', hv'⟩ := h'.block b j m ho
    exact ⟨ho', fun hjm => (hv' hjm).trans (hv hjm)⟩
  fresh b j m hb hb'' := by
    cases hb' : o' b with
    | none => exact h'.fresh b j m hb' hb''
    | some x =>
      obtain ⟨j', m'⟩ := x
      obtain ⟨ho, hv⟩ := h'.block b j' m' hb'
      rw [hb''] at ho
      cases ho
      obtain ⟨hj, hzero⟩ := h.fresh b j m hb hb'
      exact ⟨hj, fun hm => (hv (.inr hm)).trans (hzero hm)⟩

omit [Geometry] in
lemma Grown.others (h : Grown i v N o v' N' o') : Others i v N o v' N' o' where
  node := h.node
  block b j m hb hj := ⟨(h.block b j m hb).1, (h.block b j m hb).2 (.inl hj)⟩

/-- A block that was in use before `balloc` is not the new one. -/
lemma Owned.grown_alloc (h : Owned v N o ∅) (hr : r < Superblock.size) (hbit : bitOf v r = false)
    {d : Dinode} (hd : d = { N i with addrs := d.addrs }) (n : Nat) :
    Grown i v N o (allocBlock v r) (update N i d) (update o r (some (i, n))) where
  node j hj := update_of_ne hj ..
  fields := by
    rw [update_self]
    exact hd
  block b j m hb := by
    have hne : b ≠ r := by
      rintro rfl
      rw [(h.free_block hbit).2] at hb
      cases hb
    rw [update_of_ne hne]
    exact ⟨hb, fun _ => allocBlock_of_data hr (h.data hb).1 hne⟩
  fresh b j m hb hb' := by
    by_cases hbr : b = r
    · subst hbr
      rw [update_self] at hb'
      cases hb'
      exact ⟨rfl, fun _ => allocBlock_self v b⟩
    · rw [update_of_ne hbr, hb] at hb'
      cases hb'

/-- With a new owner there is one more block to be in order. -/
lemma fixed_update {d : Dinode} (htype : d.type = (N i).type) {x : Nat × Nat} {b : Nat}
    (hb : Fixed K (update N i d) (update o r (some x)) b) : Fixed K N o b ∨ b = r := by
  by_cases hbr : b = r
  · exact .inr hbr
  · refine .inl ?_
    rcases hb with hb | ⟨j, m, hown, hj⟩
    · exact .inl hb
    · rw [update_of_ne hbr] at hown
      refine .inr ⟨j, m, hown, hj.imp_right fun hK => ?_⟩
      by_cases hji : j = i
      · subst hji
        rw [update_self, htype] at hK
        exact hK
      · rwa [update_of_ne hji] at hK

lemma fixed_bblock {b : Nat} (hb : b < Superblock.size) : Fixed K N o (bblock b) := .inl (bblock_lt hb)

lemma Owned.indirect (h : Owned v N o L) (hi : i < ninodes) (ht : (N i).type ≠ 0)
    (hne : (N i).addrs.getD ndirect 0 ≠ 0) : o ((N i).addrs.getD ndirect 0) = some (i, maxFile) := by
  rw [← slotAddr_indirect (v := v)] at hne ⊢
  exact h.owner hi ht (Nat.le_refl maxFile) hne

/-- `balloc` and `ip->addrs[k] = addr`. -/
lemma allocAddr_spec {k n : Nat} (he : Loaded I e) (hi : (I e).inum = i) (hS : i ∈ S) (hk : k ≤ ndirect)
    (hn : n ≤ maxFile) (hzero : slotAddr v (N i) n = 0)
    (hself : ∀ r, ∀ m ≤ maxFile, slotAddr (allocBlock v r) (withAddr (N i) k r) m =
      if m = n then r else slotAddr (allocBlock v r) (N i) m) (hc : Within (T.card + 2) c) :
    Triple (Busy s₀ T K v N o I S)
      (do
        let addr ← balloc
        (if addr = 0 then pure () else setAddr e k addr)
        pure addr)
      (fun r s => r = 0 ∧ Full v ∧ Busy s₀ T K v N o I S s ∨
        r ≠ 0 ∧ r < Superblock.size ∧ bitOf v r = false ∧
        Busy s₀ (insert r (insert (bblock r) T)) K (allocBlock v r) (update N i (withAddr (N i) k r))
          (update o r (some (i, n))) (setCopy I e (withAddr (N i) k r)) S s) (Over c s₀) := by
  intro s hs
  obtain ⟨hlt, ht, hcopy, hfits⟩ := hs.node he hi
  refine (balloc_at (X := Fixed K N o) (fun _ => fixed_bblock) hc s hs.held).bind fun r s' hr => ?_
  rcases hr with ⟨rfl, hfull, hat⟩ | ⟨hsize, hbit, hat⟩
  · exact ends_pure (.inl ⟨rfl, hfull, hs.of_held hat⟩)
  · obtain ⟨hdata, hnone⟩ := hs.owned.free_block hbit
    have hne : r ≠ 0 := by
      have := dataStart_pos
      omega
    have hr32 : r < 2 ^ 32 := by
      have := Geometry.size_lt
      omega
    have hfits' : Fits (withAddr (N i) k r) := { hfits with
      length := by
        rw [withAddr]
        exact (List.length_set ..).trans hfits.length
      addr := fun m => by
        rw [withAddr_addrs hfits.length hk]
        split
        · exact hr32
        · exact hfits.addr m }
    rw [if_neg hne]
    refine (modifyCopy_at e _ s' hat).bind fun _ t hat' =>
      ends_pure (.inr ⟨hne, hsize, hbit, ⟨?_, ?_, ?_⟩, hat'.toLogs⟩)
    · have htable : setCopy I e (withAddr (N i) k r) =
          setCopy I e { (I e).copy with addrs := (I e).copy.addrs.set k r } := by
        rw [hcopy]
        rfl
      rw [htable]
      exact hat'.toAt.weaken fun b hb =>
        ⟨fixed_update (show (withAddr (N i) k r).type = (N i).type from rfl) hb, rfl⟩
    · refine hs.owned.attachAddr hsize hbit hlt ht hn hzero fun m hm => ?_
      rw [hself r m hm, hs.owned.alloc_slot hsize hbit hlt ht]
    · have hset := hs.nodes.setCopy he (hi ▸ hS) hfits' ht
      rw [hi] at hset
      refine hset.congr fun j hj => allocBlock_of_inodes hdata (iblock_lt hj)

/-- `bmap` of a block that the file has. -/
lemma bmap_present {n : Nat} {E : Stop → Prop} (he : Loaded I e) (hi : (I e).inum = i) (hn : n < maxFile)
    (hne : slotAddr v (N i) n ≠ 0) :
    Triple (Busy s₀ T K v N o I S) (bmap e n)
      (fun r s => Busy s₀ T K v N o I S s ∧ r = slotAddr v (N i) n) E := by
  intro s hs
  obtain ⟨hlt, ht, hcopy, -⟩ := hs.node he hi
  refine getInode_bind hs.at_.itable ?_
  rw [hcopy]
  split
  next hd =>
    rw [slotAddr_direct hd] at hne ⊢
    dsimp only
    rw [if_neg hne]
    exact ends_pure ⟨hs, rfl⟩
  next hd =>
    rw [slotAddr_entry (by omega) hn] at hne ⊢
    have hind : (N i).addrs.getD ndirect 0 ≠ 0 := fun hc => hne (if_pos hc)
    rw [if_neg hind] at hne ⊢
    have hfixed : Fixed K N o ((N i).addrs.getD ndirect 0) :=
      .inr ⟨i, maxFile, hs.owned.indirect hlt ht hind, .inl rfl⟩
    rw [if_pos (by unfold maxFile at hn; omega)]
    dsimp only
    rw [if_neg hind, pure_bind, if_neg hind]
    refine (bread_at _ s hs.held).bind fun data u hu => ?_
    rw [hu.2 hfixed, if_neg hne]
    exact ends_pure ⟨hs.of_held hu.1, rfl⟩

/-- What `bmap` leaves when the file has no block in place `n` and it returns `r`. The
blocks that are written are the new one and its part of the bitmap, and those that
were pending. -/
def Mapped (s₀ : Fs) (T : Finset Nat) (K : Nat → Bool) (v : Nat → Block) (N : Nat → Dinode)
    (o : Nat → Option (Nat × Nat)) (I : Nat → Inode) (S : Set Nat) (e i n r : Nat) (s : Fs) : Prop :=
  ∃ v' N' o' T', Busy s₀ T' K v' N' o' (setCopy I e (N' i)) S s ∧ Grown i v N o v' N' o' ∧
    T'.card + pending (N' i) T' ≤ T.card + pending (N i) T + 2 ∧
    (r ≠ 0 → o' r = some (i, n) ∧ r ∈ T') ∧ (r = 0 → Full v')

/-- The part of `bmap` that fills an entry of the indirect block. -/
lemma bmapEntry_spec {j : Nat} (he : Loaded I e) (hi : (I e).inum = i) (hj : j < nindirect)
    (hind : (N i).addrs.getD ndirect 0 ≠ 0) (hzero : slotAddr v (N i) (ndirect + j) = 0)
    (hc : Within (T.card + 3) c) :
    Triple (Busy s₀ T K v N o I S)
      (do
        let data ← bread ((N i).addrs.getD ndirect 0)
        let entry := data.word (4 * j)
        if entry = 0 then do
          let entry ← balloc
          (if entry = 0 then pure ()
            else logWrite ((N i).addrs.getD ndirect 0) (data.setWord (4 * j) entry))
          pure entry
        else pure entry)
      (Mapped s₀ T K v N o I S e i (ndirect + j)) (Over c s₀) := by
  intro s hs
  obtain ⟨hlt, ht, hcopy, hfits⟩ := hs.node he hi
  have hown := hs.owned.indirect hlt ht hind
  have hfixed : Fixed K N o ((N i).addrs.getD ndirect 0) := .inr ⟨i, maxFile, hown, .inl rfl⟩
  have hlt' : ndirect + j < maxFile := by
    unfold maxFile
    omega
  have hword : (v ((N i).addrs.getD ndirect 0)).word (4 * j) = 0 := by
    rw [slotAddr_entry (Nat.le_add_right ..) hlt', if_neg hind, Nat.add_sub_cancel_left] at hzero
    exact hzero
  have hsame : setCopy I e (N i) = I := setCopy_eq_self hcopy
  refine (bread_at _ s hs.held).bind fun data s₁ hs₁ => ?_
  rw [hs₁.2 hfixed]
  dsimp only
  rw [if_pos hword]
  refine (balloc_at (X := Fixed K N o) (fun _ => fixed_bblock) (hc.mono (by omega)) s₁ hs₁.1).bind
    fun r s₂ hr => ?_
  rcases hr with ⟨rfl, hfull, hat⟩ | ⟨hsize, hbit, hat⟩
  · refine ends_pure ⟨v, N, o, T, ?_, Grown.refl, by omega, fun hc => absurd rfl hc, fun _ => hfull⟩
    rw [hsame]
    exact hs.of_held hat
  · obtain ⟨hdata, hnone⟩ := hs.owned.free_block hbit
    have hne : r ≠ 0 := by
      have := dataStart_pos
      omega
    have hcard := card_insert_two T r (bblock r)
    rw [if_neg hne]
    refine (logWrite_at _ _ (hc.mono (by omega)) s₂ hat).bind fun _ t hat' => ends_pure ?_
    have hindData := (hs.owned.data hown).1
    refine ⟨_, N, _, _, ⟨⟨?_, hs.owned.attachEntry hsize hbit hlt ht hj hind hzero, ?_⟩,
      hat'.toLogs⟩, ?_, ?_,
      fun _ => ⟨update_self .., by simp⟩, fun hc => absurd hc hne⟩
    · rw [hsame]
      refine hat'.toAt.weaken fun b hb => ⟨?_, rfl⟩
      have hupd := fixed_update (K := K) (N := N) (i := i) (d := N i) rfl
        (o := o) (r := r) (x := (i, ndirect + j)) (b := b)
      rw [update_eq_self] at hupd
      exact .inl (hupd hb)
    · rw [hsame]
      refine hs.nodes.congr fun k hk => ?_
      have hk' := iblock_lt hk
      have hle : bmapstart ≤ dataStart := Nat.le_add_right _ _
      rw [update_of_ne (by omega)]
      exact allocBlock_of_inodes hdata hk'
    · have hg := hs.owned.grown_alloc hsize hbit (i := i) (d := N i) rfl (ndirect + j)
      rw [update_eq_self] at hg
      refine ⟨hg.node, hg.fields, fun b k m hb => ⟨(hg.block b k m hb).1, fun hkm => ?_⟩,
        fun b k m hb hb' => ⟨(hg.fresh b k m hb hb').1, fun hm => ?_⟩⟩
      · rw [update_of_ne]
        · exact (hg.block b k m hb).2 hkm
        · rintro rfl
          rw [hown] at hb
          cases hb
          rcases hkm with hc | hc <;> exact hc rfl
      · rw [update_of_ne]
        · exact (hg.fresh b k m hb hb').2 hm
        · rintro rfl
          rw [hown] at hb
          cases hb
    · -- the indirect block itself counts only if it is not in the log yet
      rw [pending_of_mem hind (mem_insert_self ..)]
      unfold pending
      rw [if_neg hind]
      split
      next hmem =>
        rw [insert_eq_of_mem (mem_insert_of_mem (mem_insert_of_mem hmem))]
        omega
      next =>
        have := card_insert_le ((N i).addrs.getD ndirect 0) (insert r (insert (bblock r) T))
        omega

lemma bmap_absent {n : Nat} (he : Loaded I e) (hi : (I e).inum = i) (hS : i ∈ S) (hn : n < maxFile)
    (hzero : slotAddr v (N i) n = 0) (hc : Within (T.card + pending (N i) T + 3) c) :
    Triple (Busy s₀ T K v N o I S) (bmap e n) (Mapped s₀ T K v N o I S e i n) (Over c s₀) := by
  intro s hs
  obtain ⟨hlt, ht, hcopy, hfits⟩ := hs.node he hi
  have hsame : setCopy I e (N i) = I := setCopy_eq_self hcopy
  refine getInode_bind hs.at_.itable ?_
  rw [hcopy]
  split
  next hd =>
    have haddr := hzero
    rw [slotAddr_direct hd] at haddr
    dsimp only
    rw [if_pos haddr]
    have halloc : Triple (Busy s₀ T K v N o I S) _ _ (Over c s₀) := allocAddr_spec he hi hS (Nat.le_of_lt hd)
      (Nat.le_of_lt hn) hzero (fun r m _ => slotAddr_withAddr hfits.length hd r m) (hc.mono (by omega))
    refine (halloc s hs).mono fun r u hu => ?_
    rcases hu with ⟨rfl, hfull, hbusy⟩ | ⟨hne, hsize, hbit, hbusy⟩
    · refine ⟨v, N, o, T, ?_, Grown.refl, by omega, fun hc => absurd rfl hc, fun _ => hfull⟩
      rw [hsame]
      exact hbusy
    · refine ⟨_, _, _, insert r (insert (bblock r) T), ?_,
        hs.owned.grown_alloc hsize hbit (d := withAddr (N i) n r) rfl n, ?_,
        fun _ => ⟨update_self .., mem_insert_self ..⟩, fun hc => absurd hc hne⟩
      · rw [update_self]
        exact hbusy
      · -- the indirect block is the same
        have hind : (withAddr (N i) n r).addrs.getD ndirect 0 = (N i).addrs.getD ndirect 0 := by
          rw [withAddr_addrs hfits.length (Nat.le_of_lt hd), if_neg (by omega)]
        have hpend : pending (withAddr (N i) n r) (insert r (insert (bblock r) T)) ≤ pending (N i) T := by
          refine Nat.le_trans (pending_mono (T := T) fun b hb => by simp [hb]) (Nat.le_of_eq ?_)
          unfold pending
          rw [hind]
        have hcard := card_insert_two T r (bblock r)
        rw [update_self]
        omega
  next hd =>
    have hj : n - ndirect < nindirect := by
      unfold maxFile at hn
      omega
    have hnj : ndirect + (n - ndirect) = n := by omega
    rw [if_pos hj]
    dsimp only
    by_cases hind : (N i).addrs.getD ndirect 0 = 0
    · -- the indirect block comes first
      rw [if_pos hind]
      have hpend : pending (N i) T = 2 := if_pos hind
      rw [hpend] at hc
      have halloc : Triple (Busy s₀ T K v N o I S) _ _ (Over c s₀) := allocAddr_spec he hi hS
        (Nat.le_refl ndirect) (Nat.le_refl maxFile) (slotAddr_indirect.trans hind)
        (fun r m _ => slotAddr_withIndirect hfits.length hind (allocBlock_self v r) m) (hc.mono (by omega))
      refine (halloc s hs).bind fun a u hu => ?_
      rcases hu with ⟨rfl, hfull, hbusy⟩ | ⟨hne, hsize, hbit, hbusy⟩
      · rw [if_pos rfl]
        refine ends_pure ⟨v, N, o, T, ?_, Grown.refl, by omega, fun hc => absurd rfl hc, fun _ => hfull⟩
        rw [hsame]
        exact hbusy
      · have hgrown := hs.owned.grown_alloc hsize hbit (d := withAddr (N i) ndirect a) rfl maxFile
        have haddr : (withAddr (N i) ndirect a).addrs.getD ndirect 0 = a := by
          rw [withAddr_addrs hfits.length (Nat.le_refl ndirect), if_pos rfl]
        have hcard := card_insert_two T a (bblock a)
        rw [if_neg hne]
        have hentry : Triple (Busy s₀ (insert a (insert (bblock a) T)) K (allocBlock v a)
            (update N i (withAddr (N i) ndirect a)) (update o a (some (i, maxFile)))
            (setCopy I e (withAddr (N i) ndirect a)) S) _ _ (Over c s₀) := bmapEntry_spec
          (loaded_setCopy.mpr he) ((setCopy_ref I e _ e).2.1.trans hi) hj
          (by rw [update_self, haddr]; exact hne)
          (by
            rw [update_self, hnj, slotAddr_withIndirect hfits.length hind (allocBlock_self v a),
              if_neg (by omega), hs.owned.alloc_slot hsize hbit hlt ht]
            exact hzero)
          (hc.mono (by omega))
        rw [update_self, haddr] at hentry
        refine (hentry u hbusy).mono fun r w hw => ?_
        obtain ⟨v₂, N₂, o₂, T₂, hbusy₂, hgrown₂, hcost, hr, hfull⟩ := hw
        rw [setCopy_setCopy] at hbusy₂
        refine ⟨v₂, N₂, o₂, T₂, hbusy₂, hgrown.trans hgrown₂, ?_, hnj ▸ hr, hfull⟩
        have hpaid : pending (withAddr (N i) ndirect a) (insert a (insert (bblock a) T)) = 0 :=
          pending_of_mem (haddr.symm ▸ hne) (haddr.symm ▸ mem_insert_self ..)
        rw [update_self, hpaid] at hcost
        omega
    · rw [if_neg hind, pure_bind, if_neg hind]
      have hentry : Triple (Busy s₀ T K v N o I S) _ _ (Over c s₀) :=
        bmapEntry_spec he hi hj hind (hnj.symm ▸ hzero) (hc.mono (by omega))
      refine (hentry s hs).mono fun r w hw => ?_
      rw [hnj] at hw
      exact hw

end Xv6.Fs
