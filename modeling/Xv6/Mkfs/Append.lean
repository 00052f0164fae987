import Xv6.Mkfs.Image

/-!
# `iappend`

A file has a block in each place that its length reaches (`Reach`), and no others. `iappend` keeps
this: a round of its loop gives the file the block where the file ends, and fills it.

It fails only if the file gets longer than `MAXFILE` blocks or the image is full. A round takes two
blocks at most, so there is a condition under which it does not fail (`Room`).
-/

namespace Xv6.Mkfs

open Function Lib Fs
open Xv6.Inode (Dinode)

lemma ends_rsect {sec : Nat} {m : Image} {Q : Block → Image → Prop} {E : Abort → Prop}
    (hQ : sec < m.nsect → Q (m.disk sec) m) (hE : ¬ sec < m.nsect → E .dieRead) :
    Ends (rsect sec) m Q E := by
  unfold rsect
  refine ends_get_bind ?_
  split
  next hlt => exact ends_pure (hQ hlt)
  next hge => exact ends_throw (hE hge)

lemma wsect_eq {sec : Nat} {m : Image} (buf : Block) (hsec : sec < m.nsect) :
    wsect sec buf m = .ok (⟨⟩, m.put sec buf) := by
  have hmax : max m.nsect (sec + 1) = m.nsect := Nat.max_eq_left hsec
  show Except.ok (PUnit.unit, { m with disk := update m.disk sec buf, nsect := max m.nsect (sec + 1) }) = _
  rw [hmax]
  rfl

section

variable {N : Nat → Dinode} {C : Nat → List UInt8} {P : Nat → Nat → Prop} {o : Nat → Option (Nat × Nat)}
variable {S : Set Nat} {m : Image} {d : Dinode} {E : Abort → Prop} {i n : Nat}

/-! ## Places for new bytes -/

/-- What is true once place `n` of inode `i` has the block `b`. -/
def Given (N : Nat → Dinode) (C : Nat → List UInt8) (P : Nat → Nat → Prop) (S : Set Nat) (m : Image)
    (i n b : Nat) (d : Dinode) (m' : Image) : Prop :=
  (∃ a, d = { N i with addrs := a }) ∧ m'.freeinode = m.freeinode ∧
  (m'.freeblock = m.freeblock ∨ m'.freeblock = m.freeblock + 1 ∧ b = m.freeblock) ∧
  ∃ o, Img (update N i d) C (fun j k => P j k ∨ j = i ∧ k = n) o S m' ∧ o b = some (i, n)

lemma Img.given (h : Img N C P o S m) (hi : i < ninodes) (ht : (N i).type ≠ 0) (hn : n ≤ maxFile)
    (hne : slotAddr m.disk (N i) n ≠ 0) : Given N C P S m i n (slotAddr m.disk (N i) n) (N i) m := by
  have hP : P i n := (h.slots i hi ht n hn).mp hne
  refine ⟨⟨_, rfl⟩, rfl, .inl rfl, o, ?_, h.owner hi ht hn hne⟩
  rw [update_eq_self]
  exact h.congrPlaces fun j k _ => ⟨fun hc => hc.elim id fun hc => hc.1 ▸ hc.2 ▸ hP, .inl⟩

/-- The place of a block number of the inode. -/
def addrPlace (k : Nat) : Nat := if k = ndirect then maxFile else k

lemma addrPlace_le {k : Nat} (hk : k ≤ ndirect) : addrPlace k ≤ maxFile := by
  unfold addrPlace
  split
  · exact Nat.le_refl _
  · unfold maxFile
    omega

lemma slotAddr_addrPlace {v : Disk} {k : Nat} (hk : k ≤ ndirect) :
    slotAddr v d (addrPlace k) = d.addrs.getD k 0 := by
  unfold addrPlace
  split
  next hc => rw [slotAddr_indirect, hc]
  next hc => rw [slotAddr_direct (by omega)]

lemma fits_withAddr {k b : Nat} (hd : Fits d) (hk : k ≤ ndirect) (hb : b < 2 ^ 32) :
    Fits (withAddr d k b) := by
  refine { hd with length := ?_, addr := ?_ }
  · rw [withAddr, List.length_set]
    exact hd.length
  · intro j
    rw [withAddr_addrs hd.length hk]
    split
    · exact hb
    · exact hd.addr j

/-- A block of zeroes in a block number of the inode. -/
lemma slotAddr_needAddr {v : Disk} {k b : Nat} (hd : d.addrs.length = ndirect + 1) (hk : k ≤ ndirect)
    (hzero : d.addrs.getD k 0 = 0) (hv : v b = Block.zero) (j : Nat) :
    slotAddr v (withAddr d k b) j = if j = addrPlace k then b else slotAddr v d j := by
  unfold addrPlace
  split
  next hc =>
    subst hc
    exact slotAddr_withIndirect hd hzero hv j
  next hc => exact slotAddr_withAddr hd (by omega) b j

lemma needAddr_spec {k : Nat} (h : Img N C P o S m) (hi : i < ninodes) (ht : (N i).type ≠ 0) (hS : i ∈ S)
    (hk : k ≤ ndirect) (hfull : m.freeblock < 2 ^ 32)
    (hC : addrPlace k < maxFile → ¬ P i (addrPlace k) → (C i).length ≤ addrPlace k * bsize) :
    Ends (needAddr (N i) k) m (fun d => Given N C P S m i (addrPlace k) (d.addrs.getD k 0) d) E := by
  have hn := addrPlace_le hk
  have hd := h.fits i hi
  unfold needAddr
  split
  next hzero =>
    have hP : ¬ P i (addrPlace k) := by
      rw [← h.slots i hi ht _ hn, slotAddr_addrPlace hk]
      exact fun hc => hc hzero
    refine ends_bind_of_eq rfl (ends_pure ?_)
    refine ⟨⟨_, rfl⟩, rfl, .inr ⟨rfl, ?_⟩, _, h.attach (v := m.disk) hi ht hS hn hP (fits_withAddr hd hk hfull) rfl
      (fun _ _ => rfl) (fun j _ => slotAddr_needAddr hd.length hk hzero (h.zero _ (Nat.le_refl _)) j)
      (fun hlt => hC hlt hP), ?_⟩
    · rw [withAddr_addrs hd.length hk, if_pos rfl]
    · rw [withAddr_addrs hd.length hk, if_pos rfl, update_self]
  next hne =>
    have hgiven := h.given hi ht hn (by rwa [slotAddr_addrPlace hk])
    rw [slotAddr_addrPlace hk] at hgiven
    exact ends_pure hgiven

lemma needEntry_spec {j : Nat} (h : Img N C P o S m) (hi : i < ninodes) (ht : (N i).type ≠ 0) (hS : i ∈ S)
    (hj : j < nindirect) (hfull : m.freeblock < 2 ^ 32)
    (hind : o ((N i).addrs.getD ndirect 0) = some (i, maxFile))
    (hsec : (N i).addrs.getD ndirect 0 < m.nsect)
    (hC : ¬ P i (ndirect + j) → (C i).length ≤ (ndirect + j) * bsize) :
    Ends (needEntry ((N i).addrs.getD ndirect 0) (m.disk ((N i).addrs.getD ndirect 0)) j) m
      (fun data => Given N C P S m i (ndirect + j) (data.word (4 * j)) (N i)) E := by
  have hlt : ndirect + j < maxFile := Nat.add_lt_add_left hj _
  have hne : (N i).addrs.getD ndirect 0 ≠ 0 := (h.own_iff.mp hind).2.2.2.2
  have hslot : slotAddr m.disk (N i) (ndirect + j) = (m.disk ((N i).addrs.getD ndirect 0)).word (4 * j) := by
    rw [slotAddr_entry (Nat.le_add_right _ _) hlt, if_neg hne, Nat.add_sub_cancel_left]
  unfold needEntry
  split
  next hzero =>
    have hP : ¬ P i (ndirect + j) := by
      rw [← h.slots i hi ht _ (Nat.le_of_lt hlt), hslot]
      exact fun hc => hc hzero
    have hfit : 4 * j + 4 ≤ bsize := by
      unfold nindirect at hj
      unfold bsize
      omega
    have hsame : ∀ c, o c ≠ some (i, maxFile) → c ≠ (N i).addrs.getD ndirect 0 := fun c hc he => hc (he ▸ hind)
    refine ends_bind_of_eq rfl (ends_bind_of_eq (wsect_eq _ hsec) (ends_pure ?_))
    rw [Block.word_setWord _ _ hfit, Nat.mod_eq_of_lt hfull]
    refine ⟨⟨_, rfl⟩, rfl, .inr ⟨rfl, rfl⟩, _, h.attach hi ht hS (Nat.le_of_lt hlt) hP (h.fits i hi) rfl
      (fun c hc => update_of_ne (hsame c hc) ..) (fun k hk => slotAddr_setWord hne hj hfull hk)
      (fun _ => hC hP), update_self ..⟩
  next hword =>
    have hgiven := h.given hi ht (Nat.le_of_lt hlt) (by rwa [hslot])
    rw [hslot] at hgiven
    exact ends_pure hgiven

/-! ## Files -/

/-- A file of this length has a block in place `n`. -/
def Reach (len n : Nat) : Prop := n < maxFile ∧ n * bsize < len ∨ n = maxFile ∧ ndirect * bsize < len

lemma le_of_not_reach {len : Nat} (hn : n < maxFile) (h : ¬ Reach len n) : len ≤ n * bsize := by
  by_contra hc
  exact h (.inl ⟨hn, by omega⟩)

/-- The new places, when the block where a file ends is filled. -/
lemma reach_append {len l : Nat} (hl : 0 < l) (hfit : len % bsize + l ≤ bsize)
    (hlen : len / bsize < maxFile) :
    Reach (len + l) n ↔ (Reach len n ∨ n = maxFile ∧ ndirect ≤ len / bsize) ∨ n = len / bsize := by
  unfold Reach
  unfold maxFile nindirect ndirect bsize at *
  omega

/-- The image between two calls of `iappend`, if `S` is empty. -/
structure Files (N : Nat → Dinode) (C : Nat → List UInt8) (o : Nat → Option (Nat × Nat)) (S : Set Nat)
    (m : Image) : Prop where
  img : Img N C (fun i n => Reach (C i).length n) o S m
  limit : m.freeblock ≤ fssize

lemma Files.full (h : Files N C o S m) : m.freeblock < 2 ^ 32 :=
  Nat.lt_of_le_of_lt h.limit (by decide)

/-- What is true of the block `b` where file `i` ends. -/
structure Ready (N : Nat → Dinode) (C : Nat → List UInt8) (S : Set Nat) (m : Image) (i b : Nat) (d : Dinode)
    (m' : Image) : Prop where
  node : ∃ a, d = { N i with addrs := a }
  inodes : m'.freeinode = m.freeinode
  blocks : m'.freeblock ≤ m.freeblock + 2
  limit : m'.freeblock ≤ fssize ∨ m'.freeblock = b + 1
  img : ∃ o, Img (update N i d) C
    (fun j k => (Reach (C j).length k ∨ j = i ∧ k = maxFile ∧ ndirect ≤ (C i).length / bsize) ∨
      j = i ∧ k = (C i).length / bsize) o S m' ∧ o b = some (i, (C i).length / bsize)

lemma fileBlock_spec (h : Files N C o S m) (hi : i < ninodes) (ht : (N i).type ≠ 0) (hS : i ∈ S)
    (hn : (C i).length / bsize < maxFile) (hE : fssize < m.freeblock + 2 → E .dieRead) :
    Ends (fileBlock (N i) ((C i).length / bsize)) m (fun r => Ready N C S m i r.1 r.2) E := by
  have hlimit := h.limit
  unfold fileBlock
  split
  next hdirect =>
    have hplace : addrPlace ((C i).length / bsize) = (C i).length / bsize := if_neg (by omega)
    refine (needAddr_spec h.img hi ht hS (Nat.le_of_lt hdirect) h.full fun hlt => le_of_not_reach hlt).bind ?_
    rintro d m₁ ⟨hd, hinodes, hblocks, o₁, himg, hown⟩
    rw [hplace] at himg hown
    refine ends_pure ⟨hd, hinodes, by omega, by omega, o₁, himg.congrPlaces fun j k _ => ?_, hown⟩
    constructor
    · rintro ((hr | ⟨-, -, hc⟩) | hr)
      · exact .inl hr
      · omega
      · exact .inr hr
    · rintro (hr | hr)
      · exact .inl (.inl hr)
      · exact .inr hr
  next hindirect =>
    have hge : ndirect ≤ (C i).length / bsize := by omega
    have hplace : addrPlace ndirect = maxFile := if_pos rfl
    refine (needAddr_spec h.img hi ht hS (Nat.le_refl _) h.full fun hlt => le_of_not_reach hlt).bind ?_
    rintro d m₁ ⟨⟨a, ha⟩, hinodes, hblocks, o₁, himg, hown⟩
    rw [hplace] at himg hown
    have hrange := himg.range hown
    refine (ends_rsect (Q := fun data m₂ => d.addrs.getD ndirect 0 < m₁.nsect ∧
      data = m₁.disk (d.addrs.getD ndirect 0) ∧ m₂ = m₁) (fun hlt => ⟨hlt, rfl, rfl⟩) fun hge => hE ?_).bind ?_
    · rw [himg.nsect] at hge
      omega
    rintro data m₂ ⟨hsec, rfl, rfl⟩
    have hsec' := hsec
    rw [himg.nsect] at hsec'
    have hj : (C i).length / bsize - ndirect < nindirect := by
      unfold maxFile at hn
      omega
    have hsum : ndirect + ((C i).length / bsize - ndirect) = (C i).length / bsize := by omega
    have hentry := needEntry_spec (E := E) (j := (C i).length / bsize - ndirect) himg hi
      (by rw [update_self, ha]; exact ht) hS hj
      (by have : fssize < 2 ^ 31 := by decide
          omega)
      (by rwa [update_self]) (by rwa [update_self])
      (fun hP => by
        rw [hsum] at hP ⊢
        exact le_of_not_reach hn fun hc => hP (.inl hc))
    rw [update_self, hsum] at hentry
    refine hentry.bind ?_
    rintro data m₃ ⟨-, hinodes₃, hblocks₃, o₃, himg₃, hown₃⟩
    refine ends_pure ⟨⟨a, ha⟩, hinodes₃.trans hinodes, by omega, by omega, o₃, ?_, hown₃⟩
    rw [update_idem] at himg₃
    refine himg₃.congrPlaces fun j k _ => ?_
    simp only [hge, and_true]

/-- The block is filled. -/
lemma Ready.write {b : Nat} {m' : Image} {q : List UInt8} (h : Ready N C S m i b d m')
    (hn : (C i).length / bsize < maxFile) (hq : 0 < q.length)
    (hfit : (C i).length % bsize + q.length ≤ bsize)
    (hb : b < fssize) :
    ∃ o, Files (update N i d) (update C i (C i ++ q)) o S
      (m'.put b ((m'.disk b).splice ((C i).length % bsize) q)) := by
  obtain ⟨o, himg, hown⟩ := h.img
  refine ⟨o, (himg.write hown hn hfit).congrPlaces fun j k hk => ?_, ?_⟩
  · by_cases hji : j = i
    · subst hji
      rw [update_self, List.length_append, reach_append hq hfit hn]
      simp only [true_and]
    · rw [update_of_ne hji]
      simp only [hji, false_and, or_false]
  · exact h.limit.elim id fun hc => hc ▸ hb

/-! ## The loop -/

/-- How many blocks the loop may take. -/
def appendBlocks (len l : Nat) : Nat := if l = 0 then 0 else 2 * ((len % bsize + l - 1) / bsize + 1)

/-- There are enough blocks for `l` bytes behind `len`. -/
def Room (len l freeblock : Nat) : Prop :=
  len + l ≤ maxFile * bsize ∧ freeblock + appendBlocks len l ≤ fssize

lemma appendBlocks_next {len l n1 : Nat} (hl : 0 < l) (hn1 : n1 = min l (bsize - len % bsize)) :
    appendBlocks len l = appendBlocks (len + n1) (l - n1) + 2 := by
  unfold appendBlocks bsize at *
  rw [if_neg (by omega)]
  split
  next hz =>
    have hle : (len % 1024 + l - 1) / 1024 = 0 := by omega
    omega
  next hnz =>
    have hmod : (len + n1) % 1024 = 0 := by omega
    rw [hmod]
    have hstep : (len % 1024 + l - 1) / 1024 = (0 + (l - n1) - 1) / 1024 + 1 := by omega
    omega

lemma appendRounds_spec (k : Nat) (h : Files N C o S m) (hi : i < ninodes) (ht : (N i).type ≠ 0)
    (hS : i ∈ S)
    (p : List UInt8) (hk : p.length ≤ k) :
    Ends (appendRounds k (N i) (C i).length p) m
      (fun r m' => (∃ a, r.1 = { N i with addrs := a }) ∧ r.2 = (C i ++ p).length ∧
        r.2 ≤ max (C i).length (maxFile * bsize) ∧ m'.freeinode = m.freeinode ∧
        m'.freeblock ≤ m.freeblock + appendBlocks (C i).length p.length ∧
        ∃ o, Files (update N i r.1) (update C i (C i ++ p)) o S m')
      (fun _ => ¬ Room (C i).length p.length m.freeblock) := by
  induction k generalizing N C o m p with
  | zero =>
    have hnil : p = [] := List.length_eq_zero_iff.mp (Nat.le_zero.mp hk)
    subst hnil
    refine ends_pure ⟨⟨_, rfl⟩, by rw [List.append_nil], by omega, rfl, by omega, o, ?_⟩
    rwa [update_eq_self, List.append_nil, update_eq_self]
  | succ k ih =>
    unfold appendRounds
    split
    next hnil =>
      subst hnil
      refine ends_pure ⟨⟨_, rfl⟩, by rw [List.append_nil], by omega, rfl, by omega, o, ?_⟩
      rwa [update_eq_self, List.append_nil, update_eq_self]
    next hne =>
    have hpos : 0 < p.length := List.length_pos_iff.mpr hne
    split
    next hn =>
      have hdiv : (C i).length / bsize * bsize + (C i).length % bsize = (C i).length := Nat.div_add_mod' ..
      have hmod : (C i).length % bsize < bsize := Nat.mod_lt _ (by decide)
      obtain ⟨n1, hn1⟩ : ∃ n1, n1 = min p.length (bsize - (C i).length % bsize) := ⟨_, rfl⟩
      have hn1' : min p.length (((C i).length / bsize + 1) * bsize - (C i).length) = n1 := by
        rw [Nat.succ_mul, hn1]
        omega
      have hoff : (C i).length - (C i).length / bsize * bsize = (C i).length % bsize := by omega
      have htake : (p.take n1).length = n1 := by
        rw [List.length_take]
        omega
      have hdrop : (p.drop n1).length = p.length - n1 := List.length_drop ..
      have hblocks := appendBlocks_next hpos hn1
      refine (fileBlock_spec h hi ht hS hn fun hc hroom => ?_).bind ?_
      · have := hroom.2
        omega
      rintro ⟨x, d⟩ m₁ hready
      simp only [hn1', hoff]
      obtain ⟨o₁, himg, hown⟩ := hready.img
      have hrange := himg.range hown
      have hnsect := himg.nsect
      have hfree := hready.blocks
      refine (ends_rsect (Q := fun buf m₂ => x < m₁.nsect ∧ buf = m₁.disk x ∧ m₂ = m₁)
        (fun hlt => ⟨hlt, rfl, rfl⟩) fun hge hroom => ?_).bind ?_
      · have := hroom.2
        omega
      rintro buf m₂ ⟨hx, rfl, rfl⟩
      obtain ⟨o₂, hfiles⟩ := hready.write (q := p.take n1) hn (by omega) (by omega) (by omega)
      refine ends_bind_of_eq (wsect_eq _ hx) ?_
      obtain ⟨a, ha⟩ := hready.node
      have hnext := ih hfiles (by rw [update_self, ha]; exact ht) (p.drop n1) (by omega)
      rw [update_self, update_self, List.length_append, htake, hdrop] at hnext
      refine (hnext.mono ?_).errors fun e hc hroom => hc ?_
      · rintro ⟨d', off⟩ m₃ ⟨⟨a', ha'⟩, hoff', hmax, hinodes, hblocks', o₃, hfiles'⟩
        rw [update_idem, update_idem, List.append_assoc, List.take_append_drop] at hfiles'
        rw [List.append_assoc, List.take_append_drop] at hoff'
        refine ⟨⟨a', by rw [ha', ha]⟩, hoff', ?_, hinodes.trans hready.inodes, ?_, o₃, hfiles'⟩
        · have : (C i).length + n1 ≤ maxFile * bsize := by
            unfold bsize at *
            omega
          omega
        · have : m₃.freeblock ≤ m₂.freeblock + appendBlocks ((C i).length + n1) (p.length - n1) := hblocks'
          omega
      · have hle := hroom.2
        refine ⟨by have := hroom.1; omega, ?_⟩
        show m₂.freeblock + _ ≤ _
        omega
    next hn =>
      refine ends_throw fun hroom => hn ?_
      have := hroom.1
      unfold bsize at *
      omega

end

end Xv6.Mkfs
