import Xv6.Fs.Bmap

/-!
# The contents of files

`readi` and `writei` go through a file block by block. `fileByte` is a file as a
function of the position, where a hole reads as zero, and each loop is specified by
it: `readi` copies the bytes of a range, and `writei` replaces those of a range that
begins at the offset (`Wrote`). A block that `bmap` adds is zeroed, so it changes no
byte.

`writei` may end early. Either the disk is full, or the source cannot be read. In
the second case the buffer of the block is left in disorder, so the specification of
the bytes is for files whose data is in order and for a source that can be read.
-/

namespace Xv6.Fs

open Function Lib
open Xv6.Inode (Dinode ninode)

/-! ## Bytes -/

/-- The byte at a position of a file. -/
def fileByte (v : Nat → Block) (d : Dinode) (p : Nat) : UInt8 :=
  if slotAddr v d (p / bsize) = 0 then 0
  else UInt8.ofNat ((v (slotAddr v d (p / bsize))).byte (p % bsize))

/-- The bytes of a file. -/
def contents (v : Nat → Block) (d : Dinode) : List UInt8 := (List.range d.size).map (fileByte v d)

/-- A file without holes. -/
structure Dense (v : Nat → Block) (d : Dinode) : Prop where
  size : d.size ≤ maxFile * bsize
  present : ∀ q, q * bsize < d.size → slotAddr v d q ≠ 0

variable {v v' v'' : Nat → Block} {d d' : Dinode}

lemma length_contents : (contents v d).length = d.size := by simp [contents]

lemma getElem_contents {p : Nat} (hp : p < (contents v d).length) : (contents v d)[p] = fileByte v d p := by
  simp [contents]

lemma getD_contents {p : Nat} (hp : p < d.size) : (contents v d).getD p 0 = fileByte v d p := by
  rw [List.getD_eq_getElem _ _ (by rwa [length_contents]), getElem_contents]

lemma fileByte_congr {p : Nat} (hslot : slotAddr v' d' (p / bsize) = slotAddr v d (p / bsize))
    (hv : slotAddr v d (p / bsize) ≠ 0 → v' (slotAddr v d (p / bsize)) = v (slotAddr v d (p / bsize))) :
    fileByte v' d' p = fileByte v d p := by
  unfold fileByte
  rw [hslot]
  split
  · rfl
  next hne => rw [hv hne]

lemma contents_congr (hsize : d'.size = d.size) (h : ∀ p < d.size, fileByte v' d' p = fileByte v d p) :
    contents v' d' = contents v d := by
  unfold contents
  rw [hsize]
  exact List.map_congr_left fun p hp => h p (List.mem_range.mp hp)

/-- A range of positions inside one block. -/
lemma position_add {off j m : Nat} (hm : m ≤ bsize - off % bsize) (hj : j < m) :
    (off + j) / bsize = off / bsize ∧ (off + j) % bsize = off % bsize + j := by
  unfold bsize at *
  omega

/-- The part of a block that a round of `readi` copies. -/
lemma slice_eq {off m : Nat} (hm : m ≤ bsize - off % bsize) (hne : slotAddr v d (off / bsize) ≠ 0) :
    (v (slotAddr v d (off / bsize))).slice (off % bsize) m =
      (List.range m).map fun j => fileByte v d (off + j) := by
  refine List.map_congr_left fun j hj => ?_
  obtain ⟨hdiv, hmod⟩ := position_add hm (List.mem_range.mp hj)
  rw [fileByte, hdiv, if_neg hne, hmod]

lemma range_map_add {α : Type} (f : Nat → α) {m n : Nat} (h : m ≤ n) :
    (List.range n).map f = (List.range m).map f ++ (List.range (n - m)).map fun j => f (m + j) := by
  conv_lhs => rw [show n = m + (n - m) by omega, List.range_add, List.map_append, List.map_map]
  rfl

/-- The first step of a round. -/
lemma round_pos (off : Nat) {n : Nat} (hn : n ≠ 0) : 0 < min n (bsize - off % bsize) := by
  have := Nat.mod_lt off (show 0 < bsize by decide)
  omega

lemma div_lt_maxFile {p : Nat} (h : p < maxFile * bsize) : p / bsize < maxFile :=
  Nat.div_lt_of_lt_mul (by rwa [Nat.mul_comm])

/-! ## Sources and destinations -/

lemma UserMem.copyin_mapped {m : UserMem} {k va len : Nat} (hk : len ≤ k)
    (h : ∀ a, va ≤ a → a < va + len → m.mapped (a / pgSize) = true) :
    m.copyin k va len = ((List.range len).map fun j => m.byte (va + j), true) := by
  induction k generalizing va len with
  | zero =>
    obtain rfl : len = 0 := by omega
    rfl
  | succ k ih =>
    rw [UserMem.copyin]
    split
    next hlen =>
      subst hlen
      rfl
    next hlen =>
      have hpos : 0 < min (pgSize - va % pgSize) len := by
        have := Nat.mod_lt va (show 0 < pgSize by decide)
        omega
      have hle : min (pgSize - va % pgSize) len ≤ len := Nat.min_le_right ..
      generalize min (pgSize - va % pgSize) len = n at hpos hle
      rw [if_pos (h va (Nat.le_refl va) (by omega))]
      dsimp only
      rw [ih (by omega) fun a ha ha' => h a (by omega) (by omega), range_map_add _ hle]
      simp only [Nat.add_assoc]

/-- The `j`-th byte of the source. -/
def Src.byte : Src → Nat → UInt8
  | kernel bs, j => bs.getD j 0
  | user m va, j => m.byte (va + j)

/-- The first `n` bytes can be read. -/
def Src.Readable (n : Nat) : Src → Prop
  | kernel bs => n ≤ bs.length
  | user m va => ∀ a, va ≤ a → a < va + n → m.mapped (a / pgSize) = true

/-- The first `n` bytes. -/
def Src.bytes (src : Src) (n : Nat) : List UInt8 := (List.range n).map src.byte

lemma Src.Readable.mono {src : Src} {m n : Nat} (h : src.Readable n) (hm : m ≤ n) : src.Readable m := by
  cases src with
  | kernel bs => exact Nat.le_trans hm h
  | user mem va => exact fun a ha ha' => h a ha (by omega)

lemma Src.Readable.advance {src : Src} {m n : Nat} (h : src.Readable n) (hm : m ≤ n) :
    (src.advance m).Readable (n - m) := by
  cases src with
  | kernel bs =>
    have hle : n ≤ bs.length := h
    show n - m ≤ (bs.drop m).length
    rw [List.length_drop]
    omega
  | user mem va => exact fun a ha ha' => h a (by omega) (by omega)

lemma Src.byte_advance (src : Src) (m j : Nat) : (src.advance m).byte j = src.byte (m + j) := by
  cases src with
  | kernel bs =>
    show (bs.drop m).getD j 0 = bs.getD (m + j) 0
    rw [List.getD_eq_getElem?_getD, List.getD_eq_getElem?_getD, List.getElem?_drop]
  | user mem va =>
    show mem.byte (va + m + j) = mem.byte (va + (m + j))
    rw [Nat.add_assoc]

lemma Src.copyin_readable {src : Src} {n : Nat} (h : src.Readable n) :
    src.copyin n = (src.bytes n, true) := by
  cases src with
  | kernel bs =>
    have hle : n ≤ bs.length := h
    show (bs.take n, true) = ((List.range n).map fun j => bs.getD j 0, true)
    refine congrArg (·, true) (List.ext_getElem ?_ fun j hj hj' => ?_)
    · rw [List.length_take, List.length_map, List.length_range]
      omega
    · have hjn : j < n := by simpa using hj'
      rw [List.getElem_take, List.getElem_map, List.getElem_range, List.getD_eq_getElem]
  | user mem va => exact UserMem.copyin_mapped (Nat.le_refl n) h

/-- `n` bytes can be stored. -/
def Dst.Writable (n : Nat) : Dst → Prop
  | kernel => True
  | user m va => ∀ a, va ≤ a → a < va + n → m.mapped (a / pgSize) = true

lemma Dst.Writable.advance {dst : Dst} {m n : Nat} (h : dst.Writable n) (hm : m ≤ n) :
    (dst.advance m).Writable (n - m) := by
  cases dst with
  | kernel => trivial
  | user mem va => exact fun a ha ha' => h a (by omega) (by omega)

lemma Dst.copyout_writable {dst : Dst} {m n : Nat} (h : dst.Writable n) (hm : m ≤ n) :
    dst.copyout m = true := by
  cases dst with
  | kernel => rfl
  | user mem va =>
    show (mem.copyin m va m).2 = true
    rw [UserMem.copyin_mapped (Nat.le_refl m) fun a ha ha' => h a ha (by omega)]

/-! ## Reading -/

variable [Geometry]
variable {K : Nat → Bool} {N N' N'' : Nat → Dinode} {o o' o'' : Nat → Option (Nat × Nat)}
variable {I : Nat → Inode} {S : Set Nat} {s s₀ : Fs} {i e : Nat} {T : Finset Nat} {c : Option Nat}

/-- The block in a place below `MAXFILE` is in order if the data of the file is. -/
lemma Busy.fixed (h : Busy s₀ T K v N o I S s) (he : Loaded I e) (hi : (I e).inum = i)
    (hK : K (N i).type = true) {n : Nat} (hn : n < maxFile) (hne : slotAddr v (N i) n ≠ 0) :
    Fixed K N o (slotAddr v (N i) n) := by
  obtain ⟨hlt, ht, -, -⟩ := h.node he hi
  exact .inr ⟨i, n, h.owned.owner hlt ht (Nat.le_of_lt hn) hne, .inr hK⟩

lemma readRounds_spec {k : Nat} {dst : Dst} {off n : Nat} {E : Stop → Prop} (hk : n ≤ k) (he : Loaded I e)
    (hi : (I e).inum = i) (hK : K (N i).type = true) (hmax : off + n ≤ maxFile * bsize)
    (hpresent : ∀ p, off ≤ p → p < off + n → slotAddr v (N i) (p / bsize) ≠ 0) (hdst : dst.Writable n) :
    Triple (Busy s₀ T K v N o I S) (readRounds e k dst off n)
      (fun r s => Busy s₀ T K v N o I S s ∧ r = some ((List.range n).map fun j => fileByte v (N i) (off + j)))
      E := by
  induction k generalizing dst off n with
  | zero =>
    obtain rfl : n = 0 := by omega
    exact triple_pure fun s hs => ⟨hs, rfl⟩
  | succ k ih =>
    refine triple_ite (fun hn => ?_) fun hn => ?_
    · subst hn
      exact triple_pure fun s hs => ⟨hs, rfl⟩
    · have hne := hpresent off (Nat.le_refl off) (by omega)
      have hq := div_lt_maxFile (p := off) (by omega)
      have hpos := round_pos off hn
      have hle := Nat.min_le_left n (bsize - off % bsize)
      have hblock := Nat.min_le_right n (bsize - off % bsize)
      refine (bmap_present he hi hq hne).bind fun addr => ?_
      rintro s ⟨hs, rfl⟩
      rw [if_neg hne]
      refine (bread_at _ s hs.held).bind fun data t ht => ?_
      have ht' := hs.of_held ht.1
      rw [ht.2 (hs.fixed he hi hK hq hne)]
      dsimp only
      generalize min n (bsize - off % bsize) = m at hpos hle hblock
      rw [if_pos (Dst.copyout_writable hdst hle)]
      refine (ih (by omega) (by omega) (fun p hp hp' => hpresent p (by omega) (by omega))
        (hdst.advance hle) t ht').bind fun rest u hu => ends_pure ⟨hu.1, ?_⟩
      rw [hu.2, slice_eq hblock hne, Option.map_some, range_map_add _ hle]
      simp only [Nat.add_assoc]

/-- What `readi` returns. -/
lemma readi_spec {dst : Dst} {off n : Nat} {E : Stop → Prop} (he : Loaded I e) (hi : (I e).inum = i)
    (hK : K (N i).type = true) (hd : Dense v (N i)) (hdst : dst.Writable n) :
    Triple (Busy s₀ T K v N o I S) (readi e dst off n)
      (fun r s => Busy s₀ T K v N o I S s ∧
        r = some (if off > (N i).size ∨ off + n ≥ 2 ^ 32 then [] else ((contents v (N i)).drop off).take n))
      E := by
  intro s hs
  obtain ⟨-, -, hcopy, -⟩ := hs.node he hi
  refine getInode_bind hs.at_.itable ?_
  rw [hcopy]
  dsimp only
  split
  · exact ends_pure ⟨hs, rfl⟩
  next hin =>
    have hdense := hd.size
    generalize hm : (if off + n > (N i).size then (N i).size - off else n) = m
    have hle : m ≤ n := by split at hm <;> omega
    have hsize : off + m ≤ (N i).size := by split at hm <;> omega
    have hdst' : dst.Writable m := by
      cases dst with
      | kernel => trivial
      | user mem va => exact fun a ha ha' => hdst a ha (by omega)
    refine (readRounds_spec (Nat.le_refl m) he hi hK (by omega)
      (fun p hp hp' => hd.present _ ?_) hdst' s hs).mono fun r t ht => ⟨ht.1, ht.2.trans (congrArg some ?_)⟩
    · have := Nat.div_mul_le_self p bsize
      omega
    · apply List.ext_getElem
      · simp only [List.length_map, List.length_range, List.length_take, List.length_drop, length_contents]
        split at hm <;> omega
      · intro j hj hj'
        rw [List.getElem_map, List.getElem_range, List.getElem_take, List.getElem_drop, getElem_contents]

/-! ## Writing -/

/-- The data of a file is written to one of its blocks. -/
lemma Busy.writeData {s' : Fs} {T' : Finset Nat} {a n : Nat} {data : Block} (h : Busy s₀ T K v N o I S s)
    (hown : o a = some (i, n)) (hn : n ≠ maxFile)
    (h' : Held s₀ T' (fun b => Fixed K N o b ∨ b = a) (update v a data) I s') :
    Busy s₀ T' K (update v a data) N o I S s' := by
  have hdata := (h.owned.data hown).1
  refine ⟨⟨h'.toAt.weaken fun b hb => ⟨.inl hb, rfl⟩, h.owned.congr (fun b hb => ?_) fun b j hb => ?_,
    h.nodes.congr fun j hj => ?_⟩, h'.toLogs⟩
  · have hlt := bblock_lt hb
    unfold bitOf
    rw [update_of_ne (by omega)]
  · refine update_of_ne ?_ ..
    rintro rfl
    rw [hown] at hb
    exact hn (Prod.mk.inj (Option.some.inj hb)).2
  · have hlt := iblock_lt hj
    have hle : bmapstart ≤ dataStart := Nat.le_add_right _ _
    exact update_of_ne (by omega) ..

/-- The `r` bytes of inode `i` from `off` on are those of `f`, and all else is as it was. -/
structure Wrote (i : Nat) (K : Nat → Bool) (off r : Nat) (f : Nat → UInt8) (v : Nat → Block)
    (N : Nat → Dinode) (o : Nat → Option (Nat × Nat)) (v' : Nat → Block) (N' : Nat → Dinode)
    (o' : Nat → Option (Nat × Nat)) : Prop where
  others : Others i v N o v' N' o'
  fields : N' i = { N i with addrs := (N' i).addrs }
  own : ∀ b m, o b = some (i, m) → o' b = some (i, m)
  byte : K (N i).type = true → ∀ p < maxFile * bsize, fileByte v' (N' i) p =
    if off ≤ p ∧ p < off + r then f (p - off) else fileByte v (N i) p
  present : ∀ p, off ≤ p → p < off + r → slotAddr v' (N' i) (p / bsize) ≠ 0

section

variable {off m r : Nat} {f : Nat → UInt8}

omit [Geometry] in
lemma Wrote.type (h : Wrote i K off r f v N o v' N' o') : (N' i).type = (N i).type := by rw [h.fields]

/-- The blocks that a file has stay in their places. -/
lemma slot_of_own (hown : Owned v N o ∅) (hown' : Owned v' N' o' ∅) (hi : i < ninodes)
    (ht : (N i).type ≠ 0) (hkeep : ∀ b m, o b = some (i, m) → o' b = some (i, m)) {q : Nat}
    (hq : q ≤ maxFile)
    (hne : slotAddr v (N i) q ≠ 0) : slotAddr v' (N' i) q = slotAddr v (N i) q := by
  have hmem := hkeep _ q (hown.owner hi ht hq hne)
  exact (hown'.own_iff.mp hmem).2.2.2.1

/-- A block that `bmap` adds is zeroed, so it changes no byte. -/
lemma Grown.fileByte (h : Grown i v N o v' N' o') (hown : Owned v N o ∅) (hown' : Owned v' N' o' ∅)
    (hi : i < ninodes) (ht : (N i).type ≠ 0) {p : Nat} (hp : p < maxFile * bsize) :
    fileByte v' (N' i) p = Fs.fileByte v (N i) p := by
  have hq := div_lt_maxFile hp
  have hkeep : ∀ b m, o b = some (i, m) → o' b = some (i, m) := fun b m hb => (h.block b i m hb).1
  by_cases hne : slotAddr v (N i) (p / bsize) = 0
  · rw [Fs.fileByte, Fs.fileByte, if_pos hne]
    split
    · rfl
    next hne' =>
      have ht' : (N' i).type ≠ 0 := by rwa [h.fields]
      have howner := hown'.owner hi ht' (Nat.le_of_lt hq) hne'
      have hnone : o (slotAddr v' (N' i) (p / bsize)) = none := by
        cases hx : o (slotAddr v' (N' i) (p / bsize)) with
        | none => rfl
        | some x =>
          obtain ⟨j, m⟩ := x
          have hx' := (h.block _ j m hx).1
          rw [howner] at hx'
          cases hx'
          exact absurd ((hown.own_iff.mp hx).2.2.2.1.symm.trans hne) hne'
      rw [(h.fresh _ i _ hnone howner).2 (Nat.ne_of_lt hq), Block.byte_zero]
      rfl
  · refine fileByte_congr (slot_of_own hown hown' hi ht hkeep (Nat.le_of_lt hq) hne) fun _ => ?_
    exact (h.block _ i _ (hown.owner hi ht (Nat.le_of_lt hq) hne)).2 (.inr (Nat.ne_of_lt hq))

lemma Grown.wrote (h : Grown i v N o v' N' o') (hown : Owned v N o ∅) (hown' : Owned v' N' o' ∅)
    (hi : i < ninodes) (ht : (N i).type ≠ 0) : Wrote i K off 0 f v N o v' N' o' where
  others := h.others
  fields := h.fields
  own b m hb := (h.block b i m hb).1
  byte _ p hp := by rw [if_neg (by omega), h.fileByte hown hown' hi ht hp]
  present p hp hp' := by omega

/-- One range and then the next. -/
lemma Wrote.append (h : Wrote i K off m f v N o v' N' o')
    (h' : Wrote i K (off + m) r (fun j => f (m + j)) v' N' o' v'' N'' o'') (hown' : Owned v' N' o' ∅)
    (hown'' : Owned v'' N'' o'' ∅) (hi : i < ninodes) (ht : (N i).type ≠ 0)
    (hmax : off + m ≤ maxFile * bsize) : Wrote i K off (m + r) f v N o v'' N'' o'' where
  others := h.others.trans h'.others
  fields := by rw [h'.fields, h.fields]
  own b q hb := h'.own b q (h.own b q hb)
  byte hK p hp := by
    rw [h'.byte (h.type ▸ hK) p hp, h.byte hK p hp]
    by_cases hlow : p < off + m
    · rw [if_neg (by omega)]
      by_cases hoff : off ≤ p
      · rw [if_pos ⟨hoff, hlow⟩, if_pos ⟨hoff, by omega⟩]
      · rw [if_neg (by omega), if_neg (by omega)]
    · by_cases hhigh : p < off + m + r
      · rw [if_pos ⟨by omega, hhigh⟩, if_pos ⟨by omega, by omega⟩,
          show m + (p - (off + m)) = p - off by omega]
      · rw [if_neg (by omega), if_neg (by omega), if_neg (by omega)]
  present p hp hp' := by
    by_cases hlow : p < off + m
    · have hne := h.present p hp hlow
      have hq := div_lt_maxFile (p := p) (by omega)
      rw [slot_of_own hown' hown'' hi (h.type ▸ ht) h'.own (Nat.le_of_lt hq) hne]
      exact hne
    · exact h'.present p (by omega) (by omega)

/-- A block that is not the indirect one has other data. -/
lemma slotAddr_update (hown : Owned v N o ∅) {a q j : Nat} (ha : o a = some (i, q)) (hq : q ≠ maxFile)
    (hj : j < ninodes) (ht : (N j).type ≠ 0) (data : Block) (n : Nat) :
    slotAddr (update v a data) (N j) n = slotAddr v (N j) n := by
  refine slotAddr_congr rfl (fun hne => update_of_ne ?_ ..) n
  rintro rfl
  rw [hown.indirect hj ht hne] at ha
  exact hq (Prod.mk.inj (Option.some.inj ha)).2.symm

/-- The write of one round. -/
lemma wrote_block (hown : Owned v N o ∅) {a : Nat} (ha : o a = some (i, off / bsize))
    (hq : off / bsize < maxFile) (hm : m ≤ bsize - off % bsize) {data : Block}
    (hdata : K (N i).type = true → data = (v a).splice (off % bsize) ((List.range m).map f)) :
    Wrote i K off m f v N o (update v a data) N o := by
  obtain ⟨hi, ht, -, hslot, hne⟩ := hown.own_iff.mp ha
  have hslots := fun n => slotAddr_update hown ha (Nat.ne_of_lt hq) hi ht data n
  refine { others := ⟨fun _ _ => rfl, fun b j n hb hj => ⟨hb, update_of_ne ?_ ..⟩⟩
           fields := rfl, own := fun _ _ hb => hb, byte := fun hK p hp => ?_, present := fun p hp hp' => ?_ }
  · rintro rfl
    rw [ha] at hb
    exact hj (Prod.mk.inj (Option.some.inj hb)).1.symm
  · unfold fileByte
    rw [hslots]
    by_cases hblock : p / bsize = off / bsize
    · -- a byte of the block
      rw [hblock, hslot, if_neg hne, if_neg hne, update_self, hdata hK]
      have hmod := Nat.mod_lt p (show 0 < bsize by decide)
      have hp' := Nat.div_add_mod p bsize
      have hoff := Nat.div_add_mod off bsize
      rw [hblock] at hp'
      split
      next hin =>
        have hlen : ((List.range m).map f).length = m := by simp
        rw [Block.byte_splice _ hmod (by rw [hlen]; omega), show p % bsize - off % bsize = p - off by omega,
          List.getD_eq_getElem _ _ (by rw [hlen]; omega), List.getElem_map, List.getElem_range]
        exact UInt8.ofNat_toNat
      next hout =>
        rw [Block.byte_splice_of_disjoint]
        simp only [List.length_map, List.length_range]
        omega
    · rw [if_neg (c := off ≤ p ∧ p < off + m) fun hin => hblock ?_]
      · split
        · rfl
        next hne' =>
          rw [update_of_ne]
          intro hc
          have howner := hown.owner hi ht (Nat.le_of_lt (div_lt_maxFile hp)) hne'
          rw [hc, ha] at howner
          exact hblock (Prod.mk.inj (Option.some.inj howner)).2.symm
      · obtain ⟨j, rfl⟩ := Nat.exists_eq_add_of_le hin.1
        exact (position_add hm (by omega)).1
  · obtain ⟨j, rfl⟩ := Nat.exists_eq_add_of_le hp
    rw [hslots, (position_add hm (by omega)).1, hslot]
    exact hne

end

section

omit [Geometry]

/-- How many blocks a range touches. -/
def touched (off n : Nat) : Nat := if n = 0 then 0 else (off % bsize + n - 1) / bsize + 1

lemma touched_round (off : Nat) {n : Nat} (hn : n ≠ 0) :
    touched (off + min n (bsize - off % bsize)) (n - min n (bsize - off % bsize)) + 1 ≤ touched off n := by
  have hmod := Nat.mod_lt off (show 0 < bsize by decide)
  have hadd := Nat.div_add_mod off bsize
  unfold touched
  rw [if_neg hn]
  split
  · exact Nat.succ_le_succ (Nat.zero_le _)
  next hrest =>
    have hm : min n (bsize - off % bsize) = bsize - off % bsize := by omega
    have hzero : (off + (bsize - off % bsize)) % bsize = 0 := by
      rw [show off + (bsize - off % bsize) = bsize * (off / bsize + 1) by rw [Nat.mul_succ]; omega,
        Nat.mul_mod_right]
    rw [hm, hzero, show off % bsize + n - 1 = (0 + (n - (bsize - off % bsize)) - 1) + bsize by omega,
      Nat.add_div_right _ (by decide)]

/-- How many blocks a write adds to the log, but for the indirect block. -/
def writeCost (v : Nat → Block) (d : Dinode) (off n : Nat) : Nat :=
  if n ≠ 0 ∧ slotAddr v d (off / bsize) ≠ 0 then 2 * touched off n else 2 * touched off n + 1

lemma writeCost_le (v : Nat → Block) (d : Dinode) (off n : Nat) :
    writeCost v d off n ≤ 2 * touched off n + 1 := by
  unfold writeCost
  split <;> omega

lemma writeCost_pos (v : Nat → Block) (d : Dinode) (off n : Nat) : 0 < writeCost v d off n := by
  unfold writeCost
  split
  next h =>
    unfold touched
    rw [if_neg h.1]
    exact Nat.mul_pos (by decide) (Nat.succ_pos _)
  next => exact Nat.succ_pos _

end

/-- What the loop of `writei` leaves when it returns `r`. -/
def Written (s₀ : Fs) (c : Option Nat) (K : Nat → Bool) (v : Nat → Block) (N : Nat → Dinode)
    (o : Nat → Option (Nat × Nat)) (I : Nat → Inode) (S : Set Nat) (e i : Nat) (src : Src) (off n r : Nat)
    (s : Fs) : Prop :=
  r ≤ n ∧ ∃ v' N' o' T', Busy s₀ T' K v' N' o' (setCopy I e (N' i)) S s ∧
    Wrote i K off r src.byte v N o v' N' o' ∧ Within (T'.card + 1) c ∧
    (r < n → src.Readable n → Full v' ∧ slotAddr v (N i) ((off + r) / bsize) = 0)

/-- A round of the loop of `writei`, when `bmap` has found the block. -/
def writeRound (addr : Nat) (src : Src) (off n : Nat) (rest : FsM Nat) : FsM Nat := do
  let data ← bread addr
  let m := min n (bsize - off % bsize)
  let (bs, ok) := src.copyin m
  let data := data.splice (off % bsize) bs
  if ok then do
    logWrite addr data
    let tot ← rest
    pure (m + tot)
  else do
    setBuf addr data
    pure 0

lemma writeRounds_succ (e k : Nat) (src : Src) (off n : Nat) :
    writeRounds e (k + 1) src off n = if n = 0 then pure 0 else (do
      let addr ← bmap e (off / bsize)
      if addr = 0 then pure 0
      else writeRound addr src off n (writeRounds e k (src.advance (min n (bsize - off % bsize)))
        (off + min n (bsize - off % bsize)) (n - min n (bsize - off % bsize)))) := rfl

/-- `bmap` may have added a block, but nothing is written. -/
lemma Grown.written_zero {src : Src} {off n : Nat} (h : Grown i v N o v' N' o') (hown : Owned v N o ∅)
    (hi : i < ninodes) (ht : (N i).type ≠ 0)
    (hs : Busy s₀ T K v' N' o' (setCopy I e (N' i)) S s) (hc : Within (T.card + 1) c)
    (hfull : 0 < n → src.Readable n → Full v' ∧ slotAddr v (N i) (off / bsize) = 0) :
    Written s₀ c K v N o I S e i src off n 0 s :=
  ⟨Nat.zero_le n, v', N', o', T, hs, h.wrote hown hs.owned hi ht, hc, hfull⟩

/-- Nothing is written. -/
lemma Busy.written_zero (h : Busy s₀ T K v N o I S s) (he : Loaded I e) (hi : (I e).inum = i) {src : Src}
    {off n : Nat} (hc : Within (T.card + 1) c)
    (hfull : 0 < n → src.Readable n → Full v ∧ slotAddr v (N i) (off / bsize) = 0) :
    Written s₀ c K v N o I S e i src off n 0 s := by
  obtain ⟨hlt, ht, hcopy, -⟩ := h.node he hi
  refine Grown.refl.written_zero h.owned hlt ht ?_ hc hfull
  rw [setCopy_eq_self hcopy]
  exact h

/-- `bmap` has added a block before. -/
lemma Written.of_grown {src : Src} {off n r : Nat} (hgrown : Grown i v N o v' N' o') (hown : Owned v N o ∅)
    (hown' : Owned v' N' o' ∅) (hi : i < ninodes) (ht : (N i).type ≠ 0)
    (hmax : off + n ≤ maxFile * bsize)
    (h : Written s₀ c K v' N' o' (setCopy I e (N' i)) S e i src off n r s) :
    Written s₀ c K v N o I S e i src off n r s := by
  obtain ⟨hr, v₁, N₁, o₁, T₁, hbusy, hwrote, hc, hfull⟩ := h
  rw [setCopy_setCopy] at hbusy
  refine ⟨hr, v₁, N₁, o₁, T₁, hbusy, ?_, hc, fun hshort hread => ?_⟩
  · have hgrew : Wrote i K off 0 src.byte v N o v' N' o' := hgrown.wrote hown hown' hi ht
    have hafter : Wrote i K (off + 0) r (fun j => src.byte (0 + j)) v' N' o' v₁ N₁ o₁ := by simpa using hwrote
    have happend := hgrew.append hafter hown' hbusy.owned hi ht (by omega)
    rwa [Nat.zero_add] at happend
  · obtain ⟨hfull, habsent⟩ := hfull hshort hread
    refine ⟨hfull, by_contra fun hne => hne ?_⟩
    have hq := div_lt_maxFile (p := off + r) (by omega)
    have hkeep : ∀ b m, o b = some (i, m) → o' b = some (i, m) := fun b m hb => (hgrown.block b i m hb).1
    rw [← slot_of_own hown hown' hi ht hkeep (Nat.le_of_lt hq) hne]
    exact habsent

lemma writeRound_spec {src : Src} {off n a m : Nat} {rest : FsM Nat} (hm : m = min n (bsize - off % bsize))
    (he : Loaded I e) (hi : (I e).inum = i) (hmax : off + n ≤ maxFile * bsize) (hn : n ≠ 0)
    (hsrc : K (N i).type = true → src.Readable n) (ha : o a = some (i, off / bsize))
    (hc : Within ((insert a T).card + pending (N i) T + 2 * touched (off + m) (n - m) + 1) c)
    (hrest : ∀ T' v' s', Within (T'.card + pending (N i) T' + 2 * touched (off + m) (n - m) + 1) c →
      Busy s₀ T' K v' N o I S s' →
      Ends rest s' (Written s₀ c K v' N o I S e i (src.advance m) (off + m) (n - m)) (Over c s₀)) :
    Triple (Busy s₀ T K v N o I S) (writeRound a src off n rest) (Written s₀ c K v N o I S e i src off n)
      (Over c s₀) := by
  intro s hs
  obtain ⟨hlt, ht, hcopy, -⟩ := hs.node he hi
  have hsame : setCopy I e (N i) = I := setCopy_eq_self hcopy
  have hq := div_lt_maxFile (p := off) (by omega)
  have hle : m ≤ n := hm ▸ Nat.min_le_left ..
  have hblock : m ≤ bsize - off % bsize := hm ▸ Nat.min_le_right ..
  have hmono : T ⊆ insert a T := Finset.subset_insert a T
  have hcard := Finset.card_le_card hmono
  refine (bread_at a s hs.held).bind fun data t ht' => ?_
  have hdata : K (N i).type = true → data = v a := fun hK => ht'.2 (.inr ⟨i, _, ha, .inr hK⟩)
  rw [← hm]
  dsimp only
  cases hcopyin : src.copyin m with
  | mk bs ok =>
  cases ok with
  | true =>
    have hbs : K (N i).type = true → bs = (List.range m).map src.byte := by
      intro hK
      rw [Src.copyin_readable ((hsrc hK).mono hle)] at hcopyin
      exact (Prod.mk.inj hcopyin).1.symm
    have hwrote : Wrote i K off m src.byte v N o
        (update v a (data.splice (off % bsize) bs)) N o :=
      wrote_block hs.owned ha hq hblock fun hK => by rw [hdata hK, hbs hK]
    refine (logWrite_at a _ (hc.mono (by omega)) t ht'.1).bind fun _ u hu => ?_
    have hbusy := hs.writeData ha (Nat.ne_of_lt hq) hu
    have hpend := pending_mono (d := N i) hmono
    refine (hrest _ _ u (hc.mono (by omega)) hbusy).bind fun tot w hw => ends_pure ?_
    obtain ⟨htot, v', N', o', T', hbusy', hwrote', hwithin, hfull⟩ := hw
    refine ⟨by omega, v', N', o', T', hbusy', ?_, hwithin, fun hshort hread => ?_⟩
    · refine hwrote.append ?_ hbusy.owned hbusy'.owned hlt ht (by omega)
      rw [show (fun j => src.byte (m + j)) = (src.advance m).byte from
        funext fun j => (src.byte_advance m j).symm]
      exact hwrote'
    · obtain ⟨hfull, habsent⟩ := hfull (by omega) (hread.advance hle)
      rw [slotAddr_update hs.owned ha (Nat.ne_of_lt hq) hlt ht, Nat.add_assoc] at habsent
      exact ⟨hfull, habsent⟩
  | false =>
    -- the data of the block is not in order, so nothing is known of it before or after
    have hnot : ¬ src.Readable n := by
      intro hread
      rw [Src.copyin_readable (hread.mono hle)] at hcopyin
      cases hcopyin
    have hfixed : ¬ Fixed K N o a := by
      rintro (hlow | ⟨j, q, hown, hj⟩)
      · have := (hs.owned.data ha).1
        omega
      · rw [ha] at hown
        cases hown
        rcases hj with hj | hK
        · omega
        · exact hnot (hsrc hK)
    refine (setBuf_at _ hfixed t ht'.1).bind fun _ u hu => ends_pure ?_
    exact (hs.of_held hu).written_zero he hi (hc.mono (by omega)) fun _ hread => absurd hread hnot

lemma writeRounds_spec {k : Nat} {src : Src} {off n : Nat} (hk : n ≤ k) (he : Loaded I e)
    (hi : (I e).inum = i) (hS : i ∈ S) (hmax : off + n ≤ maxFile * bsize)
    (hsrc : K (N i).type = true → src.Readable n)
    (hc : Within (T.card + pending (N i) T + writeCost v (N i) off n) c) :
    Triple (Busy s₀ T K v N o I S) (writeRounds e k src off n) (Written s₀ c K v N o I S e i src off n)
      (Over c s₀) := by
  -- by induction on the number of rounds; a round leaves a state in which the rest begins
  induction k generalizing src off n T v N o I with
  | zero =>
    obtain rfl : n = 0 := by omega
    have hpos := writeCost_pos v (N i) off 0
    exact triple_pure fun s hs => hs.written_zero he hi (hc.mono (by omega)) (by omega)
  | succ k ih =>
    intro s hs
    obtain ⟨hlt, ht, hcopy, -⟩ := hs.node he hi
    rw [writeRounds_succ]
    split
    next hn =>
      subst hn
      have hpos := writeCost_pos v (N i) off 0
      exact ends_pure (hs.written_zero he hi (hc.mono (by omega)) (by omega))
    next hn =>
      have hq := div_lt_maxFile (p := off) (by omega)
      have hround := touched_round off hn
      have hpos := round_pos off hn
      have hle := Nat.min_le_left n (bsize - off % bsize)
      generalize hm : min n (bsize - off % bsize) = m at hround hpos hle
      have hcost : ∀ v d, writeCost v d (off + m) (n - m) ≤ 2 * touched (off + m) (n - m) + 1 :=
        fun v d => writeCost_le v d _ _
      by_cases hne : slotAddr v (N i) (off / bsize) = 0
      · have hthis : writeCost v (N i) off n = 2 * touched off n + 1 := if_neg fun hc => hc.2 hne
        rw [hthis] at hc
        refine (bmap_absent he hi hS hq hne (hc.mono (by omega)) s hs).bind fun a t hmapped => ?_
        obtain ⟨v₁, N₁, o₁, T₁, hbusy, hgrown, hspent, hnew, hfull⟩ := hmapped
        have he₁ : Loaded (setCopy I e (N₁ i)) e := loaded_setCopy.mpr he
        have hi₁ : (setCopy I e (N₁ i) e).inum = i := (setCopy_ref I e (N₁ i) e).2.1.trans hi
        have hsrc₁ : K (N₁ i).type = true → src.Readable n := by
          rw [hgrown.fields]
          exact hsrc
        split
        next hzero =>
          exact ends_pure (hgrown.written_zero hs.owned hlt ht hbusy (hc.mono (by omega))
            fun _ _ => ⟨hfull hzero, hne⟩)
        next hnz =>
          obtain ⟨hown, hmem⟩ := hnew hnz
          refine (writeRound_spec hm.symm he₁ hi₁ hmax hn hsrc₁ hown ?_ (fun T' v' s' hc' hs' => ?_) t
            hbusy).mono fun r u hu => hu.of_grown hgrown hs.owned hbusy.owned hlt ht (by omega)
          · rw [Finset.insert_eq_of_mem hmem]
            exact hc.mono (by omega)
          · have hcost' := hcost v' (N₁ i)
            exact ih (by omega) he₁ hi₁ (by omega) (fun hK => (hsrc₁ hK).advance hle)
              (hc'.mono (by omega)) s' hs'
      · have hthis : writeCost v (N i) off n = 2 * touched off n := if_pos ⟨hn, hne⟩
        rw [hthis] at hc
        refine (bmap_present he hi hq hne s hs).bind fun a t hat => ?_
        obtain ⟨hbusy, rfl⟩ := hat
        rw [if_neg hne]
        have hcard := Finset.card_insert_le (slotAddr v (N i) (off / bsize)) T
        refine writeRound_spec hm.symm he hi hmax hn hsrc (hs.owned.owner hlt ht (Nat.le_of_lt hq) hne)
          (hc.mono (by omega)) (fun T' v' s' hc' hs' => ?_) t hbusy
        have hcost' := hcost v' (N i)
        exact ih (by omega) he hi (by omega) (fun hK => (hsrc hK).advance hle) (hc'.mono (by omega)) s' hs'

/-! ## Inodes -/

/-- The fields of an inode other than its blocks change in memory. -/
lemma modifyCopy_spec {g : Dinode → Dinode} {E : Stop → Prop} (he : Loaded I e) (hi : (I e).inum = i)
    (hS : i ∈ S) (hfits : Fits (g (N i))) (htype : (g (N i)).type = (N i).type)
    (haddrs : (g (N i)).addrs = (N i).addrs) :
    Triple (Busy s₀ T K v N o I S) (modifyCopy e g)
      (fun _ => Busy s₀ T K v (update N i (g (N i))) o (setCopy I e (g (N i))) S) E := by
  intro s hs
  obtain ⟨hlt, ht, hcopy, -⟩ := hs.node he hi
  refine (modifyCopy_at e g s hs.held).mono fun _ t hat => ⟨⟨?_, hs.owned.setFields htype haddrs, ?_⟩,
    hat.toLogs⟩
  · rw [hcopy] at hat
    refine hat.toAt.weaken fun b hb => ⟨hb.imp_right ?_, rfl⟩
    rintro ⟨j, m, hown, hj⟩
    refine ⟨j, m, hown, hj.imp_right fun hK => ?_⟩
    by_cases hji : j = i
    · subst hji
      rwa [update_self, htype] at hK
    · rwa [update_of_ne hji] at hK
  · have hset := hs.nodes.setCopy he (hi ▸ hS) hfits (by rwa [htype])
    rwa [hi] at hset

/-- The block of an inode after `iupdate`. -/
def storeNode (v : Nat → Block) (i : Nat) (d : Dinode) : Nat → Block :=
  update v (iblock i) (writeDinode (v (iblock i)) (dinodeOff i) d)

lemma storeNode_of_ge {b : Nat} (hi : i < ninodes) (hb : bmapstart ≤ b) :
    storeNode v i d b = v b := by
  have hlt := iblock_lt hi
  exact update_of_ne (by omega) ..

lemma bitOf_storeNode (hi : i < ninodes) (b : Nat) :
    bitOf (storeNode v i d) b = bitOf v b := by
  unfold bitOf
  rw [storeNode_of_ge hi (bblock_ge b)]

lemma readDinode_storeNode_self (hd : Fits d) :
    readDinode (storeNode v i d (iblock i)) (dinodeOff i) = d := by
  rw [storeNode, update_self]
  exact readDinode_writeDinode _ hd (dinodeOff_le i)

lemma readDinode_storeNode_other {j : Nat} (hj : j ≠ i) :
    readDinode (storeNode v i d (iblock j)) (dinodeOff j) = readDinode (v (iblock j)) (dinodeOff j) :=
  readDinode_update_other v d hj

lemma Owned.storeNode {L : Set Nat} (h : Owned v N o L) (hi : i < ninodes) (d : Dinode) :
    Owned (storeNode v i d) N o L :=
  h.congr (fun b _ => bitOf_storeNode hi b) fun _ _ hb => storeNode_of_ge hi
    (Nat.le_trans (Nat.le_add_right _ _) (h.data hb).1)

/-- The inode on the disk is again the one in memory. -/
lemma iupdate_spec (he : Loaded I e) (hi : (I e).inum = i) (hc : Within (T.card + 1) c) :
    Triple (Busy s₀ T K v N o I S) (iupdate e)
      (fun _ => Busy s₀ (insert (iblock i) T) K (storeNode v i (N i)) N o I (S \ {i})) (Over c s₀) := by
  intro s hs
  obtain ⟨hlt, ht, hcopy, hfits⟩ := hs.node he hi
  have hlow : iblock i < dataStart :=
    Nat.lt_of_lt_of_le (iblock_lt hlt) (Nat.le_add_right _ _)
  refine getInode_bind hs.at_.itable ?_
  rw [hi, hcopy]
  refine (bread_at _ s hs.held).bind fun data t hat => ?_
  rw [hat.2 (.inl hlow)]
  refine (logWrite_at _ _ hc t hat.1).mono fun _ u hu =>
    ⟨⟨hu.toAt.weaken fun b hb => ⟨.inl hb, rfl⟩, hs.owned.storeNode hlt (N i), ?_⟩, hu.toLogs⟩
  exact { hs.nodes with
    disk := fun j hj hn => by
      by_cases hji : j = i
      · subst hji
        exact readDinode_storeNode_self hfits
      · rw [readDinode_storeNode_other hji]
        exact hs.nodes.disk j hj fun hmem => hn ⟨hmem, hji⟩ }

/-! ## The whole of `writei` -/

section

omit [Geometry]

/-- A list with `bs` in place of what is at `off`. -/
def overwrite (l : List UInt8) (off : Nat) (bs : List UInt8) : List UInt8 :=
  l.take off ++ bs ++ l.drop (off + bs.length)

lemma length_overwrite {l bs : List UInt8} {off : Nat} (h : off ≤ l.length) :
    (overwrite l off bs).length = max l.length (off + bs.length) := by
  simp only [overwrite, List.length_append, List.length_take, List.length_drop]
  omega

lemma getD_overwrite {l : List UInt8} {off : Nat} (bs : List UInt8) (h : off ≤ l.length) (p : Nat) :
    (overwrite l off bs).getD p 0 =
      if off ≤ p ∧ p < off + bs.length then bs.getD (p - off) 0 else l.getD p 0 := by
  have htake : (l.take off).length = off := by rw [List.length_take]; omega
  unfold overwrite
  simp only [List.getD_eq_getElem?_getD]
  rcases Nat.lt_or_ge p off with hlow | hge
  · rw [if_neg (by omega), List.append_assoc, List.getElem?_append_left (by omega),
      List.getElem?_take_of_lt hlow]
  · rcases Nat.lt_or_ge p (off + bs.length) with hin | hout
    · rw [if_pos ⟨hge, hin⟩, List.append_assoc, List.getElem?_append_right (by omega), htake,
        List.getElem?_append_left (by omega)]
    · rw [if_neg (by omega), List.getElem?_append_right (by rw [List.length_append]; omega),
        List.length_append, htake, List.getElem?_drop, show off + bs.length + (p - (off + bs.length)) = p by omega]

lemma overwrite_nil (l : List UInt8) (off : Nat) : overwrite l off [] = l := by
  simp [overwrite]

/-- One piece and then the next. -/
lemma overwrite_append {l : List UInt8} {off : Nat} (bs bs' : List UInt8) (h : off ≤ l.length) :
    overwrite (overwrite l off bs) (off + bs.length) bs' = overwrite l off (bs ++ bs') := by
  have hlen : (l.take off ++ bs).length = off + bs.length := by
    rw [List.length_append, List.length_take, Nat.min_eq_left h]
  have hdrop : (l.take off ++ bs ++ l.drop (off + bs.length)).drop (off + bs.length + bs'.length) =
      l.drop (off + (bs ++ bs').length) := by
    rw [List.drop_append, hlen, List.drop_of_length_le (by omega), List.nil_append, List.drop_drop,
      List.length_append]
    congr 1
    omega
  unfold overwrite
  rw [hdrop, List.take_left' hlen, List.append_assoc (l.take off) bs bs']

end

/-- The first `r` bytes of `f` are stored at `off` of inode `i`. -/
structure Stored (i : Nat) (K : Nat → Bool) (off r : Nat) (f : Nat → UInt8) (v : Nat → Block)
    (N : Nat → Dinode) (o : Nat → Option (Nat × Nat)) (v' : Nat → Block) (N' : Nat → Dinode)
    (o' : Nat → Option (Nat × Nat)) : Prop where
  others : Others i v N o v' N' o'
  fields : N' i = { N i with size := max (N i).size (off + r), addrs := (N' i).addrs }
  contents : K (N i).type = true →
    contents v' (N' i) = overwrite (Fs.contents v (N i)) off ((List.range r).map f)
  dense : Dense v' (N' i)

section

variable {off r : Nat} {f : Nat → UInt8}

/-- Nothing but the blocks of data matters for the places and the bytes of a file. -/
lemma Owned.slotAddr_eq {L : Set Nat} (h : Owned v N o L) (hi : i < ninodes)
    (ht : (N i).type ≠ 0) (hv : ∀ b, dataStart ≤ b → v' b = v b) (haddrs : d.addrs = (N i).addrs)
    (n : Nat) :
    slotAddr v' d n = slotAddr v (N i) n :=
  slotAddr_congr haddrs (fun hne => hv _ (h.data (h.indirect hi ht hne)).1) n

lemma Owned.fileByte_eq {L : Set Nat} (h : Owned v N o L) (hi : i < ninodes)
    (ht : (N i).type ≠ 0) (hv : ∀ b, dataStart ≤ b → v' b = v b) (haddrs : d.addrs = (N i).addrs) {p : Nat}
    (hp : p < maxFile * bsize) : fileByte v' d p = fileByte v (N i) p :=
  fileByte_congr (h.slotAddr_eq hi ht hv haddrs _) fun hne =>
    hv _ (h.data (h.owner hi ht (Nat.le_of_lt (div_lt_maxFile hp)) hne)).1

/-- The size is set and the inode is written. -/
lemma Wrote.stored (h : Wrote i K off r f v N o v' N' o') (hown : Owned v N o ∅) (hown' : Owned v' N' o' ∅)
    (hi : i < ninodes) (ht : (N i).type ≠ 0) (hd : Dense v (N i)) (hoff : off ≤ (N i).size)
    (hmax : off + r ≤ maxFile * bsize) (hdsize : d.size = max (N i).size (off + r))
    (hfields : d = { N' i with size := d.size }) :
    Stored i K off r f v N o (storeNode v' i d) (update N' i d) o' := by
  have hsize := hd.size
  have haddrs : d.addrs = (N' i).addrs := by rw [hfields]
  have ht' : (N' i).type ≠ 0 := h.type ▸ ht
  have hstore : ∀ b, dataStart ≤ b → storeNode v' i d b = v' b := fun b hb =>
    storeNode_of_ge hi (Nat.le_trans (Nat.le_add_right _ _) hb)
  refine { others := ⟨fun j hj => ?_, fun b j m hb hj => ⟨(h.others.block b j m hb hj).1, ?_⟩⟩,
           fields := ?_, contents := fun hK => ?_, dense := ⟨?_, fun q hq => ?_⟩ }
  · rw [update_of_ne hj]
    exact h.others.node j hj
  · rw [hstore b (hown.data hb).1]
    exact (h.others.block b j m hb hj).2
  · rw [update_self, ← hdsize]
    conv_lhs => rw [hfields, h.fields]
    rw [haddrs]
  · rw [update_self]
    have hlen : ((List.range r).map f).length = r := by simp
    have hover : (overwrite (contents v (N i)) off ((List.range r).map f)).length = d.size := by
      rw [length_overwrite (by rw [length_contents]; exact hoff), length_contents, hlen, hdsize]
    refine List.ext_getElem (by rw [length_contents, hover]) fun p hp hp' => ?_
    rw [length_contents] at hp
    have hpmax : p < maxFile * bsize := by omega
    have hfits : off ≤ (contents v (N i)).length := by rw [length_contents]; exact hoff
    have hget := getD_overwrite ((List.range r).map f) hfits p
    rw [hlen, List.getD_eq_getElem _ _ hp'] at hget
    rw [hget, getElem_contents, hown'.fileByte_eq hi ht' hstore haddrs hpmax, h.byte hK p hpmax]
    split
    next hin => rw [List.getD_eq_getElem _ _ (by rw [hlen]; omega), List.getElem_map, List.getElem_range]
    next hout => rw [getD_contents (by omega)]
  · rw [update_self]
    omega
  · rw [update_self] at hq ⊢
    rw [hown'.slotAddr_eq hi ht' hstore haddrs]
    have hqmax : q < maxFile := by
      have : q * bsize < maxFile * bsize := by omega
      exact Nat.lt_of_mul_lt_mul_right this
    by_cases hlow : q * bsize < (N i).size
    · have hne := hd.present q hlow
      rw [slot_of_own hown hown' hi ht h.own (Nat.le_of_lt hqmax) hne]
      exact hne
    · have hpres := h.present (q * bsize) (by omega) (by omega)
      rwa [Nat.mul_div_cancel _ (by decide)] at hpres

end

/-- How many blocks a write of `n` bytes may add to the log: two for each block, the
inode, the indirect block, and two more as the range need not begin with a block. -/
def opBlocks (n : Nat) : Nat := 2 * ((n + bsize - 1) / bsize) + 4

omit [Geometry] in
lemma writeCost_opBlocks (hd : Dense v d) {off : Nat} (hoff : off ≤ d.size) (n : Nat) (T : Finset Nat) :
    pending d T + writeCost v d off n ≤ opBlocks n := by
  have hpend : pending d T ≤ 2 := by
    unfold pending
    split
    · exact Nat.le_refl 2
    · split <;> omega
  have hmod := Nat.div_add_mod off bsize
  unfold writeCost opBlocks touched
  split
  next hn =>
    rw [if_neg hn.1]
    unfold bsize at *
    omega
  next hn =>
    by_cases hzero : n = 0
    · rw [if_pos hzero]
      omega
    · -- the first block is not there, so it is behind the last one
      have hslot : slotAddr v d (off / bsize) = 0 := by
        by_contra hne
        exact hn ⟨hzero, hne⟩
      have halign : off % bsize = 0 := by
        by_contra hne
        refine hd.present (off / bsize) ?_ hslot
        rw [Nat.mul_comm]
        omega
      rw [if_neg hzero, halign]
      unfold bsize
      omega

/-- What `writei` leaves when it returns `r`, and not -1. -/
def WroteFile (s₀ : Fs) (c : Option Nat) (K : Nat → Bool) (v : Nat → Block) (N : Nat → Dinode)
    (o : Nat → Option (Nat × Nat)) (I : Nat → Inode) (S : Set Nat) (e i : Nat) (src : Src) (off n r : Nat)
    (s : Fs) : Prop :=
  r ≤ n ∧ ∃ v' N' o' T', Busy s₀ T' K v' N' o' (setCopy I e (N' i)) (S \ {i}) s ∧
    Stored i K off r src.byte v N o v' N' o' ∧ Within T'.card c ∧
    (r < n → src.Readable n → Full v' ∧ slotAddr v (N i) ((off + r) / bsize) = 0)

/-- The arguments that `writei` refuses. -/
def Refused (size off n : Nat) : Prop := off > size ∨ off + n ≥ 2 ^ 32 ∨ off + n > maxFile * bsize

instance (size off n : Nat) : Decidable (Refused size off n) := inferInstanceAs (Decidable (_ ∨ _ ∨ _))

lemma writei_refused {src : Src} {off n : Nat} (hr : Refused (s.itable e).copy.size off n) :
    writei e src off n s = .ok (-1, s) := by
  have hif : writei e src off n s = (if off > (s.itable e).copy.size ∨ off + n ≥ 2 ^ 32 then pure (-1)
      else if off + n > maxFile * bsize then pure (-1)
      else do
        let tot ← writeRounds e n src off n
        (if off + tot > (s.itable e).copy.size then modifyCopy e fun d => { d with size := off + tot }
          else pure ())
        iupdate e
        pure (tot : Int) : FsM Int) s := rfl
  rw [hif]
  split
  · rfl
  next hin =>
    have hbig : off + n > maxFile * bsize := by
      rcases hr with hr | hr | hr
      · exact absurd (.inl hr) hin
      · exact absurd (.inr hr) hin
      · exact hr
    rw [if_pos hbig]
    rfl

/-- The size of the file after the loop. -/
lemma writeSize_spec {off tot : Nat} {E : Stop → Prop} (he : Loaded I e) (hi : (I e).inum = i) (hS : i ∈ S)
    (hmax : off + tot ≤ maxFile * bsize) {d : Dinode}
    (hd : d = { N i with size := max (N i).size (off + tot) }) :
    Triple (Busy s₀ T K v N o I S)
      (if off + tot > (N i).size then modifyCopy e fun d => { d with size := off + tot } else pure ())
      (fun _ => Busy s₀ T K v (update N i d) o (setCopy I e d) S) E := by
  intro s hs
  obtain ⟨-, -, hcopy, hfits⟩ := hs.node he hi
  split
  next hgrow =>
    have hsize : d = { N i with size := off + tot } := by rw [hd, Nat.max_eq_right (by omega)]
    have hlt : off + tot < 2 ^ 32 := Nat.lt_of_le_of_lt hmax (by decide)
    subst hsize
    exact modifyCopy_spec (g := fun d => { d with size := off + tot }) he hi hS { hfits with size := hlt } rfl
      rfl s hs
  next hkeep =>
    have hsame : d = N i := by rw [hd, Nat.max_eq_left (by omega)]
    rw [hsame, update_eq_self, setCopy_eq_self hcopy]
    exact ends_pure hs

lemma writei_spec {src : Src} {off n : Nat} (he : Loaded I e) (hi : (I e).inum = i) (hS : i ∈ S)
    (hd : Dense v (N i)) (hr : ¬ Refused (N i).size off n) (hsrc : K (N i).type = true → src.Readable n)
    (hc : Within (T.card + opBlocks n) c) :
    Triple (Busy s₀ T K v N o I S) (writei e src off n)
      (fun r s => ∃ k : Nat, r = k ∧ WroteFile s₀ c K v N o I S e i src off n k s) (Over c s₀) := by
  intro s hs
  obtain ⟨hlt, ht, hcopy, -⟩ := hs.node he hi
  obtain ⟨hoff, hwrap, hmax⟩ : off ≤ (N i).size ∧ off + n < 2 ^ 32 ∧ off + n ≤ maxFile * bsize := by
    unfold Refused at hr
    omega
  have hcost := writeCost_opBlocks hd hoff n T
  refine getInode_bind hs.at_.itable ?_
  rw [hcopy]
  dsimp only
  rw [if_neg (by omega), if_neg (by omega)]
  refine (writeRounds_spec (Nat.le_refl n) he hi hS hmax hsrc (hc.mono (by omega)) s hs).bind
    fun tot t hwritten => ?_
  obtain ⟨htot, v', N', o', T', hbusy, hwrote, hwithin, hfull⟩ := hwritten
  have hsize : (N' i).size = (N i).size := by rw [hwrote.fields]
  rw [← hsize]
  refine (writeSize_spec (loaded_setCopy.mpr he) ((setCopy_ref I e (N' i) e).2.1.trans hi) hS (by omega) rfl t
    hbusy).bind fun _ u hu => ?_
  rw [setCopy_setCopy] at hu
  have he' : Loaded (setCopy I e { N' i with size := max (N' i).size (off + tot) }) e := loaded_setCopy.mpr he
  refine (iupdate_spec he' ((setCopy_ref I e _ e).2.1.trans hi) hwithin u hu).bind fun _ w hw => ends_pure ?_
  rw [update_self] at hw
  have hcard := Finset.card_insert_le (iblock i) T'
  refine ⟨tot, rfl, htot, _, _, o', _, by rw [update_self]; exact hw,
    hwrote.stored hs.owned hbusy.owned hlt ht hd hoff (by omega) (by rw [hsize]) rfl, hwithin.mono hcard,
    fun hshort hread => ⟨fun b hb => ?_, (hfull hshort hread).2⟩⟩
  rw [bitOf_storeNode hlt]
  exact (hfull hshort hread).1 b hb

end Xv6.Fs
