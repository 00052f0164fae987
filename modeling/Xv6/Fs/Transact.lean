import Xv6.Fs.SharedOffset
import Xv6.Fs.Trunc

/-!
# Runs of transactions

`kernel/fs.c` and `kernel/log.c` say how an inode is to be used: between `ilock` and
`iunlock`, and these between `begin_op` and `end_op`. Here transactions of this form
follow one another, each on some open inode, which it reads, writes or truncates
(`transactions`).

On the abstract level there are no addresses, no log and no locks. A volume is its
files, each a list of bytes with its metadata, and the number of its free blocks.
`InodeOp.Effect` is what an operation may do to a file and to the free space, and the
runs of that level are `Behaves`.
-/

namespace Xv6.Fs

open Finset Function Lib
open Xv6.Inode (Dinode ninode)

/-! ## Operations -/

/-- What a transaction does with the inode that it has locked. -/
inductive InodeOp where
  | read (dst : Dst) (off n : Nat)
  | write (src : Src) (off n : Nat)
  | trunc

/-- What the operation returns. -/
inductive Reply where
  | bytes (bs : Option (List UInt8))
  | count (r : Int)
  | done

/-- The memory of the caller can be used, and a write is not longer than those of `filewrite`. -/
def InodeOp.Allowed : InodeOp → Prop
  | read dst _ n => dst.Writable n
  | write src _ n => src.Readable n ∧ n ≤ writeMax
  | trunc => True

/-- What an operation may do to a file, where `m` blocks are free before and `m'` after it. A
write stops short only of a full disk. -/
def InodeOp.Effect : InodeOp → Node → Nat → Reply → Node → Nat → Prop
  | read _ off n, x, m, r, x', m' => x' = x ∧ m' = m ∧
      r = .bytes (some (if off > x.bytes.length ∨ off + n ≥ 2 ^ 32 then [] else (x.bytes.drop off).take n))
  | write src off n, x, m, r, x', m' =>
      if Refused x.bytes.length off n then x' = x ∧ m' = m ∧ r = .count (-1)
      else ∃ k : Nat, k ≤ n ∧ (k < n → m' = 0) ∧ r = .count k ∧
        x' = { x with bytes := overwrite x.bytes off (src.bytes k) }
  | trunc, x, m, r, x', m' => x' = { x with bytes := [] } ∧ m + (x.bytes.length + bsize - 1) / bsize ≤ m' ∧
      r = .done

structure Volume where
  files : Nat → Option Node
  free : Nat

/-- Runs on the level of files. `num` is the table of open inodes. -/
inductive Behaves (num : Nat → Nat) : Volume → List (Nat × InodeOp) → List Reply → Volume → Prop where
  | nil {V : Volume} : Behaves num V [] [] V
  | cons {V V' : Volume} {e m : Nat} {op : InodeOp} {r : Reply} {x x' : Node} {l : List (Nat × InodeOp)}
      {rs : List Reply} (hx : V.files (num e) = some x) (hop : op.Effect x V.free r x' m)
      (hl : Behaves num ⟨update V.files (num e) (some x'), m⟩ l rs V') :
      Behaves num V ((e, op) :: l) (r :: rs) V'

section

variable [Superblock]

def InodeOp.body (e : Nat) : InodeOp → FsM Reply
  | read dst off n => return .bytes (← readi e dst off n)
  | write src off n => return .count (← writei e src off n)
  | trunc => do
    itrunc e
    pure .done

def transaction (e : Nat) (op : InodeOp) : FsM Reply := do
  beginOp
  ilock e
  let r ← op.body e
  iunlock e
  endOp
  pure r

def transactions : List (Nat × InodeOp) → FsM (List Reply)
  | [] => pure []
  | (e, op) :: l => do
    let r ← transaction e op
    let rs ← transactions l
    pure (r :: rs)

/-- The number of data blocks that the bitmap says are free. -/
def freeCount (v : Nat → Block) : Nat :=
  ((Finset.Ico dataStart Superblock.size).filter fun b => bitOf v b = false).card

def volume (s : Fs) : Volume := ⟨s.files, freeCount s.view⟩

/-- Nobody is in a transaction, no inode is locked, and the open inodes are allocated. -/
structure Quiet (s : Fs) : Prop where
  consistent : Consistent s
  noHoles : ∀ i, s.files i ≠ none → NoHoles s i
  lh : s.lh = []
  outstanding : s.outstanding = 0
  entry : ∀ e < ninode, 0 < (s.itable e).ref → (s.itable e).lock = false ∧ s.files (s.itable e).inum ≠ none

/-- The operation `op` has been done on inode `i`. -/
structure Did (i : Nat) (op : InodeOp) (v : Nat → Block) (N : Nat → Dinode) (o : Nat → Option (Nat × Nat))
    (r : Reply) (v' : Nat → Block) (N' : Nat → Dinode) (o' : Nat → Option (Nat × Nat)) : Prop where
  others : Others i v N o v' N' o'
  effect : op.Effect (nodeOf v (N i)) (freeCount v) r (nodeOf v' (N' i)) (freeCount v')
  dense : Dense v' (N' i)
  type : (N' i).type = (N i).type

end

variable {v : Nat → Block} {N : Nat → Dinode} {o : Nat → Option (Nat × Nat)} {I : Nat → Inode}
variable {s s₀ : Fs} {i e : Nat} {op : InodeOp}
variable [Geometry]

/-! ## Free blocks -/

lemma freeCount_congr {v' : Nat → Block} (h : ∀ b < Superblock.size, bitOf v' b = bitOf v b) :
    freeCount v' = freeCount v := by
  refine congrArg card (filter_congr fun b hb => ?_)
  rw [h b (mem_Ico.mp hb).2]

lemma Full.freeCount (h : Full v) : freeCount v = 0 := by
  refine card_eq_zero.mpr (filter_eq_empty_iff.mpr fun b hb => ?_)
  rw [h b (mem_Ico.mp hb).2]
  simp

lemma Owned.length_blocksOf {L : Set Nat} (h : Owned v N o L) (hi : i < ninodes)
    (ht : (N i).type ≠ 0) :
    freeCount v + (blocksOf v (N i)).length ≤ freeCount (freeBlocks v (blocksOf v (N i))) := by
  have hfree := h.freeable hi ht
  rw [← List.toFinset_card_of_nodup hfree.nodup, freeCount, ← card_union_of_disjoint]
  · refine card_le_card fun b hb => ?_
    rw [mem_union, mem_filter, List.mem_toFinset] at hb
    rw [mem_filter, bitOf_freeBlocks]
    rcases hb with ⟨hrange, hbit⟩ | hmem
    · exact ⟨hrange, by rw [hbit, Bool.false_and]⟩
    · obtain ⟨m, hown⟩ := (h.mem_blocksOf hi ht).mp hmem
      exact ⟨mem_Ico.mpr (h.data hown), by simp [hmem]⟩
  · refine disjoint_left.mpr fun b hb hmem => ?_
    have hbit := hfree.bit b (List.mem_toFinset.mp hmem)
    rw [(mem_filter.mp hb).2] at hbit
    cases hbit

omit [Geometry] in
/-- A file without holes has a block for every part of its contents. -/
lemma Dense.length_blocksOf {d : Dinode} (h : Dense v d) :
    (d.size + bsize - 1) / bsize ≤ (blocksOf v d).length := by
  obtain ⟨k, hk⟩ : ∃ k, maxFile + 1 = (d.size + bsize - 1) / bsize + k := by
    refine Nat.exists_eq_add_of_le ?_
    have hsize := h.size
    unfold bsize at *
    omega
  have hall : (blocksFrom (slotAddr v d) 0 ((d.size + bsize - 1) / bsize)).length =
      (d.size + bsize - 1) / bsize := by
    rw [blocksFrom, List.filter_eq_self.mpr fun b hb => ?_, List.length_map, List.length_range']
    obtain ⟨q, hq, rfl⟩ := List.mem_map.mp hb
    have hlt := (List.mem_range'_1.mp hq).2
    refine decide_eq_true (h.present q ?_)
    unfold bsize at *
    omega
  rw [blocksOf, hk, blocksFrom_add, List.length_append, hall]
  exact Nat.le_add_right _ _

/-! ## One transaction -/

lemma InodeOp.body_spec (htrunc : truncBlocks ≤ maxOpBlocks) (he : Loaded I e) (hi : (I e).inum = i)
    (hd : Dense v (N i)) (hop : op.Allowed) :
    Triple (Busy s₀ ∅ allData v N o I ∅) (op.body e)
      (fun r s => ∃ v' N' o' T', Busy s₀ T' allData v' N' o' (setCopy I e (N' i)) ∅ s ∧
        Did i op v N o r v' N' o')
      (Over (some maxOpBlocks) s₀) := by
  intro s hs
  obtain ⟨hlt, ht, hcopy, -⟩ := hs.node he hi
  cases op with
  | read dst off n =>
    refine (readi_spec he hi rfl hd hop s hs).bind fun r t ⟨hbusy, hr⟩ => ends_pure ?_
    refine ⟨v, N, o, ∅, (setCopy_eq_self hcopy).symm ▸ hbusy, .refl, ⟨rfl, rfl, ?_⟩, hd, rfl⟩
    rw [hr, length_nodeOf]
    rfl
  | write src off n =>
    by_cases hr : Refused (N i).size off n
    · have hself : writei e src off n s = .ok (-1, s) := writei_refused (by rwa [hs.at_.itable, hcopy])
      refine ends_bind_of_eq hself (ends_pure ?_)
      refine ⟨v, N, o, ∅, (setCopy_eq_self hcopy).symm ▸ hs, .refl, ?_, hd, rfl⟩
      rw [Effect, length_nodeOf, if_pos hr]
      exact ⟨rfl, rfl, rfl⟩
    · have hcost : (∅ : Finset Nat).card + opBlocks n ≤ maxOpBlocks := by
        rw [card_empty, Nat.zero_add]
        exact opBlocks_le hop.2
      refine (writei_spec he hi (Set.mem_singleton i) hd hr (fun _ => hop.1) (within_some.mpr hcost) s
        (hs.mono (Set.empty_subset _))).bind fun r t hwrote => ends_pure ?_
      obtain ⟨k, rfl, hk, v', N', o', T', hbusy, hstored, -, hfull⟩ := hwrote
      rw [Set.sdiff_self] at hbusy
      refine ⟨v', N', o', T', hbusy, hstored.others, ?_, hstored.dense, by rw [hstored.fields]⟩
      rw [Effect, length_nodeOf, if_neg hr]
      refine ⟨k, hk, fun hshort => (hfull hshort hop.1).1.freeCount, rfl, ?_⟩
      unfold nodeOf
      rw [hstored.contents rfl, hstored.fields]
      rfl
  | trunc =>
    have hcost : ((∅ : Finset Nat) ∪ bitmapBlocks).card + 1 ≤ maxOpBlocks := by
      rw [empty_union, bitmapBlocks, Nat.card_Ico, dataStart, Nat.add_sub_cancel_left]
      exact htrunc
    refine (itrunc_spec he hi (Set.mem_singleton i) (within_some.mpr hcost) s
      (hs.mono (Set.empty_subset _))).bind fun _ t ⟨T', _, hbusy⟩ => ends_pure ?_
    rw [Set.sdiff_self] at hbusy
    refine ⟨_, update N i (emptied (N i)), _, T', by rwa [update_self],
      hs.owned.others_release hlt ht, ?_, ?_, ?_⟩
    · have hbits : freeCount (storeNode (freeBlocks v (blocksOf v (N i))) i (emptied (N i))) =
          freeCount (freeBlocks v (blocksOf v (N i))) := freeCount_congr fun b _ => bitOf_storeNode hlt b
      have hmore := hs.owned.length_blocksOf hlt ht
      have hblocks := hd.length_blocksOf
      rw [update_self, hbits]
      refine ⟨rfl, ?_, rfl⟩
      rw [length_nodeOf]
      omega
    · rw [update_self]
      exact dense_emptied _ _
    · rw [update_self]
      rfl

lemma transaction_aside (e : Nat) (op : InodeOp) : Aside (transaction e op) := by
  refine beginOp_aside.bind fun _ => (ilock_aside e).bind fun _ => Keeps.bind ?_ fun r =>
    (iunlock_aside e).bind fun _ => endOp_aside.bind fun _ => keeps_pure r
  cases op with
  | read dst off n => exact (readi_aside e dst off n).bind fun _ => keeps_pure _
  | write src off n => exact (writei_aside e src off n).bind fun _ => keeps_pure _
  | trunc => exact (itrunc_aside e).bind fun _ => keeps_pure _

lemma Did.files_eq {v' : Nat → Block} {N' : Nat → Dinode} {o' : Nat → Option (Nat × Nat)} {r : Reply}
    (h : Did i op v N o r v' N' o') (hown : Owned v N o ∅) (hi : i < ninodes) (ht : (N i).type ≠ 0) :
    fileMap v' N' = update (fileMap v N) i (some (nodeOf v' (N' i))) := by
  funext j
  by_cases hj : j = i
  · subst hj
    rw [update_self, fileMap, if_pos ⟨hi, h.type.symm ▸ ht⟩]
  · rw [update_of_ne hj]
    exact fileMap_others h.others hown hj

/-- The state after a transaction is like that before it. -/
lemma Did.quiet {v' : Nat → Block} {N' : Nat → Dinode} {o' : Nat → Option (Nat × Nat)} {r : Reply} {s' : Fs}
    (hdid : Did i op s.view s.dinode o r v' N' o') (h : Quiet s) (hown : Owned s.view s.dinode o ∅)
    (hfile : s.files i ≠ none) (hsys : Sys allData v' N' o' I ∅ s') (hlh : s'.lh = [])
    (hout : s'.outstanding = 0)
    (hother : ∀ e' ≠ e, I e' = s.itable e') (hlock : (I e).lock = false) (hinum : (I e).inum = i) :
    Quiet s' ∧ ∃ x x', s.files i = some x ∧ op.Effect x s.volume.free r x' s'.volume.free ∧
      s'.files = update s.files i (some x') := by
  obtain ⟨hlt, htype⟩ := files_ne_none.mp hfile
  have hfiles : s'.files = update s.files i (some (nodeOf v' (N' i))) :=
    hsys.files_eq.trans (hdid.files_eq hown hlt htype)
  have hsome : ∀ j, s'.files j ≠ none ↔ s.files j ≠ none := by
    intro j
    rw [hfiles]
    by_cases hj : j = i
    · subst hj
      simp [hfile]
    · rw [update_of_ne hj]
  have hfree : freeCount s'.view = freeCount v' := freeCount_congr fun b hb => by
    rw [bitOf, hsys.at_.view _ (fixed_bblock hb)]
    rfl
  refine ⟨⟨⟨o', hsys.sound⟩, fun j hj => ?_, hlh, hout, fun e' he' href => ?_⟩, _, _,
    if_pos ⟨hlt, htype⟩, ?_, hfiles⟩
  · have hj' := (hsome j).mp hj
    obtain ⟨hjlt, hjt⟩ := files_ne_none.mp hj'
    by_cases hji : j = i
    · subst hji
      exact (hsys.noHoles hlt (hdid.type.symm ▸ htype)).mpr hdid.dense
    · refine (hsys.noHoles hjlt (by rwa [hdid.others.node j hji])).mpr ?_
      exact hdid.others.dense hown hji hjlt hjt (h.noHoles j hj')
  · rw [hsys.at_.itable] at href ⊢
    rw [hsome]
    by_cases hee : e' = e
    · subst hee
      exact ⟨hlock, hinum.symm ▸ hfile⟩
    · rw [hother e' hee] at href ⊢
      exact h.entry e' he' href
  · show op.Effect _ (freeCount s.view) r _ (freeCount s'.view)
    rw [hfree]
    exact hdid.effect

/-- A transaction does what its operation does to the file, and leaves a quiet system. -/
lemma transaction_spec (hlog : maxOpBlocks ≤ logCap) (htrunc : truncBlocks ≤ maxOpBlocks) (h : Quiet s)
    (he : e < ninode) (href : 0 < (s.itable e).ref) (hop : op.Allowed) :
    Ends (transaction e op) s (fun r s' => Quiet s' ∧ ∃ x x', s.files (s.itable e).inum = some x ∧
      op.Effect x s.volume.free r x' s'.volume.free ∧ s'.files = update s.files (s.itable e).inum (some x'))
      (fun _ => False) := by
  obtain ⟨o, hsys⟩ := h.consistent
  obtain ⟨hlock, hfile⟩ := h.entry e he href
  generalize hi : (s.itable e).inum = i at hfile ⊢
  obtain ⟨hlt, htype⟩ := files_ne_none.mp hfile
  refine ends_bind_of_eq (beginOp_eq ?_) ?_
  · rw [h.lh, h.outstanding]
    decide
  generalize hs₁ : ({ s with outstanding := s.outstanding + 1, logged := [] :: s.logged } : Fs) = s₁
  have hsys₁ : Sys allData s.view s.dinode o s.itable ∅ s₁ := hs₁ ▸ hsys.same rfl rfl rfl rfl
  have hlh : s₁.lh.length = 0 := by rw [← hs₁]; exact congrArg List.length h.lh
  have hout : s₁.outstanding = 1 := by rw [← hs₁]; exact congrArg (· + 1) h.outstanding
  have hacquire := ilock_spec he href hi hlt hlock (fun _ => Set.notMem_empty i) s₁ hsys₁.busy
  refine (hacquire.errors fun err herr => htype herr.2).bind fun _ t ⟨_, ht⟩ => ?_
  generalize hI : update s.itable e _ = I at ht
  have hIe : I e = { s.itable e with lock := true, valid := true, copy := s.dinode i } := by
    rw [← hI, update_self]
  have hloaded : Loaded I e := ⟨he, by rw [hIe]; exact href, by rw [hIe]⟩
  have hbody := InodeOp.body_spec htrunc hloaded (by rw [hIe]; exact hi) (h.noHoles i hfile) hop t ht
  refine (hbody.errors fun err herr => herr.elim (by omega) (by omega)).bind
    fun r u ⟨v', N', o', T', hu, hdid⟩ => ?_
  have hlocked : (setCopy I e (N' i) e).lock = true := by rw [setCopy_self, hIe]
  refine (iunlock_spec he (loaded_setCopy.mpr hloaded).ref hlocked u hu).bind fun _ w hw => ?_
  have hend := (endOp_sys (E := fun _ => False) w hw.toSys).also
    (endOp_quiet (E := fun _ => False) (hw.outstanding.trans hout))
  refine hend.bind fun _ y ⟨hy, hlh', hzero⟩ => ends_pure ?_
  refine hdid.quiet (e := e) h hsys.owned hfile hy hlh' hzero (fun e' hne => ?_) ?_ ?_
  · rw [update_of_ne hne, setCopy_other hne, ← hI, update_of_ne hne]
  · rw [update_self]
  · rw [update_self, setCopy_self, hIe]
    exact hi

/-! ## Runs -/

/-- Where an operation fits into the log, and the blocks of the bitmap into an operation: from a
quiet state every sequence of transactions returns, and does to the files what a run on the level
of files does. -/
theorem transactions_refine (hlog : maxOpBlocks ≤ logCap) (htrunc : truncBlocks ≤ maxOpBlocks)
    (l : List (Nat × InodeOp)) (h : Quiet s)
    (hl : ∀ y ∈ l, y.1 < ninode ∧ 0 < (s.itable y.1).ref ∧ y.2.Allowed) :
    Returns (transactions l) s fun rs s' =>
      Quiet s' ∧ Behaves (fun e => (s.itable e).inum) s.volume l rs s'.volume := by
  induction l generalizing s with
  | nil => exact returns_pure ⟨h, .nil⟩
  | cons y l ih =>
    obtain ⟨e, op⟩ := y
    obtain ⟨⟨he, href, hop⟩, hrest⟩ := List.forall_mem_cons.mp hl
    have hfirst := (transaction_spec hlog htrunc h he href hop).also (transaction_aside e op s)
    refine hfirst.returns.bind fun r t ⟨⟨ht, x, x', hx, heffect, hfiles⟩, hsame⟩ => ?_
    refine (ih ht fun y hy => ?_).bind fun rs s' ⟨hs', hbehaves⟩ => returns_pure ⟨hs', ?_⟩
    · rw [hsame.ref]
      exact hrest y hy
    · have hvolume : t.volume = ⟨update s.files (s.itable e).inum (some x'), t.volume.free⟩ :=
        congrArg (Volume.mk · t.volume.free) hfiles
      simp only [hsame.inum] at hbehaves
      rw [hvolume] at hbehaves
      exact .cons hx heffect hbehaves

omit [Geometry] in
lemma sample_quiet : letI := roomy; Quiet sample := by
  let := roomy
  have hroot : sample.dinode rootIno = rootNode := sample_dinode (by decide)
  have hfile : sample.dinode 2 = fileNode := sample_dinode (by decide)
  refine ⟨sample_consistent, fun i hi => ?_, rfl, rfl, fun e _ href => ?_⟩
  · obtain ⟨hlt, ht⟩ := files_ne_none.mp hi
    unfold NoHoles
    rcases sample_type hlt ht with rfl | rfl
    · rw [hroot]
      refine ⟨by decide, fun q hq => ?_⟩
      have hzero : q = 0 := by
        have hsize : q * 1024 < 48 := hq
        omega
      rw [slotAddr_rootNode, if_pos hzero]
      decide
    · rw [hfile]
      exact ⟨by decide, fun q hq => absurd hq (Nat.not_lt_zero _)⟩
  · rw [files_ne_none]
    rcases sample_entry href with rfl | rfl
    · show _ ∧ rootIno < 16 ∧ (sample.dinode rootIno).type ≠ 0
      rw [hroot]
      decide
    · show _ ∧ 2 < 16 ∧ (sample.dinode 2).type ≠ 0
      rw [hfile]
      decide

/-- Two bytes are written to the file and read, and the file is truncated. -/
def sampleOps : List (Nat × InodeOp) :=
  [(1, .write (.kernel [104, 105]) 0 2), (1, .read .kernel 0 2), (1, .trunc)]

omit [Geometry] in
theorem transactions_refine_sample : letI := roomy
    Returns (transactions sampleOps) sample fun rs s' =>
      Quiet s' ∧ Behaves (fun e => (sample.itable e).inum) sample.volume sampleOps rs s'.volume := by
  let := roomy
  refine transactions_refine (by decide) (by decide) _ sample_quiet fun y hy => ?_
  simp only [sampleOps, List.mem_cons, List.not_mem_nil, or_false] at hy
  rcases hy with rfl | rfl | rfl
  · exact ⟨by decide, by decide, Nat.le_refl 2, by decide⟩
  · exact ⟨by decide, by decide, trivial⟩
  · exact ⟨by decide, by decide, trivial⟩

end Xv6.Fs
