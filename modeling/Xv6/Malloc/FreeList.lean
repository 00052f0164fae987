import Xv6.Lib.Linked
import Xv6.Lib.Tiling
import Xv6.Malloc.Umalloc

/-!
# The free list

`Shape h fs ls` is what the memory of the allocator looks like when `fs` are its free
blocks and `ls` the blocks that the program has. The free blocks are a circle
through `base` in the order of their addresses, no two of them touch, and all blocks
together are the memory that `sbrk` has returned. `free` and the last steps of
`malloc` lead from one such shape to another.
-/

namespace Xv6.Malloc

open Heap Lib List

/-- The bytes of a block. -/
def bytes (b : Nat × Nat) : Nat × Nat := (b.1, headerSize * b.2)

/-- The memory that `sbrk` has returned. -/
def Heap.memory (h : Heap) : Set Nat := {x | ∃ r ∈ h.regions, x ∈ span (bytes r)}

/-! ## Reading and writing headers -/

section Headers

variable (h : Heap) (a b n : Nat)

@[simp] lemma base_setPtr : (h.setPtr a n).base = h.base := rfl

@[simp] lemma base_setSize : (h.setSize a n).base = h.base := rfl

@[simp] lemma ptr_setPtr : (h.setPtr a n).ptr b = if b = a then n else h.ptr b := by
  by_cases hb : b = a
  · subst hb
    simp [Heap.setPtr, Heap.ptr]
  · simp [Heap.setPtr, Heap.ptr, hb]

@[simp] lemma size_setPtr : (h.setPtr a n).size b = h.size b := by
  by_cases hb : b = a
  · subst hb
    simp [Heap.setPtr, Heap.size]
  · simp [Heap.setPtr, Heap.size, hb]

@[simp] lemma ptr_setSize : (h.setSize a n).ptr b = h.ptr b := by
  by_cases hb : b = a
  · subst hb
    simp [Heap.setSize, Heap.ptr]
  · simp [Heap.setSize, Heap.ptr, hb]

@[simp] lemma size_setSize :
    (h.setSize a n).size b = if b = a then n % 2 ^ 32 else h.size b := by
  by_cases hb : b = a
  · subst hb
    simp [Heap.setSize, Heap.size]
  · simp [Heap.setSize, Heap.size, hb]

end Headers

/-- The variables that the list operations leave alone. -/
structure Same (h h' : Heap) : Prop where
  base : h'.base = h.base
  top : h'.top = h.top
  limit : h'.limit = h.limit
  regions : h'.regions = h.regions

namespace Same

variable {h h' h'' : Heap}

lemma trans (h₁ : Same h h') (h₂ : Same h' h'') : Same h h'' :=
  ⟨h₂.base.trans h₁.base, h₂.top.trans h₁.top, h₂.limit.trans h₁.limit,
    h₂.regions.trans h₁.regions⟩

lemma units (hs : Same h h') : h'.units = h.units := by
  rw [Heap.units, hs.regions, Heap.units]

lemma memory (hs : Same h h') : h'.memory = h.memory := by
  rw [Heap.memory, hs.regions, Heap.memory]

end Same

/-! ## Shapes -/

/-- The blocks are what their headers say, and they are the memory. -/
structure Blocks (h : Heap) (bs : List (Nat × Nat)) : Prop where
  size : ∀ b ∈ bs, h.size b.1 = b.2
  above : ∀ b ∈ bs, skip h.base 1 ≤ b.1
  below : ∀ b ∈ bs, skip b.1 b.2 ≤ h.top
  tiles : Tiles (bs.map bytes) h.memory
  units : (bs.map Prod.snd).sum = h.units
  limit : h.units ≤ h.limit

/-- One block ends before the next begins, and there is room between them. -/
def Before (b c : Nat × Nat) : Prop := skip b.1 b.2 < c.1

/-- The last node of the first part of the circle. -/
def lastNode (base : Nat) (fs : List (Nat × Nat)) : Nat := (fs.map Prod.fst).getLastD base

/-- The first node of the second part of the circle. -/
def firstNode (base : Nat) (fs : List (Nat × Nat)) : Nat := (fs.map Prod.fst).headD base

structure Shape (h : Heap) (fs ls : List (Nat × Nat)) : Prop where
  base : h.size h.base = 0
  circle : Linked h.ptr (h.base :: fs.map Prod.fst ++ [h.base])
  start : ∃ p, h.freep = some p ∧ p ∈ h.base :: fs.map Prod.fst
  sorted : fs.Pairwise Before
  blocks : Blocks h (fs ++ ls)

/-! ## Blocks -/

namespace Blocks

variable {h h' : Heap} {bs cs : List (Nat × Nat)}

lemma perm (hb : Blocks h bs) (hp : bs.Perm cs) : Blocks h cs where
  size b hb' := hb.size b (hp.mem_iff.2 hb')
  above b hb' := hb.above b (hp.mem_iff.2 hb')
  below b hb' := hb.below b (hp.mem_iff.2 hb')
  tiles := hb.tiles.perm (hp.map bytes)
  units := by rw [← hb.units, (hp.map Prod.snd).sum_eq]
  limit := hb.limit

/-- Only the sizes in the headers matter. -/
lemma congr (hb : Blocks h bs) (hs : Same h h') (hsize : ∀ b ∈ bs, h'.size b.1 = h.size b.1) :
    Blocks h' bs where
  size b hb' := (hsize b hb').trans (hb.size b hb')
  above b hb' := by
    rw [hs.base]
    exact hb.above b hb'
  below b hb' := by
    rw [hs.top]
    exact hb.below b hb'
  tiles := by
    rw [hs.memory]
    exact hb.tiles
  units := by rw [hs.units, hb.units]
  limit := by rw [hs.units, hs.limit]; exact hb.limit

lemma pos (hb : Blocks h bs) {b : Nat × Nat} (hb' : b ∈ bs) : 0 < b.2 := by
  have := hb.tiles.pos (bytes b) (mem_map_of_mem hb')
  simp only [bytes, headerSize] at this
  omega

lemma nodup (hb : Blocks h bs) : (bs.map Prod.fst).Nodup := by
  have := hb.tiles.nodup
  rwa [map_map] at this

lemma base_lt (hb : Blocks h bs) {b : Nat × Nat} (hb' : b ∈ bs) : h.base < b.1 := by
  have := hb.above b hb'
  simp only [skip, headerSize] at this
  omega

/-- No node stands twice in a circle through `base`. -/
lemma nodup_circle {fs ls : List (Nat × Nat)} (hb : Blocks h (fs ++ ls)) :
    (h.base :: fs.map Prod.fst).Nodup := by
  have hnodup := hb.nodup
  rw [map_append, nodup_append] at hnodup
  refine nodup_cons.2 ⟨fun hbase => ?_, hnodup.1⟩
  obtain ⟨c, hc, heq⟩ := mem_map.1 hbase
  exact Nat.ne_of_lt (hb.base_lt (mem_append_left ls hc)) heq.symm

/-- No block has more units than there are. -/
lemma le_units (hb : Blocks h bs) {b : Nat × Nat} (hb' : b ∈ bs) : b.2 ≤ h.units := by
  rw [← hb.units]
  exact single_le_sum (by simp) _ (mem_map_of_mem hb')

/-- Two blocks do not meet. -/
lemma apart (hb : Blocks h (bs ++ cs)) {b c : Nat × Nat} (hb' : b ∈ bs) (hc : c ∈ cs) :
    skip b.1 b.2 ≤ c.1 ∨ skip c.1 c.2 ≤ b.1 := by
  have hpair := hb.tiles.apart
  rw [map_append, pairwise_append] at hpair
  exact hpair.2.2 (bytes b) (mem_map_of_mem hb') (bytes c) (mem_map_of_mem hc)

/-- Two blocks that touch become one. -/
lemma join {a s t : Nat} (hb : Blocks h ((a, s) :: (skip a s, t) :: bs)) (hs : Same h h')
    (hsize : ∀ b ∈ bs, h'.size b.1 = h.size b.1) (hnew : h'.size a = s + t) :
    Blocks h' ((a, s + t) :: bs) := by
  have hpos : 0 < s := hb.pos mem_cons_self
  have hpos' : 0 < t := hb.pos (mem_cons_of_mem _ mem_cons_self)
  obtain ⟨hsz, habove, hbelow, htiles, hsum, hlimit⟩ := hb
  simp only [forall_mem_cons] at hsz habove hbelow
  refine ⟨?_, ?_, ?_, ?_, ?_, ?_⟩
  · exact forall_mem_cons.2 ⟨hnew, fun b hb => (hsize b hb).trans (hsz.2.2 b hb)⟩
  · rw [hs.base]
    exact forall_mem_cons.2 ⟨habove.1, habove.2.2⟩
  · rw [hs.top]
    refine forall_mem_cons.2 ⟨?_, hbelow.2.2⟩
    have := hbelow.2.1
    simp only [skip, headerSize] at this ⊢
    omega
  · rw [hs.memory]
    simp only [map_cons, bytes, skip] at htiles ⊢
    rw [tiles_join (by simp only [headerSize]; omega) (by simp only [headerSize]; omega)] at htiles
    rwa [Nat.mul_add]
  · rw [hs.units, ← hsum]
    simp [Nat.add_assoc]
  · rw [hs.units, hs.limit]
    exact hlimit

/-- One block becomes two. -/
lemma cut {a s t : Nat} (hb : Blocks h ((a, s + t) :: bs)) (hs : Same h h') (hpos : 0 < s)
    (hpos' : 0 < t) (hsize : ∀ b ∈ bs, h'.size b.1 = h.size b.1) (hnew : h'.size a = s)
    (hnew' : h'.size (skip a s) = t) : Blocks h' ((a, s) :: (skip a s, t) :: bs) := by
  obtain ⟨hsz, habove, hbelow, htiles, hsum, hlimit⟩ := hb
  simp only [forall_mem_cons] at hsz habove hbelow
  refine ⟨?_, ?_, ?_, ?_, ?_, ?_⟩
  · simp only [forall_mem_cons]
    exact ⟨hnew, hnew', fun b hb => (hsize b hb).trans (hsz.2 b hb)⟩
  · simp only [forall_mem_cons, hs.base]
    refine ⟨habove.1, ?_, habove.2⟩
    have := habove.1
    simp only [skip, headerSize] at this ⊢
    omega
  · simp only [forall_mem_cons, hs.top]
    have := hbelow.1
    simp only [skip, headerSize] at this ⊢
    exact ⟨by omega, by omega, hbelow.2⟩
  · rw [hs.memory]
    simp only [map_cons, bytes, skip] at htiles ⊢
    rw [tiles_join (by simp only [headerSize]; omega) (by simp only [headerSize]; omega)]
    rwa [Nat.mul_add] at htiles
  · rw [hs.units, ← hsum]
    simp [Nat.add_assoc]
  · rw [hs.units, hs.limit]
    exact hlimit

end Blocks

/-! ## Nodes of the circle -/

lemma lastNode_concat (base : Nat) (fs : List (Nat × Nat)) (q : Nat × Nat) :
    lastNode base (fs ++ [q]) = q.1 := by
  simp [lastNode]

/-- The list is cut behind each of its nodes. -/
lemma exists_lastNode {base p : Nat} {fs : List (Nat × Nat)} (h : p ∈ base :: fs.map Prod.fst) :
    ∃ l₁ l₂, fs = l₁ ++ l₂ ∧ p = lastNode base l₁ := by
  rcases mem_cons.1 h with rfl | h
  · exact ⟨[], fs, rfl, rfl⟩
  · obtain ⟨q, hq, rfl⟩ := mem_map.1 h
    obtain ⟨l₁, l₂, rfl⟩ := append_of_mem hq
    exact ⟨l₁ ++ [q], l₂, by simp, (lastNode_concat base l₁ q).symm⟩

lemma lastNode_mem (base : Nat) (fs fs' : List (Nat × Nat)) :
    lastNode base fs ∈ base :: (fs ++ fs').map Prod.fst := by
  induction fs using reverseRecOn with
  | nil => exact mem_cons_self
  | append_singleton fs q _ =>
    rw [lastNode_concat]
    simp

/-- The first part of the circle, with its last node apart. -/
lemma exists_concat (base : Nat) (fs : List (Nat × Nat)) :
    ∃ l, base :: fs.map Prod.fst = l ++ [lastNode base fs] := by
  induction fs using reverseRecOn with
  | nil => exact ⟨[], rfl⟩
  | append_singleton fs q _ => exact ⟨base :: fs.map Prod.fst, by simp [lastNode_concat]⟩

/-- The pointer of a node leads to the next one. -/
lemma ptr_lastNode {h : Heap} {base : Nat} {l₁ l₂ : List (Nat × Nat)}
    (hl : Linked h.ptr (base :: (l₁ ++ l₂).map Prod.fst ++ [base])) :
    h.ptr (lastNode base l₁) = firstNode base l₂ := by
  obtain ⟨l, hlast⟩ := exists_concat base l₁
  rw [map_append, ← cons_append, hlast, append_assoc, append_assoc,
    singleton_append, linked_split] at hl
  cases l₂ with
  | nil | cons c l₂ => exact (linked_cons_cons.1 hl.2).1

lemma Before.lt {b c : Nat × Nat} (h : Before b c) : b.1 < c.1 := by
  simp only [Before, skip] at h
  omega

lemma base_le_lastNode {base : Nat} {fs : List (Nat × Nat)} (h : ∀ c ∈ fs, base < c.1) :
    base ≤ lastNode base fs := by
  induction fs using reverseRecOn with
  | nil => exact Nat.le_refl base
  | append_singleton fs q _ =>
    rw [lastNode_concat]
    exact Nat.le_of_lt (h q (by simp))

/-- The last node is the highest. -/
lemma le_lastNode {base : Nat} {fs : List (Nat × Nat)} {c : Nat × Nat}
    (hsorted : fs.Pairwise Before) (hc : c ∈ fs) : c.1 ≤ lastNode base fs := by
  induction fs using reverseRecOn with
  | nil => cases hc
  | append_singleton fs q _ =>
    rw [lastNode_concat]
    rcases mem_append.1 hc with hc | hc
    · exact Nat.le_of_lt ((pairwise_append.1 hsorted).2.2 c hc q mem_cons_self).lt
    · rw [mem_singleton.1 hc]

lemma lastNode_lt {base x : Nat} {fs : List (Nat × Nat)} (hbase : base < x)
    (h : ∀ c ∈ fs, c.1 < x) : lastNode base fs < x := by
  induction fs using reverseRecOn with
  | nil => exact hbase
  | append_singleton fs q _ =>
    rw [lastNode_concat]
    exact h q (by simp)

/-! ## The loop of `free` -/

/-- The block belongs behind this node. -/
def Fits (h : Heap) (bp p : Nat) : Prop :=
  (bp > p ∧ bp < h.ptr p) ∨ (p ≥ h.ptr p ∧ (bp > p ∨ bp < h.ptr p))

instance (h : Heap) (bp p : Nat) : Decidable (Fits h bp p) :=
  inferInstanceAs (Decidable (_ ∨ _))

lemma freeLoop_eq (h : Heap) (bp k p : Nat) :
    h.freeLoop bp k p = walk h.ptr (fun p => Fits h bp p) k p := by
  induction k generalizing p with
  | zero => rfl
  | succ k ih =>
    rw [freeLoop, walk, ih]
    split
    next hin => rw [if_pos (decide_eq_true (.inl hin))]
    next hin =>
      split
      next hout => rw [if_pos (decide_eq_true (.inr hout))]
      next hout => rw [if_neg (by simpa [Fits] using ⟨by simpa using hin, by simpa using hout⟩)]

/-- A block fits exactly between the blocks below it and those above it. -/
lemma fits_iff {h : Heap} {l₁ l₂ : List (Nat × Nat)} {bp : Nat}
    (hl : Linked h.ptr (h.base :: (l₁ ++ l₂).map Prod.fst ++ [h.base]))
    (hsorted : (l₁ ++ l₂).Pairwise Before) (habove : ∀ c ∈ l₁ ++ l₂, h.base < c.1)
    (hbp : h.base < bp) :
    Fits h bp (lastNode h.base l₁) ↔ (∀ c ∈ l₁, c.1 < bp) ∧ ∀ c ∈ l₂, bp < c.1 := by
  obtain ⟨hs₁, hs₂, hs₁₂⟩ := pairwise_append.1 hsorted
  have hnext := ptr_lastNode hl
  have hbase := base_le_lastNode fun c hc => habove c (mem_append_left l₂ hc)
  rw [Fits, hnext]
  cases l₂ with
  | nil =>
    constructor
    · intro hfits
      have hlt : lastNode h.base l₁ < bp := by
        simp only [firstNode, map_nil, headD_nil] at hfits
        omega
      exact ⟨fun c hc => Nat.lt_of_le_of_lt (le_lastNode hs₁ hc) hlt, by simp⟩
    · rintro ⟨hlow, -⟩
      exact .inr ⟨hbase, .inl (lastNode_lt hbp hlow)⟩
  | cons d l₂ =>
    have hd : lastNode h.base l₁ < d.1 :=
      lastNode_lt (habove d (by simp)) fun c hc => (hs₁₂ c hc d mem_cons_self).lt
    constructor
    · intro hfits
      have hlt : lastNode h.base l₁ < bp ∧ bp < d.1 := by
        simp only [firstNode, map_cons, headD_cons] at hfits
        omega
      refine ⟨fun c hc => Nat.lt_of_le_of_lt (le_lastNode hs₁ hc) hlt.1, ?_⟩
      refine forall_mem_cons.2 ⟨hlt.2, fun c hc => ?_⟩
      exact Nat.lt_trans hlt.2 ((pairwise_cons.1 hs₂).1 c hc).lt
    · rintro ⟨hlow, hhigh⟩
      exact .inl ⟨lastNode_lt hbp hlow, hhigh d mem_cons_self⟩

/-- A free list has at most as many blocks as there are units. -/
lemma Blocks.length_le {h : Heap} {bs cs : List (Nat × Nat)} (hb : Blocks h (bs ++ cs)) :
    bs.length ≤ h.units := by
  have hone : ∀ n ∈ bs.map Prod.snd, 1 ≤ n := by
    intro n hn
    obtain ⟨b, hb', rfl⟩ := mem_map.1 hn
    exact hb.pos (mem_append_left cs hb')
  have hlen := length_le_sum_of_one_le (bs.map Prod.snd) hone
  rw [length_map] at hlen
  have hsum := hb.units
  rw [map_append, sum_append] at hsum
  omega

/-- Every address has a place in the order of the blocks. -/
lemma exists_place {fs : List (Nat × Nat)} {x : Nat} (hsorted : fs.Pairwise Before)
    (hne : ∀ c ∈ fs, c.1 ≠ x) :
    ∃ l₁ l₂, fs = l₁ ++ l₂ ∧ (∀ c ∈ l₁, c.1 < x) ∧ ∀ c ∈ l₂, x < c.1 := by
  induction fs with
  | nil => exact ⟨[], [], rfl, by simp, by simp⟩
  | cons d fs ih =>
    obtain ⟨hd, hsorted⟩ := pairwise_cons.1 hsorted
    obtain ⟨hdx, hne⟩ := forall_mem_cons.1 hne
    rcases Nat.lt_or_gt_of_ne hdx with hlt | hgt
    · obtain ⟨l₁, l₂, rfl, hlow, hhigh⟩ := ih hsorted hne
      exact ⟨d :: l₁, l₂, rfl, forall_mem_cons.2 ⟨hlt, hlow⟩, hhigh⟩
    · refine ⟨[], d :: fs, rfl, by simp, forall_mem_cons.2 ⟨hgt, fun c hc => ?_⟩⟩
      exact Nat.lt_trans hgt (hd c hc).lt

/-- The loop finds the place of the block, wherever `freep` is. -/
lemma Shape.freeLoop_spec {h : Heap} {fs ls : List (Nat × Nat)} {b : Nat × Nat} {p : Nat}
    (hs : Shape h fs (b :: ls)) (hp : h.freep = some p) :
    ∃ l₁ l₂, fs = l₁ ++ l₂ ∧ h.freeLoop b.1 h.rounds p = some (lastNode h.base l₁) ∧
      (∀ c ∈ l₁, c.1 < b.1) ∧ ∀ c ∈ l₂, b.1 < c.1 := by
  have habove (c) (hc : c ∈ fs) : h.base < c.1 := hs.blocks.base_lt (mem_append_left _ hc)
  have hbase : h.base < b.1 := hs.blocks.base_lt (by simp)
  have hne : ∀ c ∈ fs, c.1 ≠ b.1 := by
    have hnodup := hs.blocks.nodup
    rw [map_append, nodup_append] at hnodup
    exact fun c hc => hnodup.2.2 c.1 (mem_map_of_mem hc) b.1 (by simp)
  have hstop : ∃ t ∈ h.base :: fs.map Prod.fst, decide (Fits h b.1 t) = true := by
    obtain ⟨l₁, l₂, rfl, hplace⟩ := exists_place hs.sorted hne
    refine ⟨lastNode h.base l₁, lastNode_mem h.base l₁ l₂, decide_eq_true ?_⟩
    exact (fits_iff hs.circle hs.sorted habove hbase).2 hplace
  have hlen : (fs.map Prod.fst).length < h.rounds := by
    rw [length_map]
    exact Nat.lt_succ_of_le hs.blocks.length_le
  obtain ⟨q, hq, hmem⟩ := hs.start
  rw [hp] at hq
  cases hq
  obtain ⟨r, hr, hfits, hwalk⟩ := hs.circle.walk_circle hmem hstop hlen
  obtain ⟨l₁, l₂, rfl, rfl⟩ := exists_lastNode hr
  refine ⟨l₁, l₂, rfl, by rw [freeLoop_eq, hwalk], ?_⟩
  exact (fits_iff hs.circle hs.sorted habove hbase).1 (of_decide_eq_true hfits)

/-! ## Joining a block with its neighbours -/

/-- The block stands between the two parts of the free list, and its pointer already
leads to the second part. -/
structure Between (h : Heap) (l₁ : List (Nat × Nat)) (b : Nat × Nat)
    (l₂ ls : List (Nat × Nat)) : Prop where
  base : h.size h.base = 0
  left : Linked h.ptr (h.base :: l₁.map Prod.fst)
  right : Linked h.ptr (b.1 :: l₂.map Prod.fst ++ [h.base])
  sorted_left : l₁.Pairwise Before
  sorted_right : (b :: l₂).Pairwise Before
  low : ∀ c ∈ l₁, skip c.1 c.2 ≤ b.1
  blocks : Blocks h (l₁ ++ b :: l₂ ++ ls)

lemma same_joinNext (h : Heap) (bp p : Nat) : Same h (h.joinNext bp p) := by
  unfold joinNext
  split <;> exact ⟨rfl, rfl, rfl, rfl⟩

lemma same_joinPrev (h : Heap) (bp p : Nat) : Same h (h.joinPrev bp p) := by
  unfold joinPrev
  split <;> exact ⟨rfl, rfl, rfl, rfl⟩

/-- The block's header is in no other place. -/
lemma Blocks.fresh {h : Heap} {bs : List (Nat × Nat)} {b : Nat × Nat} (hb : Blocks h (b :: bs)) :
    ∀ c ∈ bs, c.1 ≠ b.1 := by
  have hnodup := (nodup_cons.1 hb.nodup).1
  intro c hc heq
  exact hnodup (heq ▸ mem_map_of_mem hc)

/-- The pointers behind a node of the circle, for any of its nodes. -/
lemma linked_right {h : Heap} {base : Nat} {l₁ l₂ : List (Nat × Nat)}
    (hl : Linked h.ptr (base :: (l₁ ++ l₂).map Prod.fst ++ [base])) :
    Linked h.ptr (lastNode base l₁ :: l₂.map Prod.fst ++ [base]) := by
  obtain ⟨l, hlast⟩ := exists_concat base l₁
  rw [map_append, ← cons_append, hlast, append_assoc, append_assoc,
    singleton_append, linked_split] at hl
  exact hl.2

lemma linked_left {h h' : Heap} {base : Nat} {l₁ l₂ : List (Nat × Nat)}
    (hl : Linked h.ptr (base :: (l₁ ++ l₂).map Prod.fst ++ [base]))
    (hptr : ∀ x ∈ base :: l₁.map Prod.fst, h'.ptr x = h.ptr x) :
    Linked h'.ptr (base :: l₁.map Prod.fst) := by
  obtain ⟨l, hlast⟩ := exists_concat base l₁
  rw [map_append, ← cons_append, hlast, append_assoc, append_assoc,
    singleton_append, linked_split] at hl
  rw [hlast] at hptr ⊢
  exact hl.1.congr fun x hx => hptr x (mem_append_left _ hx)

lemma perm_between {α : Type} (b : α) (l₁ l₂ ls : List α) :
    (l₁ ++ b :: l₂ ++ ls).Perm (b :: (l₁ ++ l₂ ++ ls)) := by
  rw [append_assoc, append_assoc]
  exact perm_middle

/-- The block has its place between the two parts of the free list. -/
structure Placed (h : Heap) (l₁ l₂ ls : List (Nat × Nat)) (b : Nat × Nat) : Prop where
  shape : Shape h (l₁ ++ l₂) (b :: ls)
  low : ∀ c ∈ l₁, c.1 < b.1
  high : ∀ c ∈ l₂, b.1 < c.1

namespace Placed

variable {h : Heap} {l₁ l₂ ls : List (Nat × Nat)} {b : Nat × Nat}

lemma blocks (hp : Placed h l₁ l₂ ls b) : Blocks h (b :: (l₁ ++ l₂ ++ ls)) :=
  hp.shape.blocks.perm perm_middle

lemma low_le (hp : Placed h l₁ l₂ ls b) : ∀ c ∈ l₁, skip c.1 c.2 ≤ b.1 := by
  intro c hc
  have hlow := hp.low c hc
  have := hp.shape.blocks.apart (mem_append_left l₂ hc) mem_cons_self
  simp only [skip] at this ⊢
  omega

lemma high_le (hp : Placed h l₁ l₂ ls b) : ∀ c ∈ l₂, skip b.1 b.2 ≤ c.1 := by
  intro c hc
  have hhigh := hp.high c hc
  have := hp.shape.blocks.apart (mem_append_right l₁ hc) mem_cons_self
  simp only [skip] at this ⊢
  omega

/-- The block is not a node of the circle yet. -/
lemma not_node (hp : Placed h l₁ l₂ ls b) :
    ∀ x ∈ h.base :: (l₁ ++ l₂).map Prod.fst, x ≠ b.1 := by
  refine forall_mem_cons.2 ⟨Nat.ne_of_lt (hp.blocks.base_lt mem_cons_self), ?_⟩
  intro x hx
  obtain ⟨c, hc, rfl⟩ := mem_map.1 hx
  exact hp.blocks.fresh c (mem_append_left ls hc)

/-- A change of the block's own pointer keeps the first part of the circle. -/
lemma left {h' : Heap} (hp : Placed h l₁ l₂ ls b) (hptr : ∀ x, x ≠ b.1 → h'.ptr x = h.ptr x) :
    Linked h'.ptr (h.base :: l₁.map Prod.fst) := by
  refine linked_left hp.shape.circle fun x hx => hptr x (hp.not_node x ?_)
  rw [map_append, ← cons_append]
  exact mem_append_left _ hx

/-- The block does not touch the one behind it. -/
lemma joinNext_far (hp : Placed h l₁ l₂ ls b) (hfar : skip b.1 b.2 ≠ firstNode h.base l₂) :
    Between (h.setPtr b.1 (firstNode h.base l₂)) l₁ b l₂ ls where
  base := by
    rw [size_setPtr]
    exact hp.shape.base
  left := hp.left fun x hx => by rw [ptr_setPtr, if_neg hx]
  right := by
    refine (linked_right hp.shape.circle).replace ?_ fun x hx => ?_
    · rw [ptr_setPtr, if_pos rfl, ptr_lastNode hp.shape.circle]
    · rw [ptr_setPtr, if_neg (hp.not_node x (by simp [hx]))]
  sorted_left := (pairwise_append.1 hp.shape.sorted).1
  sorted_right := by
    have hsorted := (pairwise_append.1 hp.shape.sorted).2.1
    refine pairwise_cons.2 ⟨?_, hsorted⟩
    cases l₂ with
    | nil => simp
    | cons d l₂ =>
      have hd : Before b d := Nat.lt_of_le_of_ne (hp.high_le d mem_cons_self) hfar
      refine forall_mem_cons.2 ⟨hd, fun c hc => ?_⟩
      exact Nat.lt_trans hd ((pairwise_cons.1 hsorted).1 c hc).lt
  low := hp.low_le
  blocks := by
    have hb : Blocks (h.setPtr b.1 (firstNode h.base l₂)) (b :: (l₁ ++ l₂ ++ ls)) :=
      hp.blocks.congr ⟨rfl, rfl, rfl, rfl⟩ fun c _ => size_setPtr ..
    exact hb.perm (perm_between b l₁ l₂ ls).symm

/-- The block touches the one behind it, and takes it in. -/
lemma joinNext_near {d : Nat × Nat} (hp : Placed h l₁ (d :: l₂) ls b)
    (hlimit : h.limit < 2 ^ 32) (hnear : skip b.1 b.2 = d.1) :
    Between ((h.setSize b.1 (b.2 + d.2)).setPtr b.1 (h.ptr d.1)) l₁ (b.1, b.2 + d.2) l₂ ls := by
  have hblocks : Blocks h ((b.1, b.2) :: (skip b.1 b.2, d.2) :: (l₁ ++ l₂ ++ ls)) := by
    rw [hnear]
    exact hp.blocks.perm ((perm_between d l₁ l₂ ls).cons b)
  have hsum : (b.2 + d.2) % 2 ^ 32 = b.2 + d.2 := by
    have hunits := hblocks.units
    have := hblocks.limit
    simp only [map_cons, sum_cons] at hunits
    exact Nat.mod_eq_of_lt (by omega)
  have hfresh := hp.blocks.fresh
  have hsorted := pairwise_append.1 hp.shape.sorted
  refine ⟨?_, ?_, ?_, hsorted.1, ?_, hp.low_le, ?_⟩
  · rw [size_setPtr, size_setSize, base_setPtr, base_setSize,
      if_neg (hp.not_node _ mem_cons_self)]
    exact hp.shape.base
  · exact hp.left fun x hx => by rw [ptr_setPtr, if_neg hx, ptr_setSize]
  · refine Linked.replace (List.IsChain.tail (linked_right hp.shape.circle)) ?_ fun x hx => ?_
    · rw [ptr_setPtr, if_pos rfl]
    · rw [ptr_setPtr, if_neg (hp.not_node x (by simp [hx])), ptr_setSize]
  · obtain ⟨hd, hsorted⟩ := pairwise_cons.1 hsorted.2.1
    refine pairwise_cons.2 ⟨fun c hc => ?_, hsorted⟩
    have := hd c hc
    simp only [Before, skip, headerSize] at this hnear ⊢
    omega
  · refine Blocks.perm ?_ (perm_between _ l₁ l₂ ls).symm
    refine hblocks.join ⟨rfl, rfl, rfl, rfl⟩ (fun c hc => ?_) ?_
    · rw [size_setPtr, size_setSize, if_neg (hfresh c ?_)]
      simp only [mem_append, mem_cons] at hc ⊢
      tauto
    · rw [size_setPtr, size_setSize, if_pos rfl, hsum]

lemma joinNext_spec (hp : Placed h l₁ l₂ ls b) (hlimit : h.limit < 2 ^ 32) :
    ∃ n l, b.2 ≤ n ∧ l.length ≤ l₂.length ∧
      Between (h.joinNext b.1 (lastNode h.base l₁)) l₁ (b.1, n) l ls := by
  have hsize : h.size b.1 = b.2 := hp.blocks.size b mem_cons_self
  rw [joinNext, hsize, ptr_lastNode hp.shape.circle]
  split
  next hnear =>
    cases l₂ with
    | nil =>
      -- the block is the highest one, and `base` is below it
      have hbase : h.base < b.1 := hp.blocks.base_lt mem_cons_self
      simp only [firstNode, map_nil, headD_nil, skip] at hnear
      omega
    | cons d l₂ =>
      have hd : h.size d.1 = d.2 := hp.blocks.size d (by simp)
      refine ⟨b.2 + d.2, l₂, Nat.le_add_right _ _, Nat.le_succ _, ?_⟩
      have := hp.joinNext_near hlimit hnear
      rwa [← hd] at this ⊢
  next hfar => exact ⟨b.2, l₂, Nat.le_refl _, Nat.le_refl _, hp.joinNext_far hfar⟩

end Placed

namespace Between

variable {h : Heap} {l₁ l₂ ls : List (Nat × Nat)} {b q : Nat × Nat}

/-- No node stands twice in the circle. -/
lemma nodup (hb : Between h l₁ b l₂ ls) : (h.base :: (l₁ ++ b :: l₂).map Prod.fst).Nodup :=
  hb.blocks.nodup_circle

/-- The block does not touch the one before it. -/
lemma joinPrev_far (hb : Between h l₁ b l₂ ls)
    (hfar : skip (lastNode h.base l₁) (h.size (lastNode h.base l₁)) ≠ b.1) :
    Shape { h.setPtr (lastNode h.base l₁) b.1 with freep := some (lastNode h.base l₁) }
      (l₁ ++ b :: l₂) ls where
  base := (size_setPtr ..).trans hb.base
  circle := by
    obtain ⟨l, hl⟩ := exists_concat h.base l₁
    have hnodup := hb.nodup
    rw [map_append, ← cons_append, hl, append_assoc, nodup_append,
      singleton_append, nodup_cons] at hnodup
    have hnodes : h.base :: (l₁ ++ b :: l₂).map Prod.fst ++ [h.base] =
        l ++ lastNode h.base l₁ :: (b.1 :: l₂.map Prod.fst ++ [h.base]) := by
      rw [map_append, ← cons_append, hl]
      simp
    have hleft := hb.left
    rw [hl] at hleft
    show Linked (h.setPtr (lastNode h.base l₁) b.1).ptr
      (h.base :: (l₁ ++ b :: l₂).map Prod.fst ++ [h.base])
    rw [hnodes, linked_split]
    refine ⟨hleft.congr fun x hx => ?_, linked_cons_cons.2 ⟨by rw [ptr_setPtr, if_pos rfl], ?_⟩⟩
    · rw [ptr_setPtr, if_neg (hnodup.2.2 x hx _ mem_cons_self)]
    · refine hb.right.congr fun x hx => ?_
      rw [ptr_setPtr, if_neg]
      rintro rfl
      exact hnodup.2.1.1 hx
  start := ⟨lastNode h.base l₁, rfl, lastNode_mem h.base l₁ (b :: l₂)⟩
  sorted := by
    refine pairwise_append.2 ⟨hb.sorted_left, hb.sorted_right, fun c hc => ?_⟩
    have hcb : Before c b := by
      refine Nat.lt_of_le_of_ne (hb.low c hc) ?_
      rcases eq_nil_or_concat l₁ with rfl | ⟨l, q, rfl⟩
      · cases hc
      · rw [concat_eq_append] at *
        rcases mem_append.1 hc with hc | hc
        · have hcq := (pairwise_append.1 hb.sorted_left).2.2 c hc q mem_cons_self
          have hq := hb.low q (by simp)
          simp only [Before, skip] at hcq hq ⊢
          omega
        · obtain rfl := mem_singleton.1 hc
          rw [lastNode_concat, hb.blocks.size c (by simp)] at hfar
          exact hfar
    refine forall_mem_cons.2 ⟨hcb, fun d hd => ?_⟩
    exact Nat.lt_trans hcb ((pairwise_cons.1 hb.sorted_right).1 d hd).lt
  blocks := hb.blocks.congr ⟨rfl, rfl, rfl, rfl⟩ fun c _ => size_setPtr ..

/-- The block touches the one before it, which takes it in. -/
lemma joinPrev_near (hb : Between h (l₁ ++ [q]) b l₂ ls) (hlimit : h.limit < 2 ^ 32)
    (hnear : skip q.1 q.2 = b.1) :
    Shape { (h.setSize q.1 (q.2 + b.2)).setPtr q.1 (h.ptr b.1) with freep := some q.1 }
      (l₁ ++ (q.1, q.2 + b.2) :: l₂) ls := by
  have hnodup := hb.nodup
  rw [append_assoc, singleton_append, map_append, map_cons, map_cons,
    ← cons_append, nodup_append] at hnodup
  have hbase : h.base ≠ q.1 := hnodup.2.2 _ mem_cons_self _ mem_cons_self
  have hblocks : Blocks h ((q.1, q.2) :: (skip q.1 q.2, b.2) :: (l₁ ++ l₂ ++ ls)) := by
    rw [hnear]
    refine hb.blocks.perm ((perm_between b (l₁ ++ [q]) l₂ ls).trans ?_)
    refine (List.Perm.cons b ?_).trans (List.Perm.swap q b _)
    rw [append_assoc l₁, singleton_append]
    exact perm_between q l₁ l₂ ls
  have hsum : (q.2 + b.2) % 2 ^ 32 = q.2 + b.2 := by
    have hunits := hblocks.units
    have := hblocks.limit
    simp only [map_cons, sum_cons] at hunits
    exact Nat.mod_eq_of_lt (by omega)
  obtain ⟨hsorted, -, hlow⟩ := pairwise_append.1 hb.sorted_left
  obtain ⟨hhigh, hsorted'⟩ := pairwise_cons.1 hb.sorted_right
  refine ⟨?_, ?_, ?_, ?_, ?_⟩
  · refine (size_setPtr ..).trans ?_
    rw [size_setSize]
    exact (if_neg hbase).trans hb.base
  · have hnodes : h.base :: (l₁ ++ (q.1, q.2 + b.2) :: l₂).map Prod.fst ++ [h.base] =
        (h.base :: l₁.map Prod.fst) ++ q.1 :: (l₂.map Prod.fst ++ [h.base]) := by simp
    show Linked ((h.setSize q.1 (q.2 + b.2)).setPtr q.1 (h.ptr b.1)).ptr
      (h.base :: (l₁ ++ (q.1, q.2 + b.2) :: l₂).map Prod.fst ++ [h.base])
    rw [hnodes, linked_split]
    refine ⟨?_, ?_⟩
    · have hleft := hb.left
      rw [map_append, ← cons_append] at hleft
      refine hleft.congr fun x hx => ?_
      rw [ptr_setPtr, if_neg (hnodup.2.2 x hx _ mem_cons_self), ptr_setSize]
    · refine hb.right.replace (by rw [ptr_setPtr, if_pos rfl]) fun x hx => ?_
      rw [ptr_setPtr, if_neg, ptr_setSize]
      rintro rfl
      exact (nodup_cons.1 hnodup.2.1).1 (mem_cons_of_mem _ hx)
  · exact ⟨q.1, rfl, by simp⟩
  · refine pairwise_append.2 ⟨hsorted, pairwise_cons.2 ⟨fun d hd => ?_, hsorted'⟩,
      fun c hc => forall_mem_cons.2 ⟨hlow c hc q mem_cons_self, fun d hd => ?_⟩⟩
    · have := hhigh d hd
      simp only [Before, skip, headerSize] at this hnear ⊢
      omega
    · have hcq := hlow c hc q mem_cons_self
      have hbd := (hhigh d hd).lt
      simp only [Before, skip, headerSize] at hcq hnear ⊢
      omega
  · refine Blocks.perm ?_ (perm_between _ l₁ l₂ ls).symm
    refine hblocks.join ⟨rfl, rfl, rfl, rfl⟩ (fun c hc => ?_) ?_
    · refine (size_setPtr ..).trans ?_
      rw [size_setSize, if_neg]
      exact hblocks.fresh c (mem_cons_of_mem _ hc)
    · refine (size_setPtr ..).trans ?_
      rw [size_setSize, if_pos rfl, hsum]

/-- The block becomes a node of the circle, or part of the one before it. -/
lemma joinPrev_spec (hb : Between h l₁ b l₂ ls) (hlimit : h.limit < 2 ^ 32) :
    ∃ fs, Shape { h.joinPrev b.1 (lastNode h.base l₁) with freep := some (lastNode h.base l₁) }
      fs ls ∧ fs.length ≤ l₁.length + l₂.length + 1 ∧ ∃ c ∈ fs, b.2 ≤ c.2 := by
  rw [joinPrev]
  split
  next hnear =>
    rcases eq_nil_or_concat l₁ with rfl | ⟨l, q, rfl⟩
    · -- `base` has no units
      have hbase : h.base < b.1 := hb.blocks.base_lt (by simp)
      have : skip h.base (h.size h.base) = b.1 := hnear
      rw [hb.base] at this
      exact absurd this (Nat.ne_of_lt hbase)
    · rw [concat_eq_append] at *
      have hq : h.size q.1 = q.2 := hb.blocks.size q (by simp)
      have hsize : h.size b.1 = b.2 := hb.blocks.size b (by simp)
      rw [lastNode_concat, hq] at hnear ⊢
      rw [hsize]
      refine ⟨_, hb.joinPrev_near hlimit hnear, ?_, _, mem_append_right _ mem_cons_self,
        Nat.le_add_left _ _⟩
      simp only [length_append, length_cons, length_nil]
      omega
  next hfar =>
    refine ⟨_, hb.joinPrev_far hfar, ?_, b, by simp, Nat.le_refl _⟩
    simp only [length_append, length_cons]
    omega

end Between

/-! ## `free` -/

/-- `free` of a block of the program. -/
lemma Shape.free_spec {h : Heap} {fs ls : List (Nat × Nat)} {b : Nat × Nat}
    (hs : Shape h fs (b :: ls)) (hlimit : h.limit < 2 ^ 32) :
    ∃ h' fs', h.free b.1 = some h' ∧ Shape h' fs' ls ∧ Same h h' ∧ fs'.length ≤ fs.length + 1 ∧
      ∃ c ∈ fs', b.2 ≤ c.2 := by
  obtain ⟨p, hp, -⟩ := hs.start
  obtain ⟨l₁, l₂, rfl, hloop, hlow, hhigh⟩ := hs.freeLoop_spec hp
  have hplaced : Placed h l₁ l₂ ls b := ⟨hs, hlow, hhigh⟩
  obtain ⟨n, l, hn, hl, hb⟩ := hplaced.joinNext_spec hlimit
  have hsame := same_joinNext h b.1 (lastNode h.base l₁)
  have hsame' := same_joinPrev (h.joinNext b.1 (lastNode h.base l₁)) b.1 (lastNode h.base l₁)
  obtain ⟨fs', hshape, hlen, c, hc, hle⟩ := hb.joinPrev_spec (hsame.limit ▸ hlimit)
  rw [hsame.base] at hshape
  refine ⟨_, fs', ?_, hshape, ?_, ?_, c, hc, Nat.le_trans hn hle⟩
  · simp [Heap.free, hp, hloop]
  · exact ⟨(hsame.trans hsame').base, (hsame.trans hsame').top, (hsame.trans hsame').limit,
      (hsame.trans hsame').regions⟩
  · rw [length_append]
    omega

end Xv6.Malloc
