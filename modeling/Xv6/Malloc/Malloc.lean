import Xv6.Malloc.FreeList

/-!
# `malloc` and the runs of a program

`malloc` walks once around the circle of free blocks. If no block is large enough
it gets a region from `sbrk`, frees it, and walks on; this time a block is found
before `freep` is met again. So the loop ends, and every run of a program that
allocates and frees keeps the shape of the memory (`heap_run`).

The sizes are `uint`. With `2 ^ 32` units or more, 64 GiB, the sum of two sizes can
be too large for its header (`heap_overflow`).
-/

namespace Xv6.Malloc

open Heap Lib List

/-! ## A block for the program -/

section Take

variable {h : Heap} {fs ls l₁ l₃ : List (Nat × Nat)} {c : Nat × Nat} {n : Nat}

/-- No node stands twice in the circle. -/
lemma Shape.nodup (hs : Shape h fs ls) : (h.base :: fs.map Prod.fst).Nodup :=
  hs.blocks.nodup_circle

/-- The free list around the block that a node points to. -/
lemma Shape.split_at {p : Nat} (hs : Shape h fs ls) (hp : p ∈ h.base :: fs.map Prod.fst)
    (hc : c ∈ fs) (hptr : h.ptr p = c.1) :
    ∃ l₁ l₃, fs = l₁ ++ c :: l₃ ∧ p = lastNode h.base l₁ := by
  obtain ⟨l₁, l₂, rfl, rfl⟩ := exists_lastNode hp
  rw [ptr_lastNode hs.circle] at hptr
  cases l₂ with
  | nil => exact absurd hptr (Nat.ne_of_lt (hs.blocks.base_lt (mem_append_left ls hc)))
  | cons d l₃ =>
    have hd : d = c := by
      have hdsize := hs.blocks.size d (by simp)
      have hcsize := hs.blocks.size c (mem_append_left ls hc)
      have haddr : d.1 = c.1 := hptr
      rw [haddr] at hdsize
      exact Prod.ext haddr (hdsize.symm.trans hcsize)
    exact ⟨l₁, l₃, by rw [hd], rfl⟩

/-- A block of the right size is taken out of the circle. -/
lemma Shape.take_exact (hs : Shape h (l₁ ++ c :: l₃) ls) :
    Shape { h.setPtr (lastNode h.base l₁) (h.ptr c.1) with freep := some (lastNode h.base l₁) }
      (l₁ ++ l₃) (c :: ls) where
  base := (size_setPtr ..).trans hs.base
  circle := by
    obtain ⟨l, hl⟩ := exists_concat h.base l₁
    have hnodup := hs.nodup
    rw [map_append, ← cons_append, hl, append_assoc, nodup_append,
      singleton_append, nodup_cons] at hnodup
    have hnodes : h.base :: (l₁ ++ l₃).map Prod.fst ++ [h.base] =
        l ++ lastNode h.base l₁ :: (l₃.map Prod.fst ++ [h.base]) := by
      rw [map_append, ← cons_append, hl]
      simp
    have hright : Linked h.ptr (c.1 :: l₃.map Prod.fst ++ [h.base]) :=
      List.IsChain.tail (linked_right hs.circle)
    have hleft : Linked h.ptr (h.base :: l₁.map Prod.fst) := linked_left hs.circle fun _ _ => rfl
    rw [hl] at hleft
    show Linked (h.setPtr (lastNode h.base l₁) (h.ptr c.1)).ptr
      (h.base :: (l₁ ++ l₃).map Prod.fst ++ [h.base])
    rw [hnodes, linked_split]
    refine ⟨hleft.congr fun x hx => ?_, hright.replace ?_ fun x hx => ?_⟩
    · rw [ptr_setPtr, if_neg (hnodup.2.2 x hx _ mem_cons_self)]
    · rw [ptr_setPtr, if_pos rfl]
    · rw [ptr_setPtr, if_neg]
      rintro rfl
      exact hnodup.2.1.1 (mem_cons_of_mem _ hx)
  start := ⟨lastNode h.base l₁, rfl, lastNode_mem h.base l₁ l₃⟩
  sorted := hs.sorted.sublist (List.Sublist.append_left (sublist_cons_self c l₃) l₁)
  blocks := by
    refine Blocks.perm ?_ ((perm_between c l₁ l₃ ls).trans perm_middle.symm)
    exact hs.blocks.congr ⟨rfl, rfl, rfl, rfl⟩ fun b _ => size_setPtr ..

/-- The tail of a larger block is cut off. -/
lemma Shape.take_tail {s : Nat} (hs : Shape h (l₁ ++ c :: l₃) ls) (hlimit : h.limit < 2 ^ 32)
    (hc : c.2 = s + n) (hpos : 0 < s) (hn : 0 < n) :
    Shape { (h.setSize c.1 s).setSize (skip c.1 s) n with freep := some (lastNode h.base l₁) }
      (l₁ ++ (c.1, s) :: l₃) ((skip c.1 s, n) :: ls) := by
  have hblocks : Blocks h ((c.1, s + n) :: (l₁ ++ l₃ ++ ls)) := by
    rw [← hc]
    exact hs.blocks.perm (perm_between c l₁ l₃ ls)
  have hunits := hblocks.le_units mem_cons_self
  have hlim := hblocks.limit
  have hs32 : s % 2 ^ 32 = s := Nat.mod_eq_of_lt (by omega)
  have hn32 : n % 2 ^ 32 = n := Nat.mod_eq_of_lt (by omega)
  have hbase : h.base < c.1 := hs.blocks.base_lt (by simp)
  have hinner : c.1 ≠ skip c.1 s := by
    simp only [skip, headerSize]
    omega
  -- no other header is where the new one is
  have hother : ∀ b ∈ l₁ ++ l₃ ++ ls, b.1 ≠ c.1 ∧ b.1 ≠ skip c.1 s := by
    intro b hb
    have hbpos := hblocks.pos (mem_cons_of_mem _ hb)
    have hsplit : Blocks h ([(c.1, s + n)] ++ (l₁ ++ l₃ ++ ls)) := hblocks
    have := hsplit.apart mem_cons_self hb
    simp only [skip, headerSize] at this ⊢
    omega
  refine ⟨?_, ?_, ⟨_, rfl, ?_⟩, ?_, ?_⟩
  · refine (size_setSize ..).trans ?_
    rw [if_neg, size_setSize, if_neg]
    · exact hs.base
    · exact Nat.ne_of_lt hbase
    · show h.base ≠ skip c.1 s
      simp only [skip]
      omega
  · have hcircle := hs.circle
    rw [map_append, map_cons] at hcircle ⊢
    exact hcircle.congr (l := h.base :: (l₁.map Prod.fst ++ c.1 :: l₃.map Prod.fst)) fun x _ => by
      refine (ptr_setSize ..).trans ?_
      rw [ptr_setSize]
  · exact lastNode_mem h.base l₁ ((c.1, s) :: l₃)
  · obtain ⟨h₁, h₂, h₁₂⟩ := pairwise_append.1 hs.sorted
    obtain ⟨hc₃, h₃⟩ := pairwise_cons.1 h₂
    refine pairwise_append.2 ⟨h₁, pairwise_cons.2 ⟨fun d hd => ?_, h₃⟩, fun d hd => ?_⟩
    · have := hc₃ d hd
      simp only [Before, skip, headerSize] at this ⊢
      omega
    · exact forall_mem_cons.2 ⟨h₁₂ d hd c mem_cons_self,
        fun e he => h₁₂ d hd e (mem_cons_of_mem c he)⟩
  · have hperm : ((c.1, s) :: (skip c.1 s, n) :: (l₁ ++ l₃ ++ ls)).Perm
        (l₁ ++ (c.1, s) :: l₃ ++ (skip c.1 s, n) :: ls) :=
      (perm_middle.symm.cons _).trans (perm_between (c.1, s) l₁ l₃ _).symm
    refine Blocks.perm ?_ hperm
    refine hblocks.cut ⟨rfl, rfl, rfl, rfl⟩ hpos hn (fun b hb => ?_) ?_ ?_
    · refine (size_setSize ..).trans ?_
      rw [if_neg (hother b hb).2, size_setSize, if_neg (hother b hb).1]
    · refine (size_setSize ..).trans ?_
      rw [if_neg hinner, size_setSize, if_pos rfl, hs32]
    · refine (size_setSize ..).trans ?_
      rw [if_pos rfl, hn32]

end Take

/-- A block that is large enough gives the program its units. -/
lemma Shape.take_spec {h : Heap} {fs ls : List (Nat × Nat)} {c : Nat × Nat} {n p : Nat}
    (hs : Shape h fs ls) (hlimit : h.limit < 2 ^ 32) (hp : p ∈ h.base :: fs.map Prod.fst)
    (hc : c ∈ fs) (hptr : h.ptr p = c.1) (hn : 0 < n) (hle : n ≤ c.2) :
    ∃ fs', Shape (h.take n p c.1).1 fs' (((h.take n p c.1).2, n) :: ls) ∧
      Same h (h.take n p c.1).1 := by
  obtain ⟨l₁, l₃, rfl, rfl⟩ := hs.split_at hp hc hptr
  have hsize : h.size c.1 = c.2 := hs.blocks.size c (by simp)
  have hunits := hs.blocks.le_units (mem_append_left ls hc)
  have hlim := hs.blocks.limit
  unfold Heap.take
  rw [hsize]
  split
  next heq =>
    refine ⟨l₁ ++ l₃, ?_, ⟨rfl, rfl, rfl, rfl⟩⟩
    rw [← heq]
    exact hs.take_exact
  next hne =>
    have hmod : (c.2 - n) % 2 ^ 32 = c.2 - n := Nat.mod_eq_of_lt (by omega)
    dsimp only
    rw [size_setSize, if_pos rfl, hmod]
    exact ⟨_, hs.take_tail hlimit (by omega) (by omega) hn, ⟨rfl, rfl, rfl, rfl⟩⟩

/-! ## A new region -/

/-- What later calls need to know of the system: `base` is below the heap, and sizes
fit in their headers. -/
structure Room (h : Heap) : Prop where
  top : skip h.base 1 ≤ h.top
  limit : h.limit < 2 ^ 32

lemma Room.same {h h' : Heap} (hr : Room h) (hs : Same h h') : Room h' := by
  refine ⟨?_, ?_⟩
  · rw [hs.base, hs.top]
    exact hr.top
  · rw [hs.limit]
    exact hr.limit

/-- The heap with a region that is not in the free list yet. -/
lemma Shape.region {h : Heap} {fs ls : List (Nat × Nat)} {nu : Nat} (hs : Shape h fs ls)
    (gap : Nat) (hr : Room h) (hnu : 0 < nu) (hroom : h.units + nu ≤ h.limit) :
    Shape ((h.grow gap nu).setSize (h.top + gap) nu) fs ((h.top + gap, nu) :: ls) := by
  have hlim := hr.limit
  have htop := hr.top
  have hmod : nu % 2 ^ 32 = nu := Nat.mod_eq_of_lt (by omega)
  have hother : ∀ b ∈ fs ++ ls, b.1 ≠ h.top + gap := by
    intro b hb
    have hpos := hs.blocks.pos hb
    have := hs.blocks.below b hb
    simp only [skip, headerSize] at this
    omega
  have hbase : h.base ≠ h.top + gap := by
    simp only [skip, headerSize] at htop
    omega
  refine ⟨?_, ?_, hs.start, hs.sorted, ?_⟩
  · refine (size_setSize ..).trans ?_
    exact (if_neg hbase).trans hs.base
  · exact hs.circle.congr fun x _ => ptr_setSize ..
  · refine Blocks.perm ?_ perm_middle.symm
    refine ⟨?_, ?_, ?_, ?_, ?_, ?_⟩
    · refine forall_mem_cons.2 ⟨?_, fun b hb => ?_⟩
      · exact (size_setSize ..).trans ((if_pos rfl).trans hmod)
      · exact (size_setSize ..).trans ((if_neg (hother b hb)).trans (hs.blocks.size b hb))
    · exact forall_mem_cons.2 ⟨Nat.le_trans htop (Nat.le_add_right _ _), hs.blocks.above⟩
    · refine forall_mem_cons.2 ⟨Nat.le_refl _, fun b hb => ?_⟩
      have := hs.blocks.below b hb
      show skip b.1 b.2 ≤ skip (h.top + gap) nu
      simp only [skip] at this ⊢
      omega
    · have hmem : ((h.grow gap nu).setSize (h.top + gap) nu).memory =
          span (bytes (h.top + gap, nu)) ∪ h.memory := by
        ext x
        simp [Heap.memory, Heap.setSize, grow]
      rw [hmem]
      refine hs.blocks.tiles.add ?_ fun b hb => ?_
      · simp only [bytes, headerSize]
        omega
      · obtain ⟨c, hc, rfl⟩ := mem_map.1 hb
        refine .inr (Nat.le_trans (hs.blocks.below c hc) (Nat.le_add_right _ _))
    · have hunits := hs.blocks.units
      show nu + ((fs ++ ls).map Prod.snd).sum = nu + h.units
      rw [hunits]
    · show nu + h.units ≤ h.limit
      omega

/-- `morecore` gives up, or puts a block of enough units into the free list. -/
lemma Shape.morecore_spec {h : Heap} {fs ls : List (Nat × Nat)} (hs : Shape h fs ls)
    (hr : Room h) (n : Nat) (answer : Option Nat) :
    h.morecore n answer = some (h, none) ∨
      ∃ h' fs' p, h.morecore n answer = some (h', some p) ∧ h'.freep = some p ∧ Shape h' fs' ls ∧
        Room h' ∧ fs'.length ≤ fs.length + 1 ∧ ∃ c ∈ fs', n ≤ c.2 := by
  have hnu : ∃ nu, (if n < 4096 then 4096 else n) = nu ∧ n ≤ nu ∧ 0 < nu := by
    split
    next hlt => exact ⟨4096, rfl, Nat.le_of_lt hlt, by decide⟩
    next hge => exact ⟨n, rfl, Nat.le_refl n, by omega⟩
  obtain ⟨nu, heq, hle, hpos⟩ := hnu
  unfold morecore
  rw [heq]
  cases answer with
  | none => exact .inl rfl
  | some gap =>
    simp only [sbrk]
    split
    next => exact .inl rfl
    next hp h₁ hsbrk =>
      split at hsbrk
      next hroom =>
        cases hsbrk
        have hshape := hs.region gap hr hpos hroom
        have hlimit : ((h.grow gap nu).setSize (h.top + gap) nu).limit < 2 ^ 32 := hr.limit
        obtain ⟨h', fs', hfree, hshape', hsame, hlen, c, hc, hcle⟩ := hshape.free_spec hlimit
        obtain ⟨p, hp, -⟩ := hshape'.start
        refine .inr ⟨h', fs', p, ?_, hp, hshape', ?_, hlen, c, hc, Nat.le_trans hle hcle⟩
        · simp [hfree, hp]
        · refine Room.same ⟨?_, hlimit⟩ hsame
          have := hr.top
          show skip h.base 1 ≤ skip (h.top + gap) nu
          simp only [skip] at this ⊢
          omega
      next => cases hsbrk

/-! ## The loop of `malloc` -/

/-- The loop stands at a block that is large enough. -/
structure Found (h : Heap) (fs : List (Nat × Nat)) (n prevp p : Nat) : Prop where
  prev : prevp ∈ h.base :: fs.map Prod.fst
  ptr : h.ptr prevp = p
  block : ∃ c ∈ fs, c.1 = p ∧ n ≤ c.2

/-- A node with enough units is a block, since `base` has none. -/
lemma Shape.block_of_size {h : Heap} {fs ls : List (Nat × Nat)} {n p : Nat} (hs : Shape h fs ls)
    (hp : p ∈ h.base :: fs.map Prod.fst) (hn : 0 < n) (hsize : n ≤ h.size p) :
    ∃ c ∈ fs, c.1 = p ∧ n ≤ c.2 := by
  rcases mem_cons.1 hp with rfl | hp
  · rw [hs.base] at hsize
    omega
  · obtain ⟨c, hc, rfl⟩ := mem_map.1 hp
    rw [hs.blocks.size c (mem_append_left ls hc)] at hsize
    exact ⟨c, hc, rfl, hsize⟩

/-- A loop that walks along the circle from node to node: it ends with `found` at a block of
`n` units, and goes on with `more` when it meets `freep`. -/
structure Walks {β : Type} (h : Heap) (n : Nat) (loop : Nat → Nat → Nat → β) (found : Nat → Nat → β)
    (more : Nat → β) : Prop where
  found : ∀ k q p, n ≤ h.size p → loop (k + 1) q p = found q p
  more : ∀ k q p, h.size p < n → h.freep = some p → loop (k + 1) q p = more k
  next : ∀ k q p, h.size p < n → h.freep ≠ some p → loop (k + 1) q p = loop k p (h.ptr p)

lemma walks_mallocLoop (h : Heap) (n : Nat) (answers : List (Option Nat)) :
    Walks h n (fun k => mallocLoop n k h answers) (fun q p => some ((h.take n q p).1, some (h.take n q p).2))
      fun k =>
        match h.morecore n answers.head?.join with
        | none => none
        | some (h, none) => some (h, none)
        | some (h, some p) => mallocLoop n k h answers.tail p (h.ptr p) where
  found k q p hsize := by rw [mallocLoop, if_pos hsize]
  more k q p hsize hp := (if_neg (Nat.not_le_of_lt hsize)).trans (if_pos hp)
  next k q p hsize hp := by rw [mallocLoop, if_neg (Nat.not_le_of_lt hsize), if_neg hp]

/-- One walk to `freep`: a block is found on the way, or none is large enough. -/
lemma Shape.pass {β : Type} {h : Heap} {fs ls : List (Nat × Nat)} {n f prevp k : Nat} {ys : List Nat}
    {loop : Nat → Nat → Nat → β} {found : Nat → Nat → β} {more : Nat → β} (hs : Shape h fs ls)
    (hw : Walks h n loop found more) (hf : h.freep = some f) (hn : 0 < n)
    (hl : Linked h.ptr (prevp :: ys ++ [f])) (hprev : prevp ∈ h.base :: fs.map Prod.fst)
    (hys : ∀ y ∈ ys ++ [f], y ∈ h.base :: fs.map Prod.fst) (hfresh : f ∉ ys) :
    (∃ q p, Found h fs n q p ∧ loop (ys.length + 1 + k) prevp (h.ptr prevp) = found q p) ∨
      ((∀ y ∈ ys ++ [f], h.size y < n) ∧ loop (ys.length + 1 + k) prevp (h.ptr prevp) = more k) := by
  induction ys generalizing prevp with
  | nil =>
    have hptr : h.ptr prevp = f := (linked_cons_cons.1 hl).1
    rw [hptr, show ([] : List Nat).length + 1 + k = k + 1 by simp [Nat.add_comm]]
    rcases Nat.lt_or_ge (h.size f) n with hsize | hsize
    · exact .inr ⟨by simpa using hsize, hw.more k prevp f hsize hf⟩
    · exact .inl ⟨prevp, f, ⟨hprev, hptr, hs.block_of_size (hys f (by simp)) hn hsize⟩,
        hw.found k prevp f hsize⟩
  | cons y ys ih =>
    obtain ⟨hptr, hl⟩ := linked_cons_cons.1 hl
    rw [mem_cons, not_or] at hfresh
    rw [cons_append, forall_mem_cons] at hys
    rw [hptr, show (y :: ys).length + 1 + k = ys.length + 1 + k + 1 by simp; omega]
    rcases Nat.lt_or_ge (h.size y) n with hsize | hsize
    · have hne : h.freep ≠ some y := by
        rw [hf]
        exact fun heq => hfresh.1 (Option.some.inj heq)
      rw [hw.next _ prevp y hsize hne]
      rcases ih hl hys.1 hys.2 hfresh.2 with hfound | ⟨hsmall, hloop⟩
      · exact .inl hfound
      · refine .inr ⟨?_, hloop⟩
        rw [cons_append, forall_mem_cons]
        exact ⟨hsize, hsmall⟩
    · exact .inl ⟨prevp, y, ⟨hprev, hptr, hs.block_of_size hys.1 hn hsize⟩, hw.found _ prevp y hsize⟩

/-- A walk from `freep` around the circle. -/
lemma Shape.round {β : Type} {h : Heap} {fs ls : List (Nat × Nat)} {n f : Nat}
    {loop : Nat → Nat → Nat → β} {found : Nat → Nat → β} {more : Nat → β} (hs : Shape h fs ls)
    (hw : Walks h n loop found more) (hf : h.freep = some f) (hn : 0 < n) (k : Nat) :
    (∃ q p, Found h fs n q p ∧ loop (fs.length + 1 + k) f (h.ptr f) = found q p) ∨
      ((∀ c ∈ fs, c.2 < n) ∧ loop (fs.length + 1 + k) f (h.ptr f) = more k) := by
  obtain ⟨q, hq, hmem⟩ := hs.start
  rw [hf] at hq
  cases hq
  obtain ⟨ys, hl, hperm⟩ := hs.circle.rotate hmem
  have hlen : ys.length = fs.length := by simpa using hperm.length_eq
  have hnodup := hperm.nodup_iff.2 hs.nodup
  have hys (y : Nat) : y ∈ ys ++ [f] ↔ y ∈ h.base :: fs.map Prod.fst := by
    rw [← hperm.mem_iff, mem_append, mem_singleton, mem_cons, or_comm]
  rw [← hlen]
  rcases hs.pass hw hf hn hl hmem (fun y hy => (hys y).1 hy) (nodup_cons.1 hnodup).1 with
    hfound | ⟨hsmall, hloop⟩
  · exact .inl hfound
  · refine .inr ⟨fun c hc => ?_, hloop⟩
    rw [← hs.blocks.size c (mem_append_left ls hc)]
    exact hsmall c.1 ((hys c.1).2 (mem_cons_of_mem _ (mem_map_of_mem hc)))

/-- The loop ends. It gives up and leaves everything as it was, or it returns a block
of `n` units. -/
lemma Shape.mallocLoop_spec {h : Heap} {fs ls : List (Nat × Nat)} {n f : Nat}
    (hs : Shape h fs ls) (hr : Room h) (hf : h.freep = some f) (hn : 0 < n)
    (answers : List (Option Nat)) :
    mallocLoop n (2 * h.rounds + 2) h answers f (h.ptr f) = some (h, none) ∨
      ∃ h' fs' p, mallocLoop n (2 * h.rounds + 2) h answers f (h.ptr f) = some (h', some p) ∧
        Shape h' fs' ((p, n) :: ls) ∧ Room h' := by
  have hrounds : fs.length < h.rounds := Nat.lt_succ_of_le hs.blocks.length_le
  obtain ⟨k, hk⟩ : ∃ k, 2 * h.rounds + 2 = fs.length + 1 + k ∧ fs.length + 2 ≤ k :=
    ⟨2 * h.rounds + 2 - (fs.length + 1), by omega, by omega⟩
  rw [hk.1]
  rcases hs.round (walks_mallocLoop h n answers) hf hn k with ⟨q, p, hfound, hloop⟩ | ⟨-, hloop⟩
  · obtain ⟨hprev, hptr, c, hc, rfl, hle⟩ := hfound
    obtain ⟨fs', hshape, hsame⟩ := hs.take_spec hr.limit hprev hc hptr hn hle
    exact .inr ⟨_, fs', _, hloop, hshape, hr.same hsame⟩
  · rcases hs.morecore_spec hr n answers.head?.join with
      hfail | ⟨h₁, fs₁, p, hmore, hp, hs₁, hr₁, hlen, c, hc, hle⟩
    · rw [hloop, hfail]
      exact .inl rfl
    · rw [hloop, hmore]
      obtain ⟨k', rfl⟩ : ∃ k', k = fs₁.length + 1 + k' := ⟨k - (fs₁.length + 1), by omega⟩
      -- now there is a large block, and the second walk finds one
      rcases hs₁.round (walks_mallocLoop h₁ n answers.tail) hp hn k' with ⟨q, r, hfound, hloop'⟩ | ⟨hsmall, -⟩
      · obtain ⟨hprev, hptr, d, hd, rfl, hdle⟩ := hfound
        obtain ⟨fs', hshape, hsame⟩ := hs₁.take_spec hr₁.limit hprev hd hptr hn hdle
        exact .inr ⟨_, fs', _, hloop', hshape, hr₁.same hsame⟩
      · exact absurd hle (Nat.not_le_of_lt (hsmall c hc))

/-! ## Runs -/

/-- The blocks of the program, as their headers describe them. -/
def State.blocks (s : State) : List (Nat × Nat) := s.live.map fun l => (l.1, s.heap.size l.1)

/-- What holds between two calls. Before the first `malloc` there is nothing. Then
there is a free list that fits, and every block of the program has room for the bytes
that it asked for behind the header. -/
def Good (s : State) : Prop :=
  (s.heap.freep = none ∧ s.heap.regions = [] ∧ s.live = []) ∨
    ((∃ fs, Shape s.heap fs s.blocks) ∧
      ∀ l ∈ s.live, l.2 + headerSize ≤ headerSize * s.heap.size l.1)

lemma nunits_pos (n : Nat) : 0 < nunits n := Nat.succ_pos _

lemma le_nunits (n : Nat) : n + headerSize ≤ headerSize * nunits n := by
  simp only [nunits, headerSize]
  omega

/-- The blocks that stay keep their sizes. -/
lemma Shape.live_eq {h : Heap} {fs ls live : List (Nat × Nat)} {size : Nat → Nat}
    (hs : Shape h fs ls) (hls : (live.map fun l => (l.1, size l.1)) ⊆ ls) :
    ∀ l ∈ live, h.size l.1 = size l.1 := by
  intro l hl
  have hmem : (l.1, size l.1) ∈ ls := hls (mem_map.2 ⟨l, hl, rfl⟩)
  exact hs.blocks.size _ (mem_append_right fs hmem)

lemma map_live {h : Heap} {live : List (Nat × Nat)} {size : Nat → Nat}
    (hsize : ∀ l ∈ live, h.size l.1 = size l.1) :
    (live.map fun l => (l.1, h.size l.1)) = live.map fun l => (l.1, size l.1) :=
  map_congr_left fun l hl => by rw [hsize l hl]

lemma Shape.perm {h : Heap} {fs ls ls' : List (Nat × Nat)} (hs : Shape h fs ls)
    (hp : ls.Perm ls') : Shape h fs ls' :=
  ⟨hs.base, hs.circle, hs.start, hs.sorted, hs.blocks.perm (hp.append_left fs)⟩

/-- The circle of the first call: `base` alone. -/
lemma shape_base {h : Heap} (hregions : h.regions = []) :
    Shape { (h.setPtr h.base h.base).setSize h.base 0 with freep := some h.base } [] [] := by
  refine ⟨?_, ?_, ⟨h.base, rfl, mem_cons_self⟩, .nil, ?_⟩
  · exact (size_setSize ..).trans (if_pos rfl)
  · refine linked_cons_cons.2 ⟨?_, isChain_singleton _⟩
    refine (ptr_setSize ..).trans ?_
    exact (ptr_setPtr ..).trans (if_pos rfl)
  · have hunits : h.units = 0 := by simp [Heap.units, hregions]
    refine ⟨by simp, by simp, by simp, ?_, hunits.symm, ?_⟩
    · have hmem : h.memory = ∅ := by
        ext x
        simp [Heap.memory, hregions]
      show Tiles [] h.memory
      rw [hmem]
      exact tiles_nil
    · show h.units ≤ h.limit
      omega

/-- What a `malloc` that has ended leaves behind. -/
lemma good_malloc {h' : Heap} {fs live : List (Nat × Nat)} {p n : Nat} {size : Nat → Nat}
    (hs : Shape h' fs ((p, nunits n) :: live.map fun l => (l.1, size l.1)))
    (hlive : ∀ l ∈ live, l.2 + headerSize ≤ headerSize * size l.1) :
    Good { heap := h', live := (p, n) :: live } := by
  have hp : h'.size p = nunits n := hs.blocks.size (p, nunits n) (by simp)
  have hsize := hs.live_eq (subset_cons_self _ _)
  refine .inr ⟨⟨fs, ?_⟩, forall_mem_cons.2 ⟨?_, fun l hl => ?_⟩⟩
  · rw [State.blocks, map_cons, map_live hsize, hp]
    exact hs
  · show n + headerSize ≤ headerSize * h'.size p
    rw [hp]
    exact le_nunits n
  · show l.2 + headerSize ≤ headerSize * h'.size l.1
    rw [hsize l hl]
    exact hlive l hl

/-- Every `malloc` returns, and the heap is good again. -/
lemma Good.malloc_spec {s : State} (hg : Good s) (hr : Room s.heap) (n : Nat)
    (answers : List (Option Nat)) :
    ∃ h' r, s.heap.malloc n answers = some (h', r) ∧ Room h' ∧
      Good { heap := h', live := match r with | none => s.live | some p => (p, n) :: s.live } := by
  rcases hg with ⟨hfreep, hregions, hnil⟩ | ⟨⟨fs, hs⟩, hlive⟩
  · have hs := shape_base hregions
    have hr₀ : Room { (s.heap.setPtr s.heap.base s.heap.base).setSize s.heap.base 0 with
        freep := some s.heap.base } := hr.same ⟨rfl, rfl, rfl, rfl⟩
    rw [malloc, hfreep]
    rcases hs.mallocLoop_spec hr₀ rfl (nunits_pos n) answers with
      hloop | ⟨h', fs', p, hloop, hs', hr'⟩
    · refine ⟨_, none, hloop, hr₀, .inr ⟨⟨[], ?_⟩, ?_⟩⟩
      · rw [State.blocks, hnil]
        exact hs
      · simp [hnil]
    · refine ⟨h', some p, hloop, hr', ?_⟩
      have hlive : ∀ l ∈ s.live, l.2 + headerSize ≤ headerSize * s.heap.size l.1 := by simp [hnil]
      have hs'' : Shape h' fs' ((p, nunits n) :: s.live.map fun l => (l.1, s.heap.size l.1)) := by
        rw [hnil]
        exact hs'
      exact good_malloc hs'' hlive
  · obtain ⟨f, hf, -⟩ := hs.start
    rw [malloc, hf]
    rcases hs.mallocLoop_spec hr hf (nunits_pos n) answers with
      hloop | ⟨h', fs', p, hloop, hs', hr'⟩
    · exact ⟨s.heap, none, hloop, hr, .inr ⟨⟨fs, hs⟩, hlive⟩⟩
    · exact ⟨h', some p, hloop, hr', good_malloc hs' hlive⟩

/-- Every `free` of a block of the program returns, and the heap is good again. -/
lemma Good.free_spec {s : State} (hg : Good s) (hr : Room s.heap) {b : Nat × Nat}
    (hb : b ∈ s.live) :
    ∃ h', s.heap.free b.1 = some h' ∧ Room h' ∧ Good { heap := h', live := s.live.erase b } := by
  rcases hg with ⟨-, -, hnil⟩ | ⟨⟨fs, hs⟩, hlive⟩
  · rw [hnil] at hb
    cases hb
  · have hs' : Shape s.heap fs ((b.1, s.heap.size b.1) ::
        (s.live.erase b).map fun l => (l.1, s.heap.size l.1)) :=
      hs.perm ((perm_cons_erase hb).map fun l : Nat × Nat => (l.1, s.heap.size l.1))
    obtain ⟨h', fs', hfree, hshape, hsame, -⟩ := hs'.free_spec hr.limit
    have hsize := hshape.live_eq (List.Subset.refl _)
    refine ⟨h', hfree, hr.same hsame, .inr ⟨⟨fs', ?_⟩, fun l hl => ?_⟩⟩
    · rw [State.blocks, map_live hsize]
      exact hshape
    · show l.2 + headerSize ≤ headerSize * h'.size l.1
      rw [hsize l hl]
      exact hlive l (mem_of_mem_erase hl)

lemma step_good {s s' : State} {op : Op} (hg : Good s) (hr : Room s.heap)
    (hstep : step s op = some s') : Good s' ∧ Room s'.heap := by
  cases op with
  | malloc n answers =>
    obtain ⟨h', r, hmalloc, hr', hg'⟩ := hg.malloc_spec hr n answers
    simp only [step, hmalloc] at hstep
    split at hstep
    next =>
      cases r with
      | none | some p =>
        cases hstep
        exact ⟨hg', hr'⟩
    next => cases hstep
  | free bp =>
    simp only [step] at hstep
    split at hstep
    next => cases hstep
    next b hfind =>
      have hb : b ∈ s.live := mem_of_find?_eq_some hfind
      have hbp : b.1 = bp := by simpa using find?_some hfind
      obtain ⟨h', hfree, hr', hg'⟩ := hg.free_spec hr hb
      rw [← hbp, hfree] at hstep
      cases hstep
      exact ⟨hg', hr'⟩

/-- In every run of a program the heap is as it should be between two calls, and every
call returns. -/
theorem heap_run {base top limit : Nat} (hbase : base + headerSize ≤ top) (hlimit : limit < 2 ^ 32)
    {ops : List Op} {s : State} (hrun : Lib.run step (init base top limit) ops = some s) :
    Good s ∧ (∀ n answers, Small n → (s.heap.malloc n answers).isSome) ∧
      ∀ b ∈ s.live, (s.heap.free b.1).isSome := by
  have hinv : Good s ∧ Room s.heap := by
    refine Lib.run_induction (P := fun _ s => Good s ∧ Room s.heap) hrun ?_ ?_
    · exact ⟨.inl ⟨rfl, rfl, rfl⟩, by simpa [init, skip] using hbase, hlimit⟩
    · exact fun _ _ _ _ hP hstep => step_good hP.1 hP.2 hstep
  obtain ⟨hg, hr⟩ := hinv
  refine ⟨hg, fun n answers _ => ?_, fun b hb => ?_⟩
  · obtain ⟨h', r, hmalloc, -⟩ := hg.malloc_spec hr n answers
    rw [hmalloc]
    rfl
  · obtain ⟨h', hfree, -⟩ := hg.free_spec hr hb
    rw [hfree]
    rfl

/-- A block of 100 bytes is allocated and freed on a machine with 128 MiB. -/
theorem heap_run_once :
    (Lib.run step (init 0 16 (2 ^ 23)) [.malloc 100 [some 0], .free 65424]).isSome ∧
    ∀ s, Lib.run step (init 0 16 (2 ^ 23)) [.malloc 100 [some 0], .free 65424] = some s →
      Good s :=
  ⟨by decide +kernel, fun _ hrun => (heap_run (by decide) (by decide) hrun).1⟩

/-! ## Sizes that do not fit -/

/-- A program that takes 33 times as much as it can ask for at once, and gives it back
in the same order. -/
def manyBlocks : List Op :=
  replicate 33 (.malloc (2 ^ 31 - 32) [some 0]) ++
    (range 33).map fun i => .free (16 + i * (2 ^ 31 - 16))

lemma manyBlocks_eq :
    (Lib.run step (init 0 16 (2 ^ 33)) manyBlocks).map
      (fun s => (s.live, s.heap.freep,
        [s.heap.base, s.heap.ptr 0, s.heap.ptr 16, s.heap.size 16, s.heap.units])) =
      some ([], some 16, [0, 16, 0, 2 ^ 27 - 33, 33 * (2 ^ 27 - 1)]) := by
  decide +kernel

/-- The only free block of a circle through two nodes. -/
lemma Shape.two_nodes {h : Heap} {fs ls : List (Nat × Nat)} {p : Nat} (hs : Shape h fs ls)
    (hbase : h.ptr h.base = p) (hp : h.ptr p = h.base) (hne : p ≠ h.base) :
    fs = [(p, h.size p)] := by
  have hcircle := hs.circle
  cases fs with
  | nil => exact absurd (hbase.symm.trans (linked_cons_cons.1 hcircle).1) hne
  | cons b fs =>
    obtain ⟨hb, hcircle⟩ := linked_cons_cons.1 hcircle
    have hbp : b.1 = p := hb.symm.trans hbase
    have hsize : h.size b.1 = b.2 := hs.blocks.size b (by simp)
    cases fs with
    | nil => rw [← hbp, hsize]
    | cons c fs =>
      have hc : h.ptr b.1 = c.1 := (linked_cons_cons.1 hcircle).1
      rw [hbp, hp] at hc
      exact absurd hc (Nat.ne_of_lt (hs.blocks.base_lt (by simp)))

/-- On a machine with 128 GiB the program ends with one free block whose header says
that it has fewer units than `sbrk` has returned. -/
theorem heap_overflow :
    ∃ s, Lib.run step (init 0 16 (2 ^ 33)) manyBlocks = some s ∧ ¬ Good s := by
  obtain ⟨s, hrun, heq⟩ := Option.map_eq_some_iff.1 manyBlocks_eq
  simp only [Prod.mk.injEq, cons.injEq, and_true] at heq
  obtain ⟨hlive, hfreep, hbase, hptr, hptr', hsize, hunits⟩ := heq
  refine ⟨s, hrun, fun hg => ?_⟩
  rcases hg with ⟨hnone, -⟩ | ⟨⟨fs, hs⟩, -⟩
  · rw [hfreep] at hnone
    cases hnone
  · have hfs := hs.two_nodes (p := 16) (by rw [hbase, hptr]) (by rw [hptr', hbase]) (by simp [hbase])
    have hsum := hs.blocks.units
    rw [hfs, State.blocks, hlive, hsize, hunits] at hsum
    simp at hsum

end Xv6.Malloc
