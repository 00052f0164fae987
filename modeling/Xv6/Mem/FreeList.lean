import Xv6.Lib.Ends
import Xv6.Mem.CopySpec

/-!
# The free list

`Heap` says which pages are free. Here the free list is the list of its pages, in
order: `kfree` puts a page before the others, and `kalloc` takes the first. So a
program that does not allocate has called `kfree` for exactly the pages that are
new in front of the list.
-/

namespace Xv6.Mem

open Function Lib

section

variable {m : Bytes} {a : Nat} {F F' : List Nat}

lemma Chain.unique (h : Chain m a F) (h' : Chain m a F') : F = F' := by
  induction F generalizing a F' with
  | nil =>
    cases F' with
    | nil => rfl
    | cons q' F' =>
      obtain ⟨ha, hq, -⟩ := h'
      have hz : a = 0 := h
      omega
  | cons q F ih =>
    obtain ⟨ha, hq, hrest⟩ := h
    cases F' with
    | nil =>
      have hz : a = 0 := h'
      omega
    | cons q' F' =>
      obtain ⟨ha', -, hrest'⟩ := h'
      obtain rfl : q = q' := by omega
      rw [ih hrest hrest']

end

/-- The pages of the free list. -/
def freePages (s : Phys) : Set Nat := {q | ∃ F, Chain s.mem s.freelist F ∧ q ∈ F}

/-- The free list is `F`, and its pages are those that the owner map calls free. -/
structure FreeList (s : Phys) (o : Nat → Owner) (F : List Nat) : Prop where
  chain : Chain s.mem s.freelist F
  nodup : F.Nodup
  mem_iff : ∀ q, q ∈ F ↔ o q = .free

variable {s s' s'' : Phys} {o o' o'' : Nat → Owner} {F L L' : List Nat} {q : Nat}

/-- Programs that leave the free pages alone leave the list alone. -/
lemma FreeList.congr (h : FreeList s o F) (hlist : s'.freelist = s.freelist)
    (hmem : ∀ q, o q = .free → Agree s.mem s'.mem q) (ho : ∀ q, o' q = .free ↔ o q = .free) :
    FreeList s' o' F where
  chain := by
    rw [hlist]
    exact h.chain.congr fun q hq => hmem q ((h.mem_iff q).mp hq)
  nodup := h.nodup
  mem_iff := fun q => (h.mem_iff q).trans (ho q).symm

lemma FreeList.mem_freePages (h : FreeList s o F) : q ∈ freePages s ↔ o q = .free := by
  rw [← h.mem_iff q]
  constructor
  · rintro ⟨F', hchain, hq⟩
    rwa [h.chain.unique hchain]
  · exact fun hq => ⟨F, h.chain, hq⟩

/-- The first page of the list is taken. -/
lemma FreeList.take (h : FreeList s o F) (hs : s.freelist = 4096 * q) (hq : q ≠ 0) :
    ∃ F', F = q :: F' ∧ FreeList (s.take q) (update o q .temp) F' := by
  cases F with
  | nil =>
    have hz : s.freelist = 0 := h.chain
    omega
  | cons q' F' =>
    obtain ⟨ha, -, hrest⟩ := h.chain
    obtain rfl : q = q' := by omega
    obtain ⟨hnot, hnodup⟩ := List.nodup_cons.mp h.nodup
    refine ⟨F', rfl, hrest.congr fun q' hq' => s.agree_take ?_, hnodup, fun q' => ?_⟩
    · rintro rfl
      exact hnot hq'
    · by_cases he : q' = q
      · subst he
        rw [update_self]
        exact ⟨fun hm => absurd hm hnot, fun hf => by cases hf⟩
      · rw [update_of_ne he, ← h.mem_iff q', List.mem_cons]
        exact ⟨.inr, fun hor => hor.resolve_left he⟩

variable [Layout] {R : Tag → Option Nat}

lemma Heap.freeList (h : Heap s R o) : ∃ F, FreeList s o F := by
  obtain ⟨F, hchain, hnodup, hF⟩ := h.free
  exact ⟨F, hchain, hnodup, hF⟩

lemma Heap.mem_freePages (h : Heap s R o) : q ∈ freePages s ↔ o q = .free := by
  obtain ⟨F, hF⟩ := h.freeList
  exact hF.mem_freePages

omit [Layout] in
/-- `kalloc` returns the head of the list. -/
lemma kalloc_head {pa : Nat} (h : kalloc s = .ok (pa, s')) : pa = s.freelist := by
  have hcases : kalloc s = .ok (s.freelist,
      if s.freelist ≠ 0 then
        { s with mem := fill s.mem s.freelist 5 pgSize, freelist := getLE s.mem s.freelist 8 }
      else s) := by
    show (if s.freelist ≠ 0 then _ else _ : PhysM Nat) s = _
    split <;> rfl
  rw [hcases] at h
  cases h
  rfl

lemma kalloc_list (h : Heap s R o) :
    Returns kalloc s fun pa s' => pa = s.freelist ∧ (pa = 0 ∧ s' = s ∧ (∀ q, o q ≠ .free) ∨
      ∃ q, pa = 4096 * q ∧ q ≠ 0 ∧ o q = .free ∧ s' = s.take q ∧
        Heap s' R (update o q .temp)) := by
  obtain ⟨pa, s', hk, hspec⟩ := kalloc_spec h
  exact ⟨pa, s', hk, kalloc_head hk, hspec⟩

/-- A page is put before the others. -/
lemma FreeList.release (h : FreeList s o F) (hheap : Heap s R o) (hq : (o q).Plain) :
    FreeList (s.release q) (update o q .free) (q :: F) := by
  have hne : ∀ q' ∈ F, q' ≠ q := by
    rintro q' hq' rfl
    rw [(h.mem_iff q').mp hq'] at hq
    exact hq
  refine ⟨⟨rfl, inArea_pos (hheap.inArea hq.ne_outside), ?_⟩, ?_, fun q' => ?_⟩
  · have hnext : getLE (s.release q).mem (4096 * q) 8 = s.freelist := by
      unfold Phys.release
      rw [getLE_putLE]
      exact Nat.mod_eq_of_lt hheap.freelist_lt
    rw [hnext]
    exact h.chain.congr fun q' hq' => s.agree_release (hne q' hq')
  · exact List.nodup_cons.mpr ⟨fun hm => hne q hm rfl, h.nodup⟩
  · by_cases he : q' = q
    · subst he
      simp
    · rw [update_of_ne he, List.mem_cons, h.mem_iff q']
      exact ⟨fun hor => hor.resolve_left he, .inr⟩

/-! ## Programs that neither allocate nor free -/

section

omit [Layout]

/-- `walk` without allocation changes nothing. -/
lemma walkLevels_keeps (va : Nat) (level pagetable : Nat) :
    Ends (walkLevels va false level pagetable) s (fun _ s' => s' = s) fun _ => True := by
  induction level generalizing pagetable with
  | zero => exact ends_pure rfl
  | succ level ih =>
    rw [walkLevels]
    refine ends_bind_of_eq (m := load64 _) rfl ?_
    split
    next => exact ih _
    next =>
      rw [if_pos rfl]
      exact ends_pure rfl

lemma walkaddr_keeps (pagetable va : Nat) :
    Ends (walkaddr pagetable va) s (fun _ s' => s' = s) fun _ => True := by
  unfold walkaddr
  split
  next => exact ends_pure rfl
  next hva =>
    unfold walk
    rw [if_neg hva]
    refine Ends.bind (Q := fun _ s' => s' = s) ?_ ?_
    · refine (walkLevels_keeps va 2 pagetable).bind ?_
      rintro (_ | a) s' rfl
      · exact ends_pure rfl
      · exact ends_pure rfl
    · rintro pte s' rfl
      split
      next => exact ends_pure rfl
      next =>
        refine ends_bind_of_eq (m := load64 _) rfl ?_
        split
        next => exact ends_pure rfl
        next =>
          split
          next => exact ends_pure rfl
          next => exact ends_pure rfl

lemma copyoutRounds_freelist (pagetable fuel dstva : Nat) (src : List UInt8) :
    Ends (copyoutRounds pagetable fuel dstva src) s (fun _ s' => s'.freelist = s.freelist)
      fun _ => True := by
  induction fuel generalizing s dstva src with
  | zero => exact ends_pure rfl
  | succ fuel ih =>
    rw [copyoutRounds]
    split
    next => exact ends_pure rfl
    next =>
      refine (walkaddr_keeps pagetable _).bind ?_
      rintro pa s' rfl
      split
      next => exact ends_pure rfl
      next => exact ends_modify_bind (ih _ _)

/-- `copyout` leaves the free list alone. -/
lemma copyout_freelist (pagetable dstva : Nat) (src : List UInt8) :
    Ends (copyout pagetable dstva src) s (fun _ s' => s'.freelist = s.freelist) fun _ => True :=
  copyoutRounds_freelist pagetable _ dstva src

end

/-! ## Programs that free the pages of pipes -/

section

omit [Layout]

/-- What has happened when the only calls were `kfree` for the pages `L`, the last one
first, and these were pages of pipes. -/
structure Dropped (s : Phys) (o : Nat → Owner) (s' : Phys) (o' : Nat → Owner) (L : List Nat) :
    Prop where
  list : ∀ {F}, FreeList s o F → FreeList s' o' (L ++ F)
  pipe : ∀ {q}, q ∈ L → o q = .pipe ∧ o' q = .free
  other : ∀ {q}, q ∉ L → o' q = o q

lemma Dropped.refl (s : Phys) (o : Nat → Owner) : Dropped s o s o [] :=
  ⟨id, fun hq => absurd hq List.not_mem_nil, fun _ => rfl⟩

lemma Dropped.trans (h : Dropped s o s' o' L) (h' : Dropped s' o' s'' o'' L') :
    Dropped s o s'' o'' (L' ++ L) := by
  refine ⟨fun hF => ?_, fun {q} hq => ?_, fun {q} hq => ?_⟩
  · rw [List.append_assoc]
    exact h'.list (h.list hF)
  · rcases List.mem_append.mp hq with hq | hq
    · -- a page that the second part frees was not free before
      have hnot : q ∉ L := fun hL => by
        have hfree := (h.pipe hL).2
        rw [(h'.pipe hq).1] at hfree
        cases hfree
      exact ⟨(h.other hnot).symm.trans (h'.pipe hq).1, (h'.pipe hq).2⟩
    · have hnot : q ∉ L' := fun hL => by
        have hpipe := (h'.pipe hL).1
        rw [(h.pipe hq).2] at hpipe
        cases hpipe
      exact ⟨(h.pipe hq).1, (h'.other hnot).trans (h.pipe hq).2⟩
  · rw [List.mem_append, not_or] at hq
    exact (h'.other hq.1).trans (h.other hq.2)

lemma Dropped.mem_iff (h : Dropped s o s' o' L) : q ∈ L ↔ o q = .pipe ∧ o' q ≠ .pipe := by
  refine ⟨fun hq => ⟨(h.pipe hq).1, ?_⟩, fun hq => ?_⟩
  · rw [(h.pipe hq).2]
    rintro ⟨⟩
  · by_contra hnot
    exact hq.2 ((h.other hnot).trans hq.1)

/-- No page was freed when all pipes are still there. -/
lemma Dropped.eq_nil (h : Dropped s o s' o' L) (hkeep : ∀ q, o q = .pipe → o' q = .pipe) :
    L = [] ∧ o' = o := by
  have hnil : L = [] := List.eq_nil_iff_forall_not_mem.mpr fun q hq => by
    have hpq := h.mem_iff.mp hq
    exact hpq.2 (hkeep q hpq.1)
  subst hnil
  exact ⟨rfl, funext fun q => h.other List.not_mem_nil⟩

/-- A program that neither allocates nor frees. -/
lemma Dropped.of_agree (hlist : s'.freelist = s.freelist)
    (hmem : ∀ q, o q = .free → Agree s.mem s'.mem q) : Dropped s o s' o [] :=
  ⟨fun hF => hF.congr hlist hmem fun _ => Iff.rfl, fun hq => absurd hq List.not_mem_nil,
    fun _ => rfl⟩

end

/-- `kfree` of the page of a pipe. -/
lemma Dropped.of_release (h : Heap s R o) (hq : o q = .pipe) :
    Dropped s o (s.release q) (update o q .free) [q] := by
  refine ⟨fun hF => hF.release h (by rw [hq]; trivial), fun {q'} hq' => ?_, fun {q'} hq' => ?_⟩
  · rw [List.mem_singleton] at hq'
    subst hq'
    exact ⟨hq, update_self ..⟩
  · rw [List.mem_singleton] at hq'
    exact update_of_ne hq' _ _

end Xv6.Mem
