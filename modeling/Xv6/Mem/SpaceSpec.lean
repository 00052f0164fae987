import Xv6.Mem.FreeSpec

/-!
# Address spaces

An address space is a table with the user pages of a size, the trapframe page at
`TRAPFRAME` and the trampoline at `TRAMPOLINE`. `proc_pagetable` builds one of
size 0, and `proc_freepagetable` takes one apart.
-/

namespace Xv6.Mem

open Function Lib

variable [Layout] {s s' : Phys} {R : Tag → Option Nat} {o o' : Nat → Owner} {t : Tag}
variable {r q v n tf : Nat}

/-- The entries of an address space of `n` user pages with trapframe page `tf`. -/
structure Space (f : Nat → Nat) (n tf : Nat) : Prop where
  user : UserPages f n
  trapframe : f trapframeVpn = leafPte tf (pteR ||| pteW)
  trampoline : f trampolineVpn = leafPte (Layout.trampoline / 4096) (pteR ||| pteX)

section

omit [Layout]

lemma not_userVpn_trapframe : ¬ UserVpn trapframeVpn := fun h => h.2.1 rfl

lemma not_userVpn_trampoline : ¬ UserVpn trampolineVpn := fun h => h.2.2 rfl

lemma fixed_cases (hv : v < 512 ^ 3) (h : ¬ UserVpn v) : v = trapframeVpn ∨ v = trampolineVpn := by
  by_contra hne
  rw [not_or] at hne
  exact h ⟨hv, hne.1, hne.2⟩

lemma trapframeVpn_lt : trapframeVpn < 512 ^ 3 := by decide

lemma trampolineVpn_lt : trampolineVpn < 512 ^ 3 := by decide

end

lemma trampoline_page : Layout.trampoline = 4096 * (Layout.trampoline / 4096) := by
  have h := Layout.trampoline_aligned
  unfold pgSize at h
  omega

lemma trampoline_page_lt : Layout.trampoline / 4096 < 2 ^ 40 := by
  have h₁ := Layout.trampoline_le
  have h₂ := Layout.kend_le
  unfold physTop kernBase at h₂
  omega

/-! ## `proc_freepagetable` -/

/-- `proc_freepagetable` frees the table and the user pages, and not the trapframe. -/
lemma procFreepagetable_spec {sz : Nat} (h : Heap s R o) (hR : R t = some r) (hsz : sz < 2 ^ 40)
    (hs : Space (fun v => pteAt s.mem r v) (pages sz) tf) :
    Returns (procFreepagetable (4096 * r) sz) s fun _ s' => ∃ o', Gone R t s o s' o' := by
  have htramp : pteAt s.mem r trampolineVpn = _ := hs.trampoline
  have htf : pteAt s.mem r trapframeVpn = _ := hs.trapframe
  unfold procFreepagetable
  rw [trampolineVa_eq, trapframeVa_eq]
  refine (uvmunmap_fixed h hR (by decide) not_userVpn_trampoline
    (by rw [htramp, pteKid_leafPte (by decide)]; rintro ⟨⟩)
    (by rw [htramp, leafPte_mod (by decide)]; decide)).bind ?_
  rintro _ s₁ ⟨h₁, hm₁, hp₁⟩
  have htf₁ : pteAt s₁.mem r trapframeVpn = leafPte tf (pteR ||| pteW) := by
    rw [hp₁ trapframeVpn_lt, if_neg (by decide)]
    exact htf
  refine (uvmunmap_fixed h₁ hR (by decide) not_userVpn_trapframe
    (by rw [htf₁, pteKid_leafPte (by decide)]; rintro ⟨⟩)
    (by rw [htf₁, leafPte_mod (by decide)]; decide)).bind ?_
  rintro _ s₂ ⟨h₂, hm₂, hp₂⟩
  have hp : ∀ {v}, v < 512 ^ 3 → UserVpn v → pteAt s₂.mem r v = pteAt s.mem r v := by
    intro v hv hu
    rw [hp₂ hv, if_neg hu.2.1, hp₁ hv, if_neg hu.2.2]
  refine (uvmfree_spec h₂ hR hsz (hs.user.congr fun v hv hu => hp hv hu) ?_).mono ?_
  · intro v hv hfixed
    rcases fixed_cases hv hfixed with rfl | rfl
    · rw [hp₂ hv, if_pos rfl, pteKid_zero]
    · rw [hp₂ hv, if_neg (by decide), hp₁ hv, if_pos rfl, pteKid_zero]
  · rintro _ s₃ ⟨o₃, hg⟩
    refine ⟨o₃, hg.heap, hg.freed, hg.other, fun hq => ?_⟩
    have htable : ∀ d x, o _ ≠ .table t d x := fun d x he => hq (.inl ⟨d, x, he⟩)
    exact ((hm₁ htable).trans (hm₂ htable)).trans (hg.mem hq)

/-! ## `proc_pagetable` -/

/-- Table `t`, with root `r`, is built from free pages. -/
structure Built (R : Tag → Option Nat) (t : Tag) (r : Nat) (s : Phys) (o : Nat → Owner)
    (s' : Phys) (o' : Nat → Owner) : Prop where
  heap : Heap s' (update R t (some r)) o'
  owners : ∀ q, o' q = o q ∨ o q = .free ∧ ∃ d x, o' q = .table t d x
  mem : ∀ {q}, o q ≠ .free → Agree s.mem s'.mem q

lemma not_table_of_none (h : Heap s R o) (hR : R t = none) (q d x : Nat) :
    o q ≠ .table t d x := by
  intro hq
  obtain ⟨⟨r, hr⟩, -⟩ := h.tableLive hq
  rw [hR] at hr
  cases hr

lemma not_user_of_none (h : Heap s R o) (hR : R t = none) (q v : Nat) : o q ≠ .user t v := by
  intro hq
  obtain ⟨⟨r, hr⟩, -⟩ := h.userLive hq
  rw [hR] at hr
  cases hr

/-- Building goes on with a step that takes free pages for the table. -/
lemma Built.step {s'' : Phys} {o'' : Nat → Owner} (hb : Built R t r s o s' o')
    (hheap : Heap s'' (update R t (some r)) o'')
    (howners : ∀ q, o'' q = o' q ∨ o' q = .free ∧ ∃ d x, o'' q = .table t d x)
    (hmem : ∀ {q}, o' q ≠ .free → (∀ d x, o' q ≠ .table t d x) → Agree s'.mem s''.mem q)
    (hnot : ∀ q d x, o q ≠ .table t d x) : Built R t r s o s'' o'' := by
  refine ⟨hheap, fun q => ?_, fun {q} hq => ?_⟩
  · rcases hb.owners q with he | ⟨hf, d, x, he⟩
    · rcases howners q with he' | ⟨hf', htable⟩
      · exact .inl (he'.trans he)
      · exact .inr ⟨he ▸ hf', htable⟩
    · rcases howners q with he' | ⟨hf', -⟩
      · exact .inr ⟨hf, d, x, he'.trans he⟩
      · rw [he] at hf'
        cases hf'
  · have he : o' q = o q := (hb.owners q).resolve_right fun hf => hq hf.1
    exact (hb.mem hq).trans (hmem (by rw [he]; exact hq) (by rw [he]; exact hnot q))

/-- A table that was just built and is taken apart leaves the owners as they
were. -/
lemma Built.undo {s'' : Phys} {o'' : Nat → Owner} (hb : Built R t r s o s' o') (h : Heap s R o)
    (hR : R t = none) (hg : Gone (update R t (some r)) t s' o' s'' o'') :
    Heap s'' R o ∧ ∀ {q}, o q ≠ .free → Agree s.mem s''.mem q := by
  have hnot : ∀ q, ¬ (o q).Mine t := by
    rintro q (⟨d, x, hq⟩ | ⟨v, hq⟩)
    · exact not_table_of_none h hR q d x hq
    · exact not_user_of_none h hR q v hq
  have howner : o'' = o := by
    funext q
    by_cases hq : (o' q).Mine t
    · rw [hg.freed hq]
      rcases hb.owners q with he | ⟨hf, -⟩
      · rw [he] at hq
        exact absurd hq (hnot q)
      · exact hf.symm
    · rw [hg.other hq]
      refine (hb.owners q).resolve_right fun hf => hq ?_
      exact .inl hf.2
  have hheap := hg.heap
  rw [update_idem, howner, update_eq_self_iff.mpr hR.symm] at hheap
  refine ⟨hheap, fun {q} hq => ?_⟩
  have he : o' q = o q := (hb.owners q).resolve_right fun hf => hq hf.1
  exact (hb.mem hq).trans (hg.mem (by rw [he]; exact hnot q))

/-- `uvmcreate`: an empty table, or 0. -/
lemma uvmcreate_spec (h : Heap s R o) (hR : R t = none) :
    Returns uvmcreate s fun res s' => res = 0 ∧ s' = s ∧ ¬ Room 1 o ∨
      ∃ r o', res = 4096 * r ∧ r ≠ 0 ∧ Built R t r s o s' o' ∧ Spent 1 o o' ∧
        ∀ v, v < 512 ^ 3 → pteAt s'.mem r v = 0 := by
  unfold uvmcreate
  refine (kalloc_spec h).bind ?_
  rintro pa s₁ (⟨rfl, rfl, hnone⟩ | ⟨q, rfl, hq, hfree, rfl, htake⟩)
  · rw [if_pos rfl]
    exact returns_pure (.inl ⟨rfl, rfl, not_room_of_none hnone 0⟩)
  · rw [if_neg (by omega)]
    apply returns_memset
    have hf : Fresh R q s o ((s.take q).withMem (fill (s.take q).mem (4096 * q) 0 pgSize)) :=
      Fresh.of_take hfree htake fun hq' => agree_fill hq'
    obtain ⟨hheap, hptes⟩ := hf.heap.create hR (update_self ..)
      (fun j hj => entry_fill_zero hj)
    rw [update_idem] at hheap
    refine returns_pure (.inr ⟨q, _, rfl, hq, ⟨hheap, fun q' => ?_, fun {q'} hq' => ?_⟩,
      Spent.update o q _, fun v _ => hptes v⟩)
    · by_cases he : q' = q
      · subst he
        exact .inr ⟨hfree, 0, 0, update_self ..⟩
      · exact .inl (update_of_ne he _ _)
    · exact hf.mem fun he => hq' (he ▸ hfree)

lemma Built.grown {s'' : Phys} {o'' : Nat → Owner} (hb : Built R t r s o s' o')
    (hg : Grown (update R t (some r)) t r s' o' s'' o'')
    (hnot : ∀ q d x, o q ≠ .table t d x) : Built R t r s o s'' o'' :=
  hb.step hg.heap hg.owners hg.mem hnot

/-- Mapping `TRAMPOLINE` or `TRAPFRAME`. -/
lemma Built.mapped {s'' : Phys} {o'' : Nat → Owner} {w : Nat} (hb : Built R t r s o s' o')
    (hm : Mapped (update R t (some r)) t r v q w s' o' s'' o'') (hv : ¬ UserVpn v)
    (hnot : ∀ q d x, o q ≠ .table t d x) : Built R t r s o s'' o'' := by
  refine hb.step hm.heap (fun q' => ?_) hm.mem hnot
  rcases hm.owners q' with he | he | ⟨hu, -⟩
  · exact .inl he
  · exact .inr he
  · exact absurd hu hv

/-- Giving up a table that has no user pages and no fixed pages. -/
lemma Built.giveUp (hb : Built R t r s o s' o') (h : Heap s R o) (hR : R t = none)
    (hnone : ∀ v, v < 512 ^ 3 → pteKid (pteAt s'.mem r v) = none) :
    Returns (uvmfree (4096 * r) 0) s' fun _ s'' =>
      Heap s'' R o ∧ ∀ {q}, o q ≠ .free → Agree s.mem s''.mem q := by
  have hp : UserPages (fun v => pteAt s'.mem r v) (pages 0) :=
    ⟨by decide, fun hv => absurd hv (Nat.not_lt_zero _), fun hu _ => hnone _ hu.1⟩
  refine (uvmfree_spec hb.heap (update_self ..) (by decide) hp
    fun v hv _ => hnone v hv).mono ?_
  rintro _ s'' ⟨o'', hg⟩
  exact hb.undo h hR hg

/-- `proc_pagetable`: an address space of size 0, or nothing. -/
lemma procPagetable_spec (h : Heap s R o) (hR : R t = none) (htf : tf < 2 ^ 40) :
    Returns (procPagetable (4096 * tf)) s fun res s' =>
      res = 0 ∧ ¬ Room 5 o ∧ Heap s' R o ∧ (∀ {q}, o q ≠ .free → Agree s.mem s'.mem q) ∨
      ∃ r o', res = 4096 * r ∧ r ≠ 0 ∧ Built R t r s o s' o' ∧ Spent 5 o o' ∧
        Space (fun v => pteAt s'.mem r v) 0 tf := by
  have hnot := not_table_of_none h hR
  unfold procPagetable
  rw [trampolineVa_eq, trapframeVa_eq, trampoline_page]
  refine (uvmcreate_spec h hR).bind ?_
  rintro pagetable s₁ (⟨rfl, rfl, hroom⟩ | ⟨r, o₁, rfl, hr, hb₁, hspent₁, hp₁⟩)
  · rw [if_pos rfl]
    exact returns_pure (.inl ⟨rfl, fun hr => hroom (hr.mono (by decide)), h,
      fun _ => Agree.refl _ _⟩)
  have hRr : update R t (some r) t = some r := update_self ..
  rw [if_neg (by omega)]
  refine (mappages_spec hb₁.heap hRr (by decide)
    (by rw [hp₁ _ trampolineVpn_lt, pteKid_zero]) trampoline_page_lt (by decide)
    (fun hu => absurd hu not_userVpn_trampoline)).bind ?_
  rintro res s₂ (⟨rfl, hroom, o₂, hg⟩ | ⟨rfl, o₂, hm, hspent₂⟩)
  · -- no page-table page for the trampoline
    rw [if_pos (by decide)]
    refine ((hb₁.grown hg hnot).giveUp h hR ?_).bind ?_
    · intro v hv
      rw [hg.ptes hv, hp₁ v hv, pteKid_zero]
    · refine fun _ s' hs' => returns_pure (.inl ⟨rfl, fun hr => hroom ?_, hs'⟩)
      exact (hr.mono (by decide)).spend hspent₁
  have hb₂ := hb₁.mapped hm not_userVpn_trampoline hnot
  have hp₂ : ∀ {v}, v < 512 ^ 3 → pteAt s₂.mem r v =
      if v = trampolineVpn then leafPte (Layout.trampoline / 4096) (pteR ||| pteX) else 0 := by
    intro v hv
    rw [hm.ptes hv, hp₁ v hv]
  rw [if_neg (by decide)]
  refine (mappages_spec hb₂.heap hRr (by decide)
    (by rw [hp₂ trapframeVpn_lt, if_neg (by decide), pteKid_zero]) htf (by decide)
    (fun hu => absurd hu not_userVpn_trapframe)).bind ?_
  have hspent := hspent₁.trans hspent₂
  rintro res s₃ (⟨rfl, hroom, o₃, hg⟩ | ⟨rfl, o₃, hm₃, hspent₃⟩)
  · -- no page-table page for the trapframe: the trampoline is unmapped again
    rw [if_pos (by decide)]
    have hb₃ := hb₂.grown hg hnot
    have htramp : pteAt s₃.mem r trampolineVpn = _ :=
      (hg.ptes trampolineVpn_lt).trans ((hp₂ trampolineVpn_lt).trans (if_pos rfl))
    refine (uvmunmap_fixed hb₃.heap hRr (by decide) not_userVpn_trampoline
      (by rw [htramp, pteKid_leafPte (by decide)]; rintro ⟨⟩)
      (by rw [htramp, leafPte_mod (by decide)]; decide)).bind ?_
    rintro _ s₄ ⟨h₄, hm₄, hp₄⟩
    have hb₄ : Built R t r s o s₄ o₃ :=
      hb₃.step h₄ (fun _ => .inl rfl) (fun _ htable => hm₄ htable) hnot
    refine (hb₄.giveUp h hR ?_).bind ?_
    · intro v hv
      rw [hp₄ hv]
      split
      next => exact pteKid_zero
      next hne => rw [hg.ptes hv, hp₂ hv, if_neg hne, pteKid_zero]
    · refine fun _ s' hs' => returns_pure (.inl ⟨rfl, fun hr => hroom ?_, hs'⟩)
      exact Room.spend hr hspent
  · rw [if_neg (by decide)]
    have hp₃ : ∀ {v}, v < 512 ^ 3 → pteAt s₃.mem r v =
        if v = trapframeVpn then leafPte tf (pteR ||| pteW) else
        if v = trampolineVpn then leafPte (Layout.trampoline / 4096) (pteR ||| pteX) else 0 := by
      intro v hv
      rw [hm₃.ptes hv, hp₂ hv]
    refine returns_pure (.inr ⟨r, o₃, rfl, hr, hb₂.mapped hm₃ not_userVpn_trapframe hnot,
      hspent.trans hspent₃, ?_⟩)
    refine ⟨⟨by decide, fun hv => absurd hv (by omega), fun {v} hu _ => ?_⟩, ?_, ?_⟩
    · rw [hp₃ hu.1, if_neg hu.2.1, if_neg hu.2.2, pteKid_zero]
    · rw [hp₃ trapframeVpn_lt, if_pos rfl]
    · rw [hp₃ trampolineVpn_lt, if_neg (by decide), if_pos rfl]

/-! ## Renaming a table -/

/-- The owner after table `a` is called `b`. -/
def Owner.rename (a b : Tag) : Owner → Owner
  | .table t d x => .table (if t = a then b else t) d x
  | .user t v => .user (if t = a then b else t) v
  | .outside => .outside
  | .free => .free
  | .temp => .temp
  | .trapframe p => .trapframe p
  | .pipe => .pipe
  | .boot => .boot
  | .held k => .held k

section Rename

omit [Layout]

variable {a b : Tag} {y z : Owner}

/-- Owners that are no part of the two tables keep their names. -/
lemma Owner.rename_eq (hz : ¬ z.Mine a ∧ ¬ z.Mine b) : y.rename a b = z ↔ y = z := by
  cases y with
  | table t d x =>
    by_cases ht : t = a
    · subst ht
      rw [rename, if_pos rfl]
      refine ⟨?_, ?_⟩
      · rintro rfl
        exact absurd (.inl ⟨d, x, rfl⟩) hz.2
      · rintro rfl
        exact absurd (.inl ⟨d, x, rfl⟩) hz.1
    · rw [rename, if_neg ht]
  | user t v =>
    by_cases ht : t = a
    · subst ht
      rw [rename, if_pos rfl]
      refine ⟨?_, ?_⟩
      · rintro rfl
        exact absurd (.inr ⟨v, rfl⟩) hz.2
      · rintro rfl
        exact absurd (.inr ⟨v, rfl⟩) hz.1
    · rw [rename, if_neg ht]
  | outside | free | temp | trapframe p | pipe | boot | held k => exact Iff.rfl

lemma Owner.rename_table {d x : Nat} (hy : ¬ y.Mine b) :
    y.rename a b = .table b d x ↔ y = .table a d x := by
  cases y with
  | table t d' x' =>
    rw [rename]
    by_cases ht : t = a
    · rw [if_pos ht, ht]
      simp only [Owner.table.injEq, true_and]
    · rw [if_neg ht]
      refine ⟨?_, ?_⟩
      · rintro ⟨⟩
        exact absurd (.inl ⟨d, x, rfl⟩) hy
      · rintro ⟨⟩
        exact absurd rfl ht
  | user t v | outside | free | temp | trapframe p | pipe | boot | held k =>
    exact ⟨fun h => (by cases h), fun h => by cases h⟩

lemma Owner.rename_user (hy : ¬ y.Mine b) : y.rename a b = .user b v ↔ y = .user a v := by
  cases y with
  | user t v' =>
    rw [rename]
    by_cases ht : t = a
    · rw [if_pos ht, ht]
      simp only [Owner.user.injEq, true_and]
    · rw [if_neg ht]
      refine ⟨?_, ?_⟩
      · rintro ⟨⟩
        exact absurd (.inr ⟨v, rfl⟩) hy
      · rintro ⟨⟩
        exact absurd rfl ht
  | table t d x | outside | free | temp | trapframe p | pipe | boot | held k =>
    exact ⟨fun h => (by cases h), fun h => by cases h⟩

lemma Owner.not_mine_rename (hne : a ≠ b) : ¬ (y.rename a b).Mine a := by
  rintro (⟨d, x, h⟩ | ⟨v, h⟩)
  · cases y with
    | table t d' x' =>
      rw [rename] at h
      simp only [Owner.table.injEq] at h
      split at h
      next => exact hne h.1.symm
      next ht => exact ht h.1
    | user | outside | free | temp | trapframe | pipe | boot | held => cases h
  · cases y with
    | user t v' =>
      rw [rename] at h
      simp only [Owner.user.injEq] at h
      split at h
      next => exact hne h.1.symm
      next ht => exact ht h.1
    | table | outside | free | temp | trapframe | pipe | boot | held => cases h

end Rename

/-- Table `a` takes the place of `b`, which is gone. -/
lemma Heap.rename {a b : Tag} (h : Heap s R o) (hb : R b = none) (ha : R a = some r)
    (hne : a ≠ b) :
    Heap s (update (update R a none) b (some r)) fun q => (o q).rename a b := by
  have hnot : ∀ q, ¬ (o q).Mine b := by
    rintro q (⟨d, x, hq⟩ | ⟨v, hq⟩)
    · exact not_table_of_none h hb q d x hq
    · exact not_user_of_none h hb q v hq
  have hplain : ∀ {y : Owner}, ¬ y.Mine a ∧ ¬ y.Mine b → ∀ q, (o q).rename a b = y ↔ o q = y :=
    fun hy q => Owner.rename_eq hy
  -- the table of a tag after renaming
  have hR : ∀ {t r'}, update (update R a none) b (some r) t = some r' →
      t = b ∧ r' = r ∨ t ≠ a ∧ t ≠ b ∧ R t = some r' := by
    intro t r' ht
    by_cases htb : t = b
    · rw [htb, update_self] at ht
      exact .inl ⟨htb, (Option.some.inj ht).symm⟩
    · rw [update_of_ne htb] at ht
      by_cases hta : t = a
      · rw [hta, update_self] at ht
        cases ht
      · rw [update_of_ne hta] at ht
        exact .inr ⟨hta, htb, ht⟩
  have hother : ∀ {t : Tag}, t ≠ a → t ≠ b →
      (∀ d x, ¬ (Owner.table t d x).Mine a ∧ ¬ (Owner.table t d x).Mine b) ∧
        ∀ v, ¬ (Owner.user t v).Mine a ∧ ¬ (Owner.user t v).Mine b := by
    intro t hta htb
    refine ⟨fun d x => ⟨?_, ?_⟩, fun v => ⟨?_, ?_⟩⟩
    all_goals
      rintro (⟨d', x', he⟩ | ⟨v', he⟩) <;> cases he
      first | exact hta rfl | exact htb rfl
  have hlive : ∀ {t r'}, R t = some r' → t ≠ a → ∃ r', update (update R a none) b
      (some r) t = some r' := by
    intro t r' ht hta
    by_cases htb : t = b
    · rw [htb, hb] at ht
      cases ht
    · exact ⟨r', by rw [update_of_ne htb, update_of_ne hta, ht]⟩
  constructor
  · intro q
    rw [hplain (by constructor <;> rintro (⟨d, x, he⟩ | ⟨v, he⟩) <;> cases he)]
    exact h.area
  · obtain ⟨F, hchain, hnodup, hF⟩ := h.free
    refine ⟨F, hchain, hnodup, fun q => ?_⟩
    rw [hF q, hplain (by constructor <;> rintro (⟨d, x, he⟩ | ⟨v, he⟩) <;> cases he)]
  · intro t r' d x q ht hd hx
    rcases hR ht with ⟨rfl, rfl⟩ | ⟨hta, htb, ht'⟩
    · rw [Owner.rename_table (hnot q)]
      exact h.table ha hd hx
    · rw [hplain ((hother hta htb).1 d x)]
      exact h.table ht' hd hx
  · intro t r' v q ht hv
    rcases hR ht with ⟨rfl, rfl⟩ | ⟨hta, htb, ht'⟩
    · rw [Owner.rename_user (hnot q)]
      exact h.user ha hv
    · rw [hplain ((hother hta htb).2 v)]
      exact h.user ht' hv
  · intro t r' d x q i ht
    rcases hR ht with ⟨rfl, rfl⟩ | ⟨-, -, ht'⟩
    · exact h.dir ha
    · exact h.dir ht'
  · intro q t d x hq
    by_cases htb : t = b
    · subst htb
      rw [Owner.rename_table (hnot q)] at hq
      exact ⟨⟨r, update_self ..⟩, (h.tableLive hq).2⟩
    · have hta : t ≠ a := by
        rintro rfl
        exact Owner.not_mine_rename hne (.inl ⟨d, x, hq⟩)
      rw [hplain ((hother hta htb).1 d x)] at hq
      obtain ⟨⟨r', hr'⟩, hrest⟩ := h.tableLive hq
      exact ⟨hlive hr' hta, hrest⟩
  · intro q t v hq
    by_cases htb : t = b
    · subst htb
      rw [Owner.rename_user (hnot q)] at hq
      exact ⟨⟨r, update_self ..⟩, (h.userLive hq).2⟩
    · have hta : t ≠ a := by
        rintro rfl
        exact Owner.not_mine_rename hne (.inr ⟨v, hq⟩)
      rw [hplain ((hother hta htb).2 v)] at hq
      obtain ⟨⟨r', hr'⟩, hrest⟩ := h.userLive hq
      exact ⟨hlive hr' hta, hrest⟩

end Xv6.Mem
