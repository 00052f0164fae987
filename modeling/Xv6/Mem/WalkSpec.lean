import Xv6.Mem.Tables

/-!
# What `kalloc`, `kfree`, `walk` and `mappages` do to the heap

One specification for each function. A function that works on table `t` keeps
within `t`: it touches free pages and the pages of that table only.
-/

namespace Xv6.Mem

open Finset Function Lib

variable [Layout] {s : Phys} {R : Tag → Option Nat} {o : Nat → Owner} {t : Tag}
variable {r q d x v w a : Nat} {β : Type}

/-! ## Loads and stores -/

section Primitives

omit [Layout]

variable {Q : β → Phys → Prop}

lemma returns_load64 {f : Nat → PhysM β} (h : Returns (f (getLE s.mem a 8)) s Q) :
    Returns (load64 a >>= f) s Q :=
  returns_bind_of_eq rfl h

lemma returns_load32 {f : Nat → PhysM β} (h : Returns (f (getLE s.mem a 4)) s Q) :
    Returns (load32 a >>= f) s Q :=
  returns_bind_of_eq rfl h

lemma returns_store64 {f : Unit → PhysM β}
    (h : Returns (f ()) (s.withMem (putLE s.mem a 8 v)) Q) : Returns (store64 a v >>= f) s Q :=
  returns_bind_of_eq rfl h

lemma returns_memset {f : Unit → PhysM β} {c : UInt8} {n : Nat}
    (h : Returns (f ()) (s.withMem (fill s.mem a c n)) Q) : Returns (memset a c n >>= f) s Q :=
  returns_bind_of_eq rfl h

lemma returns_memmove {f : Unit → PhysM β} {b n : Nat}
    (h : Returns (f ()) (s.withMem (copy s.mem a b n)) Q) : Returns (memmove a b n >>= f) s Q :=
  returns_bind_of_eq rfl h

lemma returns_storeBytes {f : Unit → PhysM β} {bs : List UInt8}
    (h : Returns (f ()) (s.withMem (blit s.mem a bs)) Q) : Returns (storeBytes a bs >>= f) s Q :=
  returns_bind_of_eq rfl h

lemma returns_loadBytes {f : List UInt8 → PhysM β} {n : Nat}
    (h : Returns (f ((List.range n).map fun j => s.mem (a + j))) s Q) :
    Returns (loadBytes a n >>= f) s Q :=
  returns_bind_of_eq rfl h

end Primitives

/-! ## Steps within a table -/

omit [Layout] in
/-- Writing to pages of `t` is a step within `t`. -/
lemma Frame.of_mem {s' : Phys} (hm : ∀ q', ¬ (o q').Of t → Agree s.mem s'.mem q') :
    Frame (Owner.Of t) s o s' o :=
  ⟨fun _ => rfl, fun h => h, fun hq' => hm _ hq'⟩

/-! ## `kalloc` and `kfree` -/

section

omit [Layout]

lemma kalloc_nil (h : Chain s.mem s.freelist []) : kalloc s = .ok (0, s) := by
  have hzero : s.freelist = 0 := h
  show (if s.freelist ≠ 0 then _ else _ : PhysM Nat) s = _
  rw [if_neg (by simp [hzero]), hzero]
  rfl

/-- `kalloc` takes the first page of the free list. -/
lemma kalloc_cons {F : List Nat} (h : Chain s.mem s.freelist (q :: F)) :
    kalloc s = .ok (4096 * q, s.take q) := by
  have ha : s.freelist = 4096 * q := h.1
  have hq : q ≠ 0 := h.2.1
  have hne : s.freelist ≠ 0 := by omega
  show (if s.freelist ≠ 0 then _ else _ : PhysM Nat) s = _
  rw [if_pos hne, ha]
  rfl

end

lemma kalloc_spec (h : Heap s R o) :
    Returns kalloc s fun pa s' => pa = 0 ∧ s' = s ∧ (∀ q, o q ≠ .free) ∨
      ∃ q, pa = 4096 * q ∧ q ≠ 0 ∧ o q = .free ∧ s' = s.take q ∧
        Heap s' R (update o q .temp) := by
  obtain ⟨F, hchain, hnodup, hF⟩ := h.free
  cases F with
  | nil =>
    exact ⟨0, s, kalloc_nil hchain,
      .inl ⟨rfl, rfl, fun q hq => absurd ((hF q).mpr hq) List.not_mem_nil⟩⟩
  | cons q F =>
    refine ⟨4096 * q, s.take q, kalloc_cons hchain, .inr ⟨q, rfl, hchain.2.1, ?_, rfl,
      h.take hchain hnodup hF⟩⟩
    exact (hF q).mp List.mem_cons_self

lemma kfree_eq (h : InArea q) (s : Phys) : kfree (4096 * q) s = .ok ((), s.release q) := by
  obtain ⟨hlow, hhigh⟩ := inArea_bounds h
  have hmod : 4096 * q % pgSize = 0 := Nat.mul_mod_right 4096 q
  unfold kfree
  rw [if_neg (by omega)]
  rfl

lemma kfree_spec (h : Heap s R o) (hq : (o q).Plain) :
    Returns (kfree (4096 * q)) s fun _ s' => s' = s.release q ∧
      Heap s' R (update o q .free) :=
  ⟨(), s.release q, kfree_eq (h.inArea hq.ne_outside) s, rfl, h.release hq⟩

/-! ## `walk` -/

section

omit [Layout]

lemma px_level (level va : Nat) : px level va = va / 4096 / 512 ^ level % 512 := by
  rw [px_eq, Nat.div_div_eq_div_mul, pow_add, pow_mul]
  norm_num

/-- The node on the way to a virtual page. -/
lemma level_lt {va level : Nat} (hva : va < maxVa) (hl : level ≤ 2) :
    va / 4096 / 512 ^ (level + 1) < 512 ^ (2 - level) := by
  unfold maxVa at hva
  interval_cases level <;> omega

lemma pteKid_eq_none : pteKid v = none ↔ v &&& pteV = 0 := by
  rw [and_pteV, pteKid]
  split
  next h => exact ⟨fun hn => (by cases hn), fun h0 => by omega⟩
  next h => exact ⟨fun _ => by omega, fun _ => rfl⟩

lemma pteKid_of_valid (h : v &&& pteV ≠ 0) : pteKid v = some (v / 1024) := by
  rw [and_pteV] at h
  rw [pteKid, if_pos (by omega)]

lemma entry_eq (m : Bytes) (q i : Nat) : getLE m (4096 * q + 8 * i) 8 = entry m q i := by
  unfold entry
  rfl

/-- One level down on the way to a virtual page. -/
lemma node_level {m : Bytes} {va level : Nat} (hl : level + 1 ≤ 2)
    (hq : node m r (2 - (level + 1)) (va / 4096 / 512 ^ (level + 1 + 1)) = some q) :
    node m r (2 - level) (va / 4096 / 512 ^ (level + 1)) = kid m q (px (level + 1) va) := by
  have hd : 2 - level = 2 - (level + 1) + 1 := by omega
  have hx : va / 4096 / 512 ^ (level + 1) / 512 = va / 4096 / 512 ^ (level + 1 + 1) := by
    rw [Nat.div_div_eq_div_mul, ← pow_succ]
  rw [hd, node_succ, hx, hq, Option.bind_some, px_level]

lemma node_level_none {m : Bytes} {va level : Nat} (hl : level ≤ 2)
    (h : node m r (2 - level) (va / 4096 / 512 ^ (level + 1)) = none) :
    node m r 2 (va / 4096 / 512) = none := by
  interval_cases level
  · simpa using h
  · have hx : va / 4096 / 512 / 512 = va / 4096 / 512 ^ 2 := by
      rw [Nat.div_div_eq_div_mul (va / 4096) 512 512, ← pow_two]
    rw [node_succ, hx]
    simp only [Nat.reduceSub, Nat.reduceAdd] at h
    rw [h]
    rfl
  · simp [node] at h

end

lemma pte2pa_kid (h : InArea q) (hv : pteKid v = some q) : pte2pa v = 4096 * q := by
  unfold pteKid at hv
  split at hv
  next =>
    cases hv
    have := inArea_lt h
    rw [pte2pa_eq]
    omega
  next => cases hv

/-- `walk` without allocation follows the tree. -/
lemma walkLevels_lookup {va : Nat} (hva : va < maxVa)
    (harea : ∀ {d x q}, d ≤ 2 → x < 512 ^ d → node s.mem r d x = some q → InArea q) :
    ∀ (level q : Nat), level ≤ 2 →
      node s.mem r (2 - level) (va / 4096 / 512 ^ (level + 1)) = some q →
      Returns (walkLevels va false level (4096 * q)) s fun res s' =>
        s' = s ∧ res = (node s.mem r 2 (va / 4096 / 512)).map fun q => 4096 * q := by
  intro level
  induction level with
  | zero =>
    intro q _ hq
    refine returns_pure ⟨rfl, ?_⟩
    rw [show node s.mem r 2 (va / 4096 / 512) = some q by simpa using hq]
    rfl
  | succ level ih =>
    intro q hl hq
    have hkid := node_level hl hq
    apply returns_load64
    rw [entry_eq]
    split
    next hvalid =>
      rw [kid, pteKid_of_valid hvalid] at hkid
      have hkidArea := harea (by omega) (level_lt hva (by omega)) hkid
      rw [pte2pa_kid hkidArea (pteKid_of_valid hvalid)]
      exact ih _ (by omega) hkid
    next hinvalid =>
      rw [kid, pteKid_eq_none.mpr (by simpa using hinvalid)] at hkid
      rw [if_pos rfl]
      exact returns_pure ⟨rfl, by rw [node_level_none (by omega) hkid]; rfl⟩

/-- The address that `walk` returns for a virtual page that has an entry. -/
def pteAddr (m : Bytes) (r va : Nat) : Nat :=
  match node m r 2 (va / 4096 / 512) with
  | none => 0
  | some q => 4096 * q + 8 * (va / 4096 % 512)

lemma walk_eq_pteAddr {va : Nat} (hva : va < maxVa)
    (harea : ∀ {d x q}, d ≤ 2 → x < 512 ^ d → node s.mem r d x = some q → InArea q) :
    walk (4096 * r) va false s = .ok (pteAddr s.mem r va, s) := by
  have hroot : node s.mem r (2 - 2) (va / 4096 / 512 ^ (2 + 1)) = some r := rfl
  obtain ⟨res, s', hrun, rfl, hres⟩ := walkLevels_lookup hva harea 2 r (by omega) hroot
  unfold walk
  rw [if_neg (by omega)]
  show (walkLevels va false 2 (4096 * r) s' >>= fun p => _) = _
  rw [hrun, hres]
  unfold pteAddr
  have hpx : px 0 va = va / 4096 % 512 := by rw [px_level, pow_zero, Nat.div_one]
  cases node s'.mem r 2 (va / 4096 / 512) with
  | none => rfl
  | some q =>
    rw [← hpx]
    rfl

lemma lookup_eq_pteAt {va : Nat} (hva : va < maxVa)
    (harea : ∀ {d x q}, d ≤ 2 → x < 512 ^ d → node s.mem r d x = some q → InArea q) :
    lookup s (4096 * r) va = pteAt s.mem r (va / 4096) := by
  rw [lookup, walk_eq_pteAddr hva harea, pteAddr, pteAt]
  cases hq : node s.mem r 2 (va / 4096 / 512) with
  | none => rfl
  | some q =>
    have hpos := inArea_pos (harea (by decide) (by unfold maxVa at hva; omega) hq)
    dsimp only
    rw [if_neg (by omega), entry_eq]

lemma walk_lookup (h : Heap s R o) (hR : R t = some r) {va : Nat} (hva : va < maxVa) :
    walk (4096 * r) va false s = .ok (pteAddr s.mem r va, s) :=
  walk_eq_pteAddr hva fun hd hx hq => h.node_inArea hR hd hx hq

/-- What `walk` with allocation does to table `t` with root `r`: free pages become
page-table pages, and no entry of a virtual page changes. -/
structure Grown (R : Tag → Option Nat) (t : Tag) (r : Nat) (s : Phys) (o : Nat → Owner) (s' : Phys)
    (o' : Nat → Owner) : Prop where
  heap : Heap s' R o'
  owners : ∀ q, o' q = o q ∨ o q = .free ∧ ∃ d x, o' q = .table t d x
  mem : ∀ {q}, o q ≠ .free → (∀ d x, o q ≠ .table t d x) → Agree s.mem s'.mem q
  ptes : ∀ {v}, v < 512 ^ 3 → pteAt s'.mem r v = pteAt s.mem r v

variable {s' s'' : Phys} {o' o'' : Nat → Owner}

lemma Grown.refl (h : Heap s R o) : Grown R t r s o s o :=
  ⟨h, fun _ => .inl rfl, fun _ _ => Agree.refl _ _, fun _ => rfl⟩

lemma Grown.trans (h : Grown R t r s o s' o') (h' : Grown R t r s' o' s'' o'') :
    Grown R t r s o s'' o'' := by
  refine ⟨h'.heap, ?_, ?_, fun hv => (h'.ptes hv).trans (h.ptes hv)⟩
  · intro q
    rcases h.owners q with he | ⟨hf, d, x, he⟩
    · rcases h'.owners q with he' | ⟨hf', htab⟩
      · exact .inl (he'.trans he)
      · exact .inr ⟨he ▸ hf', htab⟩
    · rcases h'.owners q with he' | ⟨hf', -⟩
      · exact .inr ⟨hf, d, x, he'.trans he⟩
      · rw [he] at hf'
        cases hf'
  · intro q hfree htable
    have he : o' q = o q := (h.owners q).resolve_right fun hf => hfree hf.1
    exact (h.mem hfree htable).trans (h'.mem (by rw [he]; exact hfree) (by rw [he]; exact htable))

/-! ### How many pages an allocation needs -/

/-- There are `n` free pages. -/
def Room (n : Nat) (o : Nat → Owner) : Prop := ∃ F : Finset Nat, n ≤ F.card ∧ ∀ q ∈ F, o q = .free

/-- At most `n` free pages are taken. -/
def Spent (n : Nat) (o o' : Nat → Owner) : Prop :=
  ∃ L : Finset Nat, L.card ≤ n ∧ ∀ q, o q = .free → o' q = .free ∨ q ∈ L

section Room

omit [Layout]

variable {k n : Nat}

lemma Spent.refl (n : Nat) (o : Nat → Owner) : Spent n o o :=
  ⟨∅, Nat.zero_le n, fun _ hq => .inl hq⟩

lemma Spent.mono (h : Spent n o o') (hn : n ≤ k) : Spent k o o' := by
  obtain ⟨L, hL, hq⟩ := h
  exact ⟨L, hL.trans hn, hq⟩

lemma Spent.trans (h : Spent n o o') (h' : Spent k o' o'') : Spent (n + k) o o'' := by
  obtain ⟨L, hL, hq⟩ := h
  obtain ⟨L', hL', hq'⟩ := h'
  refine ⟨L ∪ L', (card_union_le L L').trans (Nat.add_le_add hL hL'), fun q hfree => ?_⟩
  rw [mem_union]
  rcases hq q hfree with hf | hm
  · exact (hq' q hf).imp id .inr
  · exact .inr (.inl hm)

/-- A step that gives one page another owner. -/
lemma Spent.update (o : Nat → Owner) (q : Nat) (y : Owner) : Spent 1 o (update o q y) := by
  refine ⟨{q}, card_singleton q ▸ Nat.le_refl 1, fun q' hq' => ?_⟩
  by_cases he : q' = q
  · exact .inr (mem_singleton.mpr he)
  · exact .inl ((update_of_ne he _ _).trans hq')

lemma Room.mono (h : Room n o) (hk : k ≤ n) : Room k o := by
  obtain ⟨F, hF, hq⟩ := h
  exact ⟨F, hk.trans hF, hq⟩

lemma Room.spend (h : Room (k + n) o) (hs : Spent k o o') : Room n o' := by
  obtain ⟨F, hF, hfree⟩ := h
  obtain ⟨L, hL, hq⟩ := hs
  refine ⟨F \ L, ?_, fun q hm => ?_⟩
  · have := le_card_sdiff L F
    omega
  · rw [mem_sdiff] at hm
    exact (hq q (hfree q hm.1)).resolve_right hm.2

lemma not_room_of_none (h : ∀ q, o q ≠ .free) (n : Nat) : ¬ Room (n + 1) o := by
  rintro ⟨F, hF, hq⟩
  obtain ⟨q, hm⟩ := card_pos.mp (Nat.lt_of_lt_of_le n.succ_pos hF)
  exact h q (hq q hm)

end Room

/-- A new page-table page: `kalloc`, `memset` and the store of its entry. -/
lemma Heap.newTable (h : Heap s R o) (hR : R t = some r) {q₁ i : Nat} (hd : d < 2)
    (hx : x < 512 ^ d) (hq : node s.mem r d x = some q) (hi : i < 512)
    (hold : kid s.mem q i = none) (hfree : o q₁ = .free)
    (htake : Heap (s.take q₁) R (update o q₁ .temp)) :
    ∃ o', Grown R t r s o ((s.take q₁).withMem
        (putLE (fill (s.take q₁).mem (4096 * q₁) 0 4096) (4096 * q + 8 * i) 8 (1024 * q₁ + 1))) o' ∧
      Spent 1 o o' ∧
      node (putLE (fill (s.take q₁).mem (4096 * q₁) 0 4096) (4096 * q + 8 * i) 8 (1024 * q₁ + 1)) r
        (d + 1) (512 * x + i) = some q₁ := by
  have hown : o q = .table t d x := (h.table hR (by omega) hx).mp hq
  have hne : q ≠ q₁ := by
    rintro rfl
    rw [hown] at hfree
    cases hfree
  have hagree : ∀ {q'}, q' ≠ q₁ → Agree s.mem (fill (s.take q₁).mem (4096 * q₁) 0 4096) q' :=
    fun hq' => (s.agree_take hq').trans (agree_fill hq')
  have hcongr := h.table_congr hR (n := fill (s.take q₁).mem (4096 * q₁) 0 4096) fun q' d' x' hq' =>
    hagree (by rintro rfl; rw [hfree] at hq'; cases hq')
  have hclear : Heap ((s.take q₁).withMem (fill (s.take q₁).mem (4096 * q₁) 0 4096)) R
      (update o q₁ .temp) := by
    refine htake.write fun q' hq' => agree_fill ?_
    rintro rfl
    rw [update_self] at hq'
    rcases hq' with hq' | ⟨t', d', x', hq'⟩
    · cases hq'
    · cases hq'
  obtain ⟨hheap, hnode, hptes⟩ := hclear.grow hR hd hx (i := i)
    (((hcongr.1 d x (by omega) hx)).trans hq) hi
    ((kid_congr (hagree hne) hi).trans hold) (update_self ..)
    (fun j hj => entry_fill_zero hj)
  rw [update_idem] at hheap
  refine ⟨_, ⟨hheap, ?_, ?_, ?_⟩, Spent.update o q₁ _, hnode⟩
  · intro q'
    by_cases he : q' = q₁
    · subst he
      exact .inr ⟨hfree, _, _, update_self ..⟩
    · exact .inl (update_of_ne he _ _)
  · intro q' hf htable
    have he : q' ≠ q₁ := by
      rintro rfl
      exact hf hfree
    have he' : q' ≠ q := by
      rintro rfl
      exact htable d x hown
    exact (hagree he).trans (agree_putLE (by omega) he')
  · intro v hv
    exact (hptes v hv).trans (hcongr.2 v hv)

/-- `walk` with allocation, from a node on the way down. -/
lemma walkLevels_alloc (hR : R t = some r) {va : Nat} (hva : va < maxVa) :
    ∀ (level : Nat) {s : Phys} {o : Nat → Owner} {q : Nat}, Heap s R o → level ≤ 2 →
      node s.mem r (2 - level) (va / 4096 / 512 ^ (level + 1)) = some q →
      Returns (walkLevels va true level (4096 * q)) s fun res s' => ∃ o', Grown R t r s o s' o' ∧
        Spent level o o' ∧ (res = none → ¬ Room level o) ∧
        ∀ p, res = some p → ∃ q₀, p = 4096 * q₀ ∧ node s'.mem r 2 (va / 4096 / 512) = some q₀ := by
  intro level
  induction level with
  | zero =>
    intro s o q h _ hq
    refine returns_pure ⟨o, Grown.refl h, Spent.refl 0 o, by rintro ⟨⟩, ?_⟩
    rintro p ⟨⟩
    exact ⟨q, rfl, by simpa using hq⟩
  | succ level ih =>
    intro s o q h hl hq
    have hkid := node_level hl hq
    have hx := level_lt hva hl
    have hpx : px (level + 1) va < 512 := by
      rw [px_level]
      exact Nat.mod_lt _ (by decide)
    apply returns_load64
    rw [entry_eq]
    split
    next hvalid =>
      rw [kid, pteKid_of_valid hvalid] at hkid
      have harea := h.node_inArea hR (by omega) (level_lt hva (by omega)) hkid
      rw [pte2pa_kid harea (pteKid_of_valid hvalid)]
      refine (ih h (by omega) hkid).mono ?_
      rintro res s₂ ⟨o₂, hgrown, hspent, hroom, hres⟩
      exact ⟨o₂, hgrown, hspent.mono (by omega), fun hn hr => hroom hn (hr.mono (by omega)), hres⟩
    next hinvalid =>
      have hold : kid s.mem q (px (level + 1) va) = none :=
        pteKid_eq_none.mpr (by simpa using hinvalid)
      rw [if_neg (by decide)]
      refine (kalloc_spec h).bind fun pa s₁ hk => ?_
      rcases hk with ⟨rfl, rfl, hnone⟩ | ⟨q₁, rfl, hq₁, hfree, rfl, htake⟩
      · rw [if_pos rfl]
        exact returns_pure ⟨o, Grown.refl h, Spent.refl _ o, fun _ => not_room_of_none hnone level,
          by rintro p ⟨⟩⟩
      · rw [if_neg (by omega)]
        apply returns_memset
        apply returns_store64
        obtain ⟨o₁, hgrown, hspent, hnode⟩ := h.newTable hR (by omega) hx hq hpx hold hfree htake
        have hpte : pa2pte (4096 * q₁) ||| pteV = 1024 * q₁ + 1 := by
          rw [pa2pte_page]
          exact or_flags (by decide)
        have hd : 2 - level = 2 - (level + 1) + 1 := by omega
        have hxx : va / 4096 / 512 ^ (level + 1) =
            512 * (va / 4096 / 512 ^ (level + 1 + 1)) + px (level + 1) va := by
          rw [px_level, pow_succ _ (level + 1), ← Nat.div_div_eq_div_mul, Nat.div_add_mod]
        rw [hpte]
        refine (ih hgrown.heap (by omega) (by rw [hd, hxx]; exact hnode)).mono ?_
        rintro res s₂ ⟨o₂, hgrown₂, hspent₂, hroom, hres⟩
        refine ⟨o₂, hgrown.trans hgrown₂, (hspent.trans hspent₂).mono (by omega), ?_, hres⟩
        exact fun hn hr => hroom hn ((hr.mono (by omega)).spend hspent)

/-- `walk` with allocation: the address of the entry, or 0 without memory. -/
lemma walk_alloc (h : Heap s R o) (hR : R t = some r) {va : Nat} (hva : va < maxVa) :
    Returns (walk (4096 * r) va true) s fun pte s' => ∃ o', Grown R t r s o s' o' ∧
      Spent 2 o o' ∧ (pte = 0 ∧ ¬ Room 2 o ∨ ∃ q₀, pte = 4096 * q₀ + 8 * (va / 4096 % 512) ∧
        node s'.mem r 2 (va / 4096 / 512) = some q₀) := by
  unfold walk
  rw [if_neg (by omega)]
  refine (walkLevels_alloc hR hva 2 h (by omega) (q := r) rfl).bind ?_
  rintro res s₁ ⟨o₁, hgrown, hspent, hroom, hres⟩
  cases res with
  | none => exact returns_pure ⟨o₁, hgrown, hspent, .inl ⟨rfl, hroom rfl⟩⟩
  | some p =>
    obtain ⟨q₀, rfl, hnode⟩ := hres p rfl
    have hpx : px 0 va = va / 4096 % 512 := by rw [px_level, pow_zero, Nat.div_one]
    refine returns_pure ⟨o₁, hgrown, hspent, .inr ⟨q₀, ?_, hnode⟩⟩
    rw [hpx]

end Xv6.Mem
