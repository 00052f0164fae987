import Xv6.Mem.WalkSpec

/-!
# What the `uvm` functions do to an address space

The user part of an address space is described by its number of pages: the
virtual pages below it are mapped and readable, and no others are. `UserPages`
says so of the entries of a table.
-/

namespace Xv6.Mem

open Function Lib

variable [Layout] {s s' : Phys} {R : Tag → Option Nat} {o o' : Nat → Owner} {t : Tag}
variable {r q q₁ v w n perm : Nat}

/-! ## `mappages` of one page -/

/-- The entry of page `q` with the given permissions. -/
def leafPte (q perm : Nat) : Nat := 1024 * q + (perm ||| 1)

section Leaf

omit [Layout]

lemma flags_lt (hp : perm < 1024) : perm ||| 1 < 1024 :=
  Nat.or_lt_two_pow (n := 10) hp (by decide)

lemma flags_odd (perm : Nat) : (perm ||| 1) % 2 = 1 := by
  have h : (perm ||| 1).testBit 0 = true := by simp
  rwa [Nat.testBit_zero, decide_eq_true_eq] at h

lemma leafPte_eq (hp : perm < 1024) : pa2pte (4096 * q) ||| perm ||| pteV = leafPte q perm := by
  rw [pa2pte_page, Nat.or_assoc]
  exact or_flags (flags_lt hp)

lemma pteKid_leafPte (hp : perm < 1024) : pteKid (leafPte q perm) = some q := by
  have hlt := flags_lt hp
  have hodd := flags_odd perm
  have hmod : leafPte q perm % 2 = 1 := by
    unfold leafPte
    omega
  have hdiv : leafPte q perm / 1024 = q := by
    unfold leafPte
    omega
  rw [pteKid, if_pos hmod, hdiv]

lemma leafPte_div (hp : perm < 1024) : leafPte q perm / 1024 = q := by
  have hlt := flags_lt hp
  unfold leafPte
  omega

lemma leafPte_lt (hq : q < 2 ^ 40) (hp : perm < 1024) : leafPte q perm < 2 ^ 64 := by
  have hlt := flags_lt hp
  unfold leafPte
  omega

lemma leafPte_mod (hp : perm < 1024) : leafPte q perm % 1024 = perm ||| 1 := by
  have hlt := flags_lt hp
  unfold leafPte
  omega

end Leaf

/-- What mapping virtual page `v` to page `q₁` does. -/
structure Mapped (R : Tag → Option Nat) (t : Tag) (r v q₁ w : Nat) (s : Phys) (o : Nat → Owner)
    (s' : Phys) (o' : Nat → Owner) : Prop where
  heap : Heap s' R o'
  owners : ∀ q, o' q = o q ∨ o q = .free ∧ (∃ d x, o' q = .table t d x) ∨
    UserVpn v ∧ q = q₁ ∧ o' q = .user t v
  own : UserVpn v → o' q₁ = .user t v
  mem : ∀ {q}, o q ≠ .free → (∀ d x, o q ≠ .table t d x) → Agree s.mem s'.mem q
  ptes : ∀ {v'}, v' < 512 ^ 3 → pteAt s'.mem r v' = if v' = v then w else pteAt s.mem r v'

/-- `mappages` of one page that has no entry yet. -/
lemma mappages_spec (h : Heap s R o) (hR : R t = some r) (hv : 4096 * v < maxVa)
    (hfresh : pteKid (pteAt s.mem r v) = none) (hq₁ : q₁ < 2 ^ 40) (hp : perm < 1024)
    (hown : UserVpn v → o q₁ = .temp) :
    Returns (mappages (4096 * r) (4096 * v) pgSize (4096 * q₁) perm) s fun res s' =>
      res = -1 ∧ ¬ Room 2 o ∧ (∃ o', Grown R t r s o s' o') ∨
      res = 0 ∧ ∃ o', Mapped R t r v q₁ (leafPte q₁ perm) s o s' o' ∧ Spent 2 o o' := by
  have hv3 : v < 512 ^ 3 := by
    unfold maxVa at hv
    omega
  have hpage : 4096 * v / 4096 = v := Nat.mul_div_cancel_left v (by decide)
  have hdown : pgRoundDown (4096 * v) = 4096 * v := by simpa using pgRoundDown_page (v := v) (k := 0)
  have hwrap : (4096 * v + pgSize - 1) % 2 ^ 64 = 4096 * v + pgSize - 1 := by
    apply Nat.mod_eq_of_lt
    unfold maxVa at hv
    unfold pgSize
    omega
  have hlast : pgRoundDown (4096 * v + pgSize - 1) = 4096 * v := pgRoundDown_page (k := 4095) (by decide)
  unfold mappages
  rw [if_neg (by decide)]
  simp only [hdown, hwrap, hlast, Nat.add_sub_cancel_left, Nat.mod_self, Nat.zero_div]
  rw [mapRounds]
  refine (walk_alloc h hR hv).bind ?_
  rintro pte s₁ ⟨o₁, hgrown, hspent, hpte⟩
  rw [hpage] at hpte
  rcases hpte with ⟨rfl, hroom⟩ | ⟨q₀, rfl, hnode⟩
  · rw [if_pos rfl]
    exact returns_pure (.inl ⟨rfl, hroom, o₁, hgrown⟩)
  · have harea := hgrown.heap.node_inArea hR (by decide) (div_lt_pow hv3) hnode
    have hq₀ := inArea_pos harea
    rw [if_neg (by omega)]
    apply returns_load64
    have hold : pteAt s₁.mem r v = entry s₁.mem q₀ (v % 512) := pteAt_of_node hnode
    rw [entry_eq, ← hold, hgrown.ptes hv3]
    rw [if_neg (by rw [pteKid_eq_none.mp hfresh]; simp)]
    apply returns_store64
    rw [leafPte_eq hp]
    -- the page to map is still in hand
    have htemp : UserVpn v → o₁ q₁ = .temp := by
      intro hu
      rcases hgrown.owners q₁ with he | ⟨hf, -⟩
      · rw [he, hown hu]
      · rw [hown hu] at hf
        cases hf
    obtain ⟨o₂, hheap, howners, hself, hptes⟩ := hgrown.heap.mapLeaf hR hv3 hnode
      (by rw [hgrown.ptes hv3]; exact hfresh) (leafPte_lt hq₁ hp) (pteKid_leafPte hp) htemp
    refine returns_pure (.inr ⟨rfl, o₂, ⟨hheap, fun q => ?_, hself, ?_, ?_⟩, ?_⟩)
    · rcases howners q with he | ⟨hu, hq, he⟩
      · rcases hgrown.owners q with he' | ⟨hf, d, x, he'⟩
        · exact .inl (he.trans he')
        · exact .inr (.inl ⟨hf, d, x, he.trans he'⟩)
      · exact .inr (.inr ⟨hu, hq, he⟩)
    · intro q hf htable
      have hne : q ≠ q₀ := by
        rintro rfl
        have hq₀own := (hgrown.heap.table hR (by decide) (div_lt_pow hv3)).mp hnode
        rcases hgrown.owners q with he | ⟨hf', -⟩
        · exact htable _ _ (he.symm.trans hq₀own)
        · exact hf hf'
      exact (hgrown.mem hf htable).trans (agree_putLE (by omega) hne)
    · intro v' hv'
      show pteAt (putLE _ _ _ _) r v' = _
      rw [hptes v' hv', hgrown.ptes hv']
    · obtain ⟨L, hL, hfree⟩ := hspent
      refine ⟨L, hL, fun q hq => (hfree q hq).imp (fun hf => ?_) id⟩
      rcases howners q with he | ⟨hu, rfl, -⟩
      · exact he.trans hf
      · rw [hown hu] at hq
        cases hq

/-! ## `uvmunmap` -/

section

omit [Layout]

/-- `kfree` of one page and a store to another commute. -/
lemma Phys.release_store (s : Phys) {i : Nat} (hne : q ≠ q₁) (hi : i + 8 ≤ 4096) :
    (s.release q₁).withMem (putLE (s.release q₁).mem (4096 * q + i) 8 w) =
      (s.withMem (putLE s.mem (4096 * q + i) 8 w)).release q₁ := by
  have hmem : putLE (putLE (fill s.mem (4096 * q₁) 1 4096) (4096 * q₁) 8 s.freelist)
        (4096 * q + i) 8 w =
      putLE (fill (putLE s.mem (4096 * q + i) 8 w) (4096 * q₁) 1 4096) (4096 * q₁) 8
        s.freelist := by
    funext x
    by_cases hx : x / 4096 = q
    · have hout : ¬ (4096 * q₁ ≤ x ∧ x < 4096 * q₁ + 8) := by omega
      have hout' : ¬ (4096 * q₁ ≤ x ∧ x < 4096 * q₁ + 4096) := by omega
      simp only [putLE, fill, if_neg hout, if_neg hout']
    · have hout : ¬ (4096 * q + i ≤ x ∧ x < 4096 * q + i + 8) := by omega
      simp only [putLE, fill, if_neg hout]
  exact congrArg (fun m => Phys.mk m (4096 * q₁)) hmem

lemma userVpn_of_lt (h : v < trapframeVpn) : UserVpn v := by
  unfold UserVpn trampolineVpn
  unfold trapframeVpn at *
  omega

lemma node_of_mapped {m : Bytes} (h : pteKid (pteAt m r v) ≠ none) :
    ∃ q, node m r 2 (v / 512) = some q := by
  cases hq : node m r 2 (v / 512) with
  | none =>
    rw [pteAt_of_none hq] at h
    exact absurd pteKid_zero h
  | some q => exact ⟨q, rfl⟩

lemma pteAddr_of_node {m : Bytes} (h : node m r 2 (v / 512) = some q) :
    pteAddr m r (4096 * v) = 4096 * q + 8 * (v % 512) := by
  have hpage : 4096 * v / 4096 = v := Nat.mul_div_cancel_left v (by decide)
  rw [pteAddr, hpage, h]

lemma vpn_lt_maxVa (h : v < trapframeVpn) : 4096 * v < maxVa := by
  unfold trapframeVpn at h
  unfold maxVa
  omega

/-- How many rounds `uvmunmap` makes. -/
lemma unmap_count (hn : v + n < 2 ^ 52) :
    ((4096 * v + n * pgSize) % 2 ^ 64 - 4096 * v) / pgSize = n := by
  unfold pgSize
  rw [Nat.mod_eq_of_lt (by omega)]
  omega

end

/-- What unmapping and freeing the virtual pages `lo .. hi-1` does. -/
structure Unmapped (R : Tag → Option Nat) (t : Tag) (r lo hi : Nat) (s : Phys) (o : Nat → Owner)
    (s' : Phys) (o' : Nat → Owner) : Prop where
  heap : Heap s' R o'
  freed : ∀ {q v}, o q = .user t v → lo ≤ v → v < hi → o' q = .free
  owners : ∀ {q}, (∀ v, lo ≤ v → v < hi → o q ≠ .user t v) → o' q = o q
  mem : ∀ {q}, (∀ d x, o q ≠ .table t d x) → (∀ v, lo ≤ v → v < hi → o q ≠ .user t v) →
    Agree s.mem s'.mem q
  ptes : ∀ {v}, v < 512 ^ 3 →
    pteAt s'.mem r v = if lo ≤ v ∧ v < hi then 0 else pteAt s.mem r v

/-- One round of `uvmunmap`, seen as a step of the heap. -/
lemma Heap.unmapRound (h : Heap s R o) (hR : R t = some r) (hv : v < trapframeVpn)
    (hq : node s.mem r 2 (v / 512) = some q) (hkid : pteKid (pteAt s.mem r v) = some q₁) :
    Unmapped R t r v (v + 1) s o ((s.release q₁).withMem
      (putLE (s.release q₁).mem (4096 * q + 8 * (v % 512)) 8 0)) (update o q₁ .free) := by
  have hu := userVpn_of_lt hv
  have hown := (h.user hR hu).mp hkid
  have htable := (h.table hR (by decide) (div_lt_pow hu.1)).mp hq
  have hne : q ≠ q₁ := by
    rintro rfl
    rw [hown] at htable
    cases htable
  have hi : 8 * (v % 512) + 8 ≤ 4096 := by omega
  obtain ⟨hheap, hptes⟩ := h.unmapLeaf hR hu hq hown
  have hplain : (update o q₁ .temp q₁).Plain := by
    rw [update_self]
    trivial
  have hrel := hheap.release hplain
  rw [update_idem, ← s.release_store hne hi] at hrel
  have honly : ∀ {q'}, (∀ v', v ≤ v' → v' < v + 1 → o q' ≠ .user t v') → q' ≠ q₁ := by
    rintro q' hq' rfl
    exact hq' v (Nat.le_refl v) (by omega) hown
  refine ⟨hrel, ?_, fun hq' => update_of_ne (honly hq') _ _, ?_, ?_⟩
  · intro q' v' hq' hlo hhi
    obtain rfl : v' = v := by omega
    have he := (h.user hR hu).mpr hq'
    rw [hkid] at he
    cases he
    exact update_self ..
  · intro q' htab hq'
    have hne' : q' ≠ q := by
      rintro rfl
      exact htab _ _ htable
    exact (s.agree_release (honly hq')).trans (agree_putLE hi hne')
  · intro v' hv'
    rw [s.release_store hne hi]
    -- the freed page is no page of the table
    have hcongr := hheap.table_congr hR
      (n := ((s.withMem (putLE s.mem (4096 * q + 8 * (v % 512)) 8 0)).release q₁).mem)
      fun q' d x hq' => Phys.agree_release _ (by
        rintro rfl
        rw [update_self] at hq'
        cases hq')
    rw [hcongr.2 v' hv']
    refine (hptes v' hv').trans ?_
    by_cases he : v' = v
    · rw [if_pos he, if_pos (by omega)]
    · rw [if_neg he, if_neg (by omega)]

lemma Unmapped.refl (h : Heap s R o) (lo : Nat) : Unmapped R t r lo lo s o s o :=
  ⟨h, fun _ h₁ h₂ => absurd h₁ (by omega), fun _ => rfl, fun _ _ => Agree.refl _ _,
    fun _ => by rw [if_neg (by omega)]⟩

lemma Unmapped.trans {s'' : Phys} {o'' : Nat → Owner} {lo mid hi : Nat}
    (h : Unmapped R t r lo mid s o s' o') (h' : Unmapped R t r mid hi s' o' s'' o'')
    (h₁ : lo ≤ mid) (h₂ : mid ≤ hi) : Unmapped R t r lo hi s o s'' o'' := by
  have hsplit : ∀ {q}, (∀ v, lo ≤ v → v < hi → o q ≠ .user t v) →
      o' q = o q ∧ ∀ v, mid ≤ v → v < hi → o' q ≠ .user t v := by
    intro q hq
    have he : o' q = o q := h.owners fun v hlo hmid => hq v hlo (by omega)
    refine ⟨he, fun v hmid hhi => ?_⟩
    rw [he]
    exact hq v (by omega) hhi
  refine ⟨h'.heap, ?_, ?_, ?_, ?_⟩
  · intro q v hq hlo hhi
    by_cases hv : v < mid
    · have hf := h.freed hq hlo hv
      rw [h'.owners (by rw [hf]; rintro v' _ _ ⟨⟩), hf]
    · refine h'.freed (v := v) ?_ (by omega) hhi
      rw [h.owners, hq]
      rw [hq]
      rintro v' _ hv' ⟨⟩
      exact hv hv'
  · intro q hq
    obtain ⟨he, hq'⟩ := hsplit hq
    rw [h'.owners hq', he]
  · intro q htable hq
    obtain ⟨he, hq'⟩ := hsplit hq
    have hfirst := h.mem htable fun v hlo hmid => hq v hlo (by omega)
    exact hfirst.trans (h'.mem (by rw [he]; exact htable) hq')
  · intro v hv
    rw [h'.ptes hv, h.ptes hv]
    by_cases hin : mid ≤ v ∧ v < hi
    · rw [if_pos hin, if_pos ⟨by omega, hin.2⟩]
    · rw [if_neg hin]
      by_cases hlow : lo ≤ v ∧ v < mid
      · rw [if_pos hlow, if_pos ⟨hlow.1, by omega⟩]
      · rw [if_neg hlow, if_neg (by omega)]

/-- The loop of `uvmunmap` over mapped user pages. -/
lemma unmapRounds_spec (hR : R t = some r) :
    ∀ (n : Nat) {s : Phys} {o : Nat → Owner} {v : Nat}, Heap s R o → v + n ≤ trapframeVpn →
      (∀ v', v ≤ v' → v' < v + n →
        pteKid (pteAt s.mem r v') ≠ none ∧ pteAt s.mem r v' % 1024 ≠ 1) →
      Returns (unmapRounds (4096 * r) true (4096 * v) n) s fun _ s' =>
        ∃ o', Unmapped R t r v (v + n) s o s' o' := by
  intro n
  induction n with
  | zero =>
    intro s o v h _ _
    exact returns_pure ⟨o, Unmapped.refl h v⟩
  | succ n ih =>
    intro s o v h hle hmapped
    have hv : v < trapframeVpn := by omega
    obtain ⟨hkid, hflags⟩ := hmapped v (Nat.le_refl v) (by omega)
    obtain ⟨q, hq⟩ := node_of_mapped hkid
    obtain ⟨q₁, hq₁⟩ := Option.ne_none_iff_exists'.mp hkid
    have harea := h.node_inArea hR (by decide) (div_lt_pow (userVpn_of_lt hv).1) hq
    have harea₁ : InArea q₁ := by
      apply h.inArea
      rw [(h.user hR (userVpn_of_lt hv)).mp hq₁]
      rintro ⟨⟩
    have hpos := inArea_pos harea
    rw [unmapRounds]
    refine returns_bind_of_eq (walk_lookup h hR (vpn_lt_maxVa hv)) ?_
    rw [pteAddr_of_node hq, if_neg (by omega)]
    apply returns_load64
    rw [entry_eq, ← pteAt_of_node hq, if_neg (fun h0 => hkid (pteKid_eq_none.mpr h0)),
      if_neg (by rw [pteFlags_eq]; exact hflags), if_pos rfl, pte2pa_kid harea₁ hq₁]
    refine returns_bind_of_eq (kfree_eq harea₁ s) ?_
    apply returns_store64
    have hround := h.unmapRound hR hv hq hq₁
    have hnext : 4096 * v + pgSize = 4096 * (v + 1) := rfl
    rw [hnext]
    refine (ih hround.heap (by omega) ?_).mono ?_
    · intro v' hlo hhi
      rw [hround.ptes (userVpn_of_lt (by omega)).1, if_neg (by omega)]
      exact hmapped v' (by omega) (by omega)
    · rintro _ s₂ ⟨o₂, hrest⟩
      refine ⟨o₂, ?_⟩
      have hsum : v + 1 + n = v + (n + 1) := by omega
      rw [hsum] at hrest
      exact hround.trans hrest (by omega) (by omega)

/-- `uvmunmap` of `TRAMPOLINE` or `TRAPFRAME`: the page is not freed. -/
lemma uvmunmap_fixed (h : Heap s R o) (hR : R t = some r) (hv : 4096 * v < maxVa)
    (hfixed : ¬ UserVpn v) (hkid : pteKid (pteAt s.mem r v) ≠ none)
    (hflags : pteAt s.mem r v % 1024 ≠ 1) :
    Returns (uvmunmap (4096 * r) (4096 * v) 1 false) s fun _ s' =>
      Heap s' R o ∧ (∀ {q}, (∀ d x, o q ≠ .table t d x) → Agree s.mem s'.mem q) ∧
      ∀ {v'}, v' < 512 ^ 3 → pteAt s'.mem r v' = if v' = v then 0 else pteAt s.mem r v' := by
  have hv3 : v < 512 ^ 3 := by
    unfold maxVa at hv
    omega
  have hmod : 4096 * v % pgSize = 0 := Nat.mul_mod_right 4096 v
  obtain ⟨q, hq⟩ := node_of_mapped hkid
  have hpos := inArea_pos (h.node_inArea hR (by decide) (div_lt_pow hv3) hq)
  unfold uvmunmap
  rw [if_neg (by simpa using hmod), unmap_count (by omega), unmapRounds]
  refine returns_bind_of_eq (walk_lookup h hR hv) ?_
  rw [pteAddr_of_node hq, if_neg (by omega)]
  apply returns_load64
  rw [entry_eq, ← pteAt_of_node hq, if_neg (fun h0 => hkid (pteKid_eq_none.mpr h0)),
    if_neg (by rw [pteFlags_eq]; exact hflags), if_neg (by decide)]
  rw [pure_bind]
  apply returns_store64
  obtain ⟨hheap, hptes⟩ := h.changeLeaf (w := 0) hR hv3 hq (by decide) fun hu => absurd hu hfixed
  refine returns_pure ⟨hheap, fun hq' => agree_putLE (by omega) ?_, fun hv' => hptes _ hv'⟩
  rintro rfl
  exact hq' _ _ ((h.table hR (by decide) (div_lt_pow hv3)).mp hq)

/-! ## The user pages of a table -/

/-- How many pages a size takes. -/
def pages (sz : Nat) : Nat := (sz + 4095) / 4096

/-- The user pages below `n` are mapped and readable, and no others are mapped. -/
structure UserPages (f : Nat → Nat) (n : Nat) : Prop where
  le : n ≤ trapframeVpn
  mapped : ∀ {v}, v < n → f v % 4 = 3
  unmapped : ∀ {v}, UserVpn v → n ≤ v → pteKid (f v) = none

section

omit [Layout]

variable {f g : Nat → Nat}

lemma UserPages.kid_ne_none (h : UserPages f n) (hv : v < n) : pteKid (f v) ≠ none := by
  have hm := h.mapped hv
  rw [pteKid, if_pos (by omega)]
  rintro ⟨⟩

lemma UserPages.kid (h : UserPages f n) (hv : v < n) : pteKid (f v) = some (f v / 1024) := by
  have hm := h.mapped hv
  rw [pteKid, if_pos (by omega)]

lemma UserPages.flags_ne (h : UserPages f n) (hv : v < n) : f v % 1024 ≠ 1 := by
  have hm := h.mapped hv
  omega

lemma UserPages.userVpn (h : UserPages f n) (hv : v < n) : UserVpn v :=
  userVpn_of_lt (Nat.lt_of_lt_of_le hv h.le)

lemma UserPages.congr (h : UserPages f n) (hfg : ∀ v, v < 512 ^ 3 → UserVpn v → g v = f v) :
    UserPages g n where
  le := h.le
  mapped := fun hv => by
    rw [hfg _ (h.userVpn hv).1 (h.userVpn hv)]
    exact h.mapped hv
  unmapped := fun hu hle => by
    rw [hfg _ hu.1 hu]
    exact h.unmapped hu hle

lemma pgRoundUp_pages {sz : Nat} (h : sz < 2 ^ 40) : pgRoundUp sz = 4096 * pages sz :=
  pgRoundUp_eq (by omega)

end

/-- The user pages are different pages of the area, so there are not many. -/
lemma UserPages.le_area (h : Heap s R o) (hR : R t = some r)
    (hp : UserPages (fun v => pteAt s.mem r v) n) : n ≤ 32768 := by
  have hpage : ∀ v, ∃ q, v < n → o q = .user t v := by
    intro v
    by_cases hv : v < n
    · obtain ⟨q, hq⟩ := Option.ne_none_iff_exists'.mp (hp.kid_ne_none hv)
      exact ⟨q, fun _ => (h.user hR (hp.userVpn hv)).mp hq⟩
    · exact ⟨0, fun hv' => absurd hv' hv⟩
  choose page hpage using hpage
  have hcard := Finset.card_le_card_of_injOn (s := Finset.range n)
    (t := Finset.Ico 524288 557056) page ?_ ?_
  · simpa using hcard
  · intro v hv
    have hown := hpage v (by simpa using hv)
    have harea := h.inArea (q := page v) (by rw [hown]; rintro ⟨⟩)
    have hge := Layout.trampoline_ge
    have hle := Layout.trampoline_le
    obtain ⟨hlow, hhigh⟩ := inArea_bounds harea
    unfold physTop at hhigh
    unfold kernBase at hge hhigh
    simp only [Finset.coe_Ico, Set.mem_Ico]
    omega
  · intro v hv v' hv' he
    have h₁ := hpage v (by simpa using hv)
    have h₂ := hpage v' (by simpa using hv')
    rw [he, h₂] at h₁
    cases h₁
    rfl

/-- Table `t` changes above its first `keep` user pages. -/
structure Changed (R : Tag → Option Nat) (t : Tag) (r keep : Nat) (s : Phys) (o : Nat → Owner)
    (s' : Phys) (o' : Nat → Owner) : Prop where
  heap : Heap s' R o'
  within : Frame (Owner.Of t) s o s' o'
  temp : ∀ {q}, o' q = .temp ↔ o q = .temp
  ptes : ∀ {v}, v < 512 ^ 3 → v < keep ∨ ¬ UserVpn v → pteAt s'.mem r v = pteAt s.mem r v
  mem : ∀ {q v}, v < keep → o q = .user t v → Agree s.mem s'.mem q

lemma Changed.refl (h : Heap s R o) (keep : Nat) : Changed R t r keep s o s o :=
  ⟨h, Frame.refl _ s o, Iff.rfl, fun _ _ => rfl, fun _ _ => Agree.refl _ _⟩

/-- A kept entry keeps its page. -/
lemma Changed.user {keep : Nat} (hc : Changed R t r keep s o s' o') (h : Heap s R o)
    (hR : R t = some r) (hv : v < keep) (hq : o q = .user t v) : o' q = .user t v := by
  have hu := (h.userLive hq).2
  rw [← hc.heap.user hR hu, hc.ptes hu.1 (.inl hv)]
  exact (h.user hR hu).mpr hq

lemma Changed.trans {s'' : Phys} {o'' : Nat → Owner} {keep : Nat} (h : Heap s R o)
    (hR : R t = some r) (hc : Changed R t r keep s o s' o')
    (hc' : Changed R t r keep s' o' s'' o'') : Changed R t r keep s o s'' o'' where
  heap := hc'.heap
  within := hc.within.trans hc'.within
  temp := hc'.temp.trans hc.temp
  ptes := fun hv hk => (hc'.ptes hv hk).trans (hc.ptes hv hk)
  mem := fun hv hq => (hc.mem hv hq).trans (hc'.mem hv (hc.user h hR hv hq))

lemma Unmapped.changed {lo hi : Nat} (h : Unmapped R t r lo hi s o s' o')
    (hhi : hi ≤ trapframeVpn) : Changed R t r lo s o s' o' := by
  have hkeep : ∀ {q}, (∀ v, lo ≤ v → v < hi → o q ≠ .user t v) ∨
      ∃ v, o q = .user t v ∧ lo ≤ v ∧ v < hi := by
    intro q
    by_cases hq : ∃ v, o q = .user t v ∧ lo ≤ v ∧ v < hi
    · exact .inr hq
    · exact .inl fun v h₁ h₂ hv => hq ⟨v, hv, h₁, h₂⟩
  refine ⟨h.heap, ⟨?_, ?_, ?_⟩, ?_, ?_, ?_⟩
  · intro q hq
    apply h.owners
    rintro v - - hv
    rw [hv] at hq
    exact hq rfl
  · intro q hq
    rcases hkeep (q := q) with hk | ⟨v, hv, h₁, h₂⟩
    · rw [h.owners hk]
      exact hq
    · rw [h.freed hv h₁ h₂]
      trivial
  · intro q hq
    apply h.mem
    · intro d x hd
      rw [hd] at hq
      exact hq rfl
    · rintro v - - hv
      rw [hv] at hq
      exact hq rfl
  · intro q
    rcases hkeep (q := q) with hk | ⟨v, hv, h₁, h₂⟩
    · rw [h.owners hk]
    · rw [h.freed hv h₁ h₂, hv]
      exact ⟨fun he => (by cases he), fun he => (by cases he)⟩
  · intro v hv hk
    rw [h.ptes hv]
    split
    next hin =>
      rcases hk with hk | hk
      · omega
      · exact absurd (userVpn_of_lt (by omega)) hk
    next => rfl
  · intro q v hv hq
    apply h.mem
    · rw [hq]
      rintro d x ⟨⟩
    · rw [hq]
      rintro v' h₁ - ⟨⟩
      omega

lemma Unmapped.userPages {lo : Nat} (h : Unmapped R t r lo n s o s' o')
    (hp : UserPages (fun v => pteAt s.mem r v) n) (hlo : lo ≤ n) :
    UserPages (fun v => pteAt s'.mem r v) lo where
  le := Nat.le_trans hlo hp.le
  mapped := fun {v} hv => by
    have hvn : v < n := by omega
    rw [h.ptes (hp.userVpn hvn).1, if_neg (by omega)]
    exact hp.mapped hvn
  unmapped := fun {v} hu hle => by
    rw [h.ptes hu.1]
    split
    next => exact pteKid_zero
    next hout => exact hp.unmapped hu (by omega)

/-- `uvmdealloc` from a size of `n` pages. -/
lemma uvmdealloc_spec (h : Heap s R o) (hR : R t = some r)
    (hp : UserPages (fun v => pteAt s.mem r v) n) {oldsz newsz : Nat} (hold : oldsz < 2 ^ 40)
    (hn : pages oldsz = n) :
    Returns (uvmdealloc (4096 * r) oldsz newsz) s fun res s' =>
      res = min oldsz newsz ∧ ∃ o', Unmapped R t r (pages (min oldsz newsz)) n s o s' o' := by
  unfold uvmdealloc
  split
  next hge =>
    have hmin : min oldsz newsz = oldsz := by omega
    rw [hmin, hn]
    exact returns_pure ⟨rfl, o, Unmapped.refl h n⟩
  next hlt =>
    have hmin : min oldsz newsz = newsz := by omega
    rw [hmin, pgRoundUp_pages hold, pgRoundUp_pages (by omega), hn]
    have hle : pages newsz ≤ n := by
      rw [← hn]
      unfold pages
      omega
    have hrest : Returns (if 4096 * pages newsz < 4096 * n then
          uvmunmap (4096 * r) (4096 * pages newsz) ((4096 * n - 4096 * pages newsz) / pgSize) true
        else pure ()) s fun _ s' => ∃ o', Unmapped R t r (pages newsz) n s o s' o' := by
      split
      next hmore =>
        have hcount : (4096 * n - 4096 * pages newsz) / pgSize = n - pages newsz := by
          unfold pgSize
          omega
        have hmod : 4096 * pages newsz % pgSize = 0 := Nat.mul_mod_right 4096 _
        have hn' : pages newsz + (n - pages newsz) = n := by omega
        have hle := hp.le
        unfold uvmunmap
        rw [if_neg (by simpa using hmod), hcount, unmap_count (by unfold trapframeVpn at hle; omega)]
        have hspec := unmapRounds_spec hR (n - pages newsz) (v := pages newsz) h
          (by rw [hn']; exact hp.le)
          (fun v' _ hhi => ⟨hp.kid_ne_none (by omega), hp.flags_ne (by omega)⟩)
        rw [hn'] at hspec
        exact hspec
      next hsame =>
        have he : pages newsz = n := by omega
        rw [he]
        exact returns_pure ⟨o, Unmapped.refl h n⟩
    exact hrest.bind fun _ s' hunmapped => returns_pure ⟨rfl, hunmapped⟩

/-! ## A new user page -/

/-- A page has been taken from the free list and filled. -/
structure Fresh (R : Tag → Option Nat) (q₁ : Nat) (s : Phys) (o : Nat → Owner) (s₂ : Phys) :
    Prop where
  free : o q₁ = .free
  heap : Heap s₂ R (update o q₁ .temp)
  mem : ∀ {q}, q ≠ q₁ → Agree s.mem s₂.mem q

lemma Fresh.of_take {m : Bytes} (hfree : o q₁ = .free)
    (htake : Heap (s.take q₁) R (update o q₁ .temp))
    (hm : ∀ {q}, q ≠ q₁ → Agree (s.take q₁).mem m q) :
    Fresh R q₁ s o ((s.take q₁).withMem m) where
  free := hfree
  heap := by
    refine htake.write fun q hq => hm ?_
    rintro rfl
    rw [update_self] at hq
    rcases hq with hq | ⟨t', d, x, hq⟩
    · cases hq
    · cases hq
  mem := fun hq => (s.agree_take hq).trans (hm hq)

lemma Fresh.inArea {s₂ : Phys} (hf : Fresh R q₁ s o s₂) : InArea q₁ := by
  apply hf.heap.inArea
  rw [update_self]
  rintro ⟨⟩

/-- The tables do not notice that a free page was taken. -/
lemma Fresh.ptes {s₂ : Phys} (hf : Fresh R q₁ s o s₂) (h : Heap s R o) (hR : R t = some r)
    (hv : v < 512 ^ 3) : pteAt s₂.mem r v = pteAt s.mem r v := by
  refine (h.table_congr hR fun q d x hq => hf.mem ?_).2 v hv
  rintro rfl
  rw [hf.free] at hq
  cases hq

/-- A free page is given to table `t` or left free, and other free pages may become
page-table pages. -/
lemma Changed.of_owners {keep : Nat} (hheap : Heap s' R o') (hfree : o q₁ = .free)
    (hown : (o' q₁).Of t) (htemp : o' q₁ ≠ .temp)
    (hother : ∀ {q}, q ≠ q₁ → o' q = o q ∨ o q = .free ∧ ∃ d x, o' q = .table t d x)
    (hmem : ∀ {q}, o q ≠ .free → (∀ d x, o q ≠ .table t d x) → Agree s.mem s'.mem q)
    (hptes : ∀ {v}, v < 512 ^ 3 → v < keep ∨ ¬ UserVpn v →
      pteAt s'.mem r v = pteAt s.mem r v) : Changed R t r keep s o s' o' := by
  refine ⟨hheap, ⟨?_, ?_, ?_⟩, ?_, hptes, ?_⟩
  · intro q hq
    have hne : q ≠ q₁ := by
      rintro rfl
      rw [hfree] at hq
      exact hq trivial
    refine (hother hne).resolve_right fun hf => hq ?_
    rw [hf.1]
    trivial
  · intro q hq
    by_cases hne : q = q₁
    · rw [hne]
      exact hown
    · rcases hother hne with he | ⟨-, d, x, he⟩
      · rw [he]
        exact hq
      · rw [he]
        rfl
  · intro q hq
    apply hmem
    · rintro hf
      rw [hf] at hq
      exact hq trivial
    · rintro d x htable
      rw [htable] at hq
      exact hq rfl
  · intro q
    by_cases hne : q = q₁
    · rw [hne, hfree]
      exact ⟨fun he => absurd he htemp, fun he => by cases he⟩
    · rcases hother hne with he | ⟨hf, d, x, he⟩
      · rw [he]
      · rw [he, hf]
        exact ⟨fun hc => (by cases hc), fun hc => (by cases hc)⟩
  · intro q v _ hq
    apply hmem
    · rw [hq]
      rintro ⟨⟩
    · rw [hq]
      rintro d x ⟨⟩

/-- The new page goes back to the free list. -/
lemma Fresh.giveBack {s₂ s₃ : Phys} {o₃ : Nat → Owner} (hf : Fresh R q₁ s o s₂)
    (h : Heap s R o) (hR : R t = some r)
    (hg : Grown R t r s₂ (update o q₁ .temp) s₃ o₃) (keep : Nat) :
    Changed R t r keep s o (s₃.release q₁) (update o₃ q₁ .free) ∧
      ∀ {v}, v < 512 ^ 3 → pteAt (s₃.release q₁).mem r v = pteAt s.mem r v := by
  have htemp : o₃ q₁ = .temp := by
    rcases hg.owners q₁ with he | ⟨hfree, -⟩
    · rw [he, update_self]
    · rw [update_self] at hfree
      cases hfree
  have hptes : ∀ {v}, v < 512 ^ 3 → pteAt (s₃.release q₁).mem r v = pteAt s.mem r v := by
    intro v hv
    have hcongr := hg.heap.table_congr hR (n := (s₃.release q₁).mem) fun q d x hq =>
      s₃.agree_release (by rintro rfl; rw [htemp] at hq; cases hq)
    rw [hcongr.2 v hv, hg.ptes hv, hf.ptes h hR hv]
  refine ⟨Changed.of_owners (hg.heap.release (by rw [htemp]; trivial)) hf.free ?_ ?_ ?_ ?_
    (fun hv _ => hptes hv), hptes⟩
  · rw [update_self]
    trivial
  · rw [update_self]
    rintro ⟨⟩
  · intro q hq
    have := hg.owners q
    rwa [update_of_ne hq] at this ⊢
  · intro q hq htable
    have hne : q ≠ q₁ := by
      rintro rfl
      exact hq hf.free
    have hmid := hg.mem (q := q) (by rw [update_of_ne hne]; exact hq)
      (by rw [update_of_ne hne]; exact htable)
    exact ((hf.mem hne).trans hmid).trans (s₃.agree_release hne)

/-- The new page is mapped at the end of the user pages. -/
lemma Fresh.added {s₂ s₃ : Phys} {o₃ : Nat → Owner} (hf : Fresh R q₁ s o s₂)
    (h : Heap s R o) (hR : R t = some r) (hv : v < trapframeVpn)
    (hm : Mapped R t r v q₁ w s₂ (update o q₁ .temp) s₃ o₃)
    (hp : UserPages (fun v => pteAt s.mem r v) v) (hw : w % 4 = 3) :
    Changed R t r v s o s₃ o₃ ∧ UserPages (fun v => pteAt s₃.mem r v) (v + 1) ∧
      ∀ {v'}, v' < 512 ^ 3 → pteAt s₃.mem r v' = if v' = v then w else pteAt s.mem r v' := by
  have hu := userVpn_of_lt hv
  have hown := hm.own hu
  have hptes : ∀ {v'}, v' < 512 ^ 3 →
      pteAt s₃.mem r v' = if v' = v then w else pteAt s.mem r v' := by
    intro v' hv'
    rw [hm.ptes hv', hf.ptes h hR hv']
  refine ⟨Changed.of_owners hm.heap hf.free ?_ ?_ ?_ ?_ ?_, ⟨?_, ?_, ?_⟩, hptes⟩
  · rw [hown]
    rfl
  · rw [hown]
    rintro ⟨⟩
  · intro q hq
    have := hm.owners q
    rw [update_of_ne hq] at this
    rcases this with he | he | ⟨-, he, -⟩
    · exact .inl he
    · exact .inr he
    · exact absurd he hq
  · intro q hq htable
    have hne : q ≠ q₁ := by
      rintro rfl
      exact hq hf.free
    have hmid := hm.mem (q := q) (by rw [update_of_ne hne]; exact hq)
      (by rw [update_of_ne hne]; exact htable)
    exact (hf.mem hne).trans hmid
  · intro v' hv' hk
    rw [hptes hv', if_neg]
    rintro rfl
    rcases hk with hk | hk
    · omega
    · exact hk hu
  · exact hv
  · intro v' hv'
    rw [hptes (userVpn_of_lt (by omega)).1]
    split
    next => exact hw
    next hne => exact hp.mapped (by omega)
  · intro v' hu' hle
    rw [hptes hu'.1, if_neg (by omega)]
    exact hp.unmapped hu' (by omega)

/-! ## `uvmalloc` -/

section

omit [Layout]

/-- The permissions of a page that `uvmalloc` adds make it readable. -/
lemma readable_mod {x : Nat} : (pteR ||| pteU ||| x ||| 1) % 4 = 3 := by
  have hx : x % 4 < 4 := Nat.mod_lt x (by decide)
  have hsplit := fun a b : Nat => Nat.or_mod_two_pow (a := a) (b := b) (n := 2)
  simp only [Nat.reducePow] at hsplit
  rw [hsplit, hsplit (pteR ||| pteU) x]
  interval_cases x % 4 <;> decide

/-- The virtual pages `lo .. hi-1` hold zeros. -/
def Zeroed (m : Bytes) (r lo hi : Nat) : Prop :=
  ∀ v, lo ≤ v → v < hi → ∀ x, x / 4096 = pteAt m r v / 1024 → m x = 0

/-- A new page of zeros after other pages of zeros. -/
lemma Zeroed.add {lo : Nat} {m m' : Bytes} (h : Zeroed m r lo v) (hw : w / 1024 = q₁)
    (hptes : ∀ v', v' < v + 1 → pteAt m' r v' = if v' = v then w else pteAt m r v')
    (hkeep : ∀ v', v' < v → Agree m m' (pteAt m r v' / 1024))
    (hnew : ∀ x, x / 4096 = q₁ → m' x = 0) : Zeroed m' r lo (v + 1) := by
  intro v' hlo hhi x hx
  rw [hptes v' hhi] at hx
  split at hx
  next => exact hnew x (hx.trans hw)
  next hne =>
    rw [hkeep v' (by omega) x hx]
    exact h v' hlo (by omega) x hx

end

/-- Undoing what the rounds before this one added. -/
lemma undo_spec {keep : Nat} {sᵢ : Phys} {oᵢ : Nat → Owner} (h : Heap sᵢ R oᵢ) (hR : R t = some r)
    (hc : Changed R t r keep sᵢ oᵢ s o) (hp : UserPages (fun v => pteAt s.mem r v) v)
    (hk : keep ≤ v) :
    Returns (uvmdealloc (4096 * r) (4096 * v) (4096 * keep)) s fun _ s' => ∃ o',
      Changed R t r keep sᵢ oᵢ s' o' ∧ UserPages (fun v => pteAt s'.mem r v) keep := by
  have hle := hp.le
  unfold trapframeVpn at hle
  have hv : pages (4096 * v) = v := by
    unfold pages
    omega
  have hmin : pages (min (4096 * v) (4096 * keep)) = keep := by
    unfold pages
    omega
  refine (uvmdealloc_spec hc.heap hR hp (by omega) hv).mono ?_
  rintro res s' ⟨-, o', hunmapped⟩
  rw [hmin] at hunmapped
  exact ⟨o', hc.trans h hR (hunmapped.changed hp.le), hunmapped.userPages hp hk⟩

/-- The entries of the virtual pages `lo .. hi-1` have the given permissions. -/
def Granted (f : Nat → Nat) (perm lo hi : Nat) : Prop :=
  ∀ v, lo ≤ v → v < hi → ∃ q, f v = leafPte q perm

/-- The loop of `uvmalloc`, from `v` pages on. -/
lemma allocRounds_spec {keep xperm : Nat} {sᵢ : Phys} {oᵢ : Nat → Owner} (h : Heap sᵢ R oᵢ)
    (hR : R t = some r) (hx : xperm < 1024) :
    ∀ (n : Nat) {s : Phys} {o : Nat → Owner} {v : Nat}, Changed R t r keep sᵢ oᵢ s o →
      UserPages (fun v => pteAt s.mem r v) v → keep ≤ v →
      Granted (fun v => pteAt s.mem r v) (pteR ||| pteU ||| xperm) keep v →
      Zeroed s.mem r keep v →
      Returns (allocRounds (4096 * r) (4096 * keep) xperm (4096 * v) n) s fun done s' => ∃ o',
        Changed R t r keep sᵢ oᵢ s' o' ∧
        if done then UserPages (fun v => pteAt s'.mem r v) (v + n) ∧
          Granted (fun v => pteAt s'.mem r v) (pteR ||| pteU ||| xperm) keep (v + n) ∧
          Zeroed s'.mem r keep (v + n)
        else UserPages (fun v => pteAt s'.mem r v) keep := by
  intro n
  induction n with
  | zero =>
    intro s o v hc hp _ hg hz
    exact returns_pure ⟨o, hc, hp, hg, hz⟩
  | succ n ih =>
    intro s o v hc hp hk hgr hzero
    have hv : v < trapframeVpn := by
      have := hp.le_area hc.heap hR
      unfold trapframeVpn
      omega
    rw [allocRounds]
    refine (kalloc_spec hc.heap).bind ?_
    rintro pa s₁ (⟨rfl, rfl, -⟩ | ⟨q₁, rfl, hq₁, hfree, rfl, htake⟩)
    · -- no page: undo
      rw [if_pos rfl]
      exact (undo_spec h hR hc hp hk).bind fun _ s' hs' => returns_pure hs'
    · rw [if_neg (by omega)]
      apply returns_memset
      have hf : Fresh R q₁ s o ((s.take q₁).withMem (fill (s.take q₁).mem (4096 * q₁) 0 pgSize)) :=
        Fresh.of_take hfree htake fun hq => agree_fill hq
      have hu := userVpn_of_lt hv
      have hperm : pteR ||| pteU ||| xperm < 1024 := Nat.or_lt_two_pow (n := 10) (by decide) hx
      refine (mappages_spec hf.heap hR (vpn_lt_maxVa hv)
        (by rw [hf.ptes hc.heap hR hu.1]; exact hp.unmapped hu (Nat.le_refl v))
        (inArea_lt hf.inArea) hperm (fun _ => update_self ..)).bind ?_
      rintro res s₃ (⟨rfl, -, o₃, hg⟩ | ⟨rfl, o₃, hm, -⟩)
      · -- no page-table page: give the page back, and undo
        rw [if_pos (by decide)]
        refine returns_bind_of_eq (kfree_eq hf.inArea s₃) ?_
        obtain ⟨hback, hptes⟩ := hf.giveBack hc.heap hR hg keep
        refine (undo_spec h hR (hc.trans h hR hback)
          (hp.congr fun v hv _ => hptes hv) hk).bind fun _ s' hs' => returns_pure hs'
      · rw [if_neg (by decide)]
        obtain ⟨hadd, hp', hptes⟩ := hf.added hc.heap hR hv hm hp
          (by have := leafPte_mod (q := q₁) hperm; have := readable_mod (x := xperm); omega)
        have hadd' : Changed R t r keep s o s₃ o₃ :=
          ⟨hadd.heap, hadd.within, hadd.temp,
            fun hv' hk' => hadd.ptes hv' (hk'.imp (fun hlt => by omega) id),
            fun hv' => hadd.mem (by omega)⟩
        have hnext : 4096 * v + pgSize = 4096 * (v + 1) := rfl
        have hsum : v + 1 + n = v + (n + 1) := by omega
        rw [hnext, ← hsum]
        have hlt : ∀ {v'}, v' < v + 1 → v' < 512 ^ 3 := fun hv' =>
          (userVpn_of_lt (Nat.lt_of_lt_of_le hv' hv)).1
        refine ih (hc.trans h hR hadd') hp' (by omega) (fun v' hlo hhi => ?_) ?_
        · simp only [hptes (hlt hhi)]
          split
          next => exact ⟨q₁, rfl⟩
          next => exact hgr v' hlo (by omega)
        · refine hzero.add (leafPte_div hperm) (fun v' hv' => hptes (hlt hv')) (fun v' hv' => ?_)
            fun x hx => ?_
          · exact hadd.mem hv' ((hc.heap.user hR (hp.userVpn hv')).mp (hp.kid hv'))
          · rw [hm.mem (q := q₁) (by rw [update_self]; rintro ⟨⟩)
              (by rw [update_self]; rintro d x ⟨⟩) x hx]
            exact if_pos (by unfold pgSize; omega)

/-- `uvmalloc`: either the new size, or 0 and no change. -/
lemma uvmalloc_spec {oldsz newsz xperm : Nat} (h : Heap s R o) (hR : R t = some r)
    (hp : UserPages (fun v => pteAt s.mem r v) (pages oldsz)) (hold : oldsz < 2 ^ 40)
    (hx : xperm < 1024) :
    Returns (uvmalloc (4096 * r) oldsz newsz xperm) s fun res s' => ∃ o',
      Changed R t r (pages oldsz) s o s' o' ∧
      (res = max oldsz newsz ∧ UserPages (fun v => pteAt s'.mem r v) (pages (max oldsz newsz)) ∧
          Granted (fun v => pteAt s'.mem r v) (pteR ||| pteU ||| xperm) (pages oldsz)
            (pages (max oldsz newsz)) ∧ Zeroed s'.mem r (pages oldsz) (pages (max oldsz newsz)) ∨
        res = 0 ∧ UserPages (fun v => pteAt s'.mem r v) (pages oldsz)) := by
  unfold uvmalloc
  split
  next hlt =>
    have hmax : max oldsz newsz = oldsz := by omega
    exact returns_pure ⟨o, Changed.refl h _, .inl ⟨hmax.symm, by rw [hmax]; exact hp,
      fun v _ hv => absurd hv (by rw [hmax]; omega), fun v _ hv => absurd hv (by rw [hmax]; omega)⟩⟩
  next hge =>
    have hmax : max oldsz newsz = newsz := by omega
    have hcount : pages oldsz + (newsz - 4096 * pages oldsz + pgSize - 1) / pgSize = pages newsz := by
      unfold pages pgSize
      omega
    simp only [pgRoundUp_pages hold, hmax]
    refine (allocRounds_spec h hR hx _ (Changed.refl h _) hp (Nat.le_refl _)
      (fun v hlo hhi => absurd hlo (by omega)) fun v hlo hhi => absurd hlo (by omega)).bind ?_
    rintro done s' ⟨o', hc, hp'⟩
    cases done with
    | true =>
      rw [if_pos rfl, hcount] at hp'
      exact returns_pure ⟨o', hc, .inl ⟨rfl, hp'⟩⟩
    | false =>
      rw [if_neg (by decide)] at hp'
      exact returns_pure ⟨o', hc, .inr ⟨rfl, hp'⟩⟩

end Xv6.Mem
