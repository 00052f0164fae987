import Xv6.Mem.UvmSpec

/-!
# Taking a page table apart

`freewalk` frees the pages of a table from the leaves up. While it runs, the
table is no longer a table of the heap: its pages are in hand, and `Teardown`
keeps what is known of the tree that they still form.
-/

namespace Xv6.Mem

open Function Lib

variable [Layout] {s : Phys} {R : Tag → Option Nat} {o o' : Nat → Owner} {t : Tag}
variable {m m' : Bytes} {r q q' c i lev n : Nat}

/-- Page `q'` belongs to the tree of `lev + 1` levels on page `q`. -/
def Sub (m : Bytes) (q lev q' : Nat) : Prop :=
  ∃ d x, d ≤ lev ∧ x < 512 ^ d ∧ node m q d x = some q'

/-- A tree whose pages are in hand and that has no leaves. -/
structure Teardown (m : Bytes) (o : Nat → Owner) (q lev : Nat) : Prop where
  temp : ∀ {q'}, Sub m q lev q' → o q' = .temp
  inj : ∀ {d x e y q'}, d ≤ lev → x < 512 ^ d → e ≤ lev → y < 512 ^ e →
    node m q d x = some q' → node m q e y = some q' → d = e ∧ x = y
  leaf : ∀ {x}, x < 512 ^ (lev + 1) → node m q (lev + 1) x = none
  dir : ∀ {d x q' i}, d < lev → x < 512 ^ d → node m q d x = some q' → i < 512 →
    kid m q' i ≠ none → entry m q' i % 1024 = 1

section Trees

omit [Layout]

lemma Sub.self (m : Bytes) (q lev : Nat) : Sub m q lev q := ⟨0, 0, by omega, by simp, rfl⟩

/-- The nodes of a child, numbered from its parent. -/
lemma node_child {d y : Nat} (hk : kid m q i = some c) (hi : i < 512) (hy : y < 512 ^ d) :
    node m q (d + 1) (512 ^ d * i + y) = node m c d y := by
  rw [node_top m q i d y hi hy, hk, Option.bind_some]

lemma child_lt {d y : Nat} (hi : i < 512) (hy : y < 512 ^ d) :
    512 ^ d * i + y < 512 ^ (d + 1) := by
  calc 512 ^ d * i + y < 512 ^ d * i + 512 ^ d := by omega
    _ = 512 ^ d * (i + 1) := by rw [Nat.mul_succ]
    _ ≤ 512 ^ d * 512 := Nat.mul_le_mul_left _ hi
    _ = 512 ^ (d + 1) := (pow_succ ..).symm

/-- A tree is its root and the trees of its children. -/
lemma sub_succ : Sub m q (lev + 1) q' ↔
    q' = q ∨ ∃ i c, i < 512 ∧ kid m q i = some c ∧ Sub m c lev q' := by
  constructor
  · rintro ⟨d, x, hd, hx, hq'⟩
    cases d with
    | zero => exact .inl (Option.some.inj hq').symm
    | succ d =>
      have hpos : 0 < 512 ^ d := Nat.pow_pos (by decide)
      have hi : x / 512 ^ d < 512 := by
        rw [Nat.div_lt_iff_lt_mul hpos, ← pow_succ']
        exact hx
      have hy : x % 512 ^ d < 512 ^ d := Nat.mod_lt _ hpos
      have htop := node_top m q (x / 512 ^ d) d (x % 512 ^ d) hi hy
      rw [Nat.div_add_mod, hq'] at htop
      cases hk : kid m q (x / 512 ^ d) with
      | none =>
        rw [hk] at htop
        cases htop
      | some c =>
        rw [hk, Option.bind_some] at htop
        exact .inr ⟨_, c, hi, hk, d, _, by omega, hy, htop.symm⟩
  · rintro (rfl | ⟨i, c, hi, hk, d, y, hd, hy, hq'⟩)
    · exact Sub.self m q' (lev + 1)
    · exact ⟨d + 1, _, by omega, child_lt hi hy, (node_child hk hi hy).trans hq'⟩

lemma Teardown.child (h : Teardown m o q (lev + 1)) (hk : kid m q i = some c) (hi : i < 512) :
    Teardown m o c lev where
  temp := fun hs => h.temp (sub_succ.mpr (.inr ⟨i, c, hi, hk, hs⟩))
  inj := fun {d x d' x' q'} hd hx hd' hx' hn hn' => by
    obtain ⟨h₁, h₂⟩ := h.inj (d := d + 1) (e := d' + 1) (by omega) (child_lt hi hx) (by omega)
      (child_lt hi hx') ((node_child hk hi hx).trans hn) ((node_child hk hi hx').trans hn')
    obtain rfl : d = d' := by omega
    exact ⟨rfl, by omega⟩
  leaf := fun hx => by
    rw [← node_child hk hi hx]
    exact h.leaf (child_lt hi hx)
  dir := fun {d x q' j} hd hx hn => by
    exact h.dir (d := d + 1) (by omega) (child_lt hi hx) ((node_child hk hi hx).trans hn)

/-- The trees of different children share no page. -/
lemma Teardown.disjoint (h : Teardown m o q (lev + 1)) {i' c' : Nat} (hi : i < 512)
    (hi' : i' < 512) (hk : kid m q i = some c) (hk' : kid m q i' = some c')
    (hs : Sub m c lev q') (hs' : Sub m c' lev q') : i = i' := by
  obtain ⟨d, x, hd, hx, hn⟩ := hs
  obtain ⟨d', x', hd', hx', hn'⟩ := hs'
  obtain ⟨h₁, h₂⟩ := h.inj (d := d + 1) (e := d' + 1) (by omega) (child_lt hi hx) (by omega)
    (child_lt hi' hx') ((node_child hk hi hx).trans hn) ((node_child hk' hi' hx').trans hn')
  obtain rfl : d = d' := by omega
  have hpos : 0 < 512 ^ d := Nat.pow_pos (by decide)
  have e₁ : (512 ^ d * i + x) / 512 ^ d = i := by
    rw [Nat.mul_add_div hpos, Nat.div_eq_of_lt hx, Nat.add_zero]
  have e₂ : (512 ^ d * i' + x') / 512 ^ d = i' := by
    rw [Nat.mul_add_div hpos, Nat.div_eq_of_lt hx', Nat.add_zero]
  rw [← e₁, ← e₂, h₂]

/-- The root is in the tree of no child. -/
lemma Teardown.not_root (h : Teardown m o q (lev + 1)) (hi : i < 512) (hk : kid m q i = some c)
    (hs : Sub m c lev q') : q' ≠ q := by
  rintro rfl
  obtain ⟨d, x, hd, hx, hn⟩ := hs
  have := (h.inj (d := d + 1) (e := 0) (y := 0) (by omega) (child_lt hi hx) (by omega) (by simp)
    ((node_child hk hi hx).trans hn) rfl).1
  omega

lemma Sub.congr (hm : ∀ q', Sub m q lev q' → Agree m m' q') {d x : Nat} (hd : d ≤ lev + 1)
    (hx : x < 512 ^ d) : node m' q d x = node m q d x :=
  node_congr (fun d' x' q' hd' hx' hn => hm q' ⟨d', x', by omega, hx', hn⟩) hx

/-- What is known of a tree depends on its pages only. -/
lemma Teardown.congr (h : Teardown m o q lev) (hm : ∀ q', Sub m q lev q' → Agree m m' q')
    (ho : ∀ q', Sub m q lev q' → o' q' = o q') : Teardown m' o' q lev := by
  have hsub : ∀ {q'}, Sub m' q lev q' ↔ Sub m q lev q' := by
    intro q'
    constructor
    · rintro ⟨d, x, hd, hx, hn⟩
      exact ⟨d, x, hd, hx, by rw [← Sub.congr hm (by omega) hx]; exact hn⟩
    · rintro ⟨d, x, hd, hx, hn⟩
      exact ⟨d, x, hd, hx, by rw [Sub.congr hm (by omega) hx]; exact hn⟩
  constructor
  · intro q' hs
    have hs' := hsub.mp hs
    rw [ho q' hs']
    exact h.temp hs'
  · intro d x d' x' q' hd hx hd' hx' hn hn'
    rw [Sub.congr hm (by omega) hx] at hn
    rw [Sub.congr hm (by omega) hx'] at hn'
    exact h.inj hd hx hd' hx' hn hn'
  · intro x hx
    rw [Sub.congr hm (Nat.le_refl _) hx]
    exact h.leaf hx
  · intro d x q' i hd hx hn hi hk
    rw [Sub.congr hm (by omega) hx] at hn
    have hag := hm q' ⟨d, x, by omega, hx, hn⟩
    rw [kid_congr hag hi] at hk
    rw [entry_congr hag hi]
    exact h.dir hd hx hn hi hk

end Trees

/-! ## `freewalk` -/

/-- After a tree was freed. -/
structure Freed (R : Tag → Option Nat) (T : Nat → Prop) (s : Phys) (o : Nat → Owner) (s' : Phys)
    (o' : Nat → Owner) : Prop where
  heap : Heap s' R o'
  freed : ∀ {q}, T q → o' q = .free
  other : ∀ {q}, ¬ T q → o' q = o q
  mem : ∀ {q}, ¬ T q → Agree s.mem s'.mem q

/-- The pages below the first `i` entries of page `q`. -/
def Below (m : Bytes) (q lev i q' : Nat) : Prop :=
  ∃ j c, j < i ∧ kid m q j = some c ∧ Sub m c lev q'

/-- The state after the first `i` rounds of `freewalk` on page `q`. -/
structure Walked (R : Tag → Option Nat) (q lev i : Nat) (s : Phys) (o : Nat → Owner) (s' : Phys)
    (o' : Nat → Owner) : Prop where
  heap : Heap s' R o'
  freed : ∀ {q'}, Below s.mem q lev i q' → o' q' = .free
  other : ∀ {q'}, ¬ Below s.mem q lev i q' → o' q' = o q'
  mem : ∀ {q'}, ¬ Below s.mem q lev i q' → q' ≠ q → Agree s.mem s'.mem q'
  rest : ∀ {j}, i ≤ j → j < 512 → entry s'.mem q j = entry s.mem q j

variable {s' : Phys}

section

omit [Layout]

lemma below_succ : Below m q lev (i + 1) q' ↔
    Below m q lev i q' ∨ ∃ c, kid m q i = some c ∧ Sub m c lev q' := by
  constructor
  · rintro ⟨j, c, hj, hk, hs⟩
    by_cases hji : j = i
    · exact .inr ⟨c, hji ▸ hk, hs⟩
    · exact .inl ⟨j, c, by omega, hk, hs⟩
  · rintro (⟨j, c, hj, hk, hs⟩ | ⟨c, hk, hs⟩)
    · exact ⟨j, c, by omega, hk, hs⟩
    · exact ⟨i, c, by omega, hk, hs⟩

/-- The loop of `freewalk` on a page without valid entries. -/
lemma freewalkRounds_empty {fw : Nat → PhysM Unit} :
    ∀ (n : Nat) {i : Nat}, i + n ≤ 512 → (∀ j, j < 512 → kid s.mem q j = none) →
      freewalkRounds fw (4096 * q) i n s = .ok ((), s) := by
  intro n
  induction n with
  | zero => exact fun _ _ => rfl
  | succ n ih =>
    intro i hi hnone
    have hzero : entry s.mem q i &&& pteV = 0 := pteKid_eq_none.mp (hnone i (by omega))
    rw [freewalkRounds]
    show (if _ then _ else _ : PhysM Unit) s = _
    rw [entry_eq, if_neg (fun hc => hc.1 hzero), if_neg (fun hc => hc hzero)]
    exact ih (by omega) hnone

end

/-- One round of the loop that finds a child. -/
lemma Walked.next {s₂ : Phys} {o₂ : Nat → Owner} (htree : Teardown s.mem o q (lev + 1))
    (hi : i < 512) (hk : kid s.mem q i = some c) (h : Walked R q lev i s o s' o')
    (hf : Freed R (Sub s'.mem c lev) s' o' s₂ o₂)
    (hsub : ∀ {q'}, Sub s'.mem c lev q' ↔ Sub s.mem c lev q') :
    Walked R q lev (i + 1) s o (s₂.withMem (putLE s₂.mem (4096 * q + 8 * i) 8 0)) o₂ := by
  have hroot : ¬ Sub s'.mem c lev q := fun hs => htree.not_root hi hk (hsub.mp hs) rfl
  have hbelow : ¬ Below s.mem q lev i q := by
    rintro ⟨j, c', hj, hk', hs⟩
    exact htree.not_root (by omega) hk' hs rfl
  have htemp : o₂ q = .temp := by
    rw [hf.other hroot, h.other hbelow]
    exact htree.temp (Sub.self ..)
  constructor
  · refine hf.heap.write fun q' hq' => agree_putLE (by omega) ?_
    rintro rfl
    rw [htemp] at hq'
    rcases hq' with hq' | ⟨t', d, x, hq'⟩
    · cases hq'
    · cases hq'
  · intro q' hq'
    by_cases hs : Sub s'.mem c lev q'
    · exact hf.freed hs
    · rw [hf.other hs]
      rcases below_succ.mp hq' with hb | ⟨c', hk', hs'⟩
      · exact h.freed hb
      · rw [hk] at hk'
        cases hk'
        exact absurd (hsub.mpr hs') hs
  · intro q' hq'
    have hs : ¬ Sub s'.mem c lev q' := fun hs => hq' (below_succ.mpr (.inr ⟨c, hk, hsub.mp hs⟩))
    rw [hf.other hs, h.other fun hb => hq' (below_succ.mpr (.inl hb))]
  · intro q' hq' hne
    have hs : ¬ Sub s'.mem c lev q' := fun hs => hq' (below_succ.mpr (.inr ⟨c, hk, hsub.mp hs⟩))
    have hold := h.mem (fun hb => hq' (below_succ.mpr (.inl hb))) hne
    exact (hold.trans (hf.mem hs)).trans (agree_putLE (by omega) hne)
  · intro j hj hj'
    show entry (putLE _ _ _ _) q j = _
    rw [entry_putLE_of_ne (by omega), entry_congr (hf.mem hroot) hj', h.rest (by omega) hj']

lemma Walked.skip (hk : kid s.mem q i = none) (h : Walked R q lev i s o s' o') :
    Walked R q lev (i + 1) s o s' o' := by
  have hiff : ∀ {q'}, Below s.mem q lev (i + 1) q' ↔ Below s.mem q lev i q' := by
    intro q'
    rw [below_succ, hk]
    simp
  exact ⟨h.heap, fun hb => h.freed (hiff.mp hb), fun hb => h.other fun hb' => hb (hiff.mpr hb'),
    fun hb => h.mem fun hb' => hb (hiff.mpr hb'), fun hj => h.rest (by omega)⟩

/-- The loop of `freewalk` over the entries from `i` on. -/
lemma freewalkRounds_spec {fw : Nat → PhysM Unit} (htree : Teardown s.mem o q (lev + 1))
    (hfw : ∀ {s : Phys} {o : Nat → Owner} {c : Nat}, Heap s R o → Teardown s.mem o c lev →
      Returns (fw (4096 * c)) s fun _ s' => ∃ o', Freed R (Sub s.mem c lev) s o s' o') :
    ∀ (n : Nat) {s' : Phys} {o' : Nat → Owner} {i : Nat}, i + n = 512 →
      Walked R q lev i s o s' o' →
      Returns (freewalkRounds fw (4096 * q) i n) s' fun _ s'' =>
        ∃ o'', Walked R q lev 512 s o s'' o'' := by
  intro n
  induction n with
  | zero =>
    intro s' o' i hi h
    obtain rfl : i = 512 := by omega
    exact returns_pure ⟨o', h⟩
  | succ n ih =>
    intro s' o' i hi h
    rw [freewalkRounds]
    apply returns_load64
    rw [entry_eq, h.rest (Nat.le_refl i) (by omega)]
    cases hk : kid s.mem q i with
    | none =>
      have hzero : entry s.mem q i &&& pteV = 0 := pteKid_eq_none.mp hk
      rw [if_neg (fun hc => hc.1 hzero), if_neg (fun hc => hc hzero)]
      exact ih (by omega) (h.skip hk)
    | some c =>
      have hne : kid s.mem q i ≠ none := by
        rw [hk]
        rintro ⟨⟩
      have hvalid : entry s.mem q i &&& pteV ≠ 0 := fun h0 => hne (pteKid_eq_none.mpr h0)
      have hflags := htree.dir (d := 0) (x := 0) (by omega) (by simp) rfl (by omega) hne
      have hperm : entry s.mem q i &&& (pteR ||| pteW ||| pteX) = 0 := by
        have hmod := Nat.and_mod_two_pow (a := entry s.mem q i) (b := pteR ||| pteW ||| pteX)
          (n := 10)
        have hlt : entry s.mem q i &&& (pteR ||| pteW ||| pteX) < 2 ^ 10 :=
          Nat.lt_of_le_of_lt Nat.and_le_right (by decide)
        rw [Nat.mod_eq_of_lt hlt, show (2 : Nat) ^ 10 = 1024 from rfl, hflags] at hmod
        rw [hmod]
        decide
      rw [if_pos ⟨hvalid, hperm⟩]
      -- the child's tree has not been touched yet
      have hnot : ∀ {q'}, Sub s.mem c lev q' → ¬ Below s.mem q lev i q' ∧ q' ≠ q := by
        intro q' hs
        refine ⟨?_, htree.not_root (by omega) hk hs⟩
        rintro ⟨j, c', hj, hk', hs'⟩
        have := htree.disjoint (by omega) (by omega) hk hk' hs hs'
        omega
      have hagree : ∀ q', Sub s.mem c lev q' → Agree s.mem s'.mem q' := fun q' hs =>
        h.mem (hnot hs).1 (hnot hs).2
      have hchild := (htree.child hk (by omega)).congr hagree
        fun q' hs => h.other (hnot hs).1
      have harea : InArea c := by
        apply h.heap.inArea
        rw [hchild.temp (Sub.self ..)]
        rintro ⟨⟩
      rw [pte2pa_kid harea hk]
      refine (hfw h.heap hchild).bind ?_
      rintro _ s₂ ⟨o₂, hfreed⟩
      apply returns_store64
      have hsub : ∀ {q'}, Sub s'.mem c lev q' ↔ Sub s.mem c lev q' := by
        intro q'
        constructor
        · rintro ⟨d, x, hd, hx, hn⟩
          exact ⟨d, x, hd, hx, by rw [← Sub.congr hagree (by omega) hx]; exact hn⟩
        · rintro ⟨d, x, hd, hx, hn⟩
          exact ⟨d, x, hd, hx, by rw [Sub.congr hagree (by omega) hx]; exact hn⟩
      exact ih (by omega) (h.next htree (by omega) hk hfreed hsub)

/-- `freewalk` frees exactly the pages of the tree. -/
lemma freewalk_spec : ∀ (lev : Nat) {s : Phys} {o : Nat → Owner} {q : Nat}, Heap s R o →
    Teardown s.mem o q lev →
    Returns (freewalk (lev + 1) (4096 * q)) s fun _ s' =>
      ∃ o', Freed R (Sub s.mem q lev) s o s' o' := by
  intro lev
  induction lev with
  | zero =>
    intro s o q h htree
    have hnone : ∀ j, j < 512 → kid s.mem q j = none := by
      intro j hj
      have hleaf := htree.leaf (x := j) (by simpa using hj)
      rwa [node_succ, node, Option.bind_some, Nat.mod_eq_of_lt hj] at hleaf
    have htemp := htree.temp (Sub.self s.mem q 0)
    have hself : ∀ {q'}, Sub s.mem q 0 q' ↔ q' = q := by
      intro q'
      constructor
      · rintro ⟨d, x, hd, -, hn⟩
        obtain rfl : d = 0 := by omega
        exact (Option.some.inj hn).symm
      · rintro rfl
        exact Sub.self ..
    rw [freewalk]
    refine returns_bind_of_eq (freewalkRounds_empty 512 (by omega) hnone) ?_
    refine (kfree_spec h (by rw [htemp]; trivial)).mono ?_
    rintro _ s' ⟨rfl, hheap⟩
    refine ⟨_, hheap, ?_, ?_, ?_⟩
    · intro q' hs
      rw [hself.mp hs, update_self]
    · exact fun hs => update_of_ne (fun he => hs (hself.mpr he)) _ _
    · exact fun hs => s.agree_release fun he => hs (hself.mpr he)
  | succ lev ih =>
    intro s o q h htree
    have hstart : Walked R q lev 0 s o s o :=
      ⟨h, fun hb => absurd hb (by rintro ⟨j, c, hj, -⟩; omega), fun _ => rfl,
        fun _ _ => Agree.refl _ _, fun _ _ => rfl⟩
    rw [freewalk]
    refine (freewalkRounds_spec htree ih 512 (by omega) hstart).bind ?_
    rintro _ s₁ ⟨o₁, hw⟩
    have hbelow : ¬ Below s.mem q lev 512 q := by
      rintro ⟨j, c, hj, hk, hs⟩
      exact htree.not_root hj hk hs rfl
    have htemp : o₁ q = .temp := by
      rw [hw.other hbelow]
      exact htree.temp (Sub.self ..)
    have hsub : ∀ {q'}, Sub s.mem q (lev + 1) q' ↔ q' = q ∨ Below s.mem q lev 512 q' := by
      intro q'
      rw [sub_succ]
      rfl
    refine (kfree_spec hw.heap (q := q) (by rw [htemp]; trivial)).mono ?_
    rintro _ s' ⟨rfl, hheap⟩
    refine ⟨_, hheap, ?_, ?_, ?_⟩
    · intro q' hs
      by_cases he : q' = q
      · rw [he, update_self]
      · rw [update_of_ne he]
        exact hw.freed ((hsub.mp hs).resolve_left he)
    · intro q' hs
      rw [update_of_ne fun he => hs (hsub.mpr (.inl he))]
      exact hw.other fun hb => hs (hsub.mpr (.inr hb))
    · intro q' hs
      have hne : q' ≠ q := fun he => hs (hsub.mpr (.inl he))
      exact (hw.mem (fun hb => hs (hsub.mpr (.inr hb))) hne).trans (s₁.agree_release hne)

/-! ## `uvmfree` -/

/-- The page belongs to table `t`. -/
def Owner.Mine (t : Tag) (y : Owner) : Prop := (∃ d x, y = .table t d x) ∨ ∃ v, y = .user t v

/-- Table `t` is gone, with all its pages. -/
structure Gone (R : Tag → Option Nat) (t : Tag) (s : Phys) (o : Nat → Owner) (s' : Phys)
    (o' : Nat → Owner) : Prop where
  heap : Heap s' (update R t none) o'
  freed : ∀ {q}, (o q).Mine t → o' q = .free
  other : ∀ {q}, ¬ (o q).Mine t → o' q = o q
  mem : ∀ {q}, ¬ (o q).Mine t → Agree s.mem s'.mem q

/-- A table without mappings is a tree that can be taken apart. -/
lemma Heap.teardown (h : Heap s R o) (hR : R t = some r)
    (hleaf : ∀ v, v < 512 ^ 3 → pteKid (pteAt s.mem r v) = none) :
    Teardown s.mem (fun q => (o q).dismiss t) r 2 where
  temp := fun {q'} hs => by
    obtain ⟨d, x, hd, hx, hn⟩ := hs
    rw [(h.table hR hd hx).mp hn]
    exact if_pos rfl
  inj := fun hd hx he hy hn hn' => h.node_unique hR hd hx he hy hn hn'
  leaf := fun {x} hx => by
    rw [← pteKid_pteAt]
    exact hleaf x hx
  dir := fun hd hx hn hi hk => h.dir hR hd hx hn hi hk

lemma Heap.sub_iff (h : Heap s R o) (hR : R t = some r) :
    Sub s.mem r 2 q ↔ ∃ d x, o q = .table t d x := by
  constructor
  · rintro ⟨d, x, hd, hx, hn⟩
    exact ⟨d, x, (h.table hR hd hx).mp hn⟩
  · rintro ⟨d, x, hq⟩
    obtain ⟨-, hd, hx⟩ := h.tableLive hq
    exact ⟨d, x, hd, hx, (h.table hR hd hx).mpr hq⟩

/-- `freewalk` of a table without mappings. -/
lemma freewalk_table (h : Heap s R o) (hR : R t = some r)
    (hleaf : ∀ v, v < 512 ^ 3 → pteKid (pteAt s.mem r v) = none)
    (huser : ∀ q v, o q ≠ .user t v) :
    Returns (freewalk 3 (4096 * r)) s fun _ s' => ∃ o', Gone R t s o s' o' := by
  have hsub : ∀ {q}, Sub s.mem r 2 q ↔ (o q).Mine t := by
    intro q
    rw [h.sub_iff hR]
    exact ⟨.inl, fun hm => hm.resolve_right fun ⟨v, hv⟩ => huser q v hv⟩
  refine (freewalk_spec 2 (h.dismiss huser) (h.teardown hR hleaf)).mono ?_
  rintro _ s' ⟨o', hf⟩
  refine ⟨o', hf.heap, fun hq => hf.freed (hsub.mpr hq), ?_, fun hq => hf.mem fun hs => hq (hsub.mp hs)⟩
  intro q hq
  rw [hf.other fun hs => hq (hsub.mp hs)]
  rcases Owner.dismiss_cases t (o q) with ⟨htable, -⟩ | ⟨-, hsame⟩
  · exact absurd (.inl htable) hq
  · exact hsame

/-- `uvmfree` of a table whose user pages are those of the size. -/
lemma uvmfree_spec {sz : Nat} (h : Heap s R o) (hR : R t = some r) (hsz : sz < 2 ^ 40)
    (hp : UserPages (fun v => pteAt s.mem r v) (pages sz))
    (hfixed : ∀ v, v < 512 ^ 3 → ¬ UserVpn v → pteKid (pteAt s.mem r v) = none) :
    Returns (uvmfree (4096 * r) sz) s fun _ s' => ∃ o', Gone R t s o s' o' := by
  have hunmap : Returns (if sz > 0 then uvmunmap (4096 * r) 0 (pgRoundUp sz / pgSize) true
      else pure ()) s fun _ s' => ∃ o', Unmapped R t r 0 (pages sz) s o s' o' := by
    split
    next hpos =>
      have hcount : pgRoundUp sz / pgSize = pages sz := by
        rw [pgRoundUp_pages hsz]
        exact Nat.mul_div_cancel_left _ (by decide)
      have hle := hp.le
      unfold uvmunmap
      rw [if_neg (by decide), hcount, unmap_count (v := 0) (by unfold trapframeVpn at hle; omega)]
      have hspec := unmapRounds_spec hR (pages sz) (v := 0) h (by rw [Nat.zero_add]; exact hp.le)
        (fun v' _ hv' => ⟨hp.kid_ne_none (by omega), hp.flags_ne (by omega)⟩)
      rwa [Nat.zero_add] at hspec
    next hzero =>
      obtain rfl : sz = 0 := by omega
      exact returns_pure ⟨o, Unmapped.refl h 0⟩
  unfold uvmfree
  refine hunmap.bind ?_
  rintro _ s₁ ⟨o₁, hu⟩
  have hleaf : ∀ v, v < 512 ^ 3 → pteKid (pteAt s₁.mem r v) = none := by
    intro v hv
    rw [hu.ptes hv]
    split
    next => exact pteKid_zero
    next hout =>
      by_cases huv : UserVpn v
      · exact hp.unmapped huv (by omega)
      · exact hfixed v hv huv
  have huser : ∀ q v, o₁ q ≠ .user t v := by
    intro q v hq
    have huv := (hu.heap.userLive hq).2
    rw [← hu.heap.user hR huv, hleaf v huv.1] at hq
    cases hq
  refine (freewalk_table hu.heap hR hleaf huser).mono ?_
  rintro _ s₂ ⟨o₂, hg⟩
  have hmine : ∀ {q}, ¬ (o q).Mine t → o₁ q = o q := fun hq =>
    hu.owners fun v _ _ hv => hq (.inr ⟨v, hv⟩)
  refine ⟨o₂, hg.heap, ?_, ?_, ?_⟩
  · rintro q hq
    by_cases hq₁ : (o₁ q).Mine t
    · exact hg.freed hq₁
    · rw [hg.other hq₁]
      -- a user page of the table was freed by `uvmunmap`
      by_cases hrange : ∃ v, o q = .user t v ∧ v < pages sz
      · obtain ⟨v, hv, hlt⟩ := hrange
        exact hu.freed hv (Nat.zero_le v) hlt
      · have he : o₁ q = o q := hu.owners fun v _ hlt hv => hrange ⟨v, hv, hlt⟩
        rw [he] at hq₁
        exact absurd hq hq₁
  · intro q hq
    rw [hg.other (by rw [hmine hq]; exact hq), hmine hq]
  · intro q hq
    have hfirst := hu.mem (q := q) (fun d x htable => hq (.inl ⟨d, x, htable⟩))
      fun v _ _ hv => hq (.inr ⟨v, hv⟩)
    exact hfirst.trans (hg.mem (by rw [hmine hq]; exact hq))

end Xv6.Mem
