import Xv6.Mem.Heap

/-!
# Page tables in the heap

How the owner map changes when a page table is created, gets a new page-table
page, gets or loses an entry, and is taken apart.
-/

namespace Xv6.Mem

open Function Lib

variable [Layout] {s : Phys} {R : Tag → Option Nat} {o o' : Nat → Owner} {t : Tag}
variable {r q q₁ i d x v w : Nat}

section

omit [Layout]

lemma pteKid_dir (q : Nat) : pteKid (1024 * q + 1) = some q := by
  have hodd : (1024 * q + 1) % 2 = 1 := by omega
  have hdiv : (1024 * q + 1) / 1024 = q := by omega
  rw [pteKid, if_pos hodd, hdiv]

/-- A store to one entry leaves the others alone. -/
lemma entry_store_same {m : Bytes} {q' j : Nat} (hother : q' = q → j ≠ i) (hj : j < 512)
    (hi : i < 512) : entry (putLE m (4096 * q + 8 * i) 8 w) q' j = entry m q' j := by
  by_cases he : q' = q
  · rw [he]
    exact entry_putLE_of_ne fun hij => hother he hij.symm
  · exact entry_congr (agree_putLE (by omega) he) hj

end

/-- Neither a page in hand nor a page of table `t`. -/
def Owner.Elsewhere (t : Tag) : Owner → Prop
  | .temp => False
  | .table t' _ _ => t' ≠ t
  | .user t' _ => t' ≠ t
  | .outside => True
  | .free => True
  | .trapframe _ => True
  | .pipe => True
  | .boot => True
  | .held _ => True

/-- A store to an entry of table `t`. The other tables and the free list do not
notice it, so what is left to show is about `t`. -/
lemma Heap.store (h : Heap s R o) (hR : R t = some r) (hq : o q = .table t d x) (hi : i < 512)
    (hkey : ∀ (y : Owner) {q' : Nat}, y.Elsewhere t → (o' q' = y ↔ o q' = y))
    (htable : ∀ {d x q'}, d ≤ 2 → x < 512 ^ d →
      (node (putLE s.mem (4096 * q + 8 * i) 8 w) r d x = some q' ↔ o' q' = .table t d x))
    (huser : ∀ {v q'}, UserVpn v →
      (pteKid (pteAt (putLE s.mem (4096 * q + 8 * i) 8 w) r v) = some q' ↔ o' q' = .user t v))
    (hdir : ∀ {d x q' j}, d < 2 → x < 512 ^ d →
      node (putLE s.mem (4096 * q + 8 * i) 8 w) r d x = some q' → j < 512 →
      kid (putLE s.mem (4096 * q + 8 * i) 8 w) q' j ≠ none →
      entry (putLE s.mem (4096 * q + 8 * i) 8 w) q' j % 1024 = 1)
    (htableLive : ∀ {q' d x}, o' q' = .table t d x → d ≤ 2 ∧ x < 512 ^ d)
    (huserLive : ∀ {q' v}, o' q' = .user t v → UserVpn v) :
    Heap (s.withMem (putLE s.mem (4096 * q + 8 * i) 8 w)) R o' := by
  have hagree : ∀ {q'}, o q' ≠ .table t d x →
      Agree s.mem (putLE s.mem (4096 * q + 8 * i) 8 w) q' := by
    intro q' hq'
    apply agree_putLE (by omega)
    rintro rfl
    exact hq' hq
  have hsame : ∀ {t'}, t' ≠ t → ∀ q' d' x', o q' = .table t' d' x' →
      Agree s.mem (putLE s.mem (4096 * q + 8 * i) 8 w) q' := by
    intro t' ht q' d' x' hq'
    apply hagree
    rw [hq']
    rintro ⟨⟩
    exact ht rfl
  have hothers : ∀ {t' r'}, t' ≠ t → R t' = some r' → _ := fun {t' r'} ht hR' =>
    h.table_congr hR' (hsame ht)
  constructor
  · intro q'
    rw [hkey .outside trivial]
    exact h.area
  · obtain ⟨F, hchain, hnodup, hF⟩ := h.free
    refine ⟨F, hchain.congr fun q' hq' => hagree ?_, hnodup, fun q' => ?_⟩
    · rw [(hF q').mp hq']
      rintro ⟨⟩
    · rw [hkey .free trivial]
      exact hF q'
  · intro t' r' d' x' q' hR' hd' hx'
    by_cases ht : t' = t
    · subst ht
      rw [hR] at hR'
      cases hR'
      exact htable hd' hx'
    · show node (putLE _ _ _ _) r' d' x' = some q' ↔ _
      rw [hkey (.table t' d' x') ht, (hothers ht hR').1 d' x' (by omega) hx']
      exact h.table hR' hd' hx'
  · intro t' r' v q' hR' hv
    by_cases ht : t' = t
    · subst ht
      rw [hR] at hR'
      cases hR'
      exact huser hv
    · show pteKid (pteAt (putLE _ _ _ _) r' v) = some q' ↔ _
      rw [hkey (.user t' v) ht, (hothers ht hR').2 v hv.1]
      exact h.user hR' hv
  · intro t' r' d' x' q' j hR'
    by_cases ht : t' = t
    · subst ht
      rw [hR] at hR'
      cases hR'
      exact hdir
    · exact h.dir_congr hR' (hsame ht)
  · intro q' t' d' x' hq'
    by_cases ht : t' = t
    · subst ht
      exact ⟨⟨r, hR⟩, htableLive hq'⟩
    · exact h.tableLive ((hkey (.table t' d' x') ht).mp hq')
  · intro q' t' v hq'
    by_cases ht : t' = t
    · subst ht
      exact ⟨⟨r, hR⟩, huserLive hq'⟩
    · exact h.userLive ((hkey (.user t' v) ht).mp hq')

/-- An empty page becomes the page-table page behind an unused entry. -/
lemma Heap.grow (h : Heap s R o) (hR : R t = some r) (hd : d < 2) (hx : x < 512 ^ d)
    (hq : node s.mem r d x = some q) (hi : i < 512) (hold : kid s.mem q i = none)
    (hnew : o q₁ = .temp) (hzero : ∀ j, j < 512 → entry s.mem q₁ j = 0) :
    Heap (s.withMem (putLE s.mem (4096 * q + 8 * i) 8 (1024 * q₁ + 1))) R
      (update o q₁ (.table t (d + 1) (512 * x + i))) ∧
    node (putLE s.mem (4096 * q + 8 * i) 8 (1024 * q₁ + 1)) r (d + 1) (512 * x + i) = some q₁ ∧
    ∀ v, v < 512 ^ 3 →
      pteAt (putLE s.mem (4096 * q + 8 * i) 8 (1024 * q₁ + 1)) r v = pteAt s.mem r v := by
  have hown : o q = .table t d x := (h.table hR (by omega) hx).mp hq
  have hq₁ : q₁ < 2 ^ 40 := inArea_lt (h.inArea (by rw [hnew]; rintro ⟨⟩))
  have hne : q₁ ≠ q := by
    rintro rfl
    rw [hnew] at hown
    cases hown
  have huniq : ∀ d' x', d' ≤ 2 → x' < 512 ^ d' → node s.mem r d' x' = some q → d' = d ∧ x' = x :=
    fun d' x' hd' hx' hq' => h.node_unique hR hd' hx' (by omega) hx hq' hq
  have hkid : kid (putLE s.mem (4096 * q + 8 * i) 8 (1024 * q₁ + 1)) q i = some q₁ := by
    rw [kid, entry_putLE (by omega), pteKid_dir]
  have hempty : ∀ q', kid (putLE s.mem (4096 * q + 8 * i) 8 (1024 * q₁ + 1)) q i = some q' →
      ∀ j, j < 512 → entry (putLE s.mem (4096 * q + 8 * i) 8 (1024 * q₁ + 1)) q' j = 0 := by
    intro q' hq' j hj
    rw [hkid] at hq'
    cases hq'
    rw [entry_congr (agree_putLE (by omega) hne) hj, hzero j hj]
  have hset := fun {d' x' : Nat} => node_set hq hi huniq
    (fun _ _ _ _ _ _ _ hj hother => entry_store_same hother hj hi)
    (fun _ => ⟨hold, hempty⟩) (d := d') (x := x')
  have hpte : ∀ v, v < 512 ^ 3 →
      pteAt (putLE s.mem (4096 * q + 8 * i) 8 (1024 * q₁ + 1)) r v = pteAt s.mem r v :=
    fun v hv => pteAt_grow hq hi hd huniq
      (fun _ _ _ _ _ _ _ hj hother => entry_store_same hother hj hi) hold hempty hv
  have hc : 512 * x + i < 512 ^ (d + 1) := by
    rw [pow_succ]
    omega
  -- the page changes hands, and no other owner sees it
  have key : ∀ (y : Owner) {q' : Nat}, y ≠ .temp → y ≠ .table t (d + 1) (512 * x + i) →
      (update o q₁ (.table t (d + 1) (512 * x + i)) q' = y ↔ o q' = y) := by
    intro y q' htemp htable
    by_cases he : q' = q₁
    · subst he
      rw [update_self, hnew]
      exact ⟨fun hy => absurd hy.symm htable, fun hy => absurd hy.symm htemp⟩
    · rw [update_of_ne he]
  refine ⟨?_, ?_, hpte⟩
  · apply h.store hR hown hi
    · intro y q' hy
      exact key y (by rintro rfl; exact hy) (by rintro rfl; exact hy rfl)
    · intro d' x' q' hd' hx'
      rw [hset (by omega) hx', hkid]
      split
      next hhere =>
        obtain ⟨rfl, rfl⟩ := hhere
        by_cases he : q' = q₁
        · subst he
          simp
        · rw [update_of_ne he, ← h.table hR (by omega) hc, node_succ]
          have hdiv : (512 * x + i) / 512 = x := by omega
          have hmod : (512 * x + i) % 512 = i := by omega
          rw [hdiv, hmod, hq, Option.bind_some, hold]
          exact ⟨fun hy => absurd (Option.some.inj hy).symm he, fun hy => by cases hy⟩
      next hthere =>
        rw [key (.table t d' x') (by rintro ⟨⟩)]
        · exact h.table hR hd' hx'
        · rintro ⟨⟩
          exact hthere ⟨rfl, rfl⟩
    · intro v q' hv
      rw [key (.user t v) (by rintro ⟨⟩) (by rintro ⟨⟩), hpte v hv.1]
      exact h.user hR hv
    · intro d' x' q' j hd' hx' hq' hj hk
      rw [hset (by omega) hx', hkid] at hq'
      split at hq'
      next =>
        cases hq'
        rw [kid, hempty _ hkid j hj] at hk
        exact absurd pteKid_zero hk
      next =>
        by_cases hhere : q' = q ∧ j = i
        · rw [hhere.1, hhere.2, entry_putLE (by omega)]
          omega
        · have he := entry_store_same (m := s.mem) (w := 1024 * q₁ + 1) (q := q) (i := i)
            (fun e hj' => hhere ⟨e, hj'⟩) hj hi
          rw [kid, he] at hk
          rw [he]
          exact h.dir hR hd' hx' hq' hj hk
    · intro q' d' x' hq'
      by_cases he : q' = q₁
      · subst he
        rw [update_self] at hq'
        cases hq'
        exact ⟨by omega, hc⟩
      · rw [update_of_ne he] at hq'
        exact (h.tableLive hq').2
    · intro q' v hq'
      exact (h.userLive ((key (.user t v) (by rintro ⟨⟩) (by rintro ⟨⟩)).mp hq')).2
  · rw [hset (by omega) hc, if_pos ⟨rfl, rfl⟩, hkid]

/-- A store to the entry of virtual page `v`. A page that the entry owns may
come into it or leave it. -/
lemma Heap.setLeaf {p : Nat → Owner} (h : Heap s R o) (hR : R t = some r) (hv : v < 512 ^ 3)
    (hq : node s.mem r 2 (v / 512) = some q) (hw : w < 2 ^ 64)
    (hself : UserVpn v → ∀ q', pteKid w = some q' ↔ p q' = .user t v)
    (hchange : ∀ q', p q' = o q' ∨ UserVpn v ∧ (o q' = .temp ∧ p q' = .user t v ∨
      o q' = .user t v ∧ p q' = .temp)) :
    Heap (s.withMem (putLE s.mem (4096 * q + 8 * (v % 512)) 8 w)) R p ∧
    ∀ v', v' < 512 ^ 3 → pteAt (putLE s.mem (4096 * q + 8 * (v % 512)) 8 w) r v' =
      if v' = v then w else pteAt s.mem r v' := by
  have hx := div_lt_pow hv
  have hi : v % 512 < 512 := Nat.mod_lt v (by decide)
  have hown : o q = .table t 2 (v / 512) := (h.table hR (by decide) hx).mp hq
  have huniq : ∀ d' x', d' ≤ 2 → x' < 512 ^ d' → node s.mem r d' x' = some q →
      d' = 2 ∧ x' = v / 512 :=
    fun d' x' hd' hx' hq' => h.node_unique hR hd' hx' (by omega) hx hq' hq
  have hset := fun {d' x' : Nat} => node_set hq hi huniq
    (fun _ _ _ _ _ _ _ hj hother => entry_store_same (w := w) hother hj hi)
    (fun hlt => absurd hlt (by decide)) (d := d') (x := x')
  have hpte : ∀ v', v' < 512 ^ 3 → pteAt (putLE s.mem (4096 * q + 8 * (v % 512)) 8 w) r v' =
      if v' = v then w else pteAt s.mem r v' := by
    intro v' hv'
    rw [pteAt_set hq hi huniq
      (fun _ _ _ _ _ _ _ hj hother => entry_store_same (w := w) hother hj hi) hv',
      entry_putLE hw, Nat.div_add_mod]
  have key : ∀ (y : Owner) {q' : Nat}, y ≠ .temp → y ≠ .user t v → (p q' = y ↔ o q' = y) := by
    intro y q' htemp huser
    rcases hchange q' with he | ⟨-, ⟨h₁, h₂⟩ | ⟨h₁, h₂⟩⟩
    · rw [he]
    · rw [h₁, h₂]
      exact ⟨fun hy => absurd hy.symm huser, fun hy => absurd hy.symm htemp⟩
    · rw [h₁, h₂]
      exact ⟨fun hy => absurd hy.symm htemp, fun hy => absurd hy.symm huser⟩
  refine ⟨?_, hpte⟩
  apply h.store hR hown hi
  · intro y q' hy
    exact key y (by rintro rfl; exact hy) (by rintro rfl; exact hy rfl)
  · intro d' x' q' hd' hx'
    rw [hset (by omega) hx', if_neg (by omega), key (.table t d' x') (by rintro ⟨⟩) (by rintro ⟨⟩)]
    exact h.table hR hd' hx'
  · intro v' q' hv'
    rw [hpte v' hv'.1]
    split
    next he =>
      subst he
      exact hself hv' q'
    next hne =>
      rw [key (.user t v') (by rintro ⟨⟩) (by rintro ⟨⟩; exact hne rfl)]
      exact h.user hR hv'
  · intro d' x' q' j hd' hx' hq' hj hk
    rw [hset (by omega) hx', if_neg (by omega)] at hq'
    have hne : q' ≠ q := by
      rintro rfl
      have := (huniq d' x' (by omega) hx' hq').1
      omega
    have he := entry_store_same (m := s.mem) (w := w) (q := q) (i := v % 512)
      (fun e _ => hne e) hj hi
    rw [kid, he] at hk
    rw [he]
    exact h.dir hR hd' hx' hq' hj hk
  · intro q' d' x' hq'
    exact (h.tableLive ((key (.table t d' x') (by rintro ⟨⟩) (by rintro ⟨⟩)).mp hq')).2
  · intro q' v' hq'
    by_cases he : v' = v
    · subst he
      rcases hchange q' with heq | ⟨hu, -⟩
      · rw [heq] at hq'
        exact (h.userLive hq').2
      · exact hu
    · exact (h.userLive ((key (.user t v') (by rintro ⟨⟩) (by rintro ⟨⟩; exact he rfl)).mp hq')).2

/-- Virtual page `v` gets an entry for page `q₁`. -/
lemma Heap.mapLeaf (h : Heap s R o) (hR : R t = some r) (hv : v < 512 ^ 3)
    (hq : node s.mem r 2 (v / 512) = some q) (hfresh : pteKid (pteAt s.mem r v) = none)
    (hw : w < 2 ^ 64) (hkid : pteKid w = some q₁) (hown : UserVpn v → o q₁ = .temp) :
    ∃ o', Heap (s.withMem (putLE s.mem (4096 * q + 8 * (v % 512)) 8 w)) R o' ∧
      (∀ q', o' q' = o q' ∨ UserVpn v ∧ q' = q₁ ∧ o' q' = .user t v) ∧
      (UserVpn v → o' q₁ = .user t v) ∧
      ∀ v', v' < 512 ^ 3 → pteAt (putLE s.mem (4096 * q + 8 * (v % 512)) 8 w) r v' =
        if v' = v then w else pteAt s.mem r v' := by
  by_cases hu : UserVpn v
  · have hnone : ∀ q', o q' ≠ .user t v := by
      intro q' hq'
      rw [← h.user hR hu, hfresh] at hq'
      cases hq'
    obtain ⟨hheap, hptes⟩ := h.setLeaf hR hv hq hw (p := update o q₁ (.user t v))
      (fun _ q' => by
        rw [hkid]
        by_cases he : q' = q₁
        · subst he
          simp
        · rw [update_of_ne he]
          exact ⟨fun hs => absurd (Option.some.inj hs).symm he, fun hs => absurd hs (hnone q')⟩)
      (fun q' => by
        by_cases he : q' = q₁
        · subst he
          exact .inr ⟨hu, .inl ⟨hown hu, update_self ..⟩⟩
        · exact .inl (update_of_ne he _ _))
    refine ⟨_, hheap, fun q' => ?_, fun _ => update_self .., hptes⟩
    by_cases he : q' = q₁
    · subst he
      exact .inr ⟨hu, rfl, update_self ..⟩
    · exact .inl (update_of_ne he _ _)
  · obtain ⟨hheap, hptes⟩ := h.setLeaf hR hv hq hw (p := o) (fun hu' => absurd hu' hu)
      (fun _ => .inl rfl)
    exact ⟨o, hheap, fun _ => .inl rfl, fun hu' => absurd hu' hu, hptes⟩

/-- Virtual page `v` loses its entry, and its page is in hand. -/
lemma Heap.unmapLeaf (h : Heap s R o) (hR : R t = some r) (hu : UserVpn v)
    (hq : node s.mem r 2 (v / 512) = some q) (hown : o q₁ = .user t v) :
    Heap (s.withMem (putLE s.mem (4096 * q + 8 * (v % 512)) 8 0)) R (update o q₁ .temp) ∧
      ∀ v', v' < 512 ^ 3 → pteAt (putLE s.mem (4096 * q + 8 * (v % 512)) 8 0) r v' =
        if v' = v then 0 else pteAt s.mem r v' := by
  apply h.setLeaf hR hu.1 hq (by decide)
  · intro _ q'
    rw [pteKid_zero]
    refine ⟨fun hs => (by cases hs), fun hs => ?_⟩
    by_cases he : q' = q₁
    · rw [he, update_self] at hs
      cases hs
    · rw [update_of_ne he, ← h.user hR hu, (h.user hR hu).mpr hown] at hs
      exact absurd (Option.some.inj hs).symm he
  · intro q'
    by_cases he : q' = q₁
    · subst he
      exact .inr ⟨hu, .inr ⟨hown, update_self ..⟩⟩
    · exact .inl (update_of_ne he _ _)

/-- The entry of virtual page `v` changes and still refers to the same page, or
belongs to nobody. -/
lemma Heap.changeLeaf (h : Heap s R o) (hR : R t = some r) (hv : v < 512 ^ 3)
    (hq : node s.mem r 2 (v / 512) = some q) (hw : w < 2 ^ 64)
    (hsame : UserVpn v → pteKid w = pteKid (pteAt s.mem r v)) :
    Heap (s.withMem (putLE s.mem (4096 * q + 8 * (v % 512)) 8 w)) R o ∧
      ∀ v', v' < 512 ^ 3 → pteAt (putLE s.mem (4096 * q + 8 * (v % 512)) 8 w) r v' =
        if v' = v then w else pteAt s.mem r v' := by
  apply h.setLeaf hR hv hq hw
  · intro hu q'
    rw [hsame hu]
    exact h.user hR hu
  · exact fun _ => .inl rfl

/-! ## Creating a table and taking it apart -/

omit [Layout] in
/-- A table on an empty page. -/
lemma node_empty {m : Bytes} (hzero : ∀ j, j < 512 → entry m q j = 0) :
    node m q (d + 1) x = none := by
  induction d generalizing x with
  | zero =>
    rw [node_succ, node, Option.bind_some, kid, hzero _ (Nat.mod_lt x (by decide)), pteKid_zero]
  | succ d ih =>
    rw [node_succ, ih]
    rfl

/-- An empty page becomes the root of a new table. -/
lemma Heap.create (h : Heap s R o) (hR : R t = none) (hq : o q = .temp)
    (hzero : ∀ j, j < 512 → entry s.mem q j = 0) :
    Heap s (update R t (some q)) (update o q (.table t 0 0)) ∧
      ∀ v, pteAt s.mem q v = 0 := by
  have hpte : ∀ v, pteAt s.mem q v = 0 := fun v => pteAt_of_none (node_empty hzero)
  -- nothing belongs to a table that is not there
  have hnot : ∀ q' d' x', o q' ≠ .table t d' x' := by
    intro q' d' x' hq'
    obtain ⟨⟨r, hr⟩, -⟩ := h.tableLive hq'
    rw [hR] at hr
    cases hr
  have hnot' : ∀ q' v, o q' ≠ .user t v := by
    intro q' v hq'
    obtain ⟨⟨r, hr⟩, -⟩ := h.userLive hq'
    rw [hR] at hr
    cases hr
  have key : ∀ (y : Owner) {q' : Nat}, y ≠ .temp → y ≠ .table t 0 0 →
      (update o q (.table t 0 0) q' = y ↔ o q' = y) := by
    intro y q' htemp htable
    by_cases he : q' = q
    · subst he
      rw [update_self, hq]
      exact ⟨fun hy => absurd hy.symm htable, fun hy => absurd hy.symm htemp⟩
    · rw [update_of_ne he]
  refine ⟨?_, hpte⟩
  constructor
  · intro q'
    rw [key .outside (by rintro ⟨⟩) (by rintro ⟨⟩)]
    exact h.area
  · obtain ⟨F, hchain, hnodup, hF⟩ := h.free
    refine ⟨F, hchain, hnodup, fun q' => ?_⟩
    rw [key .free (by rintro ⟨⟩) (by rintro ⟨⟩)]
    exact hF q'
  · intro t' r' d' x' q' hR' hd' hx'
    by_cases ht : t' = t
    · subst ht
      rw [update_self] at hR'
      cases hR'
      cases d' with
      | zero =>
        obtain rfl : x' = 0 := by omega
        by_cases he : q' = q
        · subst he
          simp [node]
        · rw [update_of_ne he]
          exact ⟨fun hn => absurd (Option.some.inj hn).symm he, fun hn => absurd hn (hnot _ _ _)⟩
      | succ d' =>
        rw [node_empty hzero, key (.table t' (d' + 1) x') (by rintro ⟨⟩) (by rintro ⟨⟩)]
        exact ⟨fun hn => (by cases hn), fun hn => absurd hn (hnot _ _ _)⟩
    · rw [update_of_ne ht] at hR'
      rw [key (.table t' d' x') (by rintro ⟨⟩) (by rintro ⟨⟩; exact ht rfl)]
      exact h.table hR' hd' hx'
  · intro t' r' v q' hR' hv
    rw [key (.user t' v) (by rintro ⟨⟩) (by rintro ⟨⟩)]
    by_cases ht : t' = t
    · subst ht
      rw [update_self] at hR'
      cases hR'
      rw [hpte v, pteKid_zero]
      exact ⟨fun hn => (by cases hn), fun hn => absurd hn (hnot' _ _)⟩
    · rw [update_of_ne ht] at hR'
      exact h.user hR' hv
  · intro t' r' d' x' q' j hR' hd' hx' hq' hj hk
    by_cases ht : t' = t
    · subst ht
      rw [update_self] at hR'
      cases hR'
      cases d' with
      | zero =>
        cases hq'
        rw [kid, hzero j hj] at hk
        exact absurd pteKid_zero hk
      | succ d' =>
        rw [node_empty hzero] at hq'
        cases hq'
    · rw [update_of_ne ht] at hR'
      exact h.dir hR' hd' hx' hq' hj hk
  · intro q' t' d' x' hq'
    by_cases ht : t' = t
    · subst ht
      refine ⟨⟨q, update_self ..⟩, ?_⟩
      by_cases he : q' = q
      · subst he
        rw [update_self] at hq'
        cases hq'
        exact ⟨by decide, by decide⟩
      · rw [update_of_ne he] at hq'
        exact absurd hq' (hnot _ _ _)
    · rw [update_of_ne ht]
      exact h.tableLive
        ((key (.table t' d' x') (by rintro ⟨⟩) (by rintro ⟨⟩; exact ht rfl)).mp hq')
  · intro q' t' v hq'
    have hq'' := (key (.user t' v) (by rintro ⟨⟩) (by rintro ⟨⟩)).mp hq'
    have ht : t' ≠ t := by
      rintro rfl
      exact hnot' _ _ hq''
    rw [update_of_ne ht]
    exact h.userLive hq''

/-- The pages of table `t` are in hand now. -/
def Owner.dismiss (t : Tag) : Owner → Owner
  | .table t' d x => if t' = t then .temp else .table t' d x
  | y => y

omit [Layout] in
lemma Owner.dismiss_cases (t : Tag) (y : Owner) :
    (∃ d x, y = .table t d x) ∧ y.dismiss t = .temp ∨
      (∀ d x, y ≠ .table t d x) ∧ y.dismiss t = y := by
  cases y with
  | table t' d x =>
    by_cases ht : t' = t
    · subst ht
      exact .inl ⟨⟨d, x, rfl⟩, if_pos rfl⟩
    · exact .inr ⟨fun d' x' he => ht (by cases he; rfl), if_neg ht⟩
  | outside | free | temp | user t' v | trapframe p | pipe | boot | held k =>
    exact .inr ⟨fun _ _ => (by rintro ⟨⟩), rfl⟩

omit [Layout] in
lemma Owner.dismiss_iff {y z : Owner} (hz : z.Elsewhere t) : y.dismiss t = z ↔ y = z := by
  rcases Owner.dismiss_cases t y with ⟨⟨d, x, rfl⟩, hd⟩ | ⟨-, hd⟩
  · rw [hd]
    constructor
    · rintro rfl
      exact absurd hz id
    · rintro rfl
      exact absurd rfl hz
  · rw [hd]

omit [Layout] in
lemma Owner.dismiss_ne_table {y : Owner} : y.dismiss t ≠ .table t d x := by
  rcases Owner.dismiss_cases t y with ⟨-, hd⟩ | ⟨hne, hd⟩
  · rw [hd]
    rintro ⟨⟩
  · rw [hd]
    exact hne d x

omit [Layout] in
lemma Owner.dismiss_user {y : Owner} {t' : Tag} (h : y.dismiss t = .user t' v) :
    y = .user t' v := by
  rcases Owner.dismiss_cases t y with ⟨-, hd⟩ | ⟨-, hd⟩
  · rw [hd] at h
    cases h
  · rw [← hd]
    exact h

/-- A table without user pages is given up: its pages are in hand. -/
lemma Heap.dismiss (h : Heap s R o) (huser : ∀ q v, o q ≠ .user t v) :
    Heap s (update R t none) fun q => (o q).dismiss t := by
  constructor
  · intro q'
    rw [Owner.dismiss_iff (z := .outside) trivial]
    exact h.area
  · obtain ⟨F, hchain, hnodup, hF⟩ := h.free
    refine ⟨F, hchain, hnodup, fun q' => ?_⟩
    rw [Owner.dismiss_iff (z := .free) trivial]
    exact hF q'
  · intro t' r' d' x' q' hR' hd' hx'
    have ht : t' ≠ t := by
      rintro rfl
      rw [update_self] at hR'
      cases hR'
    rw [update_of_ne ht] at hR'
    rw [Owner.dismiss_iff (z := .table t' d' x') ht]
    exact h.table hR' hd' hx'
  · intro t' r' v q' hR' hv
    have ht : t' ≠ t := by
      rintro rfl
      rw [update_self] at hR'
      cases hR'
    rw [update_of_ne ht] at hR'
    rw [Owner.dismiss_iff (z := .user t' v) ht]
    exact h.user hR' hv
  · intro t' r' d' x' q' j hR'
    have ht : t' ≠ t := by
      rintro rfl
      rw [update_self] at hR'
      cases hR'
    rw [update_of_ne ht] at hR'
    exact h.dir hR'
  · intro q' t' d' x' hq'
    have ht : t' ≠ t := by
      rintro rfl
      exact Owner.dismiss_ne_table hq'
    rw [update_of_ne ht]
    exact h.tableLive ((Owner.dismiss_iff (z := .table t' d' x') ht).mp hq')
  · intro q' t' v hq'
    have hq'' := Owner.dismiss_user hq'
    have ht : t' ≠ t := by
      rintro rfl
      exact huser _ _ hq''
    rw [update_of_ne ht]
    exact h.userLive hq''

end Xv6.Mem
