import Xv6.Lib.Ends
import Xv6.Mem.UvmSpec

/-!
# A page table is a finite map

`Heap` follows the pages that an address space owns. Here a table is taken by itself: its
entries may refer to any physical page, and any number of entries to the same one. What is
left is that the page-table pages form a tree apart from the free list. That is enough for
`walk` to be a map from virtual pages to entries, which `mappages` extends and `uvmunmap`
cuts down.
-/

namespace Xv6.Mem

open Lib

variable [Layout] {s s' : Phys} {r q q₁ v w d x i va perm : Nat} {F : List Nat}

/-! ## Trees of page-table pages -/

/-- The page-table pages below `r` are different pages of memory that are not free. -/
structure Tree (s : Phys) (r : Nat) (F : List Nat) : Prop where
  chain : Chain s.mem s.freelist F
  nodup : F.Nodup
  free : ∀ q ∈ F, InArea q
  area : ∀ {d x q}, d ≤ 2 → x < 512 ^ d → node s.mem r d x = some q → InArea q ∧ q ∉ F
  inj : ∀ {d x d' x' q}, d ≤ 2 → x < 512 ^ d → d' ≤ 2 → x' < 512 ^ d' →
    node s.mem r d x = some q → node s.mem r d' x' = some q → d = d' ∧ x = x'

/-- A store to the entry of a virtual page. -/
lemma Tree.setLeaf (h : Tree s r F) (hv : v < 512 ^ 3) (hq : node s.mem r 2 (v / 512) = some q)
    (w : Nat) :
    Tree (s.withMem (putLE s.mem (4096 * q + 8 * (v % 512)) 8 w)) r F ∧
      (∀ d x, d ≤ 2 → x < 512 ^ d →
        node (putLE s.mem (4096 * q + 8 * (v % 512)) 8 w) r d x = node s.mem r d x) ∧
      ∀ v' < 512 ^ 3, pteAt (putLE s.mem (4096 * q + 8 * (v % 512)) 8 w) r v' =
        if v' = v then w % 2 ^ 64 else pteAt s.mem r v' := by
  have hi : v % 512 < 512 := Nat.mod_lt v (by decide)
  have hx := div_lt_pow hv
  obtain ⟨-, hqF⟩ := h.area (by decide) hx hq
  have huniq : ∀ d x, d ≤ 2 → x < 512 ^ d → node s.mem r d x = some q → d = 2 ∧ x = v / 512 :=
    fun d x hd hx' hq' => h.inj hd hx' (by decide) hx hq' hq
  have hsame : ∀ d x q' j, d ≤ 2 → x < 512 ^ d → node s.mem r d x = some q' → j < 512 →
      (q' = q → j ≠ v % 512) →
      entry (putLE s.mem (4096 * q + 8 * (v % 512)) 8 w) q' j = entry s.mem q' j :=
    fun _ _ _ _ _ _ _ hj hother => entry_store_same hother hj hi
  have hnode : ∀ {d x}, d ≤ 2 → x < 512 ^ d →
      node (putLE s.mem (4096 * q + 8 * (v % 512)) 8 w) r d x = node s.mem r d x := by
    intro d x hd hx'
    rw [node_set hq hi huniq hsame (fun hlt => absurd hlt (by decide)) (by omega) hx', if_neg (by omega)]
  refine ⟨⟨h.chain.congr fun q' hq' => ?_, h.nodup, h.free, ?_, ?_⟩, fun _ _ => hnode, fun v' hv' => ?_⟩
  · refine agree_putLE (by omega) ?_
    rintro rfl
    exact hqF hq'
  · intro d x q' hd hx' hq'
    exact h.area hd hx' ((hnode hd hx').symm.trans hq')
  · intro d x d' x' q' hd hx hd' hx' hq hq'
    exact h.inj hd hx hd' hx' ((hnode hd hx).symm.trans hq) ((hnode hd' hx').symm.trans hq')
  · have hset := pteAt_set hq hi huniq hsame hv'
    rw [Nat.div_add_mod] at hset
    rw [hset]
    unfold entry
    rw [getLE_putLE]
    rfl

/-- A new page-table page: `kalloc`, `memset` and the store of its entry. -/
lemma Tree.grow (h : Tree s r (q₁ :: F)) (hd : d < 2) (hx : x < 512 ^ d)
    (hq : node s.mem r d x = some q) (hi : i < 512) (hold : kid s.mem q i = none) :
    let m := putLE (fill (s.take q₁).mem (4096 * q₁) 0 4096) (4096 * q + 8 * i) 8 (1024 * q₁ + 1)
    Tree ((s.take q₁).withMem m) r F ∧
      (∀ d' x', d' ≤ 2 → x' < 512 ^ d' → node m r d' x' =
        if d' = d + 1 ∧ x' = 512 * x + i then some q₁ else node s.mem r d' x') ∧
      ∀ v < 512 ^ 3, pteAt m r v = pteAt s.mem r v := by
  intro m
  have hfree := h.free q₁ List.mem_cons_self
  have hlt := inArea_lt hfree
  obtain ⟨-, hqF⟩ := h.area (by omega) hx hq
  obtain ⟨hnot, hnodup⟩ := List.nodup_cons.mp h.nodup
  have hne : q ≠ q₁ := fun he => hqF (he ▸ List.mem_cons_self)
  have hagree : ∀ {q'}, q' ≠ q₁ → Agree s.mem (fill (s.take q₁).mem (4096 * q₁) 0 4096) q' :=
    fun hq' => (s.agree_take hq').trans (agree_fill hq')
  have huniq : ∀ d' x', d' ≤ 2 → x' < 512 ^ d' → node s.mem r d' x' = some q → d' = d ∧ x' = x :=
    fun d' x' hd' hx' hq' => h.inj hd' hx' (by omega) hx hq' hq
  have hsame : ∀ d' x' q' j, d' ≤ 2 → x' < 512 ^ d' → node s.mem r d' x' = some q' → j < 512 →
      (q' = q → j ≠ i) → entry m q' j = entry s.mem q' j := by
    intro d' x' q' j hd' hx' hq' hj hother
    rw [entry_store_same hother hj hi]
    refine entry_congr (hagree ?_) hj
    rintro rfl
    exact (h.area hd' hx' hq').2 List.mem_cons_self
  have hnew : kid m q i = some q₁ := by
    rw [kid, entry_putLE (by omega)]
    exact pteKid_dir q₁
  have hempty : ∀ q', kid m q i = some q' → ∀ j, j < 512 → entry m q' j = 0 := by
    intro q' hq' j hj
    rw [hnew] at hq'
    cases hq'
    rw [entry_congr (agree_putLE (by omega) hne.symm) hj]
    exact entry_fill_zero hj
  have hnode : ∀ {d' x'}, d' ≤ 2 → x' < 512 ^ d' → node m r d' x' =
      if d' = d + 1 ∧ x' = 512 * x + i then some q₁ else node s.mem r d' x' := by
    intro d' x' hd' hx'
    rw [node_set hq hi huniq hsame (fun _ => ⟨hold, hempty⟩) (by omega) hx', hnew]
  have hfresh : ∀ {d' x'}, d' ≤ 2 → x' < 512 ^ d' → node s.mem r d' x' ≠ some q₁ :=
    fun hd' hx' hq' => (h.area hd' hx' hq').2 List.mem_cons_self
  refine ⟨⟨h.chain.2.2.congr fun q' hq' => ?_, hnodup,
    fun q' hq' => h.free q' (List.mem_cons_of_mem q₁ hq'), ?_, ?_⟩, fun _ _ => hnode, fun v hv => ?_⟩
  · have hne₁ : q' ≠ q₁ := fun he => hnot (he ▸ hq')
    have hne₂ : q' ≠ q := fun he => hqF (List.mem_cons_of_mem q₁ (he ▸ hq'))
    exact (hagree hne₁).trans (agree_putLE (by omega) hne₂)
  · intro d' x' q' hd' hx' hq'
    change node m r d' x' = some q' at hq'
    rw [hnode hd' hx'] at hq'
    split at hq'
    next =>
      cases hq'
      exact ⟨hfree, hnot⟩
    next =>
      obtain ⟨harea, hout⟩ := h.area hd' hx' hq'
      exact ⟨harea, fun hm => hout (List.mem_cons_of_mem q₁ hm)⟩
  · intro d₁ x₁ d₂ x₂ q' hd₁ hx₁ hd₂ hx₂ hq₁ hq₂
    change node m r d₁ x₁ = some q' at hq₁
    change node m r d₂ x₂ = some q' at hq₂
    rw [hnode hd₁ hx₁] at hq₁
    rw [hnode hd₂ hx₂] at hq₂
    split at hq₁
    next h₁ =>
      split at hq₂
      next h₂ => omega
      next =>
        cases hq₁
        exact absurd hq₂ (hfresh hd₂ hx₂)
    next =>
      split at hq₂
      next =>
        cases hq₂
        exact absurd hq₁ (hfresh hd₁ hx₁)
      next => exact h.inj hd₁ hx₁ hd₂ hx₂ hq₁ hq₂
  · exact pteAt_grow hq hi hd huniq hsame hold hempty hv

/-- `kfree` of a page outside the table. -/
lemma Tree.release (h : Tree s r F) (hq : InArea q) (hF : q ∉ F)
    (hout : ∀ d x, d ≤ 2 → x < 512 ^ d → node s.mem r d x ≠ some q) :
    Tree (s.release q) r (q :: F) ∧
      (∀ d x, d ≤ 2 → x < 512 ^ d → node (s.release q).mem r d x = node s.mem r d x) ∧
      ∀ v < 512 ^ 3, pteAt (s.release q).mem r v = pteAt s.mem r v := by
  have hfreelist : s.freelist < 2 ^ 64 := by
    have hchain := h.chain
    cases F with
    | nil =>
      rw [show s.freelist = 0 from hchain]
      decide
    | cons q' F =>
      have := inArea_lt (h.free q' List.mem_cons_self)
      rw [hchain.1]
      omega
  have hagree : ∀ d x q', d ≤ 2 → x < 512 ^ d → node s.mem r d x = some q' →
      Agree s.mem (s.release q).mem q' :=
    fun d x q' hd hx hq' => s.agree_release fun he => hout d x hd hx (he ▸ hq')
  have hnode : ∀ d x, d ≤ 2 → x < 512 ^ d → node (s.release q).mem r d x = node s.mem r d x :=
    fun d x hd hx => node_congr (fun d' x' q' hd' => hagree d' x' q' (by omega)) hx
  refine ⟨⟨⟨rfl, inArea_pos hq, ?_⟩, List.nodup_cons.mpr ⟨hF, h.nodup⟩, ?_, ?_, ?_⟩,
    hnode, fun v hv => pteAt_congr hagree hv⟩
  · have hnext : getLE (s.release q).mem (4096 * q) 8 = s.freelist := by
      unfold Phys.release
      rw [getLE_putLE]
      exact Nat.mod_eq_of_lt hfreelist
    rw [hnext]
    exact h.chain.congr fun q' hq' => s.agree_release fun he => hF (he ▸ hq')
  · intro q' hq'
    rcases List.mem_cons.mp hq' with rfl | hq'
    · exact hq
    · exact h.free q' hq'
  · intro d x q' hd hx hq'
    rw [hnode d x hd hx] at hq'
    obtain ⟨harea, hnot⟩ := h.area hd hx hq'
    refine ⟨harea, fun hm => ?_⟩
    rcases List.mem_cons.mp hm with rfl | hm
    · exact hout d x hd hx hq'
    · exact hnot hm
  · intro d x d' x' q' hd hx hd' hx' hq₁ hq₂
    rw [hnode d x hd hx] at hq₁
    rw [hnode d' x' hd' hx'] at hq₂
    exact h.inj hd hx hd' hx' hq₁ hq₂

/-! ## Lookups -/

lemma Tree.walk (h : Tree s r F) (hva : va < maxVa) :
    walk (4096 * r) va false s = .ok (pteAddr s.mem r va, s) :=
  walk_eq_pteAddr hva fun hd hx hq => (h.area hd hx hq).1

omit [Layout] in
/-- `walk` returns only for addresses below `MAXVA`. -/
lemma walk_ok {pagetable pte : Nat} {alloc : Bool} (h : Mem.walk pagetable va alloc s = .ok (pte, s')) :
    va < maxVa := by
  by_contra hnot
  rw [Mem.walk, if_pos (by omega)] at h
  cases h

omit [Layout] in
lemma vpn_lt (hva : va < maxVa) : va / 4096 < 512 ^ 3 := by
  unfold maxVa at hva
  omega

lemma Tree.lookup (h : Tree s r F) (hva : va < maxVa) :
    lookup s (4096 * r) va = pteAt s.mem r (va / 4096) :=
  lookup_eq_pteAt hva fun hd hx hq => (h.area hd hx hq).1

/-- Different virtual pages have different entries. -/
lemma Tree.pteAddr_inj (h : Tree s r F) {va' : Nat} (hva : va < maxVa) (hva' : va' < maxVa)
    (hne : va / 4096 ≠ va' / 4096) (he : pteAddr s.mem r va = pteAddr s.mem r va') :
    pteAddr s.mem r va = 0 := by
  unfold pteAddr at he ⊢
  cases hq : node s.mem r 2 (va / 4096 / 512) with
  | none => rfl
  | some q =>
    have hx := div_lt_pow (vpn_lt hva)
    have hpos := inArea_pos (h.area (by decide) hx hq).1
    rw [hq] at he
    cases hq' : node s.mem r 2 (va' / 4096 / 512) with
    | none =>
      rw [hq'] at he
      dsimp only at he
      omega
    | some q' =>
      rw [hq'] at he
      dsimp only at he
      obtain rfl : q = q' := by omega
      have hsame := (h.inj (by decide) hx (by decide) (div_lt_pow (vpn_lt hva')) hq hq').2
      omega

/-! ## `walk` with allocation -/

/-- Another table with the same entries. -/
def SameMap (r : Nat) (s s' : Phys) : Prop := ∀ v < 512 ^ 3, pteAt s'.mem r v = pteAt s.mem r v

omit [Layout] in
/-- The number of a page-table page from that of the page above it. -/
lemma div_pow_px (level va : Nat) : va / 4096 / 512 ^ (level + 1) =
    512 * (va / 4096 / 512 ^ (level + 1 + 1)) + px (level + 1) va := by
  rw [px_level, pow_succ _ (level + 1), ← Nat.div_div_eq_div_mul, Nat.div_add_mod]

lemma Tree.walkLevels_alloc (hva : va < maxVa) :
    ∀ (level : Nat) {s : Phys} {F : List Nat} {q : Nat}, Tree s r F → level ≤ 2 →
      node s.mem r (2 - level) (va / 4096 / 512 ^ (level + 1)) = some q →
      Ends (walkLevels va true level (4096 * q)) s
        (fun res s' => ∃ F', Tree s' r F' ∧ SameMap r s s' ∧
          ∀ p, res = some p → ∃ q₀, p = 4096 * q₀ ∧ node s'.mem r 2 (va / 4096 / 512) = some q₀)
        fun _ => True := by
  intro level
  induction level with
  | zero =>
    intro s F q h _ hq
    refine ends_pure ⟨F, h, fun _ _ => rfl, ?_⟩
    rintro p ⟨⟩
    exact ⟨q, rfl, by simpa using hq⟩
  | succ level ih =>
    intro s F q h hl hq
    have hkid := node_level hl hq
    have hpx : px (level + 1) va < 512 := by
      rw [px_level]
      exact Nat.mod_lt _ (by decide)
    refine ends_bind_of_eq (show load64 _ s = .ok (_, s) from rfl) ?_
    rw [entry_eq]
    split
    next hvalid =>
      rw [kid, pteKid_of_valid hvalid] at hkid
      have harea := (h.area (by omega) (level_lt hva (by omega)) hkid).1
      rw [pte2pa_kid harea (pteKid_of_valid hvalid)]
      exact ih h (by omega) hkid
    next hinvalid =>
      have hold : kid s.mem q (px (level + 1) va) = none :=
        pteKid_eq_none.mpr (by simpa using hinvalid)
      rw [if_neg (by decide)]
      cases F with
      | nil =>
        refine ends_bind_of_eq (kalloc_nil h.chain) (ends_pure ⟨[], h, fun _ _ => rfl, ?_⟩)
        rintro p ⟨⟩
      | cons q₁ F =>
        have hpos := h.chain.2.1
        have hpte : pa2pte (4096 * q₁) ||| pteV = 1024 * q₁ + 1 := by
          rw [pa2pte_page]
          exact or_flags (by decide)
        obtain ⟨htree, hnode, hmap⟩ := h.grow (by omega) (level_lt hva hl) hq hpx hold
        refine ends_bind_of_eq (kalloc_cons h.chain) ?_
        rw [if_neg (by omega), hpte]
        refine ends_modify_bind (ends_modify_bind ?_)
        have hd : 2 - level = 2 - (level + 1) + 1 := by omega
        have hnew := hnode (2 - level) (va / 4096 / 512 ^ (level + 1)) (by omega) (level_lt hva (by omega))
        rw [if_pos ⟨hd, div_pow_px level va⟩] at hnew
        refine (ih htree (by omega) hnew).mono ?_
        rintro res s' ⟨F', htree', hmap', hres⟩
        exact ⟨F', htree', fun v hv => (hmap' v hv).trans (hmap v hv), hres⟩

lemma Tree.walk_alloc (h : Tree s r F) (va : Nat) :
    Ends (Mem.walk (4096 * r) va true) s
      (fun pte s' => va < maxVa ∧ ∃ F', Tree s' r F' ∧ SameMap r s s' ∧
        (pte = 0 ∨ ∃ q₀, pte = 4096 * q₀ + 8 * (va / 4096 % 512) ∧
          node s'.mem r 2 (va / 4096 / 512) = some q₀))
      fun _ => True := by
  unfold Mem.walk
  split
  next => exact ends_throw trivial
  next hlt =>
    have hva : va < maxVa := by omega
    refine (Tree.walkLevels_alloc hva 2 h (by omega) (q := r) rfl).bind ?_
    rintro res s' ⟨F', htree, hmap, hres⟩
    cases res with
    | none => exact ends_pure ⟨hva, F', htree, hmap, .inl rfl⟩
    | some p =>
      obtain ⟨q₀, rfl, hnode⟩ := hres p rfl
      have hpx : px 0 va = va / 4096 % 512 := by rw [px_level, pow_zero, Nat.div_one]
      refine ends_pure ⟨hva, F', htree, hmap, .inr ⟨q₀, ?_, hnode⟩⟩
      rw [hpx]

/-! ## `mappages` -/

/-- The entry that `mappages` stores. -/
def storedPte (pa perm : Nat) : Nat := (pa2pte pa ||| perm ||| pteV) % 2 ^ 64

/-- One round of `mappages`. -/
lemma Tree.mapRound (h : Tree s r F) {pa : Nat} {k : PhysM Int} {Q : Int → Phys → Prop}
    (hnone : ∀ s' F', Tree s' r F' → 4096 * v < maxVa → SameMap r s s' → Q (-1) s')
    (hmap : ∀ s' F', Tree s' r F' → 4096 * v < maxVa → (∀ u < 512 ^ 3, pteAt s'.mem r u =
      if u = v then storedPte pa perm else pteAt s.mem r u) → Ends k s' Q fun _ => True) :
    Ends (do
      let pte ← Mem.walk (4096 * r) (4096 * v) true
      if pte = 0 then pure (-1)
      else do
        let x ← load64 pte
        if x &&& pteV ≠ 0 then throw .mappagesRemap
        else do
          store64 pte (pa2pte pa ||| perm ||| pteV)
          k) s Q fun _ => True := by
  have hpage : 4096 * v / 4096 = v := Nat.mul_div_cancel_left v (by decide)
  refine (h.walk_alloc (4096 * v)).bind ?_
  rintro pte s₁ ⟨hva, F₁, htree, hsame, hpte⟩
  have hv : v < 512 ^ 3 := hpage ▸ vpn_lt hva
  rw [hpage] at hpte
  split
  next hzero => exact ends_pure (hnone s₁ F₁ htree hva hsame)
  next hne =>
    obtain ⟨q, rfl, hq⟩ := hpte.resolve_left hne
    refine ends_bind_of_eq (show load64 _ s₁ = .ok (_, s₁) from rfl) ?_
    split
    next => exact ends_throw trivial
    next =>
      obtain ⟨htree', -, hset⟩ := htree.setLeaf hv hq (pa2pte pa ||| perm ||| pteV)
      refine ends_modify_bind (hmap _ F₁ htree' hva fun u hu => ?_)
      rw [← hsame u hu]
      exact hset u hu

/-- The loop of `mappages` adds a run of entries, and all of them if it returns 0. -/
lemma Tree.mapRounds (more : Nat) : ∀ {s : Phys} {F : List Nat} {v pa : Nat}, Tree s r F →
    pa < 2 ^ 64 →
    Ends (mapRounds (4096 * r) perm (4096 * v) pa more) s
      (fun res s' => ∃ k F', Tree s' r F' ∧ 4096 * (v + k) ≤ maxVa ∧
        (res = 0 ∧ k = more + 1 ∨ res = -1 ∧ k ≤ more) ∧
        ∀ u < 512 ^ 3, pteAt s'.mem r u =
          if v ≤ u ∧ u < v + k then storedPte ((pa + 4096 * (u - v)) % 2 ^ 64) perm
          else pteAt s.mem r u)
      fun _ => True := by
  induction more with
  | zero =>
    intro s F v pa h hpa
    rw [Mem.mapRounds]
    refine h.mapRound (fun s' F' htree hva hsame => ?_) fun s' F' htree hva hset => ends_pure ?_
    · refine ⟨0, F', htree, by omega, .inr ⟨rfl, Nat.zero_le 0⟩, fun u hu => ?_⟩
      rw [if_neg (by omega), hsame u hu]
    · refine ⟨1, F', htree, ?_, .inl ⟨rfl, rfl⟩, fun u hu => ?_⟩
      · unfold maxVa at hva ⊢
        omega
      · rw [hset u hu]
        by_cases huv : u = v
        · rw [if_pos huv, if_pos (by omega), huv, Nat.sub_self, Nat.mul_zero, Nat.add_zero,
            Nat.mod_eq_of_lt hpa]
        · rw [if_neg huv, if_neg (by omega)]
  | succ more ih =>
    intro s F v pa h hpa
    rw [Mem.mapRounds]
    refine h.mapRound (fun s' F' htree hva hsame => ?_) fun s' F' htree hva hset => ?_
    · refine ⟨0, F', htree, by omega, .inr ⟨rfl, Nat.zero_le _⟩, fun u hu => ?_⟩
      rw [if_neg (by omega), hsame u hu]
    · have hnext : 4096 * v + pgSize = 4096 * (v + 1) := rfl
      rw [hnext]
      refine (ih htree (Nat.mod_lt _ (by decide))).mono ?_
      rintro res s₂ ⟨k, F₂, htree₂, hle, hres, hptes⟩
      refine ⟨k + 1, F₂, htree₂, by omega, by omega, fun u hu => ?_⟩
      rw [hptes u hu]
      by_cases huv : u = v
      · rw [if_neg (by omega), if_pos (by omega), hset u hu, if_pos huv, huv, Nat.sub_self, Nat.mul_zero,
          Nat.add_zero, Nat.mod_eq_of_lt hpa]
      · by_cases hin : v + 1 ≤ u ∧ u < v + 1 + k
        · rw [if_pos hin, if_pos (by omega)]
          have hpa' : ((pa + pgSize) % 2 ^ 64 + 4096 * (u - (v + 1))) % 2 ^ 64 =
              (pa + 4096 * (u - v)) % 2 ^ 64 := by
            unfold pgSize
            omega
          rw [hpa']
        · rw [if_neg hin, if_neg (by omega), hset u hu, if_neg huv]

/-- How many more pages than the first the range of `mappages` has. -/
def rangeMore (va size : Nat) : Nat :=
  (pgRoundDown ((va + size - 1) % 2 ^ 64) + 2 ^ 64 - pgRoundDown va) % 2 ^ 64 / pgSize

lemma Tree.mappages (h : Tree s r F) {size pa : Nat} (hpa : pa < 2 ^ 64) :
    Ends (mappages (4096 * r) va size pa perm) s
      (fun res s' => size ≠ 0 ∧ ∃ k F', Tree s' r F' ∧ 4096 * (va / 4096 + k) ≤ maxVa ∧
        (res = 0 ∧ k = rangeMore va size + 1 ∨ res = -1 ∧ k ≤ rangeMore va size) ∧
        ∀ u < 512 ^ 3, pteAt s'.mem r u =
          if va / 4096 ≤ u ∧ u < va / 4096 + k then
            storedPte ((pa + 4096 * (u - va / 4096)) % 2 ^ 64) perm
          else pteAt s.mem r u)
      fun _ => True := by
  have hdown : pgRoundDown va = 4096 * (va / 4096) := Nat.mul_comm ..
  unfold Mem.mappages
  split
  next => exact ends_throw trivial
  next hpos =>
    have hrounds := @Tree.mapRounds _ r perm (rangeMore va size) _ _ (va / 4096) _ h hpa
    rw [← hdown] at hrounds
    exact hrounds.mono fun _ _ hs => ⟨hpos, hs⟩

/-! ## `uvmunmap` -/

section

omit [Layout]

/-- The page that an entry refers to. -/
def pageOf (w : Nat) : Nat := pte2pa w / 4096

/-- The pages behind `n` entries may go to the free list: they are `n` pages that are not
there yet and that are no page-table pages. -/
structure Releasable (s : Phys) (r : Nat) (F : List Nat) (v n : Nat) : Prop where
  out : ∀ u < 512 ^ 3, v ≤ u → u < v + n → pageOf (pteAt s.mem r u) ∉ F ∧
    ∀ d x, d ≤ 2 → x < 512 ^ d → node s.mem r d x ≠ some (pageOf (pteAt s.mem r u))
  distinct : ∀ u, ∀ u' < 512 ^ 3, v ≤ u → u < u' → u' < v + n →
    pageOf (pteAt s.mem r u) ≠ pageOf (pteAt s.mem r u')

/-- The first of the entries is cleared and its page is free. -/
lemma Releasable.next {n : Nat} (h : Releasable s r F v (n + 1))
    (hnode : ∀ d x, d ≤ 2 → x < 512 ^ d → node s'.mem r d x = node s.mem r d x)
    (hptes : ∀ u < 512 ^ 3, pteAt s'.mem r u = if u = v then 0 else pteAt s.mem r u) :
    Releasable s' r (pageOf (pteAt s.mem r v) :: F) (v + 1) n where
  out u hu hlo hhi := by
    obtain ⟨hF, hout⟩ := h.out u hu (by omega) (by omega)
    rw [hptes u hu, if_neg (by omega), List.mem_cons, not_or]
    refine ⟨⟨fun he => ?_, hF⟩, fun d x hd hx => ?_⟩
    · exact h.distinct v u hu (Nat.le_refl v) (by omega) (by omega) he.symm
    · rw [hnode d x hd hx]
      exact hout d x hd hx
  distinct u u' hu' hlo hlt hhi := by
    rw [hptes u (by omega), hptes u' hu', if_neg (by omega), if_neg (by omega)]
    exact h.distinct u u' hu' (by omega) hlt (by omega)

lemma Releasable.mono {n n' : Nat} (h : Releasable s r F v n) (hn : n' ≤ n) : Releasable s r F v n' where
  out u hu hlo hhi := h.out u hu hlo (by omega)
  distinct u u' hu' hlo hlt hhi := h.distinct u u' hu' hlo hlt (by omega)

/-- How many rounds `uvmunmap` makes. -/
def unmapCount (va npages : Nat) : Nat := ((va + npages * pgSize) % 2 ^ 64 - va) / pgSize

lemma unmapCount_le (va npages : Nat) : unmapCount va npages ≤ npages := by
  have hle := Nat.mod_le (va + npages * 4096) (2 ^ 64)
  unfold unmapCount pgSize
  omega

lemma unmapCount_eq {va npages : Nat} (h : va + npages * pgSize < 2 ^ 64) :
    unmapCount va npages = npages := by
  unfold unmapCount
  rw [Nat.mod_eq_of_lt h, Nat.add_sub_cancel_left]
  exact Nat.mul_div_cancel _ (by decide)

end

/-- `kfree` of the page behind an entry. -/
lemma Tree.kfree (h : Tree s r F) (hF : pageOf w ∉ F)
    (hout : ∀ d x, d ≤ 2 → x < 512 ^ d → node s.mem r d x ≠ some (pageOf w)) :
    Ends (Mem.kfree (pte2pa w)) s
      (fun _ s' => Tree s' r (pageOf w :: F) ∧
        (∀ d x, d ≤ 2 → x < 512 ^ d → node s'.mem r d x = node s.mem r d x) ∧ SameMap r s s')
      fun _ => True := by
  have hpage : pte2pa w = 4096 * pageOf w := by
    unfold pageOf
    rw [pte2pa_eq]
    omega
  by_cases harea : InArea (pageOf w)
  · rw [hpage, Ends, kfree_eq harea]
    exact h.release harea hF hout
  · unfold Mem.kfree
    rw [if_pos]
    · exact ends_throw trivial
    · by_contra hnot
      apply harea
      have hle := Layout.kend_le
      unfold InArea
      unfold physTop kernBase at hle hnot ⊢
      rw [pgRoundUp_eq (by omega)]
      omega

/-- The loop of `uvmunmap` removes `n` entries. -/
lemma Tree.unmapRounds {doFree : Bool} (n : Nat) : ∀ {s : Phys} {F : List Nat} {v : Nat}, Tree s r F →
    (doFree = true → Releasable s r F v n) →
    Ends (unmapRounds (4096 * r) doFree (4096 * v) n) s
      (fun _ s' => (∃ F', Tree s' r F') ∧
        (∀ u, v ≤ u → u < v + n → 4096 * u < maxVa ∧ pteAt s.mem r u &&& pteV ≠ 0) ∧
        ∀ u < 512 ^ 3, pteAt s'.mem r u = if v ≤ u ∧ u < v + n then 0 else pteAt s.mem r u)
      fun _ => True := by
  induction n with
  | zero =>
    intro s F v h _
    refine ends_pure ⟨⟨F, h⟩, fun u _ _ => by omega, fun u _ => ?_⟩
    rw [if_neg (by omega)]
  | succ n ih =>
    intro s F v h hrel
    rw [Mem.unmapRounds]
    by_cases hva : maxVa ≤ 4096 * v
    · refine Ends.bind (Q := fun _ _ => False) ?_ fun _ _ hc => hc.elim
      unfold Mem.walk
      rw [if_pos hva]
      exact ends_throw trivial
    have hlt : 4096 * v < maxVa := by omega
    have hpage : 4096 * v / 4096 = v := Nat.mul_div_cancel_left v (by decide)
    have hv : v < 512 ^ 3 := hpage ▸ vpn_lt hlt
    refine ends_bind_of_eq (h.walk hlt) ?_
    cases hq : node s.mem r 2 (v / 512) with
    | none =>
      rw [pteAddr, hpage, hq]
      exact ends_throw trivial
    | some q =>
      rw [pteAddr_of_node hq]
      split
      next => exact ends_throw trivial
      refine ends_bind_of_eq (show load64 _ s = .ok (_, s) from rfl) ?_
      rw [entry_eq, ← pteAt_of_node hq]
      split
      next => exact ends_throw trivial
      next hvalid =>
      split
      next => exact ends_throw trivial
      -- what is left of the table when the page may have been freed
      refine Ends.bind (Q := fun _ s₁ => ∃ F₁, Tree s₁ r F₁ ∧
        (∀ d x, d ≤ 2 → x < 512 ^ d → node s₁.mem r d x = node s.mem r d x) ∧ SameMap r s s₁ ∧
        (doFree = true → F₁ = pageOf (pteAt s.mem r v) :: F)) ?_ ?_
      · split
        next hfree =>
          obtain ⟨hF, hout⟩ := (hrel hfree).out v hv (Nat.le_refl v) (by omega)
          exact (h.kfree hF hout).mono fun _ s₁ hs₁ => ⟨_, hs₁.1, hs₁.2.1, hs₁.2.2, fun _ => rfl⟩
        next hkeep =>
          exact ends_pure ⟨F, h, fun _ _ _ _ => rfl, fun _ _ => rfl, fun hc => absurd hc hkeep⟩
      · rintro - s₁ ⟨F₁, htree, hnode, hsame, hF₁⟩
        obtain ⟨htree', hnode', hset⟩ := htree.setLeaf hv
          ((hnode 2 _ (by decide) (div_lt_pow hv)).trans hq) 0
        have hptes : ∀ u < 512 ^ 3, pteAt (putLE s₁.mem (4096 * q + 8 * (v % 512)) 8 0) r u =
            if u = v then 0 else pteAt s.mem r u := by
          intro u hu
          rw [hset u hu, hsame u hu]
          rfl
        refine ends_modify_bind ?_
        have hnext : 4096 * v + pgSize = 4096 * (v + 1) := rfl
        rw [hnext]
        refine (ih htree' fun hfree => ?_).mono ?_
        · rw [hF₁ hfree]
          exact (hrel hfree).next (fun d x hd hx => (hnode' d x hd hx).trans (hnode d x hd hx)) hptes
        · rintro - s₂ ⟨htree₂, hmapped, hrest⟩
          refine ⟨htree₂, fun u hlo hhi => ?_, fun u hu => ?_⟩
          · by_cases huv : u = v
            · rw [huv]
              exact ⟨hlt, hvalid⟩
            · obtain ⟨hu, hbit⟩ := hmapped u (by omega) (by omega)
              change pteAt (putLE s₁.mem _ 8 0) r u &&& pteV ≠ 0 at hbit
              rw [hptes u (by unfold maxVa at hu; omega), if_neg huv] at hbit
              exact ⟨hu, hbit⟩
          · rw [hrest u hu]
            show (if _ then 0 else pteAt (putLE s₁.mem _ 8 0) r u) = _
            rw [hptes u hu]
            by_cases huv : u = v
            · rw [if_pos huv, ite_self, if_pos (by omega)]
            · rw [if_neg huv]
              by_cases hin : v + 1 ≤ u ∧ u < v + 1 + n
              · rw [if_pos hin, if_pos (by omega)]
              · rw [if_neg hin, if_neg (by omega)]

lemma Tree.uvmunmap (h : Tree s r F) {npages : Nat} {doFree : Bool}
    (hrel : doFree = true → Releasable s r F (va / 4096) npages) :
    Ends (uvmunmap (4096 * r) va npages doFree) s
      (fun _ s' => va = 4096 * (va / 4096) ∧ (∃ F', Tree s' r F') ∧
        (∀ u, va / 4096 ≤ u → u < va / 4096 + unmapCount va npages →
          4096 * u < maxVa ∧ pteAt s.mem r u &&& pteV ≠ 0) ∧
        ∀ u < 512 ^ 3, pteAt s'.mem r u =
          if va / 4096 ≤ u ∧ u < va / 4096 + unmapCount va npages then 0 else pteAt s.mem r u)
      fun _ => True := by
  unfold Mem.uvmunmap
  split
  next => exact ends_throw trivial
  next haligned =>
    have hva : va = 4096 * (va / 4096) := by
      unfold pgSize at haligned
      omega
    have hrounds := Tree.unmapRounds (unmapCount va npages) h fun hfree =>
      (hrel hfree).mono (unmapCount_le va npages)
    rw [← hva] at hrounds
    exact hrounds.mono fun _ _ hs => ⟨hva, hs⟩

/-! ## Tables that are built -/

/-- A page table that `uvmcreate` has made and that `mappages` and `uvmunmap` have changed.
`uvmunmap` frees only what may be freed. -/
inductive Assembled : Phys → Nat → Prop
  | uvmcreate {s s' : Phys} {pagetable : Nat} {F : List Nat} (hchain : Chain s.mem s.freelist F)
      (hnodup : F.Nodup) (hfree : ∀ q ∈ F, InArea q) (hrun : uvmcreate s = .ok (pagetable, s'))
      (hne : pagetable ≠ 0) : Assembled s' pagetable
  | mappages {s s' : Phys} {pagetable va size pa perm : Nat} {res : Int} (h : Assembled s pagetable)
      (hpa : pa < 2 ^ 64) (hrun : mappages pagetable va size pa perm s = .ok (res, s')) :
      Assembled s' pagetable
  | uvmunmap {s s' : Phys} {pagetable va npages : Nat} {doFree : Bool} (h : Assembled s pagetable)
      (hrel : doFree = true → ∀ F, Chain s.mem s.freelist F →
        Releasable s (pagetable / 4096) F (va / 4096) npages)
      (hrun : uvmunmap pagetable va npages doFree s = .ok ((), s')) : Assembled s' pagetable

/-- A page of zeros is a tree by itself. -/
lemma tree_root (hchain : Chain s.mem s.freelist (q :: F)) (hnodup : (q :: F).Nodup)
    (hfree : ∀ q' ∈ q :: F, InArea q') :
    let m := fill (s.take q).mem (4096 * q) 0 4096
    Tree ((s.take q).withMem m) q F ∧ ∀ d x, node m q (d + 1) x = none := by
  intro m
  obtain ⟨hnot, hnodup'⟩ := List.nodup_cons.mp hnodup
  have hempty : ∀ d x, node m q (d + 1) x = none := fun d x => node_empty fun j hj => entry_fill_zero hj
  refine ⟨⟨hchain.2.2.congr fun q' hq' => ?_, hnodup', fun q' hq' => hfree q' (List.mem_cons_of_mem q hq'),
    ?_, ?_⟩, hempty⟩
  · have hne : q' ≠ q := fun he => hnot (he ▸ hq')
    exact (s.agree_take hne).trans (agree_fill hne)
  · intro d x q' hd hx hq'
    change node m q d x = some q' at hq'
    cases d with
    | zero =>
      cases hq'
      exact ⟨hfree q List.mem_cons_self, hnot⟩
    | succ d =>
      rw [hempty d x] at hq'
      cases hq'
  · intro d x d' x' q' hd hx hd' hx' hq₁ hq₂
    change node m q d x = some q' at hq₁
    change node m q d' x' = some q' at hq₂
    cases d with
    | succ d =>
      rw [hempty d x] at hq₁
      cases hq₁
    | zero =>
      cases d' with
      | succ d' =>
        rw [hempty d' x'] at hq₂
        cases hq₂
      | zero => exact ⟨rfl, by omega⟩

/-- `uvmcreate` leaves a tree of one page. -/
lemma tree_uvmcreate (hchain : Chain s.mem s.freelist F) (hnodup : F.Nodup)
    (hfree : ∀ q ∈ F, InArea q) :
    Ends uvmcreate s (fun pagetable s' => pagetable = 0 ∨ ∃ r F', pagetable = 4096 * r ∧ Tree s' r F')
      fun _ => True := by
  cases F with
  | nil => exact ends_bind_of_eq (kalloc_nil hchain) (ends_pure (.inl rfl))
  | cons q F =>
    have hpos := hchain.2.1
    refine ends_bind_of_eq (kalloc_cons hchain) ?_
    rw [if_neg (by omega)]
    exact ends_modify_bind (ends_pure (.inr ⟨q, F, rfl, (tree_root hchain hnodup hfree).1⟩))

/-- The page-table pages of a table that is built form a tree. -/
lemma Assembled.tree {pagetable : Nat} (h : Assembled s pagetable) :
    ∃ r F, pagetable = 4096 * r ∧ Tree s r F := by
  induction h with
  | uvmcreate hchain hnodup hfree hrun hne =>
    exact ((tree_uvmcreate hchain hnodup hfree).ok hrun).resolve_left hne
  | mappages h hpa hrun ih =>
    obtain ⟨r, F, rfl, htree⟩ := ih
    obtain ⟨-, k, F', htree', -⟩ := (htree.mappages hpa).ok hrun
    exact ⟨r, F', rfl, htree'⟩
  | uvmunmap h hrel hrun ih =>
    obtain ⟨r, F, rfl, htree⟩ := ih
    rw [Nat.mul_div_cancel_left r (by decide)] at hrel
    obtain ⟨-, ⟨F', htree'⟩, -⟩ := (htree.uvmunmap fun hf => hrel hf F htree.chain).ok hrun
    exact ⟨r, F', rfl, htree'⟩

/-! ## The map -/

section

omit [Layout]

/-- What `PA2PTE` and the flags store comes back, for an address that has been cut to 64
bits. -/
lemma storedPte_decode {pa : Nat} (hpa : pa < 2 ^ 64) (haligned : pa % 4096 = 0) (hp : perm < 1024) :
    pte2pa (storedPte pa perm) = pa ∧ pteFlags (storedPte pa perm) = perm ||| pteV := by
  have hflags := flags_lt hp
  have hstored : storedPte pa perm = 1024 * (pa / 4096) + (perm ||| 1) := by
    have hpage : pa = 4096 * (pa / 4096) := by omega
    unfold storedPte
    rw [hpage, leafPte_eq hp, Nat.mul_div_cancel_left _ (by decide)]
    unfold leafPte
    apply Nat.mod_eq_of_lt
    omega
  rw [hstored, pte2pa_eq, pteFlags_eq]
  refine ⟨by omega, ?_⟩
  show _ = perm ||| 1
  omega

/-- The pages of the range from `va` on of `size` bytes. -/
def rangePages (va size : Nat) : Nat := (pgRoundDown (va + size - 1) - pgRoundDown va) / pgSize + 1

/-- A range that does not go beyond the end of the `uint64` numbers. -/
lemma rangeMore_eq {size : Nat} (hle : va + size ≤ 2 ^ 64) (hpos : size ≠ 0) :
    rangeMore va size + 1 = rangePages va size := by
  have hlast : (va + size - 1) % 2 ^ 64 = va + size - 1 := Nat.mod_eq_of_lt (by omega)
  unfold rangeMore rangePages pgRoundDown pgSize
  rw [hlast, Nat.add_comm _ (2 ^ 64), Nat.add_sub_assoc (by omega), Nat.add_mod_left,
    Nat.mod_eq_of_lt (by omega)]

end

/-- `k` virtual pages from that of `va` on are mapped to the physical pages from `pa` on,
and the rest of the map is as before. -/
structure MapsRun (s s' : Phys) (pagetable va pa perm k : Nat) : Prop where
  pages : ∀ i < k, pte2pa (lookup s' pagetable (pgRoundDown va + i * pgSize)) = (pa + i * pgSize) % 2 ^ 64 ∧
    pteFlags (lookup s' pagetable (pgRoundDown va + i * pgSize)) = perm ||| pteV
  rest : ∀ va' < maxVa, ¬ (pgRoundDown va ≤ va' ∧ va' < pgRoundDown va + k * pgSize) →
    lookup s' pagetable va' = lookup s pagetable va'

lemma Tree.mapsRun {F' : List Nat} {pa k : Nat} (h : Tree s r F) (h' : Tree s' r F')
    (haligned : pa % pgSize = 0) (hp : perm < 1024) (hle : 4096 * (va / 4096 + k) ≤ maxVa)
    (hptes : ∀ u < 512 ^ 3, pteAt s'.mem r u = if va / 4096 ≤ u ∧ u < va / 4096 + k then
      storedPte ((pa + 4096 * (u - va / 4096)) % 2 ^ 64) perm else pteAt s.mem r u) :
    MapsRun s s' (4096 * r) va pa perm k where
  pages i hi := by
    have hdown : pgRoundDown va + i * pgSize = 4096 * (va / 4096 + i) := by
      unfold pgRoundDown pgSize
      omega
    have hva : 4096 * (va / 4096 + i) < maxVa := by omega
    have hstored : Mem.lookup s' (4096 * r) (pgRoundDown va + i * pgSize) =
        storedPte ((pa + i * pgSize) % 2 ^ 64) perm := by
      have hu := vpn_lt hva
      rw [Nat.mul_div_cancel_left _ (by decide)] at hu
      rw [hdown, h'.lookup hva, Nat.mul_div_cancel_left _ (by decide), hptes _ hu, if_pos (by omega),
        Nat.add_sub_cancel_left, Nat.mul_comm]
      rfl
    rw [hstored]
    refine storedPte_decode (Nat.mod_lt _ (by decide)) ?_ hp
    unfold pgSize at haligned ⊢
    omega
  rest va' hva' hout := by
    rw [h'.lookup hva', h.lookup hva', hptes _ (vpn_lt hva'), if_neg]
    unfold pgRoundDown pgSize at hout
    omega

/-- What is mapped is what `lookup` finds. -/
theorem pageTable_finiteMap {pagetable : Nat} (h : Assembled s pagetable) :
    (∀ va va' pte, va / pgSize ≠ va' / pgSize → walk pagetable va false s = .ok (pte, s) →
      walk pagetable va' false s = .ok (pte, s) → pte = 0) ∧
    (∀ va size pa perm s', va + size ≤ 2 ^ 64 → pa < 2 ^ 64 → pa % pgSize = 0 → perm < 1024 →
      mappages pagetable va size pa perm s = .ok (0, s') →
      MapsRun s s' pagetable va pa perm (rangePages va size)) ∧
    (∀ va size pa perm s', va + size ≤ 2 ^ 64 → pa < 2 ^ 64 → pa % pgSize = 0 → perm < 1024 →
      mappages pagetable va size pa perm s = .ok (-1, s') →
      ∃ k < rangePages va size, MapsRun s s' pagetable va pa perm k) ∧
    (∀ va npages doFree s', va + npages * pgSize < 2 ^ 64 →
      (doFree = true → ∀ F, Chain s.mem s.freelist F →
        Releasable s (pagetable / 4096) F (va / 4096) npages) →
      uvmunmap pagetable va npages doFree s = .ok ((), s') →
      (∀ i < npages, lookup s pagetable (va + i * pgSize) &&& pteV ≠ 0 ∧
        lookup s' pagetable (va + i * pgSize) = 0) ∧
      ∀ va' < maxVa, ¬ (va ≤ va' ∧ va' < va + npages * pgSize) →
        lookup s' pagetable va' = lookup s pagetable va') ∧
    ∀ pa flags, pa < 2 ^ 64 → pa % pgSize = 0 → flags < 1024 →
      pte2pa (pa2pte pa ||| flags) = pa ∧ pteFlags (pa2pte pa ||| flags) = flags := by
  obtain ⟨r, F, rfl, htree⟩ := h.tree
  refine ⟨?_, ?_, ?_, ?_, ?_⟩
  · intro va va' pte hne hwalk hwalk'
    have hva := walk_ok hwalk
    have hva' := walk_ok hwalk'
    rw [htree.walk hva] at hwalk
    rw [htree.walk hva'] at hwalk'
    cases hwalk
    have he : pteAddr s.mem r va' = pteAddr s.mem r va := by
      injection hwalk' with he
      exact (Prod.mk.inj he).1
    exact htree.pteAddr_inj hva hva' hne he.symm
  · intro va size pa perm s' hrange hpa haligned hp hrun
    obtain ⟨hpos, k, F', htree', hle, hres, hptes⟩ := (htree.mappages hpa).ok hrun
    have hk : k = rangePages va size := by
      rw [← rangeMore_eq hrange hpos]
      omega
    exact hk ▸ htree.mapsRun htree' haligned hp hle hptes
  · intro va size pa perm s' hrange hpa haligned hp hrun
    obtain ⟨hpos, k, F', htree', hle, hres, hptes⟩ := (htree.mappages hpa).ok hrun
    have hk : k < rangePages va size := by
      rw [← rangeMore_eq hrange hpos]
      omega
    exact ⟨k, hk, htree.mapsRun htree' haligned hp hle hptes⟩
  · intro va npages doFree s' hrange hrel hrun
    rw [Nat.mul_div_cancel_left r (by decide)] at hrel
    obtain ⟨hva, ⟨F', htree'⟩, hmapped, hptes⟩ := (htree.uvmunmap fun hf => hrel hf F htree.chain).ok hrun
    rw [unmapCount_eq hrange] at hmapped hptes
    refine ⟨fun i hi => ?_, fun va' hva' hout => ?_⟩
    · have hpage : va + i * pgSize = 4096 * (va / 4096 + i) := by
        unfold pgSize
        omega
      obtain ⟨hlt, hbit⟩ := hmapped (va / 4096 + i) (by omega) (by omega)
      have hu := vpn_lt hlt
      rw [Nat.mul_div_cancel_left _ (by decide)] at hu
      rw [hpage, htree.lookup hlt, htree'.lookup hlt, Nat.mul_div_cancel_left _ (by decide), hptes _ hu,
        if_pos (by omega)]
      exact ⟨hbit, rfl⟩
    · rw [htree.lookup hva', htree'.lookup hva', hptes _ (vpn_lt hva'), if_neg]
      unfold pgSize at hout
      omega
  · intro pa flags hpa haligned hf
    have hpage : pa = 4096 * (pa / 4096) := by
      unfold pgSize at haligned
      omega
    have hpte : pa2pte pa ||| flags = 1024 * (pa / 4096) + flags := by
      rw [hpage, pa2pte_page, or_flags hf, Nat.mul_div_cancel_left _ (by decide)]
    rw [hpte, pte2pa_eq, pteFlags_eq]
    omega

/-! ## A machine with three free pages -/

section

omit [Layout]

/-- All memory but the last three pages belongs to the kernel. -/
@[reducible] def tiny : Layout where
  kend := physTop - 3 * 4096
  trampoline := kernBase
  kend_le := by decide
  trampoline_aligned := by decide
  trampoline_ge := by decide
  trampoline_le := by decide

/-- The last three pages are free. -/
def tinyPhys : Phys where
  mem := putLE (putLE (fun _ => 0) (4096 * 557053) 8 (4096 * 557054)) (4096 * 557054) 8 (4096 * 557055)
  freelist := 4096 * 557053

lemma chain_tinyPhys : Chain tinyPhys.mem tinyPhys.freelist [557053, 557054, 557055] := by
  refine ⟨rfl, by decide, ?_, by decide, ?_, by decide, ?_⟩
  · decide +kernel
  · decide +kernel
  · show getLE _ _ _ = 0
    decide +kernel

/-- An empty table in the first of them. -/
def tinyTable : Phys :=
  (tinyPhys.take 557053).withMem (fill (tinyPhys.take 557053).mem (4096 * 557053) 0 4096)

lemma assembled_tinyTable : letI := tiny
    Assembled tinyTable (4096 * 557053) := by
  let _ := tiny
  have hcreate : uvmcreate tinyPhys = .ok (4096 * 557053, tinyTable) := by
    show (kalloc tinyPhys >>= fun p => _) = _
    rw [kalloc_cons chain_tinyPhys]
    rfl
  exact Assembled.uvmcreate chain_tinyPhys (by decide) (by unfold InArea; decide) hcreate (by decide)

/-- `mappages` of the first virtual page. -/
lemma mappages_tinyTable : letI := tiny
    ∃ s', mappages (4096 * 557053) 0 pgSize kernBase (pteR ||| pteU) tinyTable = .ok (0, s') ∧
      lookup s' (4096 * 557053) 0 &&& pteV ≠ 0 := by
  let _ := tiny
  have hrun : ((mappages (4096 * 557053) 0 pgSize kernBase (pteR ||| pteU) tinyTable).toOption.map
      fun x => (x.1, lookup x.2 (4096 * 557053) 0 &&& pteV)) = some (0, 1) := by
    decide +kernel
  obtain ⟨⟨res, s'⟩, hok, he⟩ := Option.map_eq_some_iff.mp hrun
  obtain ⟨rfl, hbit⟩ := Prod.mk.inj he
  refine ⟨s', ?_, by rw [hbit]; decide⟩
  revert hok
  cases mappages (4096 * 557053) 0 pgSize kernBase (pteR ||| pteU) tinyTable with
  | error e => rintro ⟨⟩
  | ok x =>
    rintro ⟨⟩
    rfl

/-- The first virtual page of a new table is mapped. -/
theorem pageTable_finiteMap_tiny : letI := tiny
    ∃ s', Assembled tinyTable (4096 * 557053) ∧
      mappages (4096 * 557053) 0 pgSize kernBase (pteR ||| pteU) tinyTable = .ok (0, s') ∧
      MapsRun tinyTable s' (4096 * 557053) 0 kernBase (pteR ||| pteU) (rangePages 0 pgSize) := by
  let _ := tiny
  obtain ⟨s', hrun, -⟩ := mappages_tinyTable
  obtain ⟨-, hmap, -⟩ := pageTable_finiteMap assembled_tinyTable
  exact ⟨s', assembled_tinyTable, hrun, hmap _ _ _ _ s' (by decide) (by decide) (by decide) (by decide) hrun⟩

/-- The number of bytes to unmap is a `uint64`: with `2 ^ 52` pages it is 0, and nothing is
unmapped. -/
theorem uvmunmap_overflow : letI := tiny
    ∃ s, Assembled s (4096 * 557053) ∧ uvmunmap (4096 * 557053) 0 (2 ^ 52) false s = .ok ((), s) ∧
      lookup s (4096 * 557053) 0 &&& pteV ≠ 0 := by
  let _ := tiny
  obtain ⟨s', hrun, hmapped⟩ := mappages_tinyTable
  exact ⟨s', assembled_tinyTable.mappages (by decide) hrun, rfl, hmapped⟩

end

end Xv6.Mem
